import LiveTimetable.Network.Index
import LiveTimetable.Schedule.Codec

/-!
# Building the network from a file

A fixture is a small static schedule in one JSON file: agencies, stops, services, and trips with
their stop times. `Fixture.build` makes the index and the graph of it. The stop times of a trip
are put in the order of their sequence numbers, equal numbers staying as they are in the file
(`bySequence`). Trips with one route and one sequence of stops share a pattern, and patterns are
numbered in the order in which the file first needs them.
-/

namespace LiveTimetable

/-- The dates of a service. -/
structure ServiceRecord where
  id : ServiceId
  dates : List ServiceDate
  deriving DecidableEq

/-- A trip with its stop times. -/
structure TripRecord where
  trip : Trip
  stopTimes : List StopTime
  deriving DecidableEq

/-- A static schedule as its file has it. -/
structure Fixture where
  agencies : List Agency
  stops : List Stop
  services : List ServiceRecord
  trips : List TripRecord
  deriving DecidableEq

/-- Why a file gives no network. -/
inductive FixtureError where
  /-- There is no such file, or it is no text. -/
  | unreadable
  /-- The text is no fixture. -/
  | malformed (problem : DecodeError)
  | unknownAgency (service : ServiceId)
  | schedule (error : ScheduleError)
  | graph (error : GraphError)
  deriving DecidableEq

/-- The wording of a fixture error that has one. -/
def FixtureError.message? : FixtureError → Option String
  | .unreadable => none
  | .malformed problem => problem.message?
  | .unknownAgency service => some ("service " ++ service.text ++ " belongs to an unknown agency")
  | .schedule error => some error.message
  | .graph error => some error.message

/-! ## Reading -/

namespace Decoder

/-- The fields of a service. -/
def serviceForm : RecordForm := [("id", check feedId), ("dates", check (list serviceDate))]

def service : Decoder ServiceRecord := fun j => do
  let fs ← j.fields serviceForm
  return {
    id := ← fs.required "id" feedId
    dates := ← fs.required "dates" (list serviceDate) }

/-- How deep a value may nest that is set aside within a trip of a fixture. Reading gives up at
the 128th level, and such a value stands within three. -/
def asideDepth : Nat := 124

/-- Walks the members of a trip with stop times. Stop times are decoded as they come; all other
members are set aside, and must be whole. -/
def walkTrip : Bool → List (Option String × Json) → Except DecodeError Unit
  | _, [] => .ok ()
  | _, (none, _) :: _ => .error .mismatch
  | seen, (some name, j) :: rest =>
    if name = "stop_times" then
      if seen then .error .mismatch
      else do
        check (list stopTime) j
        walkTrip true rest
    else if j.isKept asideDepth then walkTrip seen rest
    else .error .mismatch

/-- A trip and its stop times in one object. The trip's own fields come to their turn after all
stop times have been decoded. -/
def tripRecord : Decoder TripRecord
  | .obj members => do
    walkTrip false members
    let stopTimes ← Fields.required ⟨members⟩ "stop_times" (list stopTime)
    let trip ← trip (.obj (members.filter fun m => m.1 != some "stop_times"))
    return ⟨trip, stopTimes⟩
  | _ => .error .mismatch

/-- The fields of a fixture. -/
def fixtureForm (zones : Zones) : RecordForm :=
  [("agencies", check (list (agency zones))), ("stops", check (list stop)),
    ("services", check (list service)), ("trips", check (list tripRecord))]

def fixture (zones : Zones) : Decoder Fixture := fun j => do
  let fs ← j.fields (fixtureForm zones)
  return {
    agencies := ← fs.required "agencies" (list (agency zones))
    stops := ← fs.required "stops" (list stop)
    services := ← fs.withDefault "services" (list service) []
    trips := ← fs.required "trips" (list tripRecord) }

end Decoder

namespace Fixture

/-- The fixture of a text. -/
def ofText (zones : Zones) (s : String) : Except FixtureError Fixture :=
  (Json.decode (Decoder.fixture zones) s).mapError .malformed

/-- The fixture of a file's bytes; there are none if there is no file. -/
def ofFile (zones : Zones) (content : Option ByteArray) : Except FixtureError Fixture :=
  match content.bind String.fromUTF8? with
  | some s => ofText zones s
  | none => .error .unreadable

/-! ## Building -/

/-- The stop times with one more, behind those that do not come after it. -/
def insertBySequence (s : StopTime) : List StopTime → List StopTime
  | [] => [s]
  | x :: rest => if s.sequence < x.sequence then s :: x :: rest else x :: insertBySequence s rest

/-- The stop times in the order of their sequence numbers. -/
def bySequence (stopTimes : List StopTime) : List StopTime :=
  stopTimes.foldl (fun sorted s => insertBySequence s sorted) []

/-- Registers services in the zones of their agencies. -/
def registerServices (agencies : List Agency) :
    List ServiceRecord → Services → Except FixtureError Services
  | [], services => .ok services
  | r :: rest, services =>
    match agencies.find? fun a => a.id == r.id.agency with
    | none => .error (.unknownAgency r.id)
    | some agency => registerServices agencies rest (services.register r.id agency.zone r.dates)

/-- Courses with the trips that follow them, in the order of their first trips. -/
abbrev Groups := List (Course × List Baseline)

/-- The groups with one more trip. -/
def addToGroup (course : Course) (b : Baseline) : Groups → Groups
  | [] => [(course, [b])]
  | (c, trips) :: rest =>
    if c = course then (c, trips ++ [b]) :: rest else (c, trips) :: addToGroup course b rest

/-- Publishes trips, counting serial numbers up, and adds them to their groups. -/
def groupTrips (x : TransitIndex) :
    (serial : Nat) → List TripRecord → Groups → Except FixtureError Groups
  | _, [], groups => .ok groups
  | serial, r :: rest, groups =>
    let stopTimes := bySequence r.stopTimes
    match stopTimes.find? fun s => !x.stops.contains s.stopId with
    | some s => .error (.schedule (.unknownStop s.stopId))
    | none =>
      match Baseline.publish serial r.trip stopTimes with
      | .error e => .error (.schedule e)
      | .ok b =>
        groupTrips x (serial + 1) rest
          (addToGroup ⟨r.trip.routeId, stopTimes.map StopTime.stopId⟩ b groups)

/-- Makes a pattern of each group and puts it into the network. The patterns are identified by
numbers that count up. -/
def addPatterns (identify : Nat → PatternId) :
    (number : Nat) → Groups → TransitIndex × Graph → Attempt FixtureError (TransitIndex × Graph)
  | _, [], network => return network
  | number, (course, trips) :: rest, (x, g) => do
    let p ← (Pattern.publish (identify number) course.routeId course.stops trips false).adapt
      .schedule
    let x ← ExceptT.mk (.ok ((x.addPattern p).mapError .graph))
    addPatterns identify (number + 1) rest (x, g.addScheduled p)

/-- The network of a static schedule, and how its patterns are identified. -/
def buildWith (identify : Nat → PatternId) (f : Fixture) :
    Attempt FixtureError (TransitIndex × Graph) := do
  let services ← ExceptT.mk (.ok (registerServices f.agencies f.services Services.empty))
  let x := f.stops.foldl TransitIndex.addStop
    (f.agencies.foldl TransitIndex.addAgency TransitIndex.empty)
  let groups ← ExceptT.mk (.ok (groupTrips x 0 f.trips []))
  addPatterns identify 0 groups
    (x, Graph.ofServices (identify groups.length).number f.trips.length services)

/-- The network of a static schedule. Its patterns have numbers of any size. Where 32 bits are kept
of a number (`PatternId.wrapped`) the network is the same, as long as the file has fewer than 2^32
courses. -/
def build (f : Fixture) : Attempt FixtureError (TransitIndex × Graph) := f.buildWith PatternId.mk

end Fixture

end LiveTimetable
