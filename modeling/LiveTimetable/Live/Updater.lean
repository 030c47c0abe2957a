import LiveTimetable.Feed.Alignment
import LiveTimetable.Feed.Filter
import LiveTimetable.Live.AddedTrips
import LiveTimetable.Live.Error
import LiveTimetable.Live.Settings
import LiveTimetable.Live.Source
import LiveTimetable.Network.Index
import LiveTimetable.Publication.Publisher

/-!
# The updater

The single writer. It applies trip updates to the buffer, the graph and the index, and publishes
snapshots.

* `Updater.apply` takes one update. A trip that the schedule has is modified, canceled or
  reverted in the buffer. A trip that it does not have can be added: it gets a synthesized pattern
  until a cancellation or a removal withdraws it.
* `Updater.purge` drops what belongs to service days that are over.
* `Updater.runAt` takes the next batch of a source, purges if the settings say so, and publishes.

An update is applied or refused; a refused one comes with the state that it leaves. A fault ends
the run, in the state before the step that met it. What that step had begun to write is left out,
and so is the count of applied updates, which only decides when a line is logged. The clock and
the date of today are arguments.
-/

namespace LiveTimetable

/-- The state of the writer. -/
structure Updater where
  index : TransitIndex
  graph : Graph
  publisher : Publisher
  added : AddedTrips
  settings : Settings
  /-- The latest date through which was purged. -/
  purgedThrough : Option ServiceDate
  /-- The last revision of each pattern that was taken out. -/
  withdrawn : Table PatternId Nat
  deriving DecidableEq

/-- What a run did. -/
structure RunSummary where
  applied : Nat
  failed : Nat
  purged : Bool
  deriving DecidableEq

namespace Updater

/-- The updater of a network to which no update was applied. -/
def start (x : TransitIndex) (g : Graph) (settings : Settings) : Updater :=
  ⟨x, g, .start settings.snapshotInterval settings.recovery, .empty, settings, none, Table.empty⟩

/-- The name under which the updater runs. -/
def name : String := "stoptime-updater"

/-- The buffer of realtime timetables. -/
def buffer (s : Updater) : Buffer := s.publisher.buffer

/-- The updater with another buffer. -/
def setBuffer (s : Updater) (buffer : Buffer) : Updater :=
  { s with publisher := { s.publisher with buffer } }

/-- Whether passengers may be routed along a revision of a pattern. -/
def isTraversable (s : Updater) (p : Pattern) : Bool :=
  p.isTraversable && s.withdrawn.get? p.id != some p.revision

/-! ## Trips that have a pattern -/

/-- Reconciles an update with its trip in the buffer. -/
def updateBuffer (s : Updater) (p : Pattern) (u : TripUpdate) :
    Checked (Updater × Except ApplyError Unit) := do
  match ← (s.buffer.update p u).run with
  | .ok buffer => return (s.setBuffer buffer, .ok ())
  | .error e => return (s, .error (.reconcile e))

/-- Gives a trip the times of an update. -/
def modify (s : Updater) (u : TripUpdate) : Checked (Updater × Except ApplyError Unit) := do
  let u := u.filter .all
  if u.patches.isEmpty then return (s, .error (.emptyAfterFilter u.tripId))
  else if ← u.isCoherent then
    match s.index.patternForTrip? u.tripId with
    | none => return (s, .error (.unknownPattern u.tripId))
    | some p => s.updateBuffer p u
  else return (s, .error (.incoherent u.tripId))

/-- Cancels a trip of the schedule. -/
def cancel (s : Updater) (u : TripUpdate) : Checked (Updater × Except ApplyError Unit) :=
  match s.index.patternForTrip? u.tripId with
  | none => .ok (s, .error (.unknownPattern u.tripId))
  | some p => s.updateBuffer p u

/-- Takes a trip of the schedule back to its published times. -/
def revert (s : Updater) (u : TripUpdate) : Checked (Updater × Except ApplyError Unit) :=
  match s.index.patternForTrip? u.tripId with
  | none => .ok (s, .error (.notAdded u.tripId))
  | some p => s.updateBuffer p u

/-! ## Added trips -/

/-- The stop time that a patch of an added trip gives; one time stands for both. -/
def stopTimeOf (x : TransitIndex) (trip : TripId) (sequence : Nat) (p : StopPatch) :
    Except ApplyError StopTime :=
  if x.stops.contains p.stopId then
    match p.arrival <|> p.departure, p.departure <|> p.arrival with
    | some arrival, some departure =>
      .ok ⟨p.stopId, UInt32.ofNat sequence, arrival, departure, .regular, .regular⟩
    | _, _ => .error (.missingTimes trip p.stopId)
  else .error (.unknownStop trip p.stopId)

/-- The stop times of an added trip, up to the first patch that gives none. -/
def stopTimesOf (x : TransitIndex) (trip : TripId) :
    (sequence : Nat) → List StopPatch → Except ApplyError (List StopTime)
  | _, [] => .ok []
  | sequence, p :: rest => do
    let s ← stopTimeOf x trip sequence p
    return s :: (← stopTimesOf x trip (sequence + 1) rest)

/-- The zone and the stop times of a trip that can be added. -/
def admitted (x : TransitIndex) (u : TripUpdate) : Except ApplyError (Zone × List StopTime) :=
  if u.patches.isEmpty then .error (.emptyAfterFilter u.tripId)
  else
    match x.agencies.get? u.tripId.agency with
    | none => .error (.unknownAgency u.tripId)
    | some agency => do return (agency.zone, ← stopTimesOf x u.tripId 0 u.patches)

/-- The trip that an update adds; without a service of its own it gets that of its date. -/
def addedTrip (u : TripUpdate) : Trip where
  id := u.tripId
  routeId := u.routeId.getD u.tripId
  serviceId := u.serviceId.getD ⟨u.tripId.agency, "RT-SERVICE-" ++ u.date.text⟩
  wheelchair := u.wheelchair.getD false

/-- Puts an admitted trip into the network, the books and the buffer. -/
def enter (s : Updater) (u : TripUpdate) (zone : Zone) (stopTimes : List StopTime) :
    Checked (Updater × Except ApplyError Unit) := do
  let trip := addedTrip u
  let services := s.graph.services.register trip.serviceId zone [u.date]
  let s := { s with graph := { s.graph with services } }
  match ← s.graph.addTrip trip stopTimes with
  | (graph, .error e) => return ({ s with graph }, .error (.graph e))
  | (graph, .ok made) =>
    let (buffer, result) := s.buffer.sync made.pattern
    let s := { s with
      graph
      index := s.index.register made.pattern
      added := s.added.insert u.tripId u.date made }
    return (s.setBuffer buffer, (result.map fun _ => ()).mapError .schedule)

/-- Adds a trip; one that has a pattern already is modified instead. -/
def add (s : Updater) (u : TripUpdate) : Checked (Updater × Except ApplyError Unit) :=
  if (s.index.patternForTrip? u.tripId).isSome then s.modify u
  else
    let u := u.filter .all
    match admitted s.index u with
    | .error e => .ok (s, .error e)
    | .ok (zone, stopTimes) => s.enter u zone stopTimes

/-- Withdraws an added trip. Its pattern goes with the last trip that uses it. -/
def withdraw (s : Updater) (trip : TripId) : Checked (Updater × Except ApplyError Unit) := do
  match s.added.remove? trip with
  | none => return (s, .error (.notAdded trip))
  | some (removed, added) =>
    let s := { s with added }
    let p := removed.synthesized.pattern
    if removed.wasLast then
      let s := { s with withdrawn := s.withdrawn.insert p.id p.revision }
      match s.graph.detach removed.synthesized with
      | (graph, .error e) => return ({ s with graph }, .error (.graph e))
      | (graph, .ok ()) =>
        let s := { s with graph, index := s.index.removePattern p.id }
        return (s.setBuffer (s.buffer.removePattern p.id), .ok ())
    else
      match ← s.graph.removeTrip removed.synthesized trip with
      | (graph, .error e) => return ({ s with graph }, .error (.graph e))
      | (graph, .ok shrunk) =>
        let index := (s.index.removePattern p.id).register shrunk.pattern
        let (buffer, result) := s.buffer.sync shrunk.pattern
        let s := { s with graph, index }.setBuffer buffer
        match result with
        | .error e => return (s, .error (.schedule e))
        | .ok _ => return ({ s with added := s.added.updatePattern shrunk }, .ok ())

/-! ## Applying -/

/-- Applies one update. -/
def apply (s : Updater) (u : TripUpdate) : Checked (Updater × Except ApplyError Unit) :=
  match u.status, s.added.contains u.tripId with
  | .added, false => s.add u
  | .added, true => s.modify u
  | .modified, _ => s.modify u
  | .canceled, true => s.withdraw u.tripId
  | .removed, true => s.withdraw u.tripId
  | .canceled, false => s.cancel u
  | .removed, false => s.revert u

/-- Applies updates one after another, and counts those applied and those refused. A fault ends
it in the state before the update that met it. -/
def applyAll : Batch → Updater → Updater × Checked (Nat × Nat)
  | [], s => (s, .ok (0, 0))
  | u :: rest, s =>
    match s.apply u with
    | .error fault => (s, .error fault)
    | .ok (s, result) =>
      let (s, counts) := applyAll rest s
      (s, counts.map fun (applied, failed) =>
        if result.isOk then (applied + 1, failed) else (applied, failed + 1))

/-! ## Expiry -/

/-- Withdraws the listed trips. Answers whether any was withdrawn. -/
def withdrawAll : List TripId → Updater → Checked (Updater × Bool)
  | [], s => .ok (s, false)
  | trip :: rest, s => do
    let (s, result) ← s.withdraw trip
    let (s, any) ← withdrawAll rest s
    return (s, result.isOk || any)

/-- Drops what belongs to service days up to two days before `today`, unless that was done
before. Answers whether anything was dropped. -/
def purge (s : Updater) (today : ServiceDate) : Checked (Updater × Bool) :=
  let through := today.previous.previous
  if s.purgedThrough.any fun last => !decide (last < through) then .ok (s, false)
  else do
    let (s, any) ← withdrawAll (s.added.through through) s
    let expired := s.buffer.holdsBefore through.next
    let s := s.setBuffer (s.buffer.dropBefore through.next)
    return ({ s with purgedThrough := some through }, any || expired)

/-! ## Publishing and running -/

/-- Brings the published snapshot up to date. -/
def publish (s : Updater) (now : Nat) (force : Bool) : Checked Updater := do
  return { s with publisher := ← s.publisher.publish now force }

/-- Purges if the settings say so, and publishes; a purge is published in any case. Answers
whether anything was purged. -/
def settle (s : Updater) (today : ServiceDate) (now : Nat) : Checked (Updater × Bool) := do
  let (s, purged) ← if s.settings.purgeExpired then s.purge today else .ok (s, false)
  return (← s.publish now purged, purged)

/-- Applies a batch, purges and publishes. The state that comes with a fault is the one in which
it was met. -/
def runBatch (s : Updater) (batch : Batch) (today : ServiceDate) (now : Nat) :
    Updater × Checked RunSummary :=
  match applyAll batch s with
  | (s, .error fault) => (s, .error fault)
  | (s, .ok (applied, failed)) =>
    match s.settle today now with
    | .error fault => (s, .error fault)
    | .ok (s, purged) => (s, .ok ⟨applied, failed, purged⟩)

/-- Runs on the next batch of a source. If the source fails, nothing else happens. -/
def runAt (s : Updater) (source : Source) (today : ServiceDate) (now : Nat) :
    (Updater × Source) × Checked (Except SourceError RunSummary) :=
  match source.next with
  | (source, .error e) => ((s, source), .ok (.error e))
  | (source, .ok batch) =>
    let (s, summary) := s.runBatch (batch.getD []) today now
    ((s, source), summary.map .ok)

end Updater

end LiveTimetable
