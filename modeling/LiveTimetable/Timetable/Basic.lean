import LiveTimetable.Network.PatternId
import LiveTimetable.Timetable.Passage
import LiveTimetable.Times.Reconcile

/-!
# Timetables

The timetable of a pattern holds its trips in a fixed order, each with its published and its
current times; all call at the same stops. The pattern's own timetable has no date, a realtime
one is the copy for a date.

`Timetable.finish` builds the **stop index**, the ordered passages at every stop. Every change to
the trips drops it again, so an index that is there is never stale.

* `Timetable.publish` builds a timetable, `insert` and `remove` change its trips.
* `Timetable.reconcile` works out the times an update leads to, `setTimes` takes them up.
* `Timetable.nextDeparture` and `Timetable.lastArrival` ask for passages, of the index if it is
  there and of the trips one by one if not.
-/

namespace LiveTimetable

/-- One trip of a timetable. -/
structure Row where
  published : Baseline
  current : TripTimes
  deriving DecidableEq

namespace Row

/-- The row of a trip that runs as published. -/
def ofBaseline (b : Baseline) : Row := ⟨b, .scheduled b⟩

/-- The identifier of the trip. -/
def tripId (r : Row) : TripId := r.published.trip.id

end Row

/-- The passages at every stop, in order. -/
structure StopIndex where
  departures : List (KeySet Passage)
  arrivals : List (KeySet Passage)
  deriving DecidableEq

/-- The trips of one pattern, with their current times. -/
structure Timetable where
  pattern : PatternId
  /-- The service date of a realtime timetable. -/
  date : Option ServiceDate
  stops : List StopId
  rows : List Row
  index : Option StopIndex
  deriving DecidableEq

namespace Timetable

/-! ## Views -/

/-- The number of trips. -/
def size (t : Timetable) : Nat := t.rows.length

/-- The position of a trip. -/
def position? (t : Timetable) (trip : TripId) : Option Nat :=
  t.rows.findIdx? fun r => r.tripId == trip

/-- Whether the timetable has a trip. -/
def contains (t : Timetable) (trip : TripId) : Bool := t.rows.any fun r => r.tripId == trip

/-- The row of a trip. -/
def row? (t : Timetable) (trip : TripId) : Option Row := t.rows.find? fun r => r.tripId == trip

/-- The published times of a trip. -/
def published? (t : Timetable) (trip : TripId) : Option Baseline :=
  (t.row? trip).map Row.published

/-- The current times of a trip. -/
def current? (t : Timetable) (trip : TripId) : Option TripTimes := (t.row? trip).map Row.current

/-- The trips in their order. -/
def trips (t : Timetable) : List TripId := t.rows.map Row.tripId

/-- Whether the stop index is there. -/
def isFinished (t : Timetable) : Bool := t.index.isSome

/-! ## Trips -/

/-- The timetable with a trip that runs as published: a new one at the end, one that is there
already in its place. -/
def insert (t : Timetable) (b : Baseline) : Except ScheduleError Timetable :=
  if b.stopCount ≠ t.stops.length then
    .error (.stopCountMismatch b.trip.id t.stops.length b.stopCount)
  else
    let rows := match t.position? b.trip.id with
      | some i => t.rows.set i (Row.ofBaseline b)
      | none => t.rows ++ [Row.ofBaseline b]
    .ok { t with rows, index := none }

/-- The timetable without a trip; later trips move up. -/
def remove (t : Timetable) (trip : TripId) : Timetable :=
  match t.position? trip with
  | some i => { t with rows := t.rows.eraseIdx i, index := none }
  | none => t

/-- The timetable with trips that it does not have. -/
def insertNew : List Baseline → Timetable → Except ScheduleError Timetable
  | [], t => .ok t
  | b :: rest, t =>
    if t.contains b.trip.id then .error (.duplicateTrip b.trip.id)
    else do insertNew rest (← t.insert b)

/-- The timetable of a pattern, all of whose trips run as published. -/
def publish (pattern : PatternId) (stops : List StopId) (trips : List Baseline) :
    Except ScheduleError Timetable :=
  insertNew trips ⟨pattern, none, stops, [], none⟩

/-- The copy for a service date. -/
def forDate (t : Timetable) (date : ServiceDate) : Timetable := { t with date := some date }

/-! ## Times -/

/-- The position of an update's trip and the times the update leads to. -/
def reconcile (t : Timetable) (u : TripUpdate) (recovery : Recovery) :
    Attempt ReconcileError (Nat × TripTimes) := do
  match t.position? u.tripId, t.row? u.tripId with
  | some i, some row =>
    return (i, (← row.current.reconcile row.published t.stops u recovery).times)
  | _, _ => throw (.tripNotInPattern u.tripId)

/-- The timetable with other current times at a position. -/
def setTimes (t : Timetable) (i : Nat) (times : TripTimes) : Timetable :=
  { t with rows := t.rows.modify i fun r => { r with current := times }, index := none }

/-! ## The stop index -/

/-- The passages of rows at a stop, the first row being at position `i`. -/
def passagesFrom (passage? : TripTimes → Nat → Nat → Checked (Option Passage)) (stop : Nat) :
    (i : Nat) → List Row → Checked (List Passage)
  | _, [] => .ok []
  | i, row :: rest => do
    let p ← passage? row.current i stop
    return p.toList ++ (← passagesFrom passage? stop (i + 1) rest)

/-- The departures from a stop of the timetable on which a passenger can get on. -/
def boardings (t : Timetable) (stop : Nat) : Checked (List Passage) :=
  passagesFrom TripTimes.boarding? stop 0 t.rows

/-- The arrivals at a stop of the timetable at which a passenger can get off. -/
def alightings (t : Timetable) (stop : Nat) : Checked (List Passage) :=
  passagesFrom TripTimes.alighting? stop 0 t.rows

/-- The passages at each of the stops, as sets. -/
def passageSets (passages : Nat → Checked (List Passage)) :
    List Nat → Checked (List (KeySet Passage))
  | [] => .ok []
  | stop :: rest => do
    let ps ← passages stop
    return Passage.setOf ps :: (← passageSets passages rest)

/-- The stop index of the current times. -/
def buildIndex (t : Timetable) : Checked StopIndex := do
  let stops := List.range t.stops.length
  return { departures := ← passageSets t.boardings stops
           arrivals := ← passageSets t.alightings stops }

/-- The timetable with its stop index. -/
def finish (t : Timetable) : Checked Timetable :=
  match t.index with
  | some _ => .ok t
  | none => do return { t with index := some (← t.buildIndex) }

/-! ## Questions -/

/-- The passage of a trip at a stop; a trip that ends before the stop has none. -/
def passageOf (passage? : TripTimes → Nat → Nat → Checked (Option Passage)) (times : TripTimes)
    (trip stop : Nat) : Checked (Option Passage) :=
  if stop < times.stopCount then passage? times trip stop else .ok none

/-- The passages with a real time at a stop, found trip by trip. -/
def scan (passage? : TripTimes → Nat → Nat → Checked (Option Passage)) (t : Timetable)
    (stop : Nat) : Checked (List Passage) := do
  return (← passagesFrom (passageOf passage?) stop 0 t.rows).filter
    fun p => !ServiceTime.isMarker p.time

/-- The earliest departure from a stop, at or after a time, on which a passenger can get on. -/
def nextDeparture (t : Timetable) (stop : Nat) (after : ServiceTime) :
    Checked (Option Passage) :=
  match t.index with
  | some index =>
    .ok ((index.departures[stop]?.map Table.keys).bind fun ps => ps.find? fun p => after ≤ p.time)
  | none => do
    return Passage.earliest? ((← t.scan TripTimes.boarding? stop).filter fun p => after ≤ p.time)

/-- The latest arrival at a stop, at or before a time, at which a passenger can get off. -/
def lastArrival (t : Timetable) (stop : Nat) (before : ServiceTime) :
    Checked (Option Passage) :=
  match t.index with
  | some index =>
    .ok ((index.arrivals[stop]?.map Table.keys).bind fun ps =>
      (ps.filter fun p => p.time ≤ before).getLast?)
  | none => do
    return Passage.latest? ((← t.scan TripTimes.alighting? stop).filter fun p => p.time ≤ before)

end Timetable

end LiveTimetable
