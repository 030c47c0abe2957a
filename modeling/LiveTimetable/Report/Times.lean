import LiveTimetable.Report.Problem
import LiveTimetable.Timetable.Basic

/-!
# Reports of times

The current times of a trip stop by stop, briefly or with everything that follows from them, and
the timetable of a pattern as the brief reports of its trips. Single times are guarded.
-/

namespace LiveTimetable.Report

def nat (n : Nat) : Json := .int n

def seconds (n : Int32) : Json := .int n.toInt

def list {α : Type} (write : α → Json) (as : List α) : Json := .arr (as.map write)

def boarding (b : Boarding) : Json := nat b.code

/-- A passage as the position of its trip and its time. -/
def passage (p : Passage) : Json := .arr [nat p.trip, .ofTime p.time]

/-- The wrapping of the times from the outside in. -/
def layers : TripTimes → List Json
  | .scheduled _ => [.arr [.text "Scheduled"]]
  | .canceled _ => [.arr [.text "Canceled"]]
  | .decaying _ => [.arr [.text "DecayingDelay"]]
  | .updated b under => .arr [.text "Updated", nat b.offset, nat b.span] :: layers under

/-- The kind of times. -/
def kind : TripTimes → String
  | .scheduled _ => "Scheduled"
  | .canceled _ => "Canceled"
  | .decaying _ => "DecayingDelay"
  | .updated .. => "Updated"

/-- A guarded value for each of the listed stops. -/
def atStops {α : Type} (write : α → Json) (f : Nat → Checked α) (stops : List Nat) : Json :=
  list (fun stop => guarded write (f stop)) stops

/-- The parts of a brief report on the times of a trip. -/
def briefParts (t : TripTimes) : Checked (List (String × Json)) := do
  let stops := List.range t.stopCount
  let pickups ← stops.mapM t.pickup
  let dropoffs ← stops.mapM t.dropoff
  return [("trip", .ofFeedId t.trip.id), ("layers", .arr (layers t)),
    ("arr", atStops .ofTime t.arrival stops), ("dep", atStops .ofTime t.departure stops),
    ("pickup", list boarding pickups), ("dropoff", list boarding dropoffs),
    ("wheelchair", .bool t.isWheelchair)]

/-- The parts of a full report on the times of a trip. -/
def fullParts (t : TripTimes) : Checked (List (String × Json)) := do
  let stops := List.range t.stopCount
  return (← briefParts t) ++ [("kind", .text (kind t)), ("canceled", .bool t.isCanceled),
    ("increasing", guarded .bool t.isIncreasing), ("board", atStops .bool t.canBoard stops),
    ("alight", atStops .bool t.canAlight stops),
    ("run", atStops seconds t.runningTime (List.range (t.stopCount - 1))),
    ("dwell", atStops seconds t.dwellTime stops),
    ("arr_delay", atStops (.orNull seconds) t.arrivalDelay stops),
    ("dep_delay", atStops (.orNull seconds) t.departureDelay stops)]

def brief (t : TripTimes) : Checked Json := return .record (← briefParts t)

def full (t : TripTimes) : Checked Json := return .record (← fullParts t)

/-- A timetable and its trips. -/
def timetable (t : Timetable) : Checked Json := do
  let trips ← t.rows.mapM fun r => brief r.current
  return .record [("pattern", .text t.pattern.text), ("date", .orNull .ofDate t.date),
    ("finished", .bool t.isFinished), ("trips", .arr trips)]

end LiveTimetable.Report
