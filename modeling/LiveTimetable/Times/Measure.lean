import LiveTimetable.Times.Basic

/-!
# What follows from the times of a trip

Whether passengers can get on and off, how long hops and stays take, how far the trip is off its
schedule, whether all of its times are in range, and whether they run forwards. Hop `h` goes from
stop `h` to stop `h + 1`; stops that are not served are bridged, so a hop is measured from the last
stop before it that has a departure.
-/

namespace LiveTimetable.TripTimes

/-- Whether a passenger can get on at a stop. -/
def canBoard (t : TripTimes) (stop : Nat) : Checked Bool := do
  if (← t.pickup stop).isAllowed then return !ServiceTime.isMarker (← t.departure stop)
  else return false

/-- Whether a passenger can get off at a stop. -/
def canAlight (t : TripTimes) (stop : Nat) : Checked Bool := do
  if (← t.dropoff stop).isAllowed then return !ServiceTime.isMarker (← t.arrival stop)
  else return false

/-- The departure from the last served stop at or before a stop. -/
def lastDeparture? (t : TripTimes) : Nat → Checked (Option ServiceTime)
  | 0 => do
    let departure ← t.departure 0
    return if ServiceTime.isMarker departure then none else some departure
  | stop + 1 => do
    let departure ← t.departure (stop + 1)
    if ServiceTime.isMarker departure then t.lastDeparture? stop else return some departure

/-- The time a hop takes; none if it ends at a stop that is not served. -/
def runningTime (t : TripTimes) (hop : Nat) : Checked Int32 := do
  let arrival ← t.arrival (← Checked.word64 (hop + 1))
  if ServiceTime.isMarker arrival then return 0
  else
    match ← t.lastDeparture? hop with
    | some departure => ServiceTime.since arrival departure
    | none => return 0

/-- The time the vehicle stands at a stop. -/
def dwellTime (t : TripTimes) (stop : Nat) : Checked Int32 := do
  let arrival ← t.arrival stop
  let departure ← t.departure stop
  if ServiceTime.isMarker arrival || ServiceTime.isMarker departure then return 0
  else ServiceTime.since departure arrival

/-- How much later than published the trip arrives at a stop that it serves. -/
def arrivalDelay (t : TripTimes) (stop : Nat) : Checked (Option Int32) := do
  let arrival ← t.arrival stop
  if ServiceTime.isMarker arrival then return none
  else return some (← ServiceTime.since arrival (← t.baseline.arrival stop))

/-- How much later than published the trip departs from a stop that it serves. -/
def departureDelay (t : TripTimes) (stop : Nat) : Checked (Option Int32) := do
  let departure ← t.departure stop
  if ServiceTime.isMarker departure then return none
  else return some (← ServiceTime.since departure (← t.baseline.departure stop))

/-- Works out the times of the given stops; a fault if one is out of range. -/
def checkTimes (t : TripTimes) : List Nat → Checked Unit
  | [] => .ok ()
  | stop :: rest => do
    let _ ← t.arrival stop
    let _ ← t.departure stop
    t.checkTimes rest

/-- Works out every time of the trip. -/
def check (t : TripTimes) : Checked Unit := t.checkTimes (List.range t.stopCount)

/-- The latest time so far once `t` is reached after `last`; `none` if that is a step back. -/
def advance? (last t : ServiceTime) : Option ServiceTime :=
  if ServiceTime.isMarker t then some last
  else if t < last then none
  else some t

/-- Whether the times from `stop` on, over `count` stops, never step back behind `last`. -/
def isIncreasingFrom (t : TripTimes) : (count stop : Nat) → (last : ServiceTime) → Checked Bool
  | 0, _, _ => .ok true
  | count + 1, stop, last => do
    let arrival ← t.arrival stop
    let departure ← t.departure stop
    match (advance? last arrival).bind fun last => advance? last departure with
    | some last => t.isIncreasingFrom count (stop + 1) last
    | none => return false

/-- Whether the times of the served stops never step back. -/
def isIncreasing (t : TripTimes) : Checked Bool :=
  t.isIncreasingFrom t.stopCount 0 ServiceTime.passed

end LiveTimetable.TripTimes
