import LiveTimetable.Schedule.Baseline

/-!
# The current times of a trip

The current times of a trip are its baseline, or a wrapping that stores only what differs:

* `canceled`: the trip does not run; every stop is closed and skipped.
* `decaying`: from one stop on the schedule is shifted by a delay that fades away.
* `updated`: a block of neighbouring stops has times and access of its own, and all other stops
  are read from what lies under it.

`TripTimes.arrival`, `departure`, `pickup` and `dropoff` read one stop, `isWheelchair` the trip.
A stop is addressed by its position in the trip; reading past the last one is a fault.
-/

namespace LiveTimetable

/-! ## A delay that fades away -/

/-- The baseline shifted, from stop `start` on, by a delay that shrinks along the trip. -/
structure Decay where
  baseline : Baseline
  /-- The stop at which the delay was observed. -/
  start : Nat
  /-- The delay there. -/
  initialDelay : Int32
  /-- By how many seconds the delay shrinks in a scheduled minute. -/
  rate : Nat
  wheelchair : Bool
  deriving DecidableEq

namespace Decay

/-- The delay of a scheduled time `t` at a stop: `initialDelay` at the scheduled departure from
`start`, and nearer to zero by `rate` seconds for every minute that `t` is later. -/
def delayAt (d : Decay) (stop : Nat) (t : ServiceTime) : Checked Int32 :=
  if stop < d.start ∨ d.initialDelay = 0 then .ok 0
  else do
    let origin ← d.baseline.departure d.start
    let recovered := (← Checked.int64 (max 0 (t.toInt - origin.toInt) * d.rate)) / 60
    let remaining ← Checked.int32 (max 0 (d.initialDelay.toInt.natAbs - recovered))
    return if d.initialDelay < 0 then -remaining else remaining

/-- A scheduled time at a stop, with its delay. -/
def delayed (d : Decay) (stop : Nat) (t : ServiceTime) : Checked ServiceTime := do
  ServiceTime.shift t (← d.delayAt stop t).toInt

def arrival (d : Decay) (stop : Nat) : Checked ServiceTime := do
  d.delayed stop (← d.baseline.arrival stop)

def departure (d : Decay) (stop : Nat) : Checked ServiceTime := do
  d.delayed stop (← d.baseline.departure stop)

/-- The first of `stops` at which arrival and departure have no delay any more. -/
def firstRecovered? (d : Decay) : List Nat → Checked (Option Nat)
  | [] => .ok none
  | stop :: rest => do
    if (← d.delayAt stop (← d.baseline.arrival stop)) = 0 then
      if (← d.delayAt stop (← d.baseline.departure stop)) = 0 then return some stop
      else d.firstRecovered? rest
    else d.firstRecovered? rest

/-- The first stop from `start` on at which the delay is gone. -/
def recoveredAt? (d : Decay) : Checked (Option Nat) :=
  d.firstRecovered? ((List.range d.baseline.stopCount).drop d.start)

end Decay

/-! ## A block of stops with times of its own -/

/-- The times and access of the stops from `offset` on, as many as there are departures. -/
structure Block where
  /-- The first stop of the block. -/
  offset : Nat
  /-- The arrivals; `none` if each is equal to the departure. -/
  arrivals : Option (List ServiceTime)
  departures : List ServiceTime
  /-- The access; `none` if each is what lies under the block. -/
  access : Option (List Access)
  wheelchair : Bool
  deriving DecidableEq

namespace Block

/-- The number of stops in the block. -/
def span (b : Block) : Nat := b.departures.length

/-- One past the last stop of the block. -/
def stop (b : Block) : Nat := b.offset + b.span

/-- The position within the block of a stop, if the stop is in it. -/
def slot? (b : Block) (stop : Nat) : Option Nat :=
  if b.offset ≤ stop ∧ stop < b.stop then some (stop - b.offset) else none

/-- The departure at a position of the block. -/
def departureAt (b : Block) (slot : Nat) : Checked ServiceTime := Checked.nth b.departures slot

/-- The arrival at a position of the block. -/
def arrivalAt (b : Block) (slot : Nat) : Checked ServiceTime :=
  Checked.nth (b.arrivals.getD b.departures) slot

end Block

/-! ## All kinds of times -/

/-- The current times of a trip. -/
inductive TripTimes where
  | scheduled (baseline : Baseline)
  | canceled (baseline : Baseline)
  | decaying (decay : Decay)
  | updated (block : Block) (under : TripTimes)
  deriving DecidableEq

namespace TripTimes

/-- The published times at the bottom of all wrapping. -/
def baseline : TripTimes → Baseline
  | scheduled b => b
  | canceled b => b
  | decaying d => d.baseline
  | updated _ under => under.baseline

/-- The trip that the times belong to. -/
def trip (t : TripTimes) : Trip := t.baseline.trip

/-- The number of stops of the trip. -/
def stopCount (t : TripTimes) : Nat := t.baseline.stopCount

/-- The arrival at a stop, or a marker. -/
def arrival : TripTimes → Nat → Checked ServiceTime
  | scheduled b, stop => b.arrival stop
  | canceled _, _ => .ok ServiceTime.skipped
  | decaying d, stop => d.arrival stop
  | updated b under, stop =>
    match b.slot? stop with
    | some slot => b.arrivalAt slot
    | none => under.arrival stop

/-- The departure from a stop, or a marker. -/
def departure : TripTimes → Nat → Checked ServiceTime
  | scheduled b, stop => b.departure stop
  | canceled _, _ => .ok ServiceTime.skipped
  | decaying d, stop => d.departure stop
  | updated b under, stop =>
    match b.slot? stop with
    | some slot => b.departureAt slot
    | none => under.departure stop

/-- On what terms passengers get on and off at a stop. -/
def access : TripTimes → Nat → Checked Access
  | scheduled b, stop => b.access stop
  | canceled _, _ => .ok Access.closed
  | decaying d, stop => d.baseline.access stop
  | updated b under, stop =>
    match b.slot? stop, b.access with
    | some slot, some access => Checked.nth access slot
    | _, _ => under.access stop

/-- On what terms passengers get on at a stop. -/
def pickup (t : TripTimes) (stop : Nat) : Checked Boarding := return (← t.access stop).pickup

/-- On what terms passengers get off at a stop. -/
def dropoff (t : TripTimes) (stop : Nat) : Checked Boarding := return (← t.access stop).dropoff

/-- Whether the vehicle takes a wheelchair. -/
def isWheelchair : TripTimes → Bool
  | scheduled b => b.trip.wheelchair
  | canceled b => b.trip.wheelchair
  | decaying d => d.wheelchair
  | updated b _ => b.wheelchair

/-- Whether the trip does not run. -/
def isCanceled : TripTimes → Bool
  | canceled _ => true
  | _ => false

/-- The number of blocks around the times at the bottom. -/
def depth : TripTimes → Nat
  | updated _ under => under.depth + 1
  | _ => 0

end TripTimes

end LiveTimetable
