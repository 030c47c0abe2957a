import LiveTimetable.Feed.Alignment
import LiveTimetable.Times.Block
import LiveTimetable.Times.Measure

/-!
# Reconciling an update with the times of a trip

`TripTimes.reconcile` works out the times that an update leads to, from the current times of the
trip and its published ones. A timetable keeps the two beside each other; that the published times
are always the baseline of the current ones is no matter of this module.

* A removal leads back to the published times, a cancellation to a trip that does not run.
* Any other update must align with the stops. Its patches are laid over the current times if
  these are a baseline or a block, and over the published times otherwise; if the result runs
  forwards it is taken.
* If it steps back, the times are replaced by a decaying delay, observed at the first patched stop
  that is served. A vehicle ahead of its schedule is then taken to be no earlier than its
  scheduled departure from the stop before.
* If the decayed times step back too, the schedule is at fault and the update is refused.

Times that step back are given up as a whole, the patched and the decayed ones alike, and they are
listed in the log when they are. To list them is to work out each of them (`check`), so one that is
out of range is a fault, also behind the stop at which they step back. The log that is meant here
takes in everything. One that leaves out what is said of patched times (the least detailed of the
two listings) works out fewer times, and so has no more faults, and all else is the same.

Some updates lead to times that exist already: the baseline, or what lies under a block that
turned out empty. `Reconciled.isFresh` tells them from times that were built.
-/

namespace LiveTimetable

/-- How fast a decaying delay fades: by 1 to 59 seconds in a minute, so that it does fade and
yet never makes a trip step back. -/
structure Recovery where
  secondsPerMinute : Nat
  inRange : 1 ≤ secondsPerMinute ∧ secondsPerMinute ≤ 59
  deriving DecidableEq

namespace Recovery

/-- The usable rate nearest to the given one. -/
def ofRate (rate : Nat) : Recovery := ⟨max 1 (min rate 59), by omega⟩

/-- Half a minute in a minute. -/
def standard : Recovery := ⟨30, by decide⟩

end Recovery

/-- Why an update leads to no times. -/
inductive ReconcileError where
  | tripNotInPattern (trip : TripId)
  | matchFailed (trip : TripId)
  | nonIncreasing (trip : TripId)
  deriving DecidableEq

/-- The wording of a reconciliation error. -/
def ReconcileError.message : ReconcileError → String
  | .tripNotInPattern trip => "trip " ++ trip.text ++ " is not part of this pattern"
  | .matchFailed trip => "could not align updates for trip " ++ trip.text ++ " with its stops"
  | .nonIncreasing trip =>
    "times for trip " ++ trip.text ++ " decrease even after falling back to a decaying delay"

/-- The times that an update leads to. -/
structure Reconciled where
  times : TripTimes
  /-- Whether the times were built for this update. -/
  isFresh : Bool
  deriving DecidableEq

namespace TripTimes

/-- What patches are laid over: the current times if they are a baseline or patched, and else the
published ones. -/
def base (t : TripTimes) (published : Baseline) : TripTimes :=
  match t with
  | scheduled b => scheduled b
  | updated b under => updated b under
  | canceled _ | decaying _ => scheduled published

/-- The first of `count` stops from `stop` on that has an arrival and a departure, and how much
later than published that departure is. -/
def observedDelay? (t : TripTimes) (published : Baseline) :
    (count stop : Nat) → Checked (Option (Nat × Int32))
  | 0, _ => .ok none
  | count + 1, stop => do
    let arrival ← t.arrival stop
    let departure ← t.departure stop
    if ServiceTime.isMarker arrival || ServiceTime.isMarker departure then
      t.observedDelay? published count (stop + 1)
    else
      return some (stop, ← ServiceTime.since departure (← published.departure stop))

/-- The least delay at a stop: not so early that the vehicle would be there before its scheduled
departure from the stop before. The first stop has no such bound. -/
def leastDelay (published : Baseline) : (stop : Nat) → Checked Int32
  | 0 => .ok ServiceTime.passed
  | previous + 1 => do
    let bound ← ServiceTime.since (← published.departure previous)
      (← published.arrival (previous + 1))
    return if bound < 0 then bound else 0

/-- The stop and the delay from which the delay of a patched trip decays. -/
def seed (t : TripTimes) (published : Baseline) (start span : Nat) : Checked (Nat × Int32) := do
  match ← t.observedDelay? published span start with
  | none => return (start, 0)
  | some (stop, delay) =>
    let least ← leastDelay published stop
    return (stop, if delay < least then least else delay)

/-- The decaying delay that takes the place of patched times which step back. -/
def fallback (patched : TripTimes) (published : Baseline) (u : TripUpdate) (start : Nat)
    (recovery : Recovery) : Checked TripTimes := do
  let (stop, delay) ← patched.seed published start u.patches.length
  return decaying {
    baseline := published
    start := stop
    initialDelay := delay
    rate := recovery.secondsPerMinute
    wheelchair := u.wheelchair.getD published.trip.wheelchair }

/-- Where the patches of an update apply, in a trip of the given stops. -/
def alignment (published : Baseline) (stops : List StopId) (u : TripUpdate) :
    Except ReconcileError Nat :=
  match u.startIn? stops with
  | some start =>
    if start + u.patches.length ≤ published.stopCount then .ok start
    else .error (.matchFailed u.tripId)
  | none => .error (.matchFailed u.tripId)

/-- The times that the patches of an update lead to from stop `start` on. -/
def patch (t : TripTimes) (published : Baseline) (u : TripUpdate) (start : Nat)
    (recovery : Recovery) : Attempt ReconcileError Reconciled := do
  let (block, under) ← (t.base published).cover u start
  let patched := updated block under
  if ← patched.isIncreasing then
    if block.span = 0 ∧ block.wheelchair = under.isWheelchair then return ⟨under, false⟩
    else return ⟨patched, true⟩
  else
    patched.check
    let decayed ← patched.fallback published u start recovery
    if ← decayed.isIncreasing then return ⟨decayed, true⟩
    else
      decayed.check
      throw (.nonIncreasing u.tripId)

/-- The times that an update leads to, of a trip that calls at the given stops. -/
def reconcile (t : TripTimes) (published : Baseline) (stops : List StopId) (u : TripUpdate)
    (recovery : Recovery) : Attempt ReconcileError Reconciled := do
  if u.isRemoval then return ⟨scheduled published, false⟩
  else if u.isCancellation then return ⟨canceled published, true⟩
  else
    match alignment published stops u with
    | .error e => throw e
    | .ok start => t.patch published u start recovery

end TripTimes

end LiveTimetable
