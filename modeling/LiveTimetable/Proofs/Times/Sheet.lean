import LiveTimetable.Times.Reconcile

/-!
# The flat sheet of a trip

The current times of a trip are wrapped: blocks lie over blocks, and each stores only what differs
from what lies under it. A **sheet** is what a passenger would write down instead, one call for
every stop. It is worked out here on its own, without blocks and without reading through them, so
that the wrapped times can be compared with it.

* `StopPatch.callOver`: the call that a patch makes of the published one.
* `overwrite`: a run of neighbouring calls replaced, all others kept.
* `fadeOrigin`, `faded`: the delay that is observed in a sheet, and the published calls under a
  delay that fades.
* `Forwards`: the real times never decrease.
* `Sheet.next`, `Sheet.afterAll`: the sheet after one update, and after a list of them.
-/

namespace LiveTimetable

/-! ## Calls -/

namespace Call

/-- The call of a stop that is closed, under a marker. -/
def marked (marker : ServiceTime) : Call := ⟨marker, marker, .closed⟩

/-- Whether the call has two real times. -/
def isTimed (c : Call) : Bool :=
  !ServiceTime.isMarker c.arrival && !ServiceTime.isMarker c.departure

end Call

/-- The real times of calls, in the order in which the vehicle meets them. -/
def realTimes (cs : List Call) : List ServiceTime :=
  (cs.flatMap fun c => [c.arrival, c.departure]).filter fun t => !ServiceTime.isMarker t

/-- The real times never decrease. -/
def Forwards (cs : List Call) : Prop := (realTimes cs).Pairwise (· ≤ ·)

instance (cs : List Call) : Decidable (Forwards cs) :=
  inferInstanceAs (Decidable (List.Pairwise _ _))

/-! ## What patches say -/

namespace StopPatch

/-- The arrival and the departure that a patch reports; one time stands for both. -/
def reported? (p : StopPatch) : Option (ServiceTime × ServiceTime) :=
  match p.arrival, p.departure with
  | some arrival, some departure => some (arrival, departure)
  | some t, none => some (t, t)
  | none, some t => some (t, t)
  | none, none => none

/-- What a patch makes of the published call. -/
def callOver (p : StopPatch) (published : Call) : Call :=
  match p.status with
  | .passed => .marked ServiceTime.passed
  | .canceled => .marked ServiceTime.skipped
  | .unknown | .planned => published
  | .arrived | .predicted =>
    match p.reported? with
    | some (arrival, departure) => { published with arrival, departure }
    | none => published

end StopPatch

/-- The calls `cs` with those from stop `start` on replaced by what the patches make of the
published calls there. -/
def overwrite (published cs : List Call) (start : Nat) (ps : List StopPatch) : List Call :=
  cs.take start ++ List.zipWith StopPatch.callOver ps (published.drop start)
    ++ cs.drop (start + ps.length)

/-! ## Delays -/

/-- The first of `count` stops from `start` on at which the patched call has two real times, and
how much later than published its departure is. -/
def observed? (published patched : List Call) (start count : Nat) : Option (Nat × Int) :=
  (List.range' start count).findSome? fun stop =>
    match patched[stop]?, published[stop]? with
    | some c, some p =>
      if c.isTimed then some (stop, c.departure.toInt - p.departure.toInt) else none
    | _, _ => none

/-- A delay at a stop, but not so early that the vehicle would be there before its published
departure from the stop before. -/
def bounded (published : List Call) (stop : Nat) (delay : Int) : Int :=
  match stop with
  | 0 => delay
  | previous + 1 =>
    match published[previous]?, published[previous + 1]? with
    | some p, some c => max delay (min 0 (p.departure.toInt - c.arrival.toInt))
    | _, _ => delay

/-- The stop and the delay from which a delay fades. -/
def fadeOrigin (published patched : List Call) (start count : Nat) : Nat × Int :=
  match observed? published patched start count with
  | some (stop, delay) => (stop, bounded published stop delay)
  | none => (start, 0)

/-- What is left of a delay, `rate` seconds of which are made up in a minute, after `elapsed`
seconds. -/
def remaining (delay : Int) (rate : Nat) (elapsed : Int) : Int :=
  delay.sign * max 0 (delay.natAbs - max 0 elapsed * rate / 60)

/-- The published calls, from stop `start` on under a delay that fades from the departure there. -/
def faded (published : List Call) (start : Nat) (delay : Int) (rate : Nat) : List Call :=
  match published[start]? with
  | none => published
  | some origin =>
    let later (t : ServiceTime) : ServiceTime :=
      Int32.ofInt (t.toInt + remaining delay rate (t.toInt - origin.departure.toInt))
    published.take start ++ (published.drop start).map fun c =>
      { c with arrival := later c.arrival, departure := later c.departure }

/-! ## Sheets -/

/-- What a trip looks like to a passenger. -/
structure Sheet where
  /-- The call at every stop. -/
  calls : List Call
  wheelchair : Bool
  /-- Whether the patches of the next update go over these calls; else they go over the
  published ones. -/
  isGround : Bool
  deriving DecidableEq

namespace Sheet

/-- The sheet of a trip that runs as published. -/
def ofBaseline (b : Baseline) : Sheet := ⟨b.calls, b.trip.wheelchair, true⟩

/-- The sheet of a trip that does not run. -/
def canceled (b : Baseline) : Sheet :=
  ⟨b.calls.map fun _ => .marked ServiceTime.skipped, b.trip.wheelchair, false⟩

/-- What patches go over. -/
def ground (s : Sheet) (b : Baseline) : Sheet := if s.isGround then s else ofBaseline b

/-- The sheet with the patches of an update written over it from stop `start` on. -/
def patched (s : Sheet) (b : Baseline) (u : TripUpdate) (start : Nat) : Sheet :=
  ⟨overwrite b.calls (s.ground b).calls start u.patches,
    u.wheelchair.getD (s.ground b).wheelchair, true⟩

/-- The sheet of the fading delay that is seen in the patched one. -/
def decayed (s : Sheet) (b : Baseline) (u : TripUpdate) (start : Nat) (recovery : Recovery) :
    Sheet :=
  let (stop, delay) := fadeOrigin b.calls (s.patched b u start).calls start u.patches.length
  ⟨faded b.calls stop delay recovery.secondsPerMinute,
    u.wheelchair.getD b.trip.wheelchair, false⟩

/-- The place in a trip with the given stops where an update's patches align and fit. -/
def place? (b : Baseline) (stops : List StopId) (u : TripUpdate) : Option Nat :=
  (u.startIn? stops).filter fun start => start + u.patches.length ≤ b.stopCount

/-- The sheet after an update. One that does not align, or leads back in time even when its
delay fades, changes nothing. -/
def next (b : Baseline) (stops : List StopId) (recovery : Recovery) (s : Sheet) (u : TripUpdate) :
    Sheet :=
  match u.status with
  | .removed => ofBaseline b
  | .canceled => canceled b
  | .added | .modified =>
    match place? b stops u with
    | none => s
    | some start =>
      if Forwards (s.patched b u start).calls then s.patched b u start
      else if Forwards (s.decayed b u start recovery).calls then s.decayed b u start recovery
      else s

/-- The sheet after a list of updates, from the published one on. -/
def afterAll (b : Baseline) (stops : List StopId) (recovery : Recovery) (us : List TripUpdate) :
    Sheet :=
  us.foldl (next b stops recovery) (ofBaseline b)

end Sheet

end LiveTimetable
