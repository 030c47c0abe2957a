import LiveTimetable.Checked
import LiveTimetable.Text.Padded

/-!
# Times of a service day

A time is a number of seconds from the start of the service day. A trip that runs past midnight
keeps counting, and a trip may start before the day does, so times above 86400 and below zero are
real. The two lowest values are not times but **markers**: `passed` for a stop that the vehicle
has left behind, `skipped` for one that it will not serve.
-/

namespace LiveTimetable

/-- Seconds since the start of the service day, or a marker. -/
abbrev ServiceTime := Int32

namespace ServiceTime

/-- The marker of a stop that the vehicle has already left. -/
def passed : ServiceTime := -2147483648

/-- The marker of a stop that will not be served. -/
def skipped : ServiceTime := -2147483647

/-- Whether `t` is a marker and not a time. -/
def isMarker (t : ServiceTime) : Bool := t == passed || t == skipped

/-- `t` later by `delay` seconds. -/
def shift (t : ServiceTime) (delay : Int) : Checked ServiceTime := Checked.int32 (t.toInt + delay)

/-- The seconds from `start` to `stop`. -/
def since (stop start : ServiceTime) : Checked Int32 := Checked.int32 (stop.toInt - start.toInt)

/-- `HH:MM:SS` with hours past 23, a minus sign before the start of the day, or the marker. -/
def text (t : ServiceTime) : String :=
  if t = passed then "PASSED"
  else if t = skipped then "CANCELED"
  else
    let seconds := t.toInt.natAbs
    let clock := Text.zeroPadded 2 (seconds / 3600 : Nat) ++ ":"
      ++ Text.zeroPadded 2 (seconds / 60 % 60 : Nat) ++ ":"
      ++ Text.zeroPadded 2 (seconds % 60 : Nat)
    if t < 0 then "-" ++ clock else clock

end ServiceTime

end LiveTimetable
