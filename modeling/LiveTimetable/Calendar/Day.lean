import LiveTimetable.Calendar.Zone
import LiveTimetable.ServiceTime

/-!
# The start of a service day

Seconds of a service day are counted from noon minus twelve hours. On most days that is midnight;
on a day when clocks change it is an hour off, which keeps the schedule of the day itself steady.
A day whose noon does not exist, or occurs twice, has no start.

`ServiceDate.secondsSinceStart?` takes an instant to a time of the service day, and answers `none`
where the distance is no `ServiceTime` or falls on a marker.
-/

namespace LiveTimetable.ServiceDate

/-- The instant, in Unix seconds, from which a service day counts. -/
def start? (d : ServiceDate) (zones : Zones) (z : Zone) : Option Int :=
  let noon := 86400 * d.dayNumber + 43200
  match zones.offsetsOn z noon with
  | [offset] => some (noon - offset - 43200)
  | _ => none

/-- The time of the service day at an instant given in Unix seconds. -/
def secondsSinceStart? (d : ServiceDate) (zones : Zones) (z : Zone) (instant : Int64) :
    Checked (Option ServiceTime) :=
  match d.start? zones z with
  | none => .ok none
  | some start => do
    let elapsed ← Checked.int64 (instant.toInt - start)
    match Checked.int32 elapsed with
    | .error _ => return none
    | .ok t => return if ServiceTime.isMarker t then none else some t

end LiveTimetable.ServiceDate
