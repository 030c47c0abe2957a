import LiveTimetable.Calendar.Day
import LiveTimetable.FeedId

/-!
# What a feed says about one stop

A `StopPatch` is addressed to one stop of one trip on one service date. Its status says whether
the stop is served, and whether the times in it count: only a vehicle that has arrived or a
prediction brings times of its own (`StopStatus.hasTimes`), and a stop that was passed or is
canceled is closed (`StopStatus.closesStop`).
-/

namespace LiveTimetable

/-- What the feed says about one stop. -/
inductive StopStatus where
  /-- The vehicle has left. -/
  | passed
  /-- The stop will not be served. -/
  | canceled
  /-- Nothing is known beyond the schedule. -/
  | unknown
  /-- The stop is served to schedule. -/
  | planned
  /-- The vehicle is at the stop. -/
  | arrived
  /-- The times are predicted. -/
  | predicted
  deriving DecidableEq

namespace StopStatus

/-- Whether nobody can get on or off any more. -/
def closesStop : StopStatus → Bool
  | passed | canceled => true
  | _ => false

/-- Whether the times of the patch count. -/
def hasTimes : StopStatus → Bool
  | arrived | predicted => true
  | _ => false

end StopStatus

/-- The report on one stop of a trip. -/
structure StopPatch where
  tripId : TripId
  stopId : StopId
  /-- The position of the stop within its trip, counted from zero. -/
  position : UInt64
  arrival : Option ServiceTime
  departure : Option ServiceTime
  status : StopStatus
  /-- The delay in seconds that the feed names; nothing is computed from it. -/
  delay : Int32
  date : ServiceDate
  deriving DecidableEq

namespace StopPatch

/-- A patch with the given times and no named delay. -/
def ofTimes (tripId : TripId) (stopId : StopId) (position : UInt64) (status : StopStatus)
    (date : ServiceDate) (arrival departure : Option ServiceTime) : StopPatch :=
  ⟨tripId, stopId, position, arrival, departure, status, 0, date⟩

/-- The time of the patch's service day at an instant, if there is an instant; the outer `none`
says that the instant has no time on that day. -/
def timeOf? (p : StopPatch) (zones : Zones) (z : Zone) :
    Option Int64 → Checked (Option (Option ServiceTime))
  | none => .ok (some none)
  | some instant => do return (← p.date.secondsSinceStart? zones z instant).map some

/-- The patch with times given as instants, unless one of them has no time on its day. -/
def atInstants? (p : StopPatch) (zones : Zones) (z : Zone) (arrival departure : Option Int64) :
    Checked (Option StopPatch) := do
  match ← p.timeOf? zones z arrival with
  | none => return none
  | some arrival =>
    match ← p.timeOf? zones z departure with
    | none => return none
    | some departure => return some { p with arrival := arrival, departure := departure }

end StopPatch

end LiveTimetable
