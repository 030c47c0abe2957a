import LiveTimetable.FeedId

/-!
# Faulty schedules

Why records do not make up a schedule.
-/

namespace LiveTimetable

/-- Why a trip, a pattern or a schedule could not be built. -/
inductive ScheduleError where
  | emptyTrip (trip : TripId)
  | stopCountMismatch (trip : TripId) (expected actual : Nat)
  | duplicateTrip (trip : TripId)
  | unknownStop (stop : StopId)
  deriving DecidableEq

/-- The wording of a schedule error. -/
def ScheduleError.message : ScheduleError → String
  | .emptyTrip trip => "trip " ++ trip.text ++ " has no stop times"
  | .stopCountMismatch trip expected actual =>
    "trip " ++ trip.text ++ " has " ++ toString actual ++ " stops but its pattern has "
      ++ toString expected
  | .duplicateTrip trip => "trip " ++ trip.text ++ " appears twice in one pattern"
  | .unknownStop stop => "unknown stop " ++ stop.text

end LiveTimetable
