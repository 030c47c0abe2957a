import LiveTimetable.Network.Error
import LiveTimetable.Times.Reconcile

/-!
# Updates without effect

Why an update was not applied.
-/

namespace LiveTimetable

/-- Why an update was not applied. -/
inductive ApplyError where
  | incoherent (trip : TripId)
  | emptyAfterFilter (trip : TripId)
  | unknownPattern (trip : TripId)
  | notAdded (trip : TripId)
  | unknownAgency (trip : TripId)
  | unknownStop (trip : TripId) (stop : StopId)
  | missingTimes (trip : TripId) (stop : StopId)
  | reconcile (error : ReconcileError)
  | graph (error : GraphError)
  | schedule (error : ScheduleError)
  deriving DecidableEq

/-- The wording of a refusal; the agency that is not known is that of the trip. -/
def ApplyError.message : ApplyError → String
  | .incoherent trip => "updates for trip " ++ trip.text ++ " are not coherent"
  | .emptyAfterFilter trip => "no usable updates for trip " ++ trip.text
  | .unknownPattern trip => "no pattern found for trip " ++ trip.text
  | .notAdded trip => "trip " ++ trip.text ++ " was not added by realtime"
  | .unknownAgency trip => "unknown agency " ++ trip.agency ++ " for added trip " ++ trip.text
  | .unknownStop trip stop => "added trip " ++ trip.text ++ " calls at unknown stop " ++ stop.text
  | .missingTimes trip stop => "added trip " ++ trip.text ++ " has no time at stop " ++ stop.text
  | .reconcile error => error.message
  | .graph error => error.message
  | .schedule error => error.message

end LiveTimetable
