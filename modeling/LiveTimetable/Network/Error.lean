import LiveTimetable.Network.PatternId
import LiveTimetable.Schedule.Error

/-!
# Refusals of the network

Why a pattern cannot be put into the network, or taken out of it.
-/

namespace LiveTimetable

/-- Why a change to the graph or the index was refused. -/
inductive GraphError where
  | duplicatePattern (pattern : PatternId)
  | unknownPattern (pattern : PatternId)
  | unknownEdge (edge : Nat)
  | unknownVertex (vertex : Nat)
  | schedule (error : ScheduleError)
  deriving DecidableEq

/-- The wording of a refusal. -/
def GraphError.message : GraphError → String
  | .duplicatePattern pattern => "pattern " ++ pattern.text ++ " already exists"
  | .unknownPattern pattern => "pattern " ++ pattern.text ++ " was not synthesized by this graph"
  | .unknownEdge edge => "edge " ++ toString edge ++ " is not in the graph"
  | .unknownVertex vertex => "vertex " ++ toString vertex ++ " is not in the graph"
  | .schedule error => error.message

end LiveTimetable
