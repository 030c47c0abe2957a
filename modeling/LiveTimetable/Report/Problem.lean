import LiveTimetable.Json.Writer
import LiveTimetable.Live.Error
import LiveTimetable.Live.Source
import LiveTimetable.Network.Fixture

/-!
# Reports of what went wrong

A problem is reported as an object with its kind and, if it has one, its wording. The kind of an
error that was passed on names the part that raised it before the error. A value that may be cut
short by a fault is reported under `guarded`: as itself, or as the class of the fault.
-/

namespace LiveTimetable.Report

/-- A kind of problem and its wording. -/
def problem (kind : String) (message : Option String) : Json :=
  .record (("error", .text kind) :: (message.toList.map fun m => ("message", Json.text m)))

/-- The class of a fault. -/
def faultClass : Fault → String
  | .overflow => "overflow"
  | .outOfBounds => "out of bounds"
  | .assertion => "assertion"

def fault (f : Fault) : Json := problem "panic" (some (faultClass f))

/-- A value, or the class of the fault that took its place. -/
def guarded {α : Type} (write : α → Json) : Checked α → Json
  | .ok a => write a
  | .error f => .text ("panic: " ++ faultClass f)

def decodeError (e : DecodeError) : Json := problem "Json" e.message?

/-! ## Kinds -/

def scheduleKind : ScheduleError → String
  | .emptyTrip _ => "Schedule.EmptyTrip"
  | .stopCountMismatch .. => "Schedule.StopCountMismatch"
  | .duplicateTrip _ => "Schedule.DuplicateTrip"
  | .unknownStop _ => "Schedule.UnknownStop"

def graphKind : GraphError → String
  | .duplicatePattern _ => "Graph.DuplicatePattern"
  | .unknownPattern _ => "Graph.UnknownPattern"
  | .unknownEdge _ => "Graph.UnknownEdge"
  | .unknownVertex _ => "Graph.UnknownVertex"
  | .schedule e => "Graph." ++ scheduleKind e

def reconcileKind : ReconcileError → String
  | .tripNotInPattern _ => "Reconcile.TripNotInPattern"
  | .matchFailed _ => "Reconcile.MatchFailed"
  | .nonIncreasing _ => "Reconcile.NonIncreasing"

def applyKind : ApplyError → String
  | .incoherent _ => "Incoherent"
  | .emptyAfterFilter _ => "EmptyAfterFilter"
  | .unknownPattern _ => "UnknownPattern"
  | .notAdded _ => "NotAdded"
  | .unknownAgency _ => "UnknownAgency"
  | .unknownStop .. => "UnknownStop"
  | .missingTimes .. => "MissingTimes"
  | .reconcile e => reconcileKind e
  | .graph e => graphKind e
  | .schedule e => scheduleKind e

def fixtureKind : FixtureError → String
  | .unreadable => "Io"
  | .malformed _ => "Json"
  | .unknownAgency _ => "UnknownAgency"
  | .schedule e => scheduleKind e
  | .graph e => graphKind e

/-! ## Errors -/

def scheduleError (e : ScheduleError) : Json := problem (scheduleKind e) (some e.message)

def graphError (e : GraphError) : Json := problem (graphKind e) (some e.message)

def reconcileError (e : ReconcileError) : Json := problem (reconcileKind e) (some e.message)

def applyError (e : ApplyError) : Json := problem (applyKind e) (some e.message)

def fixtureError (e : FixtureError) : Json := problem (fixtureKind e) e.message?

/-- A source error names the file that it is about. -/
def sourceError (e : SourceError) : Json :=
  let (kind, file) := match e with
    | .disconnected => ("Source.Disconnected", [])
    | .unreadable file => ("Source.Io", [("file", Json.text file)])
    | .malformed file _ => ("Source.Json", [("file", Json.text file)])
  .record (("error", .text kind) :: file
    ++ (e.message?.toList.map fun m => ("message", Json.text m)))

end LiveTimetable.Report
