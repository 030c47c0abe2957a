import LiveTimetable.Live.Updater
import LiveTimetable.Report.Times

/-!
# Reports of the state

Dates, patterns, services, snapshots and the index, the settings, and the state of the updater in
numbers.
-/

namespace LiveTimetable.Report

/-- A date and its neighbours. -/
def date (d : ServiceDate) : Json :=
  .record [("text", .ofDate d), ("debug", .text ("ServiceDate(" ++ d.text ++ ")")),
    ("ymd", .arr [.int d.year, nat d.month, nat d.day]), ("previous", .ofDate d.previous),
    ("next", .ofDate d.next), ("previous_is_less", .bool (decide (d.previous < d))),
    ("next_is_greater", .bool (decide (d < d.next)))]

/-- A pattern, and whether it can be traversed now. -/
def patternWith (p : Pattern) (isTraversable : Bool) : Json :=
  .record [("id", .text p.id.text), ("route", .ofFeedId p.routeId),
    ("stops", list .ofFeedId p.stops), ("trips", list .ofFeedId p.trips),
    ("traversable", .bool isTraversable), ("synthesized", .bool p.isSynthesized),
    ("finished", .bool p.timetable.isFinished)]

def pattern (p : Pattern) : Json := patternWith p p.isTraversable

/-- A synthesized pattern, and whether it can be traversed now. -/
def synthesizedWith (s : Synthesized) (isTraversable : Bool) : Json :=
  .record [("pattern", patternWith s.pattern isTraversable), ("edges", list nat s.edges),
    ("vertices", list nat s.vertices)]

def synthesized (s : Synthesized) : Json := synthesizedWith s s.pattern.isTraversable

/-- The stop pairs of hops. -/
def hops (hops : List (StopId × StopId)) : Json :=
  list (fun h => .arr [.ofFeedId h.1, .ofFeedId h.2]) hops

/-- What is known of a service, and of a date. -/
def service (services : Services) (id : ServiceId) (date : ServiceDate) : Json :=
  .record [("contains", .bool (services.contains id)),
    ("runs_on", .bool (services.runsOn id date)),
    ("timezone", .orNull (fun z => .text (Zone.name z)) (services.zone? id))]

def snapshot (s : Snapshot) : Json :=
  .record [("generation", nat s.generation), ("len", nat s.timetables.size),
    ("empty", .bool s.timetables.isEmpty),
    ("keys", list (fun k => .text (PatternDate.text k)) s.timetables.keys)]

/-- The patterns and stops of an index, each in the order of its identifiers. -/
def index (x : TransitIndex) : Json :=
  .record [("patterns", list pattern x.patterns.values),
    ("stops", list .ofStop x.stops.values),
    ("next_pattern_id", guarded (fun p => .text (PatternId.text p)) x.nextPatternId)]

def duration (milliseconds : Nat) : Json :=
  .record [("secs", nat (milliseconds / 1000)), ("millis", nat (milliseconds % 1000))]

def settings (s : Settings) : Json :=
  .record [("max_snapshot_frequency", duration s.snapshotInterval),
    ("purge_expired_data", .bool s.purgeExpired), ("log_frequency", nat s.logFrequency),
    ("timezone", .text s.zone.name), ("update_frequency", duration s.updateInterval),
    ("recovery_secs_per_minute", nat s.recovery.secondsPerMinute)]

def summary (r : RunSummary) : Json :=
  .record [("applied", nat r.applied), ("failed", nat r.failed), ("purged", .bool r.purged)]

/-- The state of the updater in numbers, its added trips, and what is published. -/
def updater (s : Updater) : Json :=
  .record [("dirty", .bool s.buffer.isDirty), ("buffer", nat s.buffer.size),
    ("added", list (fun t => .ofFeedId (DatedTrip.trip t)) s.added.byDate),
    ("vertices", nat s.graph.vertices.size), ("edges", nat s.graph.edges.size),
    ("synthesized", nat s.graph.synthesized.size), ("services", nat s.graph.services.size),
    ("patterns", nat s.index.patterns.size), ("published", snapshot s.publisher.published)]

end LiveTimetable.Report
