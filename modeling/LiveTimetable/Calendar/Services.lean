import LiveTimetable.Calendar.Zone
import LiveTimetable.FeedId
import LiveTimetable.Table

/-!
# Which services run on which dates

A service runs on a set of dates, counted in the zone of its agency. A service is registered
once; a second registration under its identifier changes nothing.
-/

namespace LiveTimetable

/-- The dates on which a service runs, and the zone they are counted in. -/
structure Service where
  zone : Zone
  dates : KeySet ServiceDate
  deriving DecidableEq

/-- The registered services. -/
structure Services where
  table : Table ServiceId Service
  deriving DecidableEq

namespace Services

/-- No services. -/
def empty : Services := ⟨Table.empty⟩

/-- The number of services. -/
def size (s : Services) : Nat := s.table.size

/-- Whether a service is registered. -/
def contains (s : Services) (id : ServiceId) : Bool := s.table.contains id

/-- Registers a service, unless its identifier is taken. -/
def register (s : Services) (id : ServiceId) (zone : Zone) (dates : List ServiceDate) : Services :=
  if s.contains id then s
  else ⟨s.table.insert id ⟨zone, Table.ofList (dates.map fun d => (d, ()))⟩⟩

/-- Whether a service runs on a date. -/
def runsOn (s : Services) (id : ServiceId) (date : ServiceDate) : Bool :=
  (s.table.get? id).any fun service => service.dates.contains date

/-- The zone of a service. -/
def zone? (s : Services) (id : ServiceId) : Option Zone := (s.table.get? id).map Service.zone

end Services

end LiveTimetable
