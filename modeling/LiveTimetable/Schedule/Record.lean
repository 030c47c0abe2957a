import LiveTimetable.Calendar.Zone
import LiveTimetable.FeedId
import LiveTimetable.ServiceTime

/-!
# The records of a static schedule

Agencies, stops, trips and the times at which trips call at stops.
-/

namespace LiveTimetable

/-- On what terms passengers may get on, or off, at a stop. -/
inductive Boarding where
  | regular
  | none
  /-- By telephone to the agency. -/
  | phoneAgency
  /-- By arrangement with the driver. -/
  | coordinateWithDriver
  deriving DecidableEq

namespace Boarding

/-- Whether passengers may at all. -/
def isAllowed (b : Boarding) : Bool := b != .none

/-- The number of the terms in a feed. -/
def code : Boarding → Nat
  | regular => 0
  | none => 1
  | phoneAgency => 2
  | coordinateWithDriver => 3

/-- The name of the terms. -/
def name : Boarding → String
  | regular => "regular"
  | none => "none"
  | phoneAgency => "phone_agency"
  | coordinateWithDriver => "coordinate_with_driver"

/-- All terms by name. -/
def names : List (String × Boarding) :=
  [("regular", regular), ("none", none), ("phone_agency", phoneAgency),
    ("coordinate_with_driver", coordinateWithDriver)]

end Boarding

/-- A transit agency and the zone its days are counted in. -/
structure Agency where
  id : String
  name : String
  zone : Zone
  deriving DecidableEq

/-- A place where vehicles stop. -/
structure Stop where
  id : StopId
  name : String
  deriving DecidableEq

/-- One journey of a vehicle. -/
structure Trip where
  id : TripId
  routeId : RouteId
  serviceId : ServiceId
  wheelchair : Bool
  deriving DecidableEq

/-- One call of a trip at a stop. -/
structure StopTime where
  stopId : StopId
  sequence : UInt32
  arrival : ServiceTime
  departure : ServiceTime
  pickup : Boarding
  dropoff : Boarding
  deriving DecidableEq

end LiveTimetable
