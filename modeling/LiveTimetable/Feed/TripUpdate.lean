import LiveTimetable.Feed.StopPatch

/-!
# What a feed says about one trip

A `TripUpdate` gathers the patches for one trip on one service date, under a status for the trip
as a whole.
-/

namespace LiveTimetable

/-- What happened to a trip as a whole. -/
inductive TripStatus where
  /-- It is not in the schedule and runs because the feed says so. -/
  | added
  /-- It will not run. -/
  | canceled
  /-- It runs with other stop times. -/
  | modified
  /-- What the feed said about it no longer holds. -/
  | removed
  deriving DecidableEq

/-- Everything that one message says about one trip on one service date. -/
structure TripUpdate where
  tripId : TripId
  date : ServiceDate
  status : TripStatus
  /-- The patches, in the order of their stops. -/
  patches : List StopPatch
  /-- Whether the vehicle takes a wheelchair, if the feed says so. -/
  wheelchair : Option Bool
  /-- When the feed made the message, in Unix seconds. -/
  timestamp : Int64
  /-- The route of an added trip. -/
  routeId : Option RouteId
  /-- The service of an added trip. -/
  serviceId : Option ServiceId
  deriving DecidableEq

namespace TripUpdate

/-- An update that names neither route nor service. -/
def ofStatus (status : TripStatus) (tripId : TripId) (timestamp : Int64) (date : ServiceDate)
    (patches : List StopPatch) : TripUpdate :=
  ⟨tripId, date, status, patches, none, timestamp, none, none⟩

/-- New stop times for a trip. -/
def modifying := ofStatus .modified

/-- The trip will not run. -/
def canceling (tripId : TripId) (timestamp : Int64) (date : ServiceDate) : TripUpdate :=
  ofStatus .canceled tripId timestamp date []

/-- What was said about the trip no longer holds. -/
def removing (tripId : TripId) (timestamp : Int64) (date : ServiceDate) : TripUpdate :=
  ofStatus .removed tripId timestamp date []

/-- A trip outside the schedule, on the given route. -/
def adding (tripId : TripId) (routeId : RouteId) (timestamp : Int64) (date : ServiceDate)
    (patches : List StopPatch) : TripUpdate :=
  { ofStatus .added tripId timestamp date patches with routeId := some routeId }

/-- Whether what was said about the trip no longer holds. -/
def isRemoval (u : TripUpdate) : Bool := u.status == .removed

/-- Whether the trip will not run. -/
def isCancellation (u : TripUpdate) : Bool := u.status == .canceled

/-- Whether a patch is addressed to the update's trip and service date. -/
def owns (u : TripUpdate) (p : StopPatch) : Bool := p.tripId == u.tripId && p.date == u.date

end TripUpdate

end LiveTimetable
