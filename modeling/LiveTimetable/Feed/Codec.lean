import LiveTimetable.Feed.TripUpdate
import LiveTimetable.Json.Decode
import LiveTimetable.Json.Writer

/-!
# Trip updates in JSON

How patches and updates are read and written. A written record has every field, an absent value
as `null`; in a record that is read, optional values and those with a default may be missing.
-/

namespace LiveTimetable

/-- The names of the stop statuses. -/
def StopStatus.names : List (String × StopStatus) :=
  [("PASSED", .passed), ("CANCELED", .canceled), ("UNKNOWN", .unknown), ("PLANNED", .planned),
    ("ARRIVED", .arrived), ("PREDICTION", .predicted)]

/-- The name of a stop status. -/
def StopStatus.name : StopStatus → String
  | .passed => "PASSED"
  | .canceled => "CANCELED"
  | .unknown => "UNKNOWN"
  | .planned => "PLANNED"
  | .arrived => "ARRIVED"
  | .predicted => "PREDICTION"

/-- The names of the trip statuses. -/
def TripStatus.names : List (String × TripStatus) :=
  [("ADDED", .added), ("CANCELED", .canceled), ("MODIFIED", .modified), ("REMOVED", .removed)]

/-- The name of a trip status. -/
def TripStatus.name : TripStatus → String
  | .added => "ADDED"
  | .canceled => "CANCELED"
  | .modified => "MODIFIED"
  | .removed => "REMOVED"

namespace Decoder

def stopStatus : Decoder StopStatus := named StopStatus.names

def tripStatus : Decoder TripStatus := named TripStatus.names

/-- The fields of a patch. -/
def stopPatchForm : RecordForm :=
  [("trip_id", check feedId), ("stop_id", check feedId), ("stop_seq", check uint64),
    ("arrival", check (optional int32)), ("departure", check (optional int32)),
    ("status", check stopStatus), ("delay", check int32), ("service_date", check serviceDate)]

def stopPatch : Decoder StopPatch := fun j => do
  let fs ← j.fields stopPatchForm
  return {
    tripId := ← fs.required "trip_id" feedId
    stopId := ← fs.required "stop_id" feedId
    position := ← fs.required "stop_seq" uint64
    arrival := ← fs.withDefault "arrival" (optional int32) none
    departure := ← fs.withDefault "departure" (optional int32) none
    status := ← fs.required "status" stopStatus
    delay := ← fs.withDefault "delay" int32 0
    date := ← fs.required "service_date" serviceDate }

/-- The fields of an update. -/
def tripUpdateForm : RecordForm :=
  [("trip_id", check feedId), ("service_date", check serviceDate), ("status", check tripStatus),
    ("updates", check (list stopPatch)), ("wheelchair_accessible", check (optional bool)),
    ("timestamp", check int64), ("route_id", check (optional feedId)),
    ("service_id", check (optional feedId))]

def tripUpdate : Decoder TripUpdate := fun j => do
  let fs ← j.fields tripUpdateForm
  return {
    tripId := ← fs.required "trip_id" feedId
    date := ← fs.required "service_date" serviceDate
    status := ← fs.required "status" tripStatus
    patches := ← fs.withDefault "updates" (list stopPatch) []
    wheelchair := ← fs.withDefault "wheelchair_accessible" (optional bool) none
    timestamp := ← fs.withDefault "timestamp" int64 0
    routeId := ← fs.withDefault "route_id" (optional feedId) none
    serviceId := ← fs.withDefault "service_id" (optional feedId) none }

/-- The updates of one message. -/
def batch : Decoder (List TripUpdate) := list tripUpdate

end Decoder

namespace Json

def ofFeedId (f : FeedId) : Json := text f.text

def ofDate (d : ServiceDate) : Json := text d.text

def ofTime (t : ServiceTime) : Json := .int t.toInt

def ofStopPatch (p : StopPatch) : Json :=
  record [("trip_id", ofFeedId p.tripId), ("stop_id", ofFeedId p.stopId),
    ("stop_seq", .int p.position.toNat), ("arrival", orNull ofTime p.arrival),
    ("departure", orNull ofTime p.departure), ("status", text p.status.name),
    ("delay", .int p.delay.toInt), ("service_date", ofDate p.date)]

def ofTripUpdate (u : TripUpdate) : Json :=
  record [("trip_id", ofFeedId u.tripId), ("service_date", ofDate u.date),
    ("status", text u.status.name), ("updates", .arr (u.patches.map ofStopPatch)),
    ("wheelchair_accessible", orNull .bool u.wheelchair), ("timestamp", .int u.timestamp.toInt),
    ("route_id", orNull ofFeedId u.routeId), ("service_id", orNull ofFeedId u.serviceId)]

def ofBatch (us : List TripUpdate) : Json := .arr (us.map ofTripUpdate)

end Json

end LiveTimetable
