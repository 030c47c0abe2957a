import LiveTimetable.Feed.Codec
import LiveTimetable.Schedule.Record

/-!
# Schedule records in JSON

How agencies, stops, trips and stop times are read and written, in the manner of trip updates.
-/

namespace LiveTimetable

namespace Decoder

def boarding : Decoder Boarding := named Boarding.names

/-- The fields of an agency. -/
def agencyForm (zones : Zones) : RecordForm :=
  [("id", check string), ("name", check string), ("timezone", check (zone zones))]

def agency (zones : Zones) : Decoder Agency := fun j => do
  let fs ← j.fields (agencyForm zones)
  return {
    id := ← fs.required "id" string
    name := ← fs.required "name" string
    zone := ← fs.required "timezone" (zone zones) }

/-- The fields of a stop. -/
def stopForm : RecordForm := [("id", check feedId), ("name", check string)]

def stop : Decoder Stop := fun j => do
  let fs ← j.fields stopForm
  return { id := ← fs.required "id" feedId, name := ← fs.required "name" string }

/-- The fields of a trip. -/
def tripForm : RecordForm :=
  [("id", check feedId), ("route_id", check feedId), ("service_id", check feedId),
    ("wheelchair_accessible", check bool)]

def trip : Decoder Trip := fun j => do
  let fs ← j.fields tripForm
  return {
    id := ← fs.required "id" feedId
    routeId := ← fs.required "route_id" feedId
    serviceId := ← fs.required "service_id" feedId
    wheelchair := ← fs.withDefault "wheelchair_accessible" bool false }

/-- The fields of a stop time. -/
def stopTimeForm : RecordForm :=
  [("stop_id", check feedId), ("stop_sequence", check uint32), ("arrival", check int32),
    ("departure", check int32), ("pickup", check boarding), ("dropoff", check boarding)]

def stopTime : Decoder StopTime := fun j => do
  let fs ← j.fields stopTimeForm
  return {
    stopId := ← fs.required "stop_id" feedId
    sequence := ← fs.required "stop_sequence" uint32
    arrival := ← fs.required "arrival" int32
    departure := ← fs.required "departure" int32
    pickup := ← fs.withDefault "pickup" boarding .regular
    dropoff := ← fs.withDefault "dropoff" boarding .regular }

end Decoder

namespace Json

def ofAgency (a : Agency) : Json :=
  record [("id", text a.id), ("name", text a.name), ("timezone", text a.zone.name)]

def ofStop (s : Stop) : Json := record [("id", ofFeedId s.id), ("name", text s.name)]

def ofTrip (t : Trip) : Json :=
  record [("id", ofFeedId t.id), ("route_id", ofFeedId t.routeId),
    ("service_id", ofFeedId t.serviceId), ("wheelchair_accessible", .bool t.wheelchair)]

def ofStopTime (s : StopTime) : Json :=
  record [("stop_id", ofFeedId s.stopId), ("stop_sequence", .int s.sequence.toNat),
    ("arrival", ofTime s.arrival), ("departure", ofTime s.departure),
    ("pickup", text s.pickup.name), ("dropoff", text s.dropoff.name)]

end Json

end LiveTimetable
