import LiveTimetable.Timetable.Basic

/-!
# Patterns

A pattern is a route and a sequence of stops that trips share, with the timetable of these trips
as published. A pattern is a value: to add or take away a trip is to make its next **revision**.
A synthesized pattern was made for trips that a feed added.
-/

namespace LiveTimetable

/-- Trips of one route with one sequence of stops. -/
structure Pattern where
  id : PatternId
  routeId : RouteId
  /-- The published times of the trips, with the stop index. -/
  timetable : Timetable
  /-- Whether passengers may be routed along the pattern. -/
  isTraversable : Bool
  isSynthesized : Bool
  /-- How often the trips of the pattern were changed. -/
  revision : Nat
  deriving DecidableEq

namespace Pattern

/-- The first revision of a pattern. -/
def publish (id : PatternId) (routeId : RouteId) (stops : List StopId) (trips : List Baseline)
    (isSynthesized : Bool) : Attempt ScheduleError Pattern := do
  let timetable ← ExceptT.mk (.ok (Timetable.publish id stops trips))
  return ⟨id, routeId, ← timetable.finish, true, isSynthesized, 0⟩

/-- The stops of the pattern. -/
def stops (p : Pattern) : List StopId := p.timetable.stops

/-- The trips of the pattern. -/
def trips (p : Pattern) : List TripId := p.timetable.trips

/-- The published times of a trip. -/
def published? (p : Pattern) (trip : TripId) : Option Baseline := p.timetable.published? trip

/-- The next revision, with a trip. -/
def withTrip (p : Pattern) (b : Baseline) : Attempt ScheduleError Pattern := do
  let timetable ← ExceptT.mk (.ok (p.timetable.insert b))
  return { p with timetable := ← timetable.finish, revision := p.revision + 1 }

/-- The next revision, without a trip. -/
def withoutTrip (p : Pattern) (trip : TripId) : Checked Pattern := do
  return { p with
    timetable := ← (p.timetable.remove trip).finish
    revision := p.revision + 1 }

end Pattern

end LiveTimetable
