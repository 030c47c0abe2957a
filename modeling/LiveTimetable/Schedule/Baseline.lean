import LiveTimetable.Checked
import LiveTimetable.Schedule.Error
import LiveTimetable.Schedule.Record

/-!
# The published times of a trip

A `Baseline` is what the static schedule says about one trip, call by call. Realtime never
changes it. The same trip may be published again with the same times, and a timetable must then
take up the new publication, so every baseline bears the **serial** number of its publication:
two baselines with one serial are one and the same.
-/

namespace LiveTimetable

/-- On what terms passengers may get on and off at a call. -/
structure Access where
  pickup : Boarding
  dropoff : Boarding
  deriving DecidableEq

/-- Nobody gets on or off. -/
def Access.closed : Access := ⟨.none, .none⟩

/-- One call of a trip at a stop. -/
structure Call where
  arrival : ServiceTime
  departure : ServiceTime
  access : Access
  deriving DecidableEq

/-- The call of a stop time. -/
def Call.ofStopTime (s : StopTime) : Call := ⟨s.arrival, s.departure, s.pickup, s.dropoff⟩

/-- A trip and its calls, as one publication of the schedule has them. -/
structure Baseline where
  /-- The number of the publication. -/
  serial : Nat
  trip : Trip
  calls : List Call
  deriving DecidableEq

namespace Baseline

/-- The publication of a trip, whose stop times are in the order of its stops. -/
def publish (serial : Nat) (trip : Trip) (stopTimes : List StopTime) :
    Except ScheduleError Baseline :=
  if stopTimes.isEmpty then .error (.emptyTrip trip.id)
  else .ok ⟨serial, trip, stopTimes.map Call.ofStopTime⟩

/-- The number of stops the trip calls at. -/
def stopCount (b : Baseline) : Nat := b.calls.length

/-- The call at a stop. -/
def call (b : Baseline) (stop : Nat) : Checked Call := Checked.nth b.calls stop

def arrival (b : Baseline) (stop : Nat) : Checked ServiceTime := return (← b.call stop).arrival

def departure (b : Baseline) (stop : Nat) : Checked ServiceTime := return (← b.call stop).departure

def access (b : Baseline) (stop : Nat) : Checked Access := return (← b.call stop).access

end Baseline

end LiveTimetable
