import LiveTimetable.Network.Graph

/-!
# Trips that a feed added

For each added trip the date it was last announced for and its pattern; for each of these
patterns the synthesized part of the graph and the number of added trips that use it. A pattern
is kept exactly as long as it has users.
-/

namespace LiveTimetable

/-- The announcement of an added trip. -/
structure Announcement where
  date : ServiceDate
  pattern : PatternId
  deriving DecidableEq

/-- A synthesized pattern and how many added trips use it. -/
structure Usage where
  users : Nat
  synthesized : Synthesized
  deriving DecidableEq

/-- An added trip under its date. -/
structure DatedTrip where
  date : ServiceDate
  trip : TripId
  deriving DecidableEq

namespace DatedTrip

instance : Ord DatedTrip := ⟨compareLex (compareOn DatedTrip.date) (compareOn DatedTrip.trip)⟩

instance : Std.TransOrd DatedTrip := inferInstanceAs (Std.TransCmp (compareLex _ _))

instance : Std.LawfulEqOrd DatedTrip where
  eq_of_compare {a b} h := by
    obtain ⟨hd, ht⟩ := Ordering.then_eq_eq.mp h
    cases a
    cases b
    simp only [compareOn] at hd ht
    cases Std.LawfulEqCmp.eq_of_compare hd
    cases Std.LawfulEqCmp.eq_of_compare ht
    rfl

end DatedTrip

/-- The added trips and their patterns. -/
structure AddedTrips where
  trips : Table TripId Announcement
  patterns : Table PatternId Usage
  deriving DecidableEq

/-- What is known of a trip that is taken out. -/
structure RemovedTrip where
  date : ServiceDate
  synthesized : Synthesized
  /-- Whether no other added trip uses the pattern. -/
  wasLast : Bool
  deriving DecidableEq

namespace AddedTrips

/-- No added trips. -/
def empty : AddedTrips := ⟨Table.empty, Table.empty⟩

/-- The number of added trips. -/
def size (a : AddedTrips) : Nat := a.trips.size

/-- Whether a trip was added. -/
def contains (a : AddedTrips) (trip : TripId) : Bool := a.trips.contains trip

/-- The pattern of an added trip. -/
def patternFor? (a : AddedTrips) (trip : TripId) : Option Synthesized := do
  let announcement ← a.trips.get? trip
  let usage ← a.patterns.get? announcement.pattern
  return usage.synthesized

/-- One user less for a pattern; without users it goes. -/
def release (a : AddedTrips) (pattern : PatternId) : AddedTrips :=
  match a.patterns.get? pattern with
  | none => a
  | some usage =>
    if usage.users ≤ 1 then { a with patterns := a.patterns.erase pattern }
    else
      { a with patterns := a.patterns.insert pattern { usage with users := usage.users - 1 } }

/-- The number of added trips that use a pattern. -/
def users (a : AddedTrips) (pattern : PatternId) : Nat :=
  ((a.patterns.get? pattern).map Usage.users).getD 0

/-- Records the announcement of a trip, in place of an earlier one. -/
def insert (a : AddedTrips) (trip : TripId) (date : ServiceDate) (s : Synthesized) : AddedTrips :=
  let released := match a.trips.get? trip with
    | some earlier => a.release earlier.pattern
    | none => a
  { trips := released.trips.insert trip ⟨date, s.pattern.id⟩
    patterns := released.patterns.insert s.pattern.id ⟨released.users s.pattern.id + 1, s⟩ }

/-- Takes a trip out, and says what was known of it. -/
def remove? (a : AddedTrips) (trip : TripId) : Option (RemovedTrip × AddedTrips) := do
  let announcement ← a.trips.get? trip
  let usage ← a.patterns.get? announcement.pattern
  let released := a.release announcement.pattern
  return (⟨announcement.date, usage.synthesized, !released.patterns.contains announcement.pattern⟩,
    { released with trips := released.trips.erase trip })

/-- Keeps a new revision of a pattern that is in use. -/
def updatePattern (a : AddedTrips) (s : Synthesized) : AddedTrips :=
  match a.patterns.get? s.pattern.id with
  | none => a
  | some usage =>
    { a with patterns := a.patterns.insert s.pattern.id { usage with synthesized := s } }

/-- Every added trip, by date and then by identifier. -/
def byDate (a : AddedTrips) : List DatedTrip :=
  (Table.ofList (a.trips.entries.map fun e => (⟨e.2.date, e.1⟩, ())) : KeySet DatedTrip).keys

/-- The added trips for dates up to `last`, by date and then by identifier. -/
def through (a : AddedTrips) (last : ServiceDate) : List TripId :=
  (a.byDate.filter fun t => !decide (last < t.date)).map DatedTrip.trip

end AddedTrips

end LiveTimetable
