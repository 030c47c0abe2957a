import LiveTimetable.Live.AddedTrips
import LiveTimetable.Proofs.Network.Synthesis

/-!
# The books of added trips through their changes

What is entered for a trip and for a pattern after each change of the books, told by what the two
tables answer.

* `AddedTrips.insert_eq`: a trip that is not in the books is entered.
* `AddedTrips.remove?_eq`: a trip is taken out, and its pattern released.
* `AddedTrips.Lists`: the books have a trip under a pattern.
-/

namespace LiveTimetable.AddedTrips

/-- A trip is in the books under a pattern. -/
def Lists (a : AddedTrips) (trip : TripId) (id : PatternId) : Prop :=
  ∃ announcement, a.trips.get? trip = some announcement ∧ announcement.pattern = id

variable {a : AddedTrips} {trip : TripId} {id : PatternId} {usage : Usage}
  {announcement : Announcement}

theorem contains_eq_true_iff : a.contains trip = true ↔ ∃ id, a.Lists trip id := by
  unfold contains Table.contains
  rw [Option.isSome_iff_exists]
  constructor
  · rintro ⟨announcement, h⟩
    exact ⟨announcement.pattern, announcement, h, rfl⟩
  · rintro ⟨id, announcement, h, -⟩
    exact ⟨announcement, h⟩

theorem lists_of_get? (h : a.trips.get? trip = some announcement) :
    a.Lists trip announcement.pattern :=
  ⟨announcement, h, rfl⟩

/-- A trip is in the books under one pattern only. -/
theorem Lists.unique {id' : PatternId} (h : a.Lists trip id) (h' : a.Lists trip id') :
    id = id' := by
  obtain ⟨announcement, hget, rfl⟩ := h
  obtain ⟨announcement', hget', rfl⟩ := h'
  rw [hget] at hget'
  cases hget'
  rfl

/-- A new trip is entered, with one user more for its pattern. -/
theorem insert_eq (h : a.trips.get? trip = none) (date : ServiceDate) (s : Synthesized) :
    a.insert trip date s =
      ⟨a.trips.insert trip ⟨date, s.pattern.id⟩,
        a.patterns.insert s.pattern.id ⟨a.users s.pattern.id + 1, s⟩⟩ := by
  unfold insert
  rw [h]

theorem lists_insert_iff {date : ServiceDate} {patterns : Table PatternId Usage} {id' : PatternId}
    {t : TripId} : (⟨a.trips.insert trip ⟨date, id⟩, patterns⟩ : AddedTrips).Lists t id' ↔
      if t = trip then id' = id else a.Lists t id' := by
  unfold Lists
  simp only [Table.get?_insert]
  split
  · constructor
    · rintro ⟨_, ⟨⟩, rfl⟩
      rfl
    · rintro rfl
      exact ⟨_, rfl, rfl⟩
  · exact Iff.rfl

theorem lists_erase_iff {patterns : Table PatternId Usage} {t : TripId} :
    (⟨a.trips.erase trip, patterns⟩ : AddedTrips).Lists t id ↔ t ≠ trip ∧ a.Lists t id := by
  unfold Lists
  simp only [Table.get?_erase]
  by_cases h : t = trip
  · rw [if_pos h]
    constructor
    · rintro ⟨_, ⟨⟩, -⟩
    · rintro ⟨hne, -⟩
      exact absurd h hne
  · rw [if_neg h]
    constructor
    · exact fun hold => ⟨h, hold⟩
    · exact fun hold => hold.2

/-- A pattern is given up by its last user. -/
theorem release_eq_of_le (h : a.patterns.get? id = some usage) (hle : usage.users ≤ 1) :
    a.release id = { a with patterns := a.patterns.erase id } := by
  unfold release
  simp only [h, if_pos hle]

/-- A pattern that others use is kept, with one user less. -/
theorem release_eq_of_lt (h : a.patterns.get? id = some usage) (hlt : 1 < usage.users) :
    a.release id =
      { a with patterns := a.patterns.insert id { usage with users := usage.users - 1 } } := by
  unfold release
  simp only [h, if_neg (Nat.not_le.mpr hlt)]

/-- The last user of a pattern is taken out together with the pattern. -/
theorem remove?_eq_of_le (ht : a.trips.get? trip = some announcement)
    (hp : a.patterns.get? announcement.pattern = some usage) (hle : usage.users ≤ 1) :
    a.remove? trip = some (⟨announcement.date, usage.synthesized, true⟩,
      ⟨a.trips.erase trip, a.patterns.erase announcement.pattern⟩) := by
  unfold remove?
  rw [ht, Option.bind_eq_bind, Option.bind_some, hp, Option.bind_eq_bind, Option.bind_some,
    release_eq_of_le hp hle]
  simp [Table.contains, Table.get?_erase]

/-- Any other user is taken out, and the pattern stays. -/
theorem remove?_eq_of_lt (ht : a.trips.get? trip = some announcement)
    (hp : a.patterns.get? announcement.pattern = some usage) (hlt : 1 < usage.users) :
    a.remove? trip = some (⟨announcement.date, usage.synthesized, false⟩,
      ⟨a.trips.erase trip,
        a.patterns.insert announcement.pattern { usage with users := usage.users - 1 }⟩) := by
  unfold remove?
  rw [ht, Option.bind_eq_bind, Option.bind_some, hp, Option.bind_eq_bind, Option.bind_some,
    release_eq_of_lt hp hlt]
  simp [Table.contains, Table.get?_insert]

/-- A pattern that is entered can be entered in another revision. -/
theorem updatePattern_insert (trips : Table TripId Announcement) (patterns : Table PatternId Usage)
    (users : Nat) (old s : Synthesized) :
    (⟨trips, patterns.insert s.pattern.id ⟨users, old⟩⟩ : AddedTrips).updatePattern s =
      ⟨trips, patterns.insert s.pattern.id ⟨users, s⟩⟩ := by
  have htwice : (patterns.insert s.pattern.id ⟨users, old⟩).insert s.pattern.id ⟨users, s⟩ =
      patterns.insert s.pattern.id ⟨users, s⟩ := by
    refine Table.ext_get? fun id => ?_
    simp only [Table.get?_insert]
    split <;> rfl
  unfold updatePattern
  simp only [Table.get?_insert, if_true, htwice]

theorem remove?_eq_none (h : a.trips.get? trip = none) : a.remove? trip = none := by
  unfold remove?
  rw [h]
  rfl

end LiveTimetable.AddedTrips
