import LiveTimetable.Proofs.Live.Withdrawals
import Mathlib.Data.Set.Card

/-!
# The users of a pattern are counted exactly

The books of added trips are told by their history. A trip is in the books under its latest
announcement, if that was not taken back, and the users of a pattern are the trips that are in the
books under it. A trip that is announced anew is released first and counted again afterwards, so a
pattern can go and come back within one entry.

* `AddedTrips.Entry`, `AddedTrips.after`: the books after a history.
* `AddedTrips.announced?`, `AddedTrips.given?`, `AddedTrips.usersOf`: what a history tells of a trip
  and of a pattern.
* `AddedTrips.Counts`: the count of each pattern is the number of its users, and a pattern without
  users is not in the books. Kept by `Counts.release` and `Counts.engage`.
* `AddedTrips.exact_after`, `AddedTrips.Exact.tells`: the books are those of their history, which
  tells all that they answer.
-/

namespace LiveTimetable.AddedTrips

/-! ## Histories -/

/-- A change of the books. -/
inductive Entry where
  | insert (trip : TripId) (date : ServiceDate) (s : Synthesized)
  | remove (trip : TripId)
  | update (s : Synthesized)

/-- The books after a change. -/
def enter (a : AddedTrips) : Entry → AddedTrips
  | .insert trip date s => a.insert trip date s
  | .remove trip => ((a.remove? trip).map Prod.snd).getD a
  | .update s => a.updatePattern s

/-- The books after a history, of which the latest change comes first. -/
def after : List Entry → AddedTrips
  | [] => .empty
  | e :: earlier => (after earlier).enter e

/-- The latest announcement of a trip, unless the trip was taken out since. -/
def announced? : List Entry → TripId → Option Announcement
  | [], _ => none
  | .insert other date s :: earlier, trip =>
    if trip = other then some ⟨date, s.pattern.id⟩ else announced? earlier trip
  | .remove other :: earlier, trip => if trip = other then none else announced? earlier trip
  | .update _ :: earlier, trip => announced? earlier trip

/-- The revision of a pattern that was given last. -/
def given? : List Entry → PatternId → Option Synthesized
  | [], _ => none
  | .insert _ _ s :: earlier, id => if id = s.pattern.id then some s else given? earlier id
  | .remove _ :: earlier, id => given? earlier id
  | .update s :: earlier, id => if id = s.pattern.id then some s else given? earlier id

/-- The trips that are in the books under a pattern. -/
def usersOf (es : List Entry) (id : PatternId) : Set TripId :=
  {trip | ∃ date, announced? es trip = some ⟨date, id⟩}

variable {a : AddedTrips} {es : List Entry} {trip other : TripId} {date : ServiceDate}
  {id id' : PatternId} {s : Synthesized} {announcement : Announcement}
  {U : PatternId → Set TripId} {V : PatternId → Option Synthesized}

theorem mem_usersOf_iff :
    trip ∈ usersOf es id ↔ ∃ announcement, announced? es trip = some announcement ∧
      announcement.pattern = id := by
  constructor
  · rintro ⟨date, h⟩
    exact ⟨_, h, rfl⟩
  · rintro ⟨announcement, h, rfl⟩
    exact ⟨announcement.date, h⟩

theorem usersOf_insert (es : List Entry) (trip : TripId) (date : ServiceDate) (s : Synthesized)
    (id : PatternId) : usersOf (.insert trip date s :: es) id =
      if id = s.pattern.id then Insert.insert trip (usersOf es id \ {trip})
      else usersOf es id \ {trip} := by
  ext other
  by_cases hid : id = s.pattern.id
  · by_cases hother : other = trip
    · simp [usersOf, announced?, hid, hother]
    · simp [usersOf, announced?, hid, hother]
  · by_cases hother : other = trip
    · simp [usersOf, announced?, hid, hother, Ne.symm hid]
    · simp [usersOf, announced?, hid, hother]

theorem usersOf_remove (es : List Entry) (trip : TripId) (id : PatternId) :
    usersOf (.remove trip :: es) id = usersOf es id \ {trip} := by
  ext other
  by_cases hother : other = trip
  · simp [usersOf, announced?, hother]
  · simp [usersOf, announced?, hother]

/-! ## Counts -/

/-- Each pattern is counted once for every user, and is in the books, in the revision given last, if
it has any. -/
structure Counts (U : PatternId → Set TripId) (V : PatternId → Option Synthesized)
    (a : AddedTrips) : Prop where
  users : ∀ id, (U id).encard = a.users id
  positive : ∀ id usage, a.patterns.get? id = some usage → 0 < usage.users
  given : ∀ id usage, a.patterns.get? id = some usage → V id = some usage.synthesized

theorem users_of_get? {usage : Usage} (h : a.patterns.get? id = some usage) :
    a.users id = usage.users := by
  unfold users
  rw [h]
  rfl

/-- A pattern is in the books exactly while it has users. -/
theorem Counts.contains_iff (h : Counts U V a) :
    a.patterns.contains id = true ↔ (U id).Nonempty := by
  rw [← Set.encard_ne_zero, h.users, ne_eq, Nat.cast_eq_zero]
  unfold Table.contains
  cases hget : a.patterns.get? id with
  | none => simp [AddedTrips.users, hget]
  | some usage =>
    have hpositive := h.positive id usage hget
    rw [users_of_get? hget]
    exact iff_of_true rfl (by omega)

theorem get?_release (a : AddedTrips) (id id' : PatternId) :
    (a.release id).patterns.get? id' = if id' = id then
      (a.patterns.get? id).bind fun usage =>
        if usage.users ≤ 1 then none else some { usage with users := usage.users - 1 }
    else a.patterns.get? id' := by
  unfold release
  cases hget : a.patterns.get? id with
  | none =>
    by_cases hid : id' = id
    · simp [hid, hget]
    · simp [hid]
  | some usage =>
    by_cases hle : usage.users ≤ 1
    · simp [hle, Table.get?_erase]
    · simp [hle, Table.get?_insert]

theorem users_release (a : AddedTrips) (id id' : PatternId) :
    (a.release id).users id' = if id' = id then a.users id - 1 else a.users id' := by
  unfold users
  rw [get?_release]
  by_cases hid : id' = id
  · rw [if_pos hid, if_pos hid]
    cases a.patterns.get? id with
    | none => rfl
    | some usage =>
      by_cases hle : usage.users ≤ 1
      · simp [hle]
      · simp [hle]
  · rw [if_neg hid, if_neg hid]

/-- One user less than a number is counted by its predecessor. -/
theorem encard_sdiff_singleton {users : Set TripId} {n : Nat} (h : users.encard = n)
    (hmem : trip ∈ users) : (users \ {trip}).encard = (n - 1 : Nat) := by
  rw [← Set.encard_sdiff_singleton_add_one hmem] at h
  generalize (users \ {trip}).encard = less at h
  cases less with
  | top => exact absurd h (by simp)
  | coe m =>
    have hm : m + 1 = n := by exact_mod_cast h
    rw [← hm, Nat.add_sub_cancel]

/-- A user is released. -/
theorem Counts.release (h : Counts U V a) (hmem : trip ∈ U id)
    (hother : ∀ id', id' ≠ id → trip ∉ U id') :
    Counts (fun id => U id \ {trip}) V (a.release id) := by
  have hold : ∀ id' usage, (a.release id).patterns.get? id' = some usage →
      0 < usage.users ∧ V id' = some usage.synthesized := by
    intro id' usage hget
    rw [get?_release] at hget
    split at hget
    · rename_i hid
      obtain ⟨old, hget', hkept⟩ := Option.bind_eq_some_iff.mp hget
      split at hkept
      · cases hkept
      · cases hkept
        have hgiven := h.given id old hget'
        exact ⟨by simp only []; omega, hid ▸ hgiven⟩
    · exact ⟨h.positive id' usage hget, h.given id' usage hget⟩
  refine ⟨fun id' => ?_, fun id' usage hget => (hold id' usage hget).1,
    fun id' usage hget => (hold id' usage hget).2⟩
  rw [users_release]
  by_cases hid : id' = id
  · rw [if_pos hid, hid]
    exact encard_sdiff_singleton (h.users id) hmem
  · rw [if_neg hid, Set.sdiff_singleton_eq_self (hother id' hid)]
    exact h.users id'

/-- A user is counted, and the pattern entered in the revision that was given. -/
theorem Counts.engage (h : Counts U V a) (trips : Table TripId Announcement)
    (hnew : trip ∉ U s.pattern.id) :
    Counts (fun id => if id = s.pattern.id then Insert.insert trip (U id) else U id)
      (fun id => if id = s.pattern.id then some s else V id)
      ⟨trips, a.patterns.insert s.pattern.id ⟨a.users s.pattern.id + 1, s⟩⟩ := by
  refine ⟨fun id => ?_, fun id usage hget => ?_, fun id usage hget => ?_⟩
  · unfold AddedTrips.users
    rw [Table.get?_insert]
    by_cases hid : id = s.pattern.id
    · rw [if_pos hid, if_pos hid, hid, Set.encard_insert_of_notMem hnew, h.users]
      exact (Nat.cast_succ _).symm
    · rw [if_neg hid, if_neg hid]
      exact h.users id
  · rw [Table.get?_insert] at hget
    split at hget
    · cases hget
      exact Nat.succ_pos _
    · exact h.positive id usage hget
  · rw [Table.get?_insert] at hget
    split at hget
    · rename_i hid
      cases hget
      exact if_pos hid
    · rename_i hid
      exact (if_neg hid).trans (h.given id usage hget)

/-- A pattern that is in the books is entered in another revision. -/
theorem Counts.update (h : Counts U V a) (s : Synthesized) :
    Counts U (fun id => if id = s.pattern.id then some s else V id) (a.updatePattern s) := by
  unfold updatePattern
  cases hold : a.patterns.get? s.pattern.id with
  | none =>
    refine ⟨h.users, h.positive, fun id usage hget => ?_⟩
    have hid : id ≠ s.pattern.id := by
      rintro rfl
      rw [hold] at hget
      cases hget
    exact (if_neg hid).trans (h.given id usage hget)
  | some old =>
    refine ⟨fun id => ?_, fun id usage hget => ?_, fun id usage hget => ?_⟩
    · rw [h.users]
      unfold AddedTrips.users
      rw [Table.get?_insert]
      by_cases hid : id = s.pattern.id
      · rw [if_pos hid, hid, hold]
        rfl
      · rw [if_neg hid]
    · rw [Table.get?_insert] at hget
      split at hget
      · cases hget
        exact h.positive _ old hold
      · exact h.positive id usage hget
    · rw [Table.get?_insert] at hget
      split at hget
      · rename_i hid
        cases hget
        exact if_pos hid
      · rename_i hid
        exact (if_neg hid).trans (h.given id usage hget)

/-! ## The books -/

/-- The books are those of the history: each trip is in them under its latest announcement, and its
pattern counts it. -/
structure Exact (es : List Entry) (a : AddedTrips) : Prop where
  trips : ∀ trip, a.trips.get? trip = announced? es trip
  counts : Counts (usersOf es) (given? es) a

/-- The books once the user of a pattern, if it is one, is released. -/
def released (a : AddedTrips) (trip : TripId) : AddedTrips :=
  match a.trips.get? trip with
  | some earlier => a.release earlier.pattern
  | none => a

theorem trips_release (a : AddedTrips) (id : PatternId) : (a.release id).trips = a.trips := by
  unfold release
  split
  · rfl
  · split <;> rfl

theorem trips_released (a : AddedTrips) (trip : TripId) : (a.released trip).trips = a.trips := by
  unfold released
  split
  · exact trips_release a _
  · rfl

theorem Exact.released (h : Exact es a) (trip : TripId) :
    Counts (fun id => usersOf es id \ {trip}) (given? es) (a.released trip) := by
  unfold AddedTrips.released
  cases hget : a.trips.get? trip with
  | none =>
    have hnew : ∀ id, trip ∉ usersOf es id := by
      rintro id ⟨date, hdate⟩
      rw [h.trips, hdate] at hget
      cases hget
    have hsame : (fun id => usersOf es id \ {trip}) = usersOf es :=
      funext fun id => Set.sdiff_singleton_eq_self (hnew id)
    rw [hsame]
    exact h.counts
  | some earlier =>
    rw [h.trips] at hget
    refine h.counts.release (mem_usersOf_iff.mpr ⟨earlier, hget, rfl⟩) fun id hid hmem => hid ?_
    obtain ⟨_, hget', rfl⟩ := mem_usersOf_iff.mp hmem
    rw [hget] at hget'
    cases hget'
    rfl

theorem Exact.insert (h : Exact es a) (trip : TripId) (date : ServiceDate) (s : Synthesized) :
    Exact (.insert trip date s :: es) (a.insert trip date s) := by
  refine ⟨fun other => ?_, ?_⟩
  · show ((a.released trip).trips.insert trip ⟨date, s.pattern.id⟩).get? other = _
    rw [Table.get?_insert, trips_released, h.trips]
    rfl
  · have hnew : trip ∉ usersOf es s.pattern.id \ {trip} := fun hmem => hmem.2 rfl
    have hcounts := (h.released trip).engage
      ((a.released trip).trips.insert trip ⟨date, s.pattern.id⟩) hnew
    rw [← funext (usersOf_insert es trip date s)] at hcounts
    exact hcounts

/-- The pattern of a trip that is in the books is there as well. -/
theorem Exact.exists_given (h : Exact es a) (hget : announced? es trip = some announcement) :
    ∃ usage, a.patterns.get? announcement.pattern = some usage ∧
      given? es announcement.pattern = some usage.synthesized := by
  obtain ⟨usage, husage⟩ := Option.isSome_iff_exists.mp
    (h.counts.contains_iff.mpr ⟨trip, mem_usersOf_iff.mpr ⟨announcement, hget, rfl⟩⟩)
  exact ⟨usage, husage, h.counts.given _ usage husage⟩

/-- What is known of a trip that is taken out, and the books without it. -/
theorem Exact.remove?_eq (h : Exact es a) (hget : announced? es trip = some announcement) :
    ∃ s, given? es announcement.pattern = some s ∧
      a.remove? trip = some (⟨announcement.date, s,
        !(a.released trip).patterns.contains announcement.pattern⟩,
        ⟨a.trips.erase trip, (a.released trip).patterns⟩) := by
  have htrip : a.trips.get? trip = some announcement := (h.trips trip).trans hget
  obtain ⟨usage, husage, hgiven⟩ := h.exists_given hget
  refine ⟨usage.synthesized, hgiven, ?_⟩
  unfold remove? AddedTrips.released
  rw [htrip, Option.bind_eq_bind, Option.bind_some, husage, Option.bind_eq_bind, Option.bind_some]
  simp only [trips_release]
  rfl

theorem Exact.remove (h : Exact es a) (trip : TripId) :
    Exact (.remove trip :: es) (a.enter (.remove trip)) := by
  have hcounts := h.released trip
  rw [← funext (usersOf_remove es trip)] at hcounts
  cases hget : announced? es trip with
  | none =>
    have hnone := remove?_eq_none ((h.trips trip).trans hget)
    have hsame : a.enter (.remove trip) = a := by
      simp only [enter, hnone, Option.map_none, Option.getD_none]
    have hreleased : a.released trip = a := by
      unfold AddedTrips.released
      rw [h.trips, hget]
    rw [hsame]
    refine ⟨fun other => ?_, hreleased ▸ hcounts⟩
    unfold announced?
    by_cases hother : other = trip
    · rw [if_pos hother, hother, h.trips, hget]
    · rw [if_neg hother, h.trips]
  | some announcement =>
    obtain ⟨s, -, hremove⟩ := h.remove?_eq hget
    have hafter : a.enter (.remove trip) = ⟨a.trips.erase trip, (a.released trip).patterns⟩ := by
      simp only [enter, hremove, Option.map_some, Option.getD_some]
    rw [hafter]
    refine ⟨fun other => ?_, ⟨hcounts.users, hcounts.positive, hcounts.given⟩⟩
    rw [Table.get?_erase, h.trips]
    rfl

theorem Exact.update (h : Exact es a) (s : Synthesized) :
    Exact (.update s :: es) (a.updatePattern s) := by
  refine ⟨fun trip => ?_, h.counts.update s⟩
  unfold updatePattern
  split
  · exact h.trips trip
  · exact h.trips trip

/-- **The books are exact after every history.** -/
theorem exact_after (es : List Entry) : Exact es (after es) := by
  induction es with
  | nil =>
    refine ⟨fun trip => rfl, ⟨fun id => ?_, fun id usage h => ?_, fun id usage h => ?_⟩⟩
    · have hnone : usersOf [] id = ∅ := Set.eq_empty_of_forall_notMem fun trip h => by
        obtain ⟨date, hdate⟩ := h
        cases hdate
      rw [hnone, Set.encard_empty]
      rfl
    · cases h
    · cases h
  | cons e earlier ih =>
    cases e with
    | insert trip date s => exact ih.insert trip date s
    | remove trip => exact ih.remove trip
    | update s => exact ih.update s

/-! ## Answers -/

/-- The added trips come by date, and those of one date by identifier. -/
theorem sorted_through (a : AddedTrips) (last : ServiceDate) :
    (a.through last).Pairwise fun x y => ∀ announcement announcement',
      a.trips.get? x = some announcement → a.trips.get? y = some announcement' →
        announcement.date < announcement'.date ∨
          announcement.date = announcement'.date ∧ compare x y = .lt := by
  have hsorted : a.byDate.Pairwise fun t u => compare t u = .lt := Table.sorted_keys _
  refine List.pairwise_map.mpr ((hsorted.filter _).imp_of_mem ?_)
  intro t u ht hu hlt announcement announcement' hx hy
  obtain ⟨_, hx', hdate⟩ := mem_byDate_iff.mp (List.mem_of_mem_filter ht)
  obtain ⟨_, hy', hdate'⟩ := mem_byDate_iff.mp (List.mem_of_mem_filter hu)
  rw [hx] at hx'
  rw [hy] at hy'
  cases hx'
  cases hy'
  rw [hdate, hdate']
  rcases Ordering.then_eq_lt.mp hlt with hdates | ⟨hdates, htrips⟩
  · exact Or.inl hdates
  · exact Or.inr ⟨Std.LawfulEqCmp.eq_of_compare hdates, htrips⟩

/-- What the books answer, told by their history. -/
structure Tells (es : List Entry) (a : AddedTrips) : Prop where
  /-- A pattern that is in the books is counted once for each of its users. -/
  counted : ∀ id usage, a.patterns.get? id = some usage →
    (usersOf es id).encard = usage.users ∧ usage.users ≠ 0 ∧ given? es id = some usage.synthesized
  /-- A pattern is in the books exactly while it has users. -/
  held_iff : ∀ id, (∃ usage, a.patterns.get? id = some usage) ↔ (usersOf es id).Nonempty
  patternFor?_eq : ∀ trip, a.patternFor? trip =
    (announced? es trip).bind fun announcement => given? es announcement.pattern
  patternFor?_isSome : ∀ trip, (a.patternFor? trip).isSome = (announced? es trip).isSome
  remove?_isSome : ∀ trip, (a.remove? trip).isSome = (announced? es trip).isSome
  /-- What is known of a trip that is taken out. -/
  removed : ∀ trip known a', a.remove? trip = some (known, a') → ∃ announcement,
    announced? es trip = some announcement ∧ known.date = announcement.date ∧
      given? es announcement.pattern = some known.synthesized ∧
      (known.wasLast = true ↔ ∀ other ∈ usersOf es announcement.pattern, other = trip)
  /-- The trips that are due, each of them once. -/
  mem_through_iff : ∀ last trip, trip ∈ a.through last ↔
    ∃ announcement, announced? es trip = some announcement ∧ ¬ last < announcement.date
  nodup_through : ∀ last, (a.through last).Nodup
  /-- They come by date, and those of one date by identifier. -/
  sorted_through : ∀ last, (a.through last).Pairwise fun x y => ∀ announcement announcement',
    announced? es x = some announcement → announced? es y = some announcement' →
      announcement.date < announcement'.date ∨
        announcement.date = announcement'.date ∧ compare x y = .lt

theorem Exact.patternFor?_eq (h : Exact es a) (trip : TripId) : a.patternFor? trip =
    (announced? es trip).bind fun announcement => given? es announcement.pattern := by
  unfold patternFor?
  rw [h.trips]
  cases hget : announced? es trip with
  | none => rfl
  | some announcement =>
    obtain ⟨usage, husage, hgiven⟩ := h.exists_given hget
    simp only [Option.bind_eq_bind, Option.bind_some, husage, hgiven]
    rfl

/-- The last user of a pattern is the only one. -/
theorem Exact.wasLast_iff (h : Exact es a) (trip : TripId) (id : PatternId) :
    (!(a.released trip).patterns.contains id) = true ↔ ∀ other ∈ usersOf es id, other = trip := by
  rw [Bool.not_eq_true', Bool.eq_false_iff, ne_eq, (h.released trip).contains_iff,
    Set.not_nonempty_iff_eq_empty, Set.sdiff_eq_empty, Set.subset_singleton_iff]

/-- **All that exact books answer is told by their history.** -/
theorem Exact.tells (h : Exact es a) : Tells es a where
  counted id usage hget := by
    have hpositive := h.counts.positive id usage hget
    exact ⟨(h.counts.users id).trans (congrArg _ (users_of_get? hget)), by omega,
      h.counts.given id usage hget⟩
  held_iff id := by
    rw [← h.counts.contains_iff]
    exact Option.isSome_iff_exists.symm
  patternFor?_eq := h.patternFor?_eq
  patternFor?_isSome trip := by
    rw [h.patternFor?_eq]
    cases hget : announced? es trip with
    | none => rfl
    | some announcement =>
      obtain ⟨usage, -, hgiven⟩ := h.exists_given hget
      rw [Option.bind_some, hgiven]
      rfl
  remove?_isSome trip := by
    cases hget : announced? es trip with
    | none =>
      rw [remove?_eq_none ((h.trips trip).trans hget)]
      rfl
    | some announcement =>
      obtain ⟨s, -, hremove⟩ := h.remove?_eq hget
      rw [hremove]
      rfl
  removed trip known a' hremove := by
    cases hget : announced? es trip with
    | none =>
      rw [remove?_eq_none ((h.trips trip).trans hget)] at hremove
      cases hremove
    | some announcement =>
      obtain ⟨s, hgiven, hremove'⟩ := h.remove?_eq hget
      rw [hremove'] at hremove
      cases hremove
      exact ⟨announcement, rfl, rfl, hgiven, h.wasLast_iff trip _⟩
  mem_through_iff last trip := by
    rw [AddedTrips.mem_through_iff]
    simp only [h.trips]
  nodup_through := AddedTrips.nodup_through a
  sorted_through last := by
    have hsorted := AddedTrips.sorted_through a last
    simp only [h.trips] at hsorted
    exact hsorted

end LiveTimetable.AddedTrips
