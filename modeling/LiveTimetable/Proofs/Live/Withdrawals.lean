import LiveTimetable.Proofs.Live.Frame

/-!
# Added trips expire one after another

When trips expire, they are withdrawn in turn, each from the state that the one before left behind.
In a state that is in order each of them departs (`Updater.exists_departs`), and what one departure
keeps, all of them keep: the other trips, and what the buffer holds for them.

* `Updater.Departs`: the listed trips departed, in the order of the list.
* `Updater.Departs.spares`: they spare all other trips.
* `Updater.withdrawAll_spec`: added trips are withdrawn one after another, each of them.
* `Updater.purge_cases`: what a purge does, unless it was done before.
-/

namespace LiveTimetable

/-! ## Trips of past days -/

namespace AddedTrips

variable {a : AddedTrips} {trip : TripId} {last : ServiceDate}

theorem mem_byDate_iff {t : DatedTrip} : t ∈ a.byDate ↔ ∃ announcement,
    a.trips.get? t.trip = some announcement ∧ announcement.date = t.date := by
  unfold byDate
  rw [Table.mem_keys_ofList]
  simp only [List.mem_map, Prod.mk.injEq, and_true, exists_const]
  constructor
  · rintro ⟨⟨_, announcement⟩, he, rfl⟩
    exact ⟨announcement, Table.mem_entries_iff.mp he, rfl⟩
  · rintro ⟨announcement, hget, hdate⟩
    exact ⟨(t.trip, announcement), Table.mem_entries_iff.mpr hget, by rw [hdate]⟩

theorem mem_through_iff : trip ∈ a.through last ↔ ∃ announcement,
    a.trips.get? trip = some announcement ∧ ¬ last < announcement.date := by
  unfold through
  simp only [List.mem_map, List.mem_filter, mem_byDate_iff, Bool.not_eq_true',
    decide_eq_false_iff_not]
  constructor
  · rintro ⟨t, ⟨⟨announcement, hget, hdate⟩, hlast⟩, rfl⟩
    exact ⟨announcement, hget, hdate ▸ hlast⟩
  · rintro ⟨announcement, hget, hlast⟩
    exact ⟨⟨announcement.date, trip⟩, ⟨⟨announcement, hget, rfl⟩, hlast⟩, rfl⟩

/-- A trip has one announcement, so it expires once. -/
theorem nodup_through (a : AddedTrips) (last : ServiceDate) : (a.through last).Nodup := by
  refine List.Nodup.map_on (fun x hx y hy htrip => ?_) ((Table.nodup_keys _).filter _)
  obtain ⟨announcement, hget, hdate⟩ := mem_byDate_iff.mp (List.mem_of_mem_filter hx)
  obtain ⟨announcement', hget', hdate'⟩ := mem_byDate_iff.mp (List.mem_of_mem_filter hy)
  rw [← htrip, hget] at hget'
  cases hget'
  cases x
  cases y
  cases htrip
  cases hdate
  cases hdate'
  rfl

theorem contains_of_mem_through (h : trip ∈ a.through last) : a.contains trip = true := by
  obtain ⟨announcement, hget, -⟩ := mem_through_iff.mp h
  exact Option.isSome_iff_exists.mpr ⟨announcement, hget⟩

end AddedTrips

namespace Updater

variable {s s' : Updater} {trip other : TripId} {trips : List TripId} {y : Synthesized}
  {rest : Option Synthesized}

/-! ## One after another -/

/-- The listed trips departed one after another. -/
inductive Departs : List TripId → Updater → Updater → Prop
  | nil (s : Updater) : Departs [] s s
  | cons {trip : TripId} {trips : List TripId} {s s' : Updater} {y : Synthesized}
      {rest : Option Synthesized} (hy : s.graph.Keeps y) (hmem : trip ∈ y.pattern.trips)
      (hrest : y.remaining trip = .ok rest) (hall : Departs trips (s.depart trip y rest) s') :
      Departs (trip :: trips) s s'

/-- A departure is one change. -/
theorem change_depart (hs : s.Consistent) (ht : s.Tracks) (hy : s.graph.Keeps y)
    (hmem : trip ∈ y.pattern.trips) (hrest : y.remaining trip = .ok rest) :
    Change s none (s.depart trip y rest) :=
  (withdraw_spec hs (hs.contains_iff.mpr ⟨y, hy, hmem⟩) (withdraw_eq hs ht hy hmem hrest)).2

theorem Spares.trans {mid : Updater} (h : s.Spares trip mid) (h' : mid.Spares trip s') :
    s.Spares trip s' :=
  ⟨h'.agencies_eq.trans h.agencies_eq, h'.stops_eq.trans h.stops_eq,
    h'.recovery_eq.trans h.recovery_eq, h'.contains_eq.trans h.contains_eq,
    h'.patternId_eq.trans h.patternId_eq, h'.patternStops_eq.trans h.patternStops_eq,
    fun date => (h'.current?_eq date).trans (h.current?_eq date)⟩

namespace Departs

theorem consistent (h : Departs trips s s') (hs : s.Consistent) (ht : s.Tracks) :
    s'.Consistent ∧ s'.Tracks := by
  induction h with
  | nil => exact ⟨hs, ht⟩
  | cons hy hmem hrest _ ih =>
    have hchange := change_depart hs ht hy hmem hrest
    exact ih (hchange.consistent hs) (hchange.tracks hs ht)

/-- **The trips that depart spare all others.** -/
theorem spares (h : Departs trips s s') (hs : s.Consistent) (ht : s.Tracks)
    (hnot : other ∉ trips) : s.Spares other s' := by
  induction h with
  | nil s => exact .refl s other
  | cons hy hmem hrest _ ih =>
    have hchange := change_depart hs ht hy hmem hrest
    exact (spares_depart hs hy hmem hrest (List.ne_of_not_mem_cons hnot)).trans
      (ih (hchange.consistent hs) (hchange.tracks hs ht) (List.not_mem_of_not_mem_cons hnot))

/-- What one departure takes out at its own trip and leaves at all others, the departures of a list
take out at the trips of the list and leave at all others. -/
theorem taken_out {α : Type} (find? : Updater → TripId → Option α)
    (hone : ∀ s first y stays other, find? (depart s first y stays) other =
      if other = first then none else find? s other)
    (h : Departs trips s s') (trip : TripId) :
    find? s' trip = if trip ∈ trips then none else find? s trip := by
  induction h with
  | nil => rfl
  | @cons first rest s s' y stays hy hmem hrest hall ih =>
    rw [ih, hone]
    by_cases hfirst : trip = first <;> by_cases htail : trip ∈ rest <;> simp [hfirst, htail]

/-- The books have all other trips as before. -/
theorem get?_trips (h : Departs trips s s') (trip : TripId) :
    s'.added.trips.get? trip = if trip ∈ trips then none else s.added.trips.get? trip :=
  taken_out (fun s => s.added.trips.get?) (fun _ _ _ _ _ => Table.get?_erase ..) h trip

/-- The index does not know them any more. -/
theorem patternForTrip?_eq_none (h : Departs trips s s') (hmem : trip ∈ trips) :
    s'.index.patternForTrip? trip = none := by
  have hpattern : s'.index.patternOf.get? trip =
      if trip ∈ trips then none else s.index.patternOf.get? trip :=
    taken_out (fun s => s.index.patternOf.get?) (fun _ _ _ _ _ => Table.get?_erase ..) h trip
  unfold TransitIndex.patternForTrip?
  rw [hpattern, if_pos hmem]
  rfl

theorem contains_iff (h : Departs trips s s') : s'.added.contains trip = true ↔
    s.added.contains trip = true ∧ trip ∉ trips := by
  unfold AddedTrips.contains Table.contains
  rw [h.get?_trips]
  split <;> simp_all

/-- What is held afterwards was held before. -/
theorem contains_of_contains (h : Departs trips s s') {key : PatternDate}
    (hheld : s'.buffer.timetables.contains key = true) :
    s.buffer.timetables.contains key = true := by
  induction h with
  | nil => exact hheld
  | @cons first rest s s' y stays hy hmem hrest hall ih =>
    have hone : (s.buffer.depart first y.pattern.id stays.isSome).timetables.contains key = true :=
      ih hheld
    unfold Buffer.depart at hone
    split at hone
    · exact (Buffer.contains_strike ..) ▸ hone
    · exact (Buffer.contains_removePattern.mp hone).2

theorem purgedThrough_eq (h : Departs trips s s') : s'.purgedThrough = s.purgedThrough := by
  induction h with
  | nil => rfl
  | cons _ _ _ _ ih => exact ih

theorem settings_eq (h : Departs trips s s') : s'.settings = s.settings := by
  induction h with
  | nil => rfl
  | cons _ _ _ _ ih => exact ih

end Departs

/-- **Added trips depart when they are withdrawn.** -/
theorem exists_departs : ∀ {trips : List TripId} {s : Updater}, s.Consistent → s.Tracks →
    trips.Nodup → (∀ trip ∈ trips, s.added.contains trip = true) →
      ∃ s', withdrawAll trips s = .ok (s', !trips.isEmpty) ∧ Departs trips s s'
  | [], s, _, _, _, _ => ⟨s, rfl, .nil s⟩
  | first :: rest, s, hs, ht, hnodup, hadded => by
    obtain ⟨hnew, hnodup'⟩ := List.nodup_cons.mp hnodup
    obtain ⟨y, stays, hy, hmem, hrest, hwithdraw⟩ :=
      exists_withdraw hs ht (hadded first List.mem_cons_self)
    have hchange := change_depart hs ht hy hmem hrest
    obtain ⟨s', hall, hdeparts⟩ := exists_departs (hchange.consistent hs) (hchange.tracks hs ht)
      hnodup' fun trip htrip => by
        have hother : (s.depart first y stays).added.contains trip = s.added.contains trip :=
          AddedTrips.contains_depart_of_ne fun heq => hnew (heq ▸ htrip)
        exact hother.trans (hadded trip (List.mem_cons_of_mem _ htrip))
    refine ⟨s', ?_, .cons hy hmem hrest hdeparts⟩
    simp only [withdrawAll, hwithdraw, hall, Checked.ok_bind]
    rfl

/-- **Added trips are withdrawn one after another.** -/
theorem withdrawAll_spec (hs : s.Consistent) (ht : s.Tracks) (hnodup : trips.Nodup)
    (hadded : ∀ trip ∈ trips, s.added.contains trip = true) :
    ∃ s', withdrawAll trips s = .ok (s', !trips.isEmpty) ∧ s'.Consistent ∧ s'.Tracks ∧
      ∀ trip, s'.added.contains trip = true ↔ s.added.contains trip = true ∧ trip ∉ trips := by
  obtain ⟨s', hall, hdeparts⟩ := exists_departs hs ht hnodup hadded
  obtain ⟨hs', ht'⟩ := hdeparts.consistent hs ht
  exact ⟨s', hall, hs', ht', fun trip => hdeparts.contains_iff⟩

/-! ## Expiry -/

/-- The state without the timetables of days up to a date, through which was purged then. -/
def closeThrough (s : Updater) (through : ServiceDate) : Updater :=
  { s.setBuffer (s.buffer.dropBefore through.next) with purgedThrough := some through }

/-- **A purge was done before, or it lets the added trips of past days depart and drops the
timetables of these days.** -/
theorem purge_cases (hs : s.Consistent) (ht : s.Tracks) (today : ServiceDate) :
    (∃ done, s.purgedThrough = some done ∧ ¬ done < today.previous.previous ∧
      s.purge today = .ok (s, false)) ∨
    ((∀ done, s.purgedThrough = some done → done < today.previous.previous) ∧
      ∃ mid, Departs (s.added.through today.previous.previous) s mid ∧
        s.purge today = .ok (mid.closeThrough today.previous.previous,
          !(s.added.through today.previous.previous).isEmpty ||
            mid.buffer.holdsBefore today.previous.previous.next)) := by
  obtain ⟨mid, hall, hdeparts⟩ := exists_departs hs ht
    (s.added.nodup_through today.previous.previous) fun trip => AddedTrips.contains_of_mem_through
  unfold purge
  simp only [hall, Checked.ok_bind]
  cases s.purgedThrough with
  | none => exact .inr ⟨(fun _ h => by cases h), mid, hdeparts, rfl⟩
  | some done =>
    by_cases hlt : done < today.previous.previous
    · refine .inr ⟨fun _ h => Option.some.inj h ▸ hlt, mid, hdeparts, ?_⟩
      rw [if_neg (by simpa using hlt)]
      rfl
    · exact .inl ⟨done, rfl, hlt, if_pos (by simpa using hlt)⟩

end Updater

end LiveTimetable
