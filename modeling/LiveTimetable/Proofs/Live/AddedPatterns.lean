import LiveTimetable.Proofs.Live.Reachability
import Mathlib.Data.List.Dedup

/-!
# Added trips and their patterns

In a reachable state the books, the index and the graph have the same pattern for each added trip,
and a pattern for each route and sequence of stops among them (`Updater.added_patterns_agree`).
-/

namespace LiveTimetable

/-! ## Counting patterns -/

namespace Graph

variable {g : Graph}

/-- The numbers of the kept patterns. -/
def ids (g : Graph) : List PatternId := g.synthesized.values.map fun y => y.pattern.id

theorem length_ids (g : Graph) : g.ids.length = g.synthesized.size := by
  unfold ids Table.values Table.size
  rw [List.length_map, List.length_map]

theorem WellFormed.mem_ids_iff (hg : g.WellFormed) {id : PatternId} :
    id ∈ g.ids ↔ ∃ y, g.Keeps y ∧ y.pattern.id = id := by
  unfold ids Table.values
  simp only [List.map_map, List.mem_map, Function.comp_apply]
  constructor
  · rintro ⟨⟨c, y⟩, hmem, rfl⟩
    exact ⟨y, hg.keeps_of_get? (Table.mem_entries_iff.mp hmem), rfl⟩
  · rintro ⟨y, hy, rfl⟩
    exact ⟨(y.course, y), Table.mem_entries_iff.mpr hy, rfl⟩

/-- No two kept patterns have one number, since no two have one course. -/
theorem WellFormed.nodup_ids (hg : g.WellFormed) : g.ids.Nodup := by
  unfold ids Table.values
  rw [List.map_map]
  refine List.pairwise_map.mpr (g.synthesized.sorted.imp_of_mem fun {a b} ha hb hlt hid => ?_)
  have hka := Table.mem_entries_iff.mp ha
  have hkb := Table.mem_entries_iff.mp hb
  have hab := hg.id_inj a.2 b.2 (hg.keeps_of_get? hka) (hg.keeps_of_get? hkb) hid
  have hcourse : a.1 = b.1 := by
    rw [← hg.course_eq a.1 a.2 hka, ← hg.course_eq b.1 b.2 hkb, hab]
  rw [hcourse, Table.compare_refl] at hlt
  cases hlt

end Graph

namespace AddedTrips

variable {a : AddedTrips} {trip : TripId} {id : PatternId}

/-- The numbers of the patterns that are in use, one for each added trip. -/
def idsInUse (a : AddedTrips) : List PatternId := a.trips.values.map Announcement.pattern

theorem mem_idsInUse_iff : id ∈ a.idsInUse ↔ ∃ trip, a.Lists trip id := by
  unfold idsInUse Table.values Lists
  simp only [List.map_map, List.mem_map, Function.comp_apply]
  constructor
  · rintro ⟨⟨trip, announcement⟩, hmem, rfl⟩
    exact ⟨trip, announcement, Table.mem_entries_iff.mp hmem, rfl⟩
  · rintro ⟨trip, announcement, hget, rfl⟩
    exact ⟨(trip, announcement), Table.mem_entries_iff.mpr hget, rfl⟩

/-- The pattern of an added trip is the one that its number has in the books. -/
theorem patternFor?_eq_some_iff {y : Synthesized} : a.patternFor? trip = some y ↔
    ∃ id usage, a.Lists trip id ∧ a.patterns.get? id = some usage ∧ usage.synthesized = y := by
  unfold patternFor? Lists
  simp only [Option.bind_eq_bind, Option.bind_eq_some_iff, Option.pure_def, Option.some.injEq]
  constructor
  · rintro ⟨announcement, hget, usage, hbook, rfl⟩
    exact ⟨_, usage, ⟨announcement, hget, rfl⟩, hbook, rfl⟩
  · rintro ⟨id, usage, ⟨announcement, hget, rfl⟩, hbook, rfl⟩
    exact ⟨announcement, hget, usage, hbook, rfl⟩

end AddedTrips

/-! ## Agreement -/

namespace Updater

namespace Consistent

variable {s : Updater} {trip : TripId} {y y' : Synthesized}

/-- The books, the graph and the index tell of one pattern. -/
theorem patternFor?_iff (hs : s.Consistent) :
    s.added.patternFor? trip = some y ↔ s.graph.Keeps y ∧ trip ∈ y.pattern.trips := by
  rw [AddedTrips.patternFor?_eq_some_iff]
  constructor
  · rintro ⟨id, usage, hlist, hbook, rfl⟩
    obtain ⟨z, hz, hid, rfl⟩ := (hs.agrees.booked id usage).mp hbook
    exact ⟨hz, (hs.lists_iff hz).mp (hid ▸ hlist)⟩
  · rintro ⟨hy, hmem⟩
    exact ⟨y.pattern.id, _, (hs.lists_iff hy).mpr hmem,
      (hs.agrees.booked _ _).mpr ⟨y, hy, rfl, rfl⟩, rfl⟩

theorem contains_iff (hs : s.Consistent) :
    s.added.contains trip = true ↔ ∃ y, s.graph.Keeps y ∧ trip ∈ y.pattern.trips := by
  rw [AddedTrips.contains_eq_true_iff]
  constructor
  · rintro ⟨id, hlist⟩
    obtain ⟨y, hy, -, hmem⟩ := (hs.agrees.listed trip id).mp hlist
    exact ⟨y, hy, hmem⟩
  · rintro ⟨y, hy, hmem⟩
    exact ⟨y.pattern.id, (hs.lists_iff hy).mpr hmem⟩

theorem patternForTrip?_eq (hs : s.Consistent) (hy : s.graph.Keeps y)
    (hmem : trip ∈ y.pattern.trips) : s.index.patternForTrip? trip = some y.pattern :=
  hs.index.patternForTrip?_eq_some_iff.mpr ⟨hs.patternOf_eq hy hmem, hs.agrees.indexed y hy⟩

/-- The added trips are those for which the index has a synthesized pattern. -/
theorem contains_iff_indexed (hs : s.Consistent) : s.added.contains trip = true ↔
    ∃ p, s.index.patternForTrip? trip = some p ∧ p.isSynthesized = true := by
  rw [hs.contains_iff]
  constructor
  · rintro ⟨y, hy, hmem⟩
    exact ⟨y.pattern, hs.patternForTrip?_eq hy hmem, (hs.graph.sound y hy).isSynthesized⟩
  · rintro ⟨p, hp, hsynth⟩
    obtain ⟨hclaim, hget⟩ := hs.index.patternForTrip?_eq_some_iff.mp hp
    obtain ⟨y, hy, rfl⟩ := hs.agrees.kept _ _ hget hsynth
    obtain ⟨q, hq, hmem⟩ := hs.index.claimed trip _ hclaim
    rw [hget] at hq
    cases hq
    exact ⟨y, hy, hmem⟩

/-- No kept pattern was taken out of use. -/
theorem isTraversable_eq_true (hs : s.Consistent) (hy : s.graph.Keeps y) :
    s.isTraversable y.pattern = true := by
  have hnone : s.withdrawn.get? y.pattern.id = none := by
    cases hget : s.withdrawn.get? y.pattern.id with
    | none => rfl
    | some revision =>
      have hgone := (hs.withdrawn _ revision hget).1
      rw [hs.agrees.indexed y hy] at hgone
      cases hgone
  unfold isTraversable
  rw [(hs.graph.sound y hy).isTraversable, hnone]
  rfl

/-- There is a kept pattern for each number in use. -/
theorem size_eq (hs : s.Consistent) :
    s.graph.synthesized.size = s.added.idsInUse.dedup.length := by
  rw [← Graph.length_ids]
  refine (List.perm_ext_iff_of_nodup hs.graph.nodup_ids (List.nodup_dedup _)).mpr ?_ |>.length_eq
  intro id
  rw [List.mem_dedup, hs.graph.mem_ids_iff, AddedTrips.mem_idsInUse_iff]
  constructor
  · rintro ⟨y, hy, rfl⟩
    obtain ⟨trip, hmem⟩ := List.exists_mem_of_ne_nil _ (hs.graph.sound y hy).trips_ne_nil
    exact ⟨trip, (hs.lists_iff hy).mpr hmem⟩
  · rintro ⟨trip, hlist⟩
    obtain ⟨y, hy, hid, -⟩ := (hs.agrees.listed trip id).mp hlist
    exact ⟨y, hy, hid⟩

/-- The trips of a pattern are published, each on the route of the pattern. -/
theorem exists_published (hs : s.Consistent) (hy : s.graph.Keeps y)
    (hmem : trip ∈ y.pattern.trips) : ∃ b, y.pattern.published? trip = some b ∧
      b.trip.id = trip ∧ b.trip.routeId = y.pattern.routeId := by
  obtain ⟨r, hr, htrip⟩ := Timetable.mem_trips_iff.mp hmem
  have hsome : (y.pattern.timetable.rows.find? fun r => r.tripId == trip).isSome = true :=
    List.find?_isSome.mpr ⟨r, hr, beq_iff_eq.mpr htrip⟩
  obtain ⟨r', hr'⟩ := Option.isSome_iff_exists.mp hsome
  refine ⟨r'.published, congrArg (Option.map Row.published) hr', ?_, ?_⟩
  · have hfound := List.find?_some hr'
    exact beq_iff_eq.mp hfound
  · exact (hs.graph.sound y hy).routeId_eq r' (List.mem_of_find?_eq_some hr')

/-- Two patterns of one route and one sequence of stops are one. -/
theorem id_eq_iff_course_eq (hs : s.Consistent) (hy : s.graph.Keeps y) (hy' : s.graph.Keeps y') :
    y.pattern.id = y'.pattern.id ↔
      y.pattern.routeId = y'.pattern.routeId ∧ y.pattern.stops = y'.pattern.stops := by
  constructor
  · intro hid
    rw [hs.graph.id_inj y y' hy hy' hid]
    exact ⟨rfl, rfl⟩
  · rintro ⟨hroute, hstops⟩
    have hcourse : y.course = y'.course := by
      unfold Synthesized.course
      rw [hroute, hstops]
    have hsame : some y = some y' := hy.symm.trans (hcourse ▸ hy')
    cases hsame
    rfl

end Consistent

/-- **Books, index and graph agree on added trips.** A trip was added if the index has a synthesized
pattern for it. Then the books and the index have the pattern that the graph keeps under its route
and stops; it can be traversed, and its trips are the added trips under its number. The graph
keeps one pattern for each number in use, and two added trips share a pattern if they have one
route and one sequence of stops. -/
theorem added_patterns_agree {s : Updater} (h : s.Reachable) :
    (∀ trip, s.added.contains trip = true ↔
      ∃ p, s.index.patternForTrip? trip = some p ∧ p.isSynthesized = true) ∧
    (∀ trip, s.added.contains trip = true → ∃ y b, s.added.patternFor? trip = some y ∧
      s.index.patternForTrip? trip = some y.pattern ∧
      s.graph.synthesized.get? ⟨y.pattern.routeId, y.pattern.stops⟩ = some y ∧
      s.isTraversable y.pattern = true ∧
      y.pattern.trips ≠ [] ∧ y.pattern.trips.Nodup ∧
      (∀ other, other ∈ y.pattern.trips ↔ ∃ announcement,
        s.added.trips.get? other = some announcement ∧ announcement.pattern = y.pattern.id) ∧
      y.pattern.published? trip = some b ∧ b.trip.id = trip) ∧
    s.graph.synthesized.size = (s.added.trips.values.map Announcement.pattern).dedup.length ∧
    (∀ trip trip' y y' b b',
      s.added.patternFor? trip = some y → s.added.patternFor? trip' = some y' →
      y.pattern.published? trip = some b → y'.pattern.published? trip' = some b' →
        (y.pattern.id = y'.pattern.id ↔
          b.trip.routeId = b'.trip.routeId ∧ y.pattern.stops = y'.pattern.stops)) := by
  have hs := h.consistent
  refine ⟨fun trip => hs.contains_iff_indexed, fun trip hadded => ?_, hs.size_eq,
    fun trip trip' y y' b b' hy hy' hb hb' => ?_⟩
  · obtain ⟨y, hy, hmem⟩ := hs.contains_iff.mp hadded
    have hsound := hs.graph.sound y hy
    obtain ⟨b, hb, hid, -⟩ := hs.exists_published hy hmem
    exact ⟨y, b, hs.patternFor?_iff.mpr ⟨hy, hmem⟩, hs.patternForTrip?_eq hy hmem, hy,
      hs.isTraversable_eq_true hy, hsound.trips_ne_nil, hsound.wellFormed.nodup,
      fun other => (hs.lists_iff hy).symm, hb, hid⟩
  · obtain ⟨hkeeps, hmem⟩ := hs.patternFor?_iff.mp hy
    obtain ⟨hkeeps', hmem'⟩ := hs.patternFor?_iff.mp hy'
    obtain ⟨c, hc, -, hroute⟩ := hs.exists_published hkeeps hmem
    obtain ⟨c', hc', -, hroute'⟩ := hs.exists_published hkeeps' hmem'
    rw [hb] at hc
    rw [hb'] at hc'
    cases hc
    cases hc'
    rw [hroute, hroute']
    exact hs.id_eq_iff_course_eq hkeeps hkeeps'

/-- The added trip of the shuttle has the pattern that the graph keeps for it. -/
theorem added_patterns_agree_shuttle : ∃ y,
    shuttleWithExtra.added.patternFor? ⟨"a", "n"⟩ = some y ∧
      shuttleWithExtra.index.patternForTrip? ⟨"a", "n"⟩ = some y.pattern ∧
      shuttleWithExtra.isTraversable y.pattern = true ∧
      shuttleWithExtra.graph.synthesized.size = 1 := by
  have h := added_patterns_agree reachable_shuttleWithExtra
  obtain ⟨y, b, hbooks, hindex, -, htraversable, -⟩ := h.2.1 ⟨"a", "n"⟩ rfl
  exact ⟨y, hbooks, hindex, htraversable, h.2.2.1⟩

end Updater

end LiveTimetable
