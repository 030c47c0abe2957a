import LiveTimetable.Network.Index
import LiveTimetable.Proofs.Network.Revisions

/-!
# The registry through its changes

In a well-formed index every pattern is under its own number, every claimed trip is one of the
pattern that claims it, and a synthesized pattern claims all of its trips. (Two patterns of the
schedule may list one trip; then the last one claims it.)

* `TransitIndex.Replaces`: an index with another revision of a pattern, or one pattern more.
* `TransitIndex.Replaces.wellFormed`, `TransitIndex.WellFormed.removePattern`: what the changes
  keep.
-/

namespace LiveTimetable.TransitIndex

/-- Numbers, patterns and trips belong together. -/
structure WellFormed (x : TransitIndex) : Prop where
  id_eq : ∀ id p, x.patterns.get? id = some p → p.id = id
  pattern : ∀ id p, x.patterns.get? id = some p → p.WellFormed
  claimed : ∀ trip id, x.patternOf.get? trip = some id →
    ∃ p, x.patterns.get? id = some p ∧ trip ∈ p.trips
  owns : ∀ id p trip, x.patterns.get? id = some p → p.isSynthesized = true → trip ∈ p.trips →
    x.patternOf.get? trip = some id

variable {x x' : TransitIndex} {p : Pattern} {id : PatternId} {trip : TripId}

theorem wellFormed_of_empty (hp : x.patterns = Table.empty) (hc : x.patternOf = Table.empty) :
    x.WellFormed := by
  constructor
  · intro id p h
    rw [hp] at h
    cases h
  · intro id p h
    rw [hp] at h
    cases h
  · intro trip id h
    rw [hc] at h
    cases h
  · intro id p trip h
    rw [hp] at h
    cases h

/-- A trip has a pattern if one claims it. -/
theorem WellFormed.patternForTrip?_eq_some_iff (hx : x.WellFormed) :
    x.patternForTrip? trip = some p ↔
      x.patternOf.get? trip = some p.id ∧ x.patterns.get? p.id = some p := by
  unfold patternForTrip?
  rw [Option.bind_eq_some_iff]
  constructor
  · rintro ⟨id, hid, hp⟩
    obtain rfl := hx.id_eq id p hp
    exact ⟨hid, hp⟩
  · rintro ⟨hid, hp⟩
    exact ⟨p.id, hid, hp⟩

theorem WellFormed.patternForTrip?_eq_none_iff (hx : x.WellFormed) :
    x.patternForTrip? trip = none ↔ x.patternOf.get? trip = none := by
  unfold patternForTrip?
  cases hid : x.patternOf.get? trip with
  | none => simp
  | some id =>
    obtain ⟨p, hp, -⟩ := hx.claimed trip id hid
    simp [hp]

/-- The pattern of a trip has the trip. -/
theorem WellFormed.mem_trips_of_patternForTrip? (hx : x.WellFormed)
    (h : x.patternForTrip? trip = some p) : trip ∈ p.trips := by
  obtain ⟨hclaim, hget⟩ := hx.patternForTrip?_eq_some_iff.mp h
  obtain ⟨q, hq, hmem⟩ := hx.claimed trip _ hclaim
  rw [hget] at hq
  cases hq
  exact hmem

/-- A trip that no pattern claims is in no synthesized pattern. -/
theorem WellFormed.not_mem_of_patternForTrip?_eq_none (hx : x.WellFormed)
    (h : x.patternForTrip? trip = none) (hp : x.patterns.get? id = some p)
    (hsynth : p.isSynthesized = true) : trip ∉ p.trips := by
  intro hmem
  rw [hx.patternForTrip?_eq_none_iff, hx.owns id p trip hp hsynth hmem] at h
  cases h

/-! ## Registering -/

theorem get?_foldl_insert (trips : List TripId) (id : PatternId) (claims : Table TripId PatternId)
    (trip : TripId) :
    (trips.foldl (fun t trip => t.insert trip id) claims).get? trip =
      if trip ∈ trips then some id else claims.get? trip := by
  induction trips generalizing claims with
  | nil => rfl
  | cons first rest ih =>
    rw [List.foldl_cons, ih, Table.get?_insert]
    by_cases hrest : trip ∈ rest
    · rw [if_pos hrest, if_pos (List.mem_cons_of_mem _ hrest)]
    · rw [if_neg hrest]
      simp only [List.mem_cons, hrest, or_false]

/-- The index `x'` is `x` with `p` in the place of the pattern of its number; the trips of `p`
are claimed for it, and all others of that number are released. -/
structure Replaces (x : TransitIndex) (p : Pattern) (x' : TransitIndex) : Prop where
  agencies_eq : x'.agencies = x.agencies
  stops_eq : x'.stops = x.stops
  get?_patterns : ∀ id, x'.patterns.get? id = if id = p.id then some p else x.patterns.get? id
  get?_patternOf : ∀ trip, x'.patternOf.get? trip =
    if trip ∈ p.trips then some p.id else (x.patternOf.get? trip).filter (· != p.id)

/-- To register a revision that has all the trips of the one before replaces that one. -/
theorem WellFormed.replaces_register (hx : x.WellFormed)
    (hkeep : ∀ q, x.patterns.get? p.id = some q → ∀ trip ∈ q.trips, trip ∈ p.trips) :
    x.Replaces p (x.register p) := by
  refine ⟨rfl, rfl, fun id => Table.get?_insert .., fun trip => ?_⟩
  unfold register
  rw [get?_foldl_insert]
  split
  · rfl
  · rename_i hnot
    cases hid : x.patternOf.get? trip with
    | none => rfl
    | some id =>
      obtain ⟨q, hq, hmem⟩ := hx.claimed trip id hid
      have hne : id ≠ p.id := fun heq => hnot (hkeep q (heq ▸ hq) trip hmem)
      rw [Option.filter_some, if_pos (bne_iff_ne.mpr hne)]

/-- To take a pattern out and register a revision of it replaces it. -/
theorem replaces_removePattern_register (x : TransitIndex) (p : Pattern) :
    x.Replaces p ((x.removePattern p.id).register p) := by
  refine ⟨rfl, rfl, fun id => ?_, fun trip => ?_⟩
  · unfold register removePattern
    simp only [Table.get?_insert, Table.get?_erase]
    split <;> rfl
  · unfold register removePattern
    rw [get?_foldl_insert, Table.get?_filter]

/-- A pattern that takes no trip away from another synthesized one leaves the index well-formed. -/
theorem Replaces.wellFormed (hx : x.WellFormed) (h : x.Replaces p x') (hp : p.WellFormed)
    (hfree : ∀ id q trip, x.patterns.get? id = some q → q.isSynthesized = true →
      trip ∈ q.trips → trip ∈ p.trips → id = p.id) :
    x'.WellFormed where
  id_eq id q hq := by
    rw [h.get?_patterns] at hq
    split at hq
    · rename_i heq
      cases hq
      exact heq.symm
    · exact hx.id_eq id q hq
  pattern id q hq := by
    rw [h.get?_patterns] at hq
    split at hq
    · cases hq
      exact hp
    · exact hx.pattern id q hq
  claimed trip id hid := by
    rw [h.get?_patternOf] at hid
    rw [h.get?_patterns]
    split at hid
    · rename_i hmem
      cases hid
      exact ⟨p, if_pos rfl, hmem⟩
    · obtain ⟨hold, hne⟩ := Option.filter_eq_some_iff.mp hid
      rw [if_neg (bne_iff_ne.mp hne)]
      exact hx.claimed trip id hold
  owns id q trip hq hsynth hmem := by
    rw [h.get?_patterns] at hq
    rw [h.get?_patternOf]
    split at hq
    · rename_i heq
      cases hq
      rw [if_pos hmem, heq]
    · rename_i hne
      have hnot : trip ∉ p.trips := fun hp => hne (hfree id q trip hq hsynth hmem hp)
      rw [if_neg hnot, hx.owns id q trip hq hsynth hmem, Option.filter_some,
        if_pos (bne_iff_ne.mpr hne)]

/-! ## Taking out -/

theorem get?_patterns_removePattern (x : TransitIndex) (id q : PatternId) :
    (x.removePattern id).patterns.get? q = if q = id then none else x.patterns.get? q :=
  Table.get?_erase ..

theorem get?_patternOf_removePattern (x : TransitIndex) (id : PatternId) (trip : TripId) :
    (x.removePattern id).patternOf.get? trip = (x.patternOf.get? trip).filter (· != id) :=
  Table.get?_filter ..

/-- Without a pattern, and with its trips released, an index stays well-formed. -/
theorem WellFormed.removePattern (hx : x.WellFormed) (id : PatternId) :
    (x.removePattern id).WellFormed where
  id_eq q r hq := by
    rw [get?_patterns_removePattern] at hq
    split at hq
    · cases hq
    · exact hx.id_eq q r hq
  pattern q r hq := by
    rw [get?_patterns_removePattern] at hq
    split at hq
    · cases hq
    · exact hx.pattern q r hq
  claimed trip q hq := by
    rw [get?_patternOf_removePattern] at hq
    obtain ⟨hold, hne⟩ := Option.filter_eq_some_iff.mp hq
    rw [get?_patterns_removePattern, if_neg (bne_iff_ne.mp hne)]
    exact hx.claimed trip q hold
  owns q r trip hq hsynth hmem := by
    rw [get?_patterns_removePattern] at hq
    split at hq
    · cases hq
    · rename_i hne
      rw [get?_patternOf_removePattern, hx.owns q r trip hq hsynth hmem, Option.filter_some,
        if_pos (bne_iff_ne.mpr hne)]

end LiveTimetable.TransitIndex
