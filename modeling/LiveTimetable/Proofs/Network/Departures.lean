import LiveTimetable.Proofs.Network.Answers
import LiveTimetable.Proofs.Network.Registry
import LiveTimetable.Proofs.Timetable.Exchanges

/-!
# Trips that leave a synthesized pattern

A trip that leaves its synthesized pattern leaves the others behind, or nothing. What it leaves
takes the place of the pattern in the graph and in the index. As these keep patterns under keys,
trips that leave can be exchanged: trips of two patterns change different keys, and of two trips
of one pattern the second one settles what stays.

* `Table.place`: a table with a value under a key, or with none.
* `Synthesized.remaining`: what a trip leaves behind, and `Synthesized.exists_remaining`, that there
  is an answer.
* `Synthesized.remaining_comm`: two trips of one pattern, in either order.
* `Graph.depart`, `TransitIndex.depart`: a trip leaves, told by keys.
-/

namespace LiveTimetable

namespace Table

variable {K V : Type} [Ord K] [Std.TransOrd K] [Std.LawfulEqOrd K] {k k' : K} {v w : Option V}
  {t : Table K V}

/-- The table with a value under a key, or with none. -/
def place (t : Table K V) (k : K) : Option V → Table K V
  | some v => t.insert k v
  | none => t.erase k

theorem get?_place [DecidableEq K] (t : Table K V) (k : K) (v : Option V) (q : K) :
    (t.place k v).get? q = if q = k then v else t.get? q := by
  cases v with
  | none => exact get?_erase ..
  | some v => exact get?_insert ..

/-- The second value counts. -/
theorem place_place [DecidableEq K] : (t.place k v).place k w = t.place k w := by
  refine ext_get? fun q => ?_
  rw [get?_place, get?_place, get?_place]
  split <;> rfl

theorem place_comm [DecidableEq K] (hne : k ≠ k') :
    (t.place k v).place k' w = (t.place k' w).place k v := by
  refine ext_get? fun q => ?_
  rw [get?_place, get?_place, get?_place, get?_place]
  by_cases hq : q = k
  · rw [if_pos hq, if_pos hq, if_neg fun h => hne (hq.symm.trans h)]
  · rw [if_neg hq, if_neg hq]

theorem erase_comm [DecidableEq K] : (t.erase k).erase k' = (t.erase k').erase k := by
  refine ext_get? fun q => ?_
  rw [get?_erase, get?_erase, get?_erase, get?_erase]
  split <;> split <;> rfl

theorem foldl_erase_comm [DecidableEq K] (ks ks' : List K) :
    ks'.foldl erase (ks.foldl erase t) = ks.foldl erase (ks'.foldl erase t) := by
  refine ext_get? fun q => ?_
  rw [get?_foldl_erase, get?_foldl_erase, get?_foldl_erase, get?_foldl_erase]
  split <;> split <;> rfl

end Table

/-! ## Patterns -/

namespace Pattern

variable {p p' : Pattern} {trip : TripId}

theorem withoutTrip_eq_ok_iff : p.withoutTrip trip = .ok p' ↔ ∃ t,
    (p.timetable.remove trip).finish = .ok t ∧
      p' = { p with timetable := t, revision := p.revision + 1 } := by
  unfold withoutTrip
  rw [Checked.bind_eq_ok_iff]
  constructor
  · rintro ⟨t, ht, h⟩
    exact ⟨t, ht, (Except.ok.inj h).symm⟩
  · rintro ⟨t, ht, rfl⟩
    exact ⟨t, ht, rfl⟩

theorem loses_of_withoutTrip (hp : p.WellFormed) (hmem : trip ∈ p.trips)
    (h : p.withoutTrip trip = .ok p') : p'.timetable.Loses p.timetable trip := by
  obtain ⟨t, ht, rfl⟩ := withoutTrip_eq_ok_iff.mp h
  rw [Timetable.remove_eq_strike hp.nodup hmem] at ht
  exact Timetable.eq_of_finish ht

theorem trips_of_withoutTrip (hp : p.WellFormed) (h : p.withoutTrip trip = .ok p') :
    p'.trips = p.trips.filter (· != trip) := by
  rw [trips_withoutTrip (withoutTrip_spec h).2, hp.nodup.erase_eq_filter]

/-- A trip can be taken out of a pattern, all of whose trips run as published. -/
theorem WellFormed.exists_withoutTrip (hp : p.WellFormed) (hmem : trip ∈ p.trips) :
    ∃ p', p.withoutTrip trip = .ok p' := by
  obtain ⟨t, ht⟩ := Timetable.exists_finish_of_asPublished (t := p.timetable.strike trip) rfl
    fun r hr => by
      have hold := List.mem_of_mem_filter hr
      exact ⟨hp.asPublished r hold, hp.stopCount_eq r hold⟩
  rw [← Timetable.remove_eq_strike hp.nodup hmem] at ht
  exact ⟨_, withoutTrip_eq_ok_iff.mpr ⟨t, ht, rfl⟩⟩

/-- Two trips can be taken out in either order. -/
theorem withoutTrip_comm {q : Pattern} {other : TripId} (hp : p.WellFormed) (hmem : trip ∈ p.trips)
    (hmem' : other ∈ p.trips) (hne : trip ≠ other) (h : p.withoutTrip trip = .ok p')
    (h' : p.withoutTrip other = .ok q) : p'.withoutTrip other = q.withoutTrip trip := by
  have hstrike : ∀ {q r : Pattern} {trip other : TripId}, trip ∈ p.trips → other ∈ p.trips →
      trip ≠ other → p.withoutTrip trip = .ok q →
        q.timetable.remove other = (p.timetable.strike trip).strike other := by
    intro q r trip other hmem hmem' hne h
    have hwf := hp.withoutTrip (withoutTrip_spec h).1 (withoutTrip_spec h).2
    have hleft : other ∈ q.trips := by
      rw [trips_of_withoutTrip hp h]
      exact List.mem_filter.mpr ⟨hmem', bne_iff_ne.mpr hne.symm⟩
    rw [Timetable.remove_eq_strike hwf.nodup hleft, (loses_of_withoutTrip hp hmem h).strike_eq]
  have hremove : p'.timetable.remove other = q.timetable.remove trip := by
    rw [hstrike hmem hmem' hne h (r := p), hstrike hmem' hmem hne.symm h' (r := p),
      Timetable.strike_comm]
  obtain ⟨t, -, rfl⟩ := withoutTrip_eq_ok_iff.mp h
  obtain ⟨t', -, rfl⟩ := withoutTrip_eq_ok_iff.mp h'
  unfold withoutTrip
  rw [hremove]

end Pattern

namespace Synthesized

/-- What stays of a synthesized pattern when a trip leaves it. -/
def remaining (y : Synthesized) (trip : TripId) : Checked (Option Synthesized) :=
  if y.pattern.trips.length ≤ 1 then .ok none
  else do return some { y with pattern := ← y.pattern.withoutTrip trip }

variable {y y' z : Synthesized} {rest : Option Synthesized} {trip other : TripId}

theorem remaining_eq_none_iff : y.remaining trip = .ok none ↔ y.pattern.trips.length ≤ 1 := by
  unfold remaining
  split
  · rename_i hle
    exact iff_of_true rfl hle
  · rename_i hlt
    refine iff_of_false (fun h => ?_) hlt
    obtain ⟨p, -, h⟩ := Checked.bind_eq_ok_iff.mp h
    cases h

theorem remaining_eq_some_iff : y.remaining trip = .ok (some y') ↔
    1 < y.pattern.trips.length ∧ ∃ p, y.pattern.withoutTrip trip = .ok p ∧
      y' = ⟨p, y.edges, y.vertices⟩ := by
  unfold remaining
  split
  · rename_i hle
    exact iff_of_false nofun fun h => Nat.not_lt.mpr hle h.1
  · rename_i hlt
    rw [Checked.bind_eq_ok_iff]
    constructor
    · rintro ⟨p, hp, h⟩
      exact ⟨Nat.lt_of_not_le hlt, p, hp, (Option.some.inj (Except.ok.inj h)).symm⟩
    · rintro ⟨-, p, hp, rfl⟩
      exact ⟨p, hp, rfl⟩

/-- **A trip can leave its pattern.** -/
theorem exists_remaining (hy : y.Sound) (hmem : trip ∈ y.pattern.trips) :
    ∃ rest, y.remaining trip = .ok rest := by
  rcases Nat.lt_or_ge 1 y.pattern.trips.length with hlt | hle
  · obtain ⟨p, hp⟩ := hy.wellFormed.exists_withoutTrip hmem
    exact ⟨_, remaining_eq_some_iff.mpr ⟨hlt, p, hp, rfl⟩⟩
  · exact ⟨none, remaining_eq_none_iff.mpr hle⟩

/-- A trip does not take its pattern along if another one stays. -/
theorem exists_remaining_of_ne (hy : y.Sound) (hmem : trip ∈ y.pattern.trips)
    (hmem' : other ∈ y.pattern.trips) (hne : trip ≠ other) :
    ∃ y', y.remaining trip = .ok (some y') := by
  obtain ⟨p, hp⟩ := hy.wellFormed.exists_withoutTrip hmem
  refine ⟨_, remaining_eq_some_iff.mpr ⟨Nat.lt_of_not_le fun hle => hne ?_, p, hp, rfl⟩⟩
  obtain ⟨first, hfirst⟩ :=
    List.length_eq_one_iff.mp (Nat.le_antisymm hle (List.length_pos_of_mem hmem))
  rw [hfirst] at hmem hmem'
  exact (List.mem_singleton.mp hmem).trans (List.mem_singleton.mp hmem').symm

/-- What stays is a revision of the pattern, with its part of the graph and its other trips. -/
structure Remains (y : Synthesized) (trip : TripId) (y' : Synthesized) : Prop where
  sound : y'.Sound
  revises : y'.pattern.Revises y.pattern
  edges_eq : y'.edges = y.edges
  vertices_eq : y'.vertices = y.vertices
  revision_eq : y'.pattern.revision = y.pattern.revision + 1
  loses : y'.pattern.timetable.Loses y.pattern.timetable trip
  trips_eq : y'.pattern.trips = y.pattern.trips.filter (· != trip)

theorem Remains.course_eq (h : y.Remains trip y') : y'.course = y.course := by
  unfold course
  rw [h.revises.routeId_eq, h.revises.stops_eq]

theorem Remains.mem_trips_iff (h : y.Remains trip y') :
    other ∈ y'.pattern.trips ↔ other ≠ trip ∧ other ∈ y.pattern.trips := by
  rw [h.trips_eq, List.mem_filter, bne_iff_ne, and_comm]

theorem remains_of_remaining (hy : y.Sound) (hmem : trip ∈ y.pattern.trips)
    (h : y.remaining trip = .ok (some y')) : y.Remains trip y' := by
  obtain ⟨hlt, p, hp, rfl⟩ := remaining_eq_some_iff.mp h
  have hloses := Pattern.loses_of_withoutTrip hy.wellFormed hmem hp
  have htrips := Pattern.trips_of_withoutTrip hy.wellFormed hp
  obtain ⟨hrev, hrows⟩ := Pattern.withoutTrip_spec hp
  have hlen := List.length_erase_of_mem hmem
  have hsound := hy.withoutTrip hrev hrows fun hnil => by
    rw [hnil, List.length_nil] at hlen
    omega
  obtain ⟨t, -, rfl⟩ := Pattern.withoutTrip_eq_ok_iff.mp hp
  exact ⟨hsound, hrev, rfl, rfl, rfl, hloses, htrips⟩

/-- **Two trips that leave one pattern**, in either order. -/
theorem remaining_comm (hy : y.Sound) (hmem : trip ∈ y.pattern.trips)
    (hmem' : other ∈ y.pattern.trips) (hne : trip ≠ other) (h : y.remaining trip = .ok (some y'))
    (h' : y.remaining other = .ok (some z)) : y'.remaining other = z.remaining trip := by
  obtain ⟨-, p, hp, rfl⟩ := remaining_eq_some_iff.mp h
  obtain ⟨-, q, hq, rfl⟩ := remaining_eq_some_iff.mp h'
  have hlength : p.trips.length = q.trips.length := by
    rw [Pattern.trips_withoutTrip (Pattern.withoutTrip_spec hp).2,
      Pattern.trips_withoutTrip (Pattern.withoutTrip_spec hq).2, List.length_erase_of_mem hmem,
      List.length_erase_of_mem hmem']
  unfold remaining
  simp only [hlength, Pattern.withoutTrip_comm hy.wellFormed hmem hmem' hne hp hq]

end Synthesized

/-! ## The graph and the index -/

namespace Graph

/-- The graph after a trip left a kept pattern, with what stays of it. -/
def depart (g : Graph) (y : Synthesized) (rest : Option Synthesized) : Graph :=
  { g with
    synthesized := g.synthesized.place y.course rest
    edges := if rest.isSome then g.edges else y.edges.foldl Table.erase g.edges
    vertices := if rest.isSome then g.vertices else y.vertices.foldl Table.erase g.vertices }

variable {g : Graph} {y y' z : Synthesized} {rest rest' : Option Synthesized} {trip : TripId}

theorem WellFormed.depart_none (hg : g.WellFormed) (hy : g.Keeps y) :
    g.depart y none = g.without y := by
  have hsynthesized : g.synthesized.place y.course none = (g.without y).synthesized :=
    Table.ext_get? fun c => by rw [Table.get?_place, hg.get?_without hy]
  unfold depart
  rw [hsynthesized]
  rfl

/-- The second of two trips that leave a pattern settles what stays. -/
theorem depart_depart (hcourse : y'.course = y.course) (hedges : y'.edges = y.edges)
    (hvertices : y'.vertices = y.vertices) :
    (g.depart y (some y')).depart y' rest = g.depart y rest := by
  unfold depart
  simp only [hcourse, hedges, hvertices, Table.place_place, Option.isSome_some, if_true]

/-- Trips leave different patterns in either order. -/
theorem depart_comm (hne : y.course ≠ z.course) :
    (g.depart y rest).depart z rest' = (g.depart z rest').depart y rest := by
  unfold depart
  simp only [Table.place_comm hne]
  cases rest <;> cases rest' <;> simp [Table.foldl_erase_comm y.edges,
    Table.foldl_erase_comm y.vertices]

end Graph

namespace TransitIndex

/-- The index after a trip left a pattern, with what stays of it. -/
def depart (x : TransitIndex) (trip : TripId) (pattern : PatternId) (rest : Option Pattern) :
    TransitIndex :=
  { x with
    patterns := x.patterns.place pattern rest
    patternOf := x.patternOf.erase trip }

variable {x : TransitIndex} {p p' : Pattern} {trip : TripId}

/-- To release what a synthesized pattern claims is to release its trips. -/
theorem WellFormed.filter_claim (hx : x.WellFormed) (hp : x.patterns.get? p.id = some p)
    (hsynth : p.isSynthesized = true) (trip : TripId) :
    (x.patternOf.get? trip).filter (· != p.id) =
      if trip ∈ p.trips then none else x.patternOf.get? trip := by
  split
  · rename_i hmem
    rw [hx.owns p.id p trip hp hsynth hmem, Option.filter_some, bne_self_eq_false,
      if_neg Bool.false_ne_true]
  · rename_i hnot
    cases hclaim : x.patternOf.get? trip with
    | none => rfl
    | some id =>
      have hne : id ≠ p.id := by
        rintro rfl
        obtain ⟨q, hq, hmem⟩ := hx.claimed trip p.id hclaim
        rw [hp] at hq
        cases hq
        exact hnot hmem
      rw [Option.filter_some, if_pos (bne_iff_ne.mpr hne)]

/-- To register what stays is to release the trip that left. -/
theorem WellFormed.depart_some (hx : x.WellFormed) (hp : x.patterns.get? p.id = some p)
    (hsynth : p.isSynthesized = true) (hmem : trip ∈ p.trips) (hid : p'.id = p.id)
    (htrips : p'.trips = p.trips.filter (· != trip)) :
    (x.removePattern p.id).register p' = x.depart trip p.id (some p') := by
  have hreplaces := x.replaces_removePattern_register p'
  rw [hid] at hreplaces
  have hpatterns : ((x.removePattern p.id).register p').patterns =
      x.patterns.place p.id (some p') := by
    refine Table.ext_get? fun id => ?_
    rw [hreplaces.get?_patterns, Table.get?_place, hid]
  have hpatternOf : ((x.removePattern p.id).register p').patternOf = x.patternOf.erase trip := by
    refine Table.ext_get? fun t => ?_
    rw [hreplaces.get?_patternOf, Table.get?_erase, htrips, hid, hx.filter_claim hp hsynth]
    by_cases ht : t = trip
    · simp [ht, hmem]
    · by_cases hown : t ∈ p.trips
      · simp [ht, hown, hx.owns p.id p t hp hsynth hown]
      · simp [ht, hown]
  unfold depart
  rw [← hpatterns, ← hpatternOf]
  rfl

/-- To take out a pattern of one trip is to release the trip. -/
theorem WellFormed.depart_none (hx : x.WellFormed) (hp : x.patterns.get? p.id = some p)
    (hsynth : p.isSynthesized = true) (htrips : p.trips = [trip]) :
    x.removePattern p.id = x.depart trip p.id none := by
  have hpatternOf : (x.removePattern p.id).patternOf = x.patternOf.erase trip := by
    refine Table.ext_get? fun t => ?_
    rw [get?_patternOf_removePattern, Table.get?_erase, hx.filter_claim hp hsynth, htrips]
    simp only [List.mem_singleton]
  unfold depart
  rw [← hpatternOf]
  rfl

/-- The second of two trips that leave a pattern settles what stays. -/
theorem depart_depart {other : TripId} {pattern : PatternId} {mid mid' rest : Option Pattern} :
    (x.depart trip pattern mid).depart other pattern rest =
      (x.depart other pattern mid').depart trip pattern rest := by
  unfold depart
  simp only [Table.place_place, Table.erase_comm (k := trip)]

/-- Trips leave different patterns in either order. -/
theorem depart_comm {other : TripId} {pattern pattern' : PatternId} {rest rest' : Option Pattern}
    (hne : pattern ≠ pattern') : (x.depart trip pattern rest).depart other pattern' rest' =
      (x.depart other pattern' rest').depart trip pattern rest := by
  unfold depart
  simp only [Table.place_comm hne, Table.erase_comm (k := trip)]

end TransitIndex

end LiveTimetable
