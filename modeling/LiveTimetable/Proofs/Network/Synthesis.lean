import LiveTimetable.Proofs.Network.Linking
import LiveTimetable.Proofs.Network.Revisions

/-!
# Synthesized patterns in the graph

The graph keeps each synthesized pattern under its route and stops. In a well-formed graph each
kept pattern has its part of the graph to itself, and its number to itself as well.

* `Graph.WellFormed`: what holds of the kept patterns.
* `Graph.Puts`: one more pattern is kept, or another revision of one that was kept before.
* `Graph.addTrip_spec`, `Graph.removeTrip_spec`, `Graph.WellFormed.detach_eq`: the three changes to
  kept patterns. In a well-formed graph none of them is refused, and the graph stays well-formed.
* `Graph.detach_spec`: a pattern is taken out if all its edges and vertices are there.
-/

namespace LiveTimetable

/-- The course under which a graph keeps a synthesized pattern. -/
def Synthesized.course (s : Synthesized) : Course := ⟨s.pattern.routeId, s.pattern.stops⟩

/-- A pattern for trips that a feed added: at least one, all on the route of the pattern. -/
structure Synthesized.Sound (s : Synthesized) : Prop where
  wellFormed : s.pattern.WellFormed
  isSynthesized : s.pattern.isSynthesized = true
  isTraversable : s.pattern.isTraversable = true
  routeId_eq : ∀ r ∈ s.pattern.timetable.rows, r.published.trip.routeId = s.pattern.routeId
  trips_ne_nil : s.pattern.trips ≠ []

/-- A revision keeps the course. -/
theorem Pattern.Revises.course_eq {s : Synthesized} {p : Pattern} (h : p.Revises s.pattern) :
    (⟨p, s.edges, s.vertices⟩ : Synthesized).course = s.course := by
  unfold Synthesized.course
  rw [h.routeId_eq, h.stops_eq]

/-- The pattern of a single trip is sound. -/
theorem Synthesized.sound_of_publish {b : Baseline} {id : PatternId} {stops : List StopId}
    {p : Pattern} (h : (Pattern.publish id b.trip.routeId stops [b] true).run = .ok (.ok p))
    (edges : List Nat) (vertices : List Nat) : (⟨p, edges, vertices⟩ : Synthesized).Sound := by
  obtain ⟨-, hroute, -, htraversable, hsynthesized, hrows, hwf⟩ := Pattern.publish_spec h
  have hrow : p.timetable.rows = [Row.ofBaseline b] := hrows
  refine ⟨hwf, hsynthesized, htraversable, fun r hr => ?_, ?_⟩
  · simp only [hrow, List.mem_singleton] at hr
    rw [hr]
    exact hroute.symm
  · simp only [Pattern.trips, Timetable.trips, hrow]
    exact List.cons_ne_nil _ _

/-- Without one of its trips the pattern is sound, if another trip stays. -/
theorem Synthesized.Sound.withoutTrip {s : Synthesized} (hs : s.Sound) {p : Pattern}
    {trip : TripId} (hrev : p.Revises s.pattern)
    (hrows : p.timetable.rows = s.pattern.timetable.rows.eraseP fun r => r.tripId == trip)
    (hleft : s.pattern.trips.erase trip ≠ []) :
    (⟨p, s.edges, s.vertices⟩ : Synthesized).Sound := by
  refine ⟨hs.wellFormed.withoutTrip hrev hrows, hrev.isSynthesized_eq.trans hs.isSynthesized,
    hrev.isTraversable_eq.trans hs.isTraversable, fun r hr => ?_, ?_⟩
  · simp only [hrows] at hr
    exact (hs.routeId_eq r (List.mem_of_mem_eraseP hr)).trans hrev.routeId_eq.symm
  · simp only [Pattern.trips_withoutTrip hrows]
    exact hleft

namespace Graph

/-! ## Kept patterns -/

/-- The graph keeps a synthesized pattern. -/
def Keeps (g : Graph) (s : Synthesized) : Prop := g.synthesized.get? s.course = some s

/-- Every kept pattern is under its own course, has a number that no later one gets, and shares
number, edges and vertices with no other. -/
structure WellFormed (g : Graph) : Prop where
  course_eq : ∀ c s, g.synthesized.get? c = some s → s.course = c
  sound : ∀ s, g.Keeps s → s.Sound
  anchors : ∀ s, g.Keeps s → g.Anchors s.edges s.vertices
  number_lt : ∀ s, g.Keeps s → s.pattern.id.number < g.nextPattern
  id_inj : ∀ s s', g.Keeps s → g.Keeps s' → s.pattern.id = s'.pattern.id → s = s'
  edges_disjoint : ∀ s s' e, g.Keeps s → g.Keeps s' → e ∈ s.edges → e ∈ s'.edges → s = s'
  vertices_disjoint : ∀ s s' v, g.Keeps s → g.Keeps s' → v ∈ s.vertices → v ∈ s'.vertices → s = s'

/-- The graph `g'` is `g`, grown, with `s` in the place of what was kept under its course. -/
structure Puts (g : Graph) (s : Synthesized) (g' : Graph) : Prop where
  synthesized_eq : g'.synthesized = g.synthesized.insert s.course s
  services_eq : g'.services = g.services
  grows : g.Grows g'
  nextPattern_le : g.nextPattern ≤ g'.nextPattern
  number_lt : s.pattern.id.number < g'.nextPattern
  anchors : g'.Anchors s.edges s.vertices
  apart : ∀ s', g.Keeps s' → s'.course ≠ s.course → s'.pattern.id ≠ s.pattern.id ∧
    (∀ e ∈ s.edges, e ∉ s'.edges) ∧ ∀ v ∈ s.vertices, v ∉ s'.vertices

variable {g g' : Graph} {s s' : Synthesized}

theorem wellFormed_of_empty (h : g.synthesized = Table.empty) : g.WellFormed := by
  have hnone : ∀ s, ¬ g.Keeps s := by
    intro s hs
    rw [Keeps, h] at hs
    cases hs
  refine ⟨fun c s hs => ?_, fun s hs => absurd hs (hnone s), fun s hs => absurd hs (hnone s),
    fun s hs => absurd hs (hnone s), fun s _ hs => absurd hs (hnone s),
    fun s _ _ hs => absurd hs (hnone s), fun s _ _ hs => absurd hs (hnone s)⟩
  rw [h] at hs
  cases hs

theorem WellFormed.keeps_of_get? (hg : g.WellFormed) {c : Course}
    (h : g.synthesized.get? c = some s) : g.Keeps s := by
  rw [Keeps, hg.course_eq c s h]
  exact h

theorem Puts.keeps_iff (h : g.Puts s g') :
    g'.Keeps s' ↔ s' = s ∨ s'.course ≠ s.course ∧ g.Keeps s' := by
  unfold Keeps
  rw [h.synthesized_eq, Table.get?_insert]
  by_cases hc : s'.course = s.course
  · rw [if_pos hc]
    constructor
    · intro heq
      exact Or.inl (Option.some.inj heq).symm
    · rintro (rfl | ⟨hne, -⟩)
      · rfl
      · exact absurd hc hne
  · rw [if_neg hc]
    constructor
    · intro hold
      exact Or.inr ⟨hc, hold⟩
    · rintro (rfl | ⟨-, hold⟩)
      · exact absurd rfl hc
      · exact hold

/-- Keeping one more sound pattern, apart from all others, leaves the graph well-formed. -/
theorem Puts.wellFormed (hg : g.WellFormed) (h : g.Puts s g') (hs : s.Sound) : g'.WellFormed where
  course_eq c x hx := by
    rw [h.synthesized_eq, Table.get?_insert] at hx
    split at hx
    · rename_i hc
      cases hx
      exact hc.symm
    · exact hg.course_eq c x hx
  sound x hx := by
    rcases h.keeps_iff.mp hx with rfl | ⟨-, hold⟩
    · exact hs
    · exact hg.sound x hold
  anchors x hx := by
    rcases h.keeps_iff.mp hx with rfl | ⟨-, hold⟩
    · exact h.anchors
    · exact (hg.anchors x hold).grow h.grows
  number_lt x hx := by
    rcases h.keeps_iff.mp hx with rfl | ⟨-, hold⟩
    · exact h.number_lt
    · exact Nat.lt_of_lt_of_le (hg.number_lt x hold) h.nextPattern_le
  id_inj x y hx hy hid := by
    rcases h.keeps_iff.mp hx with rfl | ⟨hcx, holdx⟩ <;>
      rcases h.keeps_iff.mp hy with rfl | ⟨hcy, holdy⟩
    · rfl
    · exact absurd hid.symm (h.apart y holdy hcy).1
    · exact absurd hid (h.apart x holdx hcx).1
    · exact hg.id_inj x y holdx holdy hid
  edges_disjoint x y e hx hy hex hey := by
    rcases h.keeps_iff.mp hx with rfl | ⟨hcx, holdx⟩ <;>
      rcases h.keeps_iff.mp hy with rfl | ⟨hcy, holdy⟩
    · rfl
    · exact absurd hey ((h.apart y holdy hcy).2.1 e hex)
    · exact absurd hex ((h.apart x holdx hcx).2.1 e hey)
    · exact hg.edges_disjoint x y e holdx holdy hex hey
  vertices_disjoint x y v hx hy hvx hvy := by
    rcases h.keeps_iff.mp hx with rfl | ⟨hcx, holdx⟩ <;>
      rcases h.keeps_iff.mp hy with rfl | ⟨hcy, holdy⟩
    · rfl
    · exact absurd hvy ((h.apart y holdy hcy).2.2 v hvx)
    · exact absurd hvx ((h.apart x holdx hcx).2.2 v hvy)
    · exact hg.vertices_disjoint x y v holdx holdy hvx hvy

/-- A new revision of a kept pattern takes its place. -/
theorem WellFormed.puts_revision (hg : g.WellFormed) (hs : g.Keeps s) {p : Pattern}
    (hrev : p.Revises s.pattern)
    (hsyn : g'.synthesized = g.synthesized.insert s.course ⟨p, s.edges, s.vertices⟩)
    (heq : g' = { g with synthesized := g'.synthesized, nextSerial := g'.nextSerial }) :
    g.Puts ⟨p, s.edges, s.vertices⟩ g' := by
  have hcourse := hrev.course_eq
  have hgrows : g.Grows g' := by
    rw [heq]
    exact ⟨fun _ h => h, fun _ h => h, Nat.le_refl _, Nat.le_refl _⟩
  have hnext : g'.nextPattern = g.nextPattern := by
    rw [heq]
  refine ⟨hcourse.symm ▸ hsyn, ?_, hgrows, Nat.le_of_eq hnext.symm, ?_,
    (hg.anchors s hs).grow hgrows, fun x hx hne => ?_⟩
  · rw [heq]
  · rw [hnext, hrev.id_eq]
    exact hg.number_lt s hs
  · have hxs : x ≠ s := by
      rintro rfl
      exact hne hcourse.symm
    refine ⟨fun hid => hxs (hg.id_inj x s hx hs (hid.trans hrev.id_eq)),
      fun e he hex => hxs (hg.edges_disjoint x s e hx hs hex he),
      fun v hv hvx => hxs (hg.vertices_disjoint x s v hx hs hvx hv)⟩

/-! ## Adding a trip -/

/-- The rows of the pattern that is kept under a course. -/
def rowsUnder (g : Graph) (c : Course) : List Row :=
  ((g.synthesized.get? c).map fun s => s.pattern.timetable.rows).getD []

/-- The number of the pattern that is kept under a course, or that a new one would get. -/
def numberUnder (g : Graph) (c : Course) : PatternId :=
  ((g.synthesized.get? c).map fun s => s.pattern.id).getD ⟨g.nextPattern⟩

/-- A course has a kept pattern, or none that would have a number yet. -/
theorem WellFormed.under_cases (hg : g.WellFormed) (c : Course) :
    (∃ s, g.Keeps s ∧ s.course = c ∧ g.numberUnder c = s.pattern.id ∧
        g.rowsUnder c = s.pattern.timetable.rows) ∨
      g.synthesized.get? c = none ∧ g.numberUnder c = ⟨g.nextPattern⟩ ∧ g.rowsUnder c = [] := by
  unfold numberUnder rowsUnder
  cases hget : g.synthesized.get? c with
  | none => exact Or.inr ⟨rfl, rfl, rfl⟩
  | some s => exact Or.inl ⟨s, hg.keeps_of_get? hget, hg.course_eq c s hget, rfl, rfl⟩

/-- A revision has the number under its course. -/
theorem id_eq_numberUnder (hs : g.Keeps s) {p : Pattern} (hrev : p.Revises s.pattern) :
    p.id = g.numberUnder (⟨p, s.edges, s.vertices⟩ : Synthesized).course := by
  have hget : g.synthesized.get? s.course = some s := hs
  rw [numberUnder, hrev.course_eq, hget]
  exact hrev.id_eq

/-- The services have no part in the patterns. -/
theorem WellFormed.setServices (hg : g.WellFormed) (services : Services) :
    { g with services }.WellFormed where
  course_eq := hg.course_eq
  sound := hg.sound
  anchors s hs :=
    have h := hg.anchors s hs
    ⟨h.edges_mem, h.vertices_mem, h.edges_lt, h.vertices_lt⟩
  number_lt := hg.number_lt
  id_inj := hg.id_inj
  edges_disjoint := hg.edges_disjoint
  vertices_disjoint := hg.vertices_disjoint

/-- The graph `g'` is `g` with a new trip, last in the pattern `made` of its course. -/
structure Enters (g : Graph) (b : Baseline) (made : Synthesized) (g' : Graph) : Prop where
  puts : g.Puts made g'
  sound : made.Sound
  routeId_eq : made.pattern.routeId = b.trip.routeId
  id_eq : made.pattern.id = g.numberUnder made.course
  rows_eq : made.pattern.timetable.rows = g.rowsUnder made.course ++ [Row.ofBaseline b]

theorem Enters.mem_rows {b : Baseline} {made : Synthesized} (h : g.Enters b made g') :
    Row.ofBaseline b ∈ made.pattern.timetable.rows := by
  rw [h.rows_eq]
  exact List.mem_append_right _ (List.mem_singleton_self _)

theorem Enters.trips_eq {b : Baseline} {made : Synthesized} (h : g.Enters b made g') :
    made.pattern.trips = (g.rowsUnder made.course).map Row.tripId ++ [b.trip.id] := by
  unfold Pattern.trips Timetable.trips
  rw [h.rows_eq]
  exact List.map_append

/-- A trip that joins a kept pattern. -/
theorem WellFormed.enters_joined (hg : g.WellFormed) (hs : g.Keeps s) {b : Baseline}
    (hroute : b.trip.routeId = s.pattern.routeId) (hcount : b.stopCount = s.pattern.stops.length)
    (hnew : b.trip.id ∉ s.pattern.trips) {p : Pattern} (hrev : p.Revises s.pattern)
    (hrows : p.timetable.rows = s.pattern.timetable.rows ++ [Row.ofBaseline b])
    (hsyn : g'.synthesized = g.synthesized.insert s.course ⟨p, s.edges, s.vertices⟩)
    (heq : g' = { g with synthesized := g'.synthesized, nextSerial := g'.nextSerial }) :
    g.Enters b ⟨p, s.edges, s.vertices⟩ g' := by
  have hsound := hg.sound s hs
  have hget : g.synthesized.get? s.course = some s := hs
  refine ⟨hg.puts_revision hs hrev hsyn heq, ⟨hsound.wellFormed.withTrip hrev hrows hcount hnew,
    hrev.isSynthesized_eq.trans hsound.isSynthesized,
    hrev.isTraversable_eq.trans hsound.isTraversable, fun r hr => ?_, ?_⟩,
    hrev.routeId_eq.trans hroute.symm, id_eq_numberUnder hs hrev, ?_⟩
  · rw [hrev.routeId_eq]
    simp only [hrows] at hr
    rcases List.mem_append.mp hr with hr | hr
    · exact hsound.routeId_eq r hr
    · rw [List.mem_singleton.mp hr]
      exact hroute
  · simp only [Pattern.trips_withTrip hrows]
    exact List.append_ne_nil_of_right_ne_nil _ (List.cons_ne_nil _ _)
  · rw [rowsUnder, hrev.course_eq, hget]
    exact hrows

/-- A trip that gets a new pattern. -/
theorem WellFormed.enters_fresh (hg : g.WellFormed) {b : Baseline} {stops : List StopId}
    (hget : g.synthesized.get? ⟨b.trip.routeId, stops⟩ = none) {p : Pattern}
    (hp : (Pattern.publish ⟨g.nextPattern⟩ b.trip.routeId stops [b] true).run = .ok (.ok p))
    {nextSerial : Nat} {mid : Graph}
    (hmid : mid = { g with nextSerial, nextPattern := g.nextPattern + 1 }) :
    g.Enters b ⟨p, (mid.link ⟨g.nextPattern⟩ stops).1, (mid.link ⟨g.nextPattern⟩ stops).2.1⟩
      { (mid.link ⟨g.nextPattern⟩ stops).2.2 with
        synthesized := (mid.link ⟨g.nextPattern⟩ stops).2.2.synthesized.insert
          ⟨b.trip.routeId, stops⟩
          ⟨p, (mid.link ⟨g.nextPattern⟩ stops).1, (mid.link ⟨g.nextPattern⟩ stops).2.1⟩ } := by
  obtain ⟨hid, hroute, hstops, -, -, hrows, -⟩ := Pattern.publish_spec hp
  obtain ⟨hgrows, hanchors, hedges, hvertices⟩ := link_spec mid ⟨g.nextPattern⟩ stops
  obtain ⟨vertices, edges, nextVertex, nextEdge, hlink⟩ := link_eq mid ⟨g.nextPattern⟩ stops
  have hcourse : ∀ es vs, (⟨p, es, vs⟩ : Synthesized).course = ⟨b.trip.routeId, stops⟩ := by
    intro es vs
    unfold Synthesized.course
    rw [hroute, hstops]
  refine ⟨⟨?_, ?_, ?_, ?_, ?_, ?_, fun x hx hne => ?_⟩, Synthesized.sound_of_publish hp _ _,
    hroute, ?_, ?_⟩
  · simp only [hcourse]
    rw [hlink, hmid]
  · rw [hlink, hmid]
  · have : g.Grows mid := by
      rw [hmid]
      exact ⟨fun _ h => h, fun _ h => h, Nat.le_refl _, Nat.le_refl _⟩
    have hall := this.trans hgrows
    exact ⟨hall.vertices, hall.edges, hall.nextVertex_le, hall.nextEdge_le⟩
  · rw [hlink, hmid]
    exact Nat.le_succ _
  · simp only [hid]
    rw [hlink, hmid]
    exact Nat.lt_succ_self _
  · exact ⟨hanchors.edges_mem, hanchors.vertices_mem, hanchors.edges_lt, hanchors.vertices_lt⟩
  · have hlt := hg.number_lt x hx
    have hanchor := hg.anchors x hx
    refine ⟨?_, fun e he hex => ?_, fun v hv hvx => ?_⟩
    · simp only [hid]
      intro heq
      rw [heq] at hlt
      exact Nat.lt_irrefl _ hlt
    · have hge := hedges e he
      rw [hmid] at hge
      exact absurd (hanchor.edges_lt e hex) (Nat.not_lt.mpr hge)
    · have hge := hvertices v hv
      rw [hmid] at hge
      exact absurd (hanchor.vertices_lt v hvx) (Nat.not_lt.mpr hge)
  · rw [numberUnder, hcourse, hget]
    exact hid
  · rw [rowsUnder, hcourse, hget]
    exact hrows

/-- What the graph publishes of a trip with the given stop times. -/
def publication (g : Graph) (trip : Trip) (stopTimes : List StopTime) : Baseline :=
  ⟨g.nextSerial, trip, stopTimes.map Call.ofStopTime⟩

theorem publish_eq {trip : Trip} {stopTimes : List StopTime} (hne : stopTimes ≠ []) :
    Baseline.publish g.nextSerial trip stopTimes = .ok (g.publication trip stopTimes) :=
  if_neg fun hempty => hne (List.isEmpty_iff.mp hempty)

theorem stopCount_publication (g : Graph) (trip : Trip) (stopTimes : List StopTime) :
    (g.publication trip stopTimes).stopCount = (stopTimes.map StopTime.stopId).length := by
  unfold Baseline.stopCount publication
  rw [List.length_map, List.length_map]

/-- **A trip with stop times is never refused by a well-formed graph**, if none of the kept
patterns has it already. -/
theorem addTrip_spec (hg : g.WellFormed) {trip : Trip} {stopTimes : List StopTime}
    (hne : stopTimes ≠ []) (hnew : ∀ s, g.Keeps s → trip.id ∉ s.pattern.trips) {g' : Graph}
    {answer : Except GraphError Synthesized} (h : g.addTrip trip stopTimes = .ok (g', answer)) :
    ∃ made, answer = .ok made ∧ g.Enters (g.publication trip stopTimes) made g' ∧
      made.pattern.stops = stopTimes.map StopTime.stopId := by
  have hcount := g.stopCount_publication trip stopTimes
  unfold addTrip at h
  rw [publish_eq hne] at h
  simp only [] at h
  split at h
  · rename_i s hget
    have hs := hg.keeps_of_get? hget
    have hcourse := hg.course_eq _ s hget
    have hstops : s.pattern.stops = stopTimes.map StopTime.stopId := congrArg Course.stops hcourse
    obtain ⟨r, hrun, hlast⟩ := Checked.bind_eq_ok_iff.mp h
    obtain ⟨p, rfl, hrev, hrows⟩ := Pattern.withTrip_spec (hcount.trans (congrArg _ hstops.symm))
      (hnew s hs) hrun
    cases hlast
    refine ⟨_, rfl, hg.enters_joined hs (congrArg Course.routeId hcourse).symm
      (hcount.trans (congrArg _ hstops.symm)) (hnew s hs) hrev hrows ?_ rfl,
      hrev.stops_eq.trans hstops⟩
    rw [hcourse]
  · rename_i hget
    obtain ⟨r, hrun, hlast⟩ := Checked.bind_eq_ok_iff.mp h
    obtain ⟨p, rfl⟩ := Pattern.publish_singleton_isOk hcount hrun
    obtain ⟨next, hnext, hlast⟩ := Checked.bind_eq_ok_iff.mp hlast
    obtain rfl : next = g.nextPattern + 1 := by
      unfold Checked.word32 at hnext
      split at hnext
      · exact (Except.ok.inj hnext).symm
      · cases hnext
    cases hlast
    exact ⟨_, rfl, hg.enters_fresh hget hrun rfl, (Pattern.publish_spec hrun).2.2.1⟩

/-! ## Taking a trip out -/

/-- A kept pattern is found by its number. -/
theorem WellFormed.findSynthesized?_eq (hg : g.WellFormed) (hs : g.Keeps s) :
    g.findSynthesized? s.pattern.id = some (s.course, s) := by
  unfold findSynthesized?
  cases hfind : g.synthesized.entries.find? fun e => e.2.pattern.id == s.pattern.id with
  | none =>
    have hmem : (s.course, s) ∈ g.synthesized.entries := Table.mem_entries_iff.mpr hs
    exact absurd (beq_self_eq_true _) (List.find?_eq_none.mp hfind _ hmem)
  | some e =>
    obtain ⟨c, x⟩ := e
    have hget := Table.mem_entries_iff.mp (List.mem_of_find?_eq_some hfind)
    have hid := List.find?_some hfind
    have hc := hg.course_eq c x hget
    obtain rfl := hg.id_inj x s (hg.keeps_of_get? hget) hs (beq_iff_eq.mp hid)
    rw [hc]

/-- **A trip leaves a kept pattern without being refused**, if another trip stays. -/
theorem removeTrip_spec (hg : g.WellFormed) (hs : g.Keeps s) {trip : TripId}
    (hleft : s.pattern.trips.erase trip ≠ []) {g' : Graph}
    {answer : Except GraphError Synthesized} (h : g.removeTrip s trip = .ok (g', answer)) :
    ∃ p, answer = .ok ⟨p, s.edges, s.vertices⟩ ∧ p.Revises s.pattern ∧
      g.Puts ⟨p, s.edges, s.vertices⟩ g' ∧ (⟨p, s.edges, s.vertices⟩ : Synthesized).Sound ∧
      p.timetable.rows = s.pattern.timetable.rows.eraseP fun r => r.tripId == trip := by
  have hsound := hg.sound s hs
  unfold removeTrip at h
  rw [hg.findSynthesized?_eq hs] at h
  obtain ⟨p, hp, hlast⟩ := Checked.bind_eq_ok_iff.mp h
  cases hlast
  obtain ⟨hrev, hrows⟩ := Pattern.withoutTrip_spec hp
  exact ⟨p, rfl, hrev, hg.puts_revision hs hrev rfl rfl,
    hsound.withoutTrip hrev hrows hleft, hrows⟩

/-! ## Taking a pattern out -/

/-- The graph without a synthesized pattern and its part of the graph. -/
def without (g : Graph) (s : Synthesized) : Graph :=
  { g with
    edges := s.edges.foldl Table.erase g.edges
    vertices := s.vertices.foldl Table.erase g.vertices
    synthesized := g.synthesized.filter fun _ kept => kept.pattern.id != s.pattern.id }

/-- All edges and vertices of a synthesized pattern are there. -/
def HasPart (g : Graph) (s : Synthesized) : Prop :=
  (∀ e ∈ s.edges, g.edges.contains e = true) ∧ ∀ v ∈ s.vertices, g.vertices.contains v = true

/-- **A pattern is taken out if all its edges and vertices are there.** If not, the graph stays as
it is. -/
theorem detach_spec (g : Graph) (s : Synthesized) :
    (g.HasPart s ∧ g.detach s = (g.without s, .ok ())) ∨
      (¬ g.HasPart s ∧ ∃ e, g.detach s = (g, .error e)) := by
  have hall : ∀ {V : Type} (t : Table Nat V) (ks : List Nat),
      (ks.find? fun k => !t.contains k) = none ↔ ∀ k ∈ ks, t.contains k = true := by
    intro V t ks
    simp [List.find?_eq_none]
  unfold detach HasPart
  rw [← hall g.edges s.edges, ← hall g.vertices s.vertices]
  cases s.edges.find? fun e => !g.edges.contains e with
  | some edge => exact Or.inr ⟨fun h => absurd h.1 (Option.some_ne_none _), _, rfl⟩
  | none =>
    cases s.vertices.find? fun v => !g.vertices.contains v with
    | some vertex => exact Or.inr ⟨fun h => absurd h.2 (Option.some_ne_none _), _, rfl⟩
    | none => exact Or.inl ⟨⟨rfl, rfl⟩, rfl⟩

/-- **A kept pattern is taken out without being refused.** -/
theorem WellFormed.detach_eq (hg : g.WellFormed) (hs : g.Keeps s) :
    g.detach s = (g.without s, .ok ()) := by
  have hanchor := hg.anchors s hs
  rcases g.detach_spec s with ⟨-, heq⟩ | ⟨hnot, -⟩
  · exact heq
  · exact absurd ⟨hanchor.edges_mem, hanchor.vertices_mem⟩ hnot

/-- The graph drops patterns by number; in a well-formed one that is to drop one by its course. -/
theorem WellFormed.get?_without (hg : g.WellFormed) (hs : g.Keeps s) (c : Course) :
    (g.without s).synthesized.get? c = if c = s.course then none else g.synthesized.get? c := by
  unfold without
  simp only [Table.get?_filter]
  cases hc : g.synthesized.get? c with
  | none => rw [Option.filter_none, ite_self]
  | some x =>
    by_cases hcs : c = s.course
    · have hxs : some x = some s := hc.symm.trans (hcs ▸ hs)
      cases hxs
      rw [if_pos hcs, Option.filter_some, bne_self_eq_false, if_neg Bool.false_ne_true]
    · have hid : x.pattern.id ≠ s.pattern.id := fun hid => by
        have hxs := hg.id_inj x s (hg.keeps_of_get? hc) hs hid
        exact hcs ((hg.course_eq c x hc).symm.trans (congrArg Synthesized.course hxs))
      rw [if_neg hcs, Option.filter_some, if_pos (bne_iff_ne.mpr hid)]

theorem WellFormed.keeps_without (hg : g.WellFormed) (hs : g.Keeps s) {x : Synthesized}
    (h : (g.without s).Keeps x) : x ≠ s ∧ g.Keeps x := by
  unfold Keeps at h
  rw [hg.get?_without hs] at h
  split at h
  · cases h
  · rename_i hne
    exact ⟨fun heq => hne (congrArg Synthesized.course heq), h⟩

/-- Without one of its patterns a graph stays well-formed. -/
theorem WellFormed.without (hg : g.WellFormed) (hs : g.Keeps s) : (g.without s).WellFormed where
  course_eq c x hx := by
    rw [hg.get?_without hs] at hx
    split at hx
    · cases hx
    · exact hg.course_eq c x hx
  sound x hx := hg.sound x (hg.keeps_without hs hx).2
  anchors x hx := by
    obtain ⟨hne, hold⟩ := hg.keeps_without hs hx
    have hax := hg.anchors x hold
    refine ⟨fun e he => ?_, fun v hv => ?_, hax.edges_lt, hax.vertices_lt⟩
    · have hout : e ∉ s.edges := fun hes => hne (hg.edges_disjoint x s e hold hs he hes)
      show ((s.edges.foldl Table.erase g.edges).get? e).isSome = true
      rw [Table.get?_foldl_erase, if_neg hout]
      exact hax.edges_mem e he
    · have hout : v ∉ s.vertices := fun hvs => hne (hg.vertices_disjoint x s v hold hs hv hvs)
      show ((s.vertices.foldl Table.erase g.vertices).get? v).isSome = true
      rw [Table.get?_foldl_erase, if_neg hout]
      exact hax.vertices_mem v hv
  number_lt x hx := hg.number_lt x (hg.keeps_without hs hx).2
  id_inj x y hx hy := hg.id_inj x y (hg.keeps_without hs hx).2 (hg.keeps_without hs hy).2
  edges_disjoint x y e hx hy :=
    hg.edges_disjoint x y e (hg.keeps_without hs hx).2 (hg.keeps_without hs hy).2
  vertices_disjoint x y v hx hy :=
    hg.vertices_disjoint x y v (hg.keeps_without hs hx).2 (hg.keeps_without hs hy).2

end Graph

end LiveTimetable
