import LiveTimetable.Proofs.Network.Handles

/-!
# The graph accounts for its patterns

After calls in any order, by handles however old, nothing is left over in the graph and nothing is
lost (`History.graph_accounts_for_patterns`). A call is refused exactly if it adds a trip that calls
nowhere or uses the handle of a pattern that was detached (`History.Sound.exists_call`), and any
other one keeps the history sound (`History.Sound.called`).
-/

namespace LiveTimetable.History

variable {first serial : Nat} {services : Services} {h : History} {parts : List Part}
  {x : Synthesized} {c : Course}

namespace Sound

/-! ## What calls answer -/

/-- A pattern that was detached is not found. -/
theorem findSynthesized?_eq_none (hs : Sound first h parts) {id : PatternId}
    (hgone : id ∈ h.detached) : h.graph.findSynthesized? id = none := by
  cases hfind : h.graph.findSynthesized? id with
  | none => rfl
  | some e =>
    obtain ⟨hget, hid⟩ := Graph.get?_of_findSynthesized? hfind
    exact absurd (hid ▸ hgone) (hs.keeps.kept _ _ hget).2.1

/-- Any other pattern of a handle is found. -/
theorem exists_findSynthesized? (hs : Sound first h parts) (hx : x ∈ h.handles)
    (hlive : x.pattern.id ∉ h.detached) :
    ∃ c y, h.graph.findSynthesized? x.pattern.id = some (c, y) := by
  cases hfind : h.graph.findSynthesized? x.pattern.id with
  | some e => exact ⟨e.1, e.2, rfl⟩
  | none =>
    obtain ⟨y, hy, hid⟩ := hs.keeps.stored x hx hlive
    have hmem := Table.mem_entries_iff.mpr hy
    exact absurd (beq_iff_eq.mpr hid) (List.find?_eq_none.mp hfind _ hmem)

/-- A trip is taken out of any pattern that was not detached. -/
theorem exists_removeTrip (hs : Sound first h parts) (hx : x ∈ h.handles)
    (hlive : x.pattern.id ∉ h.detached) (trip : TripId) :
    ∃ shrunk g, h.graph.removeTrip x trip = .ok (g, .ok shrunk) := by
  obtain ⟨c, y, hfind⟩ := hs.exists_findSynthesized? hx hlive
  obtain ⟨hget, -⟩ := Graph.get?_of_findSynthesized? hfind
  obtain ⟨p, hp⟩ := (hs.keeps.kept c y hget).2.2.2.exists_withoutTrip trip
  exact ⟨_, _, Graph.removeTrip_eq_ok_iff.mpr ⟨c, y, p, hfind, hp, rfl, rfl⟩⟩

/-- The part of a pattern that was not detached is there, by whatever handle. -/
theorem hasPart_iff (hs : Sound first h parts) (hx : x ∈ h.handles) :
    h.graph.HasPart x ↔ x.pattern.id ∉ h.detached := by
  refine ⟨hs.not_mem_detached hx, fun hlive => ?_⟩
  have hmem := hs.owns.handle x hx hlive
  exact ⟨fun e he => hs.consists.contains_edges hmem he,
    fun v hv => hs.consists.contains_vertices hmem hv⟩

/-- **A permitted call answers**, as long as there are numbers, and is refused if it is to be. -/
theorem exists_call (hs : Sound first h parts) {c : Graph.Call} (hc : h.Permits first c)
    (hids : h.graph.nextPattern + 1 < 4294967296) : ∃ g answer,
      h.graph.call c = .ok (g, answer) ∧ ((∃ e, answer = .error e) ↔ h.Refuses c) := by
  have haccepted {handle : Option Synthesized} :
      ¬ ∃ e, (Except.ok handle : Except GraphError (Option Synthesized)) = .error e := by
    rintro ⟨_, ⟨⟩⟩
  cases c with
  | link p => exact ⟨_, _, rfl, iff_of_false haccepted id⟩
  | add trip stopTimes =>
    by_cases hne : stopTimes = []
    · subst hne
      exact ⟨_, _, rfl, iff_of_true ⟨_, rfl⟩ rfl⟩
    · obtain ⟨made, g, hadd⟩ := Graph.exists_addTrip (fun x hget =>
        have hkept := hs.keeps.kept _ x hget
        ⟨hkept.2.2.1, hkept.2.2.2.wellFormed⟩) hne fun _ => hids
      refine ⟨g, .ok (some made), ?_, iff_of_false haccepted hne⟩
      rw [Graph.call, hadd]
      rfl
  | remove handle trip =>
    by_cases hgone : handle.pattern.id ∈ h.detached
    · refine ⟨h.graph, .error (.unknownPattern handle.pattern.id), ?_,
        iff_of_true ⟨_, rfl⟩ hgone⟩
      rw [Graph.call, Graph.removeTrip, hs.findSynthesized?_eq_none hgone]
      rfl
    · obtain ⟨shrunk, g, hremove⟩ := hs.exists_removeTrip hc hgone trip
      refine ⟨g, .ok (some shrunk), ?_, iff_of_false haccepted hgone⟩
      rw [Graph.call, hremove]
      rfl
  | detach handle =>
    rw [Graph.call]
    rcases h.graph.detach_spec handle with ⟨hpart, hdetach⟩ | ⟨hnot, e, hdetach⟩
    · rw [hdetach]
      exact ⟨_, _, rfl, iff_of_false haccepted ((hs.hasPart_iff hc).mp hpart)⟩
    · have hgone := Decidable.not_not.mp (hnot ∘ (hs.hasPart_iff hc).mpr)
      rw [hdetach]
      exact ⟨_, _, rfl, iff_of_true ⟨e, rfl⟩ hgone⟩

/-- **After a permitted call the history is sound again.** -/
theorem called (hs : Sound first h parts) {c : Graph.Call} {g : Graph}
    {answer : Except GraphError (Option Synthesized)} (hc : h.Permits first c)
    (hcall : h.graph.call c = .ok (g, answer)) :
    ∃ parts', Sound first (h.after g c answer) parts' := by
  rcases Graph.call_spec hcall with ⟨e, rfl, rfl⟩ | ⟨handle, rfl, haccepts⟩
  · exact ⟨parts, by cases c <;> exact hs⟩
  · cases haccepts with
    | linked p => exact ⟨_, hs.linked hc.1 hc.2⟩
    | joined hget hp =>
      have hmade := (hs.keeps.kept _ _ hget).2.2.2
      exact ⟨parts, hs.revised hget (Pattern.withTrip_revises hmade.wellFormed hp).1
        (.withTrip hmade hp) _⟩
    | made hne hget hp => exact ⟨_, hs.made hne hget hp⟩
    | shrunk hget hid hp =>
      have hmade := (hs.keeps.kept _ _ hget).2.2.2
      exact ⟨parts, hs.revised hget (Pattern.withoutTrip_revises hmade.wellFormed hp).1
        (.withoutTrip hmade hp) h.graph.nextSerial⟩
    | detached hpart => exact ⟨_, hs.detached hc ((hs.hasPart_iff hc).mp hpart)⟩

/-- The parts are those of the live patterns. -/
theorem live_iff (hs : Sound first h parts) (id : PatternId) (stops : List StopId) :
    (∃ a ∈ parts, a.pattern = id ∧ a.stops = stops) ↔ h.Live id stops := by
  constructor
  · rintro ⟨a, ha, rfl, rfl⟩
    refine (hs.owns.owner a ha).imp_right ?_
    rintro ⟨x, hx, hlive, rfl⟩
    exact ⟨x, hx, rfl, rfl, hlive⟩
  · rintro (⟨p, hp, rfl, rfl⟩ | ⟨x, hx, rfl, rfl, hlive⟩)
    · exact hs.owns.linked p hp
    · exact ⟨x.part, hs.owns.handle x hx hlive, rfl, rfl⟩

end Sound

/-- **Every run keeps the history sound.** -/
theorem Run.sound (hrun : Run first serial services h) : ∃ parts, Sound first h parts := by
  induction hrun with
  | start => exact ⟨[], sound_start first serial services⟩
  | called _ hc hcall ih =>
    obtain ⟨parts, hs⟩ := ih
    exact hs.called hc hcall

/-- **The graph accounts for its patterns.** After permitted calls in any order, by handles however
old, the graph consists of the parts of the live patterns, one for each. The ends of every edge
are vertices. The hops of a live pattern are the pairs of neighbours among its stops, and one that
was detached has none. A live pattern that was synthesized is kept under its route and stops and
nowhere else, and nothing else is kept. A further call meets no fault as long as there are numbers;
it is refused if it adds a trip that calls nowhere or uses the handle of a pattern that was
detached, and then the graph stays as it is. -/
theorem graph_accounts_for_patterns (hrun : Run first serial services h) :
    (∃ parts, h.graph.ConsistsOf parts ∧
      ∀ id stops, (∃ a ∈ parts, a.pattern = id ∧ a.stops = stops) ↔ h.Live id stops) ∧
    (∀ e edge, h.graph.edges.get? e = some edge →
      h.graph.vertices.contains edge.source = true ∧
        h.graph.vertices.contains edge.target = true) ∧
    (∀ id stops, h.Live id stops → h.graph.hops id = stops.zip stops.tail) ∧
    (∀ id ∈ h.detached, h.graph.hops id = []) ∧
    (∀ s ∈ h.handles, s.pattern.id ∉ h.detached → ∃ kept,
      h.graph.synthesized.get? ⟨s.pattern.routeId, s.pattern.stops⟩ = some kept ∧
      kept.pattern.id = s.pattern.id ∧
      ∀ c x, h.graph.synthesized.get? c = some x → x.pattern.id = s.pattern.id →
        c = ⟨s.pattern.routeId, s.pattern.stops⟩) ∧
    (∀ c x, h.graph.synthesized.get? c = some x →
      x ∈ h.handles ∧ x.pattern.id ∉ h.detached ∧ c = ⟨x.pattern.routeId, x.pattern.stops⟩) ∧
    ∀ c, h.Permits first c → h.graph.nextPattern + 1 < 4294967296 → ∃ g answer,
      h.graph.call c = .ok (g, answer) ∧ ((∃ e, answer = .error e) ↔ h.Refuses c) ∧
        ∀ e, answer = .error e → g = h.graph := by
  obtain ⟨parts, hs⟩ := hrun.sound
  refine ⟨⟨parts, hs.consists, hs.live_iff⟩,
    fun e edge hedge => hs.consists.contains_endpoints hedge, fun id stops hlive => ?_,
    fun id hgone => ?_, fun s hmem hlive => ?_, fun c x hget => ?_, fun c hc hids => ?_⟩
  · obtain ⟨a, ha, rfl, rfl⟩ := (hs.live_iff id stops).mpr hlive
    exact hs.consists.hops_eq ha
  · refine hs.consists.hops_eq_nil fun hmem => ?_
    obtain ⟨a, ha, hid⟩ := List.mem_map.mp hmem
    rcases hs.owns.owner a ha with ⟨p, hp, hpid, -⟩ | ⟨x, -, hlive, rfl⟩
    · obtain ⟨x, hx, hxid⟩ := hs.numbers.detached id hgone
      have hlt := hs.numbers.linked_lt p hp
      have hge := hs.numbers.handle_ge x hx
      rw [hpid, hid] at hlt
      rw [hxid] at hge
      omega
    · have hxid : x.pattern.id = id := hid
      exact hlive (hxid ▸ hgone)
  · obtain ⟨kept, hkept, hid⟩ := hs.keeps.stored s hmem hlive
    refine ⟨kept, hkept, hid, fun c x hget hxid => ?_⟩
    obtain ⟨hx, -, rfl, -⟩ := hs.keeps.kept c x hget
    exact hs.numbers.course_eq x hx s hmem hxid
  · obtain ⟨hx, hlive, hcourse, -⟩ := hs.keeps.kept c x hget
    exact ⟨hx, hlive, hcourse.symm⟩
  · obtain ⟨g, answer, hcall, hrefuses⟩ := hs.exists_call hc hids
    refine ⟨g, answer, hcall, hrefuses, ?_⟩
    rintro e rfl
    rcases Graph.call_spec hcall with ⟨e', -, hsame⟩ | ⟨handle, heq, -⟩
    · exact hsame
    · cases heq

/-! ## A stale handle -/

section StaleHandle

/-- The stop times of a trip over the stops of the late trip. -/
def lateStopTimes : List StopTime :=
  TripTimes.lateStops.map fun stop => ⟨stop, 0, 0, 0, .regular, .regular⟩

/-- The history after a call; one that met a fault counts as none. -/
def next (h : History) (c : Graph.Call) : History :=
  match h.graph.call c with
  | .ok (g, answer) => h.after g c answer
  | .error _ => h

theorem Run.next (hrun : Run first serial services h) {c : Graph.Call} (hc : h.Permits first c) :
    Run first serial services (h.next c) := by
  unfold History.next
  split
  · rename_i g answer hcall
    exact .called hrun hc hcall
  · exact hrun

/-- Two trips were added on one course. -/
def addedTwice : History :=
  let start : History := ⟨.ofServices 1 0 .empty, [], [], []⟩
  (start.next (.add TripTimes.lateTrip.trip lateStopTimes)).next
    (.add Timetable.otherTrip.trip lateStopTimes)

theorem run_addedTwice : Run 1 0 .empty addedTwice := by
  have hstart : Run 1 0 .empty ⟨.ofServices 1 0 .empty, [], [], []⟩ := .start
  have hone := hstart.next (c := .add TripTimes.lateTrip.trip lateStopTimes) trivial
  exact hone.next (c := .add Timetable.otherTrip.trip lateStopTimes) trivial

/-- The handle of the first trip is stale when the second has joined. It still takes the pattern
down, and nothing is left of it. -/
theorem graph_accounts_for_patterns_addedTwice : Run 1 0 .empty addedTwice ∧
    ∃ joined stale g, addedTwice.handles = [joined, stale] ∧ joined.pattern.revision = 1 ∧
      stale.pattern.revision = 0 ∧ addedTwice.graph.hops ⟨1⟩ =
        [(⟨"a", "x"⟩, ⟨"a", "y"⟩), (⟨"a", "y"⟩, ⟨"a", "z"⟩)] ∧
      addedTwice.graph.call (.detach stale) = .ok (g, .ok none) ∧ g.hops ⟨1⟩ = [] := by
  obtain ⟨joined, stale, g, hhandles, hjoined, hstale, hid, hstops, hcall⟩ : ∃ joined stale g,
      addedTwice.handles = [joined, stale] ∧ joined.pattern.revision = 1 ∧
      stale.pattern.revision = 0 ∧ stale.pattern.id = ⟨1⟩ ∧
      stale.pattern.stops = TripTimes.lateStops ∧
      addedTwice.graph.call (.detach stale) = .ok (g, .ok none) :=
    ⟨_, _, _, rfl, rfl, rfl, rfl, rfl, rfl⟩
  have hmem : stale ∈ addedTwice.handles := by simp [hhandles]
  have hlive : addedTwice.Live ⟨1⟩ TripTimes.lateStops :=
    Or.inr ⟨stale, hmem, hid, hstops, List.not_mem_nil⟩
  have hdetached : Run 1 0 .empty (addedTwice.after g (.detach stale) (.ok none)) :=
    .called run_addedTwice hmem hcall
  obtain ⟨-, -, hhops, -⟩ := graph_accounts_for_patterns run_addedTwice
  obtain ⟨-, -, -, hnone, -⟩ := graph_accounts_for_patterns hdetached
  exact ⟨run_addedTwice, joined, stale, g, hhandles, hjoined, hstale, hhops _ _ hlive, hcall,
    hnone ⟨1⟩ (hid ▸ List.mem_cons_self)⟩

end StaleHandle

end LiveTimetable.History
