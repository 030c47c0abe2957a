import LiveTimetable.Proofs.Network.Answers
import LiveTimetable.Proofs.Network.Making
import LiveTimetable.Proofs.Network.Parts

/-!
# Handles of synthesized patterns

Whoever adds a trip to the graph gets a **handle**, the synthesized pattern as it is then, and takes
trips out and patterns down by it. A handle is never taken back: the pattern may have changed since
or may be gone. The edges and vertices that a handle lists stay those of its pattern all the same,
and are never given out again.

* `Graph.call`: one call on a graph, and what it answers; `Graph.call_spec`: all that it can do.
* `History`: a graph with the handles that it returned; `History.Run`: one after calls in any order.
* `History.Sound`: the graph consists of the parts of the live patterns, and keeps each synthesized
  one under its course.
* `History.Sound.linked`, `History.Sound.revised`, `History.Sound.made`, `History.Sound.detached`:
  the four ways in which a history changes, all of which keep it sound.
-/

namespace LiveTimetable

/-! ## Calls -/

namespace Graph

/-- One call on a graph. -/
inductive Call where
  | link (p : Pattern)
  | add (trip : Trip) (stopTimes : List StopTime)
  | remove (handle : Synthesized) (trip : TripId)
  | detach (handle : Synthesized)

/-- The graph after a call, and the handle or the refusal that the call answered. -/
def call (g : Graph) : Call → Checked (Graph × Except GraphError (Option Synthesized))
  | .link p => .ok (g.addScheduled p, .ok none)
  | .add trip stopTimes => do
    let (g', answer) ← g.addTrip trip stopTimes
    return (g', answer.map some)
  | .remove handle trip => do
    let (g', answer) ← g.removeTrip handle trip
    return (g', answer.map some)
  | .detach handle =>
    let (g', answer) := g.detach handle
    .ok (g', answer.map fun _ => none)

/-- What a call that is not refused makes of the graph, and the handle that it returns. -/
inductive Accepts (g : Graph) : Call → Graph → Option Synthesized → Prop
  | linked (p : Pattern) : Accepts g (.link p) (g.addScheduled p) none
  | joined {trip : Trip} {stopTimes : List StopTime} {x : Synthesized} {p : Pattern}
      (hget : g.synthesized.get? (.of trip stopTimes) = some x)
      (hp : (x.pattern.withTrip (g.publication trip stopTimes)).run = .ok (.ok p)) :
      Accepts g (.add trip stopTimes)
        (({ g with nextSerial := g.nextSerial + 1 } : Graph).keep (.of trip stopTimes)
          ⟨p, x.edges, x.vertices⟩)
        (some ⟨p, x.edges, x.vertices⟩)
  | made {trip : Trip} {stopTimes : List StopTime} {p : Pattern} (hne : stopTimes ≠ [])
      (hget : g.synthesized.get? (.of trip stopTimes) = none)
      (hp : (Pattern.publish ⟨g.nextPattern⟩ trip.routeId (stopTimes.map StopTime.stopId)
        [g.publication trip stopTimes] true).run = .ok (.ok p)) :
      Accepts g (.add trip stopTimes)
        ((g.counted.link ⟨g.nextPattern⟩ p.stops).2.2.keep (.of trip stopTimes)
          (g.counted.synthesize ⟨g.nextPattern⟩ p))
        (some (g.counted.synthesize ⟨g.nextPattern⟩ p))
  | shrunk {handle x : Synthesized} {trip : TripId} {c : Course} {p : Pattern}
      (hget : g.synthesized.get? c = some x) (hid : x.pattern.id = handle.pattern.id)
      (hp : x.pattern.withoutTrip trip = .ok p) :
      Accepts g (.remove handle trip) (g.keep c ⟨p, x.edges, x.vertices⟩)
        (some ⟨p, x.edges, x.vertices⟩)
  | detached {handle : Synthesized} (h : g.HasPart handle) :
      Accepts g (.detach handle) (g.without handle) none

/-- **All that a call can do**: it is refused and leaves the graph as it is, or it is accepted. -/
theorem call_spec {g g' : Graph} {c : Call} {answer : Except GraphError (Option Synthesized)}
    (h : g.call c = .ok (g', answer)) :
    (∃ e, answer = .error e ∧ g' = g) ∨ ∃ handle, answer = .ok handle ∧ g.Accepts c g' handle := by
  cases c with
  | link p =>
    cases h
    exact Or.inr ⟨none, rfl, .linked p⟩
  | add trip stopTimes =>
    obtain ⟨⟨g₁, result⟩, hadd, hlast⟩ := Checked.bind_eq_ok_iff.mp h
    cases result with
    | error e =>
      cases hlast
      exact Or.inl ⟨e, rfl, eq_of_addTrip_eq_error hadd⟩
    | ok made =>
      cases hlast
      have hne : stopTimes ≠ [] := by
        rintro rfl
        cases hadd
      cases hget : g.synthesized.get? (.of trip stopTimes) with
      | some x =>
        obtain ⟨p, hp, rfl, rfl⟩ := (addTrip_eq_ok_iff_of_kept hne hget).mp hadd
        exact Or.inr ⟨_, rfl, .joined hget hp⟩
      | none =>
        obtain ⟨p, hp, -, rfl, rfl⟩ := (addTrip_eq_ok_iff_of_not_kept hne hget).mp hadd
        exact Or.inr ⟨_, rfl, .made hne hget hp⟩
  | remove handle trip =>
    obtain ⟨⟨g₁, result⟩, hremove, hlast⟩ := Checked.bind_eq_ok_iff.mp h
    cases result with
    | error e =>
      cases hlast
      exact Or.inl ⟨e, rfl, (removeTrip_eq_error_iff.mp hremove).2.2⟩
    | ok shrunk =>
      cases hlast
      obtain ⟨c, x, p, hfind, hp, rfl, rfl⟩ := removeTrip_eq_ok_iff.mp hremove
      obtain ⟨hget, hid⟩ := get?_of_findSynthesized? hfind
      exact Or.inr ⟨_, rfl, .shrunk hget hid hp⟩
  | detach handle =>
    rw [call] at h
    rcases g.detach_spec handle with ⟨hpart, hdetach⟩ | ⟨-, e, hdetach⟩
    · rw [hdetach] at h
      cases h
      exact Or.inr ⟨none, rfl, .detached hpart⟩
    · rw [hdetach] at h
      cases h
      exact Or.inl ⟨e, rfl, rfl⟩

end Graph

/-- A graph, the scheduled patterns that were linked into it, the handles that it returned, and the
synthesized patterns that were detached from it. -/
structure History where
  graph : Graph
  linked : List Pattern
  handles : List Synthesized
  detached : List PatternId

namespace History

/-- Scheduled patterns have different numbers below the first synthesized one, and a handle is one
that the graph returned, however long ago. -/
def Permits (first : Nat) (h : History) : Graph.Call → Prop
  | .link p => p.id.number < first ∧ ∀ q ∈ h.linked, q.id ≠ p.id
  | .add _ _ => True
  | .remove handle _ => handle ∈ h.handles
  | .detach handle => handle ∈ h.handles

/-- The history after a call. -/
def after (h : History) (g : Graph) :
    Graph.Call → Except GraphError (Option Synthesized) → History
  | .link p, .ok none => { h with graph := g, linked := p :: h.linked }
  | .detach handle, .ok none => { h with graph := g, detached := handle.pattern.id :: h.detached }
  | _, .ok (some handle) => { h with graph := g, handles := handle :: h.handles }
  | _, _ => { h with graph := g }

/-- A history after permitted calls in any order, on a graph whose synthesized patterns are numbered
from `first`. -/
inductive Run (first serial : Nat) (services : Services) : History → Prop
  | start : Run first serial services ⟨.ofServices first serial services, [], [], []⟩
  | called {h : History} {c : Graph.Call} {g : Graph}
      {answer : Except GraphError (Option Synthesized)} (hrun : Run first serial services h)
      (hc : h.Permits first c) (hcall : h.graph.call c = .ok (g, answer)) :
      Run first serial services (h.after g c answer)

/-- A pattern with the given stops is in the graph: a scheduled one, or a synthesized one that was
not detached. -/
def Live (h : History) (id : PatternId) (stops : List StopId) : Prop :=
  (∃ p ∈ h.linked, p.id = id ∧ p.stops = stops) ∨
    ∃ s ∈ h.handles, s.pattern.id = id ∧ s.pattern.stops = stops ∧ id ∉ h.detached

/-- A call is to be refused: it adds a trip that calls nowhere, or uses the handle of a pattern that
was detached. -/
def Refuses (h : History) : Graph.Call → Prop
  | .link _ => False
  | .add _ stopTimes => stopTimes = []
  | .remove handle _ => handle.pattern.id ∈ h.detached
  | .detach handle => handle.pattern.id ∈ h.detached

end History

/-- The part of the graph that a handle tells of. -/
def Synthesized.part (s : Synthesized) : Part :=
  ⟨s.pattern.id, s.pattern.stops, s.edges, s.vertices⟩

namespace History

/-! ## Sound histories -/

/-- Scheduled patterns have numbers below `first`, synthesized ones have numbers from there on that
are not given out again, and two handles of one number are of one course. -/
structure Numbers (first : Nat) (h : History) : Prop where
  first_le : first ≤ h.graph.nextPattern
  linked_lt : ∀ p ∈ h.linked, p.id.number < first
  handle_ge : ∀ s ∈ h.handles, first ≤ s.pattern.id.number
  handle_lt : ∀ s ∈ h.handles, s.pattern.id.number < h.graph.nextPattern
  course_eq : ∀ s ∈ h.handles, ∀ s' ∈ h.handles, s.pattern.id = s'.pattern.id →
    s.course = s'.course
  detached : ∀ id ∈ h.detached, ∃ s ∈ h.handles, s.pattern.id = id

/-- Every part is that of a live pattern, and the handles of a live pattern tell of its part. None
of the vertices in the handles of the others is there or will be again. -/
structure Owns (h : History) (parts : List Part) : Prop where
  linked : ∀ p ∈ h.linked, ∃ a ∈ parts, a.pattern = p.id ∧ a.stops = p.stops
  handle : ∀ s ∈ h.handles, s.pattern.id ∉ h.detached → s.part ∈ parts
  owner : ∀ a ∈ parts, (∃ p ∈ h.linked, p.id = a.pattern ∧ p.stops = a.stops) ∨
    ∃ s ∈ h.handles, s.pattern.id ∉ h.detached ∧ s.part = a
  vertices_ne_nil : ∀ s ∈ h.handles, s.vertices ≠ []
  gone : ∀ s ∈ h.handles, s.pattern.id ∈ h.detached →
    ∀ v ∈ s.vertices, v ∉ h.graph.vertices.keys ∧ v < h.graph.nextVertex

/-- What is kept is a handle of a live pattern, under its course, and something is kept for every
live pattern that was synthesized. -/
structure Keeps (h : History) : Prop where
  kept : ∀ c s, h.graph.synthesized.get? c = some s →
    s ∈ h.handles ∧ s.pattern.id ∉ h.detached ∧ s.course = c ∧ s.pattern.Made
  stored : ∀ s ∈ h.handles, s.pattern.id ∉ h.detached →
    ∃ x, h.graph.synthesized.get? s.course = some x ∧ x.pattern.id = s.pattern.id

/-- The graph consists of the parts of the live patterns. -/
structure Sound (first : Nat) (h : History) (parts : List Part) : Prop where
  consists : h.graph.ConsistsOf parts
  counts : h.graph.Counts
  numbers : h.Numbers first
  owns : h.Owns parts
  keeps : h.Keeps

variable {first serial : Nat} {services : Services} {h : History} {parts : List Part}
  {s x : Synthesized} {p : Pattern} {c : Course}

theorem sound_start (first serial : Nat) (services : Services) :
    Sound first ⟨.ofServices first serial services, [], [], []⟩ [] where
  consists := ⟨rfl, rfl, fun a ha => absurd ha List.not_mem_nil, List.nodup_nil⟩
  counts := ⟨fun v hv => absurd hv List.not_mem_nil, fun e he => absurd he List.not_mem_nil⟩
  numbers :=
    { first_le := Nat.le_refl _
      linked_lt := fun p hp => absurd hp List.not_mem_nil
      handle_ge := fun s hs => absurd hs List.not_mem_nil
      handle_lt := fun s hs => absurd hs List.not_mem_nil
      course_eq := fun s hs => absurd hs List.not_mem_nil
      detached := fun id hid => absurd hid List.not_mem_nil }
  owns :=
    { linked := fun p hp => absurd hp List.not_mem_nil
      handle := fun s hs => absurd hs List.not_mem_nil
      owner := fun a ha => absurd ha List.not_mem_nil
      vertices_ne_nil := fun s hs => absurd hs List.not_mem_nil
      gone := fun s hs => absurd hs List.not_mem_nil }
  keeps :=
    { kept := fun c s hget => by cases hget
      stored := fun s hs => absurd hs List.not_mem_nil }

/-! ### A new handle -/

section Push

variable {g : Graph} {y : Synthesized}

/-- A handle of a new number, or of the course that its number has. -/
theorem Numbers.push (hn : h.Numbers first) (hle : h.graph.nextPattern ≤ g.nextPattern)
    (hge : first ≤ y.pattern.id.number) (hlt : y.pattern.id.number < g.nextPattern)
    (hcourse : ∀ z ∈ h.handles, z.pattern.id = y.pattern.id → z.course = y.course) :
    Numbers first { h with graph := g, handles := y :: h.handles } where
  first_le := Nat.le_trans hn.first_le hle
  linked_lt := hn.linked_lt
  handle_ge := List.forall_mem_cons.mpr ⟨hge, hn.handle_ge⟩
  handle_lt := List.forall_mem_cons.mpr
    ⟨hlt, fun z hz => Nat.lt_of_lt_of_le (hn.handle_lt z hz) hle⟩
  course_eq z hz w hw hid := by
    rcases List.mem_cons.mp hz with rfl | hz'
    · rcases List.mem_cons.mp hw with rfl | hw'
      · rfl
      · exact (hcourse w hw' hid.symm).symm
    · rcases List.mem_cons.mp hw with rfl | hw'
      · exact hcourse z hz' hid
      · exact hn.course_eq z hz' w hw' hid
  detached id hgone := by
    obtain ⟨z, hz, hid⟩ := hn.detached id hgone
    exact ⟨z, List.mem_cons_of_mem _ hz, hid⟩

/-- A handle of a live pattern, whose part is there or is all that is new. -/
theorem Owns.push (ho : h.Owns parts) {parts' : List Part} (hkept : ∀ a ∈ parts, a ∈ parts')
    (hpart : y.part ∈ parts') (hnew : ∀ a ∈ parts', a ∈ parts ∨ y.part = a)
    (hlive : y.pattern.id ∉ h.detached) (hne : y.vertices ≠ [])
    (hgone : ∀ z ∈ h.handles, z.pattern.id ∈ h.detached →
      ∀ v ∈ z.vertices, v ∉ g.vertices.keys ∧ v < g.nextVertex) :
    Owns { h with graph := g, handles := y :: h.handles } parts' where
  linked q hq := by
    obtain ⟨a, ha, hsame⟩ := ho.linked q hq
    exact ⟨a, hkept a ha, hsame⟩
  handle := List.forall_mem_cons.mpr
    ⟨fun _ => hpart, fun z hz hz' => hkept _ (ho.handle z hz hz')⟩
  owner a ha := by
    rcases hnew a ha with hold | hpart
    · refine (ho.owner a hold).imp_right ?_
      rintro ⟨z, hz, howner⟩
      exact ⟨z, List.mem_cons_of_mem _ hz, howner⟩
    · exact Or.inr ⟨y, List.mem_cons_self, hlive, hpart⟩
  vertices_ne_nil := List.forall_mem_cons.mpr ⟨hne, ho.vertices_ne_nil⟩
  gone := List.forall_mem_cons.mpr ⟨fun hgone' => absurd hgone' hlive, hgone⟩

/-- A handle of a live pattern that is kept under its course, in place of an older one of the same
pattern. -/
theorem Keeps.push (hk : h.Keeps)
    (hget : ∀ c', g.synthesized.get? c' = if c' = c then some y else h.graph.synthesized.get? c')
    (hcourse : y.course = c) (hlive : y.pattern.id ∉ h.detached) (hmade : y.pattern.Made)
    (hold : ∀ z, h.graph.synthesized.get? c = some z → z.pattern.id = y.pattern.id) :
    Keeps { h with graph := g, handles := y :: h.handles } where
  kept c' z hz := by
    simp only [hget] at hz
    split at hz
    · rename_i hc
      cases hz
      exact ⟨List.mem_cons_self, hlive, hcourse.trans hc.symm, hmade⟩
    · obtain ⟨hmem, hrest⟩ := hk.kept c' z hz
      exact ⟨List.mem_cons_of_mem _ hmem, hrest⟩
  stored z hz hz' := by
    simp only [hget]
    rcases List.mem_cons.mp hz with rfl | hz
    · exact ⟨z, if_pos hcourse, rfl⟩
    · obtain ⟨w, hw, hid⟩ := hk.stored z hz hz'
      by_cases hc : z.course = c
      · exact ⟨y, if_pos hc, (hold w (hc ▸ hw)).symm.trans hid⟩
      · exact ⟨w, (if_neg hc).trans hw, hid⟩

end Push

/-! ### A pattern that is detached -/

theorem Numbers.without (hn : h.Numbers first) (hx : x ∈ h.handles) : Numbers first
    { h with graph := h.graph.without x, detached := x.pattern.id :: h.detached } where
  first_le := hn.first_le
  linked_lt := hn.linked_lt
  handle_ge := hn.handle_ge
  handle_lt := hn.handle_lt
  course_eq := hn.course_eq
  detached := List.forall_mem_cons.mpr ⟨⟨x, hx, rfl⟩, hn.detached⟩

theorem Keeps.without (hk : h.Keeps) : Keeps
    { h with graph := h.graph.without x, detached := x.pattern.id :: h.detached } := by
  have hkept : ∀ c y, (h.graph.without x).synthesized.get? c = some y ↔
      h.graph.synthesized.get? c = some y ∧ y.pattern.id ≠ x.pattern.id := by
    intro c y
    unfold Graph.without
    rw [Table.get?_filter, Option.filter_eq_some_iff, bne_iff_ne]
  refine ⟨fun c y hy => ?_, fun y hy hy' => ?_⟩
  · obtain ⟨hold, hne⟩ := (hkept c y).mp hy
    obtain ⟨hmem, hlive, hrest⟩ := hk.kept c y hold
    exact ⟨hmem, fun hgone => (List.mem_cons.mp hgone).elim hne hlive, hrest⟩
  · obtain ⟨hne, hlive⟩ := not_or.mp fun hmem => hy' (List.mem_cons.mpr hmem)
    obtain ⟨w, hw, hid⟩ := hk.stored y hy hlive
    exact ⟨w, (hkept _ w).mpr ⟨hw, hid ▸ hne⟩, hid⟩

namespace Sound

/-- Two handles of one live pattern tell of one part. -/
theorem part_eq (hs : Sound first h parts) {y : Synthesized} (hx : x ∈ h.handles)
    (hy : y ∈ h.handles) (hid : x.pattern.id = y.pattern.id)
    (hlive : x.pattern.id ∉ h.detached) : x.part = y.part :=
  eq_of_pattern_eq hs.consists.nodup (hs.owns.handle x hx hlive)
    (hs.owns.handle y hy (hid ▸ hlive)) hid

/-- A new number of a synthesized pattern belongs to no part. -/
theorem nextPattern_not_mem (hs : Sound first h parts) :
    ⟨h.graph.nextPattern⟩ ∉ parts.map Part.pattern := by
  intro hmem
  obtain ⟨a, ha, hid⟩ := List.mem_map.mp hmem
  have hnumber : a.pattern.number = h.graph.nextPattern := congrArg PatternId.number hid
  rcases hs.owns.owner a ha with ⟨p, hp, hpid, -⟩ | ⟨s, hmem, -, rfl⟩
  · have hlt := hs.numbers.linked_lt p hp
    have hle := hs.numbers.first_le
    rw [hpid, hnumber] at hlt
    omega
  · have hlt := hs.numbers.handle_lt s hmem
    have hsame : s.pattern.id.number = h.graph.nextPattern := hnumber
    omega

theorem nextPattern_not_mem_detached (hs : Sound first h parts) :
    ⟨h.graph.nextPattern⟩ ∉ h.detached := by
  intro hmem
  obtain ⟨s, hs', hid⟩ := hs.numbers.detached _ hmem
  have hlt := hs.numbers.handle_lt s hs'
  rw [hid] at hlt
  exact Nat.lt_irrefl _ hlt

/-- The number of a scheduled pattern that was not linked belongs to no part. -/
theorem id_not_mem (hs : Sound first h parts) (hlt : p.id.number < first)
    (hnew : ∀ q ∈ h.linked, q.id ≠ p.id) : p.id ∉ parts.map Part.pattern := by
  intro hmem
  obtain ⟨a, ha, hid⟩ := List.mem_map.mp hmem
  rcases hs.owns.owner a ha with ⟨q, hq, hqid, -⟩ | ⟨s, hmem, -, rfl⟩
  · exact hnew q hq (hqid.trans hid)
  · have hge := hs.numbers.handle_ge s hmem
    have hsame : s.pattern.id = p.id := hid
    rw [hsame] at hge
    omega

/-- Linking leaves alone what is gone. -/
theorem gone_link (hs : Sound first h parts) {g : Graph} (hg : g.Counts)
    (hvertices : g.vertices = h.graph.vertices) (hnext : g.nextVertex = h.graph.nextVertex)
    (id : PatternId) (stops : List StopId) (hx : x ∈ h.handles)
    (hgone : x.pattern.id ∈ h.detached) : ∀ v ∈ x.vertices,
      v ∉ (g.link id stops).2.2.vertices.keys ∧ v < (g.link id stops).2.2.nextVertex := by
  intro v hv
  obtain ⟨hnot, hlt⟩ := hs.owns.gone x hx hgone v hv
  obtain ⟨hplaces, -, hwhole, -⟩ := Graph.link_entries hg id stops
  obtain ⟨hgrows, -, -, hfresh⟩ := Graph.link_spec g id stops
  rw [← hnext] at hlt
  refine ⟨fun hmem => ?_, Nat.lt_of_lt_of_le hlt hgrows.nextVertex_le⟩
  rw [Table.keys, hplaces, List.map_append, hwhole.keys_places, hvertices] at hmem
  rcases List.mem_append.mp hmem with hold | hnew
  · exact hnot hold
  · exact absurd hlt (Nat.not_lt.mpr (hfresh v hnew))

/-! ### Changes -/

/-- A scheduled pattern is linked. -/
theorem linked (hs : Sound first h parts) (hlt : p.id.number < first)
    (hnew : ∀ q ∈ h.linked, q.id ≠ p.id) :
    Sound first { h with graph := h.graph.addScheduled p, linked := p :: h.linked }
      (parts ++ [h.graph.partOf p.id p.stops]) := by
  have hnext : (h.graph.addScheduled p).nextPattern = h.graph.nextPattern :=
    Graph.link_nextPattern h.graph p.id p.stops
  have hsynthesized : (h.graph.addScheduled p).synthesized = h.graph.synthesized :=
    Graph.link_synthesized h.graph p.id p.stops
  refine ⟨hs.consists.link hs.counts (hs.id_not_mem hlt hnew) p.stops,
    (Graph.link_entries hs.counts p.id p.stops).2.2.2,
    ⟨hnext.symm ▸ hs.numbers.first_le, fun q hq => ?_, hs.numbers.handle_ge,
      hnext.symm ▸ hs.numbers.handle_lt, hs.numbers.course_eq, hs.numbers.detached⟩,
    ⟨fun q hq => ?_, fun x hx hlive => List.mem_append_left _ (hs.owns.handle x hx hlive),
      fun a ha => ?_, hs.owns.vertices_ne_nil,
      fun x hx hgone => hs.gone_link hs.counts rfl rfl _ _ hx hgone⟩,
    ⟨hsynthesized.symm ▸ hs.keeps.kept, hsynthesized.symm ▸ hs.keeps.stored⟩⟩
  · rcases List.mem_cons.mp hq with rfl | hq
    · exact hlt
    · exact hs.numbers.linked_lt q hq
  · rcases List.mem_cons.mp hq with rfl | hq
    · exact ⟨_, List.mem_append_right _ (List.mem_singleton_self _), rfl, rfl⟩
    · obtain ⟨a, ha, hsame⟩ := hs.owns.linked q hq
      exact ⟨a, List.mem_append_left _ ha, hsame⟩
  · rcases List.mem_append.mp ha with ha | ha
    · refine (hs.owns.owner a ha).imp_left ?_
      rintro ⟨q, hq, hsame⟩
      exact ⟨q, List.mem_cons_of_mem _ hq, hsame⟩
    · rw [List.mem_singleton.mp ha]
      exact Or.inl ⟨p, List.mem_cons_self, rfl, rfl⟩

/-- A kept pattern is revised. The new handle tells of the part and the course that the kept one
tells of. -/
theorem revised (hs : Sound first h parts) (hget : h.graph.synthesized.get? c = some x)
    (hrev : p.Revises x.pattern) (hmade : p.Made) (nextSerial : Nat) :
    Sound first { h with
      graph := ({ h.graph with nextSerial } : Graph).keep c ⟨p, x.edges, x.vertices⟩
      handles := ⟨p, x.edges, x.vertices⟩ :: h.handles } parts := by
  obtain ⟨hx, hlive, hcourse, -⟩ := hs.keeps.kept c x hget
  have hid : p.id = x.pattern.id := hrev.id_eq
  have hcourse' : (⟨p, x.edges, x.vertices⟩ : Synthesized).course = x.course := hrev.course_eq
  have hpart : (⟨p, x.edges, x.vertices⟩ : Synthesized).part = x.part := by
    unfold Synthesized.part
    rw [hid, hrev.stops_eq]
  refine ⟨hs.consists.congr rfl rfl, ⟨hs.counts.vertices, hs.counts.edges⟩,
    hs.numbers.push (Nat.le_refl _) ?_ ?_ ?_,
    hs.owns.push (fun a ha => ha) (hpart ▸ hs.owns.handle x hx hlive) (fun a ha => Or.inl ha)
      (hid ▸ hlive) (hs.owns.vertices_ne_nil x hx) hs.owns.gone,
    hs.keeps.push (fun c' => Table.get?_insert ..) (hcourse'.trans hcourse) (hid ▸ hlive) hmade ?_⟩
  · exact hid ▸ hs.numbers.handle_ge x hx
  · exact hid ▸ hs.numbers.handle_lt x hx
  · intro z hz hzid
    exact (hs.numbers.course_eq z hz x hx (hzid.trans hid)).trans hcourse'.symm
  · intro z hz
    rw [hget] at hz
    cases hz
    exact hid.symm

/-- A new pattern is synthesized. -/
theorem made (hs : Sound first h parts) {trip : Trip} {stopTimes : List StopTime}
    (hne : stopTimes ≠ []) (hget : h.graph.synthesized.get? (.of trip stopTimes) = none)
    (hp : (Pattern.publish ⟨h.graph.nextPattern⟩ trip.routeId (stopTimes.map StopTime.stopId)
      [h.graph.publication trip stopTimes] true).run = .ok (.ok p)) :
    Sound first { h with
      graph := (h.graph.counted.link ⟨h.graph.nextPattern⟩ p.stops).2.2.keep (.of trip stopTimes)
        (h.graph.counted.synthesize ⟨h.graph.nextPattern⟩ p)
      handles := h.graph.counted.synthesize ⟨h.graph.nextPattern⟩ p :: h.handles }
      (parts ++ [h.graph.counted.partOf ⟨h.graph.nextPattern⟩ p.stops]) := by
  obtain ⟨hid, hroute, hstops, -⟩ := Pattern.publish_spec hp
  have hcounts : h.graph.counted.Counts := ⟨hs.counts.vertices, hs.counts.edges⟩
  have hcounted : h.graph.counted.ConsistsOf parts := hs.consists.congr rfl rfl
  have hlinked := hcounted.link hcounts hs.nextPattern_not_mem p.stops
  obtain ⟨-, -, hwhole, hlast⟩ := Graph.link_entries hcounts ⟨h.graph.nextPattern⟩ p.stops
  have hnext : (h.graph.counted.link ⟨h.graph.nextPattern⟩ p.stops).2.2.nextPattern =
      h.graph.nextPattern + 1 := Graph.link_nextPattern h.graph.counted _ _
  have hpart : (h.graph.counted.synthesize ⟨h.graph.nextPattern⟩ p).part =
      h.graph.counted.partOf ⟨h.graph.nextPattern⟩ p.stops := by
    unfold Synthesized.part Graph.synthesize Graph.partOf
    rw [hid]
  have hcourse : (h.graph.counted.synthesize ⟨h.graph.nextPattern⟩ p).course =
      .of trip stopTimes := by
    unfold Synthesized.course Graph.synthesize Course.of
    rw [hroute, hstops]
  have hnumber : p.id.number = h.graph.nextPattern := congrArg PatternId.number hid
  have hlive : p.id ∉ h.detached := hid ▸ hs.nextPattern_not_mem_detached
  have hvertices : (h.graph.counted.link ⟨h.graph.nextPattern⟩ p.stops).2.1 ≠ [] := by
    refine List.ne_nil_of_length_pos (Nat.lt_of_lt_of_eq ?_ hwhole.vertices.symm)
    show 0 < p.stops.length
    rw [hstops, List.length_map]
    exact List.length_pos_of_ne_nil hne
  refine ⟨hlinked.congr rfl rfl, ⟨hlast.vertices, hlast.edges⟩,
    hs.numbers.push (Nat.le_of_lt (Nat.lt_of_lt_of_eq (Nat.lt_succ_self _) hnext.symm)) ?_ ?_ ?_,
    hs.owns.push (fun a => List.mem_append_left _) ?_ ?_ hlive hvertices
      fun z hz hgone => hs.gone_link hcounts rfl rfl _ _ hz hgone,
    hs.keeps.push ?_ hcourse hlive (.published hp) ?_⟩
  · exact Nat.le_trans hs.numbers.first_le (Nat.le_of_eq hnumber.symm)
  · exact Nat.lt_of_le_of_lt (Nat.le_of_eq hnumber) (hnext ▸ Nat.lt_succ_self _)
  · intro z hz hzid
    have hlt := hs.numbers.handle_lt z hz
    exact absurd ((congrArg PatternId.number hzid).trans hnumber) (Nat.ne_of_lt hlt)
  · exact List.mem_append_right _ (hpart ▸ List.mem_singleton_self _)
  · intro a ha
    exact (List.mem_append.mp ha).imp_right fun ha => hpart.trans (List.mem_singleton.mp ha).symm
  · intro c'
    refine (Table.get?_insert ..).trans ?_
    rw [Graph.link_synthesized]
    rfl
  · intro z hz
    rw [hget] at hz
    cases hz

/-- A pattern that was detached cannot be detached again. -/
theorem not_mem_detached (hs : Sound first h parts) (hx : x ∈ h.handles)
    (hpart : h.graph.HasPart x) : x.pattern.id ∉ h.detached := by
  intro hgone
  obtain ⟨v, hv⟩ := List.exists_mem_of_ne_nil _ (hs.owns.vertices_ne_nil x hx)
  refine (hs.owns.gone x hx hgone v hv).1 (Table.mem_keys_iff.mpr ?_)
  exact Option.isSome_iff_exists.mp (hpart.2 v hv)

/-- The parts of the others stay, and their handles tell of them. -/
theorem owns_without (hs : Sound first h parts) (hx : x ∈ h.handles)
    (hlive : x.pattern.id ∉ h.detached) :
    Owns { h with graph := h.graph.without x, detached := x.pattern.id :: h.detached }
      (parts.filter fun a => a.pattern != x.pattern.id) where
  linked q hq := by
    obtain ⟨a, ha, hid, hstops⟩ := hs.owns.linked q hq
    refine ⟨a, List.mem_filter.mpr ⟨ha, bne_iff_ne.mpr fun heq => ?_⟩, hid, hstops⟩
    have hlt := hs.numbers.linked_lt q hq
    have hge := hs.numbers.handle_ge x hx
    rw [← hid, heq] at hlt
    omega
  handle y hy hy' := by
    obtain ⟨hne, hy'⟩ := not_or.mp fun hmem => hy' (List.mem_cons.mpr hmem)
    exact List.mem_filter.mpr ⟨hs.owns.handle y hy hy', bne_iff_ne.mpr hne⟩
  owner a ha := by
    obtain ⟨ha, hne⟩ := List.mem_filter.mp ha
    refine (hs.owns.owner a ha).imp_right ?_
    rintro ⟨y, hy, hy', rfl⟩
    exact ⟨y, hy, fun hmem => (List.mem_cons.mp hmem).elim (bne_iff_ne.mp hne) hy', rfl⟩
  vertices_ne_nil := hs.owns.vertices_ne_nil
  gone y hy hgone v hv := by
    by_cases hgone' : y.pattern.id ∈ h.detached
    · obtain ⟨hnot, hlt⟩ := hs.owns.gone y hy hgone' v hv
      exact ⟨fun hmem => hnot (Table.mem_keys_foldl_erase.mp hmem).1, hlt⟩
    · have hid := (List.mem_cons.mp hgone).resolve_right hgone'
      have hvertices : y.vertices = x.vertices :=
        congrArg Part.vertices (hs.part_eq hy hx hid hgone')
      rw [hvertices] at hv
      refine ⟨fun hmem => (Table.mem_keys_foldl_erase.mp hmem).2 hv, hs.counts.vertices v ?_⟩
      rw [hs.consists.vertices_eq]
      exact List.mem_flatMap_of_mem (hs.owns.handle x hx hlive) hv

/-- A pattern is detached. -/
theorem detached (hs : Sound first h parts) (hx : x ∈ h.handles)
    (hlive : x.pattern.id ∉ h.detached) :
    Sound first { h with graph := h.graph.without x, detached := x.pattern.id :: h.detached }
      (parts.filter fun a => a.pattern != x.pattern.id) where
  consists := hs.consists.erase (hs.owns.handle x hx hlive) rfl rfl
  counts :=
    ⟨fun v hv => hs.counts.vertices v (Table.mem_keys_foldl_erase.mp hv).1,
      fun e he => hs.counts.edges e (Table.mem_keys_foldl_erase.mp he).1⟩
  numbers := hs.numbers.without hx
  owns := hs.owns_without hx hlive
  keeps := hs.keeps.without

end Sound

end History

end LiveTimetable
