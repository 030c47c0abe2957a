import LiveTimetable.Network.Graph

/-!
# Linking patterns into the graph

Linking a pattern adds vertices and edges under numbers that were not given out before, and touches
nothing else (`Graph.link_eq`, `Graph.link_spec`). What is in the graph stays there
(`Graph.Grows`), so the part of a pattern that was linked earlier stays whole (`Anchors.grow`).
-/

namespace LiveTimetable.Graph

/-- A graph with more vertices and edges, under numbers that were not given out before. -/
structure Grows (g g' : Graph) : Prop where
  vertices : ∀ v, g.vertices.contains v = true → g'.vertices.contains v = true
  edges : ∀ e, g.edges.contains e = true → g'.edges.contains e = true
  nextVertex_le : g.nextVertex ≤ g'.nextVertex
  nextEdge_le : g.nextEdge ≤ g'.nextEdge

/-- The edges and vertices of a synthesized pattern are in the graph. -/
structure Anchors (g : Graph) (edges vertices : List Nat) : Prop where
  edges_mem : ∀ e ∈ edges, g.edges.contains e = true
  vertices_mem : ∀ v ∈ vertices, g.vertices.contains v = true
  edges_lt : ∀ e ∈ edges, e < g.nextEdge
  vertices_lt : ∀ v ∈ vertices, v < g.nextVertex

variable {g g' g'' : Graph}

theorem Grows.refl (g : Graph) : g.Grows g :=
  ⟨fun _ h => h, fun _ h => h, Nat.le_refl _, Nat.le_refl _⟩

theorem Grows.trans (h : g.Grows g') (h' : g'.Grows g'') : g.Grows g'' where
  vertices v hv := h'.vertices v (h.vertices v hv)
  edges e he := h'.edges e (h.edges e he)
  nextVertex_le := Nat.le_trans h.nextVertex_le h'.nextVertex_le
  nextEdge_le := Nat.le_trans h.nextEdge_le h'.nextEdge_le

theorem Anchors.grow {edges vertices : List Nat} (h : g.Anchors edges vertices)
    (hgrows : g.Grows g') : g'.Anchors edges vertices where
  edges_mem e he := hgrows.edges e (h.edges_mem e he)
  vertices_mem v hv := hgrows.vertices v (h.vertices_mem v hv)
  edges_lt e he := Nat.lt_of_lt_of_le (h.edges_lt e he) hgrows.nextEdge_le
  vertices_lt v hv := Nat.lt_of_lt_of_le (h.vertices_lt v hv) hgrows.nextVertex_le

/-- Adding vertices touches nothing else. -/
theorem addVertices_eq : ∀ (stops : List StopId) (g : Graph),
    ∃ vertices nextVertex, (addVertices stops g).2 = { g with vertices, nextVertex }
  | [], g => ⟨g.vertices, g.nextVertex, rfl⟩
  | stop :: rest, g => addVertices_eq rest
      { g with vertices := g.vertices.insert g.nextVertex stop, nextVertex := g.nextVertex + 1 }

/-- Adding edges touches nothing else. -/
theorem addEdges_eq (pattern : PatternId) : ∀ (vertices : List Nat) (g : Graph),
    ∃ edges nextEdge, (addEdges pattern vertices g).2 = { g with edges, nextEdge }
  | [], g => ⟨g.edges, g.nextEdge, rfl⟩
  | [_], g => ⟨g.edges, g.nextEdge, rfl⟩
  | source :: target :: rest, g => addEdges_eq pattern (target :: rest)
      { g with
        edges := g.edges.insert g.nextEdge ⟨pattern, source, target⟩
        nextEdge := g.nextEdge + 1 }

theorem addVertices_spec : ∀ (stops : List StopId) (g : Graph),
    g.Grows (addVertices stops g).2 ∧ ∀ v ∈ (addVertices stops g).1,
      g.nextVertex ≤ v ∧ v < (addVertices stops g).2.nextVertex ∧
        (addVertices stops g).2.vertices.contains v = true
  | [], g => ⟨Grows.refl g, nofun⟩
  | stop :: rest, g => by
    have hone : g.Grows { g with
        vertices := g.vertices.insert g.nextVertex stop, nextVertex := g.nextVertex + 1 } :=
      ⟨fun v hv => (Table.contains_insert ..).mpr (Or.inr hv), fun _ h => h, Nat.le_succ _,
        Nat.le_refl _⟩
    obtain ⟨hgrows, hnew⟩ := addVertices_spec rest { g with
      vertices := g.vertices.insert g.nextVertex stop, nextVertex := g.nextVertex + 1 }
    refine ⟨hone.trans hgrows, fun v hv => ?_⟩
    rcases List.mem_cons.mp hv with rfl | hv
    · exact ⟨Nat.le_refl _, hgrows.nextVertex_le,
        hgrows.vertices _ ((Table.contains_insert ..).mpr (Or.inl rfl))⟩
    · obtain ⟨hle, hlt, hmem⟩ := hnew v hv
      exact ⟨Nat.le_of_succ_le hle, hlt, hmem⟩

theorem addEdges_spec (pattern : PatternId) : ∀ (vertices : List Nat) (g : Graph),
    g.Grows (addEdges pattern vertices g).2 ∧ ∀ e ∈ (addEdges pattern vertices g).1,
      g.nextEdge ≤ e ∧ e < (addEdges pattern vertices g).2.nextEdge ∧
        (addEdges pattern vertices g).2.edges.contains e = true
  | [], g => ⟨Grows.refl g, nofun⟩
  | [_], g => ⟨Grows.refl g, nofun⟩
  | source :: target :: rest, g => by
    have hone : g.Grows { g with
        edges := g.edges.insert g.nextEdge ⟨pattern, source, target⟩
        nextEdge := g.nextEdge + 1 } :=
      ⟨fun _ h => h, fun e he => (Table.contains_insert ..).mpr (Or.inr he), Nat.le_refl _,
        Nat.le_succ _⟩
    obtain ⟨hgrows, hnew⟩ := addEdges_spec pattern (target :: rest) { g with
      edges := g.edges.insert g.nextEdge ⟨pattern, source, target⟩
      nextEdge := g.nextEdge + 1 }
    refine ⟨hone.trans hgrows, fun e he => ?_⟩
    rcases List.mem_cons.mp he with rfl | he
    · exact ⟨Nat.le_refl _, hgrows.nextEdge_le,
        hgrows.edges _ ((Table.contains_insert ..).mpr (Or.inl rfl))⟩
    · obtain ⟨hle, hlt, hmem⟩ := hnew e he
      exact ⟨Nat.le_of_succ_le hle, hlt, hmem⟩

/-- Linking a pattern touches nothing but vertices and edges. -/
theorem link_eq (g : Graph) (pattern : PatternId) (stops : List StopId) :
    ∃ vertices edges nextVertex nextEdge,
      (g.link pattern stops).2.2 = { g with vertices, edges, nextVertex, nextEdge } := by
  obtain ⟨vertices, nextVertex, hv⟩ := addVertices_eq stops g
  obtain ⟨edges, nextEdge, he⟩ := addEdges_eq pattern (addVertices stops g).1
    (addVertices stops g).2
  refine ⟨vertices, edges, nextVertex, nextEdge, he.trans ?_⟩
  rw [hv]

/-- The vertices and edges of a linked pattern have new numbers. -/
theorem link_spec (g : Graph) (pattern : PatternId) (stops : List StopId) :
    g.Grows (g.link pattern stops).2.2 ∧
      (g.link pattern stops).2.2.Anchors (g.link pattern stops).1 (g.link pattern stops).2.1 ∧
      (∀ e ∈ (g.link pattern stops).1, g.nextEdge ≤ e) ∧
      ∀ v ∈ (g.link pattern stops).2.1, g.nextVertex ≤ v := by
  obtain ⟨hgrows, hvertices⟩ := addVertices_spec stops g
  obtain ⟨hgrows', hedges⟩ := addEdges_spec pattern (addVertices stops g).1 (addVertices stops g).2
  refine ⟨hgrows.trans hgrows', ⟨fun e he => (hedges e he).2.2, fun v hv => ?_,
    fun e he => (hedges e he).2.1, fun v hv => ?_⟩, fun e he => ?_, fun v hv => (hvertices v hv).1⟩
  · exact hgrows'.vertices v (hvertices v hv).2.2
  · exact Nat.lt_of_lt_of_le (hvertices v hv).2.1 hgrows'.nextVertex_le
  · exact Nat.le_trans hgrows.nextEdge_le (hedges e he).1

end LiveTimetable.Graph
