import LiveTimetable.Network.Graph
import LiveTimetable.Proofs.Network.Linking
import Mathlib.Data.List.Nodup
import Mathlib.Data.List.Pairwise

/-!
# The graph as the sum of its parts

Every pattern that is linked gets a part of the graph: a vertex for each of its stops and an edge
for every two neighbours. A graph **consists of** parts if it has the vertices and edges of these,
one part after another, and no others.

* `Graph.ConsistsOf.link`: linking a pattern adds its part.
* `Graph.ConsistsOf.erase`: without its vertices and edges a part is gone, and no other is touched.
* `Graph.ConsistsOf.hops_eq`: the hops of a pattern are the pairs of neighbours among its stops.
-/

namespace LiveTimetable

/-- The part of the graph that belongs to a pattern. -/
structure Part where
  pattern : PatternId
  stops : List StopId
  edges : List Nat
  vertices : List Nat

namespace Part

/-- The vertices, each with its stop. -/
def places (a : Part) : List (Nat × StopId) := a.vertices.zip a.stops

/-- The edges, each between two neighbouring vertices. -/
def links (a : Part) : List (Nat × Edge) :=
  a.edges.zip ((a.vertices.zip a.vertices.tail).map fun v => ⟨a.pattern, v.1, v.2⟩)

/-- There is a vertex for each stop, and an edge for each stop but the first. -/
structure Whole (a : Part) : Prop where
  vertices : a.vertices.length = a.stops.length
  edges : a.edges.length = a.stops.tail.length

variable {a : Part}

theorem Whole.keys_places (h : a.Whole) : a.places.map Prod.fst = a.vertices :=
  List.map_fst_zip (Nat.le_of_eq h.vertices)

theorem Whole.length_edges (h : a.Whole) : a.edges.length =
    ((a.vertices.zip a.vertices.tail).map fun v => (⟨a.pattern, v.1, v.2⟩ : Edge)).length := by
  rw [List.length_map, List.length_zip, List.length_tail, h.edges, List.length_tail, h.vertices]
  omega

theorem Whole.keys_links (h : a.Whole) : a.links.map Prod.fst = a.edges :=
  List.map_fst_zip (Nat.le_of_eq h.length_edges)

theorem Whole.values_links (h : a.Whole) : a.links.map Prod.snd =
    (a.vertices.zip a.vertices.tail).map fun v => ⟨a.pattern, v.1, v.2⟩ :=
  List.map_snd_zip (Nat.le_of_eq h.length_edges.symm)

end Part

/-! ## Parts under different keys -/

section Keys

variable {K V : Type} {entries : Part → List (K × V)} {keys : Part → List K} {parts : List Part}
  {a : Part}

/-- Parts of different patterns do not share a pattern. -/
theorem eq_of_pattern_eq {b : Part} (hnodup : (parts.map Part.pattern).Nodup) (ha : a ∈ parts)
    (hb : b ∈ parts) (h : a.pattern = b.pattern) : a = b :=
  List.inj_on_of_nodup_map hnodup ha hb h

theorem flatMap_filter {β : Type} (f : Part → List β) (p : Part → Bool) (parts : List Part) :
    (parts.filter p).flatMap f = parts.flatMap fun b => if p b then f b else [] := by
  induction parts with
  | nil => rfl
  | cons b rest ih =>
    by_cases hb : p b
    · simp [hb, ih]
    · simp [hb, ih]

/-- Without the keys of one part, the entries are those of all others. -/
theorem filter_flatMap_entries [DecidableEq K] (hkeys : ∀ b ∈ parts,
      (entries b).map Prod.fst = keys b)
    (hnodup : (parts.flatMap keys).Nodup) (hdiff : (parts.map Part.pattern).Nodup)
    (ha : a ∈ parts) :
    ((parts.flatMap entries).filter fun e => decide (e.1 ∉ keys a)) =
      (parts.filter fun b => b.pattern != a.pattern).flatMap entries := by
  have hdisjoint : ∀ b ∈ parts, b ≠ a → ∀ e ∈ entries b, e.1 ∉ keys a := by
    intro b hb hne e he hmem
    have hsymm : Std.Symm (Function.onFun List.Disjoint keys) := ⟨fun _ _ h _ hb ha => h ha hb⟩
    have hapart := (List.nodup_flatMap.mp hnodup).2.forall hb ha hne
    exact hapart (hkeys b hb ▸ List.mem_map_of_mem he) hmem
  rw [List.filter_flatMap, flatMap_filter]
  refine List.flatMap_congr fun b hb => ?_
  by_cases hsame : b.pattern = a.pattern
  · obtain rfl := eq_of_pattern_eq hdiff hb ha hsame
    rw [bne_self_eq_false, if_neg Bool.false_ne_true]
    refine List.filter_eq_nil_iff.mpr fun e he => ?_
    have hmem : e.1 ∈ keys b := hkeys b hb ▸ List.mem_map_of_mem he
    simp [hmem]
  · have hne : b ≠ a := fun heq => hsame (congrArg Part.pattern heq)
    rw [if_pos (bne_iff_ne.mpr hsame)]
    exact List.filter_eq_self.mpr fun e he => decide_eq_true (hdisjoint b hb hne e he)

/-- What the parts contribute for one pattern comes from its part. -/
theorem flatMap_of_pattern {β : Type} (f : Part → List β) (hdiff : (parts.map Part.pattern).Nodup)
    (ha : a ∈ parts) :
    (parts.flatMap fun b => if b.pattern = a.pattern then f b else []) = f a := by
  induction parts with
  | nil => exact absurd ha List.not_mem_nil
  | cons b rest ih =>
    obtain ⟨hnew, hrest⟩ := List.nodup_cons.mp hdiff
    rw [List.flatMap_cons]
    rcases List.mem_cons.mp ha with rfl | ha
    · have hothers : (rest.flatMap fun b => if b.pattern = a.pattern then f b else []) = [] := by
        refine List.flatMap_eq_nil_iff.mpr fun b hb => if_neg fun heq => hnew ?_
        exact heq ▸ List.mem_map_of_mem hb
      rw [if_pos rfl, hothers, List.append_nil]
    · have hne : b.pattern ≠ a.pattern := fun heq => hnew (heq ▸ List.mem_map_of_mem ha)
      rw [if_neg hne, List.nil_append, ih hrest ha]

end Keys

namespace Graph

variable {g : Graph} {parts : List Part} {a : Part} {id : PatternId} {stops : List StopId}

/-! ## Linking -/

/-- Every number that is in use is below the next one. -/
structure Counts (g : Graph) : Prop where
  vertices : ∀ v ∈ g.vertices.keys, v < g.nextVertex
  edges : ∀ e ∈ g.edges.keys, e < g.nextEdge

theorem mem_keys_of_entries_append {V : Type} {t t' : Table Nat V} {k n : Nat} {v : V}
    (h : t'.entries = t.entries ++ [(n, v)]) (hk : k ∈ t'.keys) : k ∈ t.keys ∨ k = n := by
  unfold Table.keys at hk ⊢
  rw [h, List.map_append] at hk
  exact (List.mem_append.mp hk).imp_right fun hk => List.mem_singleton.mp hk

/-- Vertices come in the order of the stops, after all that are there. -/
theorem addVertices_entries : ∀ (stops : List StopId) (g : Graph), g.Counts →
    (addVertices stops g).1.length = stops.length ∧
      (addVertices stops g).2.vertices.entries =
        g.vertices.entries ++ (addVertices stops g).1.zip stops ∧
      (addVertices stops g).2.Counts
  | [], g, hg => ⟨rfl, (List.append_nil _).symm, hg⟩
  | stop :: rest, g, hg => by
    have hentries := g.vertices.entries_insert_of_forall_lt stop fun v hv =>
      Nat.compare_eq_lt.mpr (hg.vertices v hv)
    obtain ⟨hlength, hrest, hcounts⟩ := addVertices_entries rest { g with
      vertices := g.vertices.insert g.nextVertex stop, nextVertex := g.nextVertex + 1 }
      ⟨fun v hv => by
        rcases mem_keys_of_entries_append hentries hv with hold | rfl
        · exact Nat.lt_succ_of_lt (hg.vertices v hold)
        · exact Nat.lt_succ_self _, hg.edges⟩
    refine ⟨congrArg Nat.succ hlength, ?_, hcounts⟩
    rw [addVertices]
    simp only [hrest, hentries, List.append_assoc]
    rfl

/-- Edges come in the order of the vertices, after all that are there. -/
theorem addEdges_entries (id : PatternId) : ∀ (vertices : List Nat) (g : Graph), g.Counts →
    (addEdges id vertices g).1.length = vertices.tail.length ∧
      (addEdges id vertices g).2.edges.entries = g.edges.entries ++ (addEdges id vertices g).1.zip
        ((vertices.zip vertices.tail).map fun v => ⟨id, v.1, v.2⟩) ∧
      (addEdges id vertices g).2.Counts
  | [], g, hg => ⟨rfl, (List.append_nil _).symm, hg⟩
  | [_], g, hg => ⟨rfl, (List.append_nil _).symm, hg⟩
  | source :: target :: rest, g, hg => by
    have hentries := g.edges.entries_insert_of_forall_lt ⟨id, source, target⟩ fun e he =>
      Nat.compare_eq_lt.mpr (hg.edges e he)
    obtain ⟨hlength, hrest, hcounts⟩ := addEdges_entries id (target :: rest) { g with
      edges := g.edges.insert g.nextEdge ⟨id, source, target⟩, nextEdge := g.nextEdge + 1 }
      ⟨hg.vertices, fun e he => by
        rcases mem_keys_of_entries_append hentries he with hold | rfl
        · exact Nat.lt_succ_of_lt (hg.edges e hold)
        · exact Nat.lt_succ_self _⟩
    refine ⟨congrArg Nat.succ hlength, ?_, hcounts⟩
    rw [addEdges]
    simp only [hrest, hentries, List.append_assoc]
    rfl

/-- The part that a pattern gets when it is linked. -/
def partOf (g : Graph) (id : PatternId) (stops : List StopId) : Part :=
  ⟨id, stops, (g.link id stops).1, (g.link id stops).2.1⟩

/-- Linking adds the places and the links of a part. -/
theorem link_entries (hg : g.Counts) (id : PatternId) (stops : List StopId) :
    (g.link id stops).2.2.vertices.entries = g.vertices.entries ++ (g.partOf id stops).places ∧
      (g.link id stops).2.2.edges.entries = g.edges.entries ++ (g.partOf id stops).links ∧
      (g.partOf id stops).Whole ∧ (g.link id stops).2.2.Counts := by
  obtain ⟨hvertices, hplaces, hmid⟩ := addVertices_entries stops g hg
  obtain ⟨hedges, hlinks, hlast⟩ := addEdges_entries id (addVertices stops g).1 _ hmid
  have hsame : (addVertices stops g).2.edges = g.edges := by
    obtain ⟨_, _, heq⟩ := addVertices_eq stops g
    rw [heq]
  have hsame' : (g.link id stops).2.2.vertices = (addVertices stops g).2.vertices := by
    obtain ⟨_, _, heq⟩ := addEdges_eq id (addVertices stops g).1 (addVertices stops g).2
    unfold link
    simp only [heq]
  refine ⟨?_, ?_, ⟨hvertices, ?_⟩, hlast⟩
  · rw [hsame']
    exact hplaces
  · rw [← hsame]
    exact hlinks
  · refine hedges.trans ?_
    rw [List.length_tail, hvertices, ← List.length_tail]
    rfl

/-! ## Parts -/

/-- The vertices and edges of the graph are those of the parts, which are whole and belong to
different patterns. -/
structure ConsistsOf (g : Graph) (parts : List Part) : Prop where
  places_eq : g.vertices.entries = parts.flatMap Part.places
  links_eq : g.edges.entries = parts.flatMap Part.links
  whole : ∀ a ∈ parts, a.Whole
  nodup : (parts.map Part.pattern).Nodup

namespace ConsistsOf

/-- What the graph consists of is a matter of its vertices and edges. -/
theorem congr (h : g.ConsistsOf parts) {g' : Graph} (hvertices : g'.vertices = g.vertices)
    (hedges : g'.edges = g.edges) : g'.ConsistsOf parts :=
  ⟨hvertices ▸ h.places_eq, hedges ▸ h.links_eq, h.whole, h.nodup⟩

theorem vertices_eq (h : g.ConsistsOf parts) : g.vertices.keys = parts.flatMap Part.vertices := by
  rw [Table.keys, h.places_eq, List.map_flatMap]
  exact List.flatMap_congr fun a ha => (h.whole a ha).keys_places

theorem edges_eq (h : g.ConsistsOf parts) : g.edges.keys = parts.flatMap Part.edges := by
  rw [Table.keys, h.links_eq, List.map_flatMap]
  exact List.flatMap_congr fun a ha => (h.whole a ha).keys_links

theorem get?_vertices (h : g.ConsistsOf parts) (ha : a ∈ parts) {v : Nat × StopId}
    (hv : v ∈ a.places) : g.vertices.get? v.1 = some v.2 := by
  refine Table.mem_entries_iff.mp ?_
  rw [h.places_eq]
  exact List.mem_flatMap_of_mem ha hv

theorem contains_vertices (h : g.ConsistsOf parts) (ha : a ∈ parts) {v : Nat}
    (hv : v ∈ a.vertices) : g.vertices.contains v = true := by
  rw [Table.contains, Option.isSome_iff_exists, ← Table.mem_keys_iff, h.vertices_eq]
  exact List.mem_flatMap_of_mem ha hv

theorem contains_edges (h : g.ConsistsOf parts) (ha : a ∈ parts) {e : Nat} (he : e ∈ a.edges) :
    g.edges.contains e = true := by
  rw [Table.contains, Option.isSome_iff_exists, ← Table.mem_keys_iff, h.edges_eq]
  exact List.mem_flatMap_of_mem ha he

/-- **Linking a pattern adds its part.** -/
theorem link (h : g.ConsistsOf parts) (hg : g.Counts) (hnew : id ∉ parts.map Part.pattern)
    (stops : List StopId) : (g.link id stops).2.2.ConsistsOf (parts ++ [g.partOf id stops]) := by
  obtain ⟨hplaces, hlinks, hwhole, -⟩ := link_entries hg id stops
  refine ⟨?_, ?_, fun a ha => ?_, ?_⟩
  · rw [hplaces, h.places_eq, List.flatMap_append, List.flatMap_singleton]
  · rw [hlinks, h.links_eq, List.flatMap_append, List.flatMap_singleton]
  · rcases List.mem_append.mp ha with ha | ha
    · exact h.whole a ha
    · exact List.mem_singleton.mp ha ▸ hwhole
  · rw [List.map_append]
    refine List.nodup_append.mpr ⟨h.nodup, List.pairwise_singleton _ _, fun p hp q hq => ?_⟩
    rw [List.mem_singleton.mp hq]
    rintro rfl
    exact hnew hp

/-- **Without its vertices and edges a part is gone**, and no other is touched. -/
theorem erase (h : g.ConsistsOf parts) (ha : a ∈ parts) {g' : Graph}
    (hvertices : g'.vertices = a.vertices.foldl Table.erase g.vertices)
    (hedges : g'.edges = a.edges.foldl Table.erase g.edges) :
    g'.ConsistsOf (parts.filter fun b => b.pattern != a.pattern) where
  places_eq := by
    rw [hvertices, Table.entries_foldl_erase, h.places_eq]
    exact filter_flatMap_entries (fun b hb => (h.whole b hb).keys_places)
      (h.vertices_eq ▸ g.vertices.nodup_keys) h.nodup ha
  links_eq := by
    rw [hedges, Table.entries_foldl_erase, h.links_eq]
    exact filter_flatMap_entries (fun b hb => (h.whole b hb).keys_links)
      (h.edges_eq ▸ g.edges.nodup_keys) h.nodup ha
  whole b hb := h.whole b (List.mem_of_mem_filter hb)
  nodup := h.nodup.sublist (List.filter_sublist.map _)

/-! ### Edges and hops -/

/-- Both ends of an edge are vertices. -/
theorem contains_endpoints (h : g.ConsistsOf parts) {e : Nat} {edge : Edge}
    (hedge : g.edges.get? e = some edge) :
    g.vertices.contains edge.source = true ∧ g.vertices.contains edge.target = true := by
  have hmem := Table.mem_entries_iff.mpr hedge
  rw [h.links_eq] at hmem
  obtain ⟨a, ha, hlink⟩ := List.mem_flatMap.mp hmem
  obtain ⟨v, hv, rfl⟩ := List.mem_map.mp (List.of_mem_zip hlink).2
  obtain ⟨hsource, htarget⟩ := List.of_mem_zip hv
  exact ⟨h.contains_vertices ha hsource, h.contains_vertices ha (List.mem_of_mem_tail htarget)⟩

/-- Neighbours among vertices lie at stops that are neighbours. -/
theorem filterMap_neighbours {at? : Nat → Option StopId} : ∀ {vertices : List Nat}
    {stops : List StopId}, vertices.length = stops.length →
      (∀ v ∈ vertices.zip stops, at? v.1 = some v.2) →
        ((vertices.zip vertices.tail).filterMap fun v =>
          match at? v.1, at? v.2 with
          | some source, some target => some (source, target)
          | _, _ => none) = stops.zip stops.tail
  | [], [], _, _ => rfl
  | [_], [_], _, _ => rfl
  | v :: w :: rest, s :: t :: others, hlength, hat => by
    have hv : at? v = some s := hat (v, s) List.mem_cons_self
    have hw : at? w = some t := hat (w, t) (List.mem_cons_of_mem _ List.mem_cons_self)
    have hlength' : (w :: rest).length = (t :: others).length := Nat.succ.inj hlength
    have ih := filterMap_neighbours hlength' fun x hx => hat x (List.mem_cons_of_mem _ hx)
    rw [List.tail_cons, List.zip_cons_cons, List.filterMap_cons, List.tail_cons,
      List.zip_cons_cons]
    simp only [hv, hw]
    exact congrArg _ ih

/-- The hops of a pattern, part by part. -/
theorem hops_eq_flatMap (h : g.ConsistsOf parts) (id : PatternId) : g.hops id =
    parts.flatMap fun a => if a.pattern = id then a.stops.zip a.stops.tail else [] := by
  rw [hops, Table.values, h.links_eq, List.map_flatMap, List.filterMap_flatMap]
  refine List.flatMap_congr fun a ha => ?_
  rw [(h.whole a ha).values_links, List.filterMap_map]
  by_cases hid : a.pattern = id
  · rw [if_pos hid]
    simp only [Function.comp_def, hid, if_true]
    exact filterMap_neighbours (h.whole a ha).vertices fun v hv => h.get?_vertices ha hv
  · rw [if_neg hid]
    simp [hid]

/-- **The hops of a pattern are the pairs of neighbours among its stops.** -/
theorem hops_eq (h : g.ConsistsOf parts) (ha : a ∈ parts) :
    g.hops a.pattern = a.stops.zip a.stops.tail := by
  rw [h.hops_eq_flatMap]
  exact flatMap_of_pattern (fun b => b.stops.zip b.stops.tail) h.nodup ha

/-- A pattern without a part has no hops. -/
theorem hops_eq_nil (h : g.ConsistsOf parts) (hid : id ∉ parts.map Part.pattern) :
    g.hops id = [] := by
  rw [h.hops_eq_flatMap]
  refine List.flatMap_eq_nil_iff.mpr fun a ha => if_neg fun heq => hid ?_
  exact heq ▸ List.mem_map_of_mem ha

end ConsistsOf

end Graph

end LiveTimetable
