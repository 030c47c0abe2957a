/-!
# Tables: association lists in strictly increasing key order

A table holds at most one value per key, and holds its entries sorted by key. The order is part
of the type, so a table is determined by what it answers (`Table.ext_get?`): two tables that give
every key the same value are equal, whatever the history that led to them, and walking a table
visits its keys in their order.

The view of a table is `get?`; each operation says what it does to that view:

* `get?_empty`, `get?_insert`, `get?_erase`, `get?_foldl_erase`, `get?_filter`, `get?_map`.
* `mem_entries_iff`: the entries are the pairs that `get?` answers, and `mem_keys_iff` the keys
  those that it knows.
-/

namespace LiveTimetable

/-- A finite map from `K` to `V`, its entries in strictly increasing key order. -/
structure Table (K V : Type) [Ord K] where
  /-- The entries, in key order. -/
  entries : List (K × V)
  /-- Keys strictly increase. -/
  sorted : entries.Pairwise fun a b => compare a.1 b.1 = .lt
  deriving DecidableEq

namespace Table

variable {K V W : Type} [Ord K]

/-! ## Entry lists -/

/-- The value that an entry list holds for `k`. -/
def lookup (k : K) : List (K × V) → Option V
  | [] => none
  | (k', v) :: rest => if compare k k' = .eq then some v else lookup k rest

/-- Writes `v` for `k` into a sorted entry list. -/
def put (k : K) (v : V) : List (K × V) → List (K × V)
  | [] => [(k, v)]
  | (k', v') :: rest =>
    match compare k k' with
    | .lt => (k, v) :: (k', v') :: rest
    | .eq => (k, v) :: rest
    | .gt => (k', v') :: put k v rest

theorem mem_put {k : K} {v : V} {es : List (K × V)} {e : K × V} (h : e ∈ put k v es) :
    e = (k, v) ∨ e ∈ es := by
  induction es with
  | nil => exact Or.inl (List.mem_singleton.mp h)
  | cons x rest ih =>
    obtain ⟨k', v'⟩ := x
    simp only [put] at h
    split at h
    · rcases List.mem_cons.mp h with h | h
      · exact Or.inl h
      · exact Or.inr h
    · rcases List.mem_cons.mp h with h | h
      · exact Or.inl h
      · exact Or.inr (List.mem_cons_of_mem _ h)
    · rcases List.mem_cons.mp h with h | h
      · exact Or.inr (h ▸ List.mem_cons_self)
      · exact (ih h).imp_right (List.mem_cons_of_mem _)

theorem sorted_put [Std.TransOrd K] [Std.LawfulEqOrd K] (k : K) (v : V) {es : List (K × V)}
    (h : es.Pairwise fun a b => compare a.1 b.1 = .lt) :
    (put k v es).Pairwise fun a b => compare a.1 b.1 = .lt := by
  induction es with
  | nil => simp [put]
  | cons x rest ih =>
    obtain ⟨k', v'⟩ := x
    obtain ⟨hlt, hrest⟩ := List.pairwise_cons.mp h
    simp only [put]
    split
    · rename_i hk
      refine List.pairwise_cons.mpr ⟨fun e he => ?_, h⟩
      rcases List.mem_cons.mp he with rfl | he
      · exact hk
      · exact Std.TransCmp.lt_trans hk (hlt e he)
    · rename_i hk
      obtain rfl := Std.LawfulEqCmp.eq_of_compare hk
      exact List.pairwise_cons.mpr ⟨hlt, hrest⟩
    · rename_i hk
      refine List.pairwise_cons.mpr ⟨fun e he => ?_, ih hrest⟩
      rcases mem_put he with rfl | he
      · exact Std.OrientedCmp.lt_of_gt hk
      · exact hlt e he

/-! ## Operations -/

/-- The table without entries. -/
def empty : Table K V := ⟨[], List.Pairwise.nil⟩

instance : EmptyCollection (Table K V) := ⟨empty⟩

instance : Inhabited (Table K V) := ⟨empty⟩

/-- The value held for `k`. -/
def get? (t : Table K V) (k : K) : Option V := lookup k t.entries

/-- Whether a value is held for `k`. -/
def contains (t : Table K V) (k : K) : Bool := (t.get? k).isSome

/-- Writes `v` for `k`, over any earlier value. -/
def insert [Std.TransOrd K] [Std.LawfulEqOrd K] (t : Table K V) (k : K) (v : V) : Table K V :=
  ⟨put k v t.entries, sorted_put k v t.sorted⟩

/-- The entries that satisfy `p`. -/
def filter (t : Table K V) (p : K → V → Bool) : Table K V :=
  ⟨t.entries.filter fun e => p e.1 e.2, t.sorted.filter _⟩

/-- The table without `k`. -/
def erase (t : Table K V) (k : K) : Table K V := t.filter fun k' _ => compare k k' != .eq

/-- Every value changed by `f`, under the same keys. -/
def map (t : Table K V) (f : K → V → W) : Table K W :=
  ⟨t.entries.map fun e => (e.1, f e.1 e.2), List.pairwise_map.mpr t.sorted⟩

/-- The number of entries. -/
def size (t : Table K V) : Nat := t.entries.length

/-- Whether there are no entries. -/
def isEmpty (t : Table K V) : Bool := t.entries.isEmpty

/-- The keys, in order. -/
def keys (t : Table K V) : List K := t.entries.map Prod.fst

/-- The values, in the order of their keys. -/
def values (t : Table K V) : List V := t.entries.map Prod.snd

/-- The table of the given pairs; of two pairs with one key the later counts. -/
def ofList [Std.TransOrd K] [Std.LawfulEqOrd K] (es : List (K × V)) : Table K V :=
  es.foldl (fun t e => t.insert e.1 e.2) empty

/-! ## Lemmas -/

theorem compare_refl [Std.TransOrd K] (k : K) : compare k k = .eq := Std.ReflCmp.compare_self

@[simp] theorem get?_empty (k : K) : (empty : Table K V).get? k = none := rfl

section Lawful

variable [Std.TransOrd K] [Std.LawfulEqOrd K]

theorem lookup_eq_some_iff {k : K} {v : V} {es : List (K × V)}
    (h : es.Pairwise fun a b => compare a.1 b.1 = .lt) : lookup k es = some v ↔ (k, v) ∈ es := by
  induction es with
  | nil => simp [lookup]
  | cons e rest ih =>
    obtain ⟨k', v'⟩ := e
    obtain ⟨hlt, hrest⟩ := List.pairwise_cons.mp h
    rw [lookup, List.mem_cons]
    by_cases hk : k = k'
    · subst hk
      rw [if_pos (compare_refl _)]
      constructor
      · rintro ⟨⟩
        exact Or.inl rfl
      · rintro (h | h)
        · rw [(Prod.mk.inj h).2]
        · have := hlt _ h
          rw [compare_refl] at this
          cases this
    · rw [if_neg fun hc => hk (Std.LawfulEqCmp.eq_of_compare hc), ih hrest]
      exact ⟨Or.inr, fun h => h.resolve_left fun he => hk (Prod.mk.inj he).1⟩

/-- The entries of a table are the pairs that `get?` answers. -/
theorem mem_entries_iff {t : Table K V} {k : K} {v : V} :
    (k, v) ∈ t.entries ↔ t.get? k = some v :=
  (lookup_eq_some_iff t.sorted).symm

theorem lookup_put [DecidableEq K] (k : K) (v : V) (q : K) (es : List (K × V)) :
    lookup q (put k v es) = if q = k then some v else lookup q es := by
  induction es with
  | nil =>
    by_cases hq : q = k
    · simp [put, lookup, hq]
    · simp [put, lookup, hq]
  | cons e rest ih =>
    obtain ⟨k', v'⟩ := e
    simp only [put]
    split
    · by_cases hq : q = k
      · simp [lookup, hq]
      · simp [lookup, hq]
    · rename_i hk
      obtain rfl := Std.LawfulEqCmp.eq_of_compare hk
      by_cases hq : q = k
      · simp [lookup, hq]
      · simp [lookup, hq]
    · rename_i hk
      have hne : k ≠ k' := by
        rintro rfl
        rw [compare_refl] at hk
        cases hk
      simp only [lookup, ih]
      by_cases hq : q = k
      · subst hq
        simp [hne]
      · simp [hq]

/-- Reading after a write. -/
theorem get?_insert [DecidableEq K] (t : Table K V) (k : K) (v : V) (q : K) :
    (t.insert k v).get? q = if q = k then some v else t.get? q :=
  lookup_put k v q t.entries

theorem get?_filter (t : Table K V) (p : K → V → Bool) (q : K) :
    (t.filter p).get? q = (t.get? q).filter (p q) := by
  apply Option.ext
  intro v
  rw [← mem_entries_iff, filter, List.mem_filter, mem_entries_iff, Option.filter_eq_some_iff]

/-- Reading after a removal. -/
theorem get?_erase [DecidableEq K] (t : Table K V) (k q : K) :
    (t.erase k).get? q = if q = k then none else t.get? q := by
  rw [erase, get?_filter]
  by_cases h : q = k
  · subst h
    simp
  · have : compare k q ≠ .eq := fun hc => h (Std.LawfulEqCmp.eq_of_compare hc).symm
    cases t.get? q <;> simp [h, this]

theorem contains_insert [DecidableEq K] (t : Table K V) (k : K) (v : V) (q : K) :
    (t.insert k v).contains q = true ↔ q = k ∨ t.contains q = true := by
  unfold contains
  rw [get?_insert]
  by_cases h : q = k
  · simp [h]
  · simp [h]

/-- Reading after several removals. -/
theorem get?_foldl_erase [DecidableEq K] (ks : List K) (t : Table K V) (q : K) :
    (ks.foldl erase t).get? q = if q ∈ ks then none else t.get? q := by
  induction ks generalizing t with
  | nil => rfl
  | cons k rest ih =>
    rw [List.foldl_cons, ih, get?_erase]
    by_cases hk : q = k
    · simp [hk]
    · simp [hk]

theorem mem_keys_iff {t : Table K V} {k : K} : k ∈ t.keys ↔ ∃ v, t.get? k = some v := by
  unfold keys
  rw [List.mem_map]
  constructor
  · rintro ⟨⟨_, v⟩, he, rfl⟩
    exact ⟨v, mem_entries_iff.mp he⟩
  · rintro ⟨v, hv⟩
    exact ⟨(k, v), mem_entries_iff.mpr hv, rfl⟩

theorem mem_keys_foldl_erase [DecidableEq K] {ks : List K} {t : Table K V} {k : K} :
    k ∈ (ks.foldl erase t).keys ↔ k ∈ t.keys ∧ k ∉ ks := by
  simp only [mem_keys_iff, get?_foldl_erase]
  by_cases hk : k ∈ ks
  · simp [hk]
  · simp [hk]

omit [Std.LawfulEqOrd K] in
theorem put_of_forall_lt {k : K} (v : V) {es : List (K × V)}
    (h : ∀ e ∈ es, compare e.1 k = .lt) : put k v es = es ++ [(k, v)] := by
  induction es with
  | nil => rfl
  | cons e rest ih =>
    have hgt : compare k e.1 = .gt := Std.OrientedCmp.gt_of_lt (h e List.mem_cons_self)
    rw [put, hgt, List.cons_append, ih fun e' he => h e' (List.mem_cons_of_mem _ he)]

/-- A key after all others comes last. -/
theorem entries_insert_of_forall_lt (t : Table K V) {k : K} (v : V)
    (h : ∀ k' ∈ t.keys, compare k' k = .lt) : (t.insert k v).entries = t.entries ++ [(k, v)] :=
  put_of_forall_lt v fun _ he => h _ (List.mem_map_of_mem he)

omit [Std.TransOrd K] in
/-- The entries after several removals. -/
theorem entries_foldl_erase [DecidableEq K] (ks : List K) (t : Table K V) :
    (ks.foldl erase t).entries = t.entries.filter fun e => decide (e.1 ∉ ks) := by
  induction ks generalizing t with
  | nil => exact (List.filter_eq_self.mpr fun e _ => decide_eq_true List.not_mem_nil).symm
  | cons k rest ih =>
    rw [List.foldl_cons, ih, erase, filter, List.filter_filter]
    refine List.filter_congr fun e _ => ?_
    by_cases hk : e.1 = k
    · simp [hk]
    · have hne : compare k e.1 ≠ .eq := fun hc => hk (Std.LawfulEqCmp.eq_of_compare hc).symm
      simp [hk, hne]

omit [Std.TransOrd K] [Std.LawfulEqOrd K] in
theorem sorted_keys (t : Table K V) : t.keys.Pairwise fun a b => compare a b = .lt :=
  List.pairwise_map.mpr t.sorted

omit [Std.LawfulEqOrd K] in
theorem nodup_keys (t : Table K V) : t.keys.Nodup := by
  refine t.sorted_keys.imp fun {a b} hlt heq => ?_
  rw [heq, compare_refl] at hlt
  cases hlt

/-- The keys that a list of pairs leaves in a table: those of the pairs, and those before. -/
theorem contains_foldl_insert [DecidableEq K] (es : List (K × V)) (t : Table K V) (k : K) :
    (es.foldl (fun t e => t.insert e.1 e.2) t).contains k = true ↔
      (∃ v, (k, v) ∈ es) ∨ t.contains k = true := by
  induction es generalizing t with
  | nil => simp
  | cons e rest ih =>
    obtain ⟨k', v'⟩ := e
    rw [List.foldl_cons, ih, contains_insert]
    constructor
    · rintro (⟨v, hv⟩ | rfl | hold)
      · exact Or.inl ⟨v, List.mem_cons_of_mem _ hv⟩
      · exact Or.inl ⟨v', List.mem_cons_self⟩
      · exact Or.inr hold
    · rintro (⟨v, hv⟩ | hold)
      · rcases List.mem_cons.mp hv with heq | hv
        · exact Or.inr (Or.inl (Prod.mk.inj heq).1)
        · exact Or.inl ⟨v, hv⟩
      · exact Or.inr (Or.inr hold)

theorem mem_keys_ofList [DecidableEq K] {es : List (K × V)} {k : K} :
    k ∈ (ofList es).keys ↔ ∃ v, (k, v) ∈ es := by
  rw [mem_keys_iff, ← Option.isSome_iff_exists]
  show (ofList es).contains k = true ↔ _
  unfold ofList
  rw [contains_foldl_insert]
  simp [contains]

/-- Pairs that have a key each of their own all come into the table. -/
theorem get?_foldl_insert [DecidableEq K] {es : List (K × V)} (hkeys : (es.map Prod.fst).Nodup)
    {t : Table K V} (hfresh : ∀ e ∈ es, t.get? e.1 = none) {k : K} {v : V} :
    (es.foldl (fun t e => t.insert e.1 e.2) t).get? k = some v ↔
      (k, v) ∈ es ∨ t.get? k = some v := by
  induction es generalizing t with
  | nil => simp
  | cons e rest ih =>
    obtain ⟨hnew, hrest⟩ := List.nodup_cons.mp hkeys
    have hne : ∀ e' ∈ rest, e'.1 ≠ e.1 := fun e' he' heq =>
      hnew (List.mem_map.mpr ⟨e', he', heq⟩)
    have hfresh' : ∀ e' ∈ rest, (t.insert e.1 e.2).get? e'.1 = none := fun e' he' => by
      rw [get?_insert, if_neg (hne e' he')]
      exact hfresh e' (List.mem_cons_of_mem _ he')
    rw [List.foldl_cons, ih hrest hfresh', get?_insert, List.mem_cons, or_comm (b := _ ∈ rest),
      or_assoc]
    refine or_congr Iff.rfl ?_
    obtain ⟨k', v'⟩ := e
    by_cases hk : k = k'
    · subst hk
      rw [if_pos rfl, hfresh _ List.mem_cons_self]
      simp [eq_comm]
    · simp [hk]

theorem mem_entries_ofList [DecidableEq K] {es : List (K × V)} (hkeys : (es.map Prod.fst).Nodup)
    {k : K} {v : V} : (k, v) ∈ (ofList es).entries ↔ (k, v) ∈ es := by
  rw [mem_entries_iff]
  exact (get?_foldl_insert hkeys fun _ _ => rfl).trans (or_iff_left nofun)

omit [Std.TransOrd K] [Std.LawfulEqOrd K] in
theorem get?_map (t : Table K V) (f : K → V → W) [Std.LawfulEqOrd K] (q : K) :
    (t.map f).get? q = (t.get? q).map (f q) := by
  obtain ⟨es, hs⟩ := t
  simp only [get?, map]
  clear hs
  induction es with
  | nil => rfl
  | cons e rest ih =>
    rw [List.map_cons, lookup, lookup]
    by_cases h : compare q e.1 = .eq
    · rw [if_pos h, if_pos h, Std.LawfulEqCmp.eq_of_compare h]
      rfl
    · rw [if_neg h, if_neg h]
      exact ih

omit [Std.LawfulEqOrd K] in
theorem entries_eq_of_mem_iff {es fs : List (K × V)}
    (he : es.Pairwise fun a b => compare a.1 b.1 = .lt)
    (hf : fs.Pairwise fun a b => compare a.1 b.1 = .lt)
    (h : ∀ k v, (k, v) ∈ es ↔ (k, v) ∈ fs) : es = fs := by
  induction es generalizing fs with
  | nil =>
    cases fs with
    | nil => rfl
    | cons f fs => exact absurd ((h f.1 f.2).mpr List.mem_cons_self) List.not_mem_nil
  | cons e es ih =>
    cases fs with
    | nil => exact absurd ((h e.1 e.2).mp List.mem_cons_self) List.not_mem_nil
    | cons f fs =>
      obtain ⟨hlte, hes⟩ := List.pairwise_cons.mp he
      obtain ⟨hltf, hfs⟩ := List.pairwise_cons.mp hf
      have hef : e = f := by
        rcases List.mem_cons.mp ((h e.1 e.2).mp List.mem_cons_self) with h1 | h1
        · exact h1
        rcases List.mem_cons.mp ((h f.1 f.2).mpr List.mem_cons_self) with h2 | h2
        · exact h2.symm
        have := Std.TransCmp.lt_trans (hltf _ h1) (hlte _ h2)
        rw [compare_refl] at this
        cases this
      subst hef
      congr 1
      refine ih hes hfs fun k v => ⟨fun hm => ?_, fun hm => ?_⟩
      · rcases List.mem_cons.mp ((h k v).mp (List.mem_cons_of_mem _ hm)) with h1 | h1
        · have := hlte _ hm
          rw [← h1, compare_refl] at this
          cases this
        · exact h1
      · rcases List.mem_cons.mp ((h k v).mpr (List.mem_cons_of_mem _ hm)) with h1 | h1
        · have := hltf _ hm
          rw [← h1, compare_refl] at this
          cases this
        · exact h1

/-- A table is determined by what it answers. -/
theorem ext_get? {s t : Table K V} (h : ∀ k, s.get? k = t.get? k) : s = t := by
  have hm : s.entries = t.entries :=
    entries_eq_of_mem_iff s.sorted t.sorted fun k v => by
      rw [mem_entries_iff, mem_entries_iff, h k]
  cases s
  cases t
  cases hm
  rfl

theorem map_insert [DecidableEq K] (t : Table K V) (k : K) (v : V) (f : V → W) :
    (t.insert k v).map (fun _ => f) = (t.map fun _ => f).insert k (f v) := by
  refine ext_get? fun q => ?_
  rw [get?_map, get?_insert, get?_insert, get?_map]
  split <;> rfl

end Lawful

end Table

/-- A finite set of keys. -/
abbrev KeySet (K : Type) [Ord K] := Table K Unit

end LiveTimetable
