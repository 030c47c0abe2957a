import LiveTimetable.Timetable.Passage

/-!
# The earliest and the latest of some passages

Two ways to pick a passage: out of a list in any order, by comparing one after another, and out of
a set, which is walked in order. Both find the **first** passage in an order, and there is only one
(`Passage.IsFirst.unique`). The earliest passage is the first one by `NotAfter`, the latest is the
first one by the converse.
-/

namespace LiveTimetable.Passage

/-- A passage is not after another one: by time, and at one time by position. -/
def NotAfter (p q : Passage) : Prop := p.time < q.time ∨ p.time = q.time ∧ p.trip ≤ q.trip

/-- The first, in the order `R`, of the passages with a property; none if no passage has it. -/
def IsFirst (R : Passage → Passage → Prop) (P : Passage → Prop) : Option Passage → Prop
  | none => ∀ p, ¬ P p
  | some p => P p ∧ ∀ q, P q → R p q

/-- The earliest passage with a property, at one time the one with the lowest position. -/
abbrev IsEarliest : (Passage → Prop) → Option Passage → Prop := IsFirst NotAfter

/-- The latest passage with a property, at one time the one with the highest position. -/
abbrev IsLatest : (Passage → Prop) → Option Passage → Prop := IsFirst fun p q => q.NotAfter p

variable {R : Passage → Passage → Prop} {P Q : Passage → Prop} {a b c p q : Passage}
  {ps : List Passage}

/-! ## The order -/

theorem compare_eq_lt_iff :
    compare a b = .lt ↔ a.time < b.time ∨ a.time = b.time ∧ a.trip < b.trip := by
  show (compare a.time b.time).then (compare a.trip b.trip) = .lt ↔ _
  rw [Ordering.then_eq_lt, Std.compare_eq_lt, Std.compare_eq_iff_eq, Std.compare_eq_lt]

theorem NotAfter.refl (p : Passage) : p.NotAfter p := Or.inr ⟨rfl, Nat.le_refl _⟩

theorem NotAfter.trans (h : a.NotAfter b) (h' : b.NotAfter c) : a.NotAfter c := by
  rcases h with hlt | ⟨heq, hle⟩
  · rcases h' with hlt' | ⟨heq', -⟩
    · exact Or.inl (Int32.lt_trans hlt hlt')
    · exact Or.inl (heq' ▸ hlt)
  · rcases h' with hlt' | ⟨heq', hle'⟩
    · exact Or.inl (heq ▸ hlt')
    · exact Or.inr ⟨heq.trans heq', Nat.le_trans hle hle'⟩

theorem NotAfter.antisymm (h : a.NotAfter b) (h' : b.NotAfter a) : a = b := by
  rcases h with hlt | ⟨heq, hle⟩
  · rcases h' with hlt' | ⟨heq', -⟩
    · exact absurd (Int32.lt_trans hlt hlt') Int32.lt_irrefl
    · exact absurd (heq' ▸ hlt) Int32.lt_irrefl
  · rcases h' with hlt' | ⟨-, hle'⟩
    · exact absurd (heq ▸ hlt') Int32.lt_irrefl
    · cases a
      cases b
      cases heq
      cases Nat.le_antisymm hle hle'
      rfl

theorem notAfter_of_compare (h : compare a b = .lt) : a.NotAfter b := by
  rcases compare_eq_lt_iff.mp h with hlt | ⟨heq, hlt⟩
  · exact Or.inl hlt
  · exact Or.inr ⟨heq, Nat.le_of_lt hlt⟩

theorem notAfter_of_not_compare (h : compare a b ≠ .lt) : b.NotAfter a := by
  rw [ne_eq, compare_eq_lt_iff, not_or, not_and] at h
  obtain ⟨htime, htrip⟩ := h
  rcases Int32.le_iff_lt_or_eq.mp (Int32.not_lt.mp htime) with hlt | heq
  · exact Or.inl hlt
  · exact Or.inr ⟨heq, Nat.le_of_not_lt (htrip heq.symm)⟩

/-! ## First passages -/

/-- Two first passages are the same. -/
theorem IsFirst.unique (hR : ∀ p q, R p q → R q p → p = q) {d d' : Option Passage}
    (h : IsFirst R P d) (h' : IsFirst R P d') : d = d' := by
  cases d with
  | none =>
    cases d' with
    | none => rfl
    | some q => exact absurd h'.1 (h q)
  | some p =>
    cases d' with
    | none => exact absurd h.1 (h' p)
    | some q => rw [hR p q (h.2 q h'.1) (h'.2 p h.1)]

theorem IsFirst.congr (hP : ∀ p, P p ↔ Q p) {d : Option Passage} (h : IsFirst R P d) :
    IsFirst R Q d := by
  have hPQ : P = Q := funext fun p => propext (hP p)
  exact hPQ ▸ h

/-- In a list that is in order the first passage is the one that is found first. -/
theorem isFirst_find? (hrefl : ∀ p, R p p) (hps : ps.Pairwise R) (f : Passage → Bool) :
    IsFirst R (fun p => p ∈ ps ∧ f p = true) (ps.find? f) := by
  induction ps with
  | nil => exact fun p hp => List.not_mem_nil hp.1
  | cons first rest ih =>
    obtain ⟨hfirst, hrest⟩ := List.pairwise_cons.mp hps
    by_cases hf : f first = true
    · rw [List.find?_cons_of_pos hf]
      refine ⟨⟨List.mem_cons_self, hf⟩, fun q hq => ?_⟩
      rcases List.mem_cons.mp hq.1 with rfl | hmem
      · exact hrefl q
      · exact hfirst q hmem
    · rw [List.find?_cons_of_neg hf]
      refine (ih hrest).congr fun p => ?_
      constructor
      · rintro ⟨hmem, hp⟩
        exact ⟨List.mem_cons_of_mem _ hmem, hp⟩
      · rintro ⟨hmem, hp⟩
        rcases List.mem_cons.mp hmem with rfl | hmem
        · exact absurd hp hf
        · exact ⟨hmem, hp⟩

/-- The last that is found is the first in the converse order. -/
theorem isFirst_getLast?_filter (hrefl : ∀ p, R p p) (hps : ps.Pairwise R) (f : Passage → Bool) :
    IsFirst (fun p q => R q p) (fun p => p ∈ ps ∧ f p = true) (ps.filter f).getLast? := by
  rw [List.getLast?_eq_head?_reverse, ← List.filter_reverse, List.head?_filter]
  have hreverse : ps.reverse.Pairwise fun p q => R q p := List.pairwise_reverse.mpr hps
  refine (isFirst_find? (R := fun p q => R q p) hrefl hreverse f).congr fun p => ?_
  rw [List.mem_reverse]

/-- To compare one after another, and to go on with the one that comes first, finds the first. -/
theorem isFirst_foldl (pick : Passage → Passage → Passage) (hrefl : ∀ p, R p p)
    (htrans : ∀ {a b c}, R a b → R b c → R a c)
    (hmem : ∀ a b, pick a b = a ∨ pick a b = b)
    (hpick : ∀ a b, R (pick a b) a ∧ R (pick a b) b) (ps : List Passage) (p : Passage) :
    IsFirst R (fun q => q ∈ p :: ps) (some (ps.foldl pick p)) := by
  induction ps generalizing p with
  | nil =>
    refine ⟨List.mem_singleton_self p, fun q hq => ?_⟩
    rw [List.mem_singleton.mp hq]
    exact hrefl p
  | cons next rest ih =>
    obtain ⟨hin, hleast⟩ := ih (pick p next)
    rw [List.foldl_cons]
    constructor
    · rcases List.mem_cons.mp hin with heq | hin
      · rcases hmem p next with hp | hn
        · rw [heq, hp]
          exact List.mem_cons_self
        · rw [heq, hn]
          exact List.mem_cons_of_mem _ List.mem_cons_self
      · exact List.mem_cons_of_mem _ (List.mem_cons_of_mem _ hin)
    · intro q hq
      have hstep := hleast (pick p next) List.mem_cons_self
      rcases List.mem_cons.mp hq with rfl | hq
      · exact htrans hstep (hpick q next).1
      · rcases List.mem_cons.mp hq with rfl | hq
        · exact htrans hstep (hpick p q).2
        · exact hleast q (List.mem_cons_of_mem _ hq)

/-! ## Out of a list -/

theorem isEarliest_earliest? (ps : List Passage) : IsEarliest (fun p => p ∈ ps) (earliest? ps) := by
  cases ps with
  | nil => exact fun p => List.not_mem_nil
  | cons p rest =>
    refine isFirst_foldl earlier NotAfter.refl NotAfter.trans (fun a b => ?_) (fun a b => ?_) rest p
    · unfold earlier
      by_cases h : compare b a = .lt
      · exact Or.inr (if_pos h)
      · exact Or.inl (if_neg h)
    · unfold earlier
      by_cases h : compare b a = .lt
      · rw [if_pos h]
        exact ⟨notAfter_of_compare h, NotAfter.refl b⟩
      · rw [if_neg h]
        exact ⟨NotAfter.refl a, notAfter_of_not_compare h⟩

theorem isLatest_latest? (ps : List Passage) : IsLatest (fun p => p ∈ ps) (latest? ps) := by
  cases ps with
  | nil => exact fun p => List.not_mem_nil
  | cons p rest =>
    refine isFirst_foldl (R := fun p q => q.NotAfter p) later NotAfter.refl
      (fun hab hbc => hbc.trans hab) (fun a b => ?_) (fun a b => ?_) rest p
    · unfold later
      by_cases h : compare a b = .lt
      · exact Or.inr (if_pos h)
      · exact Or.inl (if_neg h)
    · unfold later
      by_cases h : compare a b = .lt
      · rw [if_pos h]
        exact ⟨notAfter_of_compare h, NotAfter.refl b⟩
      · rw [if_neg h]
        exact ⟨NotAfter.refl a, notAfter_of_not_compare h⟩

/-! ## Out of a set -/

theorem mem_keys_setOf : p ∈ (setOf ps).keys ↔ p ∈ ps := by
  unfold setOf
  simp [Table.mem_keys_ofList]

theorem pairwise_keys_setOf (ps : List Passage) : (setOf ps).keys.Pairwise NotAfter :=
  (setOf ps).sorted_keys.imp notAfter_of_compare

theorem isEarliest_find?_setOf (ps : List Passage) (f : Passage → Bool) :
    IsEarliest (fun p => p ∈ ps ∧ f p = true) ((setOf ps).keys.find? f) :=
  (isFirst_find? NotAfter.refl (pairwise_keys_setOf ps) f).congr fun _ =>
    and_congr_left fun _ => mem_keys_setOf

theorem isLatest_getLast?_setOf (ps : List Passage) (f : Passage → Bool) :
    IsLatest (fun p => p ∈ ps ∧ f p = true) ((setOf ps).keys.filter f).getLast? :=
  (isFirst_getLast?_filter NotAfter.refl (pairwise_keys_setOf ps) f).congr fun _ =>
    and_congr_left fun _ => mem_keys_setOf

end LiveTimetable.Passage
