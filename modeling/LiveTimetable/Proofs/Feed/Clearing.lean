import LiveTimetable.Proofs.Feed.Positions
import Mathlib.Data.List.DropRight
import Mathlib.Data.List.SplitBy

/-!
# What is left of a cleared update

The cleanups of `TripUpdate.filter` in terms of the list that they begin with: patches for another
trip or date go, each maximal run of neighbours for one position leaves its last patch, and the
longest end of patches that say nothing goes (`TripUpdate.Leaves`).

* `TripUpdate.clearInPlace`: the cleanups as they edit one list. A repeated patch is exchanged with
  the one that was kept before it, so that the older of the two is taken out, and patches that say
  nothing are taken off the end one by one.
* `dedupBy_supersede`, `popWhile_eq`: that this leaves what `lastOfRuns` and `dropTrailing` do.
* `lastOfRuns_eq`, `isChain_lastOfRuns`: the last patches of all runs, and that no repeats are left.
* `TripUpdate.filter_filter`: a cleared update is clear.
* `TripUpdate.filter_all_of_isCoherent`: a coherent one that ends with news is clear as it is.
* `TripUpdate.clearing_exact`: all of this.
-/

namespace LiveTimetable

variable {ps : List StopPatch} {p q : StopPatch} {u : TripUpdate} {o : FilterOptions}

/-! ## Runs -/

/-- Of each maximal run of neighbours for one position, the last patch. -/
def newestOfRuns (ps : List StopPatch) : List StopPatch :=
  (ps.splitBy fun p q => p.position == q.position).filterMap List.getLast?

theorem lastOfRuns_cons_cons (p q : StopPatch) (rest : List StopPatch) :
    lastOfRuns (p :: q :: rest) =
      if p.position = q.position then lastOfRuns (q :: rest) else p :: lastOfRuns (q :: rest) := by
  rw [lastOfRuns]

/-- A patch for the position of the next one belongs to the run of that. -/
theorem splitBy_cons_of_rel {α : Type} (same : α → α → Bool) {a b : α} (rest : List α)
    (h : same a b = true) : ∃ run runs, (b :: rest).splitBy same = (b :: run) :: runs ∧
      (a :: b :: rest).splitBy same = (a :: b :: run) :: runs := by
  cases hsplit : (b :: rest).splitBy same with
  | nil => exact absurd (List.splitBy_eq_nil.mp hsplit) (List.cons_ne_nil b rest)
  | cons first runs =>
    obtain ⟨hflatten, hnil, hchain, hacross⟩ := List.splitBy_eq_iff.mp hsplit
    cases first with
    | nil => exact absurd List.mem_cons_self hnil
    | cons head run =>
      obtain ⟨rfl, -⟩ := List.cons.inj hflatten
      refine ⟨run, runs, rfl, List.splitBy_eq_iff.mpr ⟨?_, ?_, ?_, ?_⟩⟩
      · rw [hflatten]
        rfl
      · exact fun hmem =>
          hnil (List.mem_cons_of_mem _ ((List.mem_cons.mp hmem).resolve_left nofun))
      · intro other hother
        rcases List.mem_cons.mp hother with rfl | hother
        · exact List.isChain_cons_cons.mpr ⟨h, hchain _ List.mem_cons_self⟩
        · exact hchain _ (List.mem_cons_of_mem _ hother)
      · rw [List.isChain_cons] at hacross ⊢
        refine ⟨fun next hnext => ?_, hacross.2⟩
        obtain ⟨hrun, hne, hrel⟩ := hacross.1 next hnext
        exact ⟨List.cons_ne_nil _ _, hne, by rwa [List.getLast_cons hrun]⟩

/-- **One patch is left of each run, the last.** -/
theorem lastOfRuns_eq : ∀ ps : List StopPatch, lastOfRuns ps = newestOfRuns ps
  | [] => rfl
  | [_] => rfl
  | p :: q :: rest => by
    have ih := lastOfRuns_eq (q :: rest)
    rw [lastOfRuns_cons_cons, ih]
    unfold newestOfRuns
    split
    · rename_i hsame
      obtain ⟨run, runs, hrest, hall⟩ := splitBy_cons_of_rel
        (fun p q : StopPatch => p.position == q.position) rest (beq_iff_eq.mpr hsame)
      rw [hrest, hall]
      rfl
    · rename_i hdiffer
      have hsplit := List.splitBy_append_cons (l := [p]) (a := q) rest
        (r := fun p q => p.position == q.position) fun x hx => by
          cases hx
          exact beq_eq_false_iff_ne.mpr hdiffer
      rw [List.singleton_append] at hsplit
      rw [hsplit]
      rfl

theorem lastOfRuns_sublist : ∀ ps : List StopPatch, (lastOfRuns ps).Sublist ps
  | [] => .slnil
  | [_] => .refl _
  | p :: q :: rest => by
    have ih := lastOfRuns_sublist (q :: rest)
    rw [lastOfRuns_cons_cons]
    split
    · exact ih.cons p
    · exact ih.cons_cons p

theorem head?_lastOfRuns : ∀ (p : StopPatch) (rest : List StopPatch),
    ∃ kept, (lastOfRuns (p :: rest)).head? = some kept ∧ kept.position = p.position
  | p, [] => ⟨p, rfl, rfl⟩
  | p, q :: rest => by
    rw [lastOfRuns_cons_cons]
    split
    · rename_i hsame
      obtain ⟨kept, hkept, hposition⟩ := head?_lastOfRuns q rest
      exact ⟨kept, hkept, hposition.trans hsame.symm⟩
    · exact ⟨p, rfl, rfl⟩

/-- **No neighbours are left for one position.** -/
theorem isChain_lastOfRuns : ∀ ps : List StopPatch,
    (lastOfRuns ps).IsChain fun p q => p.position ≠ q.position
  | [] => List.isChain_nil
  | [p] => List.isChain_singleton p
  | p :: q :: rest => by
    have ih := isChain_lastOfRuns (q :: rest)
    rw [lastOfRuns_cons_cons]
    split
    · exact ih
    · rename_i hdiffer
      obtain ⟨kept, hkept, hposition⟩ := head?_lastOfRuns q rest
      refine List.isChain_cons.mpr ⟨fun next hnext => ?_, ih⟩
      cases hkept.symm.trans hnext
      rwa [hposition]

theorem lastOfRuns_of_isChain : ∀ {ps : List StopPatch},
    ps.IsChain (fun p q => p.position ≠ q.position) → lastOfRuns ps = ps
  | [], _ => rfl
  | [_], _ => rfl
  | p :: q :: rest, h => by
    obtain ⟨hdiffer, hrest⟩ := List.isChain_cons_cons.mp h
    rw [lastOfRuns_cons_cons, if_neg hdiffer, lastOfRuns_of_isChain hrest]

/-! ## The end of the list -/

/-- The list goes on behind `kept` with patches that say nothing, and `kept` does not end with
one. -/
structure LongestEnd (ps kept : List StopPatch) : Prop where
  rest_unknown : ∃ rest, ps = kept ++ rest ∧ ∀ p ∈ rest, p.status = .unknown
  last_known : ∀ p ∈ kept.getLast?, p.status ≠ .unknown

theorem dropTrailing_eq {α : Type} (p : α → Bool) (xs : List α) :
    dropTrailing p xs = xs.rdropWhile p := rfl

theorem longestEnd_dropTrailing (ps : List StopPatch) :
    LongestEnd ps (dropTrailing (fun p => p.status == .unknown) ps) := by
  rw [dropTrailing_eq]
  constructor
  · refine ⟨_, List.rdropWhile_append_rtakeWhile.symm, fun p hp => ?_⟩
    have hunknown := List.mem_rtakeWhile_imp hp
    exact beq_iff_eq.mp hunknown
  · intro p hp hunknown
    obtain ⟨hne, rfl⟩ := List.mem_getLast?_eq_getLast hp
    exact List.rdropWhile_last_not _ _ hne (beq_iff_eq.mpr hunknown)

theorem dropTrailing_of_last_known (h : ∀ p ∈ ps.getLast?, p.status ≠ .unknown) :
    dropTrailing (fun p => p.status == .unknown) ps = ps := by
  rw [dropTrailing_eq, List.rdropWhile_eq_self_iff]
  exact fun hne hunknown => h _ (List.getLast_mem_getLast? hne) (beq_iff_eq.mp hunknown)

/-! ## In place -/

/-- Goes along a list with the last element kept so far. `visit` looks at the next element and at
the kept one, says whether the next one is taken out, and may exchange the two before that. -/
def dedupFrom {α : Type} (visit : α → α → Bool × α × α) : α → List α → List α
  | kept, [] => [kept]
  | kept, next :: rest =>
    match visit next kept with
    | (true, _, kept) => dedupFrom visit kept rest
    | (false, next, kept) => kept :: dedupFrom visit next rest

/-- Takes elements out of a list that fall to the ones kept before them. -/
def dedupBy {α : Type} (visit : α → α → Bool × α × α) : List α → List α
  | [] => []
  | first :: rest => dedupFrom visit first rest

/-- A patch for the position of the kept one is exchanged with it, and what is then the next one is
taken out. -/
def supersede (next kept : StopPatch) : Bool × StopPatch × StopPatch :=
  if next.position = kept.position then (true, kept, next) else (false, next, kept)

theorem length_dropLast_lt {α : Type} {p : α → Bool} {xs : List α}
    (h : xs.getLast?.any p = true) : xs.dropLast.length < xs.length := by
  have hne : xs ≠ [] := fun hnil => by
    rw [hnil] at h
    cases h
  rw [List.length_dropLast]
  exact Nat.sub_one_lt (List.length_eq_zero_iff.not.mpr hne)

/-- Takes elements off the end one by one, as long as `p` holds of the last. -/
def popWhile {α : Type} (p : α → Bool) (xs : List α) : List α :=
  if h : xs.getLast?.any p = true then
    have := length_dropLast_lt h
    popWhile p xs.dropLast
  else xs
termination_by xs.length

/-- The cleanups as edits of one list, and how much shorter it has become; a fault if it has become
longer. -/
def TripUpdate.clearInPlace (u : TripUpdate) (o : FilterOptions) : Checked (TripUpdate × Nat) :=
  let patches := if o.dropForeign then u.patches.filter u.owns else u.patches
  let patches := if o.collapseRepeats then dedupBy supersede patches else patches
  let patches :=
    if o.dropTrailingUnknown then popWhile (fun p => p.status == .unknown) patches else patches
  if patches.length ≤ u.patches.length then
    .ok ({ u with patches := patches }, u.patches.length - patches.length)
  else .error .overflow

theorem dedupFrom_supersede : ∀ (kept : StopPatch) (rest : List StopPatch),
    dedupFrom supersede kept rest = lastOfRuns (kept :: rest)
  | kept, [] => rfl
  | kept, next :: rest => by
    rw [dedupFrom, supersede, lastOfRuns_cons_cons]
    by_cases hsame : kept.position = next.position
    · rw [if_pos hsame.symm, if_pos hsame]
      exact dedupFrom_supersede next rest
    · rw [if_neg fun h => hsame h.symm, if_neg hsame]
      exact congrArg (kept :: ·) (dedupFrom_supersede next rest)

/-- Taking out the older of two repeats leaves the last patch of each run. -/
theorem dedupBy_supersede : ∀ ps : List StopPatch, dedupBy supersede ps = lastOfRuns ps
  | [] => rfl
  | first :: rest => dedupFrom_supersede first rest

/-- Taking elements off the end one by one leaves out the longest end. -/
theorem popWhile_eq {α : Type} (p : α → Bool) (xs : List α) :
    popWhile p xs = dropTrailing p xs := by
  rw [dropTrailing_eq]
  induction xs using List.reverseRecOn with
  | nil =>
    rw [popWhile]
    rfl
  | append_singleton xs x ih =>
    rw [popWhile, List.rdropWhile_concat]
    by_cases h : p x = true
    · have hlast : (xs ++ [x]).getLast?.any p = true := by simpa using h
      rw [dif_pos hlast, if_pos h, ← ih]
      exact congrArg (popWhile p) List.dropLast_concat
    · have hlast : ¬ (xs ++ [x]).getLast?.any p = true := by simpa using h
      rw [dif_neg hlast, if_neg h]

/-! ## Cleared updates -/

namespace TripUpdate

/-- What the cleanups leave of an update, one after another: its own patches, of these the last of
each run for one position, and of these the list without its longest end of patches that say
nothing. -/
def Leaves (u : TripUpdate) (o : FilterOptions) (kept : List StopPatch) : Prop :=
  let own :=
    if o.dropForeign then u.patches.filter fun p => p.tripId = u.tripId ∧ p.date = u.date
    else u.patches
  let newest := if o.collapseRepeats then newestOfRuns own else own
  if o.dropTrailingUnknown then LongestEnd newest kept else kept = newest

theorem filter_owns_eq (u : TripUpdate) : u.patches.filter u.owns =
    u.patches.filter fun p => p.tripId = u.tripId ∧ p.date = u.date := by
  refine List.filter_congr fun p _ => ?_
  unfold owns
  rw [Bool.decide_and]
  rfl

theorem leaves_filter (u : TripUpdate) (o : FilterOptions) : u.Leaves o (u.filter o).patches := by
  unfold Leaves filter
  simp only [← filter_owns_eq, ← lastOfRuns_eq]
  split
  · exact longestEnd_dropTrailing _
  · rfl

theorem ite_sublist {α : Type} {b : Bool} {xs ys : List α} (h : ys.Sublist xs) :
    (if b then ys else xs).Sublist xs := by
  split
  · exact h
  · exact .refl xs

/-- Each cleanup only takes patches out. -/
theorem filter_sublist (u : TripUpdate) (o : FilterOptions) :
    (u.filter o).patches.Sublist u.patches :=
  (ite_sublist (List.rdropWhile_prefix _ _).sublist).trans
    ((ite_sublist (lastOfRuns_sublist _)).trans (ite_sublist List.filter_sublist))

/-- An update on which each cleanup has nothing to do stays as it is. -/
theorem filter_eq_self (hown : o.dropForeign = true → ∀ p ∈ u.patches, u.owns p = true)
    (hchain : o.collapseRepeats = true → u.patches.IsChain fun p q => p.position ≠ q.position)
    (hlast : o.dropTrailingUnknown = true → ∀ p ∈ u.patches.getLast?, p.status ≠ .unknown) :
    u.filter o = u := by
  have hfirst : (if o.dropForeign then u.patches.filter u.owns else u.patches) = u.patches := by
    split
    · rename_i h
      exact List.filter_eq_self.mpr (hown h)
    · rfl
  have hsecond : (if o.collapseRepeats then lastOfRuns u.patches else u.patches) = u.patches := by
    split
    · rename_i h
      exact lastOfRuns_of_isChain (hchain h)
    · rfl
  have hthird : (if o.dropTrailingUnknown then
      dropTrailing (fun p => p.status == .unknown) u.patches else u.patches) = u.patches := by
    split
    · rename_i h
      exact dropTrailing_of_last_known (hlast h)
    · rfl
  unfold filter
  simp only [hfirst, hsecond, hthird]

/-- **To clear in place comes to the same, and never meets a fault.** -/
theorem clearInPlace_eq (u : TripUpdate) (o : FilterOptions) :
    u.clearInPlace o = .ok (u.filter o, u.dropped o) := by
  have hlength := (filter_sublist u o).length_le
  unfold clearInPlace
  simp only [dedupBy_supersede, popWhile_eq]
  exact if_pos hlength

/-- **A cleared update is clear.** -/
theorem filter_filter (u : TripUpdate) (o : FilterOptions) :
    (u.filter o).filter o = u.filter o := by
  have hbegins : ∀ newest : List StopPatch, (if o.dropTrailingUnknown then
      dropTrailing (fun p => p.status == .unknown) newest else newest) <+: newest := by
    intro newest
    split
    · exact List.rdropWhile_prefix _ _
    · exact List.prefix_rfl
  refine filter_eq_self (fun hforeign p hp => ?_) (fun hrepeats => ?_) fun hunknown => ?_
  · have hmem := ((hbegins _).sublist.trans (ite_sublist (lastOfRuns_sublist _))).subset hp
    rw [if_pos hforeign] at hmem
    exact (List.mem_filter.mp hmem).2
  · refine List.IsChain.prefix ?_ (hbegins _)
    rw [if_pos hrepeats]
    exact isChain_lastOfRuns _
  · unfold filter
    simp only [hunknown]
    exact (longestEnd_dropTrailing _).last_known

/-! ## Coherent updates -/

/-- The check of the positions succeeds exactly if each patch is for the position right before that
of the next. -/
theorem positionsStep_eq_true_iff : ∀ {ps : List StopPatch},
    positionsStep ps = .ok true ↔ ps.IsChain StopPatch.Precedes
  | [] => iff_of_true rfl List.isChain_nil
  | [p] => iff_of_true rfl (List.isChain_singleton p)
  | p :: q :: rest => by
    have hlt := q.position.toNat_lt
    rw [positionsStep, List.isChain_cons_cons, ← positionsStep_eq_true_iff, Checked.bind_eq_ok_iff]
    unfold Checked.word64 StopPatch.Precedes
    constructor
    · rintro ⟨next, hnext, hrest⟩
      split at hnext
      · cases hnext
        split at hrest
        · rename_i hstep
          exact ⟨hstep, hrest⟩
        · cases hrest
      · cases hnext
    · rintro ⟨hstep, hrest⟩
      exact ⟨_, if_pos (by omega), (if_pos hstep).trans hrest⟩

/-- **A coherent update that ends with news is clear as it is.** -/
theorem filter_all_of_isCoherent (hcoherent : u.isCoherent = .ok true)
    (hlast : ∀ p ∈ u.patches.getLast?, p.status ≠ .unknown) : u.filter .all = u := by
  unfold isCoherent at hcoherent
  split at hcoherent
  · rename_i hown
    refine filter_eq_self (fun _ => List.all_eq_true.mp hown) (fun _ => ?_) fun _ => hlast
    refine (positionsStep_eq_true_iff.mp hcoherent).imp fun {p q} hstep hsame => ?_
    unfold StopPatch.Precedes at hstep
    rw [hsame] at hstep
    omega
  · cases hcoherent

/-- **What the cleanups leave.** Clearing an update in place meets no fault and answers with the
cleared update and the number of patches that were taken out.

* The patches that are left are told by `Leaves`. They are in their old order and unchanged, and so
  is everything else about the update.
* To clear it again takes nothing out.
* All cleanups together leave a coherent update as it is, unless it ends with a patch that says
  nothing. -/
theorem clearing_exact (u : TripUpdate) (o : FilterOptions) :
    u.clearInPlace o = .ok (u.filter o, u.dropped o) ∧
    u.Leaves o (u.filter o).patches ∧
    u.filter o = { u with patches := (u.filter o).patches } ∧
    (u.filter o).patches.Sublist u.patches ∧
    (u.filter o).patches.length + u.dropped o = u.patches.length ∧
    (u.filter o).filter o = u.filter o ∧ (u.filter o).dropped o = 0 ∧
    (u.isCoherent = .ok true → (∀ p ∈ u.patches.getLast?, p.status ≠ .unknown) →
      u.filter .all = u) := by
  have hsublist := filter_sublist u o
  have hagain := filter_filter u o
  refine ⟨clearInPlace_eq u o, leaves_filter u o, rfl, hsublist, ?_, hagain, ?_,
    filter_all_of_isCoherent⟩
  · exact Nat.add_sub_cancel' hsublist.length_le
  · rw [dropped, hagain, Nat.sub_self]

/-- Two patches in a row, for the stops `x` and `y`, the second with a prediction. -/
def coherentNews : TripUpdate :=
  let date : ServiceDate := ⟨2024, 9, 1, by decide⟩
  .modifying ⟨"a", "t"⟩ 0 date
    [.ofTimes ⟨"a", "t"⟩ ⟨"a", "x"⟩ 0 .unknown date none none,
      .ofTimes ⟨"a", "t"⟩ ⟨"a", "y"⟩ 1 .predicted date (some 210) none]

/-- They are coherent and end with news, so they stay as they are. -/
theorem clearing_exact_coherentNews :
    coherentNews.isCoherent = .ok true ∧
    (∀ p ∈ coherentNews.patches.getLast?, p.status ≠ .unknown) ∧
    coherentNews.filter .all = coherentNews ∧
    coherentNews.clearInPlace .all = .ok (coherentNews, 0) := by
  have hcoherent : coherentNews.isCoherent = .ok true := by decide
  have hlast : ∀ p ∈ coherentNews.patches.getLast?, p.status ≠ .unknown := by decide
  obtain ⟨hclear, -, -, -, hcount, -, -, hsame⟩ := clearing_exact coherentNews .all
  have hfilter := hsame hcoherent hlast
  rw [hfilter] at hclear hcount
  have hnothing : coherentNews.dropped .all = 0 := Nat.add_eq_left.mp hcount
  exact ⟨hcoherent, hlast, hfilter, hnothing ▸ hclear⟩

end TripUpdate

end LiveTimetable
