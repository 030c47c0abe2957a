import LiveTimetable.Feed.Alignment
import LiveTimetable.Feed.Filter
import Mathlib.Data.List.Chain

/-!
# Positions that run out

The positions of coherent patches go up by one. Whether they do is found out from the front on, and
the last position there is has none after it: a patch that follows one at it is a fault, not an
incoherence, unless an earlier step was wrong already.

* `TripUpdate.positionsStep_error_iff`: when the check of the positions meets a fault.
* `TripUpdate.isCoherent_filter_error_iff`: the same of an update that was cleared.
-/

namespace LiveTimetable

/-- One patch is for the position right before that of another. -/
def StopPatch.Precedes (p q : StopPatch) : Prop := p.position.toNat + 1 = q.position.toNat

/-- Going up by one from patch to patch, the positions come to the last one there is, and the list
goes on. -/
def PositionsRunOut (ps : List StopPatch) : Prop :=
  ∃ before p q after, ps = before ++ p :: q :: after ∧
    (before ++ [p]).IsChain StopPatch.Precedes ∧ p.position.toNat = 18446744073709551615

/-- Positions that step up run out if those after the first one do. -/
theorem positionsRunOut_cons_iff {p q : StopPatch} {rest : List StopPatch}
    (hlast : p.position.toNat ≠ 18446744073709551615) :
    PositionsRunOut (p :: q :: rest) ↔ p.Precedes q ∧ PositionsRunOut (q :: rest) := by
  constructor
  · rintro ⟨before, p', q', after, heq, hchain, hend⟩
    cases before with
    | nil =>
      cases heq
      exact absurd hend hlast
    | cons first before =>
      obtain ⟨rfl, hrest⟩ := List.cons.inj heq
      -- The patch after the first is the head of what is left of the chain.
      cases before with
      | nil =>
        cases hrest
        exact ⟨(List.isChain_cons_cons.mp hchain).1, [], q, q', after, rfl,
          (List.isChain_cons_cons.mp hchain).2, hend⟩
      | cons second before =>
        cases hrest
        exact ⟨(List.isChain_cons_cons.mp hchain).1, q :: before, p', q', after, rfl,
          (List.isChain_cons_cons.mp hchain).2, hend⟩
  · rintro ⟨hstep, before, p', q', after, heq, hchain, hend⟩
    refine ⟨p :: before, p', q', after, congrArg (p :: ·) heq, ?_, hend⟩
    cases before with
    | nil =>
      cases heq
      exact List.isChain_cons_cons.mpr ⟨hstep, hchain⟩
    | cons second before =>
      cases heq
      exact List.isChain_cons_cons.mpr ⟨hstep, hchain⟩

namespace TripUpdate

variable {u : TripUpdate} {fault : Fault}

/-- **The check of the positions meets a fault exactly if they run out.** -/
theorem positionsStep_error_iff : ∀ {ps : List StopPatch},
    positionsStep ps = .error fault ↔ fault = .overflow ∧ PositionsRunOut ps
  | [] => by
    refine iff_of_false nofun ?_
    rintro ⟨-, before, p, q, after, heq, -⟩
    exact List.append_ne_nil_of_right_ne_nil _ (List.cons_ne_nil _ _) heq.symm
  | [p] => by
    refine iff_of_false nofun ?_
    rintro ⟨-, before, p', q, after, heq, -⟩
    have hlength := congrArg List.length heq
    simp only [List.length_append, List.length_cons, List.length_nil] at hlength
    omega
  | p :: q :: rest => by
    have hlt := p.position.toNat_lt
    rw [positionsStep]
    by_cases hlast : p.position.toNat = 18446744073709551615
    · have hout : PositionsRunOut (p :: q :: rest) :=
        ⟨[], p, q, rest, rfl, List.isChain_singleton p, hlast⟩
      rw [and_iff_left hout, Checked.word64, if_neg (by omega)]
      exact Checked.error_eq_error_iff
    · rw [positionsRunOut_cons_iff hlast, Checked.word64, if_pos (by omega), Checked.ok_bind]
      by_cases hstep : p.position.toNat + 1 = q.position.toNat
      · rw [if_pos hstep, positionsStep_error_iff]
        exact and_congr_right fun _ => (and_iff_right hstep).symm
      · rw [if_neg hstep]
        exact iff_of_false nofun fun h => hstep h.2.1

/-! ## Cleared updates -/

theorem mem_of_mem_lastOfRuns : ∀ {ps : List StopPatch} {p : StopPatch}, p ∈ lastOfRuns ps → p ∈ ps
  | [], _, h => h
  | [_], _, h => h
  | first :: second :: rest, p, h => by
    rw [lastOfRuns] at h
    split at h
    · exact List.mem_cons_of_mem _ (mem_of_mem_lastOfRuns h)
    · rcases List.mem_cons.mp h with rfl | h
      · exact List.mem_cons_self
      · exact List.mem_cons_of_mem _ (mem_of_mem_lastOfRuns h)

theorem mem_of_mem_dropTrailing {α : Type} {keep : α → Bool} {xs : List α} {x : α}
    (h : x ∈ dropTrailing keep xs) : x ∈ xs :=
  List.mem_reverse.mp ((List.dropWhile_sublist _).subset (List.mem_reverse.mp h))

/-- A cleared update has patches of the update, all of them its own. -/
theorem mem_filter_all {p : StopPatch} (h : p ∈ (u.filter .all).patches) :
    p ∈ u.patches ∧ u.owns p = true :=
  List.mem_filter.mp (mem_of_mem_lastOfRuns (mem_of_mem_dropTrailing h))

/-- **A cleared update meets a fault exactly if its positions run out.** -/
theorem isCoherent_filter_error_iff : (u.filter .all).isCoherent = .error fault ↔
    fault = .overflow ∧ PositionsRunOut (u.filter .all).patches := by
  have hown : (u.filter .all).patches.all (u.filter .all).owns = true :=
    List.all_eq_true.mpr fun _ hp => (mem_filter_all hp).2
  rw [isCoherent, if_pos hown]
  exact positionsStep_error_iff

end TripUpdate

end LiveTimetable
