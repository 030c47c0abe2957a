import LiveTimetable.Feed.Alignment
import Mathlib.Data.List.Nodup

/-!
# Unambiguous alignments

An update may begin wherever its patches match the stops (`TripUpdate.StartsAt`). It is aligned at
the place that its first patch names, if it may begin there, and else at the only place where it
may begin (`TripUpdate.AlignsAt`).

* `TripUpdate.searchStart?`: the search as it goes along the stops, which cuts a slice out of them
  for every place that it looks at and gives up at the second match.
* `TripUpdate.searchStart?_eq`: no slice reaches past the end, whatever position the first patch
  names, and the search finds what `startIn?` says.
* `TripUpdate.startIn?_eq_some_iff`: `startIn?` answers with a place exactly if the update aligns
  there.
* `TripUpdate.alignment_exact`: both, and that it has no answer exactly if the update aligns
  nowhere.
-/

namespace LiveTimetable

/-- The elements from one position up to another; a fault if these are out of order or past the
end. -/
def Checked.slice {α : Type} (xs : List α) (start stop : Nat) : Checked (List α) :=
  if start ≤ stop ∧ stop ≤ xs.length then .ok ((xs.take stop).drop start) else .error .outOfBounds

namespace TripUpdate

variable {u : TripUpdate} {stops : List StopId} {start : Nat} {starts : List Nat}

/-! ## Where an update may begin -/

/-- From `start` on there is room for the patches, and each is for the stop at its place. -/
structure StartsAt (u : TripUpdate) (stops : List StopId) (start : Nat) : Prop where
  room : start + u.patches.length ≤ stops.length
  same : ∀ i p, u.patches[i]? = some p → stops[start + i]? = some p.stopId

/-- The update may begin at `start`, and either its first patch says so, or it is wrong about the
place and there is no other. -/
def AlignsAt (u : TripUpdate) (stops : List StopId) (start : Nat) : Prop :=
  ∃ first, u.patches.head? = some first ∧ u.StartsAt stops start ∧
    (start = first.position.toNat ∨
      ¬ u.StartsAt stops first.position.toNat ∧ ∀ other, u.StartsAt stops other → other = start)

/-- The comparison of the stops tells where the update may begin, if there is room. -/
theorem startsAt_iff : u.StartsAt stops start ↔
    start + u.patches.length ≤ stops.length ∧ u.matchesAt stops start = true := by
  have hcompare : ∀ i, ((stops.drop start).take u.patches.length)[i]? =
      if i < u.patches.length then stops[start + i]? else none := fun i => by
    rw [List.getElem?_take, List.getElem?_drop]
  constructor
  · rintro ⟨hroom, hsame⟩
    refine ⟨hroom, beq_iff_eq.mpr (List.ext_getElem? fun i => ?_)⟩
    rw [hcompare, List.getElem?_map]
    split
    · rename_i hi
      have hp := List.getElem?_eq_getElem hi
      rw [hsame i _ hp, hp]
      rfl
    · rename_i hi
      rw [List.getElem?_eq_none (Nat.le_of_not_lt hi)]
      rfl
  · rintro ⟨hroom, hmatch⟩
    refine ⟨hroom, fun i p hp => ?_⟩
    have hi := (List.getElem?_eq_some_iff.mp hp).1
    have heq := hcompare i
    rw [beq_iff_eq.mp hmatch, List.getElem?_map, hp, if_pos hi] at heq
    exact heq.symm

/-- The places at which there is room are those of the search. -/
theorem mem_places_iff (hlength : u.patches.length ≤ stops.length) :
    start ∈ (List.range (stops.length - u.patches.length + 1)).filter (u.matchesAt stops) ↔
      u.StartsAt stops start := by
  rw [List.mem_filter, List.mem_range, startsAt_iff]
  exact and_congr_left fun _ => by omega

/-- A single place is left exactly if it is the only one where the update may begin. -/
theorem places_eq_singleton_iff (hlength : u.patches.length ≤ stops.length) :
    (List.range (stops.length - u.patches.length + 1)).filter (u.matchesAt stops) = [start] ↔
      u.StartsAt stops start ∧ ∀ other, u.StartsAt stops other → other = start := by
  simp only [← mem_places_iff hlength]
  constructor
  · intro h
    rw [h]
    exact ⟨List.mem_singleton_self start, fun _ => List.mem_singleton.mp⟩
  · rintro ⟨hmem, honly⟩
    refine List.perm_singleton.mp ((List.perm_ext_iff_of_nodup (List.nodup_range.filter _)
      (List.nodup_singleton start)).mpr fun other => ?_)
    rw [List.mem_singleton]
    exact ⟨honly other, fun h => h ▸ hmem⟩

/-- **There is an answer exactly where the update aligns.** -/
theorem startIn?_eq_some_iff : u.startIn? stops = some start ↔ u.AlignsAt stops start := by
  unfold startIn? AlignsAt
  cases hpatches : u.patches with
  | nil =>
    refine iff_of_false nofun ?_
    rintro ⟨_, h, -⟩
    cases h
  | cons first rest =>
    simp only [List.head?_cons, Option.some.injEq, exists_eq_left']
    rw [← hpatches]
    split
    · rename_i hshort
      refine iff_of_false nofun fun h => ?_
      have := h.1.room
      omega
    · rename_i hroom
      have hlength := Nat.le_of_not_lt hroom
      have hhint : first.position.toNat ≤ stops.length - u.patches.length ∧
          u.matchesAt stops first.position.toNat = true ↔
            u.StartsAt stops first.position.toNat := by
        rw [startsAt_iff]
        exact and_congr_left fun _ => by omega
      by_cases hstarts : u.StartsAt stops first.position.toNat
      · rw [if_pos (hhint.mpr hstarts), Option.some.injEq]
        constructor
        · rintro rfl
          exact ⟨hstarts, Or.inl rfl⟩
        · rintro ⟨-, heq | ⟨hnot, -⟩⟩
          · exact heq.symm
          · exact absurd hstarts hnot
      · rw [if_neg fun h => hstarts (hhint.mp h)]
        have hother : start = first.position.toNat → ¬ u.StartsAt stops start :=
          fun heq h => hstarts (heq ▸ h)
        trans (List.range (stops.length - u.patches.length + 1)).filter (u.matchesAt stops) =
          [start]
        · split
          · rename_i place hplaces
            rw [hplaces, Option.some.injEq, List.cons.injEq, and_iff_left rfl]
          · rename_i hplaces
            exact iff_of_false nofun (hplaces start)
        · rw [places_eq_singleton_iff hlength]
          constructor
          · rintro ⟨h, honly⟩
            exact ⟨h, Or.inr ⟨hstarts, honly⟩⟩
          · rintro ⟨h, heq | ⟨-, honly⟩⟩
            · exact absurd h (hother heq)
            · exact ⟨h, honly⟩

/-! ## The search along the stops -/

/-- Whether the slice of the stops from `start` on, as long as the patches, has their stops. -/
def sliceMatches (u : TripUpdate) (stops : List StopId) (start : Nat) : Checked Bool := do
  let slice ← Checked.slice stops start (← Checked.word64 (start + u.patches.length))
  return (u.patches.zip slice).all fun (p, stop) => p.stopId == stop

/-- Whether the update may begin where its first patch says. -/
def hintMatches (u : TripUpdate) (stops : List StopId) (first : StopPatch) : Checked Bool :=
  if first.position.toNat ≤ stops.length - u.patches.length then
    u.sliceMatches stops first.position.toNat
  else return false

/-- The next of the given places at which the update may begin, and the places after it. -/
def nextMatch? (u : TripUpdate) (stops : List StopId) :
    List Nat → Checked (Option (Nat × List Nat))
  | [] => .ok none
  | start :: rest => do
    if ← u.sliceMatches stops start then return some (start, rest) else u.nextMatch? stops rest

/-- The search: the place that the first patch names, and then all places from the front on, until
a second one matches. -/
def searchStart? (u : TripUpdate) (stops : List StopId) : Checked (Option Nat) :=
  match u.patches with
  | [] => .ok none
  | first :: _ =>
    if stops.length < u.patches.length then .ok none
    else do
      if ← u.hintMatches stops first then return some first.position.toNat
      else
        match ← u.nextMatch? stops (List.range (stops.length - u.patches.length + 1)) with
        | none => return none
        | some (found, rest) =>
          match ← u.nextMatch? stops rest with
          | none => return some found
          | some _ => return none

theorem all_zip_iff : ∀ {ps : List StopPatch} {slice : List StopId}, slice.length = ps.length →
    ((ps.zip slice).all fun (p, stop) => p.stopId == stop) = (slice == ps.map StopPatch.stopId)
  | [], [], _ => rfl
  | p :: ps, stop :: slice, h => by
    rw [List.zip_cons_cons, List.all_cons, List.map_cons, List.cons_beq_cons,
      all_zip_iff (Nat.succ.inj h), Bool.beq_comm (a := stop)]

section Search

variable (hwidth : stops.length < 18446744073709551616)

include hwidth

/-- Where there is room the slice lies within the stops. -/
theorem sliceMatches_eq (hroom : start + u.patches.length ≤ stops.length) :
    u.sliceMatches stops start = .ok (u.matchesAt stops start) := by
  have hlength : ((stops.drop start).take u.patches.length).length = u.patches.length := by
    rw [List.length_take, List.length_drop]
    omega
  unfold sliceMatches Checked.word64 Checked.slice
  rw [if_pos (by omega), Checked.ok_bind, if_pos (by omega), Checked.ok_bind, List.drop_take,
    Nat.add_sub_cancel_left, Checked.pure_eq_ok, all_zip_iff hlength]
  rfl

/-- The place that the first patch names is only looked at if there is room. -/
theorem hintMatches_eq {first : StopPatch} (hlength : u.patches.length ≤ stops.length) :
    u.hintMatches stops first = .ok (decide (first.position.toNat ≤
      stops.length - u.patches.length ∧ u.matchesAt stops first.position.toNat = true)) := by
  unfold hintMatches
  split
  · rename_i hle
    rw [sliceMatches_eq hwidth (by omega)]
    simp [hle]
  · rename_i hgt
    simp [hgt]

/-- The next match is the first of the places that match, and the others are behind it. -/
theorem nextMatch?_eq : ∀ {starts : List Nat},
    (∀ start ∈ starts, start + u.patches.length ≤ stops.length) →
    u.nextMatch? stops starts = .ok none ∧ starts.filter (u.matchesAt stops) = [] ∨
      ∃ place rest, u.nextMatch? stops starts = .ok (some (place, rest)) ∧ rest ⊆ starts ∧
        starts.filter (u.matchesAt stops) = place :: rest.filter (u.matchesAt stops)
  | [], _ => Or.inl ⟨rfl, rfl⟩
  | start :: rest, hroom => by
    have ih := nextMatch?_eq fun s hs => hroom s (List.mem_cons_of_mem start hs)
    rw [nextMatch?, sliceMatches_eq hwidth (hroom start List.mem_cons_self), Checked.ok_bind]
    cases hmatch : u.matchesAt stops start with
    | true =>
      exact Or.inr ⟨start, rest, rfl, List.subset_cons_self start rest,
        List.filter_cons_of_pos hmatch⟩
    | false =>
      rw [List.filter_cons_of_neg (ne_true_of_eq_false hmatch)]
      refine ih.imp_right ?_
      rintro ⟨place, after, hnext, hsubset, hfilter⟩
      exact ⟨place, after, hnext, List.subset_cons_of_subset start hsubset, hfilter⟩

/-- **No slice reaches past the end of the stops, and the search has the answer of `startIn?`.** -/
theorem searchStart?_eq : u.searchStart? stops = .ok (u.startIn? stops) := by
  unfold searchStart? startIn?
  cases hpatches : u.patches with
  | nil => rfl
  | cons first rest =>
    simp only []
    rw [← hpatches]
    split
    · rfl
    · rename_i hroom
      have hlength := Nat.le_of_not_lt hroom
      have hplaces : ∀ start ∈ List.range (stops.length - u.patches.length + 1),
          start + u.patches.length ≤ stops.length := fun start hstart => by
        have := List.mem_range.mp hstart
        omega
      rw [hintMatches_eq hwidth hlength, Checked.ok_bind]
      by_cases hhint : first.position.toNat ≤ stops.length - u.patches.length ∧
          u.matchesAt stops first.position.toNat = true
      · rw [if_pos hhint, if_pos (decide_eq_true hhint)]
        rfl
      rw [if_neg hhint, if_neg (by simpa using hhint)]
      rcases nextMatch?_eq hwidth hplaces with
        ⟨hnext, hfilter⟩ | ⟨place, after, hnext, hsubset, hfilter⟩
      · rw [hnext, hfilter]
        rfl
      rw [hnext, hfilter, Checked.ok_bind]
      rcases nextMatch?_eq hwidth fun start hstart => hplaces start (hsubset hstart) with
        ⟨hsecond, hnone⟩ | ⟨second, behind, hsecond, -, hsome⟩
      · rw [hnone]
        simp only [hsecond]
        rfl
      · rw [hsome]
        simp only [hsecond]
        rfl

end Search

/-- **Alignment accepts exactly the unambiguous matches.** The search never cuts a slice out of the
stops that reaches past their end, whatever position the patches name and however many there are.
It answers with a place exactly if the update aligns there, and without one if there is none. -/
theorem alignment_exact (u : TripUpdate) (stops : List StopId) :
    (stops.length < 18446744073709551616 → u.searchStart? stops = .ok (u.startIn? stops)) ∧
    (∀ start, u.startIn? stops = some start ↔ u.AlignsAt stops start) ∧
    (u.startIn? stops = none ↔ ∀ start, ¬ u.AlignsAt stops start) := by
  refine ⟨searchStart?_eq, fun start => startIn?_eq_some_iff, ?_⟩
  simp only [← startIn?_eq_some_iff]
  exact Option.eq_none_iff_forall_ne_some

/-- The stops of a line that comes back to where it began, and goes on to its second stop. -/
def loopStops : List StopId := [⟨"a", "x"⟩, ⟨"a", "y"⟩, ⟨"a", "x"⟩, ⟨"a", "y"⟩]

/-- One patch for the first stop of the loop, under the given position. -/
def loopNews (position : UInt64) : TripUpdate :=
  let date : ServiceDate := ⟨2024, 6, 1, by decide⟩
  .modifying ⟨"a", "t"⟩ 0 date
    [.ofTimes ⟨"a", "t"⟩ ⟨"a", "x"⟩ position .predicted date none (some 110)]

/-- A patch that names the second visit of the first stop aligns there. One that names the last
position there is matches at both visits, so it does not align; it is looked for without a fault. -/
theorem alignment_exact_loop :
    loopStops.length < 18446744073709551616 ∧
    (loopNews 2).searchStart? loopStops = .ok (some 2) ∧ (loopNews 2).AlignsAt loopStops 2 ∧
    (loopNews 18446744073709551615).searchStart? loopStops = .ok none ∧
    ∀ start, ¬ (loopNews 18446744073709551615).AlignsAt loopStops start := by
  have hwidth : loopStops.length < 18446744073709551616 := by decide
  have hplace : (loopNews 2).startIn? loopStops = some 2 := by decide
  have hnone : (loopNews 18446744073709551615).startIn? loopStops = none := by decide
  obtain ⟨hsearch, hsome, -⟩ := alignment_exact (loopNews 2) loopStops
  obtain ⟨hsearch', -, hnone'⟩ := alignment_exact (loopNews 18446744073709551615) loopStops
  exact ⟨hwidth, (hsearch hwidth).trans (congrArg _ hplace), (hsome 2).mp hplace,
    (hsearch' hwidth).trans (congrArg _ hnone), hnone'.mp hnone⟩

end TripUpdate

end LiveTimetable
