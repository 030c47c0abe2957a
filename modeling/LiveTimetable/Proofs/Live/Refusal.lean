import LiveTimetable.Proofs.Live.Settling

/-!
# A refused update has no effect

In a reachable state an update that is refused leaves every store as it was. So the updates of a
batch that are refused can as well be taken out of it (`Updater.accepted`): the run ends in the
same state, and only its count of refusals differs. The run returns its summary if every update of
the batch is answered (`Updater.AllAnswered`).
-/

namespace LiveTimetable.Updater

variable {s s' : Updater} {u : TripUpdate}

/-- The batch without the updates that are refused when it is applied. -/
def accepted : Batch → Updater → Batch
  | [], _ => []
  | u :: rest, s =>
    match s.apply u with
    | .error _ => u :: rest
    | .ok (s, .ok ()) => u :: accepted rest s
    | .ok (s, .error _) => accepted rest s

/-- Every update of a batch is applied or refused when its turn comes; none meets a fault. -/
def AllAnswered : Batch → Updater → Prop
  | [], _ => True
  | u :: rest, s => ∃ s' answer, s.apply u = .ok (s', answer) ∧ AllAnswered rest s'

theorem Consistent.apply_refused (hs : s.Consistent) {e : ApplyError}
    (h : s.apply u = .ok (s', .error e)) : s' = s := by
  rcases apply_spec hs h with ⟨-, -, heq⟩ | ⟨hok, -⟩
  · exact heq
  · cases hok

theorem Consistent.apply (hs : s.Consistent) {r : Except ApplyError Unit}
    (h : s.apply u = .ok (s', r)) : s'.Consistent := by
  rcases apply_spec hs h with ⟨-, -, rfl⟩ | ⟨-, hchange⟩
  · exact hs
  · exact hchange.consistent hs

/-- The accepted updates are updates of the batch, in their order. -/
theorem accepted_sublist (batch : Batch) (s : Updater) : (accepted batch s).Sublist batch := by
  induction batch generalizing s with
  | nil => exact List.Sublist.refl _
  | cons u rest ih =>
    unfold accepted
    split
    · exact List.Sublist.refl _
    · exact (ih _).cons_cons u
    · exact (ih _).cons u

/-- **The accepted updates alone lead to the same state**, and none of them is refused. -/
theorem applyAll_accepted (batch : Batch) (hs : s.Consistent) :
    applyAll (accepted batch s) s =
      ((applyAll batch s).1, (applyAll batch s).2.map fun counts => (counts.1, 0)) := by
  induction batch generalizing s with
  | nil => rfl
  | cons u rest ih =>
    unfold accepted
    cases hu : s.apply u with
    | error fault =>
      simp only [applyAll, hu]
      rfl
    | ok out =>
      obtain ⟨mid, result⟩ := out
      have hmid := ih (hs.apply hu)
      cases result with
      | error e =>
        obtain rfl := hs.apply_refused hu
        simp only [applyAll, hu, hmid]
        cases (applyAll rest mid).2 <;> rfl
      | ok done =>
        simp only [applyAll, hu, hmid]
        cases (applyAll rest mid).2 <;> rfl

/-- Every update of a batch is counted once. -/
theorem applied_add_failed {batch : Batch} {counts : Nat × Nat}
    (h : (applyAll batch s).2 = .ok counts) : counts.1 + counts.2 = batch.length := by
  induction batch generalizing s counts with
  | nil =>
    cases h
    rfl
  | cons u rest ih =>
    unfold applyAll at h
    cases hu : s.apply u with
    | error fault =>
      rw [hu] at h
      cases h
    | ok out =>
      obtain ⟨mid, result⟩ := out
      rw [hu] at h
      cases hrest : (applyAll rest mid).2 with
      | error fault =>
        simp only [hrest] at h
        cases h
      | ok c =>
        have hc := ih hrest
        simp only [hrest] at h
        cases h
        rw [List.length_cons]
        cases result <;> simp only [Except.isOk, Except.toBool, if_true, Bool.false_eq_true,
          if_false] <;> omega

theorem runBatch_accepted (batch : Batch) (hs : s.Consistent) (today : ServiceDate) (now : Nat) :
    s.runBatch (accepted batch s) today now = ((s.runBatch batch today now).1,
      (s.runBatch batch today now).2.map fun summary => { summary with failed := 0 }) := by
  unfold runBatch
  rw [applyAll_accepted batch hs]
  rcases applyAll batch s with ⟨mid, _ | ⟨applied, failed⟩⟩
  · rfl
  · simp only [Except.map]
    cases mid.settle today now <;> rfl

theorem length_of_runBatch {batch : Batch} {today : ServiceDate} {now : Nat} {summary : RunSummary}
    (h : (s.runBatch batch today now).2 = .ok summary) :
    summary.applied + summary.failed = batch.length := by
  unfold runBatch at h
  rcases happly : applyAll batch s with ⟨mid, _ | ⟨applied, failed⟩⟩
  · rw [happly] at h
    cases h
  · rw [happly] at h
    have hcount : applied + failed = batch.length := applied_add_failed (s := s) (by rw [happly])
    simp only [] at h
    cases hsettle : mid.settle today now with
    | error fault =>
      rw [hsettle] at h
      cases h
    | ok out =>
      rw [hsettle] at h
      cases h
      exact hcount

/-- A batch is counted exactly if every update of it is answered. -/
theorem exists_counts_iff (batch : Batch) (s : Updater) :
    (∃ counts, (applyAll batch s).2 = .ok counts) ↔ AllAnswered batch s := by
  induction batch generalizing s with
  | nil => exact iff_of_true ⟨_, rfl⟩ trivial
  | cons u rest ih =>
    unfold applyAll AllAnswered
    cases hu : s.apply u with
    | error fault => exact iff_of_false (by rintro ⟨_, ⟨⟩⟩) (by rintro ⟨_, _, ⟨⟩, _⟩)
    | ok out =>
      obtain ⟨mid, answer⟩ := out
      constructor
      · rintro ⟨_, h⟩
        obtain ⟨counts, hcounts, -⟩ := Checked.map_eq_ok_iff.mp h
        exact ⟨mid, answer, rfl, (ih mid).mp ⟨counts, hcounts⟩⟩
      · rintro ⟨_, _, ⟨⟩, h⟩
        obtain ⟨counts, hcounts⟩ := (ih mid).mpr h
        exact ⟨_, Checked.map_eq_ok_iff.mpr ⟨counts, hcounts, rfl⟩⟩

theorem Reachable.applyAll (hs : s.Reachable) (batch : Batch) : (applyAll batch s).1.Reachable := by
  induction batch generalizing s with
  | nil => exact hs
  | cons u rest ih =>
    unfold Updater.applyAll
    cases hu : s.apply u with
    | error fault => exact hs
    | ok out =>
      refine ih (hs.perform (c := .apply u) ?_)
      rw [Updater.perform, hu]
      rfl

/-- **A run returns its summary exactly if every update of its batch is answered.** -/
theorem exists_summary_iff (hs : s.Reachable) (batch : Batch) (today : ServiceDate) (now : Nat) :
    (∃ summary, (s.runBatch batch today now).2 = .ok summary) ↔ AllAnswered batch s := by
  rw [← exists_counts_iff]
  have hmid := hs.applyAll batch
  unfold runBatch
  rcases happly : Updater.applyAll batch s with ⟨mid, fault | ⟨applied, failed⟩⟩
  · exact iff_of_false (by rintro ⟨_, ⟨⟩⟩) (by rintro ⟨_, ⟨⟩⟩)
  · rw [happly] at hmid
    obtain ⟨s', purged, hsettle⟩ := hmid.exists_settle today now
    simp only [hsettle]
    exact iff_of_true ⟨_, rfl⟩ ⟨_, rfl⟩

/-- A run on a source that has a batch is a run on that batch. -/
theorem runAt_of_next {source : Source} {batch : Batch} (h : source.next.2 = .ok (some batch))
    {today : ServiceDate} {now : Nat} :
    s.runAt source today now = (((s.runBatch batch today now).1, source.next.1),
      (s.runBatch batch today now).2.map Except.ok) := by
  rcases runAt_cases s source today now with ⟨e, hnext, -⟩ | ⟨pulled, hnext, hrun⟩
  · cases hnext.symm.trans h
  · cases hnext.symm.trans h
    exact hrun

/-- **A refused update has no effect.** An update that is refused leaves the whole state as it was.
A run on a batch returns its summary exactly if none of the updates meets a fault when its turn
comes, and the summary counts each of them once. A run on the batch without the refused ones ends in
the same state, with the same summary but for the refusals. -/
theorem refused_without_effect (hs : s.Reachable) :
    (∀ u s' e, s.apply u = .ok (s', .error e) → s' = s) ∧
      ∀ batch, (accepted batch s).Sublist batch ∧
        ∀ source source', source.next.2 = .ok (some batch) →
          source'.next.2 = .ok (some (accepted batch s)) → ∀ today now,
            ((∃ summary, (s.runAt source today now).2 = .ok (.ok summary)) ↔
              AllAnswered batch s) ∧
            (∀ summary, (s.runAt source today now).2 = .ok (.ok summary) →
              summary.applied + summary.failed = batch.length) ∧
            (s.runAt source' today now).1.1 = (s.runAt source today now).1.1 ∧
            (s.runAt source' today now).2 = (s.runAt source today now).2.map
              (Except.map fun summary => { summary with failed := 0 }) := by
  have hc := hs.consistent
  refine ⟨fun u s' e h => hc.apply_refused h, fun batch => ⟨accepted_sublist batch s,
    fun source source' hnext hnext' today now => ?_⟩⟩
  rw [runAt_of_next hnext, runAt_of_next hnext', runBatch_accepted batch hc]
  have hsummary : ∀ summary, (s.runBatch batch today now).2.map Except.ok =
      .ok (.ok summary : Except SourceError RunSummary) ↔
        (s.runBatch batch today now).2 = .ok summary := by
    intro summary
    rw [Checked.map_eq_ok_iff]
    simp only [Except.ok.injEq, exists_eq_right]
  simp only [hsummary]
  refine ⟨exists_summary_iff hs batch today now, fun summary => length_of_runBatch, trivial, ?_⟩
  cases (s.runBatch batch today now).2 <;> rfl

/-- An added trip that calls at a stop that the schedule does not know is refused, and what is left
of its batch leads to the same state. -/
theorem refused_without_effect_shuttle :
    (∃ s' e, shuttleWithExtra.apply (extraTrip "m" "x" "z" 1 2) = .ok (s', .error e) ∧
        s' = shuttleWithExtra) ∧
      accepted [extraTrip "m" "x" "z" 1 2, extraTrip "o" "x" "y" 1 2] shuttleWithExtra =
        [extraTrip "o" "x" "y" 1 2] ∧
      (shuttleWithExtra.runAt (.channel [[extraTrip "o" "x" "y" 1 2]] true) shuttleDate 0).1.1 =
        (shuttleWithExtra.runAt
          (.channel [[extraTrip "m" "x" "z" 1 2, extraTrip "o" "x" "y" 1 2]] true)
            shuttleDate 0).1.1 := by
  have h := refused_without_effect reachable_shuttleWithExtra
  have haccepted : accepted [extraTrip "m" "x" "z" 1 2, extraTrip "o" "x" "y" 1 2]
      shuttleWithExtra = [extraTrip "o" "x" "y" 1 2] := rfl
  obtain ⟨s', e, hrefused⟩ : ∃ s' e, shuttleWithExtra.apply (extraTrip "m" "x" "z" 1 2) =
    .ok (s', .error e) := ⟨_, _, rfl⟩
  refine ⟨⟨s', e, hrefused, h.1 _ s' e hrefused⟩, haccepted, ?_⟩
  exact ((h.2 _).2 (.channel [[extraTrip "m" "x" "z" 1 2, extraTrip "o" "x" "y" 1 2]] true)
    (.channel [[extraTrip "o" "x" "y" 1 2]] true) rfl (by rw [haccepted]; rfl) shuttleDate 0).2.2.1

end LiveTimetable.Updater
