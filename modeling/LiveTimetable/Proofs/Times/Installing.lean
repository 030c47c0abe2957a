import LiveTimetable.Proofs.Times.Forwards
import LiveTimetable.Times.Reconcile

/-!
# Times that an update installs do not step back

Whatever `TripTimes.reconcile` answers was checked, has no real times, or is the baseline. So an
update of a trip whose publication runs forwards leads to times that run forwards, whatever the
times before were (`TripTimes.reconcile_isIncreasing`). If the published times were the baseline of
the current ones, they are the baseline of the new ones.
-/

namespace LiveTimetable.TripTimes

variable {t under : TripTimes} {published : Baseline} {b : Block} {u : TripUpdate} {start : Nat}
  {recovery : Recovery} {r : Reconciled}

/-! ## Kinds of times -/

/-- The check of the baseline decides whether the publication runs forwards. -/
theorem isIncreasing_scheduled_iff {p : Baseline} :
    (scheduled p).isIncreasing = .ok true ↔ Forwards p.calls := by
  rw [(reads_scheduled p).isIncreasing_eq]
  constructor
  · intro h
    exact of_decide_eq_true (Except.ok.inj h)
  · intro h
    rw [decide_eq_true h]

/-- The times of a trip that does not run have nothing to step back behind. -/
theorem isIncreasingFrom_canceled (p : Baseline) : ∀ (count stop : Nat) (last : ServiceTime),
    (canceled p).isIncreasingFrom count stop last = .ok true
  | 0, _, _ => rfl
  | count + 1, stop, last => isIncreasingFrom_canceled p count (stop + 1) last

theorem isIncreasing_canceled (p : Baseline) : (canceled p).isIncreasing = .ok true :=
  isIncreasingFrom_canceled p ..

/-- A block over no stops is not there. -/
theorem sameAt_updated_of_span (h : b.span = 0) (stop : Nat) :
    (updated b under).SameAt under stop := by
  refine sameAt_updated (Block.slot?_eq_none_iff.mpr ?_)
  unfold Block.stop
  omega

theorem isIncreasing_updated_of_span (h : b.span = 0) :
    (updated b under).isIncreasing = under.isIncreasing :=
  isIncreasing_congr rfl (sameAt_updated_of_span h)

/-! ## Reconciling -/

theorem baseline_base (hbase : t.baseline = published) :
    (t.base published).baseline = published := by
  cases t with
  | scheduled | updated => exact hbase
  | canceled | decaying => rfl

/-- What is patched is laid over has the baseline of the times. -/
theorem baseline_of_cover (h : t.cover u start = .ok (b, under)) : under.baseline = t.baseline := by
  obtain ⟨⟨block, below⟩, hlay, h⟩ := Checked.bind_eq_ok_iff.mp h
  obtain ⟨smaller, -, h⟩ := Checked.bind_eq_ok_iff.mp h
  cases h
  obtain ⟨stop, -, hlay⟩ := Checked.bind_eq_ok_iff.mp hlay
  split at hlay
  · cases hlay
  · obtain ⟨calls, -, hlay⟩ := Checked.bind_eq_ok_iff.mp hlay
    cases hlay
    exact baseline_uncover _ _ _

theorem baseline_of_fallback {decayed : TripTimes}
    (h : t.fallback published u start recovery = .ok decayed) : decayed.baseline = published := by
  obtain ⟨⟨stop, delay⟩, -, h⟩ := Checked.bind_eq_ok_iff.mp h
  cases h
  rfl

/-- What patches lead to was checked. -/
theorem patch_isIncreasing (hbase : t.baseline = published)
    (h : (t.patch published u start recovery).run = .ok (.ok r)) :
    r.times.baseline = published ∧ r.times.isIncreasing = .ok true := by
  unfold patch at h
  obtain ⟨⟨block, under⟩, hcover, h⟩ := Attempt.lift_bind_eq_ok_iff.mp h
  have hunder : under.baseline = published :=
    (baseline_of_cover hcover).trans (baseline_base hbase)
  obtain ⟨forwards, hforwards, h⟩ := Attempt.lift_bind_eq_ok_iff.mp h
  cases forwards with
  | true =>
    simp only [if_true] at h
    split at h
    · rename_i hempty
      cases h
      exact ⟨hunder, (isIncreasing_updated_of_span hempty.1).symm.trans hforwards⟩
    · cases h
      exact ⟨hunder, hforwards⟩
  | false =>
    simp only [Bool.false_eq_true, if_false] at h
    obtain ⟨_, -, h⟩ := Attempt.lift_bind_eq_ok_iff.mp h
    obtain ⟨decayed, hdecayed, h⟩ := Attempt.lift_bind_eq_ok_iff.mp h
    obtain ⟨steady, hsteady, h⟩ := Attempt.lift_bind_eq_ok_iff.mp h
    cases steady with
    | true =>
      cases h
      exact ⟨baseline_of_fallback hdecayed, hsteady⟩
    | false =>
      obtain ⟨_, -, h⟩ := Attempt.lift_bind_eq_ok_iff.mp h
      cases h

/-- **An update of a trip whose publication runs forwards leads to times that run forwards.** -/
theorem reconcile_isIncreasing {stops : List StopId} (hbase : t.baseline = published)
    (h : (t.reconcile published stops u recovery).run = .ok (.ok r)) :
    r.times.baseline = published ∧
      (Forwards published.calls → r.times.isIncreasing = .ok true) := by
  unfold reconcile at h
  split at h
  · cases h
    exact ⟨rfl, isIncreasing_scheduled_iff.mpr⟩
  · split at h
    · cases h
      exact ⟨rfl, fun _ => isIncreasing_canceled _⟩
    · split at h
      · cases h
      · obtain ⟨hbase', hchecked⟩ := patch_isIncreasing hbase h
        exact ⟨hbase', fun _ => hchecked⟩

end LiveTimetable.TripTimes
