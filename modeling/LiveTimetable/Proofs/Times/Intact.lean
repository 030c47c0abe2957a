import LiveTimetable.Proofs.Times.Cover
import LiveTimetable.Proofs.Times.Installing

/-!
# Times that can be read whatever was reported

Sums over reported times can leave their width, and then a stop cannot be read. Updates do not
install such times: what an update leads to was read at every stop before it was taken. So times
that start out **intact** stay so, with no bound on what a feed reports.

* `TripTimes.Intact`: every stop can be read, and what patches go over consists of fitting blocks.
* `TripTimes.Intact.reconcile`: an update of intact times leads to intact times of the same trip.
-/

namespace LiveTimetable.TripTimes

/-- Every stop can be read, and what patches are laid over consists of fitting blocks. -/
structure Intact (t : TripTimes) : Prop where
  readable : t.Readable
  layered : ∀ published, (t.base published).IsLayered

variable {t under : TripTimes} {published : Baseline} {b : Block} {u : TripUpdate} {start : Nat}
  {recovery : Recovery} {r : Reconciled}

/-! ## Kinds of times -/

theorem IsLayered.intact (h : t.IsLayered) : t.Intact := by
  refine ⟨h.readable, fun published => ?_⟩
  cases t with
  | scheduled | updated => exact h
  | canceled | decaying => exact h.elim

theorem intact_scheduled (p : Baseline) : (scheduled p).Intact := IsLayered.intact trivial

theorem intact_canceled (p : Baseline) : (canceled p).Intact :=
  ⟨fun stop _ => ⟨_, readsAt_canceled p stop⟩, fun _ => trivial⟩

/-- The walk that checks the times reads every stop. -/
theorem exists_times_of_isIncreasingFrom : ∀ {count stop : Nat} {last : ServiceTime},
    t.isIncreasingFrom count stop last = .ok true → ∀ i < count,
      ∃ arrival departure, t.arrival (stop + i) = .ok arrival ∧
        t.departure (stop + i) = .ok departure
  | 0, stop, last, _ => nofun
  | count + 1, stop, last, h => by
    intro i hi
    unfold isIncreasingFrom at h
    obtain ⟨arrival, harrival, h⟩ := Checked.bind_eq_ok_iff.mp h
    obtain ⟨departure, hdeparture, h⟩ := Checked.bind_eq_ok_iff.mp h
    cases i with
    | zero => exact ⟨arrival, departure, harrival, hdeparture⟩
    | succ i =>
      split at h
      · have hrest := exists_times_of_isIncreasingFrom h i (Nat.lt_of_succ_lt_succ hi)
        rwa [Nat.succ_add_eq_add_succ] at hrest
      · cases h

/-- A delay that fades away is intact once its times were checked: its access is the published
one. -/
theorem intact_decaying {d : Decay} (h : (decaying d).isIncreasing = .ok true) :
    (decaying d).Intact := by
  refine ⟨fun stop hstop => ?_, fun _ => trivial⟩
  obtain ⟨arrival, departure, harrival, hdeparture⟩ := exists_times_of_isIncreasingFrom h stop hstop
  rw [Nat.zero_add] at harrival hdeparture
  have hpublished : (scheduled d.baseline).ReadsAt stop d.baseline.calls[stop] :=
    readsAt_scheduled (List.getElem?_eq_getElem hstop)
  exact ⟨⟨arrival, departure, _⟩, harrival, hdeparture, hpublished.access⟩

/-! ## Updates -/

/-- Patches that are laid over blocks make one more block that fits. -/
theorem IsLayered.cover (ht : t.IsLayered) (h : t.cover u start = .ok (b, under)) :
    (updated b under).IsLayered := by
  obtain ⟨rfl, whole, hshrinks, -⟩ := exists_of_cover h
  exact ⟨hshrinks.fits, ht.uncover _ _⟩

theorem Intact.patch (ht : t.Intact) (h : (t.patch published u start recovery).run = .ok (.ok r)) :
    r.times.Intact := by
  unfold TripTimes.patch at h
  obtain ⟨⟨block, under⟩, hcover, h⟩ := Attempt.lift_bind_eq_ok_iff.mp h
  have hlayered := (ht.layered published).cover hcover
  obtain ⟨forwards, -, h⟩ := Attempt.lift_bind_eq_ok_iff.mp h
  cases forwards with
  | true =>
    simp only [if_true] at h
    split at h
    · cases h
      exact hlayered.2.intact
    · cases h
      exact hlayered.intact
  | false =>
    simp only [Bool.false_eq_true, if_false] at h
    obtain ⟨_, -, h⟩ := Attempt.lift_bind_eq_ok_iff.mp h
    obtain ⟨decayed, hdecayed, h⟩ := Attempt.lift_bind_eq_ok_iff.mp h
    obtain ⟨steady, hsteady, h⟩ := Attempt.lift_bind_eq_ok_iff.mp h
    cases steady with
    | true =>
      cases h
      obtain ⟨⟨stop, delay⟩, -, hlast⟩ := Checked.bind_eq_ok_iff.mp hdecayed
      cases hlast
      exact intact_decaying hsteady
    | false =>
      obtain ⟨_, -, h⟩ := Attempt.lift_bind_eq_ok_iff.mp h
      cases h

/-- **An update of intact times leads to intact times.** -/
theorem Intact.reconcile {stops : List StopId} (ht : t.Intact)
    (h : (t.reconcile published stops u recovery).run = .ok (.ok r)) : r.times.Intact := by
  unfold TripTimes.reconcile at h
  split at h
  · cases h
    exact intact_scheduled _
  · split at h
    · cases h
      exact intact_canceled _
    · split at h
      · cases h
      · exact ht.patch h

end LiveTimetable.TripTimes
