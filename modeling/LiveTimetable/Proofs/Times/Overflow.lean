import LiveTimetable.Proofs.Times.Intact
import LiveTimetable.Proofs.Times.Simulation

/-!
# Updates whose times do not fit

Patched times are what the patches say, and always fit. If they step back, a fading delay takes
their place, and then sums and differences of reported and published times have to be stored. One
that does not fit is a fault, even though the update could have been refused or bounded instead.

* `Fadeable`: the delay that is seen in patched calls, and all published times under it, fit.
* `TripTimes.patch_error_iff`: a fault is met exactly if the patched calls step back and are not
  fadeable, and it is an overflow.
* `TripTimes.reconcile_error_iff`: the same of an update that first has to be aligned.
* `TripTimes.not_overruns_of_inRange`: times within 2^29 seconds of the start of the day always fit.
-/

namespace LiveTimetable

/-- The delay that is seen in patched calls can be worked out, and all published times under it
can. -/
def Fadeable (published patched : List Call) (start count rate : Nat) : Prop :=
  SeenInRange published patched start count ∧
    FadesInRange published (fadeOrigin published patched start count).1
      (fadeOrigin published patched start count).2 rate

instance (published patched : List Call) (start count rate : Nat) :
    Decidable (Fadeable published patched start count rate) :=
  inferInstanceAs (Decidable (_ ∧ _))

namespace TripTimes

variable {t : TripTimes} {cs : List Call} {u : TripUpdate} {start : Nat} {recovery : Recovery}
  {stops : List StopId} {fault : Fault}

/-! ## Walks along the stops -/

/-- A walk along the trip meets no faults but those of its stops. -/
theorem fault_of_isIncreasingFrom : ∀ {count stop : Nat} {last : ServiceTime},
    t.isIncreasingFrom count stop last = .error fault → ∃ i < count,
      t.arrival (stop + i) = .error fault ∨ t.departure (stop + i) = .error fault
  | 0, stop, last, h => by cases h
  | count + 1, stop, last, h => by
    unfold isIncreasingFrom at h
    rcases Checked.bind_eq_error_iff.mp h with harrival | ⟨arrival, -, h⟩
    · exact ⟨0, Nat.succ_pos _, Or.inl harrival⟩
    rcases Checked.bind_eq_error_iff.mp h with hdeparture | ⟨departure, -, h⟩
    · exact ⟨0, Nat.succ_pos _, Or.inr hdeparture⟩
    split at h
    · obtain ⟨i, hi, hfault⟩ := fault_of_isIncreasingFrom h
      refine ⟨i + 1, Nat.succ_lt_succ hi, ?_⟩
      rwa [Nat.succ_add_eq_add_succ] at hfault
    · cases h

theorem fault_of_checkTimes : ∀ {stops : List Nat}, t.checkTimes stops = .error fault →
    ∃ stop ∈ stops, t.arrival stop = .error fault ∨ t.departure stop = .error fault
  | [], h => by cases h
  | stop :: rest, h => by
    unfold checkTimes at h
    rcases Checked.bind_eq_error_iff.mp h with harrival | ⟨_, -, h⟩
    · exact ⟨stop, List.mem_cons_self, Or.inl harrival⟩
    rcases Checked.bind_eq_error_iff.mp h with hdeparture | ⟨_, -, h⟩
    · exact ⟨stop, List.mem_cons_self, Or.inr hdeparture⟩
    obtain ⟨stop', hmem, hfault⟩ := fault_of_checkTimes h
    exact ⟨stop', List.mem_cons_of_mem _ hmem, hfault⟩

/-- Times that pass the check were worked out at every stop. -/
theorem times_of_checkTimes : ∀ {stops : List Nat}, t.checkTimes stops = .ok () →
    ∀ stop ∈ stops, ∃ arrival departure, t.arrival stop = .ok arrival ∧
      t.departure stop = .ok departure
  | [], _, stop, hmem => absurd hmem List.not_mem_nil
  | first :: rest, h, stop, hmem => by
    unfold checkTimes at h
    obtain ⟨arrival, harrival, h⟩ := Checked.bind_eq_ok_iff.mp h
    obtain ⟨departure, hdeparture, h⟩ := Checked.bind_eq_ok_iff.mp h
    rcases List.mem_cons.mp hmem with rfl | hmem
    · exact ⟨arrival, departure, harrival, hdeparture⟩
    · exact times_of_checkTimes h stop hmem

/-- A fading delay under which some time does not fit is found out: by the walk that compares the
times, or else by the check of all of them. -/
theorem overflow_of_not_fadesInRange {d : Decay} (hrate : d.rate ≤ 59)
    (hfades : ¬ FadesInRange d.baseline.calls d.start d.initialDelay.toInt d.rate) :
    (decaying d).isIncreasing = .error .overflow ∨
      (decaying d).isIncreasing = .ok false ∧ (decaying d).check = .error .overflow := by
  cases hforwards : (decaying d).isIncreasing with
  | error fault =>
    obtain ⟨stop, hstop, hfault⟩ := fault_of_isIncreasingFrom hforwards
    rw [Nat.zero_add] at hfault
    rw [overflow_of_decaying hrate hstop hfault]
    exact Or.inl rfl
  | ok forwards =>
    refine Or.inr ?_
    cases forwards with
    | true =>
      refine absurd (fadesInRange_of_times hrate fun stop hstop => ?_) hfades
      obtain ⟨arrival, departure, htimes⟩ := exists_times_of_isIncreasingFrom hforwards stop hstop
      rw [Nat.zero_add] at htimes
      exact ⟨arrival, departure, htimes⟩
    | false =>
      refine ⟨rfl, ?_⟩
      cases hcheck : (decaying d).check with
      | error fault =>
        obtain ⟨stop, hstop, hfault⟩ := fault_of_checkTimes hcheck
        rw [overflow_of_decaying hrate (List.mem_range.mp hstop) hfault]
      | ok _ =>
        refine absurd (fadesInRange_of_times hrate fun stop hstop => ?_) hfades
        exact times_of_checkTimes hcheck stop (List.mem_range.mpr hstop)

/-! ## Patches -/

/-- Readable times read as a list of calls. -/
theorem Readable.exists_reads (h : t.Readable) : ∃ cs, t.Reads cs := by
  refine ⟨List.ofFn fun i : Fin t.stopCount => (h i.1 i.2).choose, List.length_ofFn,
    fun stop c hc => ?_⟩
  obtain ⟨hlt, rfl⟩ := List.getElem?_eq_some_iff.mp hc
  rw [List.length_ofFn] at hlt
  rw [List.getElem_ofFn]
  exact (h stop hlt).choose_spec

/-- What patches that step back lead to: the fading delay that is seen in them, unless that steps
back as well. Either way it has to fit. -/
theorem fallback_error_iff {b : Baseline} (hbase : t.baseline = b) (hread : t.Reads cs)
    (hfit : start + u.patches.length ≤ t.stopCount) :
    (do
      let decayed ← liftM (t.fallback b u start recovery)
      if ← liftM decayed.isIncreasing then return ⟨decayed, true⟩
      else
        liftM decayed.check
        throw (.nonIncreasing u.tripId) : Attempt ReconcileError Reconciled).run = .error fault ↔
      fault = .overflow ∧
        ¬ Fadeable b.calls cs start u.patches.length recovery.secondsPerMinute := by
  subst hbase
  rw [fallback_eq hread recovery hfit]
  by_cases hseen : SeenInRange t.baseline.calls cs start u.patches.length
  · have hint : (t.fading cs u start recovery).initialDelay.toInt =
        (fadeOrigin t.baseline.calls cs start u.patches.length).2 :=
      toInt_ofInt (fadeOrigin_fits hseen)
    rw [if_pos hseen, Attempt.lift_ok_bind]
    by_cases hfades : FadesInRange t.baseline.calls
        (fadeOrigin t.baseline.calls cs start u.patches.length).1
        (fadeOrigin t.baseline.calls cs start u.patches.length).2 recovery.secondsPerMinute
    · have hreads := reads_fading u recovery hseen hfades
      refine iff_of_false (fun h => ?_) fun h => h.2 ⟨hseen, hfades⟩
      simp only [hreads.isIncreasing_eq, hreads.readable.check_eq, Attempt.lift_ok_bind] at h
      split at h <;> cases h
    · have hnot : ¬ Fadeable t.baseline.calls cs start u.patches.length recovery.secondsPerMinute :=
        fun h => hfades h.2
      rw [and_iff_left hnot]
      rw [← hint] at hfades
      rcases overflow_of_not_fadesInRange (d := t.fading cs u start recovery) recovery.inRange.2
        hfades with hwalk | ⟨hwalk, hcheck⟩
      · simp only [hwalk]
        exact Checked.error_eq_error_iff
      · simp only [hwalk, hcheck, Attempt.lift_ok_bind, Bool.false_eq_true, if_false]
        exact Checked.error_eq_error_iff
  · rw [if_neg hseen, and_iff_left fun h => hseen h.1]
    exact Checked.error_eq_error_iff

/-- Patches can be laid over the times that they start from, and these are told over the same
published ones. -/
theorem Intact.exists_cover (ht : t.Intact) (hwidth : t.stopCount < 18446744073709551616)
    (hread : (t.base t.baseline).Reads cs) (hfit : start + u.patches.length ≤ t.stopCount) :
    ∃ block under, (t.base t.baseline).cover u start = .ok (block, under) ∧
      (updated block under).baseline = t.baseline ∧
      start + u.patches.length ≤ (updated block under).stopCount ∧
      (updated block under).Reads (overwrite t.baseline.calls cs start u.patches) := by
  have hbase := baseline_base (t := t) rfl
  have hcount : (t.base t.baseline).stopCount = t.stopCount := congrArg Baseline.stopCount hbase
  obtain ⟨block, hcover, -, -, hreads⟩ :=
    cover_reads (ht.layered _) hread (hcount ▸ hwidth) (hcount ▸ hfit)
  have hunder := (baseline_uncover start (start + u.patches.length) (t.base t.baseline)).trans hbase
  rw [hbase] at hreads
  refine ⟨block, _, hcover, hunder, ?_, hreads⟩
  exact Nat.le_trans hfit (Nat.le_of_eq (congrArg Baseline.stopCount hunder).symm)

/-- **When patches meet a fault**: the patched calls step back, and the delay that is seen in them,
or a published time under it, does not fit. It is an overflow then. -/
theorem patch_error_iff (ht : t.Intact) (hwidth : t.stopCount < 18446744073709551616)
    (hread : (t.base t.baseline).Reads cs) (hfit : start + u.patches.length ≤ t.stopCount) :
    (t.patch t.baseline u start recovery).run = .error fault ↔ fault = .overflow ∧
      ¬ Forwards (overwrite t.baseline.calls cs start u.patches) ∧
      ¬ Fadeable t.baseline.calls (overwrite t.baseline.calls cs start u.patches) start
        u.patches.length recovery.secondsPerMinute := by
  obtain ⟨block, under, hcover, hunder, hfit', hreads⟩ := ht.exists_cover hwidth hread hfit
  rw [patch, hcover, Attempt.lift_ok_bind]
  simp only [hreads.isIncreasing_eq, Attempt.lift_ok_bind]
  by_cases hforwards : Forwards (overwrite t.baseline.calls cs start u.patches)
  · refine iff_of_false (fun h => ?_) fun h => h.2.1 hforwards
    rw [if_pos (decide_eq_true hforwards)] at h
    split at h <;> cases h
  · rw [if_neg (by simp [hforwards]), and_iff_right hforwards]
    simp only [hreads.readable.check_eq, Attempt.lift_ok_bind]
    exact fallback_error_iff hunder hreads hfit'

/-! ## Updates -/

/-- An update aligns with the trip, its patches step back, and the fading delay that is seen in them
does not fit. -/
def Overruns (t : TripTimes) (stops : List StopId) (u : TripUpdate) (recovery : Recovery) : Prop :=
  ∃ start cs, Sheet.place? t.baseline stops u = some start ∧ (t.base t.baseline).Reads cs ∧
    ¬ Forwards (overwrite t.baseline.calls cs start u.patches) ∧
    ¬ Fadeable t.baseline.calls (overwrite t.baseline.calls cs start u.patches) start
      u.patches.length recovery.secondsPerMinute

/-- Without patches there is nothing to align. -/
theorem Overruns.patches_ne_nil (h : t.Overruns stops u recovery) : u.patches ≠ [] := by
  rintro hnil
  obtain ⟨start, -, hplace, -⟩ := h
  rw [Sheet.place?, TripUpdate.startIn?, hnil] at hplace
  cases hplace

/-- **When an update meets a fault**: it gives new times, and they overrun. -/
theorem reconcile_error_iff (ht : t.Intact) (hwidth : t.stopCount < 18446744073709551616) :
    (t.reconcile t.baseline stops u recovery).run = .error fault ↔ fault = .overflow ∧
      u.isRemoval = false ∧ u.isCancellation = false ∧ t.Overruns stops u recovery := by
  unfold reconcile
  cases hremoval : u.isRemoval with
  | true => exact iff_of_false nofun fun h => Bool.noConfusion h.2.1
  | false =>
    cases hcancellation : u.isCancellation with
    | true => exact iff_of_false nofun fun h => Bool.noConfusion h.2.2.1
    | false =>
      simp only [Bool.false_eq_true, if_false, true_and]
      rw [alignment_eq]
      cases hplace : Sheet.place? t.baseline stops u with
      | none =>
        refine iff_of_false nofun fun h => ?_
        obtain ⟨-, start, cs, hstart, -⟩ := h
        rw [hplace] at hstart
        cases hstart
      | some start =>
        have hfit : start + u.patches.length ≤ t.stopCount :=
          of_decide_eq_true (Option.filter_eq_some_iff.mp hplace).2
        constructor
        · intro h
          obtain ⟨cs, hread⟩ := (ht.layered t.baseline).readable.exists_reads
          obtain ⟨hfault, hback, hfade⟩ := (patch_error_iff ht hwidth hread hfit).mp h
          exact ⟨hfault, start, cs, hplace, hread, hback, hfade⟩
        · rintro ⟨hfault, start', cs, hstart, hread, hback, hfade⟩
          obtain rfl := Option.some.inj (hplace.symm.trans hstart)
          exact (patch_error_iff ht hwidth hread hfit).mpr ⟨hfault, hback, hfade⟩

/-- **Moderate times do not overrun**, whatever the times of the trip were before. -/
theorem not_overruns_of_inRange (hrange : t.baseline.InRange) (hu : u.InRange) :
    ¬ t.Overruns stops u recovery := by
  rintro ⟨start, cs, hplace, hread, -, hfade⟩
  have hfit : start + u.patches.length ≤ t.baseline.calls.length :=
    of_decide_eq_true (Option.filter_eq_some_iff.mp hplace).2
  have hlength : cs.length = t.baseline.calls.length :=
    hread.length_eq.trans (congrArg Baseline.stopCount (baseline_base (t := t) rfl))
  have hsound : ∀ stop ∈ List.range' start u.patches.length,
      ∀ c ∈ (overwrite t.baseline.calls cs start u.patches)[stop]?, c.Sound := by
    intro stop hstop c hc
    obtain ⟨slot, hslot, rfl⟩ := List.mem_range'.mp hstop
    rw [Nat.one_mul] at hc
    have hpatched := (getElem?_overwrite_add hlength hfit hslot).symm.trans hc
    obtain ⟨p, q, hp, hq, rfl⟩ := List.getElem?_zipWith_eq_some.mp hpatched
    have hpmem := List.mem_of_getElem? hp
    exact sound_callOver (hrange.calls q (List.mem_of_mem_drop (List.mem_of_getElem? hq)))
      (hu.arrival p hpmem) (hu.departure p hpmem)
  obtain ⟨hlo, hhi⟩ := fadeOrigin_bounds hrange.calls hsound
  exact hfade ⟨seenInRange_of_sound hrange.calls hsound,
    fadesInRange_of_inRange hrange.calls hlo hhi _ _⟩

end TripTimes

end LiveTimetable
