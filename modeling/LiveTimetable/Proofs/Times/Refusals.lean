import LiveTimetable.Proofs.Times.Fading
import LiveTimetable.Proofs.Times.Overflow

/-!
# Updates that are refused

Patches that step back are refused only if even the published times step back under the delay that
is seen in them. Published times that run forwards never do: the delay is bounded by the stop
before the one where it is seen, and fades no faster than time passes. What is left to refuse then
is an update that does not align with the stops.

* `TripTimes.patch_refused_iff`: when patches are refused.
* `forwards_fadedUnder`: a sound schedule runs forwards under every delay that is seen in patches.
* `TripTimes.Arises`: the times that updates, one after another, can lead to.
* `TripTimes.reconcile_of_sound`: which updates of such times are refused, and what becomes of the
  others.
-/

namespace LiveTimetable

/-! ## The delay that is seen -/

section Seen

variable {published : List Call}

/-- On arrival at a stop the vehicle has met all times before. -/
theorem le_arrival {cs : List Call} {stop : Nat} (h : (timesAlong cs).Pairwise (· ≤ ·))
    (hlt : stop < cs.length) {t : ServiceTime} (ht : t ∈ timesAlong (cs.take stop)) :
    t ≤ cs[stop].arrival := by
  refine (pairwise_split h stop).2.2 t ht _ ?_
  rw [timesAlong_drop hlt]
  exact List.mem_cons_self

/-- By the departure from a stop the vehicle has met all times up to there. -/
theorem le_departure {cs : List Call} {stop : Nat} (h : (timesAlong cs).Pairwise (· ≤ ·))
    (hlt : stop < cs.length) {t : ServiceTime} (ht : t ∈ timesAlong (cs.take (stop + 1))) :
    t ≤ cs[stop].departure := by
  have htake := (pairwise_split h (stop + 1)).1
  have hsplit : timesAlong (cs.take (stop + 1)) =
      (timesAlong (cs.take stop) ++ [cs[stop].arrival]) ++ [cs[stop].departure] := by
    rw [List.take_succ_eq_append_getElem hlt, timesAlong_append, List.append_assoc]
    rfl
  rw [hsplit] at htake ht
  rcases List.mem_append.mp ht with ht | ht
  · exact (List.pairwise_append.mp htake).2.2 t ht _ List.mem_cons_self
  · rw [List.mem_singleton.mp ht]
    exact Int32.le_refl _

/-- A bounded delay does not lead back behind the stops before. -/
theorem le_add_bounded (hmono : (timesAlong published).Pairwise (· ≤ ·)) (stop : Nat)
    (delay : Int) : ∀ origin ∈ published[stop]?, ∀ t ∈ timesAlong (published.take stop),
      t.toInt ≤ origin.arrival.toInt + bounded published stop delay := by
  intro origin horigin t ht
  obtain ⟨hlt, rfl⟩ := List.getElem?_eq_some_iff.mp horigin
  cases stop with
  | zero => cases ht
  | succ previous =>
    have hprevious := Nat.lt_of_succ_lt hlt
    have hle := le_departure hmono hprevious ht
    have hleast : bounded published (previous + 1) delay = max delay
        (min 0 (published[previous].departure.toInt - published[previous + 1].arrival.toInt)) := by
      unfold bounded
      simp only [List.getElem?_eq_getElem hprevious, List.getElem?_eq_getElem hlt]
    have hmem : published[previous].departure ∈ timesAlong (published.take (previous + 1)) :=
      mem_timesAlong_iff.mpr ⟨_, List.mem_take_iff_getElem.mpr ⟨previous, by omega, rfl⟩,
        Or.inr rfl⟩
    have hnext := le_arrival hmono hlt hmem
    rw [Int32.le_iff_toInt_le] at hle hnext
    omega

/-- The published calls under the delay that is seen in the patched ones. -/
def fadedUnder (published patched : List Call) (start count rate : Nat) : List Call :=
  faded published (fadeOrigin published patched start count).1
    (fadeOrigin published patched start count).2 rate

/-- **Published times that never decrease run forwards under every delay that is seen in
patches**, if they can be worked out. -/
theorem forwards_fadedUnder {rate : Nat} (hrate : rate ≤ 60)
    (hmono : (timesAlong published).Pairwise (· ≤ ·)) {patched : List Call} {start count : Nat}
    (hfade : Fadeable published patched start count rate) :
    Forwards (fadedUnder published patched start count rate) := by
  refine forwards_faded hrate hfade.2 hmono ?_
  unfold fadeOrigin
  cases observed? published patched start count with
  | some o => exact le_add_bounded hmono o.1 o.2
  | none =>
    intro origin horigin t ht
    obtain ⟨hlt, rfl⟩ := List.getElem?_eq_some_iff.mp horigin
    have hle : t ≤ published[start].arrival := le_arrival hmono hlt ht
    rw [Int32.le_iff_toInt_le] at hle
    show t.toInt ≤ published[start].arrival.toInt + 0
    omega

end Seen

namespace TripTimes

variable {t : TripTimes} {b : Baseline} {cs : List Call} {u : TripUpdate} {start : Nat}
  {recovery : Recovery} {stops : List StopId} {e : ReconcileError}

/-! ## Patches -/

/-- What patches that step back lead to if everything can be worked out: the fading delay that is
seen in them, unless that steps back as well. -/
theorem fallback_of_fadeable (hbase : t.baseline = b) (hread : t.Reads cs)
    (hfit : start + u.patches.length ≤ t.stopCount)
    (hfade : Fadeable b.calls cs start u.patches.length recovery.secondsPerMinute) :
    (do
      let decayed ← liftM (t.fallback b u start recovery)
      if ← liftM decayed.isIncreasing then return ⟨decayed, true⟩
      else
        liftM decayed.check
        throw (.nonIncreasing u.tripId) : Attempt ReconcileError Reconciled).run =
      if Forwards (fadedUnder b.calls cs start u.patches.length recovery.secondsPerMinute) then
        .ok (.ok ⟨decaying (t.fading cs u start recovery), true⟩)
      else .ok (.error (.nonIncreasing u.tripId)) := by
  subst hbase
  have hreads : (decaying (t.fading cs u start recovery)).Reads
      (fadedUnder t.baseline.calls cs start u.patches.length recovery.secondsPerMinute) :=
    reads_fading u recovery hfade.1 hfade.2
  rw [fallback_eq hread recovery hfit, if_pos hfade.1, Attempt.lift_ok_bind]
  simp only [hreads.isIncreasing_eq, hreads.readable.check_eq, Attempt.lift_ok_bind,
    decide_eq_true_eq]
  split <;> rfl

/-- **When patches are refused**: the patched calls step back, and the published ones under the
delay that is seen in them do as well, although everything can be worked out. -/
theorem patch_refused_iff (ht : t.Intact) (hwidth : t.stopCount < 18446744073709551616)
    (hread : (t.base t.baseline).Reads cs) (hfit : start + u.patches.length ≤ t.stopCount) :
    (t.patch t.baseline u start recovery).run = .ok (.error e) ↔ e = .nonIncreasing u.tripId ∧
      ¬ Forwards (overwrite t.baseline.calls cs start u.patches) ∧
      Fadeable t.baseline.calls (overwrite t.baseline.calls cs start u.patches) start
        u.patches.length recovery.secondsPerMinute ∧
      ¬ Forwards (fadedUnder t.baseline.calls (overwrite t.baseline.calls cs start u.patches) start
        u.patches.length recovery.secondsPerMinute) := by
  obtain ⟨block, under, hcover, hunder, hfit', hreads⟩ := ht.exists_cover hwidth hread hfit
  by_cases hforwards : Forwards (overwrite t.baseline.calls cs start u.patches)
  · refine iff_of_false (fun h => ?_) fun h => h.2.1 hforwards
    rw [patch, hcover, Attempt.lift_ok_bind] at h
    simp only [hreads.isIncreasing_eq, Attempt.lift_ok_bind, hforwards, decide_true, if_true] at h
    split at h <;> cases h
  by_cases hfade : Fadeable t.baseline.calls (overwrite t.baseline.calls cs start u.patches) start
      u.patches.length recovery.secondsPerMinute
  · rw [and_iff_right hforwards, and_iff_right hfade, patch, hcover, Attempt.lift_ok_bind]
    simp only [hreads.isIncreasing_eq, hreads.readable.check_eq, Attempt.lift_ok_bind, hforwards,
      decide_false, Bool.false_eq_true, if_false]
    rw [fallback_of_fadeable hunder hreads hfit' hfade]
    split
    · rename_i hfaded
      exact iff_of_false (by simp) fun h => h.2 hfaded
    · rename_i hfaded
      rw [and_iff_left hfaded, Except.ok.injEq, Except.error.injEq, eq_comm]
  · have hfault := (patch_error_iff ht hwidth hread hfit).mpr ⟨rfl, hforwards, hfade⟩
    refine iff_of_false (fun h => ?_) fun h => hfade h.2.2.1
    rw [hfault] at h
    cases h

/-- Patches with moderate times are always taken by a trip whose published times never decrease. -/
theorem Intact.exists_patch (ht : t.Intact) (hrange : t.baseline.InRange)
    (hforwards : Forwards t.baseline.calls) (hu : u.InRange) (recovery : Recovery)
    (hplace : Sheet.place? t.baseline stops u = some start) :
    ∃ r, (t.patch t.baseline u start recovery).run = .ok (.ok r) := by
  have hfit : start + u.patches.length ≤ t.stopCount :=
    of_decide_eq_true (Option.filter_eq_some_iff.mp hplace).2
  obtain ⟨cs, hread⟩ := (ht.layered t.baseline).readable.exists_reads
  cases hrun : (t.patch t.baseline u start recovery).run with
  | error fault =>
    obtain ⟨-, hback, hfade⟩ :=
      (patch_error_iff ht hrange.stopCount_lt hread hfit).mp hrun
    exact absurd ⟨start, cs, hplace, hread, hback, hfade⟩ (not_overruns_of_inRange hrange hu)
  | ok result =>
    cases result with
    | error e =>
      obtain ⟨-, -, hfade, hfaded⟩ :=
        (patch_refused_iff ht hrange.stopCount_lt hread hfit).mp hrun
      exact absurd (forwards_fadedUnder (Nat.le_succ_of_le recovery.inRange.2)
        (pairwise_of_forwards hrange.calls hforwards) hfade) hfaded
    | ok r => exact ⟨r, rfl⟩

/-! ## Updates -/

/-- The times that updates can lead to from the published ones, for whatever stops and at whatever
rates of recovery. -/
inductive Arises (b : Baseline) : TripTimes → Prop where
  | published : Arises b (scheduled b)
  | reconciled {t : TripTimes} {stops : List StopId} {u : TripUpdate} {recovery : Recovery}
      {r : Reconciled} (ht : Arises b t)
      (h : (t.reconcile b stops u recovery).run = .ok (.ok r)) : Arises b r.times

namespace Arises

theorem baseline_eq (h : Arises b t) : t.baseline = b := by
  induction h with
  | published => rfl
  | reconciled _ h ih => exact (reconcile_isIncreasing ih h).1

theorem intact (h : Arises b t) : t.Intact := by
  induction h with
  | published => exact intact_scheduled b
  | reconciled _ h ih => exact ih.reconcile h

end Arises

/-- Where the patches of an update match the stops of a trip they do not reach past its end. -/
theorem fits_of_startIn? (h : u.startIn? stops = some start) :
    start + u.patches.length ≤ stops.length := by
  unfold TripUpdate.startIn? at h
  split at h
  · cases h
  · split at h
    · cases h
    · rename_i hlength
      simp only [] at h
      split at h
      · rename_i hhint
        obtain rfl := Option.some.inj h
        have := hhint.1
        omega
      · split at h
        · rename_i place hplaces
          obtain rfl := Option.some.inj h
          have hmem : place ∈ (List.range (stops.length - u.patches.length + 1)).filter
              (u.matchesAt stops) := by
            rw [hplaces]
            exact List.mem_cons_self
          have := List.mem_range.mp (List.mem_filter.mp hmem).1
          omega
        · cases h

/-- In a trip that calls at all the stops an update has a place where it aligns. -/
theorem place?_eq_startIn? (hstops : stops.length = b.stopCount) :
    Sheet.place? b stops u = u.startIn? stops := by
  unfold Sheet.place?
  cases hstart : u.startIn? stops with
  | none => rfl
  | some start =>
    rw [Option.filter_some, if_pos]
    exact decide_eq_true (hstops ▸ fits_of_startIn? hstart)

/-- **What becomes of an update of a sound schedule.** The published times are real and never
decrease, and the update reports times within 2^29 seconds of the start of the day. Then, whatever
updates came before, it meets no fault; it is refused exactly if it has to align with the stops and
does not, and leads to times that run forwards otherwise. -/
theorem reconcile_of_sound (recovery : Recovery) (hrange : b.InRange) (hforwards : Forwards b.calls)
    (ht : Arises b t) (hstops : stops.length = b.stopCount) (hu : u.InRange) :
    if u.isRemoval = false ∧ u.isCancellation = false ∧ u.startIn? stops = none then
      (t.reconcile b stops u recovery).run = .ok (.error (.matchFailed u.tripId))
    else ∃ r, (t.reconcile b stops u recovery).run = .ok (.ok r) ∧
      r.times.isIncreasing = .ok true := by
  obtain rfl := ht.baseline_eq
  by_cases hremoval : u.isRemoval = true
  · rw [if_neg (by simp [hremoval]), reconcile, if_pos hremoval]
    exact ⟨⟨scheduled t.baseline, false⟩, rfl, isIncreasing_scheduled_iff.mpr hforwards⟩
  by_cases hcancellation : u.isCancellation = true
  · rw [if_neg (by simp [hcancellation]), reconcile, if_neg hremoval, if_pos hcancellation]
    exact ⟨⟨canceled t.baseline, true⟩, rfl, isIncreasing_canceled _⟩
  have hplace := place?_eq_startIn? (u := u) hstops
  unfold reconcile
  rw [if_neg hremoval, if_neg hcancellation, alignment_eq, hplace]
  rw [Bool.not_eq_true] at hremoval hcancellation
  cases hstart : u.startIn? stops with
  | none =>
    rw [if_pos ⟨hremoval, hcancellation, rfl⟩]
    rfl
  | some start =>
    rw [if_neg fun h => Option.some_ne_none _ h.2.2]
    obtain ⟨r, hr⟩ := ht.intact.exists_patch hrange hforwards hu recovery (hplace.trans hstart)
    exact ⟨r, hr, (patch_isIncreasing rfl hr).2⟩

/-- The last stop of the late trip is put off to 230, and then the stop before it to 250. Both
updates are taken: the second leads back in time at first, but not once its delay fades. -/
theorem reconcile_of_sound_lateTrip :
    (lateTrip.InRange ∧ Forwards lateTrip.calls ∧ lateStops.length = lateTrip.stopCount) ∧
      ∃ r, ((scheduled lateTrip).reconcile lateTrip lateStops (lateNews ⟨"a", "z"⟩ 2 230)
          .standard).run = .ok (.ok r) ∧
        Arises lateTrip r.times ∧
        ∃ r', (r.times.reconcile lateTrip lateStops (lateNews ⟨"a", "y"⟩ 1 250) .standard).run =
            .ok (.ok r') ∧
          r'.times.isIncreasing = .ok true := by
  have hforwards : Forwards lateTrip.calls := by decide
  have hstops : lateStops.length = lateTrip.stopCount := rfl
  have hnews : (lateNews ⟨"a", "z"⟩ 2 230).InRange := inRange_lateNews (by decide)
  have hnews' : (lateNews ⟨"a", "y"⟩ 1 250).InRange := inRange_lateNews (by decide)
  have hfirst := reconcile_of_sound .standard inRange_lateTrip hforwards .published hstops hnews
  rw [if_neg (by decide)] at hfirst
  obtain ⟨r, hr, -⟩ := hfirst
  have harises := Arises.published.reconciled hr
  have hsecond := reconcile_of_sound .standard inRange_lateTrip hforwards harises hstops hnews'
  rw [if_neg (by decide)] at hsecond
  exact ⟨⟨inRange_lateTrip, hforwards, hstops⟩, r, hr, harises, hsecond⟩

end TripTimes

end LiveTimetable
