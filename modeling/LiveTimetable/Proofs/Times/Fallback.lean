import LiveTimetable.Proofs.Times.Decay
import LiveTimetable.Proofs.Times.Forwards
import LiveTimetable.Times.Reconcile

/-!
# The delay that is seen in patched times

Patched times that step back are given up for a fading delay, seen at the first patched stop with
two real times. The stop and the delay are those of the sheet, if the differences that they are
worked out from fit (`SeenInRange`); if one does not, that is a fault.

* `TripTimes.seed_eq`, `TripTimes.fallback_eq`: what the fallback is.
* `TripTimes.reads_fading`: it reads as the faded calls of the sheet, if these fit as well.
* `seenInRange_of_sound`, `TripTimes.fallback_reads`: everything fits as long as real times lie
  within 2^29 seconds of the start of the day.
-/

namespace LiveTimetable

/-- If the call has two real times, these are within 2^29 seconds of the start of the day. -/
def Call.Sound (c : Call) : Prop := c.isTimed = true → c.InRange

theorem Call.InRange.sound {c : Call} (h : c.InRange) : c.Sound := fun _ => h

theorem Call.isTimed_eq (c : Call) :
    c.isTimed = !(ServiceTime.isMarker c.arrival || ServiceTime.isMarker c.departure) :=
  (Bool.not_or _ _).symm

/-! ## Differences that fit -/

/-- The least delay that counts at a stop can be worked out. -/
def LeastInRange (published : List Call) (stop : Nat) : Prop :=
  0 < stop → ∀ q ∈ published[stop - 1]?, ∀ c ∈ published[stop]?,
    Fits32 (q.departure.toInt - c.arrival.toInt)

instance (published : List Call) (stop : Nat) : Decidable (LeastInRange published stop) :=
  inferInstanceAs (Decidable (_ → ∀ q ∈ published[stop - 1]?, ∀ c ∈ published[stop]?, _))

/-- The delay that is seen in patched calls can be worked out, and so can the least one there. -/
def SeenInRange (published patched : List Call) (start count : Nat) : Prop :=
  ∀ o ∈ observed? published patched start count, Fits32 o.2 ∧ LeastInRange published o.1

instance (published patched : List Call) (start count : Nat) :
    Decidable (SeenInRange published patched start count) :=
  inferInstanceAs (Decidable (∀ o ∈ observed? published patched start count, _ ∧ _))

theorem since_eq (t t' : ServiceTime) : ServiceTime.since t t' =
    if Fits32 (t.toInt - t'.toInt) then .ok (Int32.ofInt (t.toInt - t'.toInt))
    else .error .overflow := rfl

section Observed

variable {published cs : List Call} {start count : Nat}

/-- What is observed is the difference of two departures at one of the stops that were searched. -/
theorem observed?_spec {o : Nat × Int} (h : observed? published cs start count = some o) :
    o.1 ∈ List.range' start count ∧ ∃ c q, cs[o.1]? = some c ∧ published[o.1]? = some q ∧
      c.isTimed = true ∧ o.2 = c.departure.toInt - q.departure.toInt := by
  obtain ⟨stop, hmem, hstop⟩ := List.exists_of_findSome?_eq_some h
  split at hstop
  · rename_i c q hc hq
    split at hstop
    · rename_i htimed
      cases hstop
      exact ⟨hmem, c, q, hc, hq, htimed, rfl⟩
    · cases hstop
  · cases hstop

theorem lt_of_observed? {o : Nat × Int} (h : observed? published cs start count = some o) :
    o.1 < published.length := by
  obtain ⟨-, c, q, -, hq, -⟩ := observed?_spec h
  exact (List.getElem?_eq_some_iff.mp hq).1

/-- A bounded delay fits if the delay and the bound do. -/
theorem bounded_fits {stop : Nat} {delay : Int} (hdelay : Fits32 delay)
    (hleast : LeastInRange published stop) : Fits32 (bounded published stop delay) := by
  unfold bounded
  split
  · exact hdelay
  · split
    · rename_i q c hq hc
      have hfits := hleast (Nat.succ_pos _) q hq c hc
      unfold Fits32 at hdelay hfits ⊢
      omega
    · exact hdelay

theorem fadeOrigin_fits (hseen : SeenInRange published cs start count) :
    Fits32 (fadeOrigin published cs start count).2 := by
  unfold fadeOrigin
  cases ho : observed? published cs start count with
  | none => exact (by decide : Fits32 0)
  | some o => exact bounded_fits (hseen o ho).1 (hseen o ho).2

section Moderate

variable (hrange : ∀ c ∈ published, c.InRange)
  (hsound : ∀ stop ∈ List.range' start count, ∀ c ∈ cs[stop]?, c.Sound)

include hrange hsound

/-- Between moderate times no delay of years is observed. -/
theorem observed?_bounds {o : Nat × Int} (h : observed? published cs start count = some o) :
    -1073741824 ≤ o.2 ∧ o.2 ≤ 1073741824 := by
  obtain ⟨hmem, c, q, hc, hq, htimed, hdelay⟩ := observed?_spec h
  obtain ⟨h1, h2⟩ := (hsound _ hmem c hc htimed).departure
  obtain ⟨h3, h4⟩ := (hrange q (List.mem_of_getElem? hq)).departure
  omega

/-- The delay that is seen in moderate times can be worked out. -/
theorem seenInRange_of_sound : SeenInRange published cs start count := by
  intro o ho
  obtain ⟨hlo, hhi⟩ := observed?_bounds hrange hsound ho
  refine ⟨⟨by omega, by omega⟩, fun _ q hq c hc => ?_⟩
  obtain ⟨h1, h2⟩ := (hrange q (List.mem_of_getElem? hq)).departure
  obtain ⟨h3, h4⟩ := (hrange c (List.mem_of_getElem? hc)).arrival
  exact ⟨by omega, by omega⟩

theorem fadeOrigin_bounds : -1073741824 ≤ (fadeOrigin published cs start count).2 ∧
    (fadeOrigin published cs start count).2 ≤ 1073741824 := by
  unfold fadeOrigin
  cases ho : observed? published cs start count with
  | none =>
    simp only []
    omega
  | some o =>
    obtain ⟨hlo, hhi⟩ := observed?_bounds hrange hsound ho
    simp only [bounded]
    split
    · exact ⟨hlo, hhi⟩
    · split
      · rename_i q c hq hc
        obtain ⟨h1, h2⟩ := (hrange q (List.mem_of_getElem? hq)).departure
        obtain ⟨h3, h4⟩ := (hrange c (List.mem_of_getElem? hc)).arrival
        omega
      · exact ⟨hlo, hhi⟩

end Moderate

end Observed

namespace TripTimes

variable {p : Baseline} {t : TripTimes} {cs : List Call}

/-! ## What is observed -/

/-- The delay that is found is the one observed in the calls, if it fits. -/
theorem observedDelay?_eq (hread : t.Reads cs) : ∀ (count stop : Nat),
    stop + count ≤ t.stopCount → t.observedDelay? t.baseline count stop =
      match observed? t.baseline.calls cs stop count with
      | none => .ok none
      | some (i, delay) =>
        if Fits32 delay then .ok (some (i, Int32.ofInt delay)) else .error .overflow
  | 0, _, _ => rfl
  | count + 1, stop, hfit => by
    have hlt : stop < cs.length := by
      rw [hread.length_eq]
      omega
    have hlt' : stop < t.baseline.calls.length := by
      show stop < t.stopCount
      omega
    have hc := hread.readsAt stop _ (List.getElem?_eq_getElem hlt)
    have hdep := Baseline.departure_of_getElem? (List.getElem?_eq_getElem hlt')
    have ih := observedDelay?_eq hread count (stop + 1) (by omega)
    rw [observedDelay?, hc.arrival, Checked.ok_bind, hc.departure, Checked.ok_bind]
    unfold observed? at ih ⊢
    rw [List.range'_succ, List.findSome?_cons, List.getElem?_eq_getElem hlt,
      List.getElem?_eq_getElem hlt']
    have htimed := Call.isTimed_eq cs[stop]
    cases hm : (ServiceTime.isMarker cs[stop].arrival || ServiceTime.isMarker cs[stop].departure)
    · rw [hm, Bool.not_false] at htimed
      simp only [htimed, Bool.false_eq_true, if_false, if_true]
      rw [hdep, Checked.ok_bind, since_eq]
      split <;> rfl
    · rw [hm, Bool.not_true] at htimed
      simp only [htimed, if_true, Bool.false_eq_true, if_false]
      exact ih

/-! ## The least delay -/

theorem leastDelay_zero (p : Baseline) : leastDelay p 0 = .ok ServiceTime.passed := rfl

theorem leastDelay_succ {previous : Nat} {q c : Call} (hq : p.calls[previous]? = some q)
    (hc : p.calls[previous + 1]? = some c) : leastDelay p (previous + 1) =
      if Fits32 (q.departure.toInt - c.arrival.toInt) then
        .ok (Int32.ofInt (min 0 (q.departure.toInt - c.arrival.toInt)))
      else .error .overflow := by
  rw [leastDelay, Baseline.departure_of_getElem? hq, Checked.ok_bind,
    Baseline.arrival_of_getElem? hc, Checked.ok_bind, since_eq]
  by_cases hfits : Fits32 (q.departure.toInt - c.arrival.toInt)
  · have hint := toInt_ofInt hfits
    rw [if_pos hfits, if_pos hfits, Checked.ok_bind]
    split
    · rename_i hneg
      have : q.departure.toInt - c.arrival.toInt < 0 := by
        rw [← hint]
        exact Int32.lt_iff_toInt_lt.mp hneg
      rw [Int.min_eq_right (by omega)]
      rfl
    · rename_i hneg
      have : ¬ q.departure.toInt - c.arrival.toInt < 0 := by
        rw [← hint]
        exact fun h => hneg (Int32.lt_iff_toInt_lt.mpr h)
      rw [Int.min_eq_left (by omega)]
      rfl
  · rw [if_neg hfits, if_neg hfits]
    rfl

/-- Taking the later of a delay and the least one is bounding the delay. -/
theorem bounded_eq {stop : Nat} {delay : Int} (hstop : stop < p.calls.length)
    (hdelay : Fits32 delay) (hleast : LeastInRange p.calls stop) :
    ∃ least, leastDelay p stop = .ok least ∧
      (if Int32.ofInt delay < least then least else Int32.ofInt delay) =
        Int32.ofInt (bounded p.calls stop delay) := by
  have hint := toInt_ofInt hdelay
  cases stop with
  | zero =>
    refine ⟨_, leastDelay_zero p, ?_⟩
    rw [if_neg (Int32.not_lt.mpr (passed_le _))]
    rfl
  | succ previous =>
    have hq := List.getElem?_eq_getElem (Nat.lt_of_succ_lt hstop)
    have hc := List.getElem?_eq_getElem hstop
    have hfits := hleast (Nat.succ_pos _) _ hq _ hc
    have hmin : Fits32 (min 0 (p.calls[previous].departure.toInt -
        p.calls[previous + 1].arrival.toInt)) := by
      unfold Fits32 at hfits ⊢
      omega
    have hbound := toInt_ofInt hmin
    unfold bounded
    simp only [hq, hc]
    refine ⟨_, (leastDelay_succ hq hc).trans (if_pos hfits), ?_⟩
    split
    · rename_i hlt
      rw [Int32.lt_iff_toInt_lt, hint, hbound] at hlt
      rw [Int.max_eq_right (Int.le_of_lt hlt)]
    · rename_i hlt
      rw [Int32.lt_iff_toInt_lt, hint, hbound] at hlt
      rw [Int.max_eq_left (by omega)]

theorem leastDelay_of_not_inRange {stop : Nat} (hstop : stop < p.calls.length)
    (hleast : ¬ LeastInRange p.calls stop) : leastDelay p stop = .error .overflow := by
  cases stop with
  | zero => exact absurd (fun h => absurd h (Nat.lt_irrefl 0)) hleast
  | succ previous =>
    have hq := List.getElem?_eq_getElem (Nat.lt_of_succ_lt hstop)
    have hc := List.getElem?_eq_getElem hstop
    refine (leastDelay_succ hq hc).trans (if_neg fun hfits => hleast fun _ q hq' c hc' => ?_)
    cases hq.symm.trans hq'
    cases hc.symm.trans hc'
    exact hfits

/-! ## The fallback -/

/-- The stop and the delay from which the fallback starts are those of the sheet, if they can be
worked out. -/
theorem seed_eq (hread : t.Reads cs) {start span : Nat} (hfit : start + span ≤ t.stopCount) :
    t.seed t.baseline start span = if SeenInRange t.baseline.calls cs start span then
      .ok ((fadeOrigin t.baseline.calls cs start span).1,
        Int32.ofInt (fadeOrigin t.baseline.calls cs start span).2)
    else .error .overflow := by
  unfold TripTimes.seed fadeOrigin
  rw [observedDelay?_eq hread span start hfit]
  cases ho : observed? t.baseline.calls cs start span with
  | none =>
    have hseen : SeenInRange t.baseline.calls cs start span := by
      intro o ho'
      rw [ho] at ho'
      cases ho'
    rw [if_pos hseen]
    rfl
  | some o =>
    obtain ⟨stop, delay⟩ := o
    have hseen : SeenInRange t.baseline.calls cs start span ↔
        Fits32 delay ∧ LeastInRange t.baseline.calls stop := by
      unfold SeenInRange
      rw [ho]
      constructor
      · intro h
        exact h _ rfl
      · rintro h _ ⟨⟩
        exact h
    have hstop : stop < t.baseline.calls.length := lt_of_observed? ho
    simp only [hseen]
    by_cases hdelay : Fits32 delay
    · rw [if_pos hdelay, Checked.ok_bind]
      by_cases hleast : LeastInRange t.baseline.calls stop
      · obtain ⟨least, hfound, hbound⟩ := bounded_eq hstop hdelay hleast
        rw [if_pos ⟨hdelay, hleast⟩]
        simp only [hfound, Checked.ok_bind, hbound]
        rfl
      · rw [if_neg fun h => hleast h.2]
        simp only [leastDelay_of_not_inRange hstop hleast]
        rfl
    · rw [if_neg hdelay, if_neg fun h => hdelay h.1]
      rfl

/-- The fading delay that is seen in times which read as the given calls. -/
def fading (t : TripTimes) (cs : List Call) (u : TripUpdate) (start : Nat) (recovery : Recovery) :
    Decay where
  baseline := t.baseline
  start := (fadeOrigin t.baseline.calls cs start u.patches.length).1
  initialDelay := Int32.ofInt (fadeOrigin t.baseline.calls cs start u.patches.length).2
  rate := recovery.secondsPerMinute
  wheelchair := u.wheelchair.getD t.baseline.trip.wheelchair

/-- **The fallback is the fading delay that is seen in the times**, if it can be worked out. -/
theorem fallback_eq (hread : t.Reads cs) {u : TripUpdate} {start : Nat} (recovery : Recovery)
    (hfit : start + u.patches.length ≤ t.stopCount) :
    t.fallback t.baseline u start recovery =
      if SeenInRange t.baseline.calls cs start u.patches.length then
        .ok (decaying (t.fading cs u start recovery))
      else .error .overflow := by
  rw [fallback, seed_eq hread hfit]
  split <;> rfl

/-- The fading delay reads as the faded calls of the sheet. -/
theorem reads_fading (u : TripUpdate) {start : Nat} (recovery : Recovery)
    (hseen : SeenInRange t.baseline.calls cs start u.patches.length)
    (hfades : FadesInRange t.baseline.calls
      (fadeOrigin t.baseline.calls cs start u.patches.length).1
      (fadeOrigin t.baseline.calls cs start u.patches.length).2 recovery.secondsPerMinute) :
    (decaying (t.fading cs u start recovery)).Reads (faded t.baseline.calls
      (fadeOrigin t.baseline.calls cs start u.patches.length).1
      (fadeOrigin t.baseline.calls cs start u.patches.length).2 recovery.secondsPerMinute) := by
  have hint : (t.fading cs u start recovery).initialDelay.toInt =
      (fadeOrigin t.baseline.calls cs start u.patches.length).2 :=
    toInt_ofInt (fadeOrigin_fits hseen)
  have hreads := reads_decaying (d := t.fading cs u start recovery) recovery.inRange.2
    (by rw [hint]; exact hfades)
  rw [hint] at hreads
  exact hreads

/-- **The fallback from moderate times reads as the faded calls of the sheet.** -/
theorem fallback_reads (hrange : t.baseline.InRange) (hread : t.Reads cs)
    (hsound : ∀ c ∈ cs, c.Sound) {u : TripUpdate} {start : Nat} (recovery : Recovery)
    (hfit : start + u.patches.length ≤ t.stopCount) :
    ∃ d : Decay, t.fallback t.baseline u start recovery = .ok (decaying d) ∧
      d.baseline = t.baseline ∧
      d.wheelchair = u.wheelchair.getD t.baseline.trip.wheelchair ∧
      (decaying d).Reads (faded t.baseline.calls
        (fadeOrigin t.baseline.calls cs start u.patches.length).1
        (fadeOrigin t.baseline.calls cs start u.patches.length).2
        recovery.secondsPerMinute) := by
  have hstretch : ∀ stop ∈ List.range' start u.patches.length, ∀ c ∈ cs[stop]?, c.Sound :=
    fun stop _ c hc => hsound c (List.mem_of_getElem? hc)
  have hseen := seenInRange_of_sound hrange.calls hstretch
  obtain ⟨hlo, hhi⟩ := fadeOrigin_bounds hrange.calls hstretch
  exact ⟨t.fading cs u start recovery, (fallback_eq hread recovery hfit).trans (if_pos hseen), rfl,
    rfl, reads_fading u recovery hseen (fadesInRange_of_inRange hrange.calls hlo hhi _ _)⟩

end TripTimes

end LiveTimetable
