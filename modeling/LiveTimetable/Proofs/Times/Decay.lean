import LiveTimetable.Proofs.Times.Reading
import LiveTimetable.Proofs.Times.Sheet

/-!
# Reading times under a fading delay

`Decay` works its times out in fixed widths and stops at the first result that does not fit. What
it works out is told here in integers without bounds, and so is when that fits.

* `Decay.delayed_eq`: a delayed time is the published one and what is left of the delay, if both
  that and the sum fit.
* `FadesInRange`: under a fading delay all published times fit.
* `TripTimes.reads_decaying`: then the times read as the faded calls of the sheet.
* `TripTimes.fadesInRange_of_times`, `TripTimes.overflow_of_decaying`: else a result at some stop
  does not fit, and nothing else goes wrong.
* `fadesInRange_of_inRange`: published times within 2^29 seconds of the start of the day
  (`Baseline.InRange`), under a delay within 2^30 seconds, always fit.
-/

namespace LiveTimetable

/-- The time lies within 2^29 seconds of the start of the day; in particular it is real. -/
def ServiceTime.InRange (t : ServiceTime) : Prop := -536870912 ≤ t.toInt ∧ t.toInt ≤ 536870912

instance (t : ServiceTime) : Decidable t.InRange := inferInstanceAs (Decidable (_ ∧ _))

/-- Both times of the call lie within 2^29 seconds of the start of the day. -/
structure Call.InRange (c : Call) : Prop where
  arrival : c.arrival.InRange
  departure : c.departure.InRange

/-- A list of calls that fits into memory, with all times within 2^29 seconds of the start of the
day. -/
structure Baseline.InRange (b : Baseline) : Prop where
  stopCount_lt : b.stopCount < 18446744073709551616
  calls : ∀ c ∈ b.calls, c.InRange

/-! ## Fixed widths -/

/-- The number can be stored in 32 bits. -/
def Fits32 (x : Int) : Prop := -2147483648 ≤ x ∧ x ≤ 2147483647

instance (x : Int) : Decidable (Fits32 x) := inferInstanceAs (Decidable (_ ∧ _))

theorem Checked.int32_of_fits {x : Int} (h : Fits32 x) :
    Checked.int32 x = .ok (Int32.ofInt x) := if_pos h

theorem Checked.int32_of_not_fits {x : Int} (h : ¬ Fits32 x) :
    Checked.int32 x = .error .overflow := if_neg h

theorem Checked.int64_of_mem {x : Int} (hlo : -9223372036854775808 ≤ x)
    (hhi : x ≤ 9223372036854775807) : Checked.int64 x = .ok x := if_pos ⟨hlo, hhi⟩

theorem toInt_ofInt {x : Int} (h : Fits32 x) : (Int32.ofInt x).toInt = x :=
  Int32.toInt_ofInt_of_le h.1 (Int.lt_add_one_of_le h.2)

theorem fits32_toInt (x : Int32) : Fits32 x.toInt := ⟨x.le_toInt, Int.le_of_lt_add_one x.toInt_lt⟩

/-! ## What is left of a delay -/

theorem remaining_zero (rate : Nat) (elapsed : Int) : remaining 0 rate elapsed = 0 := Int.zero_mul _

theorem natAbs_remaining {delay : Int} (h : delay ≠ 0) (rate : Nat) (elapsed : Int) :
    ((remaining delay rate elapsed).natAbs : Int) =
      max 0 (delay.natAbs - max 0 elapsed * rate / 60) := by
  unfold remaining
  rcases Int.lt_or_gt_of_ne h with h | h
  · rw [Int.sign_eq_neg_one_of_neg h, Int.neg_one_mul]
    omega
  · rw [Int.sign_eq_one_of_pos h, Int.one_mul]
    omega

/-- A delay never grows, and keeps its direction. -/
theorem remaining_mem (delay : Int) (rate : Nat) (elapsed : Int) :
    min 0 delay ≤ remaining delay rate elapsed ∧ remaining delay rate elapsed ≤ max 0 delay := by
  have hrec : 0 ≤ max 0 elapsed * (rate : Int) / 60 :=
    Int.ediv_nonneg (Int.mul_nonneg (Int.le_max_left _ _) (Int.natCast_nonneg _)) (by decide)
  unfold remaining
  rcases Int.lt_trichotomy delay 0 with h | h | h
  · rw [Int.sign_eq_neg_one_of_neg h, Int.neg_one_mul]
    omega
  · simp [h]
  · rw [Int.sign_eq_one_of_pos h, Int.one_mul]
    omega

/-- A published time can be worked out under what is left of a delay: the amount of that fits, and
so does the delayed time. -/
def FitsUnder (delay : Int) (rate : Nat) (origin t : ServiceTime) : Prop :=
  Fits32 (remaining delay rate (t.toInt - origin.toInt)).natAbs ∧
    Fits32 (t.toInt + remaining delay rate (t.toInt - origin.toInt))

instance (delay : Int) (rate : Nat) (origin t : ServiceTime) :
    Decidable (FitsUnder delay rate origin t) := inferInstanceAs (Decidable (_ ∧ _))

namespace Decay

variable {d : Decay} {stop : Nat} {origin : Call}

/-- From the first delayed stop on the delay of a time is what is left of the initial one. -/
theorem delayAt_eq (t : ServiceTime) (hstop : d.start ≤ stop)
    (horigin : d.baseline.calls[d.start]? = some origin) (hrate : d.rate ≤ 59) {left : Int}
    (hleft : left = remaining d.initialDelay.toInt d.rate (t.toInt - origin.departure.toInt)) :
    d.delayAt stop t =
      if Fits32 left.natAbs then .ok (Int32.ofInt left) else .error .overflow := by
  have horig := Baseline.departure_of_getElem? horigin
  by_cases hzero : d.initialDelay = 0
  · rw [hzero] at hleft
    rw [delayAt, if_pos (Or.inr hzero), hleft.trans (remaining_zero ..)]
    rfl
  have hne : d.initialDelay.toInt ≠ 0 := fun h => hzero (Int32.toInt_inj.mp h)
  have hnot : ¬(stop < d.start ∨ d.initialDelay = 0) := by
    rintro (h | h)
    · omega
    · exact hzero h
  have helapsed : max 0 (t.toInt - origin.departure.toInt) * (d.rate : Int) ≤ 4294967295 * 59 :=
    Int.mul_le_mul (by have := t.toInt_lt; have := origin.departure.le_toInt; omega) (by omega)
      (Int.natCast_nonneg _) (by decide)
  have hnonneg : 0 ≤ max 0 (t.toInt - origin.departure.toInt) * (d.rate : Int) :=
    Int.mul_nonneg (Int.le_max_left _ _) (Int.natCast_nonneg _)
  rw [delayAt, if_neg hnot, horig, Checked.ok_bind,
    Checked.int64_of_mem (by omega) (by omega), Checked.ok_bind]
  simp only []
  rw [← natAbs_remaining hne, ← hleft]
  by_cases hfits : Fits32 left.natAbs
  · rw [Checked.int32_of_fits hfits, Checked.ok_bind, if_pos hfits]
    have hsign := remaining_mem d.initialDelay.toInt d.rate (t.toInt - origin.departure.toInt)
    rw [← hleft] at hsign
    by_cases hneg : d.initialDelay < 0
    · have hlt : d.initialDelay.toInt < 0 := Int32.lt_iff_toInt_lt.mp hneg
      rw [if_pos hneg, ← Int32.ofInt_neg]
      exact congrArg (fun x => Except.ok (Int32.ofInt x)) (by omega)
    · have hge : ¬ d.initialDelay.toInt < 0 := fun h => hneg (Int32.lt_iff_toInt_lt.mpr h)
      rw [if_neg hneg]
      exact congrArg (fun x => Except.ok (Int32.ofInt x)) (by omega)
  · rw [Checked.int32_of_not_fits hfits, if_neg hfits]
    rfl

/-- **A delayed time is the published one and what is left of the delay**, if that fits. -/
theorem delayed_eq (t : ServiceTime) (hstop : d.start ≤ stop)
    (horigin : d.baseline.calls[d.start]? = some origin) (hrate : d.rate ≤ 59) :
    d.delayed stop t =
      if FitsUnder d.initialDelay.toInt d.rate origin.departure t then
        .ok (Int32.ofInt (t.toInt +
          remaining d.initialDelay.toInt d.rate (t.toInt - origin.departure.toInt)))
      else .error .overflow := by
  have hsign := remaining_mem d.initialDelay.toInt d.rate (t.toInt - origin.departure.toInt)
  have hdelay := fits32_toInt d.initialDelay
  unfold Fits32 at hdelay
  rw [delayed, delayAt_eq t hstop horigin hrate rfl]
  by_cases hleft :
      Fits32 (remaining d.initialDelay.toInt d.rate (t.toInt - origin.departure.toInt)).natAbs
  · rw [if_pos hleft, Checked.ok_bind, ServiceTime.shift,
      toInt_ofInt ⟨by omega, by omega⟩]
    by_cases hsum : Fits32 (t.toInt +
        remaining d.initialDelay.toInt d.rate (t.toInt - origin.departure.toInt))
    · rw [Checked.int32_of_fits hsum, if_pos ⟨hleft, hsum⟩]
    · rw [Checked.int32_of_not_fits hsum, if_neg fun h => hsum h.2]
  · rw [if_neg hleft, if_neg fun h => hleft h.1]
    rfl

theorem arrival_eq {c : Call} (h : d.baseline.calls[stop]? = some c) :
    d.arrival stop = d.delayed stop c.arrival := by
  rw [arrival, Baseline.arrival_of_getElem? h, Checked.ok_bind]

theorem departure_eq {c : Call} (h : d.baseline.calls[stop]? = some c) :
    d.departure stop = d.delayed stop c.departure := by
  rw [departure, Baseline.departure_of_getElem? h, Checked.ok_bind]

/-- Before the first delayed stop times are as published. -/
theorem delayed_of_lt {t : ServiceTime} (hstop : stop < d.start) : d.delayed stop t = .ok t := by
  rw [delayed, delayAt, if_pos (Or.inl hstop), Checked.ok_bind, ServiceTime.shift]
  show Checked.int32 (t.toInt + 0) = _
  rw [Int.add_zero]
  exact Checked.int32_eq_ok_iff.mpr rfl

end Decay

/-! ## The faded calls -/

theorem length_faded (published : List Call) (start : Nat) (delay : Int) (rate : Nat) :
    (faded published start delay rate).length = published.length := by
  unfold faded
  cases published[start]? with
  | none => rfl
  | some origin =>
    simp only [List.length_append, List.length_take, List.length_map, List.length_drop]
    omega

theorem getElem?_faded_of_lt {published : List Call} {start stop : Nat} (delay : Int) (rate : Nat)
    (h : stop < start) : (faded published start delay rate)[stop]? = published[stop]? := by
  unfold faded
  cases horigin : published[start]? with
  | none => rfl
  | some origin =>
    have hlen : start < published.length := (List.getElem?_eq_some_iff.mp horigin).1
    rw [List.getElem?_append_left (by rw [List.length_take]; omega), List.getElem?_take_of_lt h]

theorem getElem?_faded_of_le {published : List Call} {start stop : Nat} {origin : Call}
    (delay : Int) (rate : Nat) (horigin : published[start]? = some origin) (h : start ≤ stop) :
    (faded published start delay rate)[stop]? = published[stop]?.map fun c => { c with
      arrival := Int32.ofInt (c.arrival.toInt +
        remaining delay rate (c.arrival.toInt - origin.departure.toInt))
      departure := Int32.ofInt (c.departure.toInt +
        remaining delay rate (c.departure.toInt - origin.departure.toInt)) } := by
  have hlen : start < published.length := (List.getElem?_eq_some_iff.mp horigin).1
  have htake : (published.take start).length = start := by
    rw [List.length_take]
    omega
  unfold faded
  rw [horigin]
  simp only []
  rw [List.getElem?_append_right (by omega), htake, List.getElem?_map, List.getElem?_drop,
    Nat.add_sub_cancel' h]

/-! ## Delays that fit -/

/-- Under a delay that fades from stop `start` on, all published times can be worked out. -/
def FadesInRange (published : List Call) (start : Nat) (delay : Int) (rate : Nat) : Prop :=
  ∀ origin ∈ published[start]?, ∀ c ∈ published.drop start,
    FitsUnder delay rate origin.departure c.arrival ∧
      FitsUnder delay rate origin.departure c.departure

instance (published : List Call) (start : Nat) (delay : Int) (rate : Nat) :
    Decidable (FadesInRange published start delay rate) :=
  inferInstanceAs (Decidable (∀ origin ∈ published[start]?, ∀ c ∈ published.drop start, _ ∧ _))

/-- Moderate times under a moderate delay can be worked out. -/
theorem fadesInRange_of_inRange {published : List Call} (hrange : ∀ c ∈ published, c.InRange)
    {delay : Int} (hlo : -1073741824 ≤ delay) (hhi : delay ≤ 1073741824) (start rate : Nat) :
    FadesInRange published start delay rate := by
  have hfits : ∀ origin t : ServiceTime, t.InRange → FitsUnder delay rate origin t := by
    rintro origin t ⟨htlo, hthi⟩
    have hmem := remaining_mem delay rate (t.toInt - origin.toInt)
    unfold FitsUnder Fits32
    omega
  intro origin _ c hc
  obtain ⟨harrival, hdeparture⟩ := hrange c (List.mem_of_mem_drop hc)
  exact ⟨hfits _ _ harrival, hfits _ _ hdeparture⟩

namespace TripTimes

variable {d : Decay}

theorem mem_drop_of_getElem? {cs : List Call} {start stop : Nat} {c : Call} (hle : start ≤ stop)
    (h : cs[stop]? = some c) : c ∈ cs.drop start := by
  refine List.mem_of_getElem? (i := stop - start) ?_
  rw [List.getElem?_drop, Nat.add_sub_cancel' hle]
  exact h

/-- Times under a fading delay that are worked out at every stop are in range. -/
theorem fadesInRange_of_times (hrate : d.rate ≤ 59)
    (htimes : ∀ stop < d.baseline.stopCount, ∃ arrival departure,
      d.arrival stop = .ok arrival ∧ d.departure stop = .ok departure) :
    FadesInRange d.baseline.calls d.start d.initialDelay.toInt d.rate := by
  intro origin horigin c hc
  obtain ⟨i, hi⟩ := List.getElem?_of_mem hc
  rw [List.getElem?_drop] at hi
  have hdelayed : ∀ t t', d.delayed (d.start + i) t = .ok t' →
      FitsUnder d.initialDelay.toInt d.rate origin.departure t := by
    intro t t' ht
    rw [Decay.delayed_eq t (Nat.le_add_right ..) horigin hrate] at ht
    split at ht
    · assumption
    · cases ht
  obtain ⟨arrival, departure, harr, hdep⟩ := htimes _ (List.getElem?_eq_some_iff.mp hi).1
  exact ⟨hdelayed _ _ ((Decay.arrival_eq hi).symm.trans harr),
    hdelayed _ _ ((Decay.departure_eq hi).symm.trans hdep)⟩

/-- The only fault that times under a fading delay lead to is a result that does not fit. -/
theorem overflow_of_decaying (hrate : d.rate ≤ 59) {stop : Nat}
    (hstop : stop < d.baseline.stopCount) {fault : Fault}
    (h : d.arrival stop = .error fault ∨ d.departure stop = .error fault) :
    fault = .overflow := by
  have hdelayed : ∀ t, d.delayed stop t = .error fault → fault = .overflow := by
    intro t ht
    rcases Nat.lt_or_ge stop d.start with hlt | hge
    · rw [Decay.delayed_of_lt hlt] at ht
      cases ht
    · have horigin := List.getElem?_eq_getElem (Nat.lt_of_le_of_lt hge hstop)
      rw [Decay.delayed_eq t hge horigin hrate] at ht
      split at ht
      · cases ht
      · exact (Except.error.inj ht).symm
  have hc := List.getElem?_eq_getElem hstop
  rw [Decay.arrival_eq hc, Decay.departure_eq hc] at h
  exact h.elim (hdelayed _) (hdelayed _)

/-- **Times under a fading delay read as the faded calls**, if all of them can be worked out. -/
theorem reads_decaying (hrate : d.rate ≤ 59)
    (hfades : FadesInRange d.baseline.calls d.start d.initialDelay.toInt d.rate) :
    (decaying d).Reads (faded d.baseline.calls d.start d.initialDelay.toInt d.rate) := by
  refine ⟨length_faded .., fun stop c hc => ?_⟩
  have hstop : stop < d.baseline.calls.length := by
    rw [← length_faded d.baseline.calls d.start d.initialDelay.toInt d.rate]
    exact (List.getElem?_eq_some_iff.mp hc).1
  have hp := List.getElem?_eq_getElem hstop
  have hread := readsAt_scheduled hp
  rcases Nat.lt_or_ge stop d.start with hlt | hge
  · rw [getElem?_faded_of_lt _ _ hlt, hp] at hc
    cases hc
    exact ⟨(Decay.arrival_eq hp).trans (Decay.delayed_of_lt hlt),
      (Decay.departure_eq hp).trans (Decay.delayed_of_lt hlt), hread.access⟩
  · have hstart : d.start < d.baseline.calls.length := by omega
    have horigin := List.getElem?_eq_getElem hstart
    obtain ⟨harr, hdep⟩ := hfades _ horigin _ (mem_drop_of_getElem? hge hp)
    rw [getElem?_faded_of_le _ _ horigin hge, hp, Option.map_some] at hc
    cases hc
    refine ⟨?_, ?_, hread.access⟩
    · show d.arrival stop = _
      rw [Decay.arrival_eq hp, Decay.delayed_eq _ hge horigin hrate, if_pos harr]
    · show d.departure stop = _
      rw [Decay.departure_eq hp, Decay.delayed_eq _ hge horigin hrate, if_pos hdep]

end TripTimes

end LiveTimetable
