import LiveTimetable.Proofs.Times.Reading
import LiveTimetable.Proofs.Times.Sheet
import LiveTimetable.Times.Measure

/-!
# The check that times run forwards

`TripTimes.isIncreasing` walks along a trip with the latest time so far. On times that read as the
calls `cs` it decides `Forwards cs` (`Reads.isIncreasing_eq`): that the real times, taken by
themselves, never decrease. What the check answers depends on what is read at the stops and on
nothing else (`isIncreasing_congr`).
-/

namespace LiveTimetable

/-! ## Real times -/

/-- A time as a list, without it if it is a marker. -/
def realTime (t : ServiceTime) : List ServiceTime := if ServiceTime.isMarker t then [] else [t]

theorem realTimes_cons (c : Call) (cs : List Call) :
    realTimes (c :: cs) = realTime c.arrival ++ (realTime c.departure ++ realTimes cs) := by
  unfold realTimes realTime
  cases ha : ServiceTime.isMarker c.arrival <;> cases hd : ServiceTime.isMarker c.departure <;>
    simp [ha, hd]

theorem pairwise_cons_cons_iff {last t : ServiceTime} {rest : List ServiceTime} :
    (last :: t :: rest).Pairwise (· ≤ ·) ↔ last ≤ t ∧ (t :: rest).Pairwise (· ≤ ·) := by
  constructor
  · intro h
    obtain ⟨hlast, hrest⟩ := List.pairwise_cons.mp h
    exact ⟨hlast t List.mem_cons_self, hrest⟩
  · rintro ⟨hle, h⟩
    refine List.pairwise_cons.mpr ⟨fun x hx => ?_, h⟩
    rcases List.mem_cons.mp hx with rfl | hx
    · exact hle
    · exact Int32.le_trans hle ((List.pairwise_cons.mp h).1 x hx)

theorem passed_le (t : ServiceTime) : ServiceTime.passed ≤ t := by
  rw [Int32.le_iff_toInt_le]
  exact t.le_toInt

namespace TripTimes

/-- The walk steps on exactly if the time that it reaches is not behind the latest one. -/
theorem advance?_eq_some_iff {last t : ServiceTime} {rest : List ServiceTime} :
    (∃ next, advance? last t = some next ∧ (next :: rest).Pairwise (· ≤ ·)) ↔
      (last :: (realTime t ++ rest)).Pairwise (· ≤ ·) := by
  unfold advance? realTime
  by_cases hm : ServiceTime.isMarker t = true
  · rw [if_pos hm, if_pos hm]
    simp
  · rw [if_neg hm, if_neg hm]
    show _ ↔ (last :: t :: rest).Pairwise (· ≤ ·)
    rw [pairwise_cons_cons_iff]
    by_cases hlt : t < last
    · rw [if_pos hlt]
      simp [Int32.not_le.mpr hlt]
    · rw [if_neg hlt]
      simp [Int32.not_lt.mp hlt]

variable {s t : TripTimes} {cs : List Call}

/-- The walk over stops that read as `cs` decides whether their real times and the latest one
never decrease. -/
theorem isIncreasingFrom_eq :
    ∀ (cs : List Call) (stop : Nat) (last : ServiceTime),
      (∀ i c, cs[i]? = some c → t.ReadsAt (stop + i) c) →
      t.isIncreasingFrom cs.length stop last =
        .ok (decide ((last :: realTimes cs).Pairwise (· ≤ ·)))
  | [], _, _, _ => by
    rw [decide_eq_true (by simp [realTimes])]
    rfl
  | c :: cs, stop, last, hread => by
    have hc : t.ReadsAt stop c := hread 0 c rfl
    have hrest : ∀ i c', cs[i]? = some c' → t.ReadsAt (stop + 1 + i) c' := fun i c' h => by
      rw [Nat.add_assoc, Nat.add_comm 1]
      exact hread (i + 1) c' h
    rw [List.length_cons, isIncreasingFrom, hc.arrival, Checked.ok_bind, hc.departure,
      Checked.ok_bind, realTimes_cons]
    cases ha : advance? last c.arrival with
    | none =>
      rw [decide_eq_false (mt advance?_eq_some_iff.mpr (by simp [ha]))]
      rfl
    | some next =>
      have harr : (last :: (realTime c.arrival ++ (realTime c.departure ++ realTimes cs))).Pairwise
          (· ≤ ·) ↔ (next :: (realTime c.departure ++ realTimes cs)).Pairwise (· ≤ ·) := by
        rw [← advance?_eq_some_iff]
        simp [ha]
      rw [Option.bind_some, decide_eq_decide.mpr harr]
      cases hd : advance? next c.departure with
      | none =>
        rw [decide_eq_false (mt advance?_eq_some_iff.mpr (by simp [hd]))]
        rfl
      | some after =>
        have hdep : (next :: (realTime c.departure ++ realTimes cs)).Pairwise (· ≤ ·) ↔
            (after :: realTimes cs).Pairwise (· ≤ ·) := by
          rw [← advance?_eq_some_iff]
          simp [hd]
        rw [decide_eq_decide.mpr hdep]
        exact isIncreasingFrom_eq cs (stop + 1) after hrest

/-- **The check decides that the real times never decrease.** -/
theorem Reads.isIncreasing_eq (h : t.Reads cs) : t.isIncreasing = .ok (decide (Forwards cs)) := by
  have hfirst : (ServiceTime.passed :: realTimes cs).Pairwise (· ≤ ·) ↔ Forwards cs := by
    rw [List.pairwise_cons]
    exact and_iff_right fun x _ => passed_le x
  unfold isIncreasing
  rw [← h.length_eq, isIncreasingFrom_eq cs 0 _ fun i c hc =>
    (Nat.zero_add i).symm ▸ h.readsAt i c hc, decide_eq_decide.mpr hfirst]

/-- The walk reads nothing but the stops. -/
theorem isIncreasingFrom_congr (hsame : ∀ stop, s.SameAt t stop) :
    ∀ (count stop : Nat) (last : ServiceTime),
      s.isIncreasingFrom count stop last = t.isIncreasingFrom count stop last
  | 0, _, _ => rfl
  | count + 1, stop, last => by
    rw [isIncreasingFrom, isIncreasingFrom, (hsame stop).arrival, (hsame stop).departure]
    simp only [isIncreasingFrom_congr hsame count]

theorem isIncreasing_congr (hcount : s.stopCount = t.stopCount)
    (hsame : ∀ stop, s.SameAt t stop) : s.isIncreasing = t.isIncreasing := by
  unfold isIncreasing
  rw [hcount, isIncreasingFrom_congr hsame]

/-- Readable times are in range at every stop. -/
theorem Readable.check_eq (h : t.Readable) : t.check = .ok () := by
  have hall : ∀ stops : List Nat, (∀ stop ∈ stops, stop < t.stopCount) →
      t.checkTimes stops = .ok () := by
    intro stops hstops
    induction stops with
    | nil => rfl
    | cons stop rest ih =>
      obtain ⟨c, hc⟩ := h stop (hstops stop List.mem_cons_self)
      rw [checkTimes, hc.arrival, Checked.ok_bind, hc.departure, Checked.ok_bind]
      exact ih fun stop' hs => hstops stop' (List.mem_cons_of_mem _ hs)
  exact hall _ fun stop hs => List.mem_range.mp hs

end TripTimes

end LiveTimetable
