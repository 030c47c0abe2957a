import LiveTimetable.Calendar.Date

/-!
# Steps along the calendar

`ServiceDate.next` and `ServiceDate.previous` go to the neighbouring days in the order of the
dates, and stay at the ends of the calendar.

* `ServiceDate.lt_iff`: the order, told by year, month and day.
* `ServiceDate.lt_next_iff`: nothing lies between a date and the next one.
* `ServiceDate.previous_mono`: to step back keeps the order, also at the start of the calendar.
-/

namespace LiveTimetable.ServiceDate

variable {a b d : ServiceDate}

/-! ## The order -/

theorem lt_iff : a < b ↔ a.year < b.year ∨
    (a.year = b.year ∧ (a.month < b.month ∨ (a.month = b.month ∧ a.day < b.day))) := by
  show (compare a.year b.year).then ((compare a.month b.month).then (compare a.day b.day)) = .lt ↔ _
  simp only [Ordering.then_eq_lt, Std.LawfulEqCmp.compare_eq_iff_eq, Int.compare_eq_lt,
    Nat.compare_eq_lt]

theorem not_lt_of_lt (h : a < b) : ¬ b < a := by
  rw [lt_iff] at h ⊢
  omega

theorem lt_of_not_lt_of_lt (h : ¬ b < a) (h' : b < d) : a < d := by
  rw [lt_iff] at h h' ⊢
  omega

theorem lt_of_lt_of_not_lt (h : a < b) (h' : ¬ d < b) : a < d := by
  rw [lt_iff] at h h' ⊢
  omega

/-! ## The days of a month -/

theorem month_mem (d : ServiceDate) : 1 ≤ d.month ∧ d.month ≤ 12 := by
  obtain ⟨-, hday, hle⟩ := d.isDay
  unfold daysInMonth at hle
  grind

theorem daysInMonth_mem (year : Int) {month : Nat} (h : 1 ≤ month ∧ month ≤ 12) :
    28 ≤ daysInMonth year month ∧ daysInMonth year month ≤ 31 := by
  unfold daysInMonth
  grind

/-- The last day of the calendar. -/
def last : ServiceDate := ⟨262142, 12, 31, by decide⟩

/-- The first day of the calendar. -/
def first : ServiceDate := ⟨-262143, 1, 1, by decide⟩

theorem ofYmd?_of_isDay {year : Int} {month day : Nat} (h : IsDay year month day) :
    ofYmd? year month day = some ⟨year, month, day, h⟩ := dif_pos h

theorem ofYmd?_of_not {year : Int} {month day : Nat} (h : ¬ IsDay year month day) :
    ofYmd? year month day = none := dif_neg h

/-! ## Neighbours -/

/-- The next day is in the month, or the first of the next month, or the first of the next year;
the last day of the calendar has none. -/
theorem next_cases (d : ServiceDate) :
    (d.day < daysInMonth d.year d.month ∧
      d.next.year = d.year ∧ d.next.month = d.month ∧ d.next.day = d.day + 1) ∨
    (d.day = daysInMonth d.year d.month ∧ d.month < 12 ∧
      d.next.year = d.year ∧ d.next.month = d.month + 1 ∧ d.next.day = 1) ∨
    (d.day = daysInMonth d.year d.month ∧ d.month = 12 ∧
      d.next.year = d.year + 1 ∧ d.next.month = 1 ∧ d.next.day = 1) ∨
    d = last := by
  have hmonth := d.month_mem
  obtain ⟨hyear, hday, hle⟩ := d.isDay
  unfold next
  rcases Nat.lt_or_eq_of_le hle with hlt | heq
  · have h : IsDay d.year d.month (d.day + 1) := ⟨hyear, by omega, by omega⟩
    rw [ofYmd?_of_isDay h]
    exact .inl ⟨hlt, rfl, rfl, rfl⟩
  · rw [ofYmd?_of_not (fun h : IsDay d.year d.month (d.day + 1) => by have := h.2.2; omega)]
    rcases Nat.lt_or_eq_of_le hmonth.2 with hlt | hdecember
    · have h : IsDay d.year (d.month + 1) 1 := by
        have := daysInMonth_mem d.year (show 1 ≤ d.month + 1 ∧ d.month + 1 ≤ 12 by omega)
        exact ⟨hyear, by omega, by omega⟩
      rw [ofYmd?_of_isDay h]
      exact .inr (.inl ⟨heq, hlt, rfl, rfl, rfl⟩)
    · have hnone : ¬ IsDay d.year (d.month + 1) 1 := fun h => by
        have := h.2.2
        rw [hdecember] at this
        exact Nat.not_succ_le_zero 0 this
      rw [ofYmd?_of_not hnone]
      rcases Int.lt_or_eq_of_le hyear.2 with hlt | hend
      · have h : IsDay (d.year + 1) 1 1 := ⟨by omega, by omega, by show 1 ≤ 31; omega⟩
        rw [ofYmd?_of_isDay h]
        exact .inr (.inr (.inl ⟨heq, hdecember, rfl, rfl, rfl⟩))
      · refine .inr (.inr (.inr ?_))
        rw [hdecember] at heq
        cases d
        cases hend
        cases hdecember
        cases heq
        rfl

/-- The day before is in the month, or the last of the month before, or the last of the year
before; the first day of the calendar has none. -/
theorem previous_cases (d : ServiceDate) :
    (1 < d.day ∧
      d.previous.year = d.year ∧ d.previous.month = d.month ∧ d.previous.day = d.day - 1) ∨
    (d.day = 1 ∧ 1 < d.month ∧ d.previous.year = d.year ∧ d.previous.month = d.month - 1 ∧
      d.previous.day = daysInMonth d.year (d.month - 1)) ∨
    (d.day = 1 ∧ d.month = 1 ∧
      d.previous.year = d.year - 1 ∧ d.previous.month = 12 ∧ d.previous.day = 31) ∨
    d = first := by
  have hmonth := d.month_mem
  obtain ⟨hyear, hday, hle⟩ := d.isDay
  unfold previous
  rcases Nat.lt_or_eq_of_le hday with hlt | heq
  · have h : IsDay d.year d.month (d.day - 1) := ⟨hyear, by omega, by omega⟩
    rw [ofYmd?_of_isDay h]
    exact .inl ⟨hlt, rfl, rfl, rfl⟩
  · rw [ofYmd?_of_not (fun h : IsDay d.year d.month (d.day - 1) => by have := h.2.1; omega)]
    rcases Nat.lt_or_eq_of_le hmonth.1 with hlt | hjanuary
    · have h : IsDay d.year (d.month - 1) (daysInMonth d.year (d.month - 1)) := by
        have := daysInMonth_mem d.year (show 1 ≤ d.month - 1 ∧ d.month - 1 ≤ 12 by omega)
        exact ⟨hyear, by omega, by omega⟩
      rw [ofYmd?_of_isDay h]
      exact .inr (.inl ⟨heq.symm, hlt, rfl, rfl, rfl⟩)
    · have hnone : ¬ IsDay d.year (d.month - 1) (daysInMonth d.year (d.month - 1)) := fun h => by
        have := h.2.1
        rw [← hjanuary] at this
        exact Nat.not_succ_le_zero 0 this
      rw [ofYmd?_of_not hnone]
      rcases Int.lt_or_eq_of_le hyear.1 with hlt | hstart
      · have h : IsDay (d.year - 1) 12 31 := ⟨by omega, by omega, by show 31 ≤ 31; omega⟩
        rw [ofYmd?_of_isDay h]
        exact .inr (.inr (.inl ⟨heq.symm, hjanuary.symm, rfl, rfl, rfl⟩))
      · refine .inr (.inr (.inr ?_))
        cases d
        cases hstart
        cases hjanuary
        cases heq
        rfl

/-- Nothing lies between a date and the next one. -/
theorem lt_next_iff (h : d ≠ last) : a < d.next ↔ ¬ d < a := by
  have ha := a.isDay.2
  have hmonth := a.month_mem
  have hsame : a.year = d.year → a.month = d.month → a.day ≤ daysInMonth d.year d.month :=
    fun hy hm => hy ▸ hm ▸ ha.2
  rw [lt_iff, lt_iff]
  rcases d.next_cases with ⟨hday, hy, hm, hn⟩ | ⟨hday, hmon, hy, hm, hn⟩ |
    ⟨hday, hmon, hy, hm, hn⟩ | hlast
  · omega
  · omega
  · omega
  · exact absurd hlast h

/-- Nothing lies between a date and the one before. -/
theorem lt_iff_not_previous_lt (h : d ≠ first) : a < d ↔ ¬ d.previous < a := by
  have hmonth := a.month_mem
  have ha := a.isDay.2
  have hbefore : a.year = d.year → a.month = d.month - 1 →
      a.day ≤ daysInMonth d.year (d.month - 1) := fun hy hm => hy ▸ hm ▸ ha.2
  have hmax := (daysInMonth_mem a.year hmonth).2
  rw [lt_iff, lt_iff]
  rcases d.previous_cases with ⟨hday, hy, hm, hn⟩ | ⟨hday, hmon, hy, hm, hn⟩ |
    ⟨hday, hmon, hy, hm, hn⟩ | hfirst
  · omega
  · omega
  · omega
  · exact absurd hfirst h

/-! ## The ends of the calendar -/

theorem not_lt_first (a : ServiceDate) : ¬ a < first := by
  have hyear := a.isDay.1
  have hday := a.isDay.2
  have hmonth := a.month_mem
  rw [lt_iff]
  show ¬ (a.year < -262143 ∨ (a.year = -262143 ∧ (a.month < 1 ∨ (a.month = 1 ∧ a.day < 1))))
  omega

theorem not_last_lt (a : ServiceDate) : ¬ last < a := by
  have hyear := a.isDay.1
  have hday := a.isDay.2
  have hmonth := a.month_mem
  have hmax := (daysInMonth_mem a.year hmonth).2
  rw [lt_iff]
  show ¬ (262142 < a.year ∨ (262142 = a.year ∧ (12 < a.month ∨ (12 = a.month ∧ 31 < a.day))))
  omega

theorem previous_lt (h : d ≠ first) : d.previous < d :=
  (lt_iff_not_previous_lt h).mpr fun hlt => not_lt_of_lt hlt hlt

/-- A date that was stepped back to is not the last one. -/
theorem previous_ne_last (d : ServiceDate) : d.previous ≠ last := by
  intro hlast
  by_cases h : d = first
  · rw [h] at hlast
    exact absurd hlast (by decide)
  · have hlt := previous_lt h
    rw [hlast] at hlt
    exact not_last_lt d hlt

/-- To step back keeps the order. -/
theorem previous_mono (h : ¬ b < a) : ¬ b.previous < a.previous := by
  by_cases ha : a = first
  · rw [ha]
    exact not_lt_first _
  · have hlt : a.previous < b := lt_of_lt_of_not_lt (previous_lt ha) h
    refine (lt_iff_not_previous_lt fun hb => ?_).mp hlt
    rw [hb] at hlt
    exact not_lt_first _ hlt

end LiveTimetable.ServiceDate
