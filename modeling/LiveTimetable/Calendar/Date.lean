import LiveTimetable.Text.Padded
import LiveTimetable.Text.Quoted

/-!
# Service dates

The day a trip belongs to, in the proleptic Gregorian calendar: leap years follow the rule of
today back to the year 0 and before it. A `ServiceDate` carries the proof that it names a day
that exists, within the years -262143 to 262142.

* `ServiceDate.text` and `ServiceDate.parse` go between a date and its form `YYYYMMDD`; only the
  years 0 to 9999 have eight digits, so only those can be read back.
* `ServiceDate.next` and `ServiceDate.previous` step by one day and stay at the ends of the
  calendar.
* `ServiceDate.dayNumber` counts days from 1970-01-01.
-/

namespace LiveTimetable

/-- Years divisible by four, but of the full centuries only every fourth. -/
def isLeapYear (year : Int) : Bool :=
  year % 4 == 0 && (year % 100 != 0 || year % 400 == 0)

/-- The number of days in a month; a month that does not exist has none. -/
def daysInMonth (year : Int) : Nat → Nat
  | 1 | 3 | 5 | 7 | 8 | 10 | 12 => 31
  | 4 | 6 | 9 | 11 => 30
  | 2 => if isLeapYear year then 29 else 28
  | _ => 0

/-- Whether year, month and day name a day of the calendar. -/
def IsDay (year : Int) (month day : Nat) : Prop :=
  (-262143 ≤ year ∧ year ≤ 262142) ∧ 1 ≤ day ∧ day ≤ daysInMonth year month

instance (year : Int) (month day : Nat) : Decidable (IsDay year month day) :=
  inferInstanceAs (Decidable (_ ∧ _))

/-- The calendar day a trip belongs to. -/
structure ServiceDate where
  year : Int
  month : Nat
  day : Nat
  isDay : IsDay year month day
  deriving DecidableEq

/-- A text that was to be a date. -/
structure ServiceDate.Rejected where
  input : String
  deriving DecidableEq

namespace ServiceDate

/-- The date of a year, month and day, if there is one. -/
def ofYmd? (year : Int) (month day : Nat) : Option ServiceDate :=
  if h : IsDay year month day then some ⟨year, month, day, h⟩ else none

/-! ## Text -/

/-- The form `YYYYMMDD`; a minus sign counts toward the four places of the year. -/
def text (d : ServiceDate) : String :=
  Text.zeroPadded 4 d.year ++ Text.zeroPadded 2 d.month ++ Text.zeroPadded 2 d.day

/-- The number that a list of ASCII digits stands for. -/
def numeral (cs : List Char) : Nat :=
  cs.foldl (fun n c => 10 * n + (c.toNat - '0'.toNat)) 0

/-- The date of eight ASCII digits `YYYYMMDD`. -/
def parse (s : String) : Except Rejected ServiceDate :=
  let cs := s.toList
  if cs.length = 8 ∧ cs.all Char.isDigit = true then
    match ofYmd? (numeral (cs.take 4)) (numeral ((cs.drop 4).take 2)) (numeral (cs.drop 6)) with
    | some d => .ok d
    | none => .error ⟨s⟩
  else .error ⟨s⟩

/-- The wording of a rejection. -/
def Rejected.message (r : Rejected) : String :=
  "invalid service date " ++ Text.quote r.input ++ ": expected YYYYMMDD"

/-! ## Steps -/

/-- The day after, or the same day at the end of the calendar. -/
def next (d : ServiceDate) : ServiceDate :=
  (ofYmd? d.year d.month (d.day + 1)
    <|> ofYmd? d.year (d.month + 1) 1
    <|> ofYmd? (d.year + 1) 1 1).getD d

/-- The day before, or the same day at the start of the calendar. -/
def previous (d : ServiceDate) : ServiceDate :=
  (ofYmd? d.year d.month (d.day - 1)
    <|> ofYmd? d.year (d.month - 1) (daysInMonth d.year (d.month - 1))
    <|> ofYmd? (d.year - 1) 12 31).getD d

/-! ## Order -/

instance : Ord ServiceDate :=
  ⟨compareLex (compareOn ServiceDate.year)
    (compareLex (compareOn ServiceDate.month) (compareOn ServiceDate.day))⟩

instance : Std.TransOrd ServiceDate := inferInstanceAs (Std.TransCmp (compareLex _ _))

instance : Std.LawfulEqOrd ServiceDate where
  eq_of_compare {a b} h := by
    obtain ⟨hy, h⟩ := Ordering.then_eq_eq.mp h
    obtain ⟨hm, hd⟩ := Ordering.then_eq_eq.mp h
    cases a
    cases b
    simp only [compareOn] at hy hm hd
    cases Std.LawfulEqCmp.eq_of_compare hy
    cases Std.LawfulEqCmp.eq_of_compare hm
    cases Std.LawfulEqCmp.eq_of_compare hd
    rfl

instance : LT ServiceDate := ltOfOrd

instance : LE ServiceDate := leOfOrd

/-! ## Counting days -/

/-- The days between 0001-01-01 and the first day of a year. -/
def daysBeforeYear (year : Int) : Int :=
  let past := year - 1
  365 * past + past / 4 - past / 100 + past / 400

/-- The days of a year before the first of a month. -/
def daysBeforeMonth (year : Int) (month : Nat) : Nat :=
  ((List.range month).drop 1).foldl (fun days m => days + daysInMonth year m) 0

/-- The number of days since 1970-01-01. -/
def dayNumber (d : ServiceDate) : Int :=
  daysBeforeYear d.year + daysBeforeMonth d.year d.month + (d.day - 1) - 719162

end ServiceDate

end LiveTimetable
