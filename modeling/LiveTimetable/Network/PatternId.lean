import LiveTimetable.Calendar.Date

/-!
# Pattern identifiers

Patterns are numbered; the text of a number `n` is `Pn`. Realtime timetables are kept under a
pattern and a date.
-/

namespace LiveTimetable

/-- The number of a pattern. -/
structure PatternId where
  number : Nat
  deriving DecidableEq

namespace PatternId

/-- The identifier of a number of which 32 bits are kept. -/
def wrapped (n : Nat) : PatternId := ⟨n % 4294967296⟩

/-- The text of a pattern's number. -/
def text (p : PatternId) : String := "P" ++ toString p.number

instance : Ord PatternId := ⟨compareOn PatternId.number⟩

instance : Std.TransOrd PatternId := inferInstanceAs (Std.TransCmp (compareOn _))

instance : Std.LawfulEqOrd PatternId where
  eq_of_compare {a b} h := by
    have hn : compare a.number b.number = .eq := h
    cases a
    cases b
    cases Std.LawfulEqCmp.eq_of_compare hn
    rfl

end PatternId

/-- A pattern on a date. -/
structure PatternDate where
  pattern : PatternId
  date : ServiceDate
  deriving DecidableEq

namespace PatternDate

/-- The pattern, a slash, and the date. -/
def text (k : PatternDate) : String := k.pattern.text ++ "/" ++ k.date.text

instance : Ord PatternDate :=
  ⟨compareLex (compareOn PatternDate.pattern) (compareOn PatternDate.date)⟩

instance : Std.TransOrd PatternDate := inferInstanceAs (Std.TransCmp (compareLex _ _))

instance : Std.LawfulEqOrd PatternDate where
  eq_of_compare {a b} h := by
    obtain ⟨hp, hd⟩ := Ordering.then_eq_eq.mp h
    cases a
    cases b
    simp only [compareOn] at hp hd
    cases Std.LawfulEqCmp.eq_of_compare hp
    cases Std.LawfulEqCmp.eq_of_compare hd
    rfl

end PatternDate

end LiveTimetable
