import LiveTimetable.Text.Ranges

/-!
# Blank characters

The blanks at both ends of a setting do not count. A blank is a character with Unicode's
property `White_Space`, which has members outside ASCII that `Char.isWhitespace` leaves out.
-/

namespace LiveTimetable.Text

/-- The ranges of `White_Space`. -/
def blanks : Ranges :=
  [(0x9, 0xd), (0x20, 0x20), (0x85, 0x85), (0xa0, 0xa0), (0x1680, 0x1680), (0x2000, 0x200a),
    (0x2028, 0x2029), (0x202f, 0x202f), (0x205f, 0x205f), (0x3000, 0x3000)]

/-- Whether `c` is a blank. -/
def isBlank (c : Char) : Bool := blanks.hold c

/-- The text without the blanks at its ends. -/
def trim (s : String) : String :=
  String.ofList
    (((s.toList.dropWhile isBlank).reverse.dropWhile isBlank).reverse)

/-- Every blank of ASCII is a blank. -/
theorem isBlank_of_isWhitespace {c : Char} (h : c.isWhitespace = true) : isBlank c = true := by
  simp only [Char.isWhitespace, Bool.or_eq_true, decide_eq_true_eq] at h
  rcases h with ((rfl | rfl) | rfl) | rfl <;> decide

end LiveTimetable.Text
