import LiveTimetable.Text.Mark
import LiveTimetable.Text.Unassigned

/-!
# Characters that a reader cannot see

A character is hidden if it does not show as a glyph of its own: it is a control, a format
character, a separator other than the space, for private use or a Hangul filler (`blankish`), it
extends the character before it (`isMark`), or it stands for nothing (`isUnassigned`).
-/

namespace LiveTimetable.Text

/-- Unicode's general categories `Cc`, `Cf`, `Co`, `Zl`, `Zp` and, but for the space, `Zs`; and
the four letters that only fill the place of a Hangul letter. -/
def blankish : Ranges :=
  [(0x0, 0x1f), (0x7f, 0xa0), (0xad, 0xad), (0x600, 0x605), (0x61c, 0x61c), (0x6dd, 0x6dd),
    (0x70f, 0x70f), (0x890, 0x891), (0x8e2, 0x8e2), (0x115f, 0x1160), (0x1680, 0x1680),
    (0x180e, 0x180e), (0x2000, 0x200f), (0x2028, 0x202f), (0x205f, 0x2064), (0x2066, 0x206f),
    (0x3000, 0x3000), (0x3164, 0x3164), (0xe000, 0xf8ff), (0xfeff, 0xfeff), (0xffa0, 0xffa0),
    (0xfff9, 0xfffb), (0x110bd, 0x110bd), (0x110cd, 0x110cd), (0x13430, 0x1343f),
    (0x1bca0, 0x1bca3), (0x1d173, 0x1d17a), (0xe0001, 0xe0001), (0xe0020, 0xe007f),
    (0xf0000, 0xffffd), (0x100000, 0x10fffd)]

/-- Whether `c` has no glyph of its own. -/
def isHidden (c : Char) : Bool := blankish.hold c || isMark c || isUnassigned c

example : blankish.isAscending = true := by decide

/-- Controls of ASCII are hidden. -/
theorem isHidden_of_lt_space {c : Char} (h : c.toNat < 0x20) : isHidden c = true := by
  have hc : blankish.hold c = true :=
    Ranges.hold_eq_true_iff.mpr ⟨(0x0, 0x1f), List.mem_cons_self, Nat.zero_le _, by omega⟩
  simp [isHidden, hc]

end LiveTimetable.Text
