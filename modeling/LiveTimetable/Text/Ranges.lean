/-!
# Ranges of code points

A property of characters is given by the closed ranges of the code points that have it, in
ascending order with a gap between neighbours. `Ranges.hold` looks a character up, and
`Ranges.isAscending` checks the order. The tables built on it are those of Unicode 17.0.
-/

namespace LiveTimetable.Text

/-- Closed ranges of code points. -/
abbrev Ranges := List (Nat × Nat)

namespace Ranges

/-- Whether a character lies in one of the ranges. -/
def hold (rs : Ranges) (c : Char) : Bool :=
  rs.any fun r => decide (r.1 ≤ c.toNat) && decide (c.toNat ≤ r.2)

/-- Whether the ranges ascend from `start` on, with gaps between them. -/
def ascendFrom : (start : Nat) → Ranges → Bool
  | _, [] => true
  | start, r :: rest => decide (start ≤ r.1) && decide (r.1 ≤ r.2) && ascendFrom (r.2 + 2) rest

/-- Whether the ranges ascend with gaps between them. -/
def isAscending (rs : Ranges) : Bool := ascendFrom 0 rs

theorem hold_eq_true_iff {rs : Ranges} {c : Char} :
    rs.hold c = true ↔ ∃ r ∈ rs, r.1 ≤ c.toNat ∧ c.toNat ≤ r.2 := by
  simp [hold]

end Ranges

end LiveTimetable.Text
