/-!
# How large a number may be

A number that is to be kept must have a floating-point value. Its value is worked out in two
steps, each of which rounds to 53 significant bits: the **significand**, made of the leading
digits that fit into 64 bits, and its product with a power of ten. Digits behind those of the
significand do not count beyond the places they take. A number with a negative power always has a
value, if only zero.

* `Decimal.ofDigits` takes the digits of a number apart.
* `nearest` rounds a whole number to 53 significant bits.
* `Decimal.isBounded` says whether the product stays below `floatLimit`.
-/

namespace LiveTimetable.Json

/-- The least number that lies no nearer to the greatest floating-point number than to `2 ^ 1024`,
which is none. -/
def floatLimit : Nat := Nat.pow 2 1024 - Nat.pow 2 970

/-- The number with at most 53 significant bits that is nearest to `n`, of two the one whose last
bit is zero. -/
def nearest (n : Nat) : Nat :=
  let step := Nat.pow 2 (n.log2 - 52)
  let count := n / step
  let rest := n % step
  if step < 2 * rest ∨ (2 * rest = step ∧ count % 2 = 1) then (count + 1) * step
  else count * step

/-- A number of at most 53 bits is kept. -/
theorem nearest_of_log2_le {n : Nat} (h : n.log2 ≤ 52) : nearest n = n := by
  simp [nearest, Nat.sub_eq_zero_of_le h, Nat.mod_one]

/-- The number `significand * 10 ^ exponent`. -/
structure Decimal where
  significand : Nat
  exponent : Int
  deriving DecidableEq

namespace Decimal

/-- The value of an ASCII digit. -/
def digit (c : Char) : Nat := c.toNat - 48

/-- The significand with one more digit, if that fits into 64 bits. -/
def append? (significand : Nat) (c : Char) : Option Nat :=
  let longer := 10 * significand + digit c
  if longer < 18446744073709551616 then some longer else none

/-- The digits in front of the point, `d` standing for those already read. From the first digit
on that does not fit, each only makes the number ten times as large. -/
def ofWhole (d : Decimal) : List Char → Decimal
  | [] => d
  | c :: rest =>
    match append? d.significand c with
    | some longer => ofWhole { d with significand := longer } rest
    | none => { d with exponent := d.exponent + (rest.length + 1) }

/-- The digits behind the point, `d` standing for all before them. From the first digit on that
does not fit, none counts. -/
def ofFraction (d : Decimal) : List Char → Decimal
  | [] => d
  | c :: rest =>
    match append? d.significand c with
    | some longer => ofFraction ⟨longer, d.exponent - 1⟩ rest
    | none => d

/-- The number of the digits before and behind the point, times ten to the exponent. -/
def ofDigits (whole fraction : List Char) (exponent : Int) : Decimal :=
  let d := ofFraction (ofWhole ⟨0, 0⟩ whole) fraction
  { d with exponent := d.exponent + exponent }

/-- Whether the number has a floating-point value. -/
def isBounded (d : Decimal) : Bool :=
  decide (d.significand = 0) || decide (d.exponent < 0)
    || (decide (d.exponent ≤ 308)
      && decide (nearest d.significand * nearest (Nat.pow 10 d.exponent.toNat) < floatLimit))

end Decimal

end LiveTimetable.Json
