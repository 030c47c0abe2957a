import LiveTimetable.Json.Reader
import LiveTimetable.Json.Writer
import Mathlib.Data.List.TakeWhile

/-!
# Literals are read back

What `Json.writeString` and `Json.writeInt` write is what `Json.scanString` and `Json.scanNumber?`
read. Neither writer pads or shortens, so nothing has to be known about the text behind a string;
a number ends only where something stands that cannot continue it (`EndsNumber`), and in a written
tree that is always a comma or a closing bracket.

* `scanString_writeString`: the pieces of a written string, one for every character.
* `stringOf_pieces`: put together they give the string, also where a control character was
  escaped as a unit of UTF-16.
* `scanNumber?_writeInt`: every number of 64 bits, signed or not.
-/

namespace LiveTimetable.Json

/-! ## Strings -/

/-- A control character without a letter of its own. -/
def IsUnnamedControl (c : Char) : Prop :=
  c.toNat < 32 ∧ c ∉ ['\x08', '\x0c', '\n', '\r', '\t']

instance (c : Char) : Decidable (IsUnnamedControl c) := inferInstanceAs (Decidable (_ ∧ _))

/-- The piece that a written character is read as. -/
def pieceOf (c : Char) : Piece := if IsUnnamedControl c then .unit c.toNat else .char c

theorem hexDigit?_hexChar {n : Nat} (h : n < 16) : hexDigit? (hexChar n) = some n := by
  have : ∀ n : Fin 16, hexDigit? (hexChar n) = some n.val := by decide
  exact this ⟨n, h⟩

theorem hexUnit?_hexChar {n : Nat} (h : n < 256) :
    hexUnit? '0' '0' (hexChar (n / 16)) (hexChar (n % 16)) = some n := by
  have zero : hexDigit? '0' = some 0 := by decide
  have sum : 16 * (n / 16) + n % 16 = n := by omega
  simp [hexUnit?, zero, hexDigit?_hexChar (show n / 16 < 16 by omega),
    hexDigit?_hexChar (show n % 16 < 16 by omega), sum]

/-- A character is written as an escape of one letter, as a unit of UTF-16 or as itself. -/
theorem writeChar_cases (c : Char) :
    (∃ e, writeChar c = ['\\', e] ∧ escaped? e = some c ∧ ¬ IsUnnamedControl c) ∨
    (writeChar c = ['\\', 'u', '0', '0', hexChar (c.toNat / 16), hexChar (c.toNat % 16)] ∧
      IsUnnamedControl c) ∨
    (writeChar c = [c] ∧ c ≠ '"' ∧ c ≠ '\\' ∧ ¬ c.toNat < 32) := by
  by_cases lettered : c ∈ ['"', '\\', '\x08', '\x0c', '\n', '\r', '\t']
  · simp only [List.mem_cons, List.not_mem_nil, or_false] at lettered
    left
    obtain rfl | rfl | rfl | rfl | rfl | rfl | rfl := lettered <;>
      exact ⟨_, rfl, by decide, by decide⟩
  · simp only [List.mem_cons, List.not_mem_nil, or_false, not_or] at lettered
    obtain ⟨quote, slash, back, form, line, carriage, tab⟩ := lettered
    right
    by_cases control : c.toNat < 32
    · left
      simp [writeChar, IsUnnamedControl, *]
    · right
      simp [writeChar, *]

theorem scanString_writeChar (c : Char) (rest : List Char) :
    scanString (writeChar c ++ rest)
      = (scanString rest).map fun (ps, rest) => (pieceOf c :: ps, rest) := by
  obtain ⟨e, written, escape, named⟩ | ⟨written, control⟩ | ⟨written, quote, slash, plain⟩ :=
    writeChar_cases c
  · have hu : e ≠ 'u' := by
      rintro rfl
      cases escape
    rw [written, List.cons_append, List.cons_append, List.nil_append,
      scanString.eq_4 _ _ (by simp_all)]
    simp only [escape, pieceOf, named, if_false, Option.bind_eq_bind, Option.bind_some]
    cases scanString rest <;> rfl
  · have small : c.toNat < 256 := Nat.lt_trans control.1 (by decide)
    rw [written]
    simp only [List.cons_append, List.nil_append, scanString, hexUnit?_hexChar small, pieceOf,
      control, if_true, Option.bind_eq_bind, Option.bind_some]
    cases scanString rest <;> rfl
  · have named : ¬ IsUnnamedControl c := fun h => plain h.1
    rw [written, List.cons_append, List.nil_append,
      scanString.eq_5 _ _ quote (by simp [slash]) (by simp [slash])]
    simp only [plain, slash, pieceOf, named, or_self, if_false, Option.bind_eq_bind]
    cases scanString rest <;> rfl

/-- A written string is read up to its closing quote, one piece for every character. -/
theorem scanString_writeString (cs rest : List Char) :
    scanString (cs.flatMap writeChar ++ '"' :: rest) = some (cs.map pieceOf, rest) := by
  induction cs with
  | nil => rfl
  | cons c cs ih => simp [List.append_assoc, scanString_writeChar, ih]

/-- A unit outside the surrogates joins with nothing behind it. -/
theorem joinPieces_unit {n : Nat} (h : n < 0xd800) (ps : List Piece) :
    joinPieces (.unit n :: ps) = (joinPieces ps).map (Char.ofNat n :: ·) := by
  cases ps with
  | nil => simp [joinPieces, h]
  | cons p ps => cases p <;> simp [joinPieces, h]

theorem joinPieces_pieces (cs : List Char) : joinPieces (cs.map pieceOf) = some cs := by
  induction cs with
  | nil => rfl
  | cons c cs ih =>
    rw [List.map_cons]
    by_cases control : IsUnnamedControl c
    · have small : c.toNat < 0xd800 := Nat.lt_trans control.1 (by decide)
      rw [pieceOf, if_pos control, joinPieces_unit small, ih, Char.ofNat_toNat]
      rfl
    · rw [pieceOf, if_neg control, joinPieces, ih]
      rfl

theorem stringOf_pieces (s : String) : stringOf (s.toList.map pieceOf) = some s := by
  simp [stringOf, joinPieces_pieces]

/-! ## Numbers -/

/-- Nothing stands here that could continue a number: in a written tree only a comma or a closing
bracket stands behind one. -/
inductive EndsNumber : List Char → Prop
  | nil : EndsNumber []
  | comma (rest : List Char) : EndsNumber (',' :: rest)
  | bracket (rest : List Char) : EndsNumber (']' :: rest)
  | brace (rest : List Char) : EndsNumber ('\x7d' :: rest)

/-- A numeral starts with a digit. -/
theorem toDigits_eq_cons (n : Nat) :
    ∃ c cs, Nat.toDigits 10 n = c :: cs ∧ c.isDigit = true := by
  obtain ⟨c, cs, shape⟩ := List.exists_cons_of_ne_nil (Nat.toDigits_ne_nil (n := n) (b := 10))
  exact ⟨c, cs, shape,
    Nat.isDigit_of_mem_toDigits (n := n) (b := 10) (by decide) (by decide) (by simp [shape])⟩

/-- No decimal numeral but that of zero starts with a zero. -/
theorem head?_toDigits {n : Nat} (h : (Nat.toDigits 10 n).head? = some '0') :
    Nat.toDigits 10 n = ['0'] := by
  induction n using Nat.strongRecOn with
  | _ n ih =>
    by_cases small : n < 10
    · rw [Nat.toDigits_of_lt_base small] at h ⊢
      simpa using h
    · have step := Nat.toDigits_of_base_le (b := 10) (n := n) (by decide) (by omega)
      have front : (Nat.toDigits 10 (n / 10)).head? = some '0' := by
        rw [step, List.head?_append] at h
        obtain ⟨c, cs, shape, -⟩ := toDigits_eq_cons (n / 10)
        simpa [shape] using h
      have zero := congrArg (Nat.ofDigitChars 10 · 0) (ih (n / 10) (by omega) front)
      simp only [Nat.ofDigitChars_ten_toDigits] at zero
      exact absurd (zero.trans (by decide : Nat.ofDigitChars 10 ['0'] 0 = 0)) (by omega)

theorem digitsValue_toDigits (n : Nat) : digitsValue (Nat.toDigits 10 n) = n :=
  (Nat.ofDigitChars_eq_foldl).symm.trans Nat.ofDigitChars_ten_toDigits

theorem scanDigits?_toDigits (n : Nat) {rest : List Char} (h : EndsNumber rest) :
    scanDigits? (Nat.toDigits 10 n ++ rest) = some (Nat.toDigits 10 n, rest) := by
  have digits : ∀ c ∈ Nat.toDigits 10 n, c.isDigit = true :=
    fun c hc => Nat.isDigit_of_mem_toDigits (by decide) (by decide) hc
  have stop : rest.takeWhile Char.isDigit = [] ∧ rest.dropWhile Char.isDigit = rest := by
    cases h <;> exact ⟨rfl, rfl⟩
  rw [scanDigits?, List.takeWhile_append_of_pos digits, List.dropWhile_append_of_pos digits,
    stop.1, stop.2, List.append_nil]
  split
  · next nil => exact absurd nil Nat.toDigits_ne_nil
  · rfl

theorem scanFraction?_of_endsNumber {rest : List Char} (h : EndsNumber rest) :
    scanFraction? rest = some ([], rest) := by
  cases h <;> rfl

theorem scanExponent?_of_endsNumber {rest : List Char} (h : EndsNumber rest) :
    scanExponent? rest = some ([], rest) := by
  cases h <;> rfl

theorem scanUnsigned?_toDigits {negative : Bool} {n : Nat} {v : Int} {rest : List Char}
    (bits : wholeNumber? negative n = some v) (h : EndsNumber rest) :
    scanUnsigned? negative (Nat.toDigits 10 n ++ rest) = some (.int v, rest) := by
  have lead : ¬ ((Nat.toDigits 10 n).head? = some '0' ∧ Nat.toDigits 10 n ≠ ['0']) :=
    fun ⟨zero, more⟩ => more (head?_toDigits zero)
  simp only [scanUnsigned?, scanDigits?_toDigits n h, scanFraction?_of_endsNumber h,
    scanExponent?_of_endsNumber h, lead, if_false, Option.bind_eq_bind, Option.bind_some]
  simp [numberOf, digitsValue_toDigits, bits]

/-- A number that has 64 bits, signed or not. -/
def HasWordSize (n : Int) : Prop := -9223372036854775808 ≤ n ∧ n < 18446744073709551616

instance (n : Int) : Decidable (HasWordSize n) := inferInstanceAs (Decidable (_ ∧ _))

/-- A written number starts with a minus sign or a digit. -/
theorem writeInt_eq_cons (n : Int) :
    ∃ c cs, writeInt n = c :: cs ∧ (c = '-' ∨ c.isDigit = true) := by
  obtain ⟨c, cs, shape, digit⟩ := toDigits_eq_cons n.natAbs
  unfold writeInt
  split
  · exact ⟨'-', _, rfl, .inl rfl⟩
  · exact ⟨c, cs, shape, .inr digit⟩

theorem scanNumber?_writeInt {n : Int} {rest : List Char} (bits : HasWordSize n)
    (h : EndsNumber rest) : scanNumber? (writeInt n ++ rest) = some (.int n, rest) := by
  obtain ⟨lo, hi⟩ := bits
  by_cases negative : n < 0
  · have value : wholeNumber? true n.natAbs = some n := by
      rw [wholeNumber?, if_pos rfl, if_pos (by omega)]
      simp only [Option.some.injEq]
      omega
    rw [writeInt, if_pos negative, List.cons_append, scanNumber?]
    exact scanUnsigned?_toDigits value h
  · have value : wholeNumber? false n.natAbs = some n := by
      rw [wholeNumber?, if_neg (by decide), if_pos (by omega)]
      simp only [Option.some.injEq]
      omega
    rw [writeInt, if_neg negative, scanNumber?]
    · exact scanUnsigned?_toDigits value h
    · intro cs minus
      obtain ⟨c, ds, shape, digit⟩ := toDigits_eq_cons n.natAbs
      rw [shape, List.cons_append, List.cons.injEq] at minus
      rw [minus.1] at digit
      exact absurd digit (by decide)

end LiveTimetable.Json
