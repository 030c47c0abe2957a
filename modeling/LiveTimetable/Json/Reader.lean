import LiveTimetable.Json.Basic
import LiveTimetable.Json.Magnitude

/-!
# Reading JSON

`Json.read` turns a text into its tree. It never fails: a text that stops being JSON has the node
`broken` at that place, and everything before it is in the tree. The grammar is the strict one:
no comments, no commas before a closing bracket, no leading zeros, no control characters in
strings, blanks only between tokens.

A string literal is read in two steps. `scanString` finds its end and lists its pieces,
characters and 16-bit units of `\u` escapes; `joinPieces` puts pairs of surrogate units together
and is `none` where half of a pair stands alone.
-/

namespace LiveTimetable.Json

/-- Whether `c` may stand between two tokens. -/
def isGap (c : Char) : Bool := c == ' ' || c == '\t' || c == '\n' || c == '\r'

/-- The text from the next token on. -/
def skipGaps (cs : List Char) : List Char := cs.dropWhile isGap

/-! ## Strings -/

/-- A piece of a string literal. -/
inductive Piece where
  | char (c : Char)
  /-- A unit of UTF-16, from an escape of four hexadecimal digits. -/
  | unit (n : Nat)

/-- The value of a hexadecimal digit. -/
def hexDigit? (c : Char) : Option Nat :=
  if '0' ≤ c ∧ c ≤ '9' then some (c.toNat - 48)
  else if 'a' ≤ c ∧ c ≤ 'f' then some (c.toNat - 87)
  else if 'A' ≤ c ∧ c ≤ 'F' then some (c.toNat - 55)
  else none

/-- The unit of four hexadecimal digits. -/
def hexUnit? (a b c d : Char) : Option Nat := do
  return 4096 * (← hexDigit? a) + 256 * (← hexDigit? b) + 16 * (← hexDigit? c) + (← hexDigit? d)

/-- The character of an escape of one letter. -/
def escaped? (c : Char) : Option Char :=
  if c = '"' then some '"'
  else if c = '\\' then some '\\'
  else if c = '/' then some '/'
  else if c = 'b' then some '\x08'
  else if c = 'f' then some '\x0c'
  else if c = 'n' then some '\n'
  else if c = 'r' then some '\r'
  else if c = 't' then some '\t'
  else none

/-- The pieces up to the closing quote, and the text after it. -/
def scanString : List Char → Option (List Piece × List Char)
  | [] => none
  | '"' :: rest => some ([], rest)
  | '\\' :: 'u' :: a :: b :: c :: d :: rest => do
    let n ← hexUnit? a b c d
    let (ps, rest) ← scanString rest
    return (.unit n :: ps, rest)
  | '\\' :: c :: rest => do
    let c ← escaped? c
    let (ps, rest) ← scanString rest
    return (.char c :: ps, rest)
  | c :: rest =>
    if c.toNat < 32 ∨ c = '\\' then none
    else do
      let (ps, rest) ← scanString rest
      return (.char c :: ps, rest)

/-- The characters that the pieces stand for. -/
def joinPieces : List Piece → Option (List Char)
  | [] => some []
  | .char c :: ps => (joinPieces ps).map (c :: ·)
  | .unit n :: .unit m :: ps =>
    if n < 0xd800 ∨ 0xdfff < n then (joinPieces (.unit m :: ps)).map (Char.ofNat n :: ·)
    else if n < 0xdc00 ∧ 0xdc00 ≤ m ∧ m ≤ 0xdfff then
      (joinPieces ps).map (Char.ofNat (0x10000 + 1024 * (n - 0xd800) + (m - 0xdc00)) :: ·)
    else none
  | .unit n :: ps =>
    if n < 0xd800 ∨ 0xdfff < n then (joinPieces ps).map (Char.ofNat n :: ·) else none

/-- The text that the pieces stand for. -/
def stringOf (ps : List Piece) : Option String := (joinPieces ps).map String.ofList

/-! ## Numbers -/

/-- The number that ASCII digits stand for. -/
def digitsValue (cs : List Char) : Nat := cs.foldl (fun n c => 10 * n + (c.toNat - 48)) 0

/-- One or more digits, and the text after them. -/
def scanDigits? (cs : List Char) : Option (List Char × List Char) :=
  match cs.takeWhile Char.isDigit with
  | [] => none
  | ds => some (ds, cs.dropWhile Char.isDigit)

/-- The fraction that stands here, possibly none. -/
def scanFraction? : List Char → Option (List Char × List Char)
  | '.' :: rest => (scanDigits? rest).map fun (ds, rest) => ('.' :: ds, rest)
  | rest => some ([], rest)

/-- The exponent that stands here, possibly none. -/
def scanExponent? (cs : List Char) : Option (List Char × List Char) :=
  match cs with
  | e :: rest =>
    if e = 'e' ∨ e = 'E' then
      match rest with
      | sign :: rest' =>
        if sign = '+' ∨ sign = '-' then
          (scanDigits? rest').map fun (ds, rest) => (e :: sign :: ds, rest)
        else (scanDigits? rest).map fun (ds, rest) => (e :: ds, rest)
      | [] => none
    else some ([], cs)
  | [] => some ([], [])

/-- The value of a scanned exponent. -/
def exponentValue : List Char → Int
  | _ :: '-' :: ds => -digitsValue ds
  | _ :: '+' :: ds => digitsValue ds
  | _ :: ds => digitsValue ds
  | [] => 0

/-- The number of digits without fraction and exponent, if it has 64 bits and is not `-0`. -/
def wholeNumber? (negative : Bool) (n : Nat) : Option Int :=
  if negative then
    if 0 < n ∧ n ≤ 9223372036854775808 then some (-n) else none
  else if n < 18446744073709551616 then some n
  else none

/-- The node of a number. -/
def numberOf (negative : Bool) (whole fraction exponent : List Char) : Json :=
  let real : Json :=
    .real (String.ofList ((if negative then ['-'] else []) ++ whole ++ fraction ++ exponent))
      (Decimal.ofDigits whole (fraction.drop 1) (exponentValue exponent)).isBounded
  match fraction, exponent with
  | [], [] =>
    match wholeNumber? negative (digitsValue whole) with
    | some n => .int n
    | none => real
  | _, _ => real

/-- An unsigned number, negated if `negative`. -/
def scanUnsigned? (negative : Bool) (cs : List Char) : Option (Json × List Char) := do
  let (whole, rest) ← scanDigits? cs
  if whole.head? = some '0' ∧ whole ≠ ['0'] then none
  else
    let (fraction, rest) ← scanFraction? rest
    let (exponent, rest) ← scanExponent? rest
    return (numberOf negative whole fraction exponent, rest)

/-- A number, and the text after it. -/
def scanNumber? : List Char → Option (Json × List Char)
  | '-' :: rest => scanUnsigned? true rest
  | cs => scanUnsigned? false cs

/-! ## Values -/

mutual

/-- A value and the text after it, `none` if reading stopped within it. -/
def value : Nat → List Char → Json × Option (List Char)
  | 0, _ => (.broken, none)
  | fuel + 1, cs =>
    match skipGaps cs with
    | 'n' :: 'u' :: 'l' :: 'l' :: rest => (.null, some rest)
    | 't' :: 'r' :: 'u' :: 'e' :: rest => (.bool true, some rest)
    | 'f' :: 'a' :: 'l' :: 's' :: 'e' :: rest => (.bool false, some rest)
    | '"' :: rest =>
      match scanString rest with
      | some (ps, rest) => (.str (stringOf ps), some rest)
      | none => (.broken, none)
    | '[' :: rest =>
      match skipGaps rest with
      | ']' :: rest => (.arr [], some rest)
      | rest =>
        let (items, rest) := elements fuel rest
        (.arr items, rest)
    | '\x7b' :: rest =>
      match skipGaps rest with
      | '\x7d' :: rest => (.obj [], some rest)
      | rest =>
        let (ms, rest) := members fuel rest
        (.obj ms, rest)
    | rest =>
      match scanNumber? rest with
      | some (j, rest) => (j, some rest)
      | none => (.broken, none)

/-- One or more items up to the closing bracket. -/
def elements : Nat → List Char → List Json × Option (List Char)
  | 0, _ => ([.broken], none)
  | fuel + 1, cs =>
    match value fuel cs with
    | (j, none) => ([j], none)
    | (j, some rest) =>
      match skipGaps rest with
      | ',' :: rest =>
        let (items, rest) := elements fuel rest
        (j :: items, rest)
      | ']' :: rest => ([j], some rest)
      | _ => ([j, .broken], none)

/-- One or more members up to the closing brace. -/
def members : Nat → List Char → List (Option String × Json) × Option (List Char)
  | 0, _ => ([(none, .broken)], none)
  | fuel + 1, cs =>
    match skipGaps cs with
    | '"' :: rest =>
      match scanString rest with
      | none => ([(none, .broken)], none)
      | some (ps, rest) =>
        let key := stringOf ps
        match skipGaps rest with
        | ':' :: rest =>
          match value fuel rest with
          | (j, none) => ([(key, j)], none)
          | (j, some rest) =>
            match skipGaps rest with
            | ',' :: rest =>
              let (ms, rest) := members fuel rest
              ((key, j) :: ms, rest)
            | '\x7d' :: rest => ([(key, j)], some rest)
            | _ => ([(key, j), (none, .broken)], none)
        | _ => ([(key, .broken)], none)
    | _ => ([(none, .broken)], none)

end

/-- The tree of a text, and whether nothing but blanks follows it. -/
structure Document where
  root : Json
  ended : Bool

/-- The document of a text. Every step of the reader but one in two takes a character, so twice
the length bounds the steps. -/
def read (s : String) : Document :=
  let cs := s.toList
  match value (2 * cs.length + 2) cs with
  | (root, some rest) => ⟨root, (skipGaps rest).isEmpty⟩
  | (root, none) => ⟨root, false⟩

end LiveTimetable.Json
