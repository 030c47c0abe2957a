import LiveTimetable.Json.Decode
import LiveTimetable.Proofs.Json.Literals
import Mathlib.Tactic.FinCases

/-!
# Written trees are read back

A tree is **exact** if it is whole, its strings and keys stand for texts and its numbers are
numbers of 64 bits. The text of an exact tree is read as that tree, to the end
(`read_write`), so decoding the text is decoding the tree (`decode_write`).

The reader counts its steps down. A value takes no more of them than its text has characters, and
the items of an array or the members of an object one more than theirs, which the bracket in front
of them pays for; these bounds carry the induction.
-/

namespace LiveTimetable.Json

/-! ## Exact trees -/

mutual

/-- Whether the tree is whole, its strings and keys stand for texts, and its numbers are numbers
of 64 bits. -/
def isExact : Json → Bool
  | .int n => decide (HasWordSize n)
  | .real _ _ => false
  | .str s => s.isSome
  | .arr items => areExact items
  | .obj members => membersExact members
  | .broken => false
  | _ => true

/-- `isExact` of every item. -/
def areExact : List Json → Bool
  | [] => true
  | j :: rest => isExact j && areExact rest

/-- `isExact` of every member, and a text for every key. -/
def membersExact : List (Option String × Json) → Bool
  | [] => true
  | (key, j) :: rest => key.isSome && isExact j && membersExact rest

end

theorem areExact_iff {js : List Json} : areExact js = true ↔ ∀ j ∈ js, isExact j = true := by
  induction js with
  | nil => simp [areExact]
  | cons j js ih => simp [areExact, ih]

theorem isExact_record {ms : List (String × Json)} :
    isExact (record ms) = true ↔ ∀ m ∈ ms, isExact m.2 = true := by
  rw [record, isExact]
  induction ms with
  | nil => simp [membersExact]
  | cons m ms ih => simp [membersExact, ih]

theorem isExact_orNull {α : Type} {write : α → Json} {o : Option α}
    (h : ∀ a ∈ o, isExact (write a) = true) : isExact (orNull write o) = true := by
  cases o with
  | none => rfl
  | some a => exact h a rfl

/-! ## Reading what was written -/

@[simp] theorem skipGaps_cons {c : Char} (h : isGap c = false) (cs : List Char) :
    skipGaps (c :: cs) = c :: cs := by
  simp [skipGaps, h]

/-- A number starts neither like a blank nor like another value or a closing bracket. -/
theorem not_mem_of_numberStart {c : Char} (start : c = '-' ∨ c.isDigit = true) :
    c ∉ [' ', '\t', '\n', '\r', 'n', 't', 'f', '"', '[', ']', '\x7b'] := by
  intro h
  fin_cases h <;> exact absurd start (by decide)

/-- A text that starts like a number is read as one. -/
theorem value_of_scanNumber? {c : Char} {cs rest : List Char} {j : Json} (fuel : Nat)
    (start : c = '-' ∨ c.isDigit = true) (h : scanNumber? (c :: cs) = some (j, rest)) :
    value (fuel + 1) (c :: cs) = (j, some rest) := by
  have other := not_mem_of_numberStart start
  simp only [List.mem_cons, List.not_mem_nil, or_false, not_or] at other
  rw [value, skipGaps_cons (by simp [isGap, other])]
  split <;> simp_all

/-- The step of the reader into an array that is not empty. -/
theorem value_bracket {c : Char} (fuel : Nat) (cs : List Char) (gap : isGap c = false)
    (first : c ≠ ']') :
    value (fuel + 1) ('[' :: c :: cs)
      = (.arr (elements fuel (c :: cs)).1, (elements fuel (c :: cs)).2) := by
  rw [value, skipGaps_cons (by decide)]
  simp only [skipGaps_cons gap]
  split
  · next h => exact absurd (List.cons.inj h).1 first
  · rfl

/-- An exact tree is written with at least one character, and neither a blank nor the bracket that
would end an array comes first. -/
theorem writeTree_eq_cons {j : Json} (h : isExact j = true) :
    ∃ c cs, writeTree j = c :: cs ∧ isGap c = false ∧ c ≠ ']' := by
  cases j with
  | null => exact ⟨'n', _, rfl, by decide, by decide⟩
  | bool b => cases b <;> exact ⟨_, _, rfl, by decide, by decide⟩
  | int n =>
    obtain ⟨c, cs, shape, start⟩ := writeInt_eq_cons n
    have other := not_mem_of_numberStart start
    simp only [List.mem_cons, List.not_mem_nil, or_false, not_or] at other
    exact ⟨c, cs, shape, by simp [isGap, other], by simp [other]⟩
  | real s b => cases h
  | str s => cases s with
    | none => cases h
    | some s => exact ⟨'"', _, rfl, by decide, by decide⟩
  | arr js => exact ⟨'[', _, rfl, by decide, by decide⟩
  | obj ms => exact ⟨'\x7b', _, rfl, by decide, by decide⟩
  | broken => cases h

theorem writeItems_eq_cons {j : Json} (js : List Json) (h : isExact j = true) :
    ∃ c cs, writeItems (j :: js) = c :: cs ∧ isGap c = false ∧ c ≠ ']' := by
  obtain ⟨c, cs, shape, first⟩ := writeTree_eq_cons h
  cases js with
  | nil => exact ⟨c, cs, shape, first⟩
  | cons k js => exact ⟨c, cs ++ ',' :: writeItems (k :: js), by simp [writeItems, shape], first⟩

theorem writeLiteral_append (s : String) (rest : List Char) :
    writeLiteral (some s) ++ rest = '"' :: (s.toList.flatMap writeChar ++ '"' :: rest) := by
  change writeString s ++ rest = _
  simp [writeString]

theorem value_writeLiteral (fuel : Nat) (s : String) (rest : List Char) :
    value (fuel + 1) (writeLiteral (some s) ++ rest) = (.str (some s), some rest) := by
  rw [writeLiteral_append, value, skipGaps_cons (by decide)]
  simp only [scanString_writeString, stringOf_pieces]

theorem writeMembers_eq_cons {m : Option String × Json} (ms : List (Option String × Json))
    (h : membersExact (m :: ms) = true) : ∃ cs, writeMembers (m :: ms) = '"' :: cs := by
  obtain ⟨key, j⟩ := m
  cases key with
  | none => cases h
  | some s => cases ms <;> exact ⟨_, writeLiteral_append s _⟩

mutual

theorem value_writeTree : ∀ (fuel : Nat) (j : Json) (rest : List Char), isExact j = true →
    EndsNumber rest → (writeTree j).length ≤ fuel →
      value fuel (writeTree j ++ rest) = (j, some rest)
  | 0, j, rest, good, _, enough => by
    obtain ⟨c, cs, shape, -⟩ := writeTree_eq_cons good
    simp [shape] at enough
  | fuel + 1, .null, rest, _, _, _ => by
    simp [writeTree, value, skipGaps, isGap]
  | fuel + 1, .bool b, rest, _, _, _ => by
    cases b <;> simp [writeTree, value, skipGaps, isGap]
  | fuel + 1, .int n, rest, good, stop, _ => by
    obtain ⟨c, cs, shape, start⟩ := writeInt_eq_cons n
    have scanned := scanNumber?_writeInt (of_decide_eq_true good) stop
    rw [shape, List.cons_append] at scanned
    rw [writeTree, shape, List.cons_append]
    exact value_of_scanNumber? fuel start scanned
  | fuel + 1, .str (some s), rest, _, _, _ => value_writeLiteral fuel s rest
  | fuel + 1, .arr [], rest, _, _, _ => rfl
  | fuel + 1, .arr (j :: js), rest, good, _, enough => by
    have items := elements_writeItems fuel j js rest good
      (by simp only [writeTree, List.length_cons, List.length_append] at enough; omega)
    obtain ⟨c, cs, shape, gap, stay⟩ :=
      writeItems_eq_cons js (Bool.and_eq_true_iff.mp good).1
    rw [shape, List.cons_append] at items
    rw [writeTree, shape, List.cons_append, List.append_assoc]
    rw [List.cons_append, List.singleton_append, value_bracket fuel _ gap stay, items]
  | fuel + 1, .obj [], rest, _, _, _ => rfl
  | fuel + 1, .obj (m :: ms), rest, good, _, enough => by
    have inner := members_writeMembers fuel m ms rest good
      (by simp only [writeTree, List.length_cons, List.length_append] at enough; omega)
    obtain ⟨cs, shape⟩ := writeMembers_eq_cons ms good
    rw [shape, List.cons_append] at inner
    rw [writeTree, shape, List.cons_append, List.append_assoc, List.cons_append,
      List.singleton_append, value, skipGaps_cons (by decide)]
    simp (disch := decide) only [skipGaps_cons]
    exact congrArg (fun r => (Json.obj r.1, r.2)) inner

theorem elements_writeItems : ∀ (fuel : Nat) (j : Json) (js : List Json) (rest : List Char),
    areExact (j :: js) = true → (writeItems (j :: js)).length + 1 ≤ fuel →
      elements fuel (writeItems (j :: js) ++ ']' :: rest) = (j :: js, some rest)
  | 0, _, _, _, _, enough => by omega
  | fuel + 1, j, [], rest, good, enough => by
    have item := value_writeTree fuel j (']' :: rest) (Bool.and_eq_true_iff.mp good).1
      (.bracket rest) (Nat.le_of_succ_le_succ enough)
    rw [writeItems, elements, item]
    simp (disch := decide) only [skipGaps_cons]
  | fuel + 1, j, k :: js, rest, good, enough => by
    obtain ⟨first, others⟩ := Bool.and_eq_true_iff.mp good
    simp only [writeItems, List.length_append, List.length_cons] at enough
    have item := value_writeTree fuel j (',' :: (writeItems (k :: js) ++ ']' :: rest)) first
      (.comma _) (by omega)
    have items := elements_writeItems fuel k js rest others (by omega)
    rw [writeItems.eq_3 _ _ (List.cons_ne_nil k js), List.append_assoc, List.cons_append,
      elements, item]
    simp (disch := decide) only [skipGaps_cons, items]

theorem members_writeMembers : ∀ (fuel : Nat) (m : Option String × Json)
    (ms : List (Option String × Json)) (rest : List Char),
    membersExact (m :: ms) = true → (writeMembers (m :: ms)).length + 1 ≤ fuel →
      members fuel (writeMembers (m :: ms) ++ '\x7d' :: rest) = (m :: ms, some rest)
  | 0, _, _, _, _, enough => by omega
  | fuel + 1, (some key, j), [], rest, good, enough => by
    simp only [membersExact, Option.isSome_some, Bool.true_and, Bool.and_true] at good
    simp only [writeMembers, List.length_append, List.length_cons] at enough
    have item := value_writeTree fuel j ('\x7d' :: rest) good (.brace rest) (by omega)
    rw [writeMembers, List.append_assoc, List.cons_append, writeLiteral_append, members,
      skipGaps_cons (by decide)]
    simp (disch := decide) only [scanString_writeString, stringOf_pieces, skipGaps_cons, item]
  | fuel + 1, (some key, j), m :: ms, rest, good, enough => by
    rw [membersExact, Option.isSome_some, Bool.true_and, Bool.and_eq_true] at good
    simp only [writeMembers, List.length_append, List.length_cons] at enough
    have item := value_writeTree fuel j (',' :: (writeMembers (m :: ms) ++ '\x7d' :: rest))
      good.1 (.comma _) (by omega)
    have others := members_writeMembers fuel m ms rest good.2 (by omega)
    rw [writeMembers.eq_3 _ _ _ (List.cons_ne_nil m ms), List.append_assoc, List.cons_append,
      List.append_assoc, List.cons_append, writeLiteral_append, members, skipGaps_cons (by decide)]
    simp (disch := decide) only [scanString_writeString, stringOf_pieces, skipGaps_cons, item,
      others]

end

/-- **Written trees are read back**: the text of an exact tree is read to its end, as that
tree. -/
theorem read_write {j : Json} (good : isExact j = true) : read (write j) = ⟨j, true⟩ := by
  have whole := value_writeTree (2 * (writeTree j).length + 2) j [] good .nil (by omega)
  rw [List.append_nil] at whole
  simp only [read, write, String.toList_ofList, whole]
  rfl

/-- Decoding the text of an exact tree is decoding the tree. -/
theorem decode_write {α : Type} (dec : Decoder α) {j : Json} (good : isExact j = true) :
    decode dec (write j) = dec j := by
  simp only [decode, read_write good, if_true]
  cases dec j <;> rfl

end LiveTimetable.Json
