/-!
# JSON trees

The tree of a JSON text, as far as the text goes. A reader of records must know which of two
mistakes comes first, so a text with a syntax error has a tree too: the tree up to the error,
with the node `broken` at the place where reading stopped. The order of the members of an object
is kept, and so are repeated keys.

A string literal may escape half of a surrogate pair, and then stands for no text at all. It is
no mistake as long as nobody asks for that text: its node is `str none`.
-/

namespace LiveTimetable

/-- The tree of a text, `broken` where the text stops being JSON. -/
inductive Json where
  | null
  | bool (value : Bool)
  /-- A number of 64 bits, signed or not, that is written without fraction and exponent, other
  than `-0`. -/
  | int (value : Int)
  /-- Any other number, as it is written, and whether it has a floating-point value. -/
  | real (text : String) (isBounded : Bool)
  /-- A string; `none` if an escape in it names half of a surrogate pair. -/
  | str (value : Option String)
  | arr (items : List Json)
  /-- An object, its members in the order of the text. -/
  | obj (members : List (Option String × Json))
  /-- The place where reading stopped. -/
  | broken

namespace Json

/-- A string node. -/
def text (s : String) : Json := .str (some s)

/-- An object of named members. -/
def record (members : List (String × Json)) : Json :=
  .obj (members.map fun m => (some m.1, m.2))

/-- The value, or `null`. -/
def orNull {α : Type} (write : α → Json) : Option α → Json
  | some a => write a
  | none => .null

mutual

/-- Whether reading reached the end of the node. -/
def isWhole : Json → Bool
  | .arr items => areWhole items
  | .obj members => membersWhole members
  | .broken => false
  | _ => true

/-- `isWhole` of every item. -/
def areWhole : List Json → Bool
  | [] => true
  | j :: rest => isWhole j && areWhole rest

/-- `isWhole` of every member. -/
def membersWhole : List (Option String × Json) → Bool
  | [] => true
  | (_, j) :: rest => isWhole j && membersWhole rest

end

mutual

/-- Whether the node is whole, its strings and keys stand for texts, its numbers have values, and
arrays and objects nest at most `depth` deep. -/
def isKept (depth : Nat) : Json → Bool
  | .arr items => match depth with
    | 0 => false
    | depth + 1 => areKept depth items
  | .obj members => match depth with
    | 0 => false
    | depth + 1 => membersKept depth members
  | .real _ isBounded => isBounded
  | .str none => false
  | .broken => false
  | _ => true

/-- `isKept` of every item. -/
def areKept (depth : Nat) : List Json → Bool
  | [] => true
  | j :: rest => isKept depth j && areKept depth rest

/-- `isKept` of every member, and a text for every key. -/
def membersKept (depth : Nat) : List (Option String × Json) → Bool
  | [] => true
  | (key, j) :: rest => key.isSome && isKept depth j && membersKept depth rest

end

end Json

end LiveTimetable
