import LiveTimetable.Json.Basic

/-!
# Writing JSON

`Json.write` writes a tree without blanks. In strings a quote and a backslash get a backslash,
the five controls with a letter of their own are written with it, the other controls as `\u00xx`
in lower-case hexadecimal, and every other character as itself. A node without a text (`broken`)
is written as nothing.
-/

namespace LiveTimetable.Json

/-- The lower-case hexadecimal digit of a number below 16. -/
def hexChar (n : Nat) : Char := Nat.digitChar n

/-- A character of a string literal. -/
def writeChar (c : Char) : List Char :=
  if c = '"' then ['\\', '"']
  else if c = '\\' then ['\\', '\\']
  else if c = '\x08' then ['\\', 'b']
  else if c = '\x0c' then ['\\', 'f']
  else if c = '\n' then ['\\', 'n']
  else if c = '\r' then ['\\', 'r']
  else if c = '\t' then ['\\', 't']
  else if c.toNat < 32 then ['\\', 'u', '0', '0', hexChar (c.toNat / 16), hexChar (c.toNat % 16)]
  else [c]

/-- A string literal. -/
def writeString (s : String) : List Char := '"' :: (s.toList.flatMap writeChar ++ ['"'])

/-- A string literal; half of a surrogate pair stands in for one that has no text. -/
def writeLiteral : Option String → List Char
  | some s => writeString s
  | none => "\"\\ud800\"".toList

/-- A whole number. -/
def writeInt (n : Int) : List Char :=
  if n < 0 then '-' :: Nat.toDigits 10 n.natAbs else Nat.toDigits 10 n.natAbs

mutual

/-- The characters of a tree. -/
def writeTree : Json → List Char
  | .null => "null".toList
  | .bool true => "true".toList
  | .bool false => "false".toList
  | .int n => writeInt n
  | .real s _ => s.toList
  | .str s => writeLiteral s
  | .arr items => '[' :: (writeItems items ++ [']'])
  | .obj members => '\x7b' :: (writeMembers members ++ ['\x7d'])
  | .broken => []

/-- The items of an array, with commas between them. -/
def writeItems : List Json → List Char
  | [] => []
  | [j] => writeTree j
  | j :: rest => writeTree j ++ ',' :: writeItems rest

/-- The members of an object, with commas between them. -/
def writeMembers : List (Option String × Json) → List Char
  | [] => []
  | [(key, j)] => writeLiteral key ++ ':' :: writeTree j
  | (key, j) :: rest => writeLiteral key ++ ':' :: (writeTree j ++ ',' :: writeMembers rest)

end

/-- The text of a tree. -/
def write (j : Json) : String := String.ofList (writeTree j)

end LiveTimetable.Json
