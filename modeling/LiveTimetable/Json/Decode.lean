import LiveTimetable.Calendar.Date
import LiveTimetable.Calendar.Zone
import LiveTimetable.FeedId
import LiveTimetable.Json.Reader

/-!
# Decoding JSON trees

A decoder takes a tree to a value, or to the problem that comes **first in the text**. Two
problems have a wording of their own, a rejected identifier and a rejected date; all others are a
plain `mismatch`.

A record is written as an object, or as an array of its fields in the order of their declaration.
`Json.fields` walks such a tree once, in the order of the text: a known field may come once and
its value must decode, an unknown one need only be read to its end. `Fields.required` and
`Fields.withDefault` then pick the values; that a field is missing is noticed last.
-/

namespace LiveTimetable

/-- The first problem met in decoding. -/
inductive DecodeError where
  /-- The text or the tree does not have the form asked for. -/
  | mismatch
  | feedId (rejected : FeedId.Rejected)
  | serviceDate (rejected : ServiceDate.Rejected)
  deriving DecidableEq

/-- The wording of a problem that has one. -/
def DecodeError.message? : DecodeError → Option String
  | .mismatch => none
  | .feedId r => some r.message
  | .serviceDate r => some r.message

/-- A reader of values from trees. -/
abbrev Decoder (α : Type) := Json → Except DecodeError α

namespace Decoder

/-! ## Plain values -/

def bool : Decoder Bool
  | .bool b => .ok b
  | _ => .error .mismatch

def string : Decoder String
  | .str (some s) => .ok s
  | _ => .error .mismatch

/-- A whole number from `lo` to `hi`. -/
def intIn (lo hi : Int) : Decoder Int
  | .int n => if lo ≤ n ∧ n ≤ hi then .ok n else .error .mismatch
  | _ => .error .mismatch

def int32 : Decoder Int32 := fun j => (intIn (-2147483648) 2147483647 j).map Int32.ofInt

def int64 : Decoder Int64 := fun j =>
  (intIn (-9223372036854775808) 9223372036854775807 j).map Int64.ofInt

def uint32 : Decoder UInt32 := fun j => (intIn 0 4294967295 j).map fun n => UInt32.ofNat n.toNat

def uint64 : Decoder UInt64 := fun j =>
  (intIn 0 18446744073709551615 j).map fun n => UInt64.ofNat n.toNat

/-- A value that may be `null`. -/
def optional {α : Type} (dec : Decoder α) : Decoder (Option α)
  | .null => .ok none
  | j => (dec j).map some

/-- The items of an array, decoded from left to right. -/
def items {α : Type} (dec : Decoder α) : List Json → Except DecodeError (List α)
  | [] => .ok []
  | j :: rest => do
    let a ← dec j
    let as ← items dec rest
    return a :: as

/-- An array of values. -/
def list {α : Type} (dec : Decoder α) : Decoder (List α)
  | .arr js => items dec js
  | _ => .error .mismatch

/-- A name out of a list, alone or as the only key of an object whose value is `null`. -/
def named {α : Type} (names : List (String × α)) : Decoder α := fun j =>
  let find (s : String) : Except DecodeError α :=
    match names.find? fun n => n.1 == s with
    | some n => .ok n.2
    | none => .error .mismatch
  match j with
  | .str (some s) => find s
  | .obj [(some s, .null)] => find s
  | _ => .error .mismatch

/-- An identifier in its textual form. -/
def feedId : Decoder FeedId := fun j => do
  match FeedId.parse (← string j) with
  | .ok f => return f
  | .error r => throw (.feedId r)

/-- A date in its textual form. -/
def serviceDate : Decoder ServiceDate := fun j => do
  match ServiceDate.parse (← string j) with
  | .ok d => return d
  | .error r => throw (.serviceDate r)

/-- The zone of a registered name. -/
def zone (zones : Zones) : Decoder Zone := fun j => do
  match zones.ofName? (← string j) with
  | some z => return z
  | none => throw .mismatch

/-- Whether a tree decodes. -/
def check {α : Type} (dec : Decoder α) : Decoder Unit := fun j => (dec j).map fun _ => ()

end Decoder

/-! ## Records -/

/-- The known fields of a record, each with the test of its value. -/
abbrev RecordForm := List (String × Decoder Unit)

/-- The members of a record that has been walked without a problem. -/
structure Fields where
  members : List (Option String × Json)

namespace Fields

/-- The first problem of the members, known fields in `seen` having occurred before. -/
def walk (form : RecordForm) : List String → List (Option String × Json) → Except DecodeError Unit
  | _, [] => .ok ()
  | _, (none, _) :: _ => .error .mismatch
  | seen, (some name, j) :: rest =>
    match form.find? fun f => f.1 == name with
    | none => if j.isWhole then walk form seen rest else .error .mismatch
    | some field =>
      if seen.contains name then .error .mismatch
      else do
        field.2 j
        walk form (name :: seen) rest

/-- The tree of a field. -/
def find? (fs : Fields) (name : String) : Option Json :=
  (fs.members.find? fun m => m.1 == some name).map Prod.snd

/-- The value of a field that must be there. -/
def required {α : Type} (fs : Fields) (name : String) (dec : Decoder α) : Except DecodeError α :=
  match fs.find? name with
  | some j => dec j
  | none => .error .mismatch

/-- The value of a field that may be missing. -/
def withDefault {α : Type} (fs : Fields) (name : String) (dec : Decoder α) (default : α) :
    Except DecodeError α :=
  match fs.find? name with
  | some j => dec j
  | none => .ok default

end Fields

namespace Json

/-- Items under the names of the fields; an item too many has no name. -/
def nameItems : RecordForm → List Json → List (Option String × Json)
  | _, [] => []
  | [], j :: _ => [(none, j)]
  | field :: form, j :: rest => (some field.1, j) :: nameItems form rest

/-- The fields of a record, once every one in the text has been found good. -/
def fields (form : RecordForm) (j : Json) : Except DecodeError Fields :=
  let walked (members : List (Option String × Json)) : Except DecodeError Fields := do
    Fields.walk form [] members
    return ⟨members⟩
  match j with
  | .obj members => walked members
  | .arr items => walked (nameItems form items)
  | _ => .error .mismatch

/-- The value of a whole text, after which only blanks may follow. -/
def decode {α : Type} (dec : Decoder α) (s : String) : Except DecodeError α := do
  let document := read s
  let a ← dec document.root
  if document.ended then return a else throw .mismatch

end Json

end LiveTimetable
