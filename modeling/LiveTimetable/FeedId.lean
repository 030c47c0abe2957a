import LiveTimetable.Text.Quoted

/-!
# Identifiers scoped to an agency

Two agencies may use one local identifier for different things, so the agency is part of every
identifier. The text of an identifier is `agency:local`; only the first colon separates, so a
local identifier may hold colons of its own. `FeedId.parse` and `FeedId.text` go between the two,
and identifiers are ordered by agency, then by local identifier, code point by code point.
-/

namespace LiveTimetable

/-- An identifier within the feed of one agency. -/
structure FeedId where
  agency : String
  localId : String
  deriving DecidableEq

/-- Why a text is not the text of an identifier. -/
inductive FeedId.Flaw where
  | noColon
  | emptyAgency
  | emptyId
  deriving DecidableEq

/-- A text that was to be an identifier, and what is wrong with it. -/
structure FeedId.Rejected where
  input : String
  flaw : FeedId.Flaw
  deriving DecidableEq

abbrev TripId := FeedId
abbrev StopId := FeedId
abbrev RouteId := FeedId
abbrev ServiceId := FeedId

namespace FeedId

/-- The textual form `agency:local`. -/
def text (f : FeedId) : String := f.agency ++ ":" ++ f.localId

/-- The identifier whose parts stand before and after the first colon. -/
def parse (s : String) : Except Rejected FeedId :=
  let agency := s.toList.takeWhile (· != ':')
  match s.toList.dropWhile (· != ':') with
  | [] => .error ⟨s, .noColon⟩
  | _ :: localId =>
    if agency.isEmpty then .error ⟨s, .emptyAgency⟩
    else if localId.isEmpty then .error ⟨s, .emptyId⟩
    else .ok ⟨String.ofList agency, String.ofList localId⟩

/-- The wording of a flaw. -/
def Flaw.message : Flaw → String
  | .noColon => "missing ':'"
  | .emptyAgency => "empty agency"
  | .emptyId => "empty id"

/-- The wording of a rejection. -/
def Rejected.message (r : Rejected) : String :=
  "invalid feed id " ++ Text.quote r.input ++ ": " ++ r.flaw.message

/-! ## Order -/

instance : Ord FeedId := ⟨compareLex (compareOn FeedId.agency) (compareOn FeedId.localId)⟩

instance : Std.TransOrd FeedId := inferInstanceAs (Std.TransCmp (compareLex _ _))

instance : Std.LawfulEqOrd FeedId where
  eq_of_compare {a b} h := by
    obtain ⟨ha, hl⟩ := Ordering.then_eq_eq.mp h
    cases a
    cases b
    simp only [compareOn] at ha hl
    cases Std.LawfulEqCmp.eq_of_compare ha
    cases Std.LawfulEqCmp.eq_of_compare hl
    rfl

end FeedId

end LiveTimetable
