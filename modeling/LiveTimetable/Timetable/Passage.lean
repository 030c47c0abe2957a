import LiveTimetable.Table
import LiveTimetable.Times.Measure

/-!
# Passages at a stop

The trips that pass a stop, each with the time at which it does so. Passages are ordered by time,
and trips with one time by their position in the timetable; a set of passages is walked in that
order.
-/

namespace LiveTimetable

/-- The time at which the trip at a position of a timetable passes a stop. -/
structure Passage where
  time : ServiceTime
  trip : Nat
  deriving DecidableEq

namespace Passage

instance : Ord Passage := ⟨compareLex (compareOn Passage.time) (compareOn Passage.trip)⟩

instance : Std.TransOrd Passage := inferInstanceAs (Std.TransCmp (compareLex _ _))

instance : Std.LawfulEqOrd Passage where
  eq_of_compare {a b} h := by
    obtain ⟨ht, hp⟩ := Ordering.then_eq_eq.mp h
    cases a
    cases b
    simp only [compareOn] at ht hp
    cases Std.LawfulEqCmp.eq_of_compare ht
    cases Std.LawfulEqCmp.eq_of_compare hp
    rfl

/-- The earlier of two passages. -/
def earlier (a b : Passage) : Passage := if compare b a = .lt then b else a

/-- The later of two passages. -/
def later (a b : Passage) : Passage := if compare a b = .lt then b else a

/-- The earliest passage. -/
def earliest? : List Passage → Option Passage
  | [] => none
  | p :: rest => some (rest.foldl earlier p)

/-- The latest passage. -/
def latest? : List Passage → Option Passage
  | [] => none
  | p :: rest => some (rest.foldl later p)

/-- The set of the listed passages. -/
def setOf (ps : List Passage) : KeySet Passage := Table.ofList (ps.map fun p => (p, ()))

end Passage

/-- The departure from a stop of the trip at a position, if a passenger can get on. -/
def TripTimes.boarding? (t : TripTimes) (trip stop : Nat) : Checked (Option Passage) := do
  if ← t.canBoard stop then return some ⟨← t.departure stop, trip⟩ else return none

/-- The arrival at a stop of the trip at a position, if a passenger can get off. -/
def TripTimes.alighting? (t : TripTimes) (trip stop : Nat) : Checked (Option Passage) := do
  if ← t.canAlight stop then return some ⟨← t.arrival stop, trip⟩ else return none

end LiveTimetable
