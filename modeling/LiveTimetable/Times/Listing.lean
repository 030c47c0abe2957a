import LiveTimetable.Times.Measure

/-!
# A listing of the times of a trip

One line for each stop: its position, arrival, departure, and whether passengers can get on and
off, in columns.
-/

namespace LiveTimetable.TripTimes

/-- The word for a truth value. -/
def yesNo (b : Bool) : String := if b then "true" else "false"

/-- The line of a stop. -/
def line (t : TripTimes) (stop : Nat) : Checked String := do
  let arrival ← t.arrival stop
  let departure ← t.departure stop
  let board ← t.canBoard stop
  let alight ← t.canAlight stop
  return "  " ++ Text.padLeft 3 ' ' (toString stop)
    ++ "  arr " ++ Text.padLeft 9 ' ' (ServiceTime.text arrival)
    ++ "  dep " ++ Text.padLeft 9 ' ' (ServiceTime.text departure)
    ++ "  board " ++ Text.padRight 5 (yesNo board)
    ++ " alight " ++ yesNo alight ++ "\n"

/-- The lines of the given stops, one after another. -/
def lines (t : TripTimes) : List Nat → Checked String
  | [] => .ok ""
  | stop :: rest => do return (← t.line stop) ++ (← t.lines rest)

/-- The line of every stop. -/
def listing (t : TripTimes) : Checked String := t.lines (List.range t.stopCount)

end LiveTimetable.TripTimes
