/-!
# Text of a fixed width

Columns of a table and the parts of dates and times are brought to a least width by repeating a
fill character on one side; longer text stays as it is.
-/

namespace LiveTimetable.Text

/-- At least `width` characters, filled up on the left. -/
def padLeft (width : Nat) (fill : Char) (s : String) : String :=
  String.ofList (List.replicate (width - s.toList.length) fill ++ s.toList)

/-- At least `width` characters, filled up with blanks on the right. -/
def padRight (width : Nat) (s : String) : String :=
  String.ofList (s.toList ++ List.replicate (width - s.toList.length) ' ')

/-- A whole number with leading zeros; a minus sign counts toward the width. -/
def zeroPadded (width : Nat) (n : Int) : String :=
  if n < 0 then "-" ++ padLeft (width - 1) '0' (toString n.natAbs)
  else padLeft width '0' (toString n.natAbs)

end LiveTimetable.Text
