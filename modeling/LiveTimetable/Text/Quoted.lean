import LiveTimetable.Text.Invisible

/-!
# Quoted text

Messages show a piece of input between double quotes, so that every character of it can be seen.
`quote` puts a backslash before a quote and a backslash, writes tab, line feed, carriage return
and NUL as `\t`, `\n`, `\r` and `\0`, and every other hidden character (`isHidden`) as `\u{…}` with
its code point in lower-case hexadecimal. Every other character stands for itself.
-/

namespace LiveTimetable.Text

/-- One character as it stands between the quotes. -/
def quoteChar (c : Char) : List Char :=
  if c = '"' then ['\\', '"']
  else if c = '\\' then ['\\', '\\']
  else if c = '\t' then ['\\', 't']
  else if c = '\n' then ['\\', 'n']
  else if c = '\r' then ['\\', 'r']
  else if c.toNat = 0 then ['\\', '0']
  else if isHidden c then ['\\', 'u', '\x7b'] ++ Nat.toDigits 16 c.toNat ++ ['\x7d']
  else [c]

/-- The text between double quotes. -/
def quote (s : String) : String :=
  String.ofList ('"' :: (s.toList.flatMap quoteChar ++ ['"']))

end LiveTimetable.Text
