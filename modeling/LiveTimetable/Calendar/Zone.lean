import LiveTimetable.Calendar.Date

/-!
# Time zones

A zone is named. Which names there are, and how far from UTC the clocks of a zone are set, is laid
down elsewhere and changes with the years; here it is a parameter (`Zones`).

A local clock reading may belong to one instant, to none (the clock jumped over it) or to two (it
was set back). `Zones.offsetsOn` lists the offsets under which a reading is real.
-/

namespace LiveTimetable

/-- A time zone. -/
structure Zone where
  name : String
  deriving DecidableEq

/-- The zone that the others are set by. -/
def Zone.utc : Zone := ⟨"UTC"⟩

/-- What is laid down about time zones. -/
structure Zones where
  /-- Whether there is a zone of a name; case counts. -/
  isRegistered : String → Bool
  /-- The offsets from UTC, in seconds, under which a local clock reading, in seconds as well, is
  the reading of an instant. -/
  offsetsOn : Zone → Int → List Int
  /-- Clocks are set less than a day before or behind UTC. -/
  offset_mem : ∀ {z : Zone} {reading offset : Int},
    offset ∈ offsetsOn z reading → -86400 < offset ∧ offset < 86400

/-- The zone of a name. -/
def Zones.ofName? (zones : Zones) (s : String) : Option Zone :=
  if zones.isRegistered s then some ⟨s⟩ else none

end LiveTimetable
