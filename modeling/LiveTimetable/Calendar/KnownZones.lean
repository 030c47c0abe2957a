import LiveTimetable.Calendar.Zone

/-!
# Some zones that are known

A table of twelve zones (`Zones.known`). Most keep one offset, or switch between two by a yearly
rule; two islands moved across the date line and so skipped, or repeated, part of a day.

Of every rule the table has the latest wording only. Summer time in London and Oslo is right from
1996 on, in New York (and under `EST5EDT`) from 2007 on, on Lord Howe Island from 2008 on. Apia is
as it was between September 2011 and March 2012, Kwajalein is right from 1944 on, and Kolkata,
Tokyo and Kathmandu from 1945, 1951 and 1986 on. What is proved of zones holds of any `Zones`, and
does not depend on this table.
-/

namespace LiveTimetable

/-- How the clocks of a zone are set. -/
structure Clock where
  /-- Every offset from UTC that there was, in seconds. -/
  offsets : List Int
  /-- The offset in force at an instant. -/
  offsetAt : Int → Int

namespace Clock

/-- The offsets under which a local reading is that of an instant: the offsets `o` that are in force
at the instant `reading - o`. -/
def offsetsOn (c : Clock) (reading : Int) : List Int :=
  c.offsets.filter fun o => c.offsetAt (reading - o) == o

/-- A clock that is never set anew. -/
def steady (offset : Int) : Clock := ⟨[offset], fun _ => offset⟩

/-- A clock that is set forward in summer. -/
def seasonal (winter summer : Int) (isSummer : Int → Bool) : Clock :=
  ⟨[winter, summer], fun instant => if isSummer instant then summer else winter⟩

/-! ## Days on which clocks change -/

/-- The day number of a day of a year, by the rule of the calendar alone. -/
def dayOfYear (year : Int) (month day : Nat) : Int :=
  ServiceDate.daysBeforeYear year + ServiceDate.daysBeforeMonth year month + (day - 1) - 719162

/-- The first Sunday on or after a day number; day 0 was a Thursday. -/
def sundayFrom (day : Int) : Int := day + (3 - day) % 7

/-- The `n`-th Sunday of a month. -/
def nthSunday (n : Nat) (year : Int) (month : Nat) : Int :=
  sundayFrom (dayOfYear year month 1) + 7 * (n - 1)

/-- The last Sunday of a month. -/
def lastSunday (year : Int) (month : Nat) : Int :=
  sundayFrom (dayOfYear year month (daysInMonth year month) - 6)

/-- The instant at which a clock of offset `offset` reads `hour` o'clock on a day. -/
def instantOf (day : Int) (hour offset : Int) : Int := 86400 * day + 3600 * hour - offset

/-- The year of an instant under an offset, correct except within a day of its ends. -/
def yearOf (instant : Int) : Int :=
  let estimate := 1970 + instant / 31556952
  if dayOfYear (estimate + 1) 1 1 ≤ instant / 86400 then estimate + 1
  else if instant / 86400 < dayOfYear estimate 1 1 then estimate - 1
  else estimate

/-- Summer time in Europe: from the last Sunday of March to that of October, at 01:00 UTC. -/
def europeanSummer (instant : Int) : Bool :=
  let year := yearOf instant
  decide (instantOf (lastSunday year 3) 1 0 ≤ instant)
    && decide (instant < instantOf (lastSunday year 10) 1 0)

/-- Summer time at UTC-5: from the second Sunday of March, 02:00, to the first of November. -/
def easternSummer (instant : Int) : Bool :=
  let year := yearOf instant
  decide (instantOf (nthSunday 2 year 3) 2 (-18000) ≤ instant)
    && decide (instant < instantOf (nthSunday 1 year 11) 2 (-14400))

/-- Summer time on Lord Howe Island, across the turn of the year: from the first Sunday of
October to the first of April, at 02:00 local time. -/
def lordHoweSummer (instant : Int) : Bool :=
  let year := yearOf instant
  decide (instant < instantOf (nthSunday 1 year 4) 2 39600)
    || decide (instantOf (nthSunday 1 year 10) 2 37800 ≤ instant)

/-- At UTC-5, with summer time. -/
def eastern : Clock := seasonal (-18000) (-14400) easternSummer

/-- Apia had no thirtieth of December 2011. -/
def apia : Clock where
  offsets := [-36000, 50400]
  offsetAt instant :=
    if instant < instantOf (dayOfYear 2011 12 30) 0 (-36000) then -36000 else 50400

/-- Kwajalein had the thirtieth of September 1969 twice, and no 21st of August 1993. -/
def kwajalein : Clock where
  offsets := [39600, -43200, 43200]
  offsetAt instant :=
    if instant < instantOf (dayOfYear 1969 10 1) 0 39600 then 39600
    else if instant < instantOf (dayOfYear 1993 8 21) 0 (-43200) then -43200
    else 43200

/-- The clocks of the zones that are known, by name. -/
def byName : List (String × Clock) :=
  [("UTC", steady 0), ("GMT", steady 0), ("EST5EDT", eastern),
    ("Europe/London", seasonal 0 3600 europeanSummer),
    ("Europe/Oslo", seasonal 3600 7200 europeanSummer), ("America/New_York", eastern),
    ("Asia/Kolkata", steady 19800), ("Asia/Tokyo", steady 32400), ("Asia/Kathmandu", steady 20700),
    ("Australia/Lord_Howe", seasonal 37800 39600 lordHoweSummer), ("Pacific/Apia", apia),
    ("Pacific/Kwajalein", kwajalein)]

/-- The clocks of a zone. -/
def of? (z : Zone) : Option Clock := (byName.find? fun e => e.1 == z.name).map Prod.snd

theorem offset_mem {z : Zone} {c : Clock} {offset : Int} (hc : of? z = some c)
    (h : offset ∈ c.offsets) : -86400 < offset ∧ offset < 86400 := by
  have hall : ∀ e ∈ byName, ∀ o ∈ e.2.offsets, -86400 < o ∧ o < 86400 := by decide
  obtain ⟨e, he, rfl⟩ := Option.map_eq_some_iff.mp hc
  exact hall e (List.mem_of_find?_eq_some he) offset h

end Clock

/-- The zones of the table, and no others. -/
def Zones.known : Zones where
  isRegistered s := (Clock.of? ⟨s⟩).isSome
  offsetsOn z reading := ((Clock.of? z).map fun c => c.offsetsOn reading).getD []
  offset_mem {z reading offset} h := by
    cases hc : Clock.of? z with
    | none =>
      rw [hc] at h
      cases h
    | some c =>
      rw [hc] at h
      exact Clock.offset_mem hc (List.mem_filter.mp h).1

end LiveTimetable
