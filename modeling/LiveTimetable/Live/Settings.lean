import LiveTimetable.Calendar.Zone
import LiveTimetable.Text.Blank
import LiveTimetable.Times.Reconcile

/-!
# Settings of the updater

How often snapshots are cut, whether expired data goes, and so on. Durations are in milliseconds.
`Settings.ofEnvironment` takes settings from named texts; a text that cannot be read leaves the
standard value, and blanks around it do not count. How often a line is logged is kept and told,
but decides nothing.
-/

namespace LiveTimetable

/-- The settings of the updater. -/
structure Settings where
  /-- The least time between two snapshots. -/
  snapshotInterval : Nat
  /-- Whether data of past service days is dropped. -/
  purgeExpired : Bool
  /-- After how many applied updates a line is logged. -/
  logFrequency : Nat
  /-- The zone in which today is today. -/
  zone : Zone
  /-- The time between two runs. -/
  updateInterval : Nat
  recovery : Recovery
  deriving DecidableEq

namespace Settings

/-- The standard settings. -/
def standard : Settings := ⟨1000, true, 2000, .utc, 300000, .standard⟩

/-- The settings with a time between runs, at least one millisecond. -/
def withUpdateInterval (s : Settings) (milliseconds : Nat) : Settings :=
  { s with updateInterval := max 1 milliseconds }

/-- The settings with a rate of recovery. -/
def withRecovery (s : Settings) (recovery : Recovery) : Settings := { s with recovery }

/-! ## Reading -/

/-- A whole number below `bound`: ASCII digits, possibly after a plus sign. -/
def wordBelow? (bound : Nat) (s : String) : Option Nat :=
  let digits := match s.toList with
    | '+' :: rest => rest
    | cs => cs
  if digits.isEmpty || !digits.all Char.isDigit then none
  else
    let n := digits.foldl (fun n c => 10 * n + (c.toNat - '0'.toNat)) 0
    if n < bound then some n else none

/-- A word of 64 bits. -/
def word64? : String → Option Nat := wordBelow? 18446744073709551616

/-- A word of 32 bits. -/
def word32? : String → Option Nat := wordBelow? 4294967296

/-- `true` or `false`. -/
def truth? (s : String) : Option Bool :=
  if s = "true" then some true else if s = "false" then some false else none

/-- The settings that named texts make. -/
def ofEnvironment (zones : Zones) (text? : String → Option String) : Settings :=
  let read {α : Type} (name : String) (parse? : String → Option α) (default : α) : α :=
    (((text? name).map Text.trim).bind parse?).getD default
  let seconds := read "RT_UPDATE_FREQUENCY_SECS" word64? 0
  { snapshotInterval := read "RT_SNAPSHOT_INTERVAL_MS" word64? standard.snapshotInterval
    purgeExpired := read "RT_PURGE_EXPIRED" truth? standard.purgeExpired
    logFrequency := read "RT_LOG_FREQUENCY" word64? standard.logFrequency
    zone := read "RT_TIMEZONE" zones.ofName? standard.zone
    updateInterval := if seconds = 0 then standard.updateInterval else 1000 * seconds
    recovery := ((((text? "RT_RECOVERY_SECS_PER_MINUTE").map Text.trim).bind word32?).map
      Recovery.ofRate).getD standard.recovery }

end Settings

end LiveTimetable
