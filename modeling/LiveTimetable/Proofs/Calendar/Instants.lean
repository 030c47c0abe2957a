import LiveTimetable.Calendar.KnownZones
import LiveTimetable.Feed.StopPatch
import LiveTimetable.Proofs.Calendar.Steps

/-!
# Instants as times of a service day

What `ServiceDate.secondsSinceStart?` and `StopPatch.atInstants?` answer, for every instant that
64 bits hold. Of the zone they use only the start of the day, so they are looked at as functions
of that start (`ServiceTime.ofInstant?`, `StopPatch.fromInstants?`), which may be any integer or
none. The exact distance from the start to the instant (`elapsed?`) decides between three ends:

* `TimeAt`: the distance is a time of a day (`IsTime`), and it is the answer;
* `NoTimeAt`: the day has no start, or the distance is no time, being too wide for a
  `ServiceTime` or the number of a marker. The answer is `none`;
* `OutOfReach`: the distance is wider than 64 bits. It is taken in 64 bits before it is looked
  at, so this is a fault and not the absence of a time.

A patch reads its arrival first: a departure out of reach is not met where the arrival has no
time.

* `ReadsInstants`, `Retimes`: the ends of reading an instant, and of giving a patch its times.
* `ServiceDate.start_mem`: in every zone the days of the calendar start within 8.4 * 10^12
  seconds of the epoch.
* `StopPatch.instants_exact`: conversions come to these ends, whatever the start; and on a day of
  the calendar only instants more than 9223363636854775807 seconds from the epoch are out of
  reach.
-/

namespace LiveTimetable

/-! ## The distance to an instant -/

/-- The seconds from the start of a day, if it has one, to an instant. -/
def elapsed? (start : Option Int) (instant : Int64) : Option Int :=
  start.map fun s => instant.toInt - s

/-- Whether a number of seconds is a time of a day: it has 32 bits and is no marker. -/
def IsTime (x : Int) : Prop :=
  (-2147483648 ≤ x ∧ x ≤ 2147483647) ∧ x ≠ ServiceTime.passed.toInt ∧ x ≠ ServiceTime.skipped.toInt

instance (x : Int) : Decidable (IsTime x) := inferInstanceAs (Decidable (_ ∧ _))

/-- Whether a number of seconds has 64 bits. -/
def Fits64 (x : Int) : Prop := -9223372036854775808 ≤ x ∧ x ≤ 9223372036854775807

instance (x : Int) : Decidable (Fits64 x) := inferInstanceAs (Decidable (_ ∧ _))

/-- The instant is at the time `t` of the day. -/
def TimeAt (start : Option Int) (instant : Int64) (t : ServiceTime) : Prop :=
  ∃ x, elapsed? start instant = some x ∧ IsTime x ∧ t.toInt = x

/-- The instant is at no time of the day, and 64 bits are enough to tell. -/
def NoTimeAt (start : Option Int) (instant : Int64) : Prop :=
  ∀ x, elapsed? start instant = some x → Fits64 x ∧ ¬ IsTime x

/-- The instant is further from the start than 64 bits can tell. -/
def OutOfReach (start : Option Int) (instant : Int64) : Prop :=
  ∃ x, elapsed? start instant = some x ∧ ¬ Fits64 x

/-- The time for an instant that the feed may leave out: none where it is left out. -/
inductive ReadAs (start : Option Int) : Option Int64 → Option ServiceTime → Prop where
  | absent : ReadAs start none none
  | time {instant : Int64} {t : ServiceTime} (h : TimeAt start instant t) :
    ReadAs start (some instant) (some t)

/-- The ends of reading an instant in a day that starts at `start`. -/
structure ReadsInstants (start : Option Int) (read : Int64 → Checked (Option ServiceTime)) :
    Prop where
  time : ∀ instant t, read instant = .ok (some t) ↔ TimeAt start instant t
  noTime : ∀ instant, read instant = .ok none ↔ NoTimeAt start instant
  fault : ∀ instant fault, read instant = .error fault ↔
    fault = .overflow ∧ OutOfReach start instant

/-- The ends of giving the patch `p` its times by instants, in a day that starts at `start`. A
patch that comes of it is `p` but for the arrival and the departure. -/
structure Retimes (start : Option Int) (p : StopPatch)
    (retime : Option Int64 → Option Int64 → Checked (Option StopPatch)) : Prop where
  patch : ∀ arrival departure q, retime arrival departure = .ok (some q) ↔
    ∃ arrives departs, ReadAs start arrival arrives ∧ ReadAs start departure departs ∧
      q = { p with arrival := arrives, departure := departs }
  noPatch : ∀ arrival departure, retime arrival departure = .ok none ↔
    (∃ instant ∈ arrival, NoTimeAt start instant) ∨
    (∃ arrives, ReadAs start arrival arrives ∧ ∃ instant ∈ departure, NoTimeAt start instant)
  fault : ∀ arrival departure fault, retime arrival departure = .error fault ↔
    fault = .overflow ∧ ((∃ instant ∈ arrival, OutOfReach start instant) ∨
      (∃ arrives, ReadAs start arrival arrives ∧ ∃ instant ∈ departure, OutOfReach start instant))

/-! ## Reading an instant -/

section Reading

variable {start : Option Int} {instant : Int64} {x : Int} {t : ServiceTime}

/-- The time at an instant of a day that starts at `start`. -/
def ServiceTime.ofInstant? (start : Option Int) (instant : Int64) : Checked (Option ServiceTime) :=
  match elapsed? start instant with
  | none => .ok none
  | some x => do
    let x ← Checked.int64 x
    match Checked.int32 x with
    | .error _ => return none
    | .ok t => return if isMarker t then none else some t

open ServiceTime (ofInstant?)

theorem ServiceDate.secondsSinceStart?_eq (d : ServiceDate) (zones : Zones) (z : Zone) :
    d.secondsSinceStart? zones z = ofInstant? (d.start? zones z) := by
  funext instant
  unfold ServiceDate.secondsSinceStart? ofInstant? elapsed?
  cases d.start? zones z <;> rfl

theorem IsTime.fits64 (h : IsTime x) : Fits64 x := by
  unfold IsTime at h
  unfold Fits64
  omega

theorem isTime_toInt_iff : IsTime t.toInt ↔ ServiceTime.isMarker t = false := by
  have hlo := t.le_toInt
  have hhi := t.toInt_lt
  simp only [IsTime, ServiceTime.isMarker, Bool.or_eq_false_iff, beq_eq_false_iff_ne, ne_eq,
    Int32.toInt_inj]
  constructor
  · exact fun h => h.2
  · exact fun h => ⟨by omega, h⟩

/-- An instant has a time, or none, or is out of reach. -/
theorem instant_cases (start : Option Int) (instant : Int64) :
    (∃ t, TimeAt start instant t) ∨ NoTimeAt start instant ∨ OutOfReach start instant := by
  by_cases hreach : OutOfReach start instant
  · exact .inr (.inr hreach)
  by_cases htime : ∃ x, elapsed? start instant = some x ∧ IsTime x
  · obtain ⟨x, hx, ht⟩ := htime
    have hwidth := ht.1
    exact .inl ⟨Int32.ofInt x, x, hx, ht, Int32.toInt_ofInt_of_le (by omega) (by omega)⟩
  · refine .inr (.inl fun x hx => ⟨?_, fun ht => htime ⟨x, hx, ht⟩⟩)
    exact Decidable.byContradiction fun hwide => hreach ⟨x, hx, hwide⟩

theorem TimeAt.ofInstant?_eq (h : TimeAt start instant t) :
    ofInstant? start instant = .ok (some t) := by
  obtain ⟨x, hx, ht, rfl⟩ := h
  have hwide : Checked.int64 t.toInt = .ok t.toInt := if_pos ht.fits64
  have hnarrow : Checked.int32 t.toInt = .ok t := Checked.int32_eq_ok_iff.mpr rfl
  simp [ofInstant?, hx, hwide, hnarrow, isTime_toInt_iff.mp ht]

theorem NoTimeAt.ofInstant?_eq (h : NoTimeAt start instant) :
    ofInstant? start instant = .ok none := by
  unfold ofInstant?
  cases hx : elapsed? start instant with
  | none => rfl
  | some x =>
    obtain ⟨hfits, ht⟩ := h x hx
    have hwide : Checked.int64 x = .ok x := if_pos hfits
    cases hnarrow : Checked.int32 x with
    | error fault => simp [hwide, hnarrow]
    | ok t =>
      -- 32 bits are enough, so what is wrong with the distance is that it is a marker
      obtain rfl := Checked.int32_eq_ok_iff.mp hnarrow
      have hmarker : ServiceTime.isMarker t = true := by
        rw [isTime_toInt_iff, Bool.not_eq_false] at ht
        exact ht
      simp [hwide, hnarrow, hmarker]

theorem OutOfReach.ofInstant?_eq (h : OutOfReach start instant) :
    ofInstant? start instant = .error .overflow := by
  obtain ⟨x, hx, hwide⟩ := h
  have hwide : Checked.int64 x = .error .overflow := if_neg hwide
  simp only [ofInstant?, hx, hwide, Checked.error_bind]

/-- Reading an instant comes to the end that the distance has. -/
theorem readsInstants_ofInstant? (start : Option Int) : ReadsInstants start (ofInstant? start) where
  time instant t := by
    refine ⟨fun h => ?_, TimeAt.ofInstant?_eq⟩
    obtain ⟨t', ht⟩ | ht | ht := instant_cases start instant
    · cases h.symm.trans ht.ofInstant?_eq
      exact ht
    · cases h.symm.trans ht.ofInstant?_eq
    · cases h.symm.trans ht.ofInstant?_eq
  noTime instant := by
    refine ⟨fun h => ?_, NoTimeAt.ofInstant?_eq⟩
    obtain ⟨t', ht⟩ | ht | ht := instant_cases start instant
    · cases h.symm.trans ht.ofInstant?_eq
    · exact ht
    · cases h.symm.trans ht.ofInstant?_eq
  fault instant fault := by
    constructor
    · intro h
      obtain ⟨t', ht⟩ | ht | ht := instant_cases start instant
      · cases h.symm.trans ht.ofInstant?_eq
      · cases h.symm.trans ht.ofInstant?_eq
      · cases h.symm.trans ht.ofInstant?_eq
        exact ⟨rfl, ht⟩
    · rintro ⟨rfl, ht⟩
      exact ht.ofInstant?_eq

end Reading

/-! ## Giving a patch its times -/

namespace StopPatch

variable {start : Option Int} {instant? : Option Int64} {read : Option ServiceTime}

/-- The time for an instant that the feed may leave out, in a day that starts at `start`. -/
def timeFrom? (start : Option Int) : Option Int64 → Checked (Option (Option ServiceTime))
  | none => .ok (some none)
  | some instant => do return (← ServiceTime.ofInstant? start instant).map some

/-- The patch with times given as instants of a day that starts at `start`. -/
def fromInstants? (p : StopPatch) (start : Option Int) (arrival departure : Option Int64) :
    Checked (Option StopPatch) := do
  match ← timeFrom? start arrival with
  | none => return none
  | some arrival =>
    match ← timeFrom? start departure with
    | none => return none
    | some departure => return some { p with arrival := arrival, departure := departure }

theorem timeOf?_eq (p : StopPatch) (zones : Zones) (z : Zone) :
    p.timeOf? zones z = timeFrom? (p.date.start? zones z) := by
  funext instant?
  unfold timeOf?
  rw [ServiceDate.secondsSinceStart?_eq]
  cases instant? <;> rfl

theorem atInstants?_eq (p : StopPatch) (zones : Zones) (z : Zone) :
    p.atInstants? zones z = p.fromInstants? (p.date.start? zones z) := by
  funext arrival departure
  unfold atInstants?
  rw [timeOf?_eq]
  rfl

theorem timeFrom?_eq_some_iff :
    timeFrom? start instant? = .ok (some read) ↔ ReadAs start instant? read := by
  cases instant? with
  | none =>
    constructor
    · rintro ⟨⟩
      exact .absent
    · rintro ⟨⟩
      rfl
  | some instant =>
    show (ServiceTime.ofInstant? start instant >>= _) = _ ↔ _
    rw [Checked.bind_eq_ok_iff]
    constructor
    · rintro ⟨t?, ht, hread⟩
      cases t? with
      | none => cases hread
      | some t =>
        cases hread
        exact .time (((readsInstants_ofInstant? start).time instant t).mp ht)
    · rintro ⟨⟩
      rename_i t ht
      exact ⟨some t, ht.ofInstant?_eq, rfl⟩

theorem timeFrom?_eq_none_iff :
    timeFrom? start instant? = .ok none ↔ ∃ instant ∈ instant?, NoTimeAt start instant := by
  cases instant? with
  | none =>
    constructor
    · rintro ⟨⟩
    · rintro ⟨instant, ⟨⟩, -⟩
  | some instant =>
    show (ServiceTime.ofInstant? start instant >>= _) = _ ↔ _
    rw [Checked.bind_eq_ok_iff]
    constructor
    · rintro ⟨t?, ht, hread⟩
      cases t? with
      | none => exact ⟨instant, rfl, ((readsInstants_ofInstant? start).noTime instant).mp ht⟩
      | some t => cases hread
    · rintro ⟨_, ⟨⟩, ht⟩
      exact ⟨none, ht.ofInstant?_eq, rfl⟩

theorem timeFrom?_eq_error_iff {fault : Fault} : timeFrom? start instant? = .error fault ↔
    fault = .overflow ∧ ∃ instant ∈ instant?, OutOfReach start instant := by
  cases instant? with
  | none =>
    constructor
    · rintro ⟨⟩
    · rintro ⟨-, instant, ⟨⟩, -⟩
  | some instant =>
    show (ServiceTime.ofInstant? start instant >>= _) = _ ↔ _
    rw [Checked.bind_eq_error_iff, (readsInstants_ofInstant? start).fault]
    constructor
    · rintro (⟨hfault, hreach⟩ | ⟨t?, -, hread⟩)
      · exact ⟨hfault, instant, rfl, hreach⟩
      · cases hread
    · rintro ⟨hfault, _, ⟨⟩, hreach⟩
      exact .inl ⟨hfault, hreach⟩

/-- A patch has its times given in two steps, and the second is not taken where the first finds
no time. -/
theorem retimes_fromInstants? (p : StopPatch) (start : Option Int) :
    Retimes start p (p.fromInstants? start) where
  patch arrival departure q := by
    unfold fromInstants?
    rw [Checked.bind_eq_ok_iff]
    constructor
    · rintro ⟨arrives?, harrival, h⟩
      cases arrives? with
      | none => cases h
      | some arrives =>
        obtain ⟨departs?, hdeparture, h⟩ := Checked.bind_eq_ok_iff.mp h
        cases departs? with
        | none => cases h
        | some departs =>
          cases h
          exact ⟨arrives, departs, timeFrom?_eq_some_iff.mp harrival,
            timeFrom?_eq_some_iff.mp hdeparture, rfl⟩
    · rintro ⟨arrives, departs, harrival, hdeparture, rfl⟩
      refine ⟨some arrives, timeFrom?_eq_some_iff.mpr harrival, ?_⟩
      exact Checked.bind_eq_ok_iff.mpr ⟨some departs, timeFrom?_eq_some_iff.mpr hdeparture, rfl⟩
  noPatch arrival departure := by
    unfold fromInstants?
    rw [Checked.bind_eq_ok_iff]
    constructor
    · rintro ⟨arrives?, harrival, h⟩
      cases arrives? with
      | none => exact .inl (timeFrom?_eq_none_iff.mp harrival)
      | some arrives =>
        obtain ⟨departs?, hdeparture, h⟩ := Checked.bind_eq_ok_iff.mp h
        cases departs? with
        | none =>
          exact .inr ⟨arrives, timeFrom?_eq_some_iff.mp harrival,
            timeFrom?_eq_none_iff.mp hdeparture⟩
        | some departs => cases h
    · rintro (harrival | ⟨arrives, harrival, hdeparture⟩)
      · exact ⟨none, timeFrom?_eq_none_iff.mpr harrival, rfl⟩
      · refine ⟨some arrives, timeFrom?_eq_some_iff.mpr harrival, ?_⟩
        exact Checked.bind_eq_ok_iff.mpr ⟨none, timeFrom?_eq_none_iff.mpr hdeparture, rfl⟩
  fault arrival departure fault := by
    unfold fromInstants?
    rw [Checked.bind_eq_error_iff, timeFrom?_eq_error_iff]
    constructor
    · rintro (⟨hfault, hreach⟩ | ⟨arrives?, harrival, h⟩)
      · exact ⟨hfault, .inl hreach⟩
      · cases arrives? with
        | none => cases h
        | some arrives =>
          obtain hdeparture | ⟨departs?, -, h⟩ := Checked.bind_eq_error_iff.mp h
          · obtain ⟨hfault, hreach⟩ := timeFrom?_eq_error_iff.mp hdeparture
            exact ⟨hfault, .inr ⟨arrives, timeFrom?_eq_some_iff.mp harrival, hreach⟩⟩
          · cases departs? <;> cases h
    · rintro ⟨hfault, hreach | ⟨arrives, harrival, hreach⟩⟩
      · exact .inl ⟨hfault, hreach⟩
      · refine .inr ⟨some arrives, timeFrom?_eq_some_iff.mpr harrival, ?_⟩
        exact Checked.bind_eq_error_iff.mpr (.inl (timeFrom?_eq_error_iff.mpr ⟨hfault, hreach⟩))

end StopPatch

/-! ## The days of the calendar -/

namespace ServiceDate

variable {d : ServiceDate} {zones : Zones} {z : Zone}

theorem daysInMonth_le (year : Int) (month : Nat) : daysInMonth year month ≤ 31 := by
  unfold daysInMonth
  grind

theorem foldl_daysInMonth_le (year : Int) : ∀ (months : List Nat) (days : Nat),
    months.foldl (fun days m => days + daysInMonth year m) days ≤ days + 31 * months.length
  | [], _ => Nat.le_refl _
  | month :: months, days => by
    have hrest := foldl_daysInMonth_le year months (days + daysInMonth year month)
    have hmonth := daysInMonth_le year month
    rw [List.foldl_cons, List.length_cons]
    omega

theorem daysBeforeMonth_le (d : ServiceDate) : daysBeforeMonth d.year d.month ≤ 341 := by
  have hfold := foldl_daysInMonth_le d.year ((List.range d.month).drop 1) 0
  have hmonth := d.month_mem
  rw [List.length_drop, List.length_range] at hfold
  unfold daysBeforeMonth
  omega

theorem dayNumber_mem (d : ServiceDate) : -97000000 ≤ d.dayNumber ∧ d.dayNumber ≤ 97000000 := by
  obtain ⟨hyear, hday, hle⟩ := d.isDay
  have hbefore := daysBeforeMonth_le d
  have hmonth := daysInMonth_le d.year d.month
  simp only [dayNumber, daysBeforeYear]
  omega

/-- The start of a day of the calendar is not far from the epoch, for 64 bits. -/
theorem start_mem {start : Int} (h : d.start? zones z = some start) :
    -8400000000000 ≤ start ∧ start ≤ 8400000000000 := by
  have hday := d.dayNumber_mem
  simp only [start?] at h
  split at h
  · rename_i offset hoffsets
    cases h
    have hmem : offset ∈ zones.offsetsOn z (86400 * d.dayNumber + 43200) := by
      rw [hoffsets]
      exact List.mem_singleton_self offset
    have hoffset := zones.offset_mem hmem
    omega
  · cases h

/-- On a day of the calendar only the ends of the instants are out of reach. -/
theorem far_of_outOfReach {instant : Int64} (h : OutOfReach (d.start? zones z) instant) :
    9223363636854775807 < instant.toInt.natAbs := by
  obtain ⟨x, hx, hwide⟩ := h
  obtain ⟨start, hstart, rfl⟩ := Option.map_eq_some_iff.mp hx
  have hmem := start_mem hstart
  have hlo := instant.le_toInt
  have hhi := instant.toInt_lt
  unfold Fits64 at hwide
  omega

end ServiceDate

/-! ## Together -/

/-- **Instants are converted exactly, within the reach of 64 bits.** Reading an instant and
giving a patch its times come to the ends that the exact distance from the start of the day
decides. This is so of whatever start a zone gives the day, and in particular of that which it has
by the offsets laid down for the zone; instants within 9223363636854775807 seconds of the epoch are
never out of its reach. -/
theorem StopPatch.instants_exact (p : StopPatch) (start : Option Int) :
    ReadsInstants start (ServiceTime.ofInstant? start) ∧
    Retimes start p (p.fromInstants? start) ∧
    ∀ zones z, p.date.start? zones z = start →
      ReadsInstants start (p.date.secondsSinceStart? zones z) ∧
      Retimes start p (p.atInstants? zones z) ∧
      ∀ instant, OutOfReach start instant → 9223363636854775807 < instant.toInt.natAbs := by
  have hread := readsInstants_ofInstant? start
  have hretime := p.retimes_fromInstants? start
  refine ⟨hread, hretime, ?_⟩
  rintro zones z rfl
  rw [ServiceDate.secondsSinceStart?_eq, StopPatch.atInstants?_eq]
  exact ⟨hread, hretime, fun instant hreach => ServiceDate.far_of_outOfReach hreach⟩

/-- A patch for the second of March 2024. -/
def StopPatch.marchNews : StopPatch :=
  .ofTimes ⟨"a", "t"⟩ ⟨"a", "x"⟩ 0 .predicted ⟨2024, 3, 2, by decide⟩ none none

/-- In UTC that day starts 1709337600 seconds after the epoch. Eight in the morning is a time of
it, the last instant has none, and the first one is out of reach: it stops the conversion. -/
theorem StopPatch.instants_exact_marchNews :
    marchNews.date.start? .known .utc = some 1709337600 ∧
    marchNews.date.secondsSinceStart? .known .utc 1709366400 = .ok (some 28800) ∧
    marchNews.date.secondsSinceStart? .known .utc Int64.maxValue = .ok none ∧
    marchNews.date.secondsSinceStart? .known .utc Int64.minValue = .error .overflow ∧
    marchNews.atInstants? .known .utc (some 1709366400) none =
      .ok (some { marchNews with arrival := some 28800, departure := none }) ∧
    marchNews.atInstants? .known .utc none (some Int64.minValue) = .error .overflow := by
  have hstart : marchNews.date.start? .known .utc = some 1709337600 := by decide
  obtain ⟨hread, hretime, -⟩ := (instants_exact marchNews (some 1709337600)).2.2 .known .utc hstart
  have hmorning : TimeAt (some 1709337600) 1709366400 28800 := ⟨28800, by decide, by decide, rfl⟩
  have hlast : NoTimeAt (some 1709337600) Int64.maxValue := by
    intro x hx
    cases hx
    decide
  have hfirst : OutOfReach (some 1709337600) Int64.minValue := ⟨_, rfl, by decide⟩
  refine ⟨hstart, (hread.time _ _).mpr hmorning, (hread.noTime _).mpr hlast,
    (hread.fault _ _).mpr ⟨rfl, hfirst⟩, ?_, ?_⟩
  · exact (hretime.patch _ _ _).mpr ⟨_, _, .time hmorning, .absent, rfl⟩
  · exact (hretime.fault _ _ _).mpr ⟨rfl, .inr ⟨_, .absent, _, rfl, hfirst⟩⟩

end LiveTimetable
