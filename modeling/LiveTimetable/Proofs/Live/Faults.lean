import LiveTimetable.Proofs.Feed.Positions
import LiveTimetable.Proofs.Live.AddedPatterns
import LiveTimetable.Proofs.Live.Departures
import LiveTimetable.Proofs.Live.Monotonicity
import LiveTimetable.Proofs.Live.Verdicts
import LiveTimetable.Proofs.Network.Grouping
import LiveTimetable.Proofs.Times.Overflow

/-!
# When an update meets a fault

In every state that a run leads to, applying an update comes to its end, unless a number that the
feed sent leads to one that cannot be stored. Positions of patches lead to it by being the last one
there is, times by a delay that is out of range. Lists are never read past their end, and nothing
is taken for granted that does not hold.

* `Updater.verdict_error_iff`: only the verdict on new times can meet a fault, and only an overflow.
* `Updater.exists_carryOut`: what a verdict says can be carried out, as long as there are numbers.
* `Updater.schedule_kept`: trips of the schedule keep the times that the schedule publishes.
* `Updater.faults_are_overflows`: when an update meets a fault; with moderate times only if its
  positions run out.
-/

namespace LiveTimetable

/-! ## Schedules -/

namespace Fixture

/-- All times lie within the first ten days. -/
def WithinTenDays (f : Fixture) : Prop := ∀ record ∈ f.trips, ∀ s ∈ record.stopTimes,
  (0 ≤ s.arrival.toInt ∧ s.arrival.toInt ≤ 864000) ∧
    0 ≤ s.departure.toInt ∧ s.departure.toInt ≤ 864000

instance (f : Fixture) : Decidable f.WithinTenDays :=
  inferInstanceAs (Decidable (∀ record ∈ f.trips, ∀ s ∈ record.stopTimes, _ ∧ _))

/-- Ten days are moderate. -/
theorem WithinTenDays.inRange {f : Fixture} (hf : f.WithinTenDays) {b : Baseline}
    (hb : Publishes f.trips b) (hwidth : b.stopCount < 18446744073709551616) : b.InRange := by
  obtain ⟨record, hrecord, -, hcalls⟩ := hb
  refine ⟨hwidth, fun c hc => ?_⟩
  rw [hcalls] at hc
  obtain ⟨s, hs, rfl⟩ := List.mem_map.mp hc
  obtain ⟨⟨ha, ha'⟩, hd, hd'⟩ := hf record hrecord s (mem_bySequence.mp hs)
  exact ⟨⟨Int.le_trans (by decide) ha, Int.le_trans ha' (by decide)⟩,
    Int.le_trans (by decide) hd, Int.le_trans hd' (by decide)⟩

end Fixture

namespace Updater

variable {s s' : Updater} {u : TripUpdate} {p : Pattern} {trip : TripId} {date : ServiceDate}
  {times : TripTimes} {fault : Fault}

/-! ## The times of a trip -/

/-- The current times of a trip are in a row of its pattern, or in a buffered one. -/
theorem exists_row_of_current? (hp : s.index.patternForTrip? trip = some p)
    (hcurrent : s.current? trip date = some times) : ∃ r, r.current = times ∧
      (r ∈ p.timetable.rows ∨ ∃ held, s.buffer.timetables.get? ⟨p.id, date⟩ = some held ∧
        r ∈ held.timetable.rows) := by
  rw [current?_eq hp] at hcurrent
  obtain ⟨r, hr, heq⟩ := Option.map_eq_some_iff.mp hcurrent
  refine ⟨r, heq, ?_⟩
  have hmem := List.mem_of_find?_eq_some hr
  unfold Buffer.resolve Buffer.get? at hmem
  cases hheld : s.buffer.timetables.get? ⟨p.id, date⟩ with
  | none =>
    rw [hheld] at hmem
    exact Or.inl hmem
  | some held =>
    rw [hheld] at hmem
    exact Or.inr ⟨held, rfl, hmem⟩

/-- The times of a trip are times of a publication in its pattern. -/
theorem Tracks.exists_baseline (ht : s.Tracks) (hs : s.Consistent)
    (hp : s.index.patternForTrip? trip = some p) (hcurrent : s.current? trip date = some times) :
    ∃ r ∈ p.timetable.rows, times.baseline = r.published := by
  have hget := get?_of_patternForTrip? hs hp
  obtain ⟨r, rfl, hr | ⟨held, hheld, hr⟩⟩ := exists_row_of_current? hp hcurrent
  · refine ⟨r, hr, ?_⟩
    rw [(hs.index.pattern _ p hget).asPublished r hr]
    rfl
  · obtain ⟨q, hq, htracks⟩ := ht _ held hheld
    rw [hget] at hq
    cases hq
    have hmem := List.mem_map_of_mem (f := Row.published) hr
    rw [htracks.published_eq] at hmem
    obtain ⟨r', hr', heq⟩ := List.mem_map.mp hmem
    exact ⟨r', hr', (htracks.baseline_eq r hr).trans heq.symm⟩

/-- **All times of a reachable state can be read.** -/
theorem Reachable.allRows_intact (h : s.Reachable) : s.AllRows fun r => r.current.Intact := by
  have hkept : KeptByUpdates fun r => r.current.Intact :=
    fun _ _ _ _ _ => TripTimes.Intact.reconcile
  have hnew : ∀ b, (Row.ofBaseline b).current.Intact := TripTimes.intact_scheduled
  exact h.invariant (fun _ _ _ settings hsched => allRows_start hsched settings fun b _ => hnew b)
    fun _ _ _ hchange ha => hchange.allRows ha hkept fun b _ => hnew b

theorem AllRows.intact_current? (h : s.AllRows fun r => r.current.Intact) (hs : s.Consistent)
    (hp : s.index.patternForTrip? trip = some p) (hcurrent : s.current? trip date = some times) :
    times.Intact := by
  obtain ⟨r, rfl, hr | ⟨held, hheld, hr⟩⟩ := exists_row_of_current? hp hcurrent
  · exact h.indexed _ p (get?_of_patternForTrip? hs hp) r hr
  · exact h.buffered _ held hheld r hr

/-- **Trips of the schedule keep the times that the schedule publishes.** -/
theorem schedule_kept {records : List TripRecord} {x : TransitIndex} {g : Graph}
    (hsched : Fixture.Scheduled records g.nextPattern x g) {settings : Settings} {cs : List Command}
    (hrun : performAll cs (start x g settings) = .ok s) :
    ∀ id p, s.index.patterns.get? id = some p → p.isSynthesized = false →
      ∀ r ∈ p.timetable.rows, Fixture.Publishes records r.published := by
  refine invariant_performAll (I := fun s => ∀ id p, s.index.patterns.get? id = some p →
    p.isSynthesized = false → ∀ r ∈ p.timetable.rows, Fixture.Publishes records r.published)
    (fun a entry b hchange ha hi id p hp hsynth => ?_) (consistent_start hsched settings)
    (fun id p hp _ => (hsched.pattern id p hp).2.2) hrun
  -- Only synthesized patterns ever come in.
  cases hchange with
  | retimed | expired | published => exact hi id p hp hsynth
  | entered date hnew hgraph hb =>
    simp only [setBuffer_index, TransitIndex.register, Table.get?_insert] at hp
    split at hp
    · cases hp
      rw [hgraph.sound.isSynthesized] at hsynth
      cases hsynth
    · exact hi id p hp hsynth
  | left hkeeps hmem hrev hrows hsound hgraph hb =>
    simp only [setBuffer_index, (a.index.replaces_removePattern_register _).get?_patterns] at hp
    split at hp
    · cases hp
      rw [hsound.isSynthesized] at hsynth
      cases hsynth
    · exact hi id p hp hsynth
  | dissolved hkeeps htrips =>
    simp only [setBuffer_index, TransitIndex.get?_patterns_removePattern] at hp
    split at hp
    · cases hp
    · exact hi id p hp hsynth

/-! ## Carrying out -/

/-- There are pattern numbers left to give out, and no pattern has more stops than a list can
hold. -/
structure WithinLimits (s : Updater) : Prop where
  nextPattern_lt : s.graph.nextPattern + 1 < 4294967296
  stops_lt : ∀ id p, s.index.patterns.get? id = some p → p.stops.length < 18446744073709551616

/-- **What a verdict says can be carried out.** -/
theorem exists_carryOut (hs : s.Consistent) (ht : s.Tracks) (hlimits : s.WithinLimits) {v : Verdict}
    (hv : s.verdict u = .ok v) : ∃ s' r, s.carryOut u v = .ok (s', r) := by
  rcases verdict_cases hv with ⟨e, rfl⟩ | ⟨times, rfl⟩ | ⟨rfl, -, hadded⟩ |
    ⟨zone, stopTimes, rfl, -, -, hadmitted⟩
  · exact ⟨_, _, rfl⟩
  · exact ⟨_, _, rfl⟩
  · obtain ⟨y, rest, -, -, -, hwithdraw⟩ := exists_withdraw hs ht hadded
    exact ⟨_, _, hwithdraw⟩
  · exact exists_enter hs zone (stopTimes_ne_nil_of_admitted hadmitted)
      fun _ => hlimits.nextPattern_lt

/-! ## Coming to a verdict -/

theorem isWithdrawal_eq_false_iff : u.isWithdrawal = false ↔
    u.isRemoval = false ∧ u.isCancellation = false := by
  unfold TripUpdate.isWithdrawal TripUpdate.isRemoval TripUpdate.isCancellation
  cases u.status <;> decide

/-- New times are screened without a fault, unless their positions run out. -/
theorem screened_error_iff (h : u.isWithdrawal = false) : u.screened = .error fault ↔
    fault = .overflow ∧ PositionsRunOut (u.filter .all).patches := by
  rw [← TripUpdate.isCoherent_filter_error_iff]
  unfold TripUpdate.screened
  rw [h, if_neg Bool.false_ne_true]
  simp only []
  split
  · rename_i hempty
    have hnil := List.isEmpty_iff.mp hempty
    refine iff_of_false nofun fun hfault => ?_
    rw [TripUpdate.isCoherent, hnil] at hfault
    cases hfault
  · rw [Checked.bind_eq_error_iff]
    refine or_iff_left ?_
    rintro ⟨coherent, -, hlast⟩
    split at hlast <;> cases hlast

theorem screened_eq_ok_iff (h : u.isWithdrawal = false) {v : TripUpdate} :
    u.screened = .ok (.ok v) ↔ (u.filter .all).patches ≠ [] ∧
      (u.filter .all).isCoherent = .ok true ∧ v = u.filter .all := by
  unfold TripUpdate.screened
  rw [h, if_neg Bool.false_ne_true]
  simp only [ne_eq, ← List.isEmpty_iff]
  split
  · rename_i hempty
    exact iff_of_false nofun fun hv => hv.1 hempty
  · rename_i hne
    rw [Checked.bind_eq_ok_iff, and_iff_right hne]
    constructor
    · rintro ⟨coherent, hcoherent, hlast⟩
      split at hlast
      · rename_i htrue
        cases hlast
        exact ⟨htrue ▸ hcoherent, rfl⟩
      · cases hlast
    · rintro ⟨hcoherent, rfl⟩
      exact ⟨true, hcoherent, rfl⟩

/-- An update gives new times to a trip that is there, and its positions run out, or the times that
it leads to overrun. -/
structure Overflows (s : Updater) (u : TripUpdate) : Prop where
  isWithdrawal_eq : u.isWithdrawal = false
  known : u.status = .added → s.index.patternForTrip? u.tripId ≠ none
  cause : PositionsRunOut (u.filter .all).patches ∨
    (u.filter .all).isCoherent = .ok true ∧ ∃ p times,
      s.index.patternForTrip? u.tripId = some p ∧ s.current? u.tripId u.date = some times ∧
      times.Overruns p.stops (u.filter .all) s.buffer.recovery

section Verdict

variable (hs : s.Consistent) (ht : s.Tracks) (hrows : s.AllRows fun r => r.current.Intact)
  (hlimits : s.WithinLimits)

include hs ht hrows hlimits

theorem reading_error_iff : s.reading u = .error fault ↔ fault = .overflow ∧
    u.isRemoval = false ∧ u.isCancellation = false ∧ ∃ p times,
      s.index.patternForTrip? u.tripId = some p ∧ s.current? u.tripId u.date = some times ∧
      times.Overruns p.stops u s.buffer.recovery := by
  unfold reading
  cases hp : s.index.patternForTrip? u.tripId with
  | none => exact iff_of_false nofun fun ⟨_, _, _, _, _, h, _⟩ => nomatch h
  | some p =>
    cases hcurrent : s.current? u.tripId u.date with
    | none => exact iff_of_false nofun fun ⟨_, _, _, _, _, _, h, _⟩ => nomatch h
    | some times =>
      have hget := get?_of_patternForTrip? hs hp
      have hwidth : times.stopCount < 18446744073709551616 := by
        obtain ⟨r, hr, hbase⟩ := ht.exists_baseline hs hp hcurrent
        rw [TripTimes.stopCount, hbase, (hs.index.pattern _ p hget).stopCount_eq r hr]
        exact hlimits.stops_lt _ p hget
      simp only [Option.some.injEq, exists_and_left, exists_eq_left']
      rw [← TripTimes.reconcile_error_iff (hrows.intact_current? hs hp hcurrent) hwidth,
        Checked.bind_eq_error_iff]
      refine or_iff_left ?_
      rintro ⟨result, -, h⟩
      split at h <;> cases h

/-- **When the verdict meets a fault**: the times that the update gives overflow. -/
theorem verdict_error_iff : s.verdict u = .error fault ↔ fault = .overflow ∧ s.Overflows u := by
  have hreading : ∀ v : TripUpdate, s.reading v = .error fault ↔ _ := fun _ =>
    reading_error_iff hs ht hrows hlimits
  unfold verdict
  cases hw : u.isWithdrawal with
  | true =>
    have hno : ¬ s.Overflows u := fun h => Bool.noConfusion (hw.symm.trans h.isWithdrawal_eq)
    have hstatus : u.status ≠ .added := fun h => by
      rw [TripUpdate.isWithdrawal, h] at hw
      cases hw
    refine iff_of_false (fun h => ?_) fun h => hno h.2
    split at h
    · cases h
    · rw [if_neg fun hnew => hstatus hnew.1, screened_of_withdrawal hw, Checked.ok_bind] at h
      obtain ⟨-, hremoval, hcancellation, -⟩ := (hreading u).mp h
      exact Bool.noConfusion
        (hw.symm.trans (isWithdrawal_eq_false_iff.mpr ⟨hremoval, hcancellation⟩))
  | false =>
    rw [Bool.false_and, if_neg Bool.false_ne_true]
    split
    · rename_i hnew
      refine iff_of_false (fun h => ?_) fun h => h.2.known hnew.1 hnew.2
      split at h <;> cases h
    · rename_i hknown
      have hknown' : u.status = .added → s.index.patternForTrip? u.tripId ≠ none :=
        fun hstatus hnone => hknown ⟨hstatus, hnone⟩
      rw [Checked.bind_eq_error_iff, screened_error_iff hw]
      constructor
      · rintro (⟨hfault, hout⟩ | ⟨screened, hscreened, h⟩)
        · exact ⟨hfault, hw, hknown', Or.inl hout⟩
        · cases screened with
          | error e => cases h
          | ok v =>
            obtain ⟨-, hcoherent, rfl⟩ := (screened_eq_ok_iff hw).mp hscreened
            obtain ⟨hfault, -, -, hover⟩ := (hreading _).mp h
            exact ⟨hfault, hw, hknown', Or.inr ⟨hcoherent, hover⟩⟩
      · rintro ⟨hfault, -, -, hout | ⟨hcoherent, hover⟩⟩
        · exact Or.inl ⟨hfault, hout⟩
        · obtain ⟨p, times, hp, hcurrent, hoverruns⟩ := hover
          refine Or.inr ⟨.ok (u.filter .all), (screened_eq_ok_iff hw).mpr
            ⟨hoverruns.patches_ne_nil, hcoherent, rfl⟩, (hreading _).mpr ⟨hfault, ?_⟩⟩
          obtain ⟨hremoval, hcancellation⟩ := isWithdrawal_eq_false_iff.mp hw
          exact ⟨hremoval, hcancellation, p, times, hp, hcurrent, hoverruns⟩

end Verdict

/-! ## Applying -/

/-- **When an update meets a fault.** Take a state that a run over the network of a schedule leads
to, with pattern numbers left to give out.

* Applying an update meets no fault but an overflow, and exactly if the update gives new times to a
  trip that is there, and either its positions run out, or it aligns with the stops, its patches
  step back, and the fading delay that is seen in them does not fit.
* If the schedule keeps to the first ten days, and the times of the update are moderate, and those
  at which the feed added the trip if it did, then positions that run out are the only cause. -/
theorem faults_are_overflows {f : Fixture} {x : TransitIndex} {g : Graph}
    (hbuild : f.build.run = .ok (.ok (x, g))) {settings : Settings} {cs : List Command}
    (hrun : performAll cs (start x g settings) = .ok s) (hlimits : s.WithinLimits)
    (u : TripUpdate) :
    (∀ fault, s.apply u = .error fault ↔ fault = .overflow ∧ s.Overflows u) ∧
    (f.WithinTenDays → (u.filter .all).InRange →
      (s.added.contains u.tripId = true → ∀ times, s.current? u.tripId u.date = some times →
        times.baseline.InRange) →
      ((∃ fault, s.apply u = .error fault) ↔ u.isWithdrawal = false ∧
        (u.status = .added → s.index.patternForTrip? u.tripId ≠ none) ∧
        PositionsRunOut (u.filter .all).patches)) := by
  have hsched := Fixture.build_spec hbuild
  have hreach : s.Reachable := ⟨f, x, g, settings, cs, hbuild, hrun⟩
  have hs := hreach.consistent
  have ht := hreach.tracks
  have hfaults : ∀ fault, s.apply u = .error fault ↔ fault = .overflow ∧ s.Overflows u := by
    intro fault
    rw [apply_eq hs ht, Checked.bind_eq_error_iff,
      verdict_error_iff hs ht hreach.allRows_intact hlimits]
    refine or_iff_left ?_
    rintro ⟨v, hv, hcarry⟩
    obtain ⟨s', r, hdone⟩ := exists_carryOut hs ht hlimits hv
    rw [hdone] at hcarry
    cases hcarry
  refine ⟨hfaults, fun hf hu hadded => ⟨?_, ?_⟩⟩
  · rintro ⟨fault, hfault⟩
    obtain ⟨-, hwithdrawal, hknown, hcause⟩ := (hfaults fault).mp hfault
    refine ⟨hwithdrawal, hknown, hcause.resolve_right ?_⟩
    rintro ⟨-, p, times, hp, hcurrent, hoverruns⟩
    refine TripTimes.not_overruns_of_inRange ?_ hu hoverruns
    cases hcontains : s.added.contains u.tripId with
    | true => exact hadded hcontains times hcurrent
    | false =>
      have hget := get?_of_patternForTrip? hs hp
      obtain ⟨r, hr, hbase⟩ := ht.exists_baseline hs hp hcurrent
      have hsynth : p.isSynthesized = false := Bool.eq_false_iff.mpr fun hsynth =>
        Bool.noConfusion (hcontains.symm.trans (hs.contains_iff_indexed.mpr ⟨p, hp, hsynth⟩))
      rw [hbase]
      refine hf.inRange (schedule_kept hsched hrun _ p hget hsynth r hr) ?_
      rw [(hs.index.pattern _ p hget).stopCount_eq r hr]
      exact hlimits.stops_lt _ p hget
  · rintro ⟨hwithdrawal, hknown, hout⟩
    exact ⟨.overflow, (hfaults _).mpr ⟨rfl, hwithdrawal, hknown, Or.inl hout⟩⟩

/-- New times for the shuttle's trip, at the given positions. -/
def shuttleNews (origin target : UInt64) (departure arrival : ServiceTime) : TripUpdate :=
  .modifying ⟨"a", "t"⟩ 0 shuttleDate
    [.ofTimes ⟨"a", "t"⟩ ⟨"a", "x"⟩ origin .predicted shuttleDate none (some departure),
      .ofTimes ⟨"a", "t"⟩ ⟨"a", "y"⟩ target .predicted shuttleDate (some arrival) none]

/-- The published times of the shuttle's trip. -/
def shuttleTimes : Baseline where
  serial := 0
  trip := ⟨⟨"a", "t"⟩, ⟨"a", "r"⟩, ⟨"a", "s"⟩, false⟩
  calls := [100, 200].map fun t => ⟨t, t, ⟨.regular, .regular⟩⟩

theorem withinLimits_shuttleWithExtra : shuttleWithExtra.WithinLimits where
  nextPattern_lt := by decide
  stops_lt id p hp := by
    have hall : ∀ e ∈ shuttleWithExtra.index.patterns.entries, e.2.stops.length ≤ 2 := by decide
    exact Nat.lt_of_le_of_lt (hall (id, p) (Table.mem_entries_iff.mpr hp)) (by decide)

/-- Two updates of the shuttle's trip that meet an overflow: one begins at the last position there
is, the other has the latest departure there is, which steps back, and fading it does not help. -/
theorem faults_are_overflows_shuttle : ∃ x g, shuttle.build.run = .ok (.ok (x, g)) ∧
    performAll [.apply (extraTrip "n" "x" "y" 150 250)] (start x g .standard) =
      .ok shuttleWithExtra ∧
    shuttleWithExtra.WithinLimits ∧ shuttle.WithinTenDays ∧
    ((shuttleNews 18446744073709551615 0 110 210).filter .all).InRange ∧
    (∃ fault, shuttleWithExtra.apply (shuttleNews 18446744073709551615 0 110 210) =
      .error fault) ∧
    shuttleWithExtra.apply (shuttleNews 0 1 2147483647 210) = .error .overflow := by
  have hmoderate : ((shuttleNews 18446744073709551615 0 110 210).filter .all).InRange := by
    have hall : ∀ p ∈ ((shuttleNews 18446744073709551615 0 110 210).filter .all).patches,
      p.arrival.all (·.InRange) ∧ p.departure.all (·.InRange) := by decide
    exact ⟨fun p hp t ht => of_decide_eq_true ((Option.all_eq_true ..).mp (hall p hp).1 t ht),
      fun p hp t ht => of_decide_eq_true ((Option.all_eq_true ..).mp (hall p hp).2 t ht)⟩
  have hout : PositionsRunOut ((shuttleNews 18446744073709551615 0 110 210).filter .all).patches :=
    ⟨[], _, _, [], rfl, List.isChain_singleton _, rfl⟩
  have hlate : shuttleWithExtra.Overflows (shuttleNews 0 1 2147483647 210) := by
    refine ⟨rfl, nofun, Or.inr ⟨rfl, _, .scheduled shuttleTimes, rfl, rfl, 0, shuttleTimes.calls,
      rfl, TripTimes.reads_scheduled _, by decide, by decide⟩⟩
  obtain ⟨x, g, hbuild, hrun⟩ : ∃ x g, shuttle.build.run = .ok (.ok (x, g)) ∧
    performAll [.apply (extraTrip "n" "x" "y" 150 250)] (start x g .standard) =
      .ok shuttleWithExtra := ⟨_, _, rfl, rfl⟩
  have hfaults := faults_are_overflows hbuild hrun withinLimits_shuttleWithExtra
  refine ⟨x, g, hbuild, hrun, withinLimits_shuttleWithExtra, by decide, hmoderate, ?_, ?_⟩
  · exact ((hfaults _).2 (by decide) hmoderate nofun).mpr ⟨rfl, nofun, hout⟩
  · exact ((hfaults _).1 _).mpr ⟨rfl, hlate⟩

end Updater

end LiveTimetable
