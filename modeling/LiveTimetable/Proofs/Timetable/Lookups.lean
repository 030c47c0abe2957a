import LiveTimetable.Proofs.Timetable.Passages
import LiveTimetable.Proofs.Timetable.Reachability
import LiveTimetable.Proofs.Times.Simulation

/-!
# The stop index answers as the trips do

Questions for the next departure and the last arrival are answered in two ways: from the stop
index, where the passages at a stop are in order, or trip by trip. Boardings and alightings are two
kinds of passages (`PassageKind`), and what is said of passages is said of each kind.

* `Timetable.Passes`: a trip passes a stop.
* `Timetable.Intact.scan_spec`, `Timetable.Intact.passageSets_spec`: the passages that are found
  trip by trip, and those that the index has.
* `Timetable.lookups_agree`: in a reachable timetable both ways find the earliest departure and the
  latest arrival.
-/

namespace LiveTimetable

/-! ## Kinds of passages -/

/-- A kind of passages: on what terms passengers take part, and at what time. -/
structure PassageKind where
  terms : TripTimes → Nat → Checked Boarding
  time : TripTimes → Nat → Checked ServiceTime
  isOk : ∀ {t : TripTimes} {stop : Nat} {c : Call}, t.ReadsAt stop c →
    (∃ allowed, terms t stop = .ok allowed) ∧ ∃ time', time t stop = .ok time'

namespace PassageKind

/-- Passengers get on at the departure. -/
def boarding : PassageKind := ⟨TripTimes.pickup, TripTimes.departure, fun h =>
  ⟨⟨_, h.pickup⟩, ⟨_, h.departure⟩⟩⟩

/-- Passengers get off at the arrival. -/
def alighting : PassageKind := ⟨TripTimes.dropoff, TripTimes.arrival, fun h =>
  ⟨⟨_, h.dropoff⟩, ⟨_, h.arrival⟩⟩⟩

/-- Whether passengers can take part: they may, and there is a real time. -/
def can (kind : PassageKind) (t : TripTimes) (stop : Nat) : Checked Bool := do
  if (← kind.terms t stop).isAllowed then return !ServiceTime.isMarker (← kind.time t stop)
  else return false

/-- The passage of the trip at a position, if passengers can take part. -/
def passage? (kind : PassageKind) (t : TripTimes) (trip stop : Nat) : Checked (Option Passage) := do
  if ← kind.can t stop then return some ⟨← kind.time t stop, trip⟩ else return none

theorem passage?_boarding : boarding.passage? = TripTimes.boarding? := rfl

theorem passage?_alighting : alighting.passage? = TripTimes.alighting? := rfl

variable {kind : PassageKind} {t : TripTimes} {trip stop : Nat} {p : Passage}

theorem passage?_eq_some_iff : kind.passage? t trip stop = .ok (some p) ↔
    kind.can t stop = .ok true ∧ kind.time t stop = .ok p.time ∧ p.trip = trip := by
  unfold passage?
  rw [Checked.bind_eq_ok_iff]
  constructor
  · rintro ⟨takesPart, hcan, h⟩
    cases takesPart with
    | false => cases h
    | true =>
      obtain ⟨time, htime, h⟩ := Checked.bind_eq_ok_iff.mp h
      cases h
      exact ⟨hcan, htime, rfl⟩
  · rintro ⟨hcan, htime, rfl⟩
    exact ⟨true, hcan, Checked.bind_eq_ok_iff.mpr ⟨p.time, htime, rfl⟩⟩

/-- A passage has a real time. -/
theorem isMarker_eq_false (h : kind.passage? t trip stop = .ok (some p)) :
    ServiceTime.isMarker p.time = false := by
  obtain ⟨hcan, htime, -⟩ := passage?_eq_some_iff.mp h
  obtain ⟨terms, -, hcan⟩ := Checked.bind_eq_ok_iff.mp hcan
  by_cases hallowed : terms.isAllowed = true
  · rw [if_pos hallowed, htime] at hcan
    simpa using hcan
  · rw [if_neg hallowed] at hcan
    cases hcan

/-- Where a stop can be read it can be told whether the trip passes. -/
theorem exists_passage? {c : Call} (h : t.ReadsAt stop c) (trip : Nat) :
    ∃ answer, kind.passage? t trip stop = .ok answer := by
  obtain ⟨⟨terms, hterms⟩, ⟨time, htime⟩⟩ := kind.isOk h
  unfold passage? can
  rw [hterms, Checked.ok_bind, htime]
  by_cases hallowed : terms.isAllowed = true
  · rw [if_pos hallowed]
    cases hmarker : ServiceTime.isMarker time with
    | true => exact ⟨none, by simp [hmarker]⟩
    | false => exact ⟨some ⟨time, trip⟩, by simp [hmarker]⟩
  · rw [if_neg hallowed]
    exact ⟨none, rfl⟩

end PassageKind

namespace Timetable

open Passage

variable {kind : PassageKind} {t : Timetable} {stop : Nat} {p : Passage}

/-- The trip at the position of the passage calls at the stop, and passengers can take part. -/
def Passes (kind : PassageKind) (t : Timetable) (stop : Nat) (p : Passage) : Prop :=
  ∃ row, t.rows[p.trip]? = some row ∧ stop < row.current.stopCount ∧
    kind.can row.current stop = .ok true ∧ kind.time row.current stop = .ok p.time

/-- A passenger can get on at the stop, on the trip at the position of the passage. -/
def Boards (t : Timetable) (stop : Nat) (p : Passage) : Prop :=
  ∃ row, t.rows[p.trip]? = some row ∧ stop < row.current.stopCount ∧
    row.current.canBoard stop = .ok true ∧ row.current.departure stop = .ok p.time

/-- A passenger can get off at the stop, from the trip at the position of the passage. -/
def Alights (t : Timetable) (stop : Nat) (p : Passage) : Prop :=
  ∃ row, t.rows[p.trip]? = some row ∧ stop < row.current.stopCount ∧
    row.current.canAlight stop = .ok true ∧ row.current.arrival stop = .ok p.time

/-! ## Trip by trip -/

/-- A walk over rows finds the passage of each row that has one. -/
theorem passagesFrom_spec {passage? : TripTimes → Nat → Nat → Checked (Option Passage)}
    {rows : List Row} (i : Nat)
    (hok : ∀ r ∈ rows, ∀ trip, ∃ answer, passage? r.current trip stop = .ok answer) :
    ∃ ps, passagesFrom passage? stop i rows = .ok ps ∧ ∀ p, p ∈ ps ↔
      ∃ k row, rows[k]? = some row ∧ passage? row.current (i + k) stop = .ok (some p) := by
  induction rows generalizing i with
  | nil => exact ⟨[], rfl, fun p => by simp⟩
  | cons row rest ih =>
    obtain ⟨answer, hanswer⟩ := hok row List.mem_cons_self i
    obtain ⟨ps, hps, hmem⟩ := ih (i + 1) fun r hr => hok r (List.mem_cons_of_mem _ hr)
    refine ⟨answer.toList ++ ps, ?_, fun p => ?_⟩
    · rw [passagesFrom, hanswer, Checked.ok_bind, hps]
      rfl
    · rw [List.mem_append, Option.mem_toList, hmem]
      constructor
      · rintro (hp | ⟨k, row', hrow', hp⟩)
        · exact ⟨0, row, rfl, hanswer.trans (congrArg Except.ok hp)⟩
        · exact ⟨k + 1, row', hrow', by rwa [← Nat.succ_add_eq_add_succ]⟩
      · rintro ⟨k, row', hrow', hp⟩
        cases k with
        | zero =>
          cases hrow'
          exact Or.inl (Except.ok.inj (hanswer.symm.trans hp))
        | succ k => exact Or.inr ⟨k, row', hrow', by rwa [Nat.succ_add_eq_add_succ]⟩

theorem passageOf_eq_some_iff {times : TripTimes} {trip : Nat} :
    passageOf kind.passage? times trip stop = .ok (some p) ↔
      stop < times.stopCount ∧ kind.passage? times trip stop = .ok (some p) := by
  unfold passageOf
  by_cases hstop : stop < times.stopCount
  · simp [hstop]
  · simp [hstop]

/-- The passage of a row is at the position of the row. -/
theorem exists_row_iff : (∃ k row, t.rows[k]? = some row ∧ stop < row.current.stopCount ∧
    kind.passage? row.current k stop = .ok (some p)) ↔ t.Passes kind stop p := by
  constructor
  · rintro ⟨k, row, hrow, hstop, hp⟩
    obtain ⟨hcan, htime, rfl⟩ := PassageKind.passage?_eq_some_iff.mp hp
    exact ⟨row, hrow, hstop, hcan, htime⟩
  · rintro ⟨row, hrow, hstop, hcan, htime⟩
    exact ⟨p.trip, row, hrow, hstop, PassageKind.passage?_eq_some_iff.mpr ⟨hcan, htime, rfl⟩⟩

/-- **The passages that are found trip by trip**, also past the last stop. -/
theorem Intact.scan_spec (ht : t.Intact) (kind : PassageKind) (stop : Nat) :
    ∃ ps, t.scan kind.passage? stop = .ok ps ∧ ∀ p, p ∈ ps ↔ t.Passes kind stop p := by
  have hok : ∀ r ∈ t.rows, ∀ trip, ∃ answer,
      passageOf kind.passage? r.current trip stop = .ok answer := by
    intro r hr trip
    unfold passageOf
    by_cases hstop : stop < r.current.stopCount
    · rw [if_pos hstop]
      obtain ⟨c, hc⟩ := (ht.current r hr).readable stop hstop
      exact PassageKind.exists_passage? hc trip
    · rw [if_neg hstop]
      exact ⟨none, rfl⟩
  obtain ⟨ps, hps, hmem⟩ := passagesFrom_spec 0 hok
  refine ⟨_, by rw [scan, hps, Checked.ok_bind]; rfl, fun p => ?_⟩
  simp only [List.mem_filter, hmem, Nat.zero_add, passageOf_eq_some_iff, ← exists_row_iff]
  constructor
  · intro h
    exact h.1
  · rintro ⟨k, row, hrow, hstop, hp⟩
    exact ⟨⟨k, row, hrow, hstop, hp⟩, by rw [PassageKind.isMarker_eq_false hp]; rfl⟩

/-! ## Out of the stop index -/

/-- At a stop of the timetable every trip calls. -/
theorem Intact.passagesFrom_spec (ht : t.Intact) (kind : PassageKind)
    (hstop : stop < t.stops.length) :
    ∃ ps, passagesFrom kind.passage? stop 0 t.rows = .ok ps ∧
      ∀ p, p ∈ ps ↔ t.Passes kind stop p := by
  have hcalls : ∀ r ∈ t.rows, stop < r.current.stopCount := fun r hr => by
    rw [ht.stopCount_eq r hr]
    exact hstop
  have hok : ∀ r ∈ t.rows, ∀ trip, ∃ answer, kind.passage? r.current trip stop = .ok answer := by
    intro r hr trip
    obtain ⟨c, hc⟩ := (ht.current r hr).readable stop (hcalls r hr)
    exact PassageKind.exists_passage? hc trip
  obtain ⟨ps, hps, hmem⟩ := Timetable.passagesFrom_spec 0 hok
  refine ⟨ps, hps, fun p => ?_⟩
  rw [hmem, ← exists_row_iff]
  simp only [Nat.zero_add]
  constructor
  · rintro ⟨k, row, hrow, hp⟩
    exact ⟨k, row, hrow, hcalls row (List.mem_of_getElem? hrow), hp⟩
  · rintro ⟨k, row, hrow, -, hp⟩
    exact ⟨k, row, hrow, hp⟩

theorem passageSets_eq {passages : Nat → Checked (List Passage)} {Q : Nat → List Passage → Prop}
    {stops : List Nat} (h : ∀ stop ∈ stops, ∃ ps, passages stop = .ok ps ∧ Q stop ps) :
    ∃ sets : List (KeySet Passage), passageSets passages stops = .ok sets ∧
      sets.length = stops.length ∧
        ∀ i s : Nat, stops[i]? = some s → ∃ ps, sets[i]? = some (Passage.setOf ps) ∧ Q s ps := by
  induction stops with
  | nil => exact ⟨[], rfl, rfl, nofun⟩
  | cons stop rest ih =>
    obtain ⟨ps, hps, hQ⟩ := h stop List.mem_cons_self
    obtain ⟨sets, hsets, hlength, hrest⟩ := ih fun s hs => h s (List.mem_cons_of_mem _ hs)
    refine ⟨Passage.setOf ps :: sets, ?_, congrArg Nat.succ hlength, fun i s hs => ?_⟩
    · rw [passageSets, hps, Checked.ok_bind, hsets]
      rfl
    · cases i with
      | zero =>
        cases hs
        exact ⟨ps, rfl, hQ⟩
      | succ i => exact hrest i s hs

/-- **The passages that the index has.** Past the last stop there are none. -/
theorem Intact.passageSets_spec (ht : t.Intact) (kind : PassageKind) :
    ∃ sets, passageSets (fun stop => passagesFrom kind.passage? stop 0 t.rows)
        (List.range t.stops.length) = .ok sets ∧
      ∀ stop, ∃ ps, (sets[stop]?.map Table.keys).getD [] = (Passage.setOf ps).keys ∧
        ∀ p, p ∈ ps ↔ t.Passes kind stop p := by
  obtain ⟨sets, hsets, hlength, hspec⟩ := passageSets_eq fun stop hstop =>
    ht.passagesFrom_spec kind (List.mem_range.mp hstop)
  refine ⟨sets, hsets, fun stop => ?_⟩
  rw [List.length_range] at hlength
  by_cases hstop : stop < t.stops.length
  · obtain ⟨ps, hps, hmem⟩ := hspec stop stop (by rw [List.getElem?_range hstop])
    exact ⟨ps, by rw [hps]; rfl, hmem⟩
  · have hnone : sets[stop]? = none := List.getElem?_eq_none (by omega)
    refine ⟨[], by rw [hnone]; rfl, fun p => ?_⟩
    simp only [List.not_mem_nil, false_iff]
    rintro ⟨row, hrow, hlt, -⟩
    rw [ht.stopCount_eq row (List.mem_of_getElem? hrow)] at hlt
    exact hstop hlt

/-! ## Questions -/

/-- An intact timetable can be finished. -/
theorem Intact.exists_index (ht : t.Intact) : ∃ index, t.buildIndex = .ok index := by
  obtain ⟨departures, hdepartures, -⟩ := ht.passageSets_spec .boarding
  obtain ⟨arrivals, harrivals, -⟩ := ht.passageSets_spec .alighting
  refine ⟨⟨departures, arrivals⟩, ?_⟩
  rw [buildIndex]
  exact Checked.bind_eq_ok_iff.mpr ⟨departures, hdepartures,
    Checked.bind_eq_ok_iff.mpr ⟨arrivals, harrivals, rfl⟩⟩

theorem Intact.exists_finish (ht : t.Intact) : ∃ t', t.finish = .ok t' := by
  unfold Timetable.finish
  cases t.index with
  | some index => exact ⟨t, rfl⟩
  | none =>
    obtain ⟨index, hindex⟩ := ht.exists_index
    exact ⟨_, by rw [hindex]; rfl⟩

/-- The lists of an index that is not stale are those of the trips. -/
theorem Intact.index_spec (ht : t.Intact) {index : StopIndex} (hindex : t.index = some index)
    (stop : Nat) :
    (∃ ps, (index.departures[stop]?.map Table.keys).getD [] = (Passage.setOf ps).keys ∧
      ∀ p, p ∈ ps ↔ t.Passes .boarding stop p) ∧
    ∃ ps, (index.arrivals[stop]?.map Table.keys).getD [] = (Passage.setOf ps).keys ∧
      ∀ p, p ∈ ps ↔ t.Passes .alighting stop p := by
  obtain ⟨departures, hdepartures, hboard⟩ := ht.passageSets_spec .boarding
  obtain ⟨arrivals, harrivals, halight⟩ := ht.passageSets_spec .alighting
  have hbuild := ht.fresh index hindex
  obtain ⟨departures', hdepartures', hbuild⟩ := Checked.bind_eq_ok_iff.mp hbuild
  obtain ⟨arrivals', harrivals', hbuild⟩ := Checked.bind_eq_ok_iff.mp hbuild
  cases hbuild
  cases hdepartures.symm.trans hdepartures'
  cases harrivals.symm.trans harrivals'
  exact ⟨hboard stop, halight stop⟩

/-- **The next departure is the earliest one**, whether or not the index is there. -/
theorem Intact.nextDeparture_spec (ht : t.Intact) (stop : Nat) (after : ServiceTime) :
    ∃ d, t.nextDeparture stop after = .ok d ∧
      IsEarliest (fun p => t.Boards stop p ∧ after ≤ p.time) d := by
  unfold nextDeparture
  cases hindex : t.index with
  | some index =>
    obtain ⟨ps, hps, hmem⟩ := (ht.index_spec hindex stop).1
    refine ⟨_, rfl, ?_⟩
    have hfind : ((index.departures[stop]?.map Table.keys).bind fun ps =>
        ps.find? fun p => after ≤ p.time) =
          (Passage.setOf ps).keys.find? fun p => after ≤ p.time := by
      rw [← hps]
      cases index.departures[stop]? <;> rfl
    rw [hfind]
    refine (isEarliest_find?_setOf ps _).congr fun p => ?_
    rw [hmem, decide_eq_true_iff]
    rfl
  | none =>
    obtain ⟨ps, hps, hmem⟩ := ht.scan_spec .boarding stop
    rw [PassageKind.passage?_boarding] at hps
    simp only [hps, Checked.ok_bind]
    refine ⟨_, rfl, (isEarliest_earliest? _).congr fun p => ?_⟩
    rw [List.mem_filter, hmem, decide_eq_true_iff]
    rfl

/-- **The last arrival is the latest one**, whether or not the index is there. -/
theorem Intact.lastArrival_spec (ht : t.Intact) (stop : Nat) (before : ServiceTime) :
    ∃ a, t.lastArrival stop before = .ok a ∧
      IsLatest (fun p => t.Alights stop p ∧ p.time ≤ before) a := by
  unfold lastArrival
  cases hindex : t.index with
  | some index =>
    obtain ⟨ps, hps, hmem⟩ := (ht.index_spec hindex stop).2
    refine ⟨_, rfl, ?_⟩
    have hlast : ((index.arrivals[stop]?.map Table.keys).bind fun ps =>
        (ps.filter fun p => p.time ≤ before).getLast?) =
          ((Passage.setOf ps).keys.filter fun p => p.time ≤ before).getLast? := by
      rw [← hps]
      cases index.arrivals[stop]? <;> rfl
    rw [hlast]
    refine (isLatest_getLast?_setOf ps _).congr fun p => ?_
    rw [hmem, decide_eq_true_iff]
    rfl
  | none =>
    obtain ⟨ps, hps, hmem⟩ := ht.scan_spec .alighting stop
    rw [PassageKind.passage?_alighting] at hps
    simp only [hps, Checked.ok_bind]
    refine ⟨_, rfl, (isLatest_latest? _).congr fun p => ?_⟩
    rw [List.mem_filter, hmem, decide_eq_true_iff]
    rfl

/-- Timetables with the same trips give the same answers. -/
theorem Intact.answers_eq {t' : Timetable} {stop : Nat} {time : ServiceTime}
    {d a : Option Passage} (ht : t'.Intact) (hrows : t'.rows = t.rows)
    (hd : IsEarliest (fun p => t.Boards stop p ∧ time ≤ p.time) d)
    (ha : IsLatest (fun p => t.Alights stop p ∧ p.time ≤ time) a) :
    t'.nextDeparture stop time = .ok d ∧ t'.lastArrival stop time = .ok a := by
  obtain ⟨d', hd', hearliest⟩ := ht.nextDeparture_spec stop time
  obtain ⟨a', ha', hlatest⟩ := ht.lastArrival_spec stop time
  unfold Boards at hd hearliest
  unfold Alights at ha hlatest
  rw [hrows] at hearliest hlatest
  rw [hd', ha', hd.unique (fun _ _ => NotAfter.antisymm) hearliest,
    ha.unique (fun _ _ h h' => NotAfter.antisymm h' h) hlatest]
  exact ⟨rfl, rfl⟩

/-- **The stop index answers as the trips do.** In a reachable timetable an index that is there is
the one that would be built now, and one can be built. At every stop and for every time the next
departure is the earliest on which a passenger can get on, and the last arrival is the latest at
which one can get off: of the timetable as it is, finished, and without its index. -/
theorem lookups_agree (h : t.Reachable) :
    (∀ index, t.index = some index → t.buildIndex = .ok index) ∧
    ∃ t', t.finish = .ok t' ∧ t'.isFinished = true ∧ ∀ stop time, ∃ d a,
      IsEarliest (fun p => t.Boards stop p ∧ time ≤ p.time) d ∧
      IsLatest (fun p => t.Alights stop p ∧ p.time ≤ time) a ∧
      ∀ s ∈ [t, t', { t with index := none }],
        s.nextDeparture stop time = .ok d ∧ s.lastArrival stop time = .ok a := by
  have ht := h.intact
  obtain ⟨t', ht'⟩ := ht.exists_finish
  refine ⟨ht.fresh, t', ht', isFinished_of_finish ht', fun stop time => ?_⟩
  obtain ⟨d, -, hd⟩ := ht.nextDeparture_spec stop time
  obtain ⟨a, -, ha⟩ := ht.lastArrival_spec stop time
  refine ⟨d, a, hd, ha, fun s hs => ?_⟩
  have hbare : ({ t with index := none } : Timetable).Intact :=
    intact_of_index_eq_none rfl fun r hr =>
      ⟨ht.current r hr, ht.baseline_eq r hr, ht.stopCount_eq r hr⟩
  simp only [List.mem_cons, List.not_mem_nil, or_false] at hs
  rcases hs with rfl | rfl | rfl
  · exact ht.answers_eq rfl hd ha
  · exact (ht.finish ht').answers_eq (by rw [eq_of_finish ht']) hd ha
  · exact hbare.answers_eq rfl hd ha

/-! ## Two trips at one time -/

section SharedTime

open TripTimes

/-- Another trip with the times of the late trip. -/
def otherTrip : Baseline := { lateTrip with serial := 1, trip.id := ⟨"a", "s"⟩ }

/-- The late trip and the other one, as published. -/
def plannedTimetable : Timetable :=
  ⟨⟨0⟩, none, lateStops, [.ofBaseline lateTrip, .ofBaseline otherTrip], none⟩

/-- The times of the late trip once its last stop is put off to 230. -/
def lateTimes : TripTimes := .updated ⟨2, none, [230], none, false⟩ (.scheduled lateTrip)

/-- The late trip and the other one, after the last stop of the first was put off. -/
def lateTimetable : Timetable := plannedTimetable.setTimes 0 lateTimes

theorem reachable_lateTimetable : lateTimetable.Reachable := by
  have hpublish : publish ⟨0⟩ lateStops [lateTrip, otherTrip] = .ok plannedTimetable := rfl
  have hreconcile : (plannedTimetable.reconcile (lateNews ⟨"a", "z"⟩ 2 230) .standard).run =
      .ok (.ok (0, lateTimes)) := rfl
  exact .step (.published hpublish) (.retimed hreconcile)

/-- Of two trips at one time the first is the next to depart, and the second the last to arrive. -/
theorem lookups_agree_lateTimetable : lateTimetable.Reachable ∧
    ∃ t', lateTimetable.finish = .ok t' ∧ t'.nextDeparture 1 100 = .ok (some ⟨100, 0⟩) ∧
      t'.lastArrival 1 100 = .ok (some ⟨100, 1⟩) ∧ t'.lastArrival 2 229 = .ok (some ⟨200, 1⟩) := by
  obtain ⟨-, t', ht', -, hanswers⟩ := lookups_agree reachable_lateTimetable
  refine ⟨reachable_lateTimetable, t', ht', ?_, ?_, ?_⟩
  · obtain ⟨d, a, -, -, hsame⟩ := hanswers 1 100
    have hscan : lateTimetable.nextDeparture 1 100 = .ok (some ⟨100, 0⟩) := rfl
    rw [(hsame t' (by simp)).1, ← (hsame lateTimetable (by simp)).1, hscan]
  · obtain ⟨d, a, -, -, hsame⟩ := hanswers 1 100
    have hscan : lateTimetable.lastArrival 1 100 = .ok (some ⟨100, 1⟩) := rfl
    rw [(hsame t' (by simp)).2, ← (hsame lateTimetable (by simp)).2, hscan]
  · obtain ⟨d, a, -, -, hsame⟩ := hanswers 2 229
    have hscan : lateTimetable.lastArrival 2 229 = .ok (some ⟨200, 1⟩) := rfl
    rw [(hsame t' (by simp)).2, ← (hsame lateTimetable (by simp)).2, hscan]

end SharedTime

end Timetable

end LiveTimetable
