import LiveTimetable.Proofs.Timetable.Exchanges
import LiveTimetable.Proofs.Timetable.Lookups
import Mathlib.Data.List.InsertIdx

/-!
# Timetables in columns

A timetable can be held in three **columns**: the published times and the current times, each in
the order of the trips, and the position of every trip. Each operation then edits the columns one
by one: a trip put in is appended to two of them and numbered in the third, and a trip taken out is
cut from two of them and all later numbers are counted down.

Columns edited so keep in step with the rows of the timetable, and so with each other: every
position that is read or written is one that they have. Edits that are refused, or whose times
cannot be worked out, change nothing.

* `Timetable.Edit`, `Timetable.perform`: one operation, whether it succeeds or not.
* `Columns.Shows`: columns and a timetable with the same trips; every edit keeps it
  (`Shows.perform`).
* `Columns.Sound`: each position belongs to one trip, which all columns agree on.
* `Timetable.publish_eq_ok_iff`: which trips make a timetable.
* `Timetable.columns_in_step`: all of this along any run of edits.
-/

namespace LiveTimetable

/-! ## Positions -/

namespace Timetable

variable {t t' : Timetable} {b : Baseline} {trip q : TripId} {i : Nat}

theorem position?_eq_findIdx?_trips (t : Timetable) (trip : TripId) :
    t.position? trip = t.trips.findIdx? (· == trip) := by
  unfold position? trips
  rw [List.findIdx?_map]
  rfl

theorem lt_of_position? (h : t.position? trip = some i) : i < t.rows.length :=
  (List.findIdx?_eq_some_iff_getElem.mp h).1

/-- Of different trips, each is at the one position that has it. -/
theorem position?_eq_some_iff (hnodup : t.trips.Nodup) :
    t.position? trip = some i ↔ t.trips[i]? = some trip := by
  rw [position?_eq_findIdx?_trips, List.findIdx?_eq_some_iff_getElem]
  constructor
  · rintro ⟨hlt, hi, -⟩
    rw [List.getElem?_eq_getElem hlt, beq_iff_eq.mp hi]
  · intro hi
    obtain ⟨hlt, hid⟩ := List.getElem?_eq_some_iff.mp hi
    refine ⟨hlt, beq_iff_eq.mpr hid, fun j hj heq => ?_⟩
    have hsame : i = j :=
      (List.Nodup.getElem_inj_iff hnodup).mp (hid.trans (beq_iff_eq.mp heq).symm)
    omega

/-- A new trip comes after all others. -/
theorem position?_of_trips_append (hnew : trip ∉ t.trips) (htrips : t'.trips = t.trips ++ [trip])
    (q : TripId) :
    t'.position? q = if q = trip then some t.rows.length else t.position? q := by
  have hlength : t.trips.length = t.rows.length := List.length_map _
  rw [position?_eq_findIdx?_trips, htrips, List.findIdx?_append, ← position?_eq_findIdx?_trips]
  by_cases hq : q = trip
  · subst hq
    rw [position?_eq_none_iff.mpr hnew, if_pos rfl, hlength]
    simp
  · rw [if_neg hq]
    have hother : [trip].findIdx? (· == q) = none := by simp [Ne.symm hq]
    rw [hother]
    simp

/-- Where a trip at position `p` is once the one at position `i` is gone. -/
def countDown (i p : Nat) : Nat := if i < p then p - 1 else p

/-- All trips behind the one taken out move up. -/
theorem position?_of_trips_eraseIdx (hnodup : t.trips.Nodup) (hi : t.position? trip = some i)
    (htrips : t'.trips = t.trips.eraseIdx i) (q : TripId) :
    t'.position? q = if q = trip then none else (t.position? q).map (countDown i) := by
  have hnodup' : t'.trips.Nodup := htrips ▸ hnodup.sublist (List.eraseIdx_sublist _ _)
  have hat := (position?_eq_some_iff hnodup).mp hi
  refine Option.ext fun j => ?_
  rw [position?_eq_some_iff hnodup', htrips, List.getElem?_eraseIdx]
  by_cases hq : q = trip
  · subst hq
    rw [if_pos rfl]
    have hunique : ∀ k, t.trips[k]? = some q → k = i := fun k hk =>
      Option.some.inj (((position?_eq_some_iff hnodup).mpr hk).symm.trans hi)
    refine iff_of_false (fun hj => ?_) nofun
    split at hj
    · have := hunique j hj
      omega
    · have := hunique (j + 1) hj
      omega
  · rw [if_neg hq, Option.map_eq_some_iff]
    simp only [position?_eq_some_iff hnodup]
    have hne : ∀ k, t.trips[k]? = some q → k ≠ i := by
      rintro k hk rfl
      exact hq (Option.some.inj (hk.symm.trans hat))
    unfold countDown
    constructor
    · intro hj
      split at hj
      · exact ⟨j, hj, if_neg (by omega)⟩
      · exact ⟨j + 1, hj, if_pos (by omega)⟩
    · rintro ⟨p, hp, rfl⟩
      have := hne p hp
      by_cases hlt : i < p
      · rw [if_pos hlt, if_neg (by omega), Nat.sub_add_cancel (by omega)]
        exact hp
      · rw [if_neg hlt, if_pos (by omega)]
        exact hp

/-! ## Publishing -/

/-- Trips that are new, differ from each other and call at the stops can all be put in. -/
theorem exists_insertNew : ∀ {bs : List Baseline} {t : Timetable},
    (∀ b ∈ bs, b.stopCount = t.stops.length) → (t.trips ++ bs.map fun b => b.trip.id).Nodup →
    ∃ t', insertNew bs t = .ok t'
  | [], t, _, _ => ⟨t, rfl⟩
  | b :: rest, t, hcounts, hnodup => by
    have hcount := hcounts b List.mem_cons_self
    have hnew : b.trip.id ∉ t.trips := fun hmem =>
      (List.nodup_append.mp hnodup).2.2 _ hmem _ List.mem_cons_self rfl
    have hins := insert_eq_of_not_mem hcount hnew
    unfold insertNew
    rw [if_neg fun h => hnew (contains_eq_true_iff.mp h), hins]
    refine exists_insertNew (fun x hx => hcounts x (List.mem_cons_of_mem _ hx)) ?_
    unfold trips
    rw [List.map_append, List.append_assoc]
    exact hnodup

/-- **Trips make a timetable if they call at all of its stops and differ from each other.** -/
theorem publish_eq_ok_iff {pattern : PatternId} {stops : List StopId} {bs : List Baseline} :
    (∃ t, publish pattern stops bs = .ok t) ↔
      (∀ b ∈ bs, b.stopCount = stops.length) ∧ (bs.map fun b => b.trip.id).Nodup := by
  constructor
  · rintro ⟨t, h⟩
    obtain ⟨-, hrows, hnodup, hcounts⟩ := insertNew_spec h List.nodup_nil
    refine ⟨hcounts, ?_⟩
    unfold trips at hnodup
    rw [hrows, List.nil_append, List.map_map] at hnodup
    exact hnodup
  · rintro ⟨hcounts, hnodup⟩
    exact exists_insertNew hcounts hnodup

/-! ## Edits -/

/-- One operation on a timetable. -/
inductive Edit where
  | insert (b : Baseline)
  | remove (trip : TripId)
  | forDate (date : ServiceDate)
  | finish
  /-- The times that an update leads to are worked out and taken up. -/
  | retime (u : TripUpdate) (recovery : Recovery)

/-- The timetable after an edit: one that is refused, or stops at a fault, leaves it as it was. -/
def perform (t : Timetable) : Edit → Timetable
  | .insert b => (t.insert b).toOption.getD t
  | .remove trip => t.remove trip
  | .forDate date => t.forDate date
  | .finish => t.finish.toOption.getD t
  | .retime u recovery =>
    match (t.reconcile u recovery).run with
    | .ok (.ok (i, times)) => t.setTimes i times
    | _ => t

/-- An edit is a step, or nothing. -/
theorem step_perform (t : Timetable) (e : Edit) : t.Step (t.perform e) ∨ t.perform e = t := by
  cases e with
  | insert b =>
    simp only [perform]
    cases h : t.insert b with
    | ok t' => exact Or.inl (.inserted h)
    | error => exact Or.inr rfl
  | remove trip => exact Or.inl (.removed t trip)
  | forDate date => exact Or.inl (.dated t date)
  | finish =>
    simp only [perform]
    cases h : t.finish with
    | ok t' => exact Or.inl (.finished h)
    | error => exact Or.inr rfl
  | retime u recovery =>
    simp only [perform]
    split
    · rename_i h
      exact Or.inl (.retimed h)
    · exact Or.inr rfl

theorem Reachable.perform (h : t.Reachable) (e : Edit) : (t.perform e).Reachable := by
  rcases step_perform t e with hstep | hsame
  · exact h.step hstep
  · rw [hsame]
    exact h

/-! ## Trips and their times -/

theorem insert_eq_error (h : b.stopCount ≠ t.stops.length) :
    t.insert b = .error (.stopCountMismatch b.trip.id t.stops.length b.stopCount) := if_pos h

/-- The trips differ from each other and call at all stops, and the current times of each are told
over its published ones. -/
structure Aligned (t : Timetable) : Prop where
  nodup : t.trips.Nodup
  baseline_eq : ∀ r ∈ t.rows, r.current.baseline = r.published
  stopCount_eq : ∀ r ∈ t.rows, r.published.stopCount = t.stops.length

theorem published_setTimes (t : Timetable) (i : Nat) (times : TripTimes) :
    (t.setTimes i times).rows.map Row.published = t.rows.map Row.published := by
  refine List.ext_getElem? fun j => ?_
  simp only [setTimes, List.getElem?_map, List.getElem?_modify]
  cases t.rows[j]? with
  | none => rfl
  | some r => by_cases hij : i = j <;> simp [hij]

theorem current_setTimes (t : Timetable) (i : Nat) (times : TripTimes) :
    (t.setTimes i times).rows.map Row.current = (t.rows.map Row.current).set i times := by
  refine List.ext_getElem? fun j => ?_
  simp only [setTimes, List.getElem?_map, List.getElem?_modify, List.getElem?_set,
    List.length_map]
  by_cases hij : i = j
  · subst hij
    cases h : t.rows[i]? with
    | none => simp [List.getElem?_eq_none_iff.mp h]
    | some r => simp [(List.getElem?_eq_some_iff.mp h).1]
  · simp [hij]

theorem trips_setTimes (t : Timetable) (i : Nat) (times : TripTimes) :
    (t.setTimes i times).trips = t.trips := by
  have h := congrArg (List.map fun b => b.trip.id) (published_setTimes t i times)
  rw [List.map_map, List.map_map] at h
  exact h

theorem Aligned.insert (ht : t.Aligned) (h : t.insert b = .ok t') : t'.Aligned := by
  refine ⟨nodup_trips_of_insert ht.nodup h, fun r hr => ?_, fun r hr => ?_⟩
  · rcases mem_rows_of_insert h hr with hold | rfl
    · exact ht.baseline_eq r hold
    · rfl
  · rw [stops_of_insert h]
    rcases mem_rows_of_insert h hr with hold | rfl
    · exact ht.stopCount_eq r hold
    · exact stopCount_of_insert h

theorem Aligned.remove (ht : t.Aligned) (trip : TripId) : (t.remove trip).Aligned := by
  have hold : ∀ r ∈ (t.remove trip).rows, r ∈ t.rows := fun r hr =>
    List.mem_of_mem_eraseP (remove_rows t trip ▸ hr)
  refine ⟨nodup_trips_remove ht.nodup trip, fun r hr => ht.baseline_eq r (hold r hr),
    fun r hr => ?_⟩
  rw [remove_stops]
  exact ht.stopCount_eq r (hold r hr)

theorem Aligned.retime {u : TripUpdate} {recovery : Recovery} {times : TripTimes}
    (ht : t.Aligned) (h : (t.reconcile u recovery).run = .ok (.ok (i, times))) :
    (t.setTimes i times).Aligned := by
  obtain ⟨row, r, hrow, -, hr, rfl⟩ := reconcile_spec h
  have hmem := List.mem_of_getElem? hrow
  refine ⟨(trips_setTimes t i r.times).symm ▸ ht.nodup, fun q hq => ?_, fun q hq => ?_⟩
  · rcases mem_rows_setTimes hq with hold | ⟨row', hrow', rfl⟩
    · exact ht.baseline_eq q hold
    · obtain rfl := Option.some.inj (hrow.symm.trans hrow')
      exact (TripTimes.reconcile_isIncreasing (ht.baseline_eq row hmem) hr).1
  · rcases mem_rows_setTimes hq with hold | ⟨row', hrow', rfl⟩
    · exact ht.stopCount_eq q hold
    · exact ht.stopCount_eq row' (List.mem_of_getElem? hrow')

theorem Step.aligned (h : Step t t') (ht : t.Aligned) : t'.Aligned := by
  cases h with
  | inserted h => exact ht.insert h
  | removed trip => exact ht.remove trip
  | dated date => exact ⟨ht.nodup, ht.baseline_eq, ht.stopCount_eq⟩
  | finished h =>
    rw [eq_of_finish h]
    exact ⟨ht.nodup, ht.baseline_eq, ht.stopCount_eq⟩
  | retimed h => exact ht.retime h

theorem aligned_publish {pattern : PatternId} {stops : List StopId} {bs : List Baseline}
    (h : publish pattern stops bs = .ok t) : t.Aligned := by
  obtain ⟨hstops, hrows, hnodup, hcounts⟩ := insertNew_spec h List.nodup_nil
  rw [List.nil_append] at hrows
  refine ⟨hnodup, fun r hr => ?_, fun r hr => ?_⟩
  · obtain ⟨b, -, rfl⟩ := List.mem_map.mp (hrows ▸ hr)
    rfl
  · obtain ⟨b, hb, rfl⟩ := List.mem_map.mp (hrows ▸ hr)
    rw [hstops]
    exact hcounts b hb

theorem Reachable.aligned (h : t.Reachable) : t.Aligned := by
  induction h with
  | published h => exact aligned_publish h
  | step _ hstep ih => exact hstep.aligned ih

/-- Taken out and put in again, a trip comes last, and all others stay in their order. -/
theorem Aligned.rows_insert_remove (ht : t.Aligned) (hcount : b.stopCount = t.stops.length) :
    ∃ t', (t.remove b.trip.id).insert b = .ok t' ∧
      t'.rows = t.rows.filter (fun r => r.tripId != b.trip.id) ++ [Row.ofBaseline b] := by
  have hnew : b.trip.id ∉ (t.remove b.trip.id).trips := by
    rw [mem_trips_iff, remove_rows_of_nodup ht.nodup]
    rintro ⟨r, hr, hid⟩
    exact bne_iff_ne.mp (List.mem_filter.mp hr).2 hid
  refine ⟨_, insert_eq_of_not_mem (hcount.trans (congrArg _ (remove_stops t _).symm)) hnew, ?_⟩
  rw [← remove_rows_of_nodup ht.nodup]

end Timetable

/-! ## Columns -/

/-- The trips of a timetable in columns, each edited on its own. -/
structure Columns where
  scheduled : List Baseline
  current : List TripTimes
  positions : Table TripId Nat

namespace Columns

/-- The columns with a trip that runs as published. -/
def insert (c : Columns) (stopCount : Nat) (b : Baseline) : Attempt ScheduleError Columns :=
  if b.stopCount ≠ stopCount then throw (.stopCountMismatch b.trip.id stopCount b.stopCount)
  else
    match c.positions.get? b.trip.id with
    | some i => do
      let scheduled ← (Checked.set c.scheduled i b : Checked (List Baseline))
      let current ← (Checked.set c.current i (.scheduled b) : Checked (List TripTimes))
      return { c with scheduled, current }
    | none =>
      return { scheduled := c.scheduled ++ [b]
               current := c.current ++ [.scheduled b]
               positions := c.positions.insert b.trip.id c.current.length }

/-- The columns without a trip; all later positions are counted down. -/
def remove (c : Columns) (trip : TripId) : Checked Columns :=
  match c.positions.get? trip with
  | some i => do
    let scheduled ← Checked.eraseAt c.scheduled i
    let current ← Checked.eraseAt c.current i
    return { scheduled, current
             positions := (c.positions.erase trip).map fun _ p => Timetable.countDown i p }
  | none => .ok c

/-- The columns with trips that they do not have. -/
def insertNew (stopCount : Nat) : List Baseline → Columns → Attempt ScheduleError Columns
  | [], c => return c
  | b :: rest, c =>
    if c.positions.contains b.trip.id then throw (.duplicateTrip b.trip.id)
    else do insertNew stopCount rest (← c.insert stopCount b)

/-- The columns of trips that all run as published. -/
def publish (stopCount : Nat) (bs : List Baseline) : Attempt ScheduleError Columns :=
  insertNew stopCount bs ⟨[], [], Table.empty⟩

/-- What the columns have of a trip, and where. -/
def entry? (c : Columns) (trip : TripId) : Checked (Option (Nat × Row)) :=
  match c.positions.get? trip with
  | some i => do
    let published ← Checked.nth c.scheduled i
    let current ← Checked.nth c.current i
    return some (i, ⟨published, current⟩)
  | none => .ok none

/-- The position of an update's trip and the times the update leads to. -/
def reconcile (c : Columns) (stops : List StopId) (u : TripUpdate) (recovery : Recovery) :
    Attempt ReconcileError (Nat × TripTimes) := do
  match ← (c.entry? u.tripId : Checked (Option (Nat × Row))) with
  | some (i, row) =>
    return (i, (← row.current.reconcile row.published stops u recovery).times)
  | none => throw (.tripNotInPattern u.tripId)

/-- The columns with other current times at a position. -/
def setTimes (c : Columns) (i : Nat) (times : TripTimes) : Checked Columns := do
  return { c with current := ← Checked.set c.current i times }

/-- The columns after an edit: one that is refused, or whose times cannot be worked out, leaves
them as they were. A position that a column does not have is a fault. -/
def perform (stops : List StopId) (c : Columns) : Timetable.Edit → Checked Columns
  | .insert b => do return (← (c.insert stops.length b).run).toOption.getD c
  | .remove trip => c.remove trip
  | .forDate _ => .ok c
  | .finish => .ok c
  | .retime u recovery => do
    match ← c.entry? u.tripId with
    | some (i, row) =>
      match (row.current.reconcile row.published stops u recovery).run with
      | .ok (.ok r) => c.setTimes i r.times
      | _ => .ok c
    | none => .ok c

/-- The columns have the trips of the timetable, each with its times and at its position. -/
structure Shows (c : Columns) (t : Timetable) : Prop where
  scheduled_eq : c.scheduled = t.rows.map Row.published
  current_eq : c.current = t.rows.map Row.current
  position_eq : ∀ trip, c.positions.get? trip = t.position? trip

variable {c : Columns} {t t' : Timetable} {b : Baseline}

theorem Shows.scheduled_length (h : c.Shows t) : c.scheduled.length = t.rows.length := by
  rw [h.scheduled_eq, List.length_map]

theorem Shows.current_length (h : c.Shows t) : c.current.length = t.rows.length := by
  rw [h.current_eq, List.length_map]

/-- What is put in is put into all columns alike, at a position that they have. -/
theorem Shows.insert (h : c.Shows t) (hnodup : t.trips.Nodup) (hins : t.insert b = .ok t') :
    ∃ c', (c.insert t.stops.length b).run = .ok (.ok c') ∧ c'.Shows t' := by
  have hcount := Timetable.stopCount_of_insert hins
  have htrips := Timetable.trips_of_insert hnodup hins
  unfold Columns.insert
  rw [if_neg fun hne => hne hcount, h.position_eq]
  rw [Timetable.insert_eq hcount] at hins
  cases hposition : t.position? b.trip.id with
  | none =>
    have hnew := Timetable.position?_eq_none_iff.mp hposition
    rw [if_neg hnew] at htrips
    simp only [hposition] at hins
    cases hins
    refine ⟨_, rfl, ⟨?_, ?_, fun trip => ?_⟩⟩
    · rw [h.scheduled_eq, List.map_append]
      rfl
    · rw [h.current_eq, List.map_append]
      rfl
    · rw [Table.get?_insert, h.current_length, h.position_eq,
        Timetable.position?_of_trips_append hnew htrips]
  | some i =>
    have hmem : b.trip.id ∈ t.trips := Decidable.byContradiction fun hnew => by
      rw [Timetable.position?_eq_none_iff.mpr hnew] at hposition
      cases hposition
    have hlt := Timetable.lt_of_position? hposition
    have hset := Checked.set_of_lt b (h.scheduled_length.symm ▸ hlt)
    have hset' := Checked.set_of_lt (.scheduled b) (h.current_length.symm ▸ hlt)
    rw [if_pos hmem] at htrips
    simp only [hposition] at hins
    cases hins
    simp only [hset, hset', Attempt.lift_ok_bind, Attempt.run_pure]
    refine ⟨_, rfl, ⟨?_, ?_, fun trip => ?_⟩⟩
    · rw [h.scheduled_eq, List.map_set]
      rfl
    · rw [h.current_eq, List.map_set]
      rfl
    · rw [h.position_eq, Timetable.position?_eq_findIdx?_trips,
        Timetable.position?_eq_findIdx?_trips, htrips]

/-- What is taken out is cut from all columns alike, at a position that they have. -/
theorem Shows.remove (h : c.Shows t) (hnodup : t.trips.Nodup) (trip : TripId) :
    ∃ c', c.remove trip = .ok c' ∧ c'.Shows (t.remove trip) := by
  unfold Columns.remove Timetable.remove
  rw [h.position_eq]
  cases hposition : t.position? trip with
  | none => exact ⟨c, rfl, h⟩
  | some i =>
    have hlt := Timetable.lt_of_position? hposition
    have herase := Checked.eraseAt_of_lt (h.scheduled_length.symm ▸ hlt)
    have herase' := Checked.eraseAt_of_lt (h.current_length.symm ▸ hlt)
    simp only [herase, herase', Checked.ok_bind, Checked.pure_eq_ok]
    refine ⟨_, rfl, ?_, ?_, fun q => ?_⟩
    · simp only [h.scheduled_eq, List.eraseIdx_map]
    · simp only [h.current_eq, List.eraseIdx_map]
    · have htrips : Timetable.trips { t with rows := t.rows.eraseIdx i, index := none } =
          t.trips.eraseIdx i := (List.eraseIdx_map _ _ _).symm
      rw [Table.get?_map, Table.get?_erase, h.position_eq,
        Timetable.position?_of_trips_eraseIdx hnodup hposition htrips]
      by_cases hq : q = trip
      · rw [if_pos hq, if_pos hq]
        rfl
      · rw [if_neg hq, if_neg hq]

/-- The columns have an entry of each trip, and it is the row of the trip. -/
theorem Shows.entry_spec (h : c.Shows t) (trip : TripId) :
    (t.position? trip = none ∧ c.entry? trip = .ok none) ∨
      ∃ i row, t.position? trip = some i ∧ t.row? trip = some row ∧
        c.entry? trip = .ok (some (i, row)) := by
  unfold entry? Timetable.row?
  rw [h.position_eq, List.find?_eq_bind_findIdx?_getElem?]
  cases hposition : t.position? trip with
  | none => exact Or.inl ⟨rfl, rfl⟩
  | some i =>
    obtain ⟨row, hrow⟩ : ∃ row, t.rows[i]? = some row :=
      ⟨_, List.getElem?_eq_getElem (Timetable.lt_of_position? hposition)⟩
    have hpublished : Checked.nth c.scheduled i = .ok row.published := by
      rw [Checked.nth_eq_ok_iff, h.scheduled_eq, List.getElem?_map, hrow]
      rfl
    have hcurrent : Checked.nth c.current i = .ok row.current := by
      rw [Checked.nth_eq_ok_iff, h.current_eq, List.getElem?_map, hrow]
      rfl
    unfold Timetable.position? at hposition
    refine Or.inr ⟨i, row, rfl, ?_, ?_⟩
    · rw [hposition, Option.bind_some, hrow]
    · simp only [hpublished, hcurrent, Checked.ok_bind, Checked.pure_eq_ok]

/-- An update leads to the same times at the same position. -/
theorem Shows.reconcile_eq (h : c.Shows t) (u : TripUpdate) (recovery : Recovery) :
    c.reconcile t.stops u recovery = t.reconcile u recovery := by
  unfold Columns.reconcile Timetable.reconcile
  rcases h.entry_spec u.tripId with ⟨hposition, hentry⟩ | ⟨i, row, hposition, hrow, hentry⟩
  · simp only [hposition, hentry, Attempt.lift_ok_bind]
  · simp only [hposition, hrow, hentry, Attempt.lift_ok_bind]

theorem Shows.setTimes (h : c.Shows t) {i : Nat} (hi : i < t.rows.length) (times : TripTimes) :
    ∃ c', c.setTimes i times = .ok c' ∧ c'.Shows (t.setTimes i times) := by
  unfold Columns.setTimes
  rw [Checked.set_of_lt times (h.current_length.symm ▸ hi)]
  refine ⟨_, rfl, ?_, ?_, fun trip => ?_⟩
  · rw [h.scheduled_eq, Timetable.published_setTimes]
  · rw [h.current_eq, Timetable.current_setTimes]
  · rw [h.position_eq, Timetable.position?_eq_findIdx?_trips,
      Timetable.position?_eq_findIdx?_trips, Timetable.trips_setTimes]

/-- **Columns keep in step with the timetable under every edit**, and no edit meets a position
that a column does not have. -/
theorem Shows.perform (h : c.Shows t) (hnodup : t.trips.Nodup) (e : Timetable.Edit) :
    ∃ c', c.perform t.stops e = .ok c' ∧ c'.Shows (t.perform e) := by
  cases e with
  | insert b =>
    simp only [Columns.perform, Timetable.perform]
    by_cases hcount : b.stopCount = t.stops.length
    · have hins := Timetable.insert_eq hcount
      obtain ⟨c', hc', hshows⟩ := h.insert hnodup hins
      rw [hc', hins]
      exact ⟨c', rfl, hshows⟩
    · rw [Columns.insert, if_pos hcount, Timetable.insert_eq_error hcount]
      exact ⟨c, rfl, h⟩
  | remove trip => exact h.remove hnodup trip
  | forDate date => exact ⟨c, rfl, h.scheduled_eq, h.current_eq, h.position_eq⟩
  | finish =>
    simp only [Columns.perform, Timetable.perform]
    cases hfinish : t.finish with
    | error => exact ⟨c, rfl, h⟩
    | ok t' =>
      simp only [Except.toOption, Option.getD_some]
      rw [Timetable.eq_of_finish hfinish]
      exact ⟨c, rfl, h.scheduled_eq, h.current_eq, h.position_eq⟩
  | retime u recovery =>
    simp only [Columns.perform, Timetable.perform, Timetable.reconcile]
    rcases h.entry_spec u.tripId with ⟨hposition, hentry⟩ | ⟨i, row, hposition, hrow, hentry⟩
    · rw [hposition, hentry]
      exact ⟨c, rfl, h⟩
    · rw [hposition, hrow, hentry]
      have hi := Timetable.lt_of_position? hposition
      simp only [ExceptT.run_bind, Checked.ok_bind]
      rcases (row.current.reconcile row.published t.stops u recovery).run with fault | _ | r
      · exact ⟨c, rfl, h⟩
      · exact ⟨c, rfl, h⟩
      · exact h.setTimes hi r.times

/-- New trips are put into all columns alike. -/
theorem Shows.insertNew : ∀ {bs : List Baseline} {c : Columns} {t t' : Timetable}, c.Shows t →
    t.trips.Nodup → Timetable.insertNew bs t = .ok t' →
    ∃ c', (Columns.insertNew t.stops.length bs c).run = .ok (.ok c') ∧ c'.Shows t'
  | [], c, t, t', h, _, hins => by
    cases hins
    exact ⟨c, rfl, h⟩
  | b :: rest, c, t, t', h, hnodup, hins => by
    unfold Timetable.insertNew at hins
    split at hins
    · cases hins
    · rename_i hcontains
      cases hmid : t.insert b with
      | error e =>
        rw [hmid] at hins
        cases hins
      | ok mid =>
        rw [hmid] at hins
        obtain ⟨c₁, hc₁, hshows⟩ := h.insert hnodup hmid
        obtain ⟨c', hc', hshows'⟩ :=
          hshows.insertNew (Timetable.nodup_trips_of_insert hnodup hmid) hins
        have hnew : ¬ c.positions.contains b.trip.id = true := by
          unfold Table.contains
          rw [h.position_eq, Timetable.position?_eq_none_iff.mpr fun hmem =>
            hcontains (Timetable.contains_eq_true_iff.mpr hmem)]
          exact Bool.false_ne_true
        refine ⟨c', ?_, hshows'⟩
        rw [Timetable.stops_of_insert hmid] at hc'
        rw [Columns.insertNew, if_neg hnew, Attempt.bind_eq_ok_iff]
        exact ⟨c₁, hc₁, hc'⟩

theorem shows_publish {pattern : PatternId} {stops : List StopId} {bs : List Baseline}
    (h : Timetable.publish pattern stops bs = .ok t) :
    ∃ c, (publish stops.length bs).run = .ok (.ok c) ∧ c.Shows t :=
  Shows.insertNew (t := ⟨pattern, none, stops, [], none⟩) ⟨rfl, rfl, fun _ => rfl⟩ List.nodup_nil h

/-- Each position belongs to one trip, and the columns agree on it. -/
structure Sound (c : Columns) (stopCount : Nat) : Prop where
  current_length : c.current.length = c.scheduled.length
  positions_size : c.positions.size = c.scheduled.length
  /-- A trip is at the one position whose published times are its own. -/
  position_iff : ∀ trip i,
    c.positions.get? trip = some i ↔ ∃ b, c.scheduled[i]? = some b ∧ b.trip.id = trip
  /-- No position is left out, and none is given twice. -/
  hit_once : ∀ i < c.scheduled.length, ∃! trip, c.positions.get? trip = some i
  baseline_eq : c.current.map TripTimes.baseline = c.scheduled
  scheduled_stopCount : ∀ b ∈ c.scheduled, b.stopCount = stopCount
  current_stopCount : ∀ times ∈ c.current, times.stopCount = stopCount

/-- As many trips are numbered as there are rows. -/
theorem Shows.positions_size (h : c.Shows t) (hnodup : t.trips.Nodup) :
    c.positions.size = t.rows.length := by
  have hkeys : c.positions.keys.Perm t.trips :=
    (List.perm_ext_iff_of_nodup c.positions.nodup_keys hnodup).mpr fun trip => by
      rw [Table.mem_keys_iff, h.position_eq, ← Option.isSome_iff_exists,
        ← Option.ne_none_iff_isSome, ne_eq, Timetable.position?_eq_none_iff, not_not]
  have hlength := hkeys.length_eq
  unfold Table.keys Timetable.trips at hlength
  rw [List.length_map, List.length_map] at hlength
  exact hlength

/-- **Columns in step with different trips are sound.** -/
theorem Shows.sound (h : c.Shows t) (ht : t.Aligned) : c.Sound t.stops.length := by
  have hposition : ∀ trip i,
      c.positions.get? trip = some i ↔ ∃ b, c.scheduled[i]? = some b ∧ b.trip.id = trip := by
    intro trip i
    rw [h.position_eq, Timetable.position?_eq_some_iff ht.nodup, h.scheduled_eq]
    unfold Timetable.trips
    rw [List.getElem?_map, List.getElem?_map]
    constructor
    · intro hi
      obtain ⟨r, hr, rfl⟩ := Option.map_eq_some_iff.mp hi
      exact ⟨r.published, by rw [hr, Option.map_some], rfl⟩
    · rintro ⟨b, hb, rfl⟩
      obtain ⟨r, hr, rfl⟩ := Option.map_eq_some_iff.mp hb
      rw [hr, Option.map_some]
      rfl
  refine ⟨?_, ?_, hposition, fun i hi => ?_, ?_, fun b hb => ?_, fun times htimes => ?_⟩
  · rw [h.current_eq, h.scheduled_eq, List.length_map, List.length_map]
  · rw [h.positions_size ht.nodup, h.scheduled_eq, List.length_map]
  · have hat : c.scheduled[i]? = some c.scheduled[i] := List.getElem?_eq_getElem hi
    refine ⟨c.scheduled[i].trip.id, (hposition _ _).mpr ⟨_, hat, rfl⟩, fun trip htrip => ?_⟩
    obtain ⟨b, hb, rfl⟩ := (hposition _ _).mp htrip
    rw [Option.some.inj (hat.symm.trans hb)]
  · rw [h.current_eq, h.scheduled_eq, List.map_map]
    exact List.map_congr_left ht.baseline_eq
  · obtain ⟨r, hr, rfl⟩ := List.mem_map.mp (h.scheduled_eq ▸ hb)
    exact ht.stopCount_eq r hr
  · obtain ⟨r, hr, rfl⟩ := List.mem_map.mp (h.current_eq ▸ htimes)
    exact (congrArg Baseline.stopCount (ht.baseline_eq r hr)).trans (ht.stopCount_eq r hr)

end Columns

/-! ## Runs of edits -/

namespace Timetable

variable {t t' : Timetable}

theorem Step.stops_eq (h : Step t t') : t'.stops = t.stops := by
  cases h with
  | inserted h => exact stops_of_insert h
  | removed trip => exact remove_stops t trip
  | dated date => rfl
  | finished h => exact (sameFrame_of_finish h).stops_eq
  | retimed h => rfl

theorem stops_perform (t : Timetable) (e : Edit) : (t.perform e).stops = t.stops := by
  rcases step_perform t e with hstep | hsame
  · exact hstep.stops_eq
  · rw [hsame]

/-- A run of edits leads to a reachable timetable, and columns keep in step with it. -/
theorem run_spec {c : Columns} (edits : List Edit) (h : c.Shows t) (ht : t.Reachable) :
    (edits.foldl perform t).Reachable ∧ (edits.foldl perform t).stops = t.stops ∧
      ∃ c', edits.foldlM (Columns.perform t.stops) c = .ok c' ∧
        c'.Shows (edits.foldl perform t) := by
  induction edits generalizing t c with
  | nil => exact ⟨ht, rfl, c, rfl, h⟩
  | cons e rest ih =>
    obtain ⟨c₁, hc₁, hshows₁⟩ := h.perform ht.aligned.nodup e
    obtain ⟨hreachable, hstops, c', hc', hshows⟩ := ih hshows₁ (ht.perform e)
    rw [stops_perform] at hstops hc'
    refine ⟨hreachable, hstops, c', ?_, hshows⟩
    rw [List.foldlM_cons, hc₁]
    exact hc'

/-- To take a trip out and put it in again leaves all others in their order. -/
theorem Aligned.rows_remove_then_insert (ht : t.Aligned) (b : Baseline) :
    ((t.perform (.remove b.trip.id)).perform (.insert b)).rows =
      t.rows.filter (fun r => r.tripId != b.trip.id) ++
        if b.stopCount = t.stops.length then [Row.ofBaseline b] else [] := by
  simp only [perform]
  by_cases hcount : b.stopCount = t.stops.length
  · obtain ⟨t', ht', hrows⟩ := ht.rows_insert_remove hcount
    rw [ht', if_pos hcount]
    exact hrows
  · have hrefused := insert_eq_error (remove_stops t b.trip.id ▸ hcount)
    rw [hrefused, if_neg hcount, List.append_nil]
    exact remove_rows_of_nodup ht.nodup _

/-- **The columns of a timetable stay in step.** Trips make a timetable exactly if each of them
calls at all stops and no two are the same. After any run of edits, refused ones included, its
columns have the trips of its rows: they are of one length, a trip is numbered by the one position
that has its published times, every position is the number of one trip, and the current times there
are told over the published ones. No edit meets a position that a column does not have, and an
update leads to the same times either way. A trip that is taken out and put in again comes last,
and all others stay in their order. -/
theorem columns_in_step (pattern : PatternId) (stops : List StopId) (bs : List Baseline) :
    ((∃ t, publish pattern stops bs = .ok t) ↔
      (∀ b ∈ bs, b.stopCount = stops.length) ∧ (bs.map fun b => b.trip.id).Nodup) ∧
    ∀ t, publish pattern stops bs = .ok t →
      ∃ c, (Columns.publish stops.length bs).run = .ok (.ok c) ∧ ∀ edits : List Edit,
        (∃ c', edits.foldlM (Columns.perform stops) c = .ok c' ∧
          c'.Shows (edits.foldl perform t) ∧ c'.Sound stops.length ∧
          ∀ u recovery,
            c'.reconcile stops u recovery = (edits.foldl perform t).reconcile u recovery) ∧
        ∀ b, ((edits ++ [Edit.remove b.trip.id, Edit.insert b]).foldl perform t).rows =
          (edits.foldl perform t).rows.filter (fun r => r.tripId != b.trip.id) ++
            if b.stopCount = stops.length then [Row.ofBaseline b] else [] := by
  refine ⟨publish_eq_ok_iff, fun t h => ?_⟩
  obtain ⟨c, hc, hshows⟩ := Columns.shows_publish h
  obtain rfl := (sameFrame_of_insertNew h).stops_eq
  refine ⟨c, hc, fun edits => ?_⟩
  obtain ⟨hreachable, hstops, c', hc', hshows'⟩ := run_spec edits hshows (.published h)
  refine ⟨⟨c', hc', hshows', hstops ▸ hshows'.sound hreachable.aligned, fun u recovery => ?_⟩,
    fun b => ?_⟩
  · rw [← hstops]
    exact hshows'.reconcile_eq u recovery
  · rw [List.foldl_append, ← hstops]
    exact hreachable.aligned.rows_remove_then_insert b

section SharedTime

open TripTimes

/-- The late trip gets other times, is taken out, and is put in again behind the other one. -/
theorem columns_in_step_lateTimetable :
    publish ⟨0⟩ lateStops [lateTrip, otherTrip] = .ok plannedTimetable ∧
      ∃ c c', (Columns.publish lateStops.length [lateTrip, otherTrip]).run = .ok (.ok c) ∧
        [Edit.retime (lateNews ⟨"a", "z"⟩ 2 230) .standard, Edit.remove lateTrip.trip.id,
          Edit.insert lateTrip].foldlM (Columns.perform lateStops) c = .ok c' ∧
        c'.Sound lateStops.length ∧ c'.current = [.scheduled otherTrip, .scheduled lateTrip] ∧
        c'.positions.get? otherTrip.trip.id = some 0 ∧
        c'.positions.get? lateTrip.trip.id = some 1 := by
  have hpublish : publish ⟨0⟩ lateStops [lateTrip, otherTrip] = .ok plannedTimetable := rfl
  obtain ⟨c, hc, hrun⟩ := (columns_in_step ⟨0⟩ lateStops [lateTrip, otherTrip]).2 _ hpublish
  obtain ⟨⟨c', hc', hshows, hsound, -⟩, -⟩ := hrun [.retime (lateNews ⟨"a", "z"⟩ 2 230) .standard,
    .remove lateTrip.trip.id, .insert lateTrip]
  refine ⟨hpublish, c, c', hc, hc', hsound, ?_, ?_, ?_⟩
  · rw [hshows.current_eq]
    rfl
  · rw [hshows.position_eq]
    rfl
  · rw [hshows.position_eq]
    rfl

end SharedTime

end Timetable

end LiveTimetable
