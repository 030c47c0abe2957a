import LiveTimetable.Proofs.Timetable.Trips

/-!
# Timetables changed for one trip

What an update does to a timetable concerns one trip: the trip gets other times, or it goes. Both
are told here by the trip and not by its position, so that changes for different trips can be
exchanged.

* `Timetable.retime`, `Timetable.strike`: the timetable with other times for a trip, and without it.
* `Timetable.setTimes_eq_retime`, `Timetable.remove_eq_strike`: the operations are these.
* `Timetable.retime_comm`, `Timetable.strike_comm`, `Timetable.strike_retime`: changes for two
  trips, in either order.
* `Timetable.reconcile_run_eq`: what an update leads to depends on the current times of its trip.
-/

namespace LiveTimetable

/-- The row with other current times, if it is that of the trip. -/
def Row.retime (trip : TripId) (times : TripTimes) (r : Row) : Row :=
  if r.tripId = trip then { r with current := times } else r

namespace Row

variable {r : Row} {trip other : TripId} {times times' : TripTimes}

@[simp] theorem published_retime : (r.retime trip times).published = r.published := by
  unfold retime
  split <;> rfl

@[simp] theorem tripId_retime : (r.retime trip times).tripId = r.tripId :=
  congrArg (fun b : Baseline => b.trip.id) published_retime

theorem retime_of_ne (h : r.tripId ≠ trip) : r.retime trip times = r := if_neg h

theorem retime_comm (h : trip ≠ other) :
    (r.retime trip times).retime other times' = (r.retime other times').retime trip times := by
  by_cases htrip : r.tripId = trip
  · have hother : r.tripId ≠ other := htrip ▸ h
    have hafter : (r.retime trip times).tripId ≠ other := by
      rwa [tripId_retime]
    rw [retime_of_ne hother, retime_of_ne hafter]
  · have hafter : (r.retime other times').tripId ≠ trip := by
      rwa [tripId_retime]
    rw [retime_of_ne htrip, retime_of_ne hafter]

end Row

namespace Timetable

/-- The timetable with other current times for a trip. -/
def retime (t : Timetable) (trip : TripId) (times : TripTimes) : Timetable :=
  { t with rows := t.rows.map (Row.retime trip times), index := none }

/-- The timetable without a trip. -/
def strike (t : Timetable) (trip : TripId) : Timetable :=
  { t with rows := t.rows.filter fun r => r.tripId != trip, index := none }

variable {t t' : Timetable} {trip other : TripId} {times times' : TripTimes} {i : Nat}

/-! ## The operations -/

/-- To exchange the times at the position of a trip is to exchange them for the trip. -/
theorem modify_findIdx?_eq_map {rows : List Row} (hnodup : (rows.map Row.tripId).Nodup)
    (h : rows.findIdx? (fun r => r.tripId == trip) = some i) :
    rows.modify i (fun r => { r with current := times }) = rows.map (Row.retime trip times) := by
  obtain ⟨hlt, hi, -⟩ := List.findIdx?_eq_some_iff_getElem.mp h
  have hset : rows.modify i (fun r => { r with current := times }) =
      rows.set i { rows[i] with current := times } := by
    rw [List.modify_eq_set_getElem?, List.getElem?_eq_getElem hlt]
    rfl
  rw [hset, set_findIdx?_eq_map _ hnodup h]
  refine List.map_congr_left fun r hr => ?_
  unfold Row.retime
  split
  · rename_i htrip
    have hsame : r = rows[i] := eq_of_tripId_eq hnodup hr (List.getElem_mem hlt)
      (htrip.trans (beq_iff_eq.mp hi).symm)
    rw [hsame]
  · rfl

theorem setTimes_eq_retime (hnodup : t.trips.Nodup) (h : t.position? trip = some i) :
    t.setTimes i times = t.retime trip times := by
  unfold setTimes retime
  rw [modify_findIdx?_eq_map hnodup h]

theorem remove_eq_strike (hnodup : t.trips.Nodup) (hmem : trip ∈ t.trips) :
    t.remove trip = t.strike trip := by
  have hrows := remove_rows_of_nodup hnodup trip
  unfold remove at hrows ⊢
  cases hposition : t.position? trip with
  | none => exact absurd hmem (position?_eq_none_iff.mp hposition)
  | some i =>
    rw [hposition] at hrows
    unfold strike
    rw [← hrows]

/-! ## Views -/

theorem trips_strike : (t.strike trip).trips = t.trips.filter (· != trip) := by
  unfold trips strike
  rw [List.filter_map]
  rfl

theorem row?_eq_none_iff : t.row? trip = none ↔ trip ∉ t.trips := by
  unfold row?
  rw [List.find?_eq_none, mem_trips_iff]
  simp

theorem current?_eq_none_iff : t.current? trip = none ↔ trip ∉ t.trips := by
  unfold current?
  rw [Option.map_eq_none_iff, row?_eq_none_iff]

/-- Other trips keep their rows. -/
theorem row?_retime_of_ne (h : other ≠ trip) :
    (t.retime trip times).row? other = t.row? other := by
  unfold row? retime
  simp only [List.find?_map, Function.comp_def, Row.tripId_retime]
  cases hfind : t.rows.find? fun r => r.tripId == other with
  | none => rfl
  | some r =>
    have hid := List.find?_some hfind
    rw [Option.map_some, Row.retime_of_ne]
    rw [beq_iff_eq.mp hid]
    exact h

theorem row?_strike_of_ne (h : other ≠ trip) : (t.strike trip).row? other = t.row? other := by
  unfold row? strike
  simp only [List.find?_filter]
  congr 1
  funext r
  by_cases hr : r.tripId = other
  · simp [hr, h]
  · simp [hr]

theorem current?_retime_of_ne (h : other ≠ trip) :
    (t.retime trip times).current? other = t.current? other :=
  congrArg (Option.map Row.current) (row?_retime_of_ne h)

theorem current?_strike_of_ne (h : other ≠ trip) :
    (t.strike trip).current? other = t.current? other :=
  congrArg (Option.map Row.current) (row?_strike_of_ne h)

/-! ## Two trips -/

theorem retime_comm (h : trip ≠ other) :
    (t.retime trip times).retime other times' = (t.retime other times').retime trip times := by
  unfold retime
  simp only [List.map_map]
  congr 1
  exact List.map_congr_left fun r _ => Row.retime_comm h

theorem strike_comm (t : Timetable) (trip other : TripId) :
    (t.strike trip).strike other = (t.strike other).strike trip := by
  unfold strike
  simp only [List.filter_filter, Bool.and_comm]

theorem strike_retime :
    (t.retime other times).strike trip = (t.strike trip).retime other times := by
  unfold strike retime
  simp only [List.filter_map, Function.comp_def, Row.tripId_retime]

/-! ## Revisions -/

/-- The timetable `t'` is `t` without a trip; its stop index is one of its own. -/
def Loses (t' t : Timetable) (trip : TripId) : Prop :=
  t' = { t.strike trip with index := t'.index }

theorem Loses.rows_eq (h : t'.Loses t trip) :
    t'.rows = t.rows.filter fun r => r.tripId != trip := by
  rw [h]
  rfl

theorem Loses.current?_eq (h : t'.Loses t trip) (hne : other ≠ trip) :
    t'.current? other = t.current? other := by
  rw [h]
  exact current?_strike_of_ne hne

/-- Without two trips, one after the other. -/
theorem Loses.strike_eq (h : t'.Loses t trip) :
    t'.strike other = (t.strike trip).strike other := by
  rw [h]
  rfl

/-- The copy for a date, with other times for a trip that stays. -/
theorem Loses.retime_forDate {date : ServiceDate} (h : t'.Loses t trip) :
    (t'.forDate date).retime other times = ((t.forDate date).retime other times).strike trip := by
  rw [strike_retime, h]
  rfl

/-! ## Updates -/

/-- **What an update leads to depends on the current times of its trip**, if these are told over
the published ones. -/
theorem reconcile_run_eq {u : TripUpdate} (recovery : Recovery)
    (hbase : ∀ r ∈ t.rows, r.current.baseline = r.published)
    (h : t.current? u.tripId = some times) :
    ∃ i, t.position? u.tripId = some i ∧ (t.reconcile u recovery).run =
      (times.reconcile times.baseline t.stops u recovery).run.map
        (Except.map fun r => (i, r.times)) := by
  obtain ⟨row, hrow, rfl⟩ := Option.map_eq_some_iff.mp h
  have hmem : u.tripId ∈ t.trips := by
    refine Decidable.byContradiction fun hnot => ?_
    rw [row?_eq_none_iff.mpr hnot] at hrow
    cases hrow
  cases hposition : t.position? u.tripId with
  | none => exact absurd hmem (position?_eq_none_iff.mp hposition)
  | some i =>
    refine ⟨i, rfl, ?_⟩
    unfold reconcile
    rw [hposition, hrow, hbase row (List.mem_of_find?_eq_some hrow)]
    simp only [ExceptT.run_bind]
    rcases (row.current.reconcile row.published t.stops u recovery).run with fault | _ | r <;> rfl

end Timetable

end LiveTimetable
