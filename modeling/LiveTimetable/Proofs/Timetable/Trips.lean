import LiveTimetable.Proofs.Network.Revisions
import Mathlib.Data.List.Nodup

/-!
# Timetables of different trips

The trips of a timetable are different from each other, and operations keep them so. Then a trip
has one row, and the operations can be told without positions: to put in a trip that is there is to
exchange its row, and to take trips out is to keep the rows of all others.

* `Timetable.insert_eq_of_mem`, `Timetable.rows_foldl_remove`: putting in and taking out.
-/

namespace LiveTimetable.Timetable

variable {t t' : Timetable} {b : Baseline} {trip : TripId} {r : Row} {rows : List Row}

theorem sameFrame_of_finish (h : t.finish = .ok t') : t'.SameFrame t := by
  rw [eq_of_finish h]
  exact ⟨rfl, rfl, rfl⟩

theorem sameFrame_foldl_remove (trips : List TripId) (t : Timetable) :
    (trips.foldl remove t).SameFrame t := by
  induction trips generalizing t with
  | nil => exact SameFrame.refl t
  | cons trip rest ih => exact (ih (t.remove trip)).trans (sameFrame_remove t trip)

/-! ## One row for a trip -/

/-- Among rows of different trips there is one for each. -/
theorem eq_of_tripId_eq {q : Row} (hnodup : (rows.map Row.tripId).Nodup) (hr : r ∈ rows)
    (hq : q ∈ rows) (h : r.tripId = q.tripId) : r = q :=
  List.inj_on_of_nodup_map hnodup hr hq h

/-- Of different trips, each has the one row that bears its name. -/
theorem row?_eq_some_iff (hnodup : t.trips.Nodup) :
    t.row? trip = some r ↔ r ∈ t.rows ∧ r.tripId = trip := by
  unfold row?
  constructor
  · intro h
    have hid := List.find?_some h
    exact ⟨List.mem_of_find?_eq_some h, beq_iff_eq.mp hid⟩
  · rintro ⟨hr, rfl⟩
    cases hfind : t.rows.find? fun q => q.tripId == r.tripId with
    | none => exact absurd (beq_self_eq_true _) (List.find?_eq_none.mp hfind r hr)
    | some q =>
      have hq := List.find?_some hfind
      rw [eq_of_tripId_eq hnodup (List.mem_of_find?_eq_some hfind) hr (beq_iff_eq.mp hq)]

/-- Rows that a choice leaves alone stay as they are. -/
theorem map_eq_self {f : Row → Row} (h : ∀ r ∈ rows, f r = r) : rows.map f = rows := by
  rw [List.map_congr_left h, List.map_id']

/-- To overwrite the row of a trip is to exchange it. -/
theorem set_findIdx?_eq_map {i : Nat} (x : Row) (hnodup : (rows.map Row.tripId).Nodup)
    (h : rows.findIdx? (fun r => r.tripId == trip) = some i) :
    rows.set i x = rows.map fun r => if r.tripId = trip then x else r := by
  induction rows generalizing i with
  | nil => simp at h
  | cons first rest ih =>
    obtain ⟨hnew, hrest⟩ := List.nodup_cons.mp hnodup
    rw [List.findIdx?_cons] at h
    by_cases hfirst : first.tripId = trip
    · simp only [hfirst, beq_self_eq_true, if_true, Option.some.injEq] at h
      subst h
      have hothers : rest.map (fun r => if r.tripId = trip then x else r) = rest := by
        refine map_eq_self fun r hr => if_neg ?_
        rintro rfl
        exact hnew (hfirst ▸ List.mem_map_of_mem hr)
      simp [hfirst, hothers]
    · simp only [beq_iff_eq, hfirst, if_false] at h
      obtain ⟨j, hj, rfl⟩ := Option.map_eq_some_iff.mp h
      simp [hfirst, ih hrest hj]

/-- A trip that is there already takes its own place. -/
theorem insert_eq_of_mem (hcount : b.stopCount = t.stops.length) (hnodup : t.trips.Nodup)
    (hmem : b.trip.id ∈ t.trips) :
    t.insert b = .ok { t with
      rows := t.rows.map fun r => if r.tripId = b.trip.id then Row.ofBaseline b else r
      index := none } := by
  rw [insert_eq hcount]
  cases hposition : t.position? b.trip.id with
  | none => exact absurd hmem (position?_eq_none_iff.mp hposition)
  | some i =>
    simp only [set_findIdx?_eq_map (Row.ofBaseline b) hnodup hposition]

/-- The trips after one was put in. -/
theorem trips_of_insert (hnodup : t.trips.Nodup) (h : t.insert b = .ok t') :
    t'.trips = if b.trip.id ∈ t.trips then t.trips else t.trips ++ [b.trip.id] := by
  have hcount := stopCount_of_insert h
  by_cases hmem : b.trip.id ∈ t.trips
  · rw [insert_eq_of_mem hcount hnodup hmem] at h
    cases h
    rw [if_pos hmem]
    unfold trips
    rw [List.map_map]
    refine List.map_congr_left fun r _ => ?_
    by_cases hr : r.tripId = b.trip.id
    · rw [Function.comp_apply, if_pos hr]
      exact hr.symm
    · simp [hr]
  · rw [insert_eq_of_not_mem hcount hmem] at h
    cases h
    rw [if_neg hmem]
    unfold trips
    rw [List.map_append]
    rfl

theorem nodup_trips_of_insert (hnodup : t.trips.Nodup) (h : t.insert b = .ok t') :
    t'.trips.Nodup := by
  rw [trips_of_insert hnodup h]
  by_cases hmem : b.trip.id ∈ t.trips
  · rw [if_pos hmem]
    exact hnodup
  · rw [if_neg hmem]
    exact nodup_append_new hnodup hmem

/-! ## Taking out -/

/-- Without its first row a trip has none. -/
theorem eraseP_eq_filter (hnodup : (rows.map Row.tripId).Nodup) (trip : TripId) :
    (rows.eraseP fun r => r.tripId == trip) = rows.filter fun r => r.tripId != trip := by
  induction rows with
  | nil => rfl
  | cons first rest ih =>
    obtain ⟨hnew, hrest⟩ := List.nodup_cons.mp hnodup
    by_cases hfirst : first.tripId = trip
    · have hothers : rest.filter (fun r => r.tripId != trip) = rest := by
        refine List.filter_eq_self.mpr fun r hr => bne_iff_ne.mpr ?_
        rintro rfl
        exact hnew (hfirst ▸ List.mem_map_of_mem hr)
      simp [hfirst, hothers]
    · simp [hfirst, ih hrest]

theorem remove_rows_of_nodup (hnodup : t.trips.Nodup) (trip : TripId) :
    (t.remove trip).rows = t.rows.filter fun r => r.tripId != trip :=
  (remove_rows t trip).trans (eraseP_eq_filter hnodup trip)

theorem nodup_trips_remove (hnodup : t.trips.Nodup) (trip : TripId) :
    (t.remove trip).trips.Nodup := by
  unfold trips
  rw [remove_rows]
  exact hnodup.sublist (List.eraseP_sublist.map _)

/-- Taking out several trips keeps the rows of all others. -/
theorem rows_foldl_remove (trips : List TripId) (hnodup : t.trips.Nodup) :
    (trips.foldl remove t).rows = t.rows.filter fun r => decide (r.tripId ∉ trips) := by
  induction trips generalizing t with
  | nil => simp
  | cons trip rest ih =>
    rw [List.foldl_cons, ih (nodup_trips_remove hnodup trip), remove_rows_of_nodup hnodup,
      List.filter_filter]
    refine List.filter_congr fun r _ => ?_
    by_cases hr : r.tripId = trip
    · simp [hr]
    · simp [hr]

theorem nodup_trips_foldl_remove (trips : List TripId) (hnodup : t.trips.Nodup) :
    (trips.foldl remove t).trips.Nodup := by
  induction trips generalizing t with
  | nil => exact hnodup
  | cons trip rest ih => exact ih (nodup_trips_remove hnodup trip)

end LiveTimetable.Timetable
