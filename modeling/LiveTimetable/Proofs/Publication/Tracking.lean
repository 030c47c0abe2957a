import LiveTimetable.Proofs.Publication.Following
import LiveTimetable.Proofs.Times.Installing

/-!
# Timetables that track a pattern

A realtime timetable starts as a copy of the timetable of its pattern, and follows each new revision
later on. All the while it **tracks** the pattern: it has the same publications in the same order.

* `Timetable.Tracks`: what a timetable for a date has in common with a pattern.
* `Pattern.Continues`: a revision keeps the order of the trips that stay, and new ones come last.
* `Timetable.Tracks.follow`: a timetable that tracks a pattern, and follows a revision that
  continues it, tracks the revision.
-/

namespace LiveTimetable

/-! ## Revisions -/

/-- The trips that both revisions have are in one order, and all others of `p'` come after them. -/
def Pattern.Continues (p' p : Pattern) : Prop :=
  p'.timetable.rows = (p.timetable.rows.filter fun r => decide (r.tripId ∈ p'.trips)) ++
    p'.timetable.rows.filter fun r => decide (r.tripId ∉ p.trips)

namespace Pattern

variable {p p' : Pattern} {r : Row} {trip : TripId}

theorem mem_trips_of_mem (hr : r ∈ p.timetable.rows) : r.tripId ∈ p.trips :=
  List.mem_map_of_mem hr

/-- A revision with a new trip. -/
theorem continues_of_append (hrows : p'.timetable.rows = p.timetable.rows ++ [r])
    (hnodup : p'.trips.Nodup) : p'.Continues p := by
  have htrips : p'.trips = p.trips ++ [r.tripId] := by
    unfold trips Timetable.trips
    rw [hrows]
    exact List.map_append
  have hnew : r.tripId ∉ p.trips := by
    rw [htrips] at hnodup
    intro hmem
    exact (List.nodup_append.mp hnodup).2.2 _ hmem _ (List.mem_singleton_self _) rfl
  have hkept : (p.timetable.rows.filter fun q => decide (q.tripId ∈ p'.trips)) =
      p.timetable.rows := by
    refine List.filter_eq_self.mpr fun q hq => decide_eq_true ?_
    rw [htrips]
    exact List.mem_append_left _ (mem_trips_of_mem hq)
  have hold : (p.timetable.rows.filter fun q => decide (q.tripId ∉ p.trips)) = [] := by
    refine List.filter_eq_nil_iff.mpr fun q hq => ?_
    simpa using mem_trips_of_mem hq
  rw [Continues, hkept, hrows, List.filter_append, hold,
    List.filter_cons_of_pos (by simpa using hnew)]
  rfl

/-- A revision without one of the trips. -/
theorem continues_of_eraseP
    (hrows : p'.timetable.rows = p.timetable.rows.eraseP fun r => r.tripId == trip)
    (hnodup : p.trips.Nodup) : p'.Continues p := by
  have hkept : (p.timetable.rows.filter fun q => decide (q.tripId ∈ p'.trips)) =
      p'.timetable.rows := by
    rw [hrows, Timetable.eraseP_eq_filter hnodup]
    refine List.filter_congr fun q hq => ?_
    rw [trips_withoutTrip hrows, Bool.eq_iff_iff]
    simp [hnodup.mem_erase_iff, mem_trips_of_mem hq]
  have hnew : (p'.timetable.rows.filter fun q => decide (q.tripId ∉ p.trips)) = [] := by
    refine List.filter_eq_nil_iff.mpr fun q hq => ?_
    rw [hrows] at hq
    simpa using mem_trips_of_mem (List.mem_of_mem_eraseP hq)
  rw [Continues, hkept, hnew, List.append_nil]

end Pattern

/-! ## Rows that are kept -/

namespace Buffer

/-- A trip of the pattern is new to the rows that are kept if it is new to all of them. -/
theorem filter_not_mem_kept (p : Pattern) (rows : List Row) :
    ((p.timetable.rows.map Row.published).filter fun x => decide (x.trip.id ∉
      (rows.filter fun r => decide (r.tripId ∈ p.trips)).map Row.tripId)) =
        (p.timetable.rows.map Row.published).filter fun x =>
          decide (x.trip.id ∉ rows.map Row.tripId) := by
  refine List.filter_congr fun x hx => ?_
  obtain ⟨q, hq, rfl⟩ := List.mem_map.mp hx
  have hmem : q.published.trip.id ∈ p.trips := Pattern.mem_trips_of_mem hq
  rw [Bool.eq_iff_iff]
  simp only [decide_eq_true_iff, not_iff_not, List.mem_map, List.mem_filter]
  constructor
  · rintro ⟨r, ⟨hr, -⟩, hid⟩
    exact ⟨r, hr, hid⟩
  · rintro ⟨r, hr, hid⟩
    exact ⟨r, ⟨hr, hid ▸ hmem⟩, hid⟩

/-- If the pattern has the other rows in their publication, they stay as they are. -/
theorem followed_of_published {p : Pattern} {rows : List Row} (hnodup : p.trips.Nodup)
    (h : ∀ r ∈ rows, r.tripId ∈ p.trips → r.published ∈ p.timetable.rows.map Row.published) :
    followed p rows = (rows.filter fun r => decide (r.tripId ∈ p.trips)) ++
      ((p.timetable.rows.map Row.published).filter fun x =>
        decide (x.trip.id ∉ rows.map Row.tripId)).map Row.ofBaseline := by
  have hids : ((p.timetable.rows.map Row.published).map fun x => x.trip.id).Nodup := by
    rw [List.map_map]
    exact hnodup
  have hsame : (rows.filter fun r => decide (r.tripId ∈ p.trips)).map
      (Row.refreshedBy (p.timetable.rows.map Row.published)) =
        rows.filter fun r => decide (r.tripId ∈ p.trips) := by
    refine Timetable.map_eq_self fun r hr => ?_
    obtain ⟨hmem, htrip⟩ := List.mem_filter.mp hr
    unfold Row.refreshedBy
    split
    · rename_i x hx
      have hid := List.find?_some hx
      have heq : x = r.published := List.inj_on_of_nodup_map hids (List.mem_of_find?_eq_some hx)
        (h r hmem (of_decide_eq_true htrip)) (beq_iff_eq.mp hid)
      rw [heq, if_pos rfl]
    · rfl
  unfold followed takenUp
  rw [hsame, filter_not_mem_kept]

end Buffer

/-! ## Tracking -/

namespace Timetable

/-- The timetable is of the pattern and the date of the key. Its publications are those of `p`, in
their order, and the times of each trip are times of its publication. -/
structure Tracks (t : Timetable) (key : PatternDate) (p : Pattern) : Prop where
  pattern_eq : t.pattern = key.pattern
  date_eq : t.date = some key.date
  published_eq : t.rows.map Row.published = p.timetable.rows.map Row.published
  baseline_eq : ∀ r ∈ t.rows, r.current.baseline = r.published

variable {t : Timetable} {key : PatternDate} {p p' : Pattern}

theorem Tracks.trips_eq (ht : t.Tracks key p) : t.trips = p.trips := by
  have h := congrArg (List.map fun b : Baseline => b.trip.id) ht.published_eq
  rw [List.map_map, List.map_map] at h
  exact h

/-- The copy for a date tracks the pattern. -/
theorem tracks_forDate (hp : p.WellFormed) (date : ServiceDate) :
    (p.timetable.forDate date).Tracks ⟨p.id, date⟩ p where
  pattern_eq := hp.pattern_eq
  date_eq := rfl
  published_eq := rfl
  baseline_eq r hr := by
    rw [hp.asPublished r hr]
    rfl

/-- The times of an update are times of the same publication. -/
theorem Tracks.retime {u : TripUpdate} {recovery : Recovery} {i : Nat} {times : TripTimes}
    (ht : t.Tracks key p) (h : (t.reconcile u recovery).run = .ok (.ok (i, times))) :
    (t.setTimes i times).Tracks key p := by
  refine ⟨ht.pattern_eq, ht.date_eq, ?_, fun r hr => ?_⟩
  · rw [← ht.published_eq]
    refine List.ext_getElem? fun j => ?_
    simp only [setTimes, List.getElem?_map, List.getElem?_modify]
    cases t.rows[j]? with
    | none => rfl
    | some r =>
      by_cases hij : i = j
      · simp [hij]
      · simp [hij]
  · rcases mem_rows_setTimes hr with hr | ⟨row, hrow, rfl⟩
    · exact ht.baseline_eq r hr
    · obtain ⟨row', reconciled, hrow', -, hreconcile, rfl⟩ := reconcile_spec h
      rw [hrow] at hrow'
      cases hrow'
      have hbase := ht.baseline_eq row (List.mem_of_getElem? hrow)
      exact (TripTimes.reconcile_isIncreasing hbase hreconcile).1

/-- The rows of a timetable that tracks a pattern, and follows the next revision: those of the
trips that stay, as they were, and then those of the new ones, as published. -/
theorem Tracks.follow_rows (ht : t.Tracks key p) (hnodup : p.trips.Nodup) (hp' : p'.WellFormed)
    (hnext : p'.Continues p) (hstops : t.stops.length = p'.stops.length) :
    (Buffer.follow p' t).timetable.rows = (t.rows.filter fun r => decide (r.tripId ∈ p'.trips)) ++
      ((p'.timetable.rows.map Row.published).filter fun x =>
        decide (x.trip.id ∉ t.rows.map Row.tripId)).map Row.ofBaseline := by
  have hkept : ∀ r ∈ t.rows, r.tripId ∈ p'.trips →
      r.published ∈ p'.timetable.rows.map Row.published := by
    intro r hr htrip
    have hold : r.published ∈ t.rows.map Row.published := List.mem_map_of_mem hr
    rw [ht.published_eq] at hold
    obtain ⟨q, hq, heq⟩ := List.mem_map.mp hold
    have hid : q.tripId = r.tripId := congrArg (fun b : Baseline => b.trip.id) heq
    rw [← heq]
    refine List.mem_map_of_mem ?_
    rw [hnext]
    exact List.mem_append_left _ (List.mem_filter.mpr ⟨hq, decide_eq_true (hid ▸ htrip)⟩)
  rw [Buffer.follow_rows hp' (ht.trips_eq ▸ hnodup) hstops,
    Buffer.followed_of_published hp'.nodup hkept]

/-- **A timetable that tracks a pattern and follows the next revision tracks that.** -/
theorem Tracks.follow (ht : t.Tracks key p) (hnodup : p.trips.Nodup) (hp' : p'.WellFormed)
    (hnext : p'.Continues p) (hstops : t.stops.length = p'.stops.length) :
    (Buffer.follow p' t).timetable.Tracks key p' := by
  have hframe := (Buffer.follow_frame hp' hstops).2
  have hrows := ht.follow_rows hnodup hp' hnext hstops
  refine ⟨hframe.pattern_eq.trans ht.pattern_eq, hframe.date_eq.trans ht.date_eq, ?_,
    fun r hr => ?_⟩
  · have hfirst : (t.rows.filter fun r => decide (r.tripId ∈ p'.trips)).map Row.published =
        (p.timetable.rows.filter fun r => decide (r.tripId ∈ p'.trips)).map Row.published := by
      have h := congrArg (List.filter fun b : Baseline => decide (b.trip.id ∈ p'.trips))
        ht.published_eq
      rw [List.filter_map, List.filter_map] at h
      exact h
    have hlast : ((p'.timetable.rows.map Row.published).filter fun x =>
        decide (x.trip.id ∉ t.rows.map Row.tripId)) =
          (p'.timetable.rows.filter fun r => decide (r.tripId ∉ p.trips)).map Row.published := by
      have htrips : t.rows.map Row.tripId = p.trips := ht.trips_eq
      rw [htrips, List.filter_map]
      rfl
    rw [hrows, List.map_append, hfirst, hlast, List.map_map]
    have hself : Row.published ∘ Row.ofBaseline = id := rfl
    rw [hself, List.map_id, ← List.map_append, ← hnext]
  · rw [hrows] at hr
    rcases List.mem_append.mp hr with hr | hr
    · exact ht.baseline_eq r (List.mem_of_mem_filter hr)
    · obtain ⟨b, -, rfl⟩ := List.mem_map.mp hr
      rfl

/-- Trips that both revisions have keep their rows. -/
theorem row?_append_of_kept {rows new : List Row} {trips : List TripId} {trip : TripId}
    (hmem : trip ∈ rows.map Row.tripId) (hkept : trip ∈ trips) :
    (((rows.filter fun r => decide (r.tripId ∈ trips)) ++ new).find? fun r => r.tripId == trip) =
      rows.find? fun r => r.tripId == trip := by
  have hfilter : ((rows.filter fun r => decide (r.tripId ∈ trips)).find? fun r =>
      r.tripId == trip) = rows.find? fun r => r.tripId == trip := by
    rw [List.find?_filter]
    congr 1
    funext r
    by_cases hr : r.tripId = trip
    · simp [hr, hkept]
    · simp [hr]
  obtain ⟨r, hr, hid⟩ := List.mem_map.mp hmem
  have hsome : (rows.find? fun r => r.tripId == trip).isSome = true :=
    List.find?_isSome.mpr ⟨r, hr, beq_iff_eq.mpr hid⟩
  rw [List.find?_append, hfilter]
  exact Option.or_of_isSome hsome

/-- **A trip that stays runs as before** when its timetable follows the next revision. -/
theorem Tracks.current?_follow (ht : t.Tracks key p) (hnodup : p.trips.Nodup)
    (hp' : p'.WellFormed) (hnext : p'.Continues p) (hstops : t.stops.length = p'.stops.length)
    {trip : TripId} (hmem : trip ∈ p.trips) (hkept : trip ∈ p'.trips) :
    (Buffer.follow p' t).timetable.current? trip = t.current? trip := by
  have hmem' : trip ∈ t.rows.map Row.tripId := (congrArg (trip ∈ ·) ht.trips_eq).mpr hmem
  unfold current? row?
  rw [ht.follow_rows hnodup hp' hnext hstops, row?_append_of_kept hmem' hkept]

theorem current?_of_continues (hnext : p'.Continues p) {trip : TripId} (hmem : trip ∈ p.trips)
    (hkept : trip ∈ p'.trips) : p'.timetable.current? trip = p.timetable.current? trip := by
  unfold current? row?
  rw [hnext, row?_append_of_kept hmem hkept]

end Timetable

end LiveTimetable
