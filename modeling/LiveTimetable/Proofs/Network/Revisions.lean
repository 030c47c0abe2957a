import LiveTimetable.Network.Pattern

/-!
# The rows of a pattern through its revisions

What the operations on timetables and patterns do to the rows of trips.

* `Timetable.SameFrame`: two timetables that differ in their rows at most.
* `Timetable.insert_eq`, `Timetable.remove_rows`, `Timetable.eq_of_finish`: the operations on a
  timetable, row by row.
* `Timetable.reconcile_spec`, `Timetable.mem_rows_setTimes`: other times for one row.
* `Pattern.WellFormed`: every trip is there once, runs as published, and calls at the stops of the
  pattern.
* `Pattern.publish_spec`, `Pattern.withTrip_spec`, `Pattern.withoutTrip_spec`: the first revision
  of a pattern and the next ones. A trip that calls at the stops of the pattern is never refused.
-/

namespace LiveTimetable

/-- A list of different trips with one more. -/
theorem nodup_append_new {trips : List TripId} {trip : TripId} (h : trips.Nodup)
    (hnew : trip ∉ trips) : (trips ++ [trip]).Nodup := by
  refine List.nodup_append.mpr ⟨h, List.pairwise_singleton _ _, fun x hx y hy => ?_⟩
  rw [List.mem_singleton.mp hy]
  rintro rfl
  exact hnew hx

/-! ## Timetables -/

namespace Timetable

variable {t t' : Timetable} {b : Baseline} {trip : TripId} {r : Row}

theorem mem_trips_iff : trip ∈ t.trips ↔ ∃ r ∈ t.rows, r.tripId = trip := List.mem_map

theorem contains_eq_true_iff : t.contains trip = true ↔ trip ∈ t.trips := by
  unfold contains
  simp only [List.any_eq_true, beq_iff_eq, mem_trips_iff]

theorem position?_eq_none_iff : t.position? trip = none ↔ trip ∉ t.trips := by
  unfold position?
  rw [List.findIdx?_eq_none_iff, mem_trips_iff]
  simp only [beq_eq_false_iff_ne, not_exists, not_and, ne_eq]

/-- Two timetables of one pattern, date and sequence of stops. -/
structure SameFrame (t' t : Timetable) : Prop where
  pattern_eq : t'.pattern = t.pattern
  date_eq : t'.date = t.date
  stops_eq : t'.stops = t.stops

theorem SameFrame.refl (t : Timetable) : t.SameFrame t := ⟨rfl, rfl, rfl⟩

theorem SameFrame.trans {t'' : Timetable} (h : t''.SameFrame t') (h' : t'.SameFrame t) :
    t''.SameFrame t :=
  ⟨h.pattern_eq.trans h'.pattern_eq, h.date_eq.trans h'.date_eq, h.stops_eq.trans h'.stops_eq⟩

/-- Finishing builds the stop index and nothing else. -/
theorem eq_of_finish (h : t.finish = .ok t') : t' = { t with index := t'.index } := by
  unfold finish at h
  split at h
  · cases h
    rfl
  · obtain ⟨index, -, hok⟩ := Checked.bind_eq_ok_iff.mp h
    cases hok
    rfl

/-- A trip with the right number of stops takes its old place, or comes last. -/
theorem insert_eq (h : b.stopCount = t.stops.length) :
    t.insert b = .ok { t with
      rows := match t.position? b.trip.id with
        | some i => t.rows.set i (Row.ofBaseline b)
        | none => t.rows ++ [Row.ofBaseline b]
      index := none } :=
  if_neg fun hne => hne h

theorem insert_eq_of_not_mem (h : b.stopCount = t.stops.length) (hnew : b.trip.id ∉ t.trips) :
    t.insert b = .ok { t with rows := t.rows ++ [Row.ofBaseline b], index := none } := by
  rw [insert_eq h, position?_eq_none_iff.mpr hnew]

theorem stopCount_of_insert (h : t.insert b = .ok t') : b.stopCount = t.stops.length := by
  unfold insert at h
  split at h
  · cases h
  · rename_i hne
    exact Decidable.not_not.mp hne

theorem sameFrame_of_insert (h : t.insert b = .ok t') : t'.SameFrame t := by
  rw [insert_eq (stopCount_of_insert h)] at h
  cases h
  exact ⟨rfl, rfl, rfl⟩

theorem stops_of_insert (h : t.insert b = .ok t') : t'.stops = t.stops :=
  (sameFrame_of_insert h).stops_eq

/-- A new row is that of the trip put in. -/
theorem mem_rows_of_insert (h : t.insert b = .ok t') (hr : r ∈ t'.rows) :
    r ∈ t.rows ∨ r = Row.ofBaseline b := by
  rw [insert_eq (stopCount_of_insert h)] at h
  cases h
  simp only [] at hr
  split at hr
  · exact List.mem_or_eq_of_mem_set hr
  · rcases List.mem_append.mp hr with hr | hr
    · exact Or.inl hr
    · exact Or.inr (List.mem_singleton.mp hr)

/-- Taking out a trip takes out its first row. -/
theorem remove_rows (t : Timetable) (trip : TripId) :
    (t.remove trip).rows = t.rows.eraseP fun r => r.tripId == trip := by
  rw [List.eraseP_eq_eraseIdx, remove, position?]
  cases t.rows.findIdx? fun r => r.tripId == trip <;> rfl

theorem sameFrame_remove (t : Timetable) (trip : TripId) : (t.remove trip).SameFrame t := by
  unfold remove
  split
  · exact ⟨rfl, rfl, rfl⟩
  · exact SameFrame.refl t

theorem remove_stops (t : Timetable) (trip : TripId) : (t.remove trip).stops = t.stops :=
  (sameFrame_remove t trip).stops_eq

/-- A list of new trips is put in as a whole, in its order. -/
theorem insertNew_spec : ∀ {bs : List Baseline} {t t' : Timetable}, insertNew bs t = .ok t' →
    t.trips.Nodup → t'.stops = t.stops ∧ t'.rows = t.rows ++ bs.map Row.ofBaseline ∧
      t'.trips.Nodup ∧ ∀ b ∈ bs, b.stopCount = t.stops.length
  | [], t, t', h, hnodup => by
    cases h
    exact ⟨rfl, (List.append_nil _).symm, hnodup, nofun⟩
  | b :: rest, t, t', h, hnodup => by
    unfold insertNew at h
    split at h
    · cases h
    · rename_i hcontains
      have hnew : b.trip.id ∉ t.trips := fun hmem => hcontains (contains_eq_true_iff.mpr hmem)
      cases hins : t.insert b with
      | error e =>
        rw [hins] at h
        cases h
      | ok mid =>
        rw [hins] at h
        have hcount := stopCount_of_insert hins
        rw [insert_eq_of_not_mem hcount hnew] at hins
        cases hins
        have hmid : ((t.rows ++ [Row.ofBaseline b]).map Row.tripId).Nodup := by
          rw [List.map_append]
          exact nodup_append_new hnodup hnew
        obtain ⟨hstops, hrows, hnodup', hcounts⟩ := insertNew_spec h hmid
        refine ⟨hstops, ?_, hnodup', fun x hx => ?_⟩
        · rw [hrows, List.map_cons]
          exact List.append_assoc _ _ _
        · rcases List.mem_cons.mp hx with rfl | hx
          · exact hcount
          · exact hcounts x hx

theorem sameFrame_of_insertNew : ∀ {bs : List Baseline} {t t' : Timetable},
    insertNew bs t = .ok t' → t'.SameFrame t
  | [], t, t', h => by
    cases h
    exact SameFrame.refl t
  | b :: rest, t, t', h => by
    unfold insertNew at h
    split at h
    · cases h
    · cases hins : t.insert b with
      | error e =>
        rw [hins] at h
        cases h
      | ok mid =>
        rw [hins] at h
        exact (sameFrame_of_insertNew h).trans (sameFrame_of_insert hins)

/-- A single trip with the right number of stops makes a timetable. -/
theorem publish_singleton (pattern : PatternId) {stops : List StopId}
    (h : b.stopCount = stops.length) :
    publish pattern stops [b] = .ok ⟨pattern, none, stops, [Row.ofBaseline b], none⟩ := by
  have hins : (⟨pattern, none, stops, [], none⟩ : Timetable).insert b =
      .ok ⟨pattern, none, stops, [Row.ofBaseline b], none⟩ :=
    insert_eq_of_not_mem h List.not_mem_nil
  rw [publish, insertNew, if_neg (by exact Bool.false_ne_true), hins]
  rfl

/-! ### Other times -/

variable {u : TripUpdate} {recovery : Recovery} {i : Nat} {times : TripTimes}

/-- The times come from the row of the update's trip. -/
theorem reconcile_spec (h : (t.reconcile u recovery).run = .ok (.ok (i, times))) :
    ∃ row r, t.rows[i]? = some row ∧ row.tripId = u.tripId ∧
      (row.current.reconcile row.published t.stops u recovery).run = .ok (.ok r) ∧
      r.times = times := by
  unfold reconcile at h
  split at h
  · rename_i j row hposition hrow
    obtain ⟨r, hr, hlast⟩ := Attempt.bind_eq_ok_iff.mp h
    cases hlast
    unfold row? at hrow
    rw [List.find?_eq_bind_findIdx?_getElem?] at hrow
    unfold position? at hposition
    rw [hposition] at hrow
    have htrip := List.find?_some (List.find?_eq_bind_findIdx?_getElem?.trans (hposition ▸ hrow))
    exact ⟨row, r, hrow, beq_iff_eq.mp htrip, hr, rfl⟩
  · cases h

/-- A row with other times is that of the given position. -/
theorem mem_rows_setTimes {r : Row} (h : r ∈ (t.setTimes i times).rows) :
    r ∈ t.rows ∨ ∃ row, t.rows[i]? = some row ∧ r = { row with current := times } := by
  obtain ⟨j, hj⟩ := List.getElem?_of_mem h
  simp only [setTimes, List.getElem?_modify] at hj
  obtain ⟨row, hrow, heq⟩ := Option.map_eq_some_iff.mp hj
  by_cases hij : i = j
  · rw [if_pos hij] at heq
    exact Or.inr ⟨row, hij ▸ hrow, heq.symm⟩
  · rw [if_neg hij] at heq
    exact Or.inl (heq ▸ List.mem_of_getElem? hrow)

end Timetable

/-! ## Patterns -/

namespace Pattern

/-- The timetable bears the number of the pattern; each trip is there once, runs as published, and
has a call for every stop of the pattern. -/
structure WellFormed (p : Pattern) : Prop where
  pattern_eq : p.timetable.pattern = p.id
  asPublished : ∀ r ∈ p.timetable.rows, r = Row.ofBaseline r.published
  stopCount_eq : ∀ r ∈ p.timetable.rows, r.published.stopCount = p.stops.length
  nodup : p.trips.Nodup

/-- Two revisions of one pattern: they differ in their trips at most. -/
structure Revises (p' p : Pattern) : Prop where
  id_eq : p'.id = p.id
  routeId_eq : p'.routeId = p.routeId
  stops_eq : p'.stops = p.stops
  isTraversable_eq : p'.isTraversable = p.isTraversable
  isSynthesized_eq : p'.isSynthesized = p.isSynthesized
  pattern_eq : p'.timetable.pattern = p.timetable.pattern

variable {p p' : Pattern} {b : Baseline} {trip : TripId} {id : PatternId} {routeId : RouteId}
  {stops : List StopId} {bs : List Baseline} {isSynthesized : Bool}

/-- The first revision has the listed trips. -/
theorem publish_spec (h : (publish id routeId stops bs isSynthesized).run = .ok (.ok p)) :
    p.id = id ∧ p.routeId = routeId ∧ p.stops = stops ∧ p.isTraversable = true ∧
      p.isSynthesized = isSynthesized ∧ p.timetable.rows = bs.map Row.ofBaseline ∧
      p.WellFormed := by
  obtain ⟨t, ht, h⟩ := Attempt.bind_eq_ok_iff.mp h
  obtain ⟨t', ht', h⟩ := Attempt.bind_eq_ok_iff.mp h
  obtain ⟨_, hfinish, ⟨⟩⟩ := Attempt.run_lift_eq_ok_iff.mp ht'
  cases h
  have hnew : Timetable.insertNew bs ⟨id, none, stops, [], none⟩ = .ok t := Except.ok.inj ht
  obtain ⟨hstops, hrows, hnodup, hcounts⟩ := Timetable.insertNew_spec hnew List.nodup_nil
  rw [List.nil_append] at hrows
  rw [Timetable.eq_of_finish hfinish]
  refine ⟨rfl, rfl, hstops, rfl, rfl, hrows, (Timetable.sameFrame_of_insertNew hnew).pattern_eq,
    fun r hr => ?_, fun r hr => ?_, hnodup⟩
  · obtain ⟨b, -, rfl⟩ := List.mem_map.mp (hrows ▸ hr)
    rfl
  · obtain ⟨b, hb, rfl⟩ := List.mem_map.mp (hrows ▸ hr)
    exact (hcounts b hb).trans (congrArg List.length hstops.symm)

/-- A single trip that calls at the stops is not refused. -/
theorem publish_singleton_isOk (h : b.stopCount = stops.length)
    {result : Except ScheduleError Pattern}
    (hrun : (publish id routeId stops [b] isSynthesized).run = .ok result) :
    ∃ p, result = .ok p := by
  unfold publish at hrun
  rw [Timetable.publish_singleton id h, Attempt.mk_ok_bind] at hrun
  obtain ⟨t, -, hrun⟩ := Attempt.lift_bind_eq_ok_iff.mp hrun
  exact ⟨_, (Except.ok.inj hrun).symm⟩

/-- A trip that calls at the stops of the pattern is never refused; a new one comes last. -/
theorem withTrip_spec (hcount : b.stopCount = p.stops.length) (hnew : b.trip.id ∉ p.trips)
    {result : Except ScheduleError Pattern} (h : (p.withTrip b).run = .ok result) :
    ∃ p', result = .ok p' ∧ p'.Revises p ∧
      p'.timetable.rows = p.timetable.rows ++ [Row.ofBaseline b] := by
  unfold withTrip at h
  rw [Timetable.insert_eq_of_not_mem hcount hnew, Attempt.mk_ok_bind] at h
  obtain ⟨t, hfinish, h⟩ := Attempt.lift_bind_eq_ok_iff.mp h
  obtain rfl := Except.ok.inj h
  rw [Timetable.eq_of_finish hfinish]
  exact ⟨_, rfl, ⟨rfl, rfl, rfl, rfl, rfl, rfl⟩, rfl⟩

/-- Without a trip the pattern has the rows of all others. -/
theorem withoutTrip_spec (h : p.withoutTrip trip = .ok p') :
    p'.Revises p ∧ p'.timetable.rows = p.timetable.rows.eraseP fun r => r.tripId == trip := by
  obtain ⟨t, hfinish, h⟩ := Checked.bind_eq_ok_iff.mp h
  cases h
  rw [Timetable.eq_of_finish hfinish]
  exact ⟨⟨rfl, rfl, Timetable.remove_stops _ _, rfl, rfl,
    (Timetable.sameFrame_remove _ _).pattern_eq⟩, Timetable.remove_rows _ _⟩

/-- Rows that come from a well-formed revision or run as published make one again. -/
theorem WellFormed.revise (h : p.WellFormed) (hrev : p'.Revises p)
    (hrows : ∀ r ∈ p'.timetable.rows, r ∈ p.timetable.rows ∨
      ∃ b, r = Row.ofBaseline b ∧ b.stopCount = p.stops.length)
    (hnodup : p'.trips.Nodup) : p'.WellFormed := by
  refine ⟨(hrev.pattern_eq.trans h.pattern_eq).trans hrev.id_eq.symm, fun r hr => ?_,
    fun r hr => ?_, hnodup⟩
  · rcases hrows r hr with hold | ⟨b, rfl, -⟩
    · exact h.asPublished r hold
    · rfl
  · rw [hrev.stops_eq]
    rcases hrows r hr with hold | ⟨b, rfl, hcount⟩
    · exact h.stopCount_eq r hold
    · exact hcount

theorem WellFormed.withTrip (h : p.WellFormed) (hrev : p'.Revises p)
    (hrows : p'.timetable.rows = p.timetable.rows ++ [Row.ofBaseline b])
    (hcount : b.stopCount = p.stops.length) (hnew : b.trip.id ∉ p.trips) : p'.WellFormed := by
  refine h.revise hrev (fun r hr => ?_) ?_
  · rw [hrows] at hr
    rcases List.mem_append.mp hr with hr | hr
    · exact Or.inl hr
    · exact Or.inr ⟨b, List.mem_singleton.mp hr, hcount⟩
  · show (p'.timetable.rows.map Row.tripId).Nodup
    rw [hrows, List.map_append]
    exact nodup_append_new h.nodup hnew

theorem WellFormed.withoutTrip (h : p.WellFormed) (hrev : p'.Revises p)
    (hrows : p'.timetable.rows = p.timetable.rows.eraseP fun r => r.tripId == trip) :
    p'.WellFormed := by
  refine h.revise hrev (fun r hr => ?_) ?_
  · rw [hrows] at hr
    exact Or.inl (List.mem_of_mem_eraseP hr)
  · show (p'.timetable.rows.map Row.tripId).Nodup
    rw [hrows]
    exact h.nodup.sublist (List.eraseP_sublist.map _)

theorem trips_withTrip (hrows : p'.timetable.rows = p.timetable.rows ++ [Row.ofBaseline b]) :
    p'.trips = p.trips ++ [b.trip.id] := by
  unfold trips Timetable.trips
  rw [hrows]
  exact List.map_append

theorem trips_withoutTrip
    (hrows : p'.timetable.rows = p.timetable.rows.eraseP fun r => r.tripId == trip) :
    p'.trips = p.trips.erase trip := by
  unfold trips Timetable.trips
  rw [hrows, List.erase_eq_eraseP', List.eraseP_map]
  rfl

end Pattern

end LiveTimetable
