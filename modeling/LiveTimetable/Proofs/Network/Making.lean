import LiveTimetable.Proofs.Timetable.Lookups
import LiveTimetable.Proofs.Timetable.Trips

/-!
# Patterns as they are made

Patterns are published and revised, and there is no other way to make one. A revision may also put
in a trip that the pattern has already; its publication is replaced then.

* `Pattern.Made`: a published pattern after any number of revisions.
* `Pattern.withTrip_revises`, `Pattern.withoutTrip_revises`: revisions of well-formed patterns.
* `Pattern.Made.wellFormed`, `Pattern.Made.intact`: what holds of every pattern that was made.
* `Pattern.WellFormed.exists_withTrip`, `Pattern.Made.exists_withoutTrip`: it can always be revised.
-/

namespace LiveTimetable

/-- A timetable of trips that run as published can be finished. -/
theorem Timetable.exists_finish_of_asPublished {t : Timetable} (hindex : t.index = none)
    (hrows : ∀ r ∈ t.rows, r = Row.ofBaseline r.published ∧
      r.published.stopCount = t.stops.length) : ∃ t', t.finish = .ok t' := by
  refine (intact_of_index_eq_none hindex fun r hr => ?_).exists_finish
  obtain ⟨hpublished, hcount⟩ := hrows r hr
  rw [hpublished]
  exact ⟨TripTimes.intact_scheduled r.published, rfl, hcount⟩

namespace Pattern

/-- A published pattern after any number of revisions. -/
inductive Made : Pattern → Prop
  | published {id : PatternId} {routeId : RouteId} {stops : List StopId} {trips : List Baseline}
      {isSynthesized : Bool} {p : Pattern}
      (h : (publish id routeId stops trips isSynthesized).run = .ok (.ok p)) : Made p
  | withTrip {p p' : Pattern} {b : Baseline} (hp : Made p)
      (h : (p.withTrip b).run = .ok (.ok p')) : Made p'
  | withoutTrip {p p' : Pattern} {trip : TripId} (hp : Made p)
      (h : p.withoutTrip trip = .ok p') : Made p'

variable {p p' : Pattern} {b : Baseline} {trip : TripId}

/-! ## Steps -/

/-- The timetable of the next revision is the one with the trip, finished. -/
theorem withTrip_eq_ok_iff : (p.withTrip b).run = .ok (.ok p') ↔ ∃ t t',
    p.timetable.insert b = .ok t ∧ t.finish = .ok t' ∧
      p' = { p with timetable := t', revision := p.revision + 1 } := by
  unfold Pattern.withTrip
  constructor
  · intro h
    obtain ⟨t, ht, h⟩ := Attempt.bind_eq_ok_iff.mp h
    obtain ⟨t', ht', h⟩ := Attempt.lift_bind_eq_ok_iff.mp h
    cases h
    exact ⟨t, t', Except.ok.inj ht, ht', rfl⟩
  · rintro ⟨t, t', ht, ht', rfl⟩
    rw [ht, Attempt.mk_ok_bind]
    exact Attempt.lift_bind_eq_ok_iff.mpr ⟨t', ht', rfl⟩

/-- A revision with a trip, whether or not the pattern had it before. -/
theorem withTrip_revises (hp : p.WellFormed) (h : (p.withTrip b).run = .ok (.ok p')) :
    p'.Revises p ∧ p'.WellFormed := by
  obtain ⟨t, t', hinsert, hfinish, rfl⟩ := withTrip_eq_ok_iff.mp h
  have hframe := (Timetable.sameFrame_of_finish hfinish).trans
    (Timetable.sameFrame_of_insert hinsert)
  have hrows : t'.rows = t.rows := by rw [Timetable.eq_of_finish hfinish]
  have hrev : Revises { p with timetable := t', revision := p.revision + 1 } p :=
    ⟨rfl, rfl, hframe.stops_eq, rfl, rfl, hframe.pattern_eq⟩
  refine ⟨hrev, hp.revise hrev (fun r hr => ?_) ?_⟩
  · rcases Timetable.mem_rows_of_insert hinsert (hrows ▸ hr) with hold | rfl
    · exact Or.inl hold
    · exact Or.inr ⟨b, rfl, Timetable.stopCount_of_insert hinsert⟩
  · show (t'.rows.map Row.tripId).Nodup
    rw [hrows]
    exact Timetable.nodup_trips_of_insert hp.nodup hinsert

theorem withoutTrip_revises (hp : p.WellFormed) (h : p.withoutTrip trip = .ok p') :
    p'.Revises p ∧ p'.WellFormed := by
  obtain ⟨hrev, hrows⟩ := withoutTrip_spec h
  exact ⟨hrev, hp.withoutTrip hrev hrows⟩

/-! ## All patterns -/

/-- **Patterns that were made are well-formed.** -/
theorem Made.wellFormed (h : p.Made) : p.WellFormed := by
  induction h with
  | published h => exact (publish_spec h).2.2.2.2.2.2
  | withTrip _ h ih => exact (withTrip_revises ih h).2
  | withoutTrip _ h ih => exact (withoutTrip_revises ih h).2

/-- The timetable of a pattern that was made is reachable. -/
theorem Made.reachable (h : p.Made) : p.timetable.Reachable := by
  induction h with
  | published h =>
    obtain ⟨t, ht, h⟩ := Attempt.bind_eq_ok_iff.mp h
    obtain ⟨t', ht', h⟩ := Attempt.lift_bind_eq_ok_iff.mp h
    cases h
    exact .step (.published (Except.ok.inj ht)) (.finished ht')
  | withTrip _ h ih =>
    obtain ⟨t, t', hinsert, hfinish, rfl⟩ := withTrip_eq_ok_iff.mp h
    exact .step (.step ih (.inserted hinsert)) (.finished hfinish)
  | @withoutTrip p p' trip _ h ih =>
    obtain ⟨t, hfinish, h⟩ := Checked.bind_eq_ok_iff.mp h
    cases h
    exact .step (.step ih (.removed _ trip)) (.finished hfinish)

/-- **The times of a pattern that was made can be read.** -/
theorem Made.intact (h : p.Made) : p.timetable.Intact := h.reachable.intact

/-! ## More of them -/

/-- A pattern for a single trip can be published. -/
theorem exists_publish_singleton (id : PatternId) (routeId : RouteId) (isSynthesized : Bool)
    {stops : List StopId} (h : b.stopCount = stops.length) :
    ∃ p, (publish id routeId stops [b] isSynthesized).run = .ok (.ok p) := by
  have hpublish := Timetable.publish_singleton id h
  obtain ⟨t, ht⟩ := (Timetable.Reachable.published hpublish).intact.exists_finish
  refine ⟨⟨id, routeId, t, true, isSynthesized, 0⟩, ?_⟩
  rw [publish, hpublish, Attempt.mk_ok_bind]
  exact Attempt.lift_bind_eq_ok_iff.mpr ⟨t, ht, rfl⟩

/-- A trip that calls at the stops of the pattern can be put in. -/
theorem WellFormed.exists_withTrip (hp : p.WellFormed) (hcount : b.stopCount = p.stops.length) :
    ∃ p', (p.withTrip b).run = .ok (.ok p') := by
  have hinsert := Timetable.insert_eq hcount
  have hstops := Timetable.stops_of_insert hinsert
  obtain ⟨t, ht⟩ := Timetable.exists_finish_of_asPublished (Timetable.index_of_insert hinsert)
    fun r hr => by
      rcases Timetable.mem_rows_of_insert hinsert hr with hold | rfl
      · exact ⟨hp.asPublished r hold,
          (hp.stopCount_eq r hold).trans (congrArg List.length hstops.symm)⟩
      · exact ⟨rfl, hcount.trans (congrArg List.length hstops.symm)⟩
  exact ⟨_, withTrip_eq_ok_iff.mpr ⟨_, t, hinsert, ht, rfl⟩⟩

/-- Any trip can be taken out. -/
theorem Made.exists_withoutTrip (h : p.Made) (trip : TripId) :
    ∃ p', p.withoutTrip trip = .ok p' := by
  obtain ⟨t, ht⟩ := (h.intact.remove trip).exists_finish
  exact ⟨_, Checked.bind_eq_ok_iff.mpr ⟨t, ht, rfl⟩⟩

end Pattern

end LiveTimetable
