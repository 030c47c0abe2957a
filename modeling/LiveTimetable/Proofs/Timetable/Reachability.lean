import LiveTimetable.Proofs.Network.Revisions
import LiveTimetable.Proofs.Times.Intact

/-!
# Timetables through their changes

A timetable is **intact** if all of its times can be read, each trip calls at the stops of the
timetable, and a stop index that is there is the one that would be built now. Each operation keeps
a timetable intact: one that changes the trips drops the index, and a copy for a date keeps it.

* `Timetable.Step`: one operation that succeeds.
* `Timetable.Reachable`: a published timetable after any number of operations.
* `Timetable.Reachable.intact`: reachable timetables are intact.
-/

namespace LiveTimetable.Timetable

/-- All times can be read and are told over the published ones, all trips call at the stops, and
the stop index is not stale. -/
structure Intact (t : Timetable) : Prop where
  current : ∀ r ∈ t.rows, r.current.Intact
  baseline_eq : ∀ r ∈ t.rows, r.current.baseline = r.published
  stopCount_eq : ∀ r ∈ t.rows, r.current.stopCount = t.stops.length
  fresh : ∀ index, t.index = some index → t.buildIndex = .ok index

/-- One operation on a timetable that succeeds. -/
inductive Step : Timetable → Timetable → Prop
  | inserted {t t' : Timetable} {b : Baseline} (h : t.insert b = .ok t') : Step t t'
  | removed (t : Timetable) (trip : TripId) : Step t (t.remove trip)
  | dated (t : Timetable) (date : ServiceDate) : Step t (t.forDate date)
  | finished {t t' : Timetable} (h : t.finish = .ok t') : Step t t'
  | retimed {t : Timetable} {u : TripUpdate} {recovery : Recovery} {i : Nat} {times : TripTimes}
      (h : (t.reconcile u recovery).run = .ok (.ok (i, times))) : Step t (t.setTimes i times)

/-- A published timetable after any number of operations. -/
inductive Reachable : Timetable → Prop
  | published {pattern : PatternId} {stops : List StopId} {trips : List Baseline} {t : Timetable}
      (h : publish pattern stops trips = .ok t) : Reachable t
  | step {t t' : Timetable} (h : Reachable t) (hstep : Step t t') : Reachable t'

variable {t t' : Timetable} {b : Baseline}

/-! ## The stop index -/

theorem index_of_insert (h : t.insert b = .ok t') : t'.index = none := by
  rw [insert_eq (stopCount_of_insert h)] at h
  cases h
  rfl

theorem isFinished_of_finish (h : t.finish = .ok t') : t'.isFinished = true := by
  unfold finish at h
  split at h
  · rename_i index hindex
    cases h
    unfold isFinished
    rw [hindex]
    rfl
  · obtain ⟨index, -, h⟩ := Checked.bind_eq_ok_iff.mp h
    cases h
    rfl

/-! ## Operations -/

/-- Without a stop index there is none that could be stale. -/
theorem intact_of_index_eq_none (hindex : t.index = none)
    (hrows : ∀ r ∈ t.rows, r.current.Intact ∧ r.current.baseline = r.published ∧
      r.current.stopCount = t.stops.length) : t.Intact := by
  refine ⟨fun r hr => (hrows r hr).1, fun r hr => (hrows r hr).2.1, fun r hr => (hrows r hr).2.2,
    fun index h => ?_⟩
  rw [hindex] at h
  cases h

theorem Intact.insert (ht : t.Intact) (h : t.insert b = .ok t') : t'.Intact := by
  refine intact_of_index_eq_none (index_of_insert h) fun r hr => ?_
  rw [stops_of_insert h]
  rcases mem_rows_of_insert h hr with hold | rfl
  · exact ⟨ht.current r hold, ht.baseline_eq r hold, ht.stopCount_eq r hold⟩
  · exact ⟨TripTimes.intact_scheduled b, rfl, stopCount_of_insert h⟩

theorem Intact.remove (ht : t.Intact) (trip : TripId) : (t.remove trip).Intact := by
  cases hposition : t.position? trip with
  | none =>
    have hsame : t.remove trip = t := by
      unfold Timetable.remove
      rw [hposition]
    rw [hsame]
    exact ht
  | some i =>
    have hindex : (t.remove trip).index = none := by
      unfold Timetable.remove
      rw [hposition]
    refine intact_of_index_eq_none hindex fun r hr => ?_
    rw [remove_rows] at hr
    have hold := List.mem_of_mem_eraseP hr
    rw [remove_stops]
    exact ⟨ht.current r hold, ht.baseline_eq r hold, ht.stopCount_eq r hold⟩

/-- A copy for a date has the same trips, and the same stop index. -/
theorem Intact.forDate (ht : t.Intact) (date : ServiceDate) : (t.forDate date).Intact :=
  ⟨ht.current, ht.baseline_eq, ht.stopCount_eq, ht.fresh⟩

theorem Intact.finish (ht : t.Intact) (h : t.finish = .ok t') : t'.Intact := by
  unfold Timetable.finish at h
  split at h
  · cases h
    exact ht
  · obtain ⟨index, hindex, h⟩ := Checked.bind_eq_ok_iff.mp h
    cases h
    refine ⟨ht.current, ht.baseline_eq, ht.stopCount_eq, fun index' h => ?_⟩
    cases h
    exact hindex

/-- Times that an update leads to can be read as well. -/
theorem Intact.retime {u : TripUpdate} {recovery : Recovery} {i : Nat} {times : TripTimes}
    (ht : t.Intact) (h : (t.reconcile u recovery).run = .ok (.ok (i, times))) :
    (t.setTimes i times).Intact := by
  obtain ⟨row, r, hrow, -, hr, rfl⟩ := reconcile_spec h
  have hmem := List.mem_of_getElem? hrow
  refine intact_of_index_eq_none rfl fun q hq => ?_
  rcases mem_rows_setTimes hq with hold | ⟨row', hrow', rfl⟩
  · exact ⟨ht.current q hold, ht.baseline_eq q hold, ht.stopCount_eq q hold⟩
  · obtain rfl := Option.some.inj (hrow.symm.trans hrow')
    have hbase := ht.baseline_eq row hmem
    have hbase' := (TripTimes.reconcile_isIncreasing hbase hr).1
    refine ⟨(ht.current row hmem).reconcile hr, hbase', ?_⟩
    exact (congrArg Baseline.stopCount (hbase'.trans hbase.symm)).trans (ht.stopCount_eq row hmem)

/-- **Each operation keeps a timetable intact.** -/
theorem Step.intact (h : Step t t') (ht : t.Intact) : t'.Intact := by
  cases h with
  | inserted h => exact ht.insert h
  | removed trip => exact ht.remove trip
  | dated date => exact ht.forDate date
  | finished h => exact ht.finish h
  | retimed h => exact ht.retime h

theorem intact_publish {pattern : PatternId} {stops : List StopId} {trips : List Baseline}
    (h : publish pattern stops trips = .ok t) : t.Intact := by
  suffices hnew : ∀ {bs : List Baseline} {t t' : Timetable}, insertNew bs t = .ok t' →
      t.Intact → t'.Intact from
    hnew h (intact_of_index_eq_none rfl fun r hr => absurd hr List.not_mem_nil)
  intro bs
  induction bs with
  | nil =>
    intro t t' h ht
    cases h
    exact ht
  | cons b rest ih =>
    intro t t' h ht
    unfold insertNew at h
    split at h
    · cases h
    · cases hmid : t.insert b with
      | error e =>
        rw [hmid] at h
        cases h
      | ok mid =>
        rw [hmid] at h
        exact ih h (ht.insert hmid)

/-- **Reachable timetables are intact.** -/
theorem Reachable.intact (h : t.Reachable) : t.Intact := by
  induction h with
  | published h => exact intact_publish h
  | step _ hstep ih => exact hstep.intact ih

end LiveTimetable.Timetable
