import LiveTimetable.Proofs.Live.Tracking
import LiveTimetable.Proofs.Publication.Editing

/-!
# An update is read, then carried out

To apply an update takes two steps. The first one reads the state and comes to a **verdict**; it
looks at the trip of the update and at no other (`Updater.verdict`). The second one writes what the
verdict says (`Updater.carryOut`).

* `Updater.apply_eq`: in a consistent state whose buffer is on track, applying is one step after the
  other.
* `Updater.Spares.verdict_eq`: a change that spares the trip leaves the verdict.
-/

namespace LiveTimetable

namespace TripUpdate

/-- Whether the update takes its trip out, if that is an added one. -/
def isWithdrawal (u : TripUpdate) : Bool :=
  match u.status with
  | .canceled | .removed => true
  | .added | .modified => false

/-- The update as its trip is reconciled with it, or why it cannot be used. New times are cleared,
and must be coherent then. -/
def screened (u : TripUpdate) : Checked (Except ApplyError TripUpdate) :=
  if u.isWithdrawal then .ok (.ok u)
  else
    let u := u.filter .all
    if u.patches.isEmpty then .ok (.error (.emptyAfterFilter u.tripId))
    else do
      if ← u.isCoherent then return .ok u else return .error (.incoherent u.tripId)

/-- The refusal of an update whose trip has no pattern. -/
def unknownTrip (u : TripUpdate) : ApplyError :=
  if u.isRemoval then .notAdded u.tripId else .unknownPattern u.tripId

end TripUpdate

/-- What an update comes to. -/
inductive Verdict where
  | refused (error : ApplyError)
  /-- The trip gets other times, in the timetable of its pattern. -/
  | retimed (times : TripTimes)
  /-- The trip is an added one, and goes. -/
  | withdrawn
  /-- The trip is new. -/
  | entered (zone : Zone) (stopTimes : List StopTime)

namespace Updater

/-- The current times of a trip on a date, in the timetable by which its pattern runs. -/
def current? (s : Updater) (trip : TripId) (date : ServiceDate) : Option TripTimes :=
  (s.index.patternForTrip? trip).bind fun p => (s.buffer.resolve p date).current? trip

/-- What an update comes to that is reconciled with the times of its trip. -/
def reading (s : Updater) (u : TripUpdate) : Checked Verdict :=
  match s.index.patternForTrip? u.tripId, s.current? u.tripId u.date with
  | none, _ => .ok (.refused u.unknownTrip)
  | some _, none => .ok (.refused (.reconcile (.tripNotInPattern u.tripId)))
  | some p, some times => do
    match ← (times.reconcile times.baseline p.stops u s.buffer.recovery).run with
    | .error e => return .refused (.reconcile e)
    | .ok r => return .retimed r.times

/-- What an update comes to. -/
def verdict (s : Updater) (u : TripUpdate) : Checked Verdict :=
  if u.isWithdrawal && s.added.contains u.tripId then .ok .withdrawn
  else if u.status = .added ∧ s.index.patternForTrip? u.tripId = none then
    match admitted s.index (u.filter .all) with
    | .error e => .ok (.refused e)
    | .ok (zone, stopTimes) => .ok (.entered zone stopTimes)
  else do
    match ← u.screened with
    | .error e => return .refused e
    | .ok u => s.reading u

/-- The state with other times for a trip on a date, if the trip has a pattern. -/
def retime (s : Updater) (trip : TripId) (date : ServiceDate) (times : TripTimes) : Updater :=
  match s.index.patternForTrip? trip with
  | none => s
  | some p => s.setBuffer (s.buffer.retime p date trip times)

/-- Writes what a verdict says. -/
def carryOut (s : Updater) (u : TripUpdate) :
    Verdict → Checked (Updater × Except ApplyError Unit)
  | .refused e => .ok (s, .error e)
  | .retimed times => .ok (s.retime u.tripId u.date times, .ok ())
  | .withdrawn => s.withdraw u.tripId
  | .entered zone stopTimes => s.enter (u.filter .all) zone stopTimes

end Updater

/-! ## Applying -/

namespace Updater

variable {s s' : Updater} {u : TripUpdate} {p : Pattern} {trip : TripId}

/-- The timetable by which a pattern runs has the trips of the pattern. -/
theorem Tracks.trips_buffer_resolve (ht : s.Tracks) (hp : s.index.patterns.get? p.id = some p)
    (date : ServiceDate) : (s.buffer.resolve p date).trips = p.trips := by
  unfold Buffer.resolve Buffer.get?
  cases hheld : s.buffer.timetables.get? ⟨p.id, date⟩ with
  | none => rfl
  | some held =>
    obtain ⟨q, hq, htracks⟩ := ht _ held hheld
    rw [hp] at hq
    cases hq
    exact htracks.trips_eq

/-- The current times there are told over the published ones. -/
theorem Tracks.baseline_buffer_resolve (ht : s.Tracks) (hwf : p.WellFormed) (date : ServiceDate) :
    ∀ r ∈ (s.buffer.resolve p date).rows, r.current.baseline = r.published := by
  unfold Buffer.resolve Buffer.get?
  cases hheld : s.buffer.timetables.get? ⟨p.id, date⟩ with
  | none =>
    intro r hr
    rw [hwf.asPublished r hr]
    rfl
  | some held =>
    obtain ⟨q, -, htracks⟩ := ht _ held hheld
    exact htracks.baseline_eq

theorem Consistent.stops_draft (hs : s.Consistent) (hp : s.index.patterns.get? p.id = some p)
    (date : ServiceDate) : (s.buffer.draft p date).stops = p.stops := by
  unfold Buffer.draft Buffer.get?
  cases hheld : s.buffer.timetables.get? ⟨p.id, date⟩ with
  | none => rfl
  | some held =>
    obtain ⟨q, hq, hstops⟩ := hs.buffered _ held hheld
    rw [hp] at hq
    cases hq
    exact hstops

/-- **A trip that the index knows is in the timetable by which its pattern runs.** -/
theorem Tracks.exists_current? (ht : s.Tracks) (hs : s.Consistent)
    (hp : s.index.patternForTrip? trip = some p) (date : ServiceDate) :
    ∃ times, (s.buffer.resolve p date).current? trip = some times := by
  refine Option.ne_none_iff_exists'.mp fun hnone => ?_
  rw [Timetable.current?_eq_none_iff,
    ht.trips_buffer_resolve (get?_of_patternForTrip? hs hp)] at hnone
  exact hnone (hs.index.mem_trips_of_patternForTrip? hp)

theorem current?_eq (hp : s.index.patternForTrip? trip = some p) (date : ServiceDate) :
    s.current? trip date = (s.buffer.resolve p date).current? trip := by
  rw [current?, hp, Option.bind_some]

theorem updateBuffer_eq (hs : s.Consistent) (ht : s.Tracks)
    (hp : s.index.patternForTrip? u.tripId = some p) :
    s.updateBuffer p u = s.reading u >>= s.carryOut u := by
  have hget := get?_of_patternForTrip? hs hp
  obtain ⟨times, htimes⟩ := ht.exists_current? hs hp u.date
  have hnodup : (s.buffer.resolve p u.date).trips.Nodup := by
    rw [ht.trips_buffer_resolve hget]
    exact (hs.index.pattern _ p hget).nodup
  have hbase := ht.baseline_buffer_resolve (hs.index.pattern _ p hget) u.date
  unfold updateBuffer reading
  rw [Buffer.update_run_eq hnodup hbase (hs.stops_draft hget u.date) htimes, current?_eq hp,
    htimes, hp]
  simp only []
  rcases (times.reconcile times.baseline p.stops u s.buffer.recovery).run with fault | _ | r
  · rfl
  · rfl
  · show Except.ok (s.setBuffer _, Except.ok ()) = Except.ok (s.retime u.tripId u.date r.times, _)
    rw [retime, hp]

/-- What has no pattern is refused. -/
theorem reading_of_none (hp : s.index.patternForTrip? u.tripId = none) :
    s.reading u = .ok (.refused u.unknownTrip) := by
  unfold reading
  rw [hp]

/-- New times are screened, and then reconciled with the trip. -/
theorem modify_eq (hs : s.Consistent) (ht : s.Tracks) (h : u.isWithdrawal = false) :
    s.modify u = (do
      match ← u.screened with
      | .error e => return .refused e
      | .ok u => s.reading u) >>= s.carryOut u := by
  have hnot : (u.filter .all).isRemoval = false := by
    show (u.status == TripStatus.removed) = false
    cases hstatus : u.status <;> simp_all [TripUpdate.isWithdrawal]
  unfold modify TripUpdate.screened
  rw [h]
  simp only [Bool.false_eq_true, if_false]
  split
  · rfl
  · rcases (u.filter .all).isCoherent with fault | _ | _
    · rfl
    · rfl
    · simp only [Checked.ok_bind, Checked.pure_eq_ok, if_true]
      cases hp : s.index.patternForTrip? (u.filter .all).tripId with
      | none =>
        rw [reading_of_none hp, TripUpdate.unknownTrip, hnot]
        rfl
      | some p => exact updateBuffer_eq hs ht hp

/-- A trip of the schedule is reconciled with its cancellation, or its removal, as it is. -/
theorem screened_of_withdrawal (h : u.isWithdrawal = true) : u.screened = .ok (.ok u) := by
  unfold TripUpdate.screened
  rw [if_pos h]

/-- **To apply an update is to come to a verdict and to carry it out.** -/
theorem apply_eq (hs : s.Consistent) (ht : s.Tracks) (u : TripUpdate) :
    s.apply u = s.verdict u >>= s.carryOut u := by
  have hknown : s.added.contains u.tripId = true → s.index.patternForTrip? u.tripId ≠ none := by
    intro hadded hnone
    unfold AddedTrips.contains Table.contains at hadded
    rw [hs.get?_trips_eq_none hnone] at hadded
    cases hadded
  have hnot : u.status = .added ∨ u.status = .modified → u.isWithdrawal = false := by
    rintro (hstatus | hstatus) <;> rw [TripUpdate.isWithdrawal, hstatus]
  have hyes : u.status = .canceled ∨ u.status = .removed → u.isWithdrawal = true := by
    rintro (hstatus | hstatus) <;> rw [TripUpdate.isWithdrawal, hstatus]
  unfold apply verdict
  split
  · rename_i hstatus hadded
    rw [hnot (Or.inl hstatus), Bool.false_and, if_neg Bool.false_ne_true]
    unfold add
    cases hp : s.index.patternForTrip? u.tripId with
    | none =>
      rw [Option.isSome_none, if_neg Bool.false_ne_true, if_pos ⟨hstatus, rfl⟩]
      simp only []
      rcases admitted s.index (u.filter .all) with e | ⟨zone, stopTimes⟩ <;> rfl
    | some p =>
      rw [Option.isSome_some, if_pos rfl, if_neg fun h => Option.some_ne_none p h.2]
      exact modify_eq hs ht (hnot (Or.inl hstatus))
  · rename_i hstatus hadded
    rw [hnot (Or.inl hstatus), Bool.false_and, if_neg Bool.false_ne_true,
      if_neg fun h => hknown hadded h.2]
    exact modify_eq hs ht (hnot (Or.inl hstatus))
  · rename_i hstatus
    rw [hnot (Or.inr hstatus), Bool.false_and, if_neg Bool.false_ne_true,
      if_neg fun h => TripStatus.noConfusion (hstatus.symm.trans h.1)]
    exact modify_eq hs ht (hnot (Or.inr hstatus))
  · rename_i hstatus hadded
    rw [hyes (Or.inl hstatus), hadded, Bool.and_true, if_pos rfl]
    rfl
  · rename_i hstatus hadded
    rw [hyes (Or.inr hstatus), hadded, Bool.and_true, if_pos rfl]
    rfl
  · rename_i hstatus hadded
    rw [hadded, Bool.and_false, if_neg Bool.false_ne_true,
      if_neg fun h => TripStatus.noConfusion (hstatus.symm.trans h.1),
      screened_of_withdrawal (hyes (Or.inl hstatus))]
    unfold cancel
    cases hp : s.index.patternForTrip? u.tripId with
    | none =>
      simp only [Checked.ok_bind, reading_of_none hp, carryOut, TripUpdate.unknownTrip,
        TripUpdate.isRemoval, hstatus]
      rfl
    | some p => exact updateBuffer_eq hs ht hp
  · rename_i hstatus hadded
    rw [hadded, Bool.and_false, if_neg Bool.false_ne_true,
      if_neg fun h => TripStatus.noConfusion (hstatus.symm.trans h.1),
      screened_of_withdrawal (hyes (Or.inr hstatus))]
    unfold revert
    cases hp : s.index.patternForTrip? u.tripId with
    | none =>
      simp only [Checked.ok_bind, reading_of_none hp, carryOut, TripUpdate.unknownTrip,
        TripUpdate.isRemoval, hstatus]
      rfl
    | some p => exact updateBuffer_eq hs ht hp

/-! ## Verdicts on added trips -/

theorem reading_eq_ok {v : Verdict} (h : s.reading u = .ok v) :
    (∃ e, v = .refused e) ∨ ∃ times, v = .retimed times := by
  unfold reading at h
  split at h
  · exact Or.inl ⟨_, (Except.ok.inj h).symm⟩
  · exact Or.inl ⟨_, (Except.ok.inj h).symm⟩
  · obtain ⟨result, -, h⟩ := Checked.bind_eq_ok_iff.mp h
    split at h
    · exact Or.inl ⟨_, (Except.ok.inj h).symm⟩
    · exact Or.inr ⟨_, (Except.ok.inj h).symm⟩

/-- A verdict that comes from the times of the trip refuses the update or gives the trip times. -/
theorem verdict_cases {v : Verdict} (h : s.verdict u = .ok v) :
    (∃ e, v = .refused e) ∨ (∃ times, v = .retimed times) ∨
      (v = .withdrawn ∧ u.isWithdrawal = true ∧ s.added.contains u.tripId = true) ∨
      ∃ zone stopTimes, v = .entered zone stopTimes ∧ u.status = .added ∧
        s.index.patternForTrip? u.tripId = none ∧
        admitted s.index (u.filter .all) = .ok (zone, stopTimes) := by
  unfold verdict at h
  split at h
  · rename_i hwithdrawal
    obtain ⟨hu, hadded⟩ := (Bool.and_eq_true _ _).mp hwithdrawal
    exact Or.inr (Or.inr (Or.inl ⟨(Except.ok.inj h).symm, hu, hadded⟩))
  · split at h
    · rename_i hnew
      split at h
      · exact Or.inl ⟨_, (Except.ok.inj h).symm⟩
      · rename_i zone stopTimes hadmitted
        exact Or.inr (Or.inr (Or.inr ⟨zone, stopTimes, (Except.ok.inj h).symm, hnew.1, hnew.2,
          hadmitted⟩))
    · obtain ⟨screened, -, h⟩ := Checked.bind_eq_ok_iff.mp h
      split at h
      · exact Or.inl ⟨_, (Except.ok.inj h).symm⟩
      · rcases reading_eq_ok h with hrefused | hretimed
        · exact Or.inl hrefused
        · exact Or.inr (Or.inl hretimed)

/-! ## Other trips -/

/-- The change from `s` to `s'` spares a trip: both tell the same of it, and of the schedule. -/
structure Spares (s : Updater) (trip : TripId) (s' : Updater) : Prop where
  agencies_eq : s'.index.agencies = s.index.agencies
  stops_eq : s'.index.stops = s.index.stops
  recovery_eq : s'.buffer.recovery = s.buffer.recovery
  contains_eq : s'.added.contains trip = s.added.contains trip
  patternId_eq : (s'.index.patternForTrip? trip).map Pattern.id =
    (s.index.patternForTrip? trip).map Pattern.id
  patternStops_eq : (s'.index.patternForTrip? trip).map Pattern.stops =
    (s.index.patternForTrip? trip).map Pattern.stops
  current?_eq : ∀ date, s'.current? trip date = s.current? trip date

theorem Spares.refl (s : Updater) (trip : TripId) : s.Spares trip s :=
  ⟨rfl, rfl, rfl, rfl, rfl, rfl, fun _ => rfl⟩

/-- The stop times of an added trip depend on the stops that are known. -/
theorem stopTimesOf_congr {x x' : TransitIndex} (h : x'.stops = x.stops) (trip : TripId) :
    ∀ (sequence : Nat) (patches : List StopPatch),
      stopTimesOf x' trip sequence patches = stopTimesOf x trip sequence patches
  | _, [] => rfl
  | sequence, p :: rest => by
    have hone : stopTimeOf x' trip sequence p = stopTimeOf x trip sequence p := by
      unfold stopTimeOf
      rw [h]
    rw [stopTimesOf, stopTimesOf, hone, stopTimesOf_congr h trip (sequence + 1) rest]

theorem Spares.patternForTrip?_eq_none_iff (h : s.Spares trip s') :
    s'.index.patternForTrip? trip = none ↔ s.index.patternForTrip? trip = none := by
  rw [← Option.map_eq_none_iff (f := Pattern.stops), h.patternStops_eq, Option.map_eq_none_iff]

/-- What is read of a trip is what it was. -/
theorem Spares.reading_eq (h : s.Spares u.tripId s') : s'.reading u = s.reading u := by
  unfold reading
  rw [h.current?_eq, h.recovery_eq]
  cases hp : s.index.patternForTrip? u.tripId with
  | none => rw [h.patternForTrip?_eq_none_iff.mpr hp]
  | some p =>
    have hstops := h.patternStops_eq
    rw [hp] at hstops
    obtain ⟨p', hp', hsame⟩ := Option.map_eq_some_iff.mp hstops
    rw [hp']
    cases s.current? u.tripId u.date with
    | none => rfl
    | some times =>
      simp only []
      rw [hsame]

/-- Screening leaves an update to its trip. -/
theorem tripId_of_screened {v : TripUpdate} (h : u.screened = .ok (.ok v)) :
    v.tripId = u.tripId := by
  unfold TripUpdate.screened at h
  split at h
  · cases h
    rfl
  · simp only [] at h
    split at h
    · cases h
    · obtain ⟨coherent, -, h⟩ := Checked.bind_eq_ok_iff.mp h
      split at h
      · cases h
        rfl
      · cases h

/-- **A change that spares a trip leaves the verdict on its updates.** -/
theorem Spares.verdict_eq (h : s.Spares u.tripId s') : s'.verdict u = s.verdict u := by
  have hadmitted : admitted s'.index (u.filter .all) = admitted s.index (u.filter .all) := by
    unfold admitted
    simp only [h.agencies_eq, stopTimesOf_congr h.stops_eq]
  unfold verdict
  rw [h.contains_eq, hadmitted]
  simp only [h.patternForTrip?_eq_none_iff]
  rcases hscreened : u.screened with fault | e | v
  · rfl
  · rfl
  · have hspares : s.Spares v.tripId s' := (tripId_of_screened hscreened).symm ▸ h
    simp only [Checked.ok_bind, hspares.reading_eq]

end Updater

end LiveTimetable
