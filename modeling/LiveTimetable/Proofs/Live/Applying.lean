import LiveTimetable.Proofs.Live.Consistency
import LiveTimetable.Proofs.Network.Answers

/-!
# Applying an update is one change, or none

In a consistent state an update is either refused, and nothing has changed, or applied, and that is
one change (`Updater.apply_spec`). The steps of an addition or a withdrawal that could still be
refused after the first write never are (`Updater.enter_cases`, `Updater.withdraw_spec`).
-/

namespace LiveTimetable.Updater

variable {s s' : Updater} {u : TripUpdate} {r : Except ApplyError Unit} {p : Pattern}
  {trip : TripId} {stopTimes : List StopTime}

/-- An update was refused without effect, and added no trip, or was one change. -/
def Outcome (s : Updater) (entry : Option Baseline) (s' : Updater) (r : Except ApplyError Unit) :
    Prop :=
  ((∃ e, r = .error e) ∧ entry = none ∧ s' = s) ∨ r = .ok () ∧ Change s entry s'

/-- The publication of the trip that an update adds, if it adds one. -/
def newTrip? (s : Updater) (u : TripUpdate) : Option Baseline :=
  if u.status = .added ∧ s.added.contains u.tripId = false ∧
      s.index.patternForTrip? u.tripId = none then
    match admitted s.index (u.filter .all) with
    | .ok (_, stopTimes) => some (s.graph.publication (addedTrip (u.filter .all)) stopTimes)
    | .error _ => none
  else none

/-! ## Trips that have a pattern -/

theorem updateBuffer_spec (hp : s.index.patterns.get? p.id = some p)
    (h : s.updateBuffer p u = .ok (s', r)) : Outcome s none s' r := by
  obtain ⟨result, hrun, hlast⟩ := Checked.bind_eq_ok_iff.mp h
  cases result with
  | ok b =>
    cases hlast
    exact Or.inr ⟨rfl, .retimed hp hrun⟩
  | error e =>
    cases hlast
    exact Or.inl ⟨⟨_, rfl⟩, rfl, rfl⟩

theorem get?_of_patternForTrip? (hs : s.Consistent) (h : s.index.patternForTrip? trip = some p) :
    s.index.patterns.get? p.id = some p :=
  (hs.index.patternForTrip?_eq_some_iff.mp h).2

theorem modify_spec (hs : s.Consistent) (h : s.modify u = .ok (s', r)) : Outcome s none s' r := by
  unfold modify at h
  simp only [] at h
  split at h
  · cases h
    exact Or.inl ⟨⟨_, rfl⟩, rfl, rfl⟩
  · obtain ⟨coherent, -, h⟩ := Checked.bind_eq_ok_iff.mp h
    split at h
    · split at h
      · cases h
        exact Or.inl ⟨⟨_, rfl⟩, rfl, rfl⟩
      · rename_i p hp
        exact updateBuffer_spec (get?_of_patternForTrip? hs hp) h
    · cases h
      exact Or.inl ⟨⟨_, rfl⟩, rfl, rfl⟩

theorem cancel_spec (hs : s.Consistent) (h : s.cancel u = .ok (s', r)) : Outcome s none s' r := by
  unfold cancel at h
  split at h
  · cases h
    exact Or.inl ⟨⟨_, rfl⟩, rfl, rfl⟩
  · rename_i p hp
    exact updateBuffer_spec (get?_of_patternForTrip? hs hp) h

theorem revert_spec (hs : s.Consistent) (h : s.revert u = .ok (s', r)) : Outcome s none s' r := by
  unfold revert at h
  split at h
  · cases h
    exact Or.inl ⟨⟨_, rfl⟩, rfl, rfl⟩
  · rename_i p hp
    exact updateBuffer_spec (get?_of_patternForTrip? hs hp) h

/-! ## Adding -/

theorem stopTimesOf_ne_nil {x : TransitIndex} {sequence : Nat} {patch : StopPatch}
    {rest : List StopPatch} (h : stopTimesOf x trip sequence (patch :: rest) = .ok stopTimes) :
    stopTimes ≠ [] := by
  unfold stopTimesOf at h
  cases hfirst : stopTimeOf x trip sequence patch with
  | error e =>
    rw [hfirst] at h
    cases h
  | ok first =>
    cases hrest : stopTimesOf x trip (sequence + 1) rest with
    | error e =>
      rw [hfirst, hrest] at h
      cases h
    | ok others =>
      rw [hfirst, hrest] at h
      cases h
      exact List.cons_ne_nil _ _

/-- A trip that can be added calls somewhere. -/
theorem stopTimes_ne_nil_of_admitted {x : TransitIndex} {zone : Zone}
    (h : admitted x u = .ok (zone, stopTimes)) : stopTimes ≠ [] := by
  unfold admitted at h
  split at h
  · cases h
  · rename_i hne
    split at h
    · cases h
    · cases hpatches : u.patches with
      | nil =>
        rw [hpatches] at hne
        exact absurd rfl hne
      | cons patch rest =>
        cases hstops : stopTimesOf x u.tripId 0 u.patches with
        | error e =>
          rw [hstops] at h
          cases h
        | ok found =>
          rw [hstops] at h
          cases h
          exact stopTimesOf_ne_nil (hpatches ▸ hstops)

/-- **A trip with stop times that the index does not know is added**, and nothing is refused on the
way: it enters the pattern of its course, which the index, the books and the buffer take up. -/
theorem enter_cases (hs : s.Consistent) {zone : Zone}
    (hnew : s.index.patternForTrip? u.tripId = none) (hne : stopTimes ≠ [])
    (h : s.enter u zone stopTimes = .ok (s', r)) : r = .ok () ∧
      ∃ made graph b changed,
        { s.graph with services :=
          s.graph.services.register (addedTrip u).serviceId zone [u.date] }.Enters
            (s.graph.publication (addedTrip u) stopTimes) made graph ∧
        made.pattern.stops = stopTimes.map StopTime.stopId ∧
        s.buffer.sync made.pattern = (b, .ok changed) ∧
        s' = { s with
          graph
          index := s.index.register made.pattern
          added := s.added.insert u.tripId u.date made }.setBuffer b := by
  obtain ⟨⟨graph, result⟩, hadd, hlast⟩ := Checked.bind_eq_ok_iff.mp h
  have hg := hs.graph.setServices
    (s.graph.services.register (addedTrip u).serviceId zone [u.date])
  obtain ⟨made, rfl, henters, hstops⟩ := Graph.addTrip_spec hg hne (fun y hy hmem =>
    hs.index.not_mem_of_patternForTrip?_eq_none hnew (hs.agrees.indexed y hy)
      (hs.graph.sound y hy).isSynthesized hmem) hadd
  obtain ⟨b, changed, hsync, -⟩ := hs.sync_spec henters.sound henters.id_eq
  have hbuffer : ({ s with graph := { s.graph with
      services := s.graph.services.register (addedTrip u).serviceId zone [u.date] } } :
        Updater).buffer.sync made.pattern = (b, .ok changed) := hsync
  simp only [hbuffer] at hlast
  cases hlast
  exact ⟨rfl, made, graph, b, changed, henters, hstops, hsync, rfl⟩

theorem enter_spec (hs : s.Consistent) {zone : Zone}
    (hnew : s.index.patternForTrip? u.tripId = none) (hne : stopTimes ≠ [])
    (h : s.enter u zone stopTimes = .ok (s', r)) :
    r = .ok () ∧ Change s (some (s.graph.publication (addedTrip u) stopTimes)) s' := by
  obtain ⟨rfl, made, graph, b, changed, henters, -, hsync, rfl⟩ := enter_cases hs hnew hne h
  exact ⟨rfl, .entered u.date hnew henters hsync⟩

/-- The only thing that can keep a trip from being entered is that it needs a new pattern and there
is no number for it. -/
theorem exists_enter (hs : s.Consistent) (zone : Zone) (hne : stopTimes ≠ [])
    (hroom : s.graph.synthesized.get? (.of (addedTrip u) stopTimes) = none →
      s.graph.nextPattern + 1 < 4294967296) :
    ∃ s' r, s.enter u zone stopTimes = .ok (s', r) := by
  have hg := hs.graph.setServices
    (s.graph.services.register (addedTrip u).serviceId zone [u.date])
  obtain ⟨made, graph, hadd⟩ := Graph.exists_addTrip (fun y hget =>
    have hkeeps := hg.keeps_of_get? hget
    ⟨hg.course_eq (.of (addedTrip u) stopTimes) y hget, (hg.sound y hkeeps).wellFormed⟩) hne hroom
  unfold enter
  simp only [hadd, Checked.ok_bind]
  exact ⟨_, _, rfl⟩

theorem enter_of_exhausted (zone : Zone) (hne : stopTimes ≠ [])
    (hget : s.graph.synthesized.get? (.of (addedTrip u) stopTimes) = none)
    (hids : ¬ s.graph.nextPattern + 1 < 4294967296) :
    s.enter u zone stopTimes = .error .overflow := by
  have hadd : ({ s.graph with
      services := s.graph.services.register (addedTrip u).serviceId zone [u.date] } : Graph).addTrip
        (addedTrip u) stopTimes = .error .overflow :=
    Graph.addTrip_of_exhausted hne hget hids
  unfold enter
  simp only [hadd]
  rfl

/-- An update that adds a trip which is not there is admitted and entered, or refused. -/
theorem apply_eq_of_new (hstatus : u.status = .added) (hadded : s.added.contains u.tripId = false)
    (hnew : s.index.patternForTrip? u.tripId = none) :
    s.apply u = match admitted s.index (u.filter .all) with
      | .error e => .ok (s, .error e)
      | .ok (zone, stopTimes) => s.enter (u.filter .all) zone stopTimes := by
  have hunknown : ¬ (s.index.patternForTrip? u.tripId).isSome = true := by
    rw [hnew]
    exact Bool.false_ne_true
  unfold apply
  rw [hstatus, hadded]
  exact if_neg hunknown

theorem newTrip?_eq (hstatus : u.status = .added) (hadded : s.added.contains u.tripId = false)
    (hnew : s.index.patternForTrip? u.tripId = none) {zone : Zone}
    (hadmitted : admitted s.index (u.filter .all) = .ok (zone, stopTimes)) :
    s.newTrip? u = some (s.graph.publication (addedTrip (u.filter .all)) stopTimes) := by
  unfold newTrip?
  rw [if_pos ⟨hstatus, hadded, hnew⟩, hadmitted]

theorem add_spec (hs : s.Consistent) (hstatus : u.status = .added)
    (hadded : s.added.contains u.tripId = false) (h : s.add u = .ok (s', r)) :
    Outcome s (s.newTrip? u) s' r := by
  unfold add at h
  split at h
  · rename_i hknown
    have hnone : s.newTrip? u = none := if_neg fun hcond => by
      rw [hcond.2.2] at hknown
      cases hknown
    rw [hnone]
    exact modify_spec hs h
  · rename_i hunknown
    have hnew : s.index.patternForTrip? u.tripId = none := by
      rw [← Option.not_isSome_iff_eq_none]
      exact hunknown
    simp only [] at h
    split at h
    · rename_i e hadmitted
      cases h
      refine Or.inl ⟨⟨_, rfl⟩, ?_, rfl⟩
      unfold newTrip?
      rw [if_pos ⟨hstatus, hadded, hnew⟩, hadmitted]
    · rename_i zone stopTimes hadmitted
      rw [newTrip?_eq hstatus hadded hnew hadmitted]
      exact Or.inr (enter_spec (u := u.filter .all) hs hnew
        (stopTimes_ne_nil_of_admitted hadmitted) h)

/-! ## Withdrawing -/

/-- **An added trip is withdrawn**, and nothing is refused on the way. -/
theorem withdraw_spec (hs : s.Consistent) (hadded : s.added.contains trip = true)
    (h : s.withdraw trip = .ok (s', r)) : r = .ok () ∧ Change s none s' := by
  obtain ⟨id, announcement, hget, rfl⟩ := AddedTrips.contains_eq_true_iff.mp hadded
  obtain ⟨old, hkeeps, hid, hmem⟩ :=
    (hs.agrees.listed _ _).mp (AddedTrips.lists_of_get? hget)
  have hbook := (hs.agrees.booked announcement.pattern _).mpr ⟨old, hkeeps, hid, rfl⟩
  have hnodup := (hs.graph.sound old hkeeps).wellFormed.nodup
  unfold withdraw at h
  rcases Nat.lt_or_ge 1 old.pattern.trips.length with hlt | hle
  · rw [AddedTrips.remove?_eq_of_lt hget hbook hlt] at h
    simp only [Bool.false_eq_true, if_false] at h
    obtain ⟨⟨graph, result⟩, hremove, hlast⟩ := Checked.bind_eq_ok_iff.mp h
    have hlen := List.length_erase_of_mem hmem
    obtain ⟨p, rfl, hrev, hputs, hsound, hrows⟩ := Graph.removeTrip_spec hs.graph hkeeps
      (fun hnil => by rw [hnil] at hlen; simp only [List.length_nil] at hlen; omega) hremove
    obtain ⟨b, changed, hsync, -⟩ := hs.sync_spec hsound (Graph.id_eq_numberUnder hkeeps hrev)
    have hbuffer : ({ s with added := ⟨s.added.trips.erase trip, s.added.patterns.insert
        announcement.pattern ⟨old.pattern.trips.length - 1, old⟩⟩ } : Updater).buffer.sync p =
          (b, .ok changed) := hsync
    simp only [hbuffer] at hlast
    cases hlast
    have hpid : announcement.pattern = p.id := (hrev.id_eq.trans hid).symm
    have hcount : old.pattern.trips.length - 1 = p.trips.length := by
      rw [Pattern.trips_withoutTrip hrows, hlen]
    have hbooks := AddedTrips.updatePattern_insert (s.added.trips.erase trip) s.added.patterns
      p.trips.length old ⟨p, old.edges, old.vertices⟩
    refine ⟨rfl, ?_⟩
    simp only [setBuffer_added, hpid, hcount, hbooks, ← hrev.id_eq]
    exact .left hkeeps hmem hrev hrows hsound hputs hsync
  · have htrips : old.pattern.trips = [trip] := by
      obtain ⟨first, hfirst⟩ := List.length_eq_one_iff.mp
        (Nat.le_antisymm hle (List.length_pos_of_mem hmem))
      rw [hfirst] at hmem ⊢
      rw [List.mem_singleton.mp hmem]
    rw [AddedTrips.remove?_eq_of_le hget hbook hle] at h
    simp only [if_true, hs.graph.detach_eq hkeeps] at h
    cases h
    rw [← hid]
    exact ⟨rfl, .dissolved hkeeps htrips⟩

/-- A trip that was not added is not withdrawn. -/
theorem withdraw_eq_of_not_added (hadded : s.added.contains trip = false) :
    s.withdraw trip = .ok (s, .error (.notAdded trip)) := by
  have hnone : s.added.trips.get? trip = none := Option.not_isSome_iff_eq_none.mp fun hsome =>
    Bool.false_ne_true (hadded.symm.trans hsome)
  unfold withdraw
  rw [AddedTrips.remove?_eq_none hnone]
  rfl

/-! ## Applying -/

/-- **In a consistent state an update is refused without effect, or is one change.** -/
theorem apply_spec (hs : s.Consistent) (h : s.apply u = .ok (s', r)) :
    Outcome s (s.newTrip? u) s' r := by
  have hother : ¬ (u.status = .added ∧ s.added.contains u.tripId = false) →
      s.newTrip? u = none := fun hno => if_neg fun hcond => hno ⟨hcond.1, hcond.2.1⟩
  unfold apply at h
  split at h
  · rename_i hstatus hadded
    exact add_spec hs hstatus hadded h
  · rename_i hstatus hadded
    rw [hother fun hcond => Bool.false_ne_true (hcond.2.symm.trans hadded)]
    exact modify_spec hs h
  · rename_i hstatus
    rw [hother fun hcond => TripStatus.noConfusion (hcond.1.symm.trans hstatus)]
    exact modify_spec hs h
  · rename_i hstatus hadded
    rw [hother fun hcond => TripStatus.noConfusion (hcond.1.symm.trans hstatus)]
    exact Or.inr (withdraw_spec hs hadded h)
  · rename_i hstatus hadded
    rw [hother fun hcond => TripStatus.noConfusion (hcond.1.symm.trans hstatus)]
    exact Or.inr (withdraw_spec hs hadded h)
  · rename_i hstatus hadded
    rw [hother fun hcond => TripStatus.noConfusion (hcond.1.symm.trans hstatus)]
    exact cancel_spec hs h
  · rename_i hstatus hadded
    rw [hother fun hcond => TripStatus.noConfusion (hcond.1.symm.trans hstatus)]
    exact revert_spec hs h

end LiveTimetable.Updater
