import LiveTimetable.Live.Updater
import LiveTimetable.Proofs.Publication.Contents

/-!
# What a publication leaves alone

The **contents** of the writer are all it has but for the published snapshot and what the buffer
keeps for the next one. Updates look at nothing else, and publications leave them alone. So it
makes no difference to the contents when, and how often, snapshots are published between updates.

* `Updater.contents_of_publish`: a publication leaves the contents alone.
* `Updater.apply_congr`: an update does the same to the same contents.
-/

namespace LiveTimetable.Updater

/-- What the writer has but for published snapshots. -/
structure Contents where
  index : TransitIndex
  graph : Graph
  added : AddedTrips
  settings : Settings
  purgedThrough : Option ServiceDate
  withdrawn : Table PatternId Nat
  buffer : Buffer.Contents

/-- The contents of the writer. -/
def contents (s : Updater) : Contents :=
  ⟨s.index, s.graph, s.added, s.settings, s.purgedThrough, s.withdrawn, s.buffer.contents⟩

/-- The contents that an update leads to, and its answer. -/
def aftermath (r : Updater × Except ApplyError Unit) : Contents × Except ApplyError Unit :=
  (r.1.contents, r.2)

variable {s s' t : Updater} {u : TripUpdate} {publisher publisher' : Publisher}

/-- Writers with the same contents differ in their publishers only. -/
theorem exists_publisher (h : s.contents = t.contents) :
    ∃ publisher, t = { s with publisher } ∧
      s.publisher.buffer.contents = publisher.buffer.contents := by
  obtain ⟨hindex, hgraph, hadded, hsettings, hpurged, hwithdrawn, hbuffer⟩ := Contents.mk.inj h
  refine ⟨t.publisher, ?_, hbuffer⟩
  rw [hindex, hgraph, hadded, hsettings, hpurged, hwithdrawn]

/-- Publishers whose buffers have the same contents make no difference. -/
theorem aftermath_congr {x : TransitIndex} {g : Graph} {added : AddedTrips} {settings : Settings}
    {through : Option ServiceDate} {withdrawn : Table PatternId Nat}
    {answer answer' : Except ApplyError Unit}
    (h : publisher.buffer.contents = publisher'.buffer.contents) (hanswer : answer = answer') :
    aftermath (⟨x, g, publisher, added, settings, through, withdrawn⟩, answer) =
      aftermath (⟨x, g, publisher', added, settings, through, withdrawn⟩, answer') :=
  Prod.ext (congrArg (Contents.mk x g added settings through withdrawn) h) hanswer

/-! ## Trips that have a pattern -/

theorem updateBuffer_congr (h : s.contents = t.contents) (p : Pattern) (u : TripUpdate) :
    (s.updateBuffer p u).map aftermath = (t.updateBuffer p u).map aftermath := by
  have hrun : ∀ s : Updater, (s.updateBuffer p u).map aftermath =
      ((s.buffer.update p u).run.map (Except.map Buffer.contents)).map fun
        | .ok c => ({ s.contents with buffer := c }, .ok ())
        | .error e => (s.contents, .error (.reconcile e)) := by
    intro s
    unfold updateBuffer
    rcases (s.buffer.update p u).run with fault | e | b <;> rfl
  have hbuffer : s.buffer.contents = t.buffer.contents := congrArg Contents.buffer h
  rw [hrun s, hrun t, h, Buffer.update_congr hbuffer]

theorem modify_congr (h : s.contents = t.contents) (u : TripUpdate) :
    (s.modify u).map aftermath = (t.modify u).map aftermath := by
  have hindex : s.index = t.index := congrArg Contents.index h
  have hrefused : ∀ e, aftermath (s, .error e) = aftermath (t, .error e) := fun e => Prod.ext h rfl
  unfold modify
  simp only []
  rw [hindex]
  split
  · exact congrArg Except.ok (hrefused _)
  · cases (u.filter .all).isCoherent with
    | error fault => rfl
    | ok coherent =>
      rw [Checked.ok_bind, Checked.ok_bind]
      cases coherent with
      | false => exact congrArg Except.ok (hrefused _)
      | true =>
        rw [if_pos rfl, if_pos rfl]
        cases t.index.patternForTrip? (u.filter .all).tripId with
        | none => exact congrArg Except.ok (hrefused _)
        | some p => exact updateBuffer_congr h p _

theorem cancel_congr (h : s.contents = t.contents) (u : TripUpdate) :
    (s.cancel u).map aftermath = (t.cancel u).map aftermath := by
  have hindex : s.index = t.index := congrArg Contents.index h
  unfold cancel
  rw [hindex]
  cases t.index.patternForTrip? u.tripId with
  | none => exact congrArg Except.ok (Prod.ext h rfl)
  | some p => exact updateBuffer_congr h p u

theorem revert_congr (h : s.contents = t.contents) (u : TripUpdate) :
    (s.revert u).map aftermath = (t.revert u).map aftermath := by
  have hindex : s.index = t.index := congrArg Contents.index h
  unfold revert
  rw [hindex]
  cases t.index.patternForTrip? u.tripId with
  | none => exact congrArg Except.ok (Prod.ext h rfl)
  | some p => exact updateBuffer_congr h p u

/-! ## Added trips -/

theorem enter_congr (h : s.contents = t.contents) (u : TripUpdate) (zone : Zone)
    (stopTimes : List StopTime) :
    (s.enter u zone stopTimes).map aftermath = (t.enter u zone stopTimes).map aftermath := by
  obtain ⟨publisher, rfl, hbuffer⟩ := exists_publisher h
  unfold enter
  simp only []
  rcases Graph.addTrip _ _ _ with fault | ⟨graph, e | made⟩
  · rfl
  · exact congrArg Except.ok (aftermath_congr hbuffer rfl)
  · obtain ⟨hsync, hanswer⟩ := Buffer.sync_congr hbuffer made.pattern
    have hmapped := congrArg (fun r => (r.map fun _ => ()).mapError ApplyError.schedule) hanswer
    exact congrArg Except.ok (aftermath_congr hsync hmapped)

theorem add_congr (h : s.contents = t.contents) (u : TripUpdate) :
    (s.add u).map aftermath = (t.add u).map aftermath := by
  have hindex : s.index = t.index := congrArg Contents.index h
  unfold add
  rw [hindex]
  split
  · exact modify_congr h u
  · simp only []
    cases admitted t.index (u.filter .all) with
    | error e => exact congrArg Except.ok (Prod.ext h rfl)
    | ok entry => exact enter_congr h _ entry.1 entry.2

theorem withdraw_congr (h : s.contents = t.contents) (trip : TripId) :
    (s.withdraw trip).map aftermath = (t.withdraw trip).map aftermath := by
  obtain ⟨publisher, rfl, hbuffer⟩ := exists_publisher h
  unfold withdraw
  simp only []
  rcases s.added.remove? trip with _ | ⟨removed, added⟩
  · exact congrArg Except.ok (Prod.ext h rfl)
  simp only []
  split
  · rcases s.graph.detach removed.synthesized with ⟨graph, e | ⟨⟩⟩
    · exact congrArg Except.ok (aftermath_congr hbuffer rfl)
    · exact congrArg Except.ok (aftermath_congr (Buffer.removePattern_congr hbuffer _) rfl)
  · rcases s.graph.removeTrip removed.synthesized trip with fault | ⟨graph, e | shrunk⟩
    · rfl
    · exact congrArg Except.ok (aftermath_congr hbuffer rfl)
    · have hsync := Buffer.sync_congr hbuffer shrunk.pattern
      simp only [Checked.ok_bind]
      unfold buffer at hsync ⊢
      rcases hb : s.publisher.buffer.sync shrunk.pattern with ⟨b, answer⟩
      rcases hb' : publisher.buffer.sync shrunk.pattern with ⟨b', answer'⟩
      simp only [hb, hb'] at hsync ⊢
      obtain ⟨hcontents, rfl⟩ := hsync
      cases answer with
      | error e => exact congrArg Except.ok (aftermath_congr hcontents rfl)
      | ok changed => exact congrArg Except.ok (aftermath_congr hcontents rfl)

/-! ## Applying and publishing -/

/-- **An update does the same to the same contents.** -/
theorem apply_congr (h : s.contents = t.contents) (u : TripUpdate) :
    (s.apply u).map aftermath = (t.apply u).map aftermath := by
  have hadded : s.added = t.added := congrArg Contents.added h
  unfold apply
  rw [hadded]
  split
  · exact add_congr h u
  · exact modify_congr h u
  · exact modify_congr h u
  · exact withdraw_congr h u.tripId
  · exact withdraw_congr h u.tripId
  · exact cancel_congr h u
  · exact revert_congr h u

/-- **A publication leaves the contents alone.** -/
theorem contents_of_publish {now : Nat} {force : Bool} (h : s.publish now force = .ok s') :
    s'.contents = s.contents := by
  obtain ⟨publisher, hpublish, hlast⟩ := Checked.bind_eq_ok_iff.mp h
  cases hlast
  refine congrArg (fun buffer => { s.contents with buffer }) ?_
  show publisher.buffer.contents = s.publisher.buffer.contents
  unfold Publisher.publish at hpublish
  split at hpublish
  · obtain ⟨⟨b, snapshot⟩, hcommit, hcut⟩ := Checked.bind_eq_ok_iff.mp hpublish
    cases hcut
    exact Buffer.contents_of_commit hcommit
  · cases hpublish
    rfl

end LiveTimetable.Updater
