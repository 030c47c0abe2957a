import LiveTimetable.Proofs.Live.Faults
import LiveTimetable.Proofs.Live.Withdrawals
import LiveTimetable.Proofs.Publication.Contents

/-!
# What follows a batch comes to its end

After the updates of a batch the writer purges, if its settings say so, and publishes. In a
reachable state neither meets a fault, so only an update can keep a run from its summary.

* `Updater.Reachable.exists_publish`: a publication of a reachable state comes to its end.
* `Updater.Reachable.exists_settle`: so does all that follows a batch.
-/

namespace LiveTimetable.Updater

variable {s : Updater}

/-- What is held in a reachable state can be read, and is as wide as its pattern. -/
theorem Reachable.intact_held (hs : s.Reachable) {key : PatternDate} {held : Held}
    (hheld : s.buffer.timetables.get? key = some held) : held.timetable.plain.Intact := by
  obtain ⟨p, hp, htracks⟩ := hs.tracks key held hheld
  obtain ⟨q, hq, hstops⟩ := hs.consistent.buffered key held hheld
  cases hp.symm.trans hq
  refine Timetable.intact_of_index_eq_none rfl fun r hr =>
    ⟨hs.allRows_intact.buffered key held hheld r hr, htracks.baseline_eq r hr, ?_⟩
  have hmem : r.published ∈ held.timetable.rows.map Row.published := List.mem_map_of_mem hr
  rw [htracks.published_eq] at hmem
  obtain ⟨r', hr', heq⟩ := List.mem_map.mp hmem
  calc r.current.stopCount = r.published.stopCount :=
        congrArg Baseline.stopCount (htracks.baseline_eq r hr)
    _ = r'.published.stopCount := by rw [heq]
    _ = p.stops.length := (hs.consistent.index.pattern _ p hp).stopCount_eq r' hr'
    _ = held.timetable.stops.length := by rw [hstops]

/-- **A publication of a reachable state comes to its end.** -/
theorem Reachable.exists_publish (hs : s.Reachable) (now : Nat) (force : Bool) :
    ∃ s', s.publish now force = .ok s' := by
  obtain ⟨b, snapshot, hcommit⟩ : ∃ b snapshot, s.publisher.buffer.commit = .ok (b, snapshot) :=
    Buffer.exists_commit fun key held => hs.intact_held
  unfold publish Publisher.publish Publisher.cut
  rw [hcommit]
  split
  · exact ⟨_, rfl⟩
  · exact ⟨_, rfl⟩

/-- A purge comes to its end in a reachable state. -/
theorem Reachable.exists_purge (hs : s.Reachable) (today : ServiceDate) :
    ∃ s' any, s.purge today = .ok (s', any) ∧ s'.Reachable := by
  obtain ⟨s', any, hpurge⟩ : ∃ s' any, s.purge today = .ok (s', any) := by
    rcases purge_cases hs.consistent hs.tracks today with ⟨-, -, -, hdone⟩ | ⟨-, mid, -, hdone⟩
    · exact ⟨_, _, hdone⟩
    · exact ⟨_, _, hdone⟩
  refine ⟨s', any, hpurge, hs.perform (c := .purge today) ?_⟩
  rw [Updater.perform, hpurge]
  rfl

/-- **What follows a batch comes to its end.** -/
theorem Reachable.exists_settle (hs : s.Reachable) (today : ServiceDate) (now : Nat) :
    ∃ s' purged, s.settle today now = .ok (s', purged) := by
  unfold settle
  split
  · obtain ⟨mid, any, hpurge, hmid⟩ := hs.exists_purge today
    obtain ⟨s', hpublish⟩ := hmid.exists_publish now any
    simp only [hpurge, hpublish, Checked.ok_bind]
    exact ⟨s', any, rfl⟩
  · obtain ⟨s', hpublish⟩ := hs.exists_publish now false
    simp only [hpublish, Checked.ok_bind]
    exact ⟨s', false, rfl⟩

end LiveTimetable.Updater
