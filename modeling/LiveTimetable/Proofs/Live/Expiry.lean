import LiveTimetable.Proofs.Calendar.Steps
import LiveTimetable.Proofs.Live.Withdrawals

/-!
# Expiry is exact and happens once

A purge goes through the day two days before today. It takes out the added trips announced for days
up to this one and the timetables of these days, and nothing else; and what was purged once is not
purged again, whatever the writer did in between.

* `Updater.Expired`: what a purge through a date leaves of a state.
* `Updater.PurgedSince`: no day up to a date is purged again; runs keep this.
* `Updater.expiry_exact`: both in every reachable state, and what readers see of it.
-/

namespace LiveTimetable

/-! ## What is dropped -/

namespace Buffer

variable {b : Buffer} {date : ServiceDate} {key : PatternDate} {p : Pattern}

theorem contains_dropBefore : (b.dropBefore date).timetables.contains key = true ↔
    b.timetables.contains key = true ∧ ¬ key.date < date := by
  unfold Table.contains dropBefore
  rw [get?_retain]
  cases b.timetables.get? key with
  | none => simp
  | some held => by_cases h : key.date < date <;> simp [h]

theorem holdsBefore_iff : b.holdsBefore date = true ↔
    ∃ key, b.timetables.contains key = true ∧ key.date < date := by
  unfold holdsBefore Table.contains
  simp only [List.any_eq_true, Table.mem_keys_iff, decide_eq_true_eq, Option.isSome_iff_exists]

/-- On the dates that stay a pattern runs as before. -/
theorem resolve_dropBefore {last : ServiceDate} (h : ¬ date < last) :
    (b.dropBefore last).resolve p date = b.resolve p date := by
  unfold resolve get? dropBefore
  rw [get?_retain]
  cases b.timetables.get? ⟨p.id, date⟩ with
  | none => rfl
  | some held => simp [Option.filter, h]

end Buffer

namespace Updater

variable {s s' : Updater} {trip : TripId} {through date today : ServiceDate} {key : PatternDate}
  {trips : List TripId} {any : Bool}

theorem current?_closeThrough (hlast : through ≠ .last) (h : through < date) :
    (s.closeThrough through).current? trip date = s.current? trip date := by
  have hkeep : ¬ date < through.next := fun hlt => (ServiceDate.lt_next_iff hlast).mp hlt h
  unfold current?
  show (s.index.patternForTrip? trip).bind (fun p =>
    ((s.buffer.dropBefore through.next).resolve p date).current? trip) = _
  simp only [Buffer.resolve_dropBefore hkeep]

/-- What a purge through a date leaves of a state. -/
structure Expired (s : Updater) (through : ServiceDate) (s' : Updater) : Prop where
  /-- The books have the trips that were announced for later dates, as before, and no others. -/
  booked : ∀ trip announcement, s'.added.trips.get? trip = some announcement ↔
    s.added.trips.get? trip = some announcement ∧ through < announcement.date
  /-- Only timetables of later dates are held, and none that was not held before. -/
  held : ∀ key, s'.buffer.timetables.contains key = true →
    s.buffer.timetables.contains key = true ∧ through < key.date
  /-- A trip that was not taken out has its pattern, and its times on all later dates. -/
  kept : ∀ trip, (s.added.contains trip = true → s'.added.contains trip = true) →
    (s'.index.patternForTrip? trip).map Pattern.id =
        (s.index.patternForTrip? trip).map Pattern.id ∧
      ∀ date, through < date → s'.current? trip date = s.current? trip date

/-- **A purge takes out what belongs to past days, and nothing else.** -/
theorem expired_of_departs (hs : s.Consistent) (ht : s.Tracks) (hlast : through ≠ .last)
    (h : Departs (s.added.through through) s s') : s.Expired through (s'.closeThrough through) := by
  refine ⟨fun trip announcement => ?_, fun key hheld => ?_, fun trip hstays => ?_⟩
  · show s'.added.trips.get? trip = some announcement ↔ _
    rw [h.get?_trips]
    split
    · rename_i hgone
      obtain ⟨expired, hget, hnot⟩ := AddedTrips.mem_through_iff.mp hgone
      simp only [reduceCtorEq, false_iff, hget, Option.some.injEq, not_and]
      rintro rfl
      exact hnot
    · rename_i hstays
      refine ⟨fun hget => ⟨hget, Decidable.byContradiction fun hnot => ?_⟩, fun hboth => hboth.1⟩
      exact hstays (AddedTrips.mem_through_iff.mpr ⟨announcement, hget, hnot⟩)
  · obtain ⟨hheld', hnot⟩ := Buffer.contains_dropBefore.mp hheld
    rw [ServiceDate.lt_next_iff hlast, Decidable.not_not] at hnot
    exact ⟨h.contains_of_contains hheld', hnot⟩
  · have hnot : trip ∉ s.added.through through := fun hgone =>
      (h.contains_iff.mp (hstays (AddedTrips.contains_of_mem_through hgone))).2 hgone
    have hspares := h.spares hs ht hnot
    exact ⟨hspares.patternId_eq, fun date hlater =>
      (current?_closeThrough hlast hlater).trans (hspares.current?_eq date)⟩

/-- A purge answers whether it took anything out. -/
theorem any_iff_of_departs (h : Departs (s.added.through through) s s') :
    (!(s.added.through through).isEmpty || s'.buffer.holdsBefore through.next) = true ↔
      (∃ trip, s.added.contains trip = true ∧
        (s'.closeThrough through).added.contains trip = false) ∨
      ∃ key, s.buffer.timetables.contains key = true ∧
        (s'.closeThrough through).buffer.timetables.contains key = false := by
  have hbooks : ∀ trip, (s'.closeThrough through).added.contains trip = s'.added.contains trip :=
    fun _ => rfl
  have hkeys : ∀ key, (s'.closeThrough through).buffer.timetables.contains key = true ↔
      s'.buffer.timetables.contains key = true ∧ ¬ key.date < through.next := fun _ =>
    Buffer.contains_dropBefore
  cases hlist : s.added.through through with
  | nil =>
    rw [hlist] at h
    cases h
    -- No trip departed: what was taken out are the timetables that are dropped.
    rw [List.isEmpty_nil, Bool.not_true, Bool.false_or, Buffer.holdsBefore_iff]
    constructor
    · rintro ⟨key, hheld, hlt⟩
      exact .inr ⟨key, hheld, Bool.eq_false_iff.mpr fun hstays => ((hkeys key).mp hstays).2 hlt⟩
    · rintro (⟨trip, hadded, hgone⟩ | ⟨key, hheld, hgone⟩)
      · rw [hbooks, hadded] at hgone
        cases hgone
      · refine ⟨key, hheld, Decidable.byContradiction fun hnot => ?_⟩
        rw [(hkeys key).mpr ⟨hheld, hnot⟩] at hgone
        cases hgone
  | cons first rest =>
    have hfirst : first ∈ s.added.through through := hlist ▸ List.mem_cons_self
    refine iff_of_true rfl (.inl ⟨first, AddedTrips.contains_of_mem_through hfirst, ?_⟩)
    rw [hbooks]
    exact Bool.eq_false_iff.mpr fun hstays => (h.contains_iff.mp hstays).2 hfirst

/-! ## Once -/

/-- No day up to a date is purged again. -/
def PurgedSince (date : ServiceDate) (s : Updater) : Prop :=
  ∃ done, s.purgedThrough = some done ∧ ¬ done < date

theorem PurgedSince.mono {date' : ServiceDate} (h : s.PurgedSince date) (hle : ¬ date < date') :
    s.PurgedSince date' := by
  obtain ⟨done, hdone, hnot⟩ := h
  exact ⟨done, hdone, fun hlt => hle (ServiceDate.lt_of_not_lt_of_lt hnot hlt)⟩

/-- A purge of days that were purged does nothing. -/
theorem PurgedSince.purge_eq (h : s.PurgedSince today.previous.previous) :
    s.purge today = .ok (s, false) := by
  obtain ⟨done, hdone, hnot⟩ := h
  unfold purge
  rw [hdone]
  exact if_pos (by simpa using hnot)

/-- An update does not purge. -/
theorem Effect.purgedThrough_eq {u : TripUpdate} (h : Effect s u s') :
    s'.purgedThrough = s.purgedThrough := by
  cases h with
  | refused => rfl
  | retimed times =>
    unfold retime
    split <;> rfl
  | departed => rfl
  | entered hid hchange =>
    cases hchange
    rfl

theorem purgedThrough_publish {now : Nat} {force : Bool} (h : s.publish now force = .ok s') :
    s'.purgedThrough = s.purgedThrough := by
  obtain ⟨publisher, -, h⟩ := Checked.bind_eq_ok_iff.mp h
  cases h
  rfl

/-- To settle is to purge, if the settings say so, and to publish. -/
theorem settle_spec {now : Nat} {purged : Bool} (h : s.settle today now = .ok (s', purged)) :
    ∃ mid, (if s.settings.purgeExpired then s.purge today else .ok (s, false)) =
        .ok (mid, purged) ∧ mid.publish now purged = .ok s' := by
  unfold settle at h
  split at h
  · rename_i hsettings
    obtain ⟨⟨mid, any⟩, hpurge, h⟩ := Checked.bind_eq_ok_iff.mp h
    obtain ⟨last, hpublish, h⟩ := Checked.bind_eq_ok_iff.mp h
    cases h
    exact ⟨mid, (if_pos hsettings).trans hpurge, hpublish⟩
  · rename_i hsettings
    simp only [Checked.ok_bind] at h
    obtain ⟨last, hpublish, h⟩ := Checked.bind_eq_ok_iff.mp h
    cases h
    exact ⟨s, if_neg hsettings, hpublish⟩

theorem PurgedSince.purge (h : s.PurgedSince date) (hs : s.Consistent) (ht : s.Tracks)
    (hpurge : s.purge today = .ok (s', any)) : s'.PurgedSince date := by
  rcases purge_cases hs ht today with ⟨-, -, -, hdone⟩ | ⟨hdue, mid, -, hdone⟩
  · cases hdone.symm.trans hpurge
    exact h
  · cases hdone.symm.trans hpurge
    obtain ⟨done, hget, hnot⟩ := h
    exact ⟨_, rfl, fun hlt => hnot (ServiceDate.lt_of_lt_of_not_lt (hdue done hget)
      fun h' => ServiceDate.not_lt_of_lt hlt h')⟩

theorem Tracks.pass (ht : s.Tracks) (hs : s.Consistent) {stage : Stage}
    (h : s.pass stage = .ok s') : s'.Tracks :=
  invariant_passAll (fun _ _ _ hchange ha hi => hchange.tracks ha hi) hs ht
    ((passAll_singleton stage s).trans h)

/-- A stage does not undo a purge. -/
theorem PurgedSince.pass (h : s.PurgedSince date) (hs : s.Consistent) (ht : s.Tracks)
    {stage : Stage} (hstage : s.pass stage = .ok s') : s'.PurgedSince date := by
  cases stage with
  | apply u =>
    obtain ⟨⟨mid, result⟩, happly, hlast⟩ := Checked.bind_eq_ok_iff.mp hstage
    cases hlast
    unfold PurgedSince
    rw [(effect_of_apply hs ht happly).purgedThrough_eq]
    exact h
  | settle today now =>
    obtain ⟨⟨last, purged⟩, hsettle, hlast⟩ := Checked.bind_eq_ok_iff.mp hstage
    cases hlast
    obtain ⟨mid, hpurge, hpublish⟩ := settle_spec hsettle
    unfold PurgedSince
    rw [purgedThrough_publish hpublish]
    split at hpurge
    · exact h.purge hs ht hpurge
    · cases hpurge
      exact h
  | publish now force =>
    unfold PurgedSince
    rw [purgedThrough_publish hstage]
    exact h
  | purge today =>
    obtain ⟨⟨mid, any⟩, hpurge, hlast⟩ := Checked.bind_eq_ok_iff.mp hstage
    cases hlast
    exact h.purge hs ht hpurge

theorem PurgedSince.passAll : ∀ {stages : List Stage} {s s' : Updater}, s.PurgedSince date →
    s.Consistent → s.Tracks → Updater.passAll stages s = .ok s' → s'.PurgedSince date
  | [], s, s', h, _, _, hrun => by
    cases hrun
    exact h
  | stage :: rest, s, s', h, hs, ht, hrun => by
    obtain ⟨mid, hmid, hrun⟩ := Checked.bind_eq_ok_iff.mp hrun
    exact (h.pass hs ht hmid).passAll (hs.pass hmid) (ht.pass hs hmid) hrun

/-- **What was purged once is not purged again.** -/
theorem PurgedSince.performAll {cs : List Command} (h : s.PurgedSince date) (hs : s.Consistent)
    (ht : s.Tracks) (hrun : Updater.performAll cs s = .ok s') : s'.PurgedSince date := by
  rw [performAll_eq_passAll] at hrun
  exact h.passAll hs ht hrun

/-! ## What readers see -/

/-- A purge that took anything out leaves timetables of later days only. -/
theorem held_of_purge (h : s.purge today = .ok (s', true))
    (hheld : s'.buffer.timetables.contains key = true) : today.previous.previous < key.date := by
  unfold Updater.purge at h
  simp only [] at h
  split at h
  · cases h
  · obtain ⟨⟨mid, any⟩, -, h⟩ := Checked.bind_eq_ok_iff.mp h
    obtain ⟨rfl, -⟩ := Prod.mk.inj (Except.ok.inj h)
    have hnot := (Buffer.contains_dropBefore.mp hheld).2
    rwa [ServiceDate.lt_next_iff (ServiceDate.previous_ne_last _), Decidable.not_not] at hnot

/-- A forced publication shows what is held. -/
theorem publish_forced {now : Nat} (h : s.publish now true = .ok s') :
    s'.publisher.published.timetables = s'.buffer.timetables ∧
      ∀ key, s'.buffer.timetables.contains key = true →
        s.buffer.timetables.contains key = true := by
  obtain ⟨publisher, hpublish, h⟩ := Checked.bind_eq_ok_iff.mp h
  cases h
  obtain ⟨⟨b, snapshot⟩, hcommit, hpublish⟩ := Checked.bind_eq_ok_iff.mp hpublish
  cases hpublish
  refine ⟨?_, fun key hheld => ?_⟩
  · obtain ⟨ts, -, hlast⟩ := Checked.bind_eq_ok_iff.mp hcommit
    cases hlast
    rfl
  · obtain ⟨held, hget⟩ := Option.isSome_iff_exists.mp hheld
    obtain ⟨old, hold, -⟩ := (Buffer.commit_spec hcommit).2.2 key held hget
    exact Option.isSome_iff_exists.mpr ⟨old, hold⟩

/-- A run ends with what follows its batch. -/
theorem settle_of_runAt {source source' : Source} {now : Nat} {summary : RunSummary}
    (h : s.runAt source today now = ((s', source'), .ok (.ok summary))) :
    ∃ mid : Updater, mid.settle today now = .ok (s', summary.purged) := by
  unfold runAt at h
  split at h
  · cases h
  · rename_i rest batch hnext
    cases hbatch : s.runBatch (batch.getD []) today now with
    | mk last result =>
      rw [hbatch] at h
      cases result with
      | error fault => cases h
      | ok done =>
        cases h
        unfold runBatch at hbatch
        split at hbatch
        · cases hbatch
        · rename_i mid applied failed hall
          cases hsettle : mid.settle today now with
          | error fault =>
            rw [hsettle] at hbatch
            cases hbatch
          | ok out =>
            rw [hsettle] at hbatch
            cases hbatch
            exact ⟨mid, hsettle⟩

/-- **After a run that purged, readers see the buffer, and nothing of past days.** -/
theorem published_of_runAt {source source' : Source} {now : Nat} {summary : RunSummary}
    (h : s.runAt source today now = ((s', source'), .ok (.ok summary)))
    (hpurged : summary.purged = true) :
    s'.publisher.published.timetables = s'.buffer.timetables ∧
      ∀ key, s'.publisher.published.timetables.contains key = true →
        today.previous.previous < key.date := by
  obtain ⟨before, hsettle⟩ := settle_of_runAt h
  obtain ⟨mid, hpurge, hpublish⟩ := settle_spec hsettle
  rw [hpurged] at hpurge hpublish
  obtain ⟨hshown, hheld⟩ := publish_forced hpublish
  refine ⟨hshown, fun key hkey => ?_⟩
  rw [hshown] at hkey
  split at hpurge
  · exact held_of_purge hpurge (hheld key hkey)
  · cases hpurge

/-- **Expiry is exact and happens once.** In a reachable state let `through` be the day two days
before today, later than the day through which was purged last.

* A purge leaves the books with the added trips of later days and no others, and the buffer without
  the timetables of the days up to `through`; every trip that it did not take out has its pattern,
  and on all later dates its times.
* It answers whether an added trip or a timetable was taken out.
* After it, whatever the writer did, a purge on the same day or an earlier one does nothing.
* After a run that reports that it purged, readers see what the buffer holds, and no timetable of
  the days up to two days before. -/
theorem expiry_exact (h : s.Reachable) :
    (∀ today, (∀ done, s.purgedThrough = some done → done < today.previous.previous) →
      ∃ s' any, s.purge today = .ok (s', any) ∧ s.Expired today.previous.previous s' ∧
        (any = true ↔
          (∃ trip, s.added.contains trip = true ∧ s'.added.contains trip = false) ∨
          ∃ key, s.buffer.timetables.contains key = true ∧
            s'.buffer.timetables.contains key = false) ∧
        ∀ cs later, performAll cs s' = .ok later →
          ∀ today', ¬ today < today' → later.purge today' = .ok (later, false)) ∧
    ∀ source today now s' source' summary,
      s.runAt source today now = ((s', source'), .ok (.ok summary)) → summary.purged = true →
        s'.publisher.published.timetables = s'.buffer.timetables ∧
        ∀ key, s'.publisher.published.timetables.contains key = true →
          today.previous.previous < key.date := by
  have hs := h.consistent
  have ht := h.tracks
  refine ⟨fun today hdue => ?_, fun source today now s' source' summary => published_of_runAt⟩
  rcases purge_cases hs ht today with ⟨done, hdone, hnot, -⟩ | ⟨-, mid, hdeparts, hpurge⟩
  · exact absurd (hdue done hdone) hnot
  · have hlast := ServiceDate.previous_ne_last today.previous
    refine ⟨_, _, hpurge, expired_of_departs hs ht hlast hdeparts, any_iff_of_departs hdeparts,
      fun cs later hrun today' hearlier => ?_⟩
    have h' : (mid.closeThrough today.previous.previous).Reachable :=
      h.perform (c := .purge today) (by rw [perform, hpurge]; rfl)
    have hsince : (mid.closeThrough today.previous.previous).PurgedSince
        today.previous.previous := ⟨_, rfl, fun hlt => ServiceDate.not_lt_of_lt hlt hlt⟩
    exact ((hsince.performAll h'.consistent h'.tracks hrun).mono
      (ServiceDate.previous_mono (ServiceDate.previous_mono hearlier))).purge_eq

/-- Two added trips share a pattern, for the first of March. On the third they expire, together with
the timetable of that day; another purge on that day finds nothing to do. A run on the third reports
the purge, and its snapshot is empty. -/
theorem expiry_exact_shuttle : shuttleWithTwo.Reachable ∧
    (∀ done, shuttleWithTwo.purgedThrough = some done →
      done < shuttleDate.next.next.previous.previous) ∧
    (∃ s' any, shuttleWithTwo.purge shuttleDate.next.next = .ok (s', any) ∧ any = true ∧
      s'.added.trips.get? ⟨"a", "n"⟩ = none ∧
      s'.current? ⟨"a", "t"⟩ shuttleDate.next =
        shuttleWithTwo.current? ⟨"a", "t"⟩ shuttleDate.next ∧
      s'.purge shuttleDate.next.next = .ok (s', false)) ∧
    ∃ s' source' summary, shuttleWithTwo.runAt .openChannel shuttleDate.next.next 0 =
        ((s', source'), .ok (.ok summary)) ∧ summary.purged = true ∧
      s'.publisher.published.timetables = s'.buffer.timetables := by
  obtain ⟨hpurges, hruns⟩ := expiry_exact reachable_shuttleWithTwo
  have hboundary : shuttleDate.next.next.previous.previous = shuttleDate := by decide
  have hdue : ∀ done, shuttleWithTwo.purgedThrough = some done →
      done < shuttleDate.next.next.previous.previous := fun done hdone => by cases hdone
  refine ⟨reachable_shuttleWithTwo, hdue, ?_, ?_⟩
  · obtain ⟨s', any, hpurge, hexpired, hany, honce⟩ := hpurges shuttleDate.next.next hdue
    have hgone : s'.added.trips.get? ⟨"a", "n"⟩ = none := by
      cases hget : s'.added.trips.get? ⟨"a", "n"⟩ with
      | none => rfl
      | some announcement =>
        obtain ⟨hbefore, hlater⟩ := (hexpired.booked _ _).mp hget
        have hdate : (shuttleWithTwo.added.trips.get? ⟨"a", "n"⟩).map Announcement.date =
          some shuttleDate := rfl
        rw [hbefore] at hdate
        rw [hboundary, Option.some.inj hdate] at hlater
        exact absurd hlater fun hlt => ServiceDate.not_lt_of_lt hlt hlt
    refine ⟨s', any, hpurge, hany.mpr (.inl ⟨⟨"a", "n"⟩, rfl, ?_⟩), hgone, ?_,
      honce [] s' rfl _ fun hlt => ServiceDate.not_lt_of_lt hlt hlt⟩
    · unfold AddedTrips.contains Table.contains
      rw [hgone]
      rfl
    · exact (hexpired.kept ⟨"a", "t"⟩ nofun).2 shuttleDate.next (by rw [hboundary]; decide)
  · obtain ⟨s', source', summary, hrun, hpurged⟩ : ∃ s' source' summary,
        shuttleWithTwo.runAt .openChannel shuttleDate.next.next 0 =
          ((s', source'), .ok (.ok summary)) ∧ summary.purged = true := ⟨_, _, _, rfl, rfl⟩
    exact ⟨s', source', summary, hrun, hpurged,
      (hruns .openChannel _ 0 s' source' summary hrun hpurged).1⟩

end Updater

end LiveTimetable
