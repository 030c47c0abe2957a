import LiveTimetable.Proofs.Live.Expiry

/-!
# How long an added trip lives

The books record an added trip for one date, that of the update which brought it in. An update that
announces it again, for whatever date, gives it other times and leaves the record. So it is the
recorded date, and not the date of the last announcement, at which the trip expires.

* `Updater.recordedDate?`: the date for which the books have a trip.
* `Updater.Lives`: the trip has a pattern and its record; `Lives.pass`, `Lives.performAll`: stages
  and runs keep this, unless they withdraw the trip or purge through the recorded date.
* `Updater.added_trip_lives`: what becomes of a trip that was announced.
-/

namespace LiveTimetable.Updater

variable {s s' : Updater} {u : TripUpdate} {trip other : TripId} {date today : ServiceDate}
  {r : Except ApplyError Unit} {recorded : Option ServiceDate} {settings : Settings}

/-- The date for which the books have an added trip. -/
def recordedDate? (s : Updater) (trip : TripId) : Option ServiceDate :=
  (s.added.trips.get? trip).map Announcement.date

/-! ## Records and settings -/

/-- An update leaves the records of other trips. -/
theorem Effect.get?_trips (h : Effect s u s') (hs : s.Consistent) (hne : other ≠ u.tripId) :
    s'.added.trips.get? other = s.added.trips.get? other := by
  cases h with
  | refused => rfl
  | retimed times => rw [added_retime]
  | departed hy hmem hrest => exact (Table.get?_erase ..).trans (if_neg hne)
  | entered hid hchange =>
    cases hchange with
    | @entered services trip stopTimes made graph buffer changed date hnew hgraph hb =>
      have hother : other ≠ trip.id := fun heq => hne (heq.trans hid)
      show (s.added.insert trip.id date made).trips.get? other = _
      rw [AddedTrips.insert_eq (hs.get?_trips_eq_none hnew)]
      exact (Table.get?_insert ..).trans (if_neg hother)

theorem Effect.settings_eq (h : Effect s u s') : s'.settings = s.settings := by
  cases h with
  | refused => rfl
  | retimed times =>
    unfold retime
    split <;> rfl
  | departed => rfl
  | entered hid hchange =>
    cases hchange
    rfl

/-- **An update of a trip that has a pattern, and is not taken out by it, gives it other times or
none.** -/
theorem apply_of_indexed (hs : s.Consistent) (ht : s.Tracks)
    (hknown : s.index.patternForTrip? u.tripId ≠ none) (hu : u.isWithdrawal = false)
    (h : s.apply u = .ok (s', r)) : s' = s ∨ ∃ times, s' = s.retime u.tripId u.date times := by
  rw [apply_eq hs ht] at h
  obtain ⟨v, hv, h⟩ := Checked.bind_eq_ok_iff.mp h
  rcases verdict_cases hv with ⟨e, rfl⟩ | ⟨times, rfl⟩ | ⟨-, hwithdrawal, -⟩ | ⟨-, -, -, -, hnew, -⟩
  · cases h
    exact .inl rfl
  · cases h
    exact .inr ⟨times, rfl⟩
  · rw [hu] at hwithdrawal
    cases hwithdrawal
  · exact absurd hnew hknown

/-! ## What an announcement records -/

theorem recordedDate?_enter {zone : Zone} {stopTimes : List StopTime}
    (h : s.enter u zone stopTimes = .ok (s', .ok ())) :
    s'.recordedDate? u.tripId = some u.date := by
  unfold enter at h
  obtain ⟨⟨graph, result⟩, -, h⟩ := Checked.bind_eq_ok_iff.mp h
  cases result with
  | error e => cases h
  | ok made =>
    obtain ⟨rfl, -⟩ := Prod.mk.inj (Except.ok.inj h)
    show ((s.added.insert u.tripId u.date made).trips.get? u.tripId).map Announcement.date = _
    unfold AddedTrips.insert
    rw [Table.get?_insert, if_pos rfl]
    rfl

/-- A new trip is recorded for the date of its announcement; the record of any other one stays. -/
theorem recordedDate?_apply (hs : s.Consistent) (ht : s.Tracks) (hu : u.status = .added)
    (h : s.apply u = .ok (s', .ok ())) : s'.recordedDate? u.tripId =
      if s.index.patternForTrip? u.tripId = none then some u.date
      else s.recordedDate? u.tripId := by
  have hstays : u.isWithdrawal = false := by rw [TripUpdate.isWithdrawal, hu]
  split
  · rename_i hnew
    rw [apply_eq hs ht, verdict, hstays, Bool.false_and, if_neg Bool.false_ne_true,
      if_pos ⟨hu, hnew⟩] at h
    cases hadmitted : admitted s.index (u.filter .all) with
    | error e =>
      rw [hadmitted] at h
      cases h
    | ok out =>
      rw [hadmitted] at h
      exact recordedDate?_enter (u := u.filter .all) h
  · rename_i hknown
    rcases apply_of_indexed hs ht hknown hstays h with rfl | ⟨times, rfl⟩
    · rfl
    · unfold recordedDate?
      rw [added_retime]

theorem contains_of_recordedDate? (h : s.recordedDate? trip = some date) :
    s.added.contains trip = true := by
  obtain ⟨announcement, hget, -⟩ := Option.map_eq_some_iff.mp h
  exact Option.isSome_iff_exists.mpr ⟨announcement, hget⟩

/-- A trip that was announced has a pattern. -/
theorem indexed_of_apply (hs : s.Consistent) (ht : s.Tracks) (hu : u.status = .added)
    (h : s.apply u = .ok (s', .ok ())) : s'.index.patternForTrip? u.tripId ≠ none := by
  have hpass : s.pass (.apply u) = .ok s' := by
    rw [pass, h]
    rfl
  have hs' : s'.Consistent := hs.pass hpass
  have hrecord := recordedDate?_apply hs ht hu h
  by_cases hnew : s.index.patternForTrip? u.tripId = none
  · rw [if_pos hnew] at hrecord
    obtain ⟨p, hp, -⟩ := hs'.contains_iff_indexed.mp (contains_of_recordedDate? hrecord)
    rw [hp]
    exact Option.some_ne_none p
  · have hstays : u.isWithdrawal = false := by rw [TripUpdate.isWithdrawal, hu]
    rcases apply_of_indexed hs ht hnew hstays h with rfl | ⟨times, rfl⟩
    · exact hnew
    · rw [index_retime]
      exact hnew

/-! ## What ends a life -/

/-- The update that a stage applies. -/
def Stage.update? : Stage → Option TripUpdate
  | .apply u => some u
  | _ => none

/-- The day on which a stage purges, under the given settings. -/
def Stage.today? (settings : Settings) : Stage → Option ServiceDate
  | .settle today _ => if settings.purgeExpired then some today else none
  | .purge today => some today
  | _ => none

/-- The stage applies a cancellation or a removal of the trip. -/
def Stage.Withdraws (trip : TripId) (stage : Stage) : Prop :=
  ∃ u, stage.update? = some u ∧ u.tripId = trip ∧ u.isWithdrawal = true

/-- The stage purges through the date, or further. -/
def Stage.PurgesThrough (settings : Settings) (date : ServiceDate) (stage : Stage) : Prop :=
  ∃ today, stage.today? settings = some today ∧ ¬ today.previous.previous < date

/-- The trip has a pattern, and the books have it for the given date, if they have it at all. -/
structure Lives (trip : TripId) (recorded : Option ServiceDate) (settings : Settings)
    (s : Updater) : Prop where
  indexed : s.index.patternForTrip? trip ≠ none
  recorded_eq : s.recordedDate? trip = recorded
  settings_eq : s.settings = settings

namespace Lives

theorem apply (h : s.Lives trip recorded settings) (hs : s.Consistent) (ht : s.Tracks)
    (hu : ¬ (Stage.apply u).Withdraws trip) (happly : s.apply u = .ok (s', r)) :
    s'.Lives trip recorded settings := by
  have heffect := effect_of_apply hs ht happly
  have hsettings := heffect.settings_eq.trans h.settings_eq
  by_cases hown : u.tripId = trip
  · subst hown
    have hstays : u.isWithdrawal = false :=
      Bool.eq_false_iff.mpr fun hwithdrawal => hu ⟨u, rfl, rfl, hwithdrawal⟩
    rcases apply_of_indexed hs ht h.indexed hstays happly with rfl | ⟨times, rfl⟩
    · exact h
    · refine ⟨by rw [index_retime]; exact h.indexed, ?_, hsettings⟩
      unfold recordedDate?
      rw [added_retime]
      exact h.recorded_eq
  · have hne : trip ≠ u.tripId := fun heq => hown heq.symm
    refine ⟨mt (heffect.spares hs ht hne).patternForTrip?_eq_none_iff.mp h.indexed, ?_, hsettings⟩
    unfold recordedDate?
    rw [heffect.get?_trips hs hne]
    exact h.recorded_eq

theorem purge {any : Bool} (h : s.Lives trip recorded settings) (hs : s.Consistent)
    (ht : s.Tracks) (hlater : ∀ date, recorded = some date → today.previous.previous < date)
    (hpurge : s.purge today = .ok (s', any)) : s'.Lives trip recorded settings := by
  rcases purge_cases hs ht today with ⟨-, -, -, hdone⟩ | ⟨-, mid, hdeparts, hdone⟩
  · cases hdone.symm.trans hpurge
    exact h
  · cases hdone.symm.trans hpurge
    have hnot : trip ∉ s.added.through today.previous.previous := fun hgone => by
      obtain ⟨announcement, hget, hdue⟩ := AddedTrips.mem_through_iff.mp hgone
      refine hdue (hlater announcement.date ?_)
      rw [← h.recorded_eq, recordedDate?, hget]
      rfl
    refine ⟨mt (hdeparts.spares hs ht hnot).patternForTrip?_eq_none_iff.mp h.indexed, ?_,
      hdeparts.settings_eq.trans h.settings_eq⟩
    show (mid.added.trips.get? trip).map Announcement.date = recorded
    rw [hdeparts.get?_trips, if_neg hnot]
    exact h.recorded_eq

theorem publish {now : Nat} {force : Bool} (h : s.Lives trip recorded settings)
    (hpublish : s.publish now force = .ok s') : s'.Lives trip recorded settings := by
  obtain ⟨publisher, -, hlast⟩ := Checked.bind_eq_ok_iff.mp hpublish
  cases hlast
  exact ⟨h.indexed, h.recorded_eq, h.settings_eq⟩

/-- A stage that neither withdraws the trip nor purges through its date lets it live. -/
theorem pass (h : s.Lives trip recorded settings) (hs : s.Consistent) (ht : s.Tracks)
    {stage : Stage} (hkeeps : ¬ stage.Withdraws trip)
    (hlater : ∀ date, recorded = some date → ¬ stage.PurgesThrough settings date)
    (hstage : s.pass stage = .ok s') : s'.Lives trip recorded settings := by
  have hbefore : ∀ today, stage.today? settings = some today →
      ∀ date, recorded = some date → today.previous.previous < date :=
    fun today htoday date hdate => Decidable.byContradiction fun hnot =>
      hlater date hdate ⟨today, htoday, hnot⟩
  cases stage with
  | apply u =>
    obtain ⟨⟨mid, result⟩, happly, hlast⟩ := Checked.bind_eq_ok_iff.mp hstage
    cases hlast
    exact h.apply hs ht hkeeps happly
  | settle today now =>
    obtain ⟨⟨last, purged⟩, hsettle, hlast⟩ := Checked.bind_eq_ok_iff.mp hstage
    cases hlast
    obtain ⟨mid, hpurge, hpublish⟩ := settle_spec hsettle
    rw [h.settings_eq] at hpurge
    refine Lives.publish ?_ hpublish
    split at hpurge
    · rename_i hsettings
      exact h.purge hs ht (hbefore today (if_pos hsettings)) hpurge
    · cases hpurge
      exact h
  | publish now force => exact h.publish hstage
  | purge today =>
    obtain ⟨⟨mid, any⟩, hpurge, hlast⟩ := Checked.bind_eq_ok_iff.mp hstage
    cases hlast
    exact h.purge hs ht (hbefore today rfl) hpurge

theorem passAll : ∀ {stages : List Stage} {s s' : Updater}, s.Lives trip recorded settings →
    s.Consistent → s.Tracks → (∀ stage ∈ stages, ¬ stage.Withdraws trip) →
    (∀ stage ∈ stages, ∀ date, recorded = some date → ¬ stage.PurgesThrough settings date) →
    Updater.passAll stages s = .ok s' → s'.Lives trip recorded settings
  | [], s, s', h, _, _, _, _, hrun => by
    cases hrun
    exact h
  | stage :: rest, s, s', h, hs, ht, hkeeps, hlater, hrun => by
    obtain ⟨mid, hmid, hrun⟩ := Checked.bind_eq_ok_iff.mp hrun
    have hone := h.pass hs ht (hkeeps stage List.mem_cons_self)
      (hlater stage List.mem_cons_self) hmid
    exact hone.passAll (hs.pass hmid) (ht.pass hs hmid)
      (fun stage hstage => hkeeps stage (List.mem_cons_of_mem _ hstage))
      (fun stage hstage => hlater stage (List.mem_cons_of_mem _ hstage)) hrun

end Lives

/-- **An added trip lives until its recorded date is purged.** In a reachable state let an update
that announces a trip be applied.

* A new trip is recorded for the date of the update. A trip that has a pattern already keeps the
  date that it has, which for a trip of the schedule is none.
* Through any run that does not withdraw the trip and does not purge through the recorded date, the
  index has a pattern for the trip, whose timetable has the trip on every date.
* The first purge after that which reaches the recorded date takes the trip out, also if it was
  announced for later dates since. -/
theorem added_trip_lives (h : s.Reachable) (hu : u.status = .added)
    (happly : s.apply u = .ok (s', .ok ())) :
    (s'.recordedDate? u.tripId =
      if s.index.patternForTrip? u.tripId = none then some u.date
      else s.recordedDate? u.tripId) ∧
    ∀ cs later, (∀ c ∈ cs, ∀ stage ∈ c.stages, ¬ stage.Withdraws u.tripId) →
      (∀ c ∈ cs, ∀ stage ∈ c.stages, ∀ date, s'.recordedDate? u.tripId = some date →
        ¬ stage.PurgesThrough s.settings date) →
      performAll cs s' = .ok later →
        (∃ p, later.index.patternForTrip? u.tripId = some p ∧
          ∀ date, (later.buffer.resolve p date).contains u.tripId = true) ∧
        ∀ today date, s'.recordedDate? u.tripId = some date → ¬ today.previous.previous < date →
          (∀ done, later.purgedThrough = some done → done < today.previous.previous) →
            ∃ gone, later.purge today = .ok (gone, true) ∧
              gone.index.patternForTrip? u.tripId = none := by
  have hs := h.consistent
  have ht := h.tracks
  have h' : s'.Reachable := h.perform (c := .apply u) (by rw [perform, happly]; rfl)
  refine ⟨recordedDate?_apply hs ht hu happly, fun cs later hkeeps hbefore hrun => ?_⟩
  have hlives : s'.Lives u.tripId (s'.recordedDate? u.tripId) s.settings :=
    ⟨indexed_of_apply hs ht hu happly, rfl, (effect_of_apply hs ht happly).settings_eq⟩
  have hlives' : later.Lives u.tripId (s'.recordedDate? u.tripId) s.settings := by
    rw [performAll_eq_passAll] at hrun
    refine hlives.passAll h'.consistent h'.tracks (fun stage hstage => ?_)
      (fun stage hstage => ?_) hrun
    · obtain ⟨c, hc, hmem⟩ := List.mem_flatMap.mp hstage
      exact hkeeps c hc stage hmem
    · obtain ⟨c, hc, hmem⟩ := List.mem_flatMap.mp hstage
      exact hbefore c hc stage hmem
  have hl := h'.performAll hrun
  refine ⟨?_, fun today date hdate hreached hdue => ?_⟩
  · obtain ⟨p, hp⟩ := Option.ne_none_iff_exists'.mp hlives'.indexed
    refine ⟨p, hp, fun date => ?_⟩
    rw [Timetable.contains_eq_true_iff,
      hl.tracks.trips_buffer_resolve (get?_of_patternForTrip? hl.consistent hp)]
    exact hl.consistent.index.mem_trips_of_patternForTrip? hp
  · rcases purge_cases hl.consistent hl.tracks today with ⟨done, hdone, hnot, -⟩ |
      ⟨-, mid, hdeparts, hpurge⟩
    · exact absurd (hdue done hdone) hnot
    · obtain ⟨announcement, hget, hrecorded⟩ :=
        Option.map_eq_some_iff.mp (hlives'.recorded_eq.trans hdate)
      have hmem : u.tripId ∈ later.added.through today.previous.previous :=
        AddedTrips.mem_through_iff.mpr ⟨announcement, hget, hrecorded ▸ hreached⟩
      have hsome : (later.added.through today.previous.previous).isEmpty = false :=
        List.isEmpty_eq_false_iff_exists_mem.mpr ⟨_, hmem⟩
      rw [hsome] at hpurge
      exact ⟨_, hpurge, hdeparts.patternForTrip?_eq_none hmem⟩

/-- The extra trip of the shuttle, announced for a date. -/
def extraTripOn (date : ServiceDate) : TripUpdate :=
  .adding ⟨"a", "n"⟩ ⟨"a", "r"⟩ 0 date
    [.ofTimes ⟨"a", "n"⟩ ⟨"a", "x"⟩ 0 .predicted date none (some 150),
      .ofTimes ⟨"a", "n"⟩ ⟨"a", "y"⟩ 1 .predicted date (some 250) none]

/-- The extra trip was announced for the first of March, and is announced again for the third. It
keeps the record of the first: a purge on the second lets it live, and one on the third takes it
out, with the timetable of the third. -/
theorem added_trip_lives_shuttle : shuttleWithExtra.Reachable ∧
    ∃ s', shuttleWithExtra.apply (extraTripOn shuttleDate.next.next) = .ok (s', .ok ()) ∧
      s'.recordedDate? ⟨"a", "n"⟩ = some shuttleDate ∧
      (∃ later p, performAll [.purge shuttleDate.next] s' = .ok later ∧
        later.index.patternForTrip? ⟨"a", "n"⟩ = some p ∧
        (later.buffer.resolve p shuttleDate.next.next).contains ⟨"a", "n"⟩ = true) ∧
      ∃ gone, s'.purge shuttleDate.next.next = .ok (gone, true) ∧
        gone.index.patternForTrip? ⟨"a", "n"⟩ = none ∧ shuttleDate < shuttleDate.next.next := by
  obtain ⟨s', happly, hrecord, hfirst, later, hrun⟩ : ∃ s',
      shuttleWithExtra.apply (extraTripOn shuttleDate.next.next) = .ok (s', .ok ()) ∧
        s'.recordedDate? ⟨"a", "n"⟩ = some shuttleDate ∧ s'.purgedThrough = none ∧
        ∃ later, performAll [.purge shuttleDate.next] s' = .ok later :=
    ⟨_, rfl, rfl, rfl, _, rfl⟩
  have hlives := (added_trip_lives reachable_shuttleWithExtra rfl happly).2
  have hrecorded : ∀ date, s'.recordedDate? ⟨"a", "n"⟩ = some date → date = shuttleDate :=
    fun date hdate => (Option.some.inj (hrecord.symm.trans hdate)).symm
  refine ⟨reachable_shuttleWithExtra, s', happly, hrecord, ?_, ?_⟩
  · obtain ⟨⟨p, hp, hheld⟩, -⟩ := hlives [.purge shuttleDate.next] later
      (fun c hc stage hstage => by
        rw [List.mem_singleton.mp hc] at hstage
        rw [List.mem_singleton.mp hstage]
        rintro ⟨u, hu, -⟩
        cases hu)
      (fun c hc stage hstage date hdate => by
        rw [List.mem_singleton.mp hc] at hstage
        rw [List.mem_singleton.mp hstage, hrecorded date hdate]
        rintro ⟨today, htoday, hreached⟩
        cases htoday
        exact hreached (by decide)) hrun
    exact ⟨later, p, hrun, hp, hheld _⟩
  · obtain ⟨gone, hpurge, hgone⟩ := (hlives [] s' (fun _ hc => absurd hc List.not_mem_nil)
      (fun _ hc => absurd hc List.not_mem_nil) rfl).2 shuttleDate.next.next shuttleDate hrecord
        (by decide) fun done hdone => by
          rw [hfirst] at hdone
          cases hdone
    exact ⟨gone, hpurge, hgone, by decide⟩

end LiveTimetable.Updater
