import LiveTimetable.Proofs.Live.Lifetimes

/-!
# The service of an added trip

An added trip runs by a service: the one that its update names, or one that is made up for the date.
The service is registered for the date of the update, but a service that is registered already is
left as it is. So an added trip runs on the date for which it is in the books unless its service
was there before, in the schedule or with another added trip, and does not run on that date.

* `Services.Extends`: services that were registered before are registered as they were.
* `Updater.Books`: the books have a trip for a date, and its pattern has its publication.
* `Updater.Change.books`: what is in the books was there before, or came with the change.
* `Updater.exists_addedBy`: so a run added each trip that its last state has in the books.
* `Updater.service_of_added_trip`: on which condition the service of an added trip runs on its date.
-/

namespace LiveTimetable

/-! ## Registering -/

namespace Services

variable {a b c : Services} {id id' : ServiceId} {zone : Zone} {date : ServiceDate}

/-- The services of `b` are those of `a`, as they are there, and more. -/
def Extends (b a : Services) : Prop :=
  ∀ id, a.contains id = true → b.table.get? id = a.table.get? id

theorem Extends.refl (a : Services) : a.Extends a := fun _ _ => rfl

theorem contains_congr (h : b.table.get? id = a.table.get? id) : b.contains id = a.contains id :=
  congrArg Option.isSome h

theorem Extends.contains (h : b.Extends a) (hid : a.contains id = true) :
    b.contains id = true := (contains_congr (h id hid)).trans hid

theorem Extends.trans (h : c.Extends b) (h' : b.Extends a) : c.Extends a := fun id hid =>
  (h id (h'.contains hid)).trans (h' id hid)

/-- A registered service runs on the dates that it ran on. -/
theorem Extends.runsOn_eq (h : b.Extends a) (hid : a.contains id = true) :
    b.runsOn id date = a.runsOn id date := by
  unfold runsOn
  rw [h id hid]

theorem register_of_contains (h : a.contains id = true) (dates : List ServiceDate) :
    a.register id zone dates = a := if_pos h

theorem get?_register (h : a.contains id = false) (dates : List ServiceDate) :
    (a.register id zone dates).table.get? id' =
      if id' = id then some ⟨zone, Table.ofList (dates.map fun d => (d, ()))⟩
      else a.table.get? id' := by
  unfold register
  rw [if_neg (by rw [h]; exact Bool.false_ne_true)]
  exact Table.get?_insert ..

/-- Registering a service leaves the others, and itself if it is there. -/
theorem extends_register (a : Services) (id : ServiceId) (zone : Zone)
    (dates : List ServiceDate) : (a.register id zone dates).Extends a := by
  intro id' hid'
  by_cases hid : a.contains id = true
  · rw [register_of_contains hid]
  · have hne : id' ≠ id := fun heq => hid (heq ▸ hid')
    rw [get?_register (Bool.not_eq_true _ ▸ hid), if_neg hne]

theorem contains_register (a : Services) (id : ServiceId) (zone : Zone)
    (dates : List ServiceDate) : (a.register id zone dates).contains id = true := by
  by_cases hid : a.contains id = true
  · rw [register_of_contains hid]
    exact hid
  · unfold contains Table.contains
    rw [get?_register (Bool.not_eq_true _ ▸ hid), if_pos rfl]
    rfl

/-- **A service that is registered for a date runs on it**, unless it was there and does not. -/
theorem runsOn_register_iff : (a.register id zone [date]).runsOn id date = true ↔
    (a.contains id = true → a.runsOn id date = true) := by
  by_cases hid : a.contains id = true
  · rw [register_of_contains hid]
    exact ⟨fun h _ => h, fun h => h hid⟩
  · refine iff_of_true ?_ fun h => absurd h hid
    unfold runsOn
    rw [get?_register (Bool.not_eq_true _ ▸ hid), if_pos rfl, Option.any_some]
    have hmem : date ∈ (Table.ofList ([date].map fun d => (d, ()))).keys :=
      Table.mem_keys_ofList.mpr ⟨(), List.mem_singleton_self _⟩
    obtain ⟨_, hget⟩ := Table.mem_keys_iff.mp hmem
    exact congrArg Option.isSome hget

end Services

namespace Updater

variable {s s' : Updater} {u : TripUpdate} {trip : TripId} {date : ServiceDate} {b : Baseline}
  {r : Except ApplyError Unit} {stopTimes : List StopTime}

/-! ## Announcements -/

/-- An update that adds a trip enters it. -/
theorem apply_of_newTrip? (h : s.newTrip? u = some b) : ∃ zone stopTimes,
    s.apply u = s.enter (u.filter .all) zone stopTimes ∧ stopTimes ≠ [] ∧ u.status = .added ∧
      s.index.patternForTrip? u.tripId = none ∧
      b = s.graph.publication (addedTrip u) stopTimes := by
  unfold newTrip? at h
  split at h
  · rename_i hcond
    obtain ⟨hstatus, hadded, hnew⟩ := hcond
    split at h
    · rename_i zone stopTimes hadmitted
      refine ⟨zone, stopTimes, ?_, stopTimes_ne_nil_of_admitted hadmitted, hstatus, hnew,
        (Option.some.inj h).symm⟩
      rw [apply_eq_of_new hstatus hadded hnew, hadmitted]
    · cases h
  · cases h

/-- The service of a trip that is entered is registered for the date of the update. -/
theorem services_enter (hs : s.Consistent) {zone : Zone}
    (hnew : s.index.patternForTrip? u.tripId = none) (hne : stopTimes ≠ [])
    (h : s.enter u zone stopTimes = .ok (s', r)) :
    s'.graph.services = s.graph.services.register (addedTrip u).serviceId zone [u.date] := by
  obtain ⟨-, made, graph, b, changed, henters, -, -, rfl⟩ := enter_cases hs hnew hne h
  exact henters.puts.services_eq

/-- The update adds its trip, with the publication `b`, and leads from `s` to `s'`. -/
structure Announces (s : Updater) (u : TripUpdate) (b : Baseline) (s' : Updater) : Prop where
  applied : s.apply u = .ok (s', .ok ())
  status_eq : u.status = .added
  isNew : s.index.patternForTrip? u.tripId = none
  trip_eq : b.trip = addedTrip u
  recorded : s'.recordedDate? u.tripId = some u.date
  registered : ∃ zone,
    s'.graph.services = s.graph.services.register b.trip.serviceId zone [u.date]

/-- A stage that adds a trip applies an update that does. -/
theorem announces_of_newTrip? (hs : s.Consistent) {stage : Stage} (h : s.pass stage = .ok s')
    (hentry : stage.newTrip? s = some b) : ∃ u, stage = .apply u ∧ s.Announces u b s' := by
  cases stage with
  | settle | publish | purge => cases hentry
  | apply u =>
    obtain ⟨⟨mid, result⟩, happly, hlast⟩ := Checked.bind_eq_ok_iff.mp h
    cases hlast
    obtain ⟨zone, stopTimes, henter, hne, hstatus, hnew, rfl⟩ := apply_of_newTrip? hentry
    have hrun := henter.symm.trans happly
    obtain ⟨rfl, -⟩ := enter_spec (u := u.filter .all) hs hnew hne hrun
    exact ⟨u, rfl, happly, hstatus, hnew, rfl, recordedDate?_enter (u := u.filter .all) hrun, zone,
      services_enter (u := u.filter .all) hs hnew hne hrun⟩

/-! ## Services over a run -/

theorem Change.services_eq (h : Change s none s') : s'.graph.services = s.graph.services := by
  cases h with
  | left hkeeps hmem hrev hrows hsound hgraph hb => exact hgraph.services_eq
  | retimed | dissolved | expired | published => rfl

theorem Quiet.services_eq (h : Quiet s s') : s'.graph.services = s.graph.services := by
  induction h with
  | refl => rfl
  | tail _ hlast ih => exact hlast.services_eq.trans ih

/-- **Runs leave the services that are registered.** -/
theorem services_passAll : ∀ {stages : List Stage} {s s' : Updater}, s.Consistent →
    passAll stages s = .ok s' → s'.graph.services.Extends s.graph.services
  | [], s, s', _, h => by
    cases h
    exact .refl _
  | stage :: rest, s, s', hs, h => by
    obtain ⟨mid, hmid, hrest⟩ := Checked.bind_eq_ok_iff.mp h
    refine (services_passAll (hs.pass hmid) hrest).trans ?_
    cases hentry : stage.newTrip? s with
    | none =>
      rw [(quiet_of_newTrip? hs hmid hentry).services_eq]
      exact .refl _
    | some b =>
      obtain ⟨u, -, hannounces⟩ := announces_of_newTrip? hs hmid hentry
      obtain ⟨zone, hregistered⟩ := hannounces.registered
      rw [hregistered]
      exact Services.extends_register _ _ _ _

/-! ## The books over a run -/

/-- The books have the trip of the publication for the date, and a kept pattern has the
publication. -/
structure Books (s : Updater) (date : ServiceDate) (b : Baseline) : Prop where
  recorded : s.recordedDate? b.trip.id = some date
  kept : ∃ y, s.graph.Keeps y ∧ ∃ row ∈ y.pattern.timetable.rows, row.published = b

/-- Striking a trip from the books records no date. -/
theorem map_date_of_erase {trips : Table TripId Announcement} {gone : TripId}
    (h : ((trips.erase gone).get? trip).map Announcement.date = some date) :
    (trips.get? trip).map Announcement.date = some date := by
  rw [Table.get?_erase] at h
  split at h
  · cases h
  · exact h

/-- **What is in the books was there before, or came with the change.** -/
theorem Change.books {entry : Option Baseline} (h : Change s entry s') (hs : s.Consistent)
    (hb : s'.Books date b) : s.Books date b ∨ entry = some b := by
  obtain ⟨hrecorded, y, hy, row, hrow, rfl⟩ := hb
  cases h with
  | retimed | expired | published => exact Or.inl ⟨hrecorded, y, hy, row, hrow, rfl⟩
  | @left trip old p graph b changed hkeeps hmem hrev hrows hsound hgraph hb =>
    refine Or.inl ⟨map_date_of_erase hrecorded, ?_⟩
    rcases hgraph.keeps_iff.mp hy with rfl | ⟨-, hold⟩
    · rw [hrows] at hrow
      exact ⟨old, hkeeps, row, List.mem_of_mem_eraseP hrow, rfl⟩
    · exact ⟨y, hold, row, hrow, rfl⟩
  | dissolved hkeeps htrips =>
    exact Or.inl ⟨map_date_of_erase hrecorded, y, (hs.graph.keeps_without hkeeps hy).2, row, hrow,
      rfl⟩
  | @entered services trip stopTimes made graph buffer changed date' hnew hgraph hb =>
    have hcases : (∃ z, s.graph.Keeps z ∧ row ∈ z.pattern.timetable.rows) ∨
        row = Row.ofBaseline (s.graph.publication trip stopTimes) := by
      rcases hgraph.puts.keeps_iff.mp hy with rfl | ⟨-, hold⟩
      · rw [hgraph.rows_eq] at hrow
        rcases List.mem_append.mp hrow with hrow | hrow
        · rcases hs.graph.under_cases y.course with ⟨z, hz, -, -, hrows⟩ | ⟨-, -, hrows⟩
          · exact Or.inl ⟨z, hz, hrows ▸ hrow⟩
          · exact absurd (hrows ▸ hrow) List.not_mem_nil
        · exact Or.inr (List.mem_singleton.mp hrow)
      · exact Or.inl ⟨y, hold, hrow⟩
    rcases hcases with ⟨z, hz, hrow⟩ | rfl
    · -- The trip of a row that was there is not the new one.
      have hne : row.published.trip.id ≠ trip.id := by
        intro heq
        have hmem : trip.id ∈ z.pattern.trips := Timetable.mem_trips_iff.mpr ⟨row, hrow, heq⟩
        rw [hs.patternForTrip?_eq hz hmem] at hnew
        cases hnew
      refine Or.inl ⟨?_, z, hz, row, hrow, rfl⟩
      have hbooked : ((s.added.insert trip.id date' made).trips.get?
          row.published.trip.id).map Announcement.date = some date := hrecorded
      rw [AddedTrips.insert_eq (hs.get?_trips_eq_none hnew), Table.get?_insert, if_neg hne]
        at hbooked
      exact hbooked
    · exact Or.inr rfl

theorem Quiet.books (h : Quiet s s') (hs : s.Consistent) (hb : s'.Books date b) :
    s.Books date b := by
  induction h with
  | refl => exact hb
  | tail hquiet hlast ih =>
    exact ih ((hlast.books (Quiet.consistent hquiet hs) hb).resolve_right nofun)

/-- One of the stages from `first` to `last` applies the update in the state `origin`, and adds its
trip with the publication `b`. -/
def AddedBy (stages : List Stage) (first : Updater) (u : TripUpdate) (b : Baseline)
    (origin last : Updater) : Prop :=
  ∃ before after next, stages = before ++ .apply u :: after ∧ passAll before first = .ok origin ∧
    origin.Announces u b next ∧ passAll after next = .ok last

/-- **A run added what its last state has in the books**, unless it was there from the first. -/
theorem exists_addedBy : ∀ {stages : List Stage} {s s' : Updater}, s.Consistent →
    passAll stages s = .ok s' → s'.Books date b → s.Books date b ∨
      ∃ u origin, AddedBy stages s u b origin s' ∧ u.date = date
  | [], s, s', _, h, hb => by
    cases h
    exact Or.inl hb
  | stage :: rest, s, s', hs, h, hb => by
    obtain ⟨mid, hmid, hrest⟩ := Checked.bind_eq_ok_iff.mp h
    rcases exists_addedBy (hs.pass hmid) hrest hb with hbooks |
      ⟨u, origin, ⟨before, after, next, rfl, hbefore, hadded⟩, hdate⟩
    · cases hentry : stage.newTrip? s with
      | none => exact Or.inl ((quiet_of_newTrip? hs hmid hentry).books hs hbooks)
      | some new =>
        rcases (change_of_newTrip? hs hmid hentry).books hs hbooks with hold | heq
        · exact Or.inl hold
        · cases heq
          obtain ⟨u, rfl, hannounces⟩ := announces_of_newTrip? hs hmid hentry
          refine Or.inr ⟨u, s, ⟨[], rest, mid, rfl, rfl, hannounces, hrest⟩, ?_⟩
          have hrecorded := hbooks.recorded
          rw [hannounces.trip_eq] at hrecorded
          exact Option.some.inj (hannounces.recorded.symm.trans hrecorded)
    · refine Or.inr ⟨u, origin, ⟨stage :: before, after, next, rfl, ?_, hadded⟩, hdate⟩
      rw [passAll, hmid]
      exact hbefore

/-! ## The service of a trip in the books -/

/-- What the books have for a date is published in its pattern. -/
theorem Consistent.exists_books (hs : s.Consistent) (h : s.recordedDate? trip = some date) :
    ∃ y b, s.added.patternFor? trip = some y ∧ y.pattern.published? trip = some b ∧
      b.trip.id = trip ∧ s.Books date b := by
  obtain ⟨y, hy, hmem⟩ := hs.contains_iff.mp (contains_of_recordedDate? h)
  obtain ⟨b, hb, hid, -⟩ := hs.exists_published hy hmem
  obtain ⟨row, hrow, hpublished⟩ := Option.map_eq_some_iff.mp hb
  exact ⟨y, b, hs.patternFor?_iff.mpr ⟨hy, hmem⟩, hb, hid, hid ▸ h, y, hy, row,
    List.mem_of_find?_eq_some hrow, hpublished⟩

/-- **On which condition the service of an added trip runs on its date.** In the state after a run
over the network of a schedule let the books have a trip for a date. Its pattern has the trip as an
update of the run added it, for this date, and the service of the trip is registered. It runs on the
date, unless it was registered before that update and did not run on the date. -/
theorem service_of_added_trip {f : Fixture} {x : TransitIndex} {g : Graph}
    (hbuild : f.build.run = .ok (.ok (x, g))) {settings : Settings} {cs : List Command}
    (hrun : performAll cs (.start x g settings) = .ok s)
    (hrecorded : s.recordedDate? trip = some date) :
    ∃ y b u origin, s.added.patternFor? trip = some y ∧ y.pattern.published? trip = some b ∧
      AddedBy (cs.flatMap Command.stages) (.start x g settings) u b origin s ∧
      u.tripId = trip ∧ u.date = date ∧
      s.graph.services.contains b.trip.serviceId = true ∧
      (s.graph.services.runsOn b.trip.serviceId date = true ↔
        (origin.graph.services.contains b.trip.serviceId = true →
          origin.graph.services.runsOn b.trip.serviceId date = true)) := by
  have hfirst := consistent_start (Fixture.build_spec hbuild) settings
  have hs := hfirst.performAll hrun
  rw [performAll_eq_passAll] at hrun
  obtain ⟨y, b, hy, hb, hid, hbooks⟩ := hs.exists_books hrecorded
  rcases exists_addedBy hfirst hrun hbooks with hnone | ⟨u, origin, hadded, rfl⟩
  · cases hnone.recorded
  · have haddedBy := hadded
    obtain ⟨before, after, next, -, hbefore, hannounces, hafter⟩ := haddedBy
    have hpass : origin.pass (.apply u) = .ok next := by
      rw [pass, hannounces.applied]
      rfl
    have hnext : next.Consistent := (hfirst.passAll hbefore).pass hpass
    obtain ⟨zone, hregistered⟩ := hannounces.registered
    have hcontains : next.graph.services.contains b.trip.serviceId = true := by
      rw [hregistered]
      exact Services.contains_register ..
    have hextends := services_passAll hnext hafter
    refine ⟨y, b, u, origin, hy, hb, hadded, ?_, rfl, hextends.contains hcontains, ?_⟩
    · rw [← hid, hannounces.trip_eq]
      rfl
    · rw [hextends.runsOn_eq hcontains, hregistered]
      exact Services.runsOn_register_iff

/-- A trip of the given name, chartered for a date: all charters run by one service. -/
def charter (name : String) (date : ServiceDate) : TripUpdate :=
  { TripUpdate.adding ⟨"a", name⟩ ⟨"a", "r"⟩ 0 date
    [.ofTimes ⟨"a", name⟩ ⟨"a", "x"⟩ 0 .predicted date none (some 150),
      .ofTimes ⟨"a", name⟩ ⟨"a", "y"⟩ 1 .predicted date (some 250) none] with
    serviceId := some ⟨"a", "s1"⟩ }

/-- The shuttle's network with a charter on the first of March and one on the third. -/
def charters : List Command :=
  [.apply (charter "n" shuttleDate), .apply (charter "m" shuttleDate.next.next)]

/-- The second charter runs by the service that the first one had registered. -/
theorem service_of_added_trip_charters : ∃ s x g,
    (shuttle.build.run = .ok (.ok (x, g)) ∧ performAll charters (.start x g .standard) = .ok s ∧
      s.recordedDate? ⟨"a", "m"⟩ = some shuttleDate.next.next) ∧
    ∃ y b u origin, s.added.patternFor? ⟨"a", "m"⟩ = some y ∧
      y.pattern.published? ⟨"a", "m"⟩ = some b ∧
      AddedBy (charters.flatMap Command.stages) (.start x g .standard) u b origin s ∧
      u.tripId = ⟨"a", "m"⟩ ∧ u.date = shuttleDate.next.next ∧
      s.graph.services.contains b.trip.serviceId = true ∧
      (s.graph.services.runsOn b.trip.serviceId shuttleDate.next.next = true ↔
        (origin.graph.services.contains b.trip.serviceId = true →
          origin.graph.services.runsOn b.trip.serviceId shuttleDate.next.next = true)) := by
  obtain ⟨s, x, g, hbuild, hrun, hrecorded⟩ : ∃ s x g, shuttle.build.run = .ok (.ok (x, g)) ∧
      performAll charters (.start x g .standard) = .ok s ∧
      s.recordedDate? ⟨"a", "m"⟩ = some shuttleDate.next.next := ⟨_, _, _, rfl, rfl, rfl⟩
  exact ⟨s, x, g, ⟨hbuild, hrun, hrecorded⟩, service_of_added_trip hbuild hrun hrecorded⟩

/-- So it is not true that every added trip has a service that runs on its date. -/
theorem charter_off_service : ¬ ∀ s : Updater, s.Reachable → ∀ trip date y b,
    s.recordedDate? trip = some date → s.added.patternFor? trip = some y →
      y.pattern.published? trip = some b →
        s.graph.services.runsOn b.trip.serviceId date = true := by
  intro hall
  have hreachable : (shuttleAfter charters).Reachable :=
    ⟨shuttle, _, _, .standard, charters, rfl, rfl⟩
  have hruns := hall _ hreachable ⟨"a", "m"⟩ shuttleDate.next.next _ _ rfl rfl rfl
  exact Bool.false_ne_true hruns

end Updater

end LiveTimetable
