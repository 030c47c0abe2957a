import LiveTimetable.Proofs.Live.Frame
import LiveTimetable.Proofs.Publication.Syncing

/-!
# Admitting new trips

An update that adds a trip which is not there is looked at in a fixed order. A patch must be left
after the cleanups, then the agency of the trip must be known, and then each patch in turn must name
a known stop and have a time. The first objection refuses the update. If there is none the trip is
there at once: it has a pattern, and runs as published on every date, also where the pattern was
there before and other trips of it run late.

* `Updater.Acceptable`, `Updater.Objection`: one or the other holds of an update
  (`Updater.acceptable_or_objection`), and `Updater.admitted` tells which.
* `Updater.Tracks.current?_resolve_entered`: a trip that enters runs as published on every date.
* `Updater.admission_exact`: what becomes of an update that adds a trip which is not there.
-/

namespace LiveTimetable

/-- The call of a new trip that a patch describes, if it has a time; a single time stands for both
arrival and departure. -/
def StopPatch.call? (p : StopPatch) : Option Call :=
  match p.arrival, p.departure with
  | some arrival, some departure => some ⟨arrival, departure, .regular, .regular⟩
  | some t, none | none, some t => some ⟨t, t, .regular, .regular⟩
  | none, none => none

namespace Updater

variable {x : TransitIndex} {u : TripUpdate} {trip : TripId} {p : StopPatch}
  {patches : List StopPatch} {e : ApplyError}

/-! ## Objections -/

/-- The patch names a known stop and has a time. -/
def Usable (x : TransitIndex) (p : StopPatch) : Prop :=
  x.stops.contains p.stopId = true ∧ (p.arrival.isSome = true ∨ p.departure.isSome = true)

/-- Why a patch is of no use for a new trip. -/
inductive Unusable (x : TransitIndex) (trip : TripId) (p : StopPatch) : ApplyError → Prop
  | unknownStop (hstop : x.stops.contains p.stopId = false) :
      Unusable x trip p (.unknownStop trip p.stopId)
  | missingTimes (hstop : x.stops.contains p.stopId = true) (harrival : p.arrival = none)
      (hdeparture : p.departure = none) : Unusable x trip p (.missingTimes trip p.stopId)

/-- Nothing speaks against the trip that a cleared update adds. -/
structure Acceptable (x : TransitIndex) (u : TripUpdate) : Prop where
  patches_ne_nil : u.patches ≠ []
  agency_known : x.agencies.contains u.tripId.agency = true
  usable : ∀ p ∈ u.patches, Usable x p

/-- The first thing that speaks against the trip that a cleared update adds. -/
inductive Objection (x : TransitIndex) (u : TripUpdate) : ApplyError → Prop
  | empty (hempty : u.patches = []) : Objection x u (.emptyAfterFilter u.tripId)
  | unknownAgency (hne : u.patches ≠ []) (hagency : x.agencies.contains u.tripId.agency = false) :
      Objection x u (.unknownAgency u.tripId)
  | unusable {before after : List StopPatch} {p : StopPatch} {e : ApplyError}
      (hagency : x.agencies.contains u.tripId.agency = true)
      (hpatches : u.patches = before ++ p :: after) (hbefore : ∀ q ∈ before, Usable x q)
      (hp : Unusable x u.tripId p e) : Objection x u e

theorem usable_or_unusable (x : TransitIndex) (trip : TripId) (p : StopPatch) :
    Usable x p ∨ ∃ e, Unusable x trip p e := by
  cases hstop : x.stops.contains p.stopId with
  | false => exact Or.inr ⟨_, .unknownStop hstop⟩
  | true =>
    cases harrival : p.arrival with
    | some t => exact Or.inl ⟨hstop, Or.inl (by rw [harrival]; rfl)⟩
    | none =>
      cases hdeparture : p.departure with
      | some t => exact Or.inl ⟨hstop, Or.inr (by rw [hdeparture]; rfl)⟩
      | none => exact Or.inr ⟨_, .missingTimes hstop harrival hdeparture⟩

/-- Of patches that are not all usable one is the first that is not. -/
theorem usable_or_first_unusable (x : TransitIndex) (trip : TripId) (patches : List StopPatch) :
    (∀ p ∈ patches, Usable x p) ∨ ∃ before p after e, patches = before ++ p :: after ∧
      (∀ q ∈ before, Usable x q) ∧ Unusable x trip p e := by
  induction patches with
  | nil => exact Or.inl fun p hp => absurd hp List.not_mem_nil
  | cons first rest ih =>
    rcases usable_or_unusable x trip first with hfirst | ⟨e, he⟩
    · rcases ih with hrest | ⟨before, p, after, e, rfl, hbefore, he⟩
      · exact Or.inl (List.forall_mem_cons.mpr ⟨hfirst, hrest⟩)
      · exact Or.inr ⟨first :: before, p, after, e, rfl,
          List.forall_mem_cons.mpr ⟨hfirst, hbefore⟩, he⟩
    · exact Or.inr ⟨[], first, rest, e, rfl, fun q hq => absurd hq List.not_mem_nil, he⟩

theorem acceptable_or_objection (x : TransitIndex) (u : TripUpdate) :
    Acceptable x u ∨ ∃ e, Objection x u e := by
  by_cases hempty : u.patches = []
  · exact Or.inr ⟨_, .empty hempty⟩
  · cases hagency : x.agencies.contains u.tripId.agency with
    | false => exact Or.inr ⟨_, .unknownAgency hempty hagency⟩
    | true =>
      rcases usable_or_first_unusable x u.tripId u.patches with
        hall | ⟨before, p, after, e, hpatches, hbefore, hp⟩
      · exact Or.inl ⟨hempty, hagency, hall⟩
      · exact Or.inr ⟨e, .unusable hagency hpatches hbefore hp⟩

/-! ## Stop times -/

theorem exists_stopTimeOf (h : Usable x p) (trip : TripId) (sequence : Nat) :
    ∃ t, stopTimeOf x trip sequence p = .ok t ∧ t.stopId = p.stopId ∧
      some (Call.ofStopTime t) = p.call? := by
  obtain ⟨hstop, htimed⟩ := h
  unfold stopTimeOf StopPatch.call?
  rw [if_pos hstop]
  cases harrival : p.arrival with
  | some arrival => cases p.departure <;> exact ⟨_, rfl, rfl, rfl⟩
  | none =>
    cases hdeparture : p.departure with
    | some departure => exact ⟨_, rfl, rfl, rfl⟩
    | none =>
      rw [harrival, hdeparture] at htimed
      exact absurd htimed (by decide)

theorem stopTimeOf_of_unusable (h : Unusable x trip p e) (sequence : Nat) :
    stopTimeOf x trip sequence p = .error e := by
  unfold stopTimeOf
  cases h with
  | unknownStop hstop => rw [hstop, if_neg Bool.false_ne_true]
  | missingTimes hstop harrival hdeparture =>
    rw [if_pos hstop, harrival, hdeparture]
    rfl

/-- Patches that are all usable give the stop times of their calls. -/
theorem exists_stopTimesOf (h : ∀ p ∈ patches, Usable x p) (trip : TripId) (sequence : Nat) :
    ∃ stopTimes, stopTimesOf x trip sequence patches = .ok stopTimes ∧
      stopTimes.map StopTime.stopId = patches.map StopPatch.stopId ∧
      (stopTimes.map Call.ofStopTime).map some = patches.map StopPatch.call? := by
  induction patches generalizing sequence with
  | nil => exact ⟨[], rfl, rfl, rfl⟩
  | cons first rest ih =>
    obtain ⟨hfirst, hrest⟩ := List.forall_mem_cons.mp h
    obtain ⟨t, ht, hstop, hcall⟩ := exists_stopTimeOf hfirst trip sequence
    obtain ⟨others, hothers, hstops, hcalls⟩ := ih hrest (sequence + 1)
    refine ⟨t :: others, ?_, ?_, ?_⟩
    · rw [stopTimesOf, ht, hothers]
      rfl
    · rw [List.map_cons, List.map_cons, hstop, hstops]
    · rw [List.map_cons, List.map_cons, List.map_cons, hcall, hcalls]

/-- The first patch that is not usable is what the stop times fail for. -/
theorem stopTimesOf_of_unusable {before : List StopPatch} (after : List StopPatch)
    (hbefore : ∀ q ∈ before, Usable x q) (hp : Unusable x trip p e) (sequence : Nat) :
    stopTimesOf x trip sequence (before ++ p :: after) = .error e := by
  induction before generalizing sequence with
  | nil =>
    rw [List.nil_append, stopTimesOf, stopTimeOf_of_unusable hp]
    rfl
  | cons first rest ih =>
    obtain ⟨hfirst, hrest⟩ := List.forall_mem_cons.mp hbefore
    obtain ⟨t, ht, -, -⟩ := exists_stopTimeOf hfirst trip sequence
    rw [List.cons_append, stopTimesOf, ht, ih hrest (sequence + 1)]
    rfl

/-- An update to which nothing is objected is admitted, with the stops and calls of its patches. -/
theorem Acceptable.admitted (h : Acceptable x u) : ∃ zone stopTimes,
    admitted x u = .ok (zone, stopTimes) ∧
      stopTimes.map StopTime.stopId = u.patches.map StopPatch.stopId ∧
      (stopTimes.map Call.ofStopTime).map some = u.patches.map StopPatch.call? := by
  obtain ⟨agency, hagency⟩ := Option.isSome_iff_exists.mp h.agency_known
  obtain ⟨stopTimes, hstopTimes, hstops, hcalls⟩ := exists_stopTimesOf h.usable u.tripId 0
  refine ⟨agency.zone, stopTimes, ?_, hstops, hcalls⟩
  unfold Updater.admitted
  rw [if_neg fun hempty => h.patches_ne_nil (List.isEmpty_iff.mp hempty), hagency, hstopTimes]
  rfl

/-- The first objection is the refusal. -/
theorem Objection.admitted (h : Objection x u e) : admitted x u = .error e := by
  unfold Updater.admitted
  cases h with
  | empty hempty => rw [if_pos (List.isEmpty_iff.mpr hempty)]
  | unknownAgency hne hagency =>
    have hnone : x.agencies.get? u.tripId.agency = none :=
      Option.not_isSome_iff_eq_none.mp (Bool.eq_false_iff.mp hagency)
    rw [if_neg fun hempty => hne (List.isEmpty_iff.mp hempty), hnone]
  | @unusable before after p e hagency hpatches hbefore hp =>
    obtain ⟨agency, hsome⟩ := Option.isSome_iff_exists.mp hagency
    rw [hpatches, if_neg (by simp), hsome, stopTimesOf_of_unusable after hbefore hp]
    rfl

/-- The first objection is the only one. -/
theorem Objection.unique {e' : ApplyError} (h : Objection x u e) (h' : Objection x u e') :
    e = e' :=
  Except.error.inj (h.admitted.symm.trans h'.admitted)

theorem Acceptable.not_objection (h : Acceptable x u) : ¬ Objection x u e := by
  obtain ⟨zone, stopTimes, hadmitted, -⟩ := h.admitted
  intro he
  cases hadmitted.symm.trans he.admitted

end Updater

/-! ## Times on every date -/

namespace Timetable

/-- **A trip that the next revision of a pattern brings runs as published** in a timetable that
follows it. -/
theorem Tracks.current?_follow_of_new {t : Timetable} {key : PatternDate} {p p' : Pattern}
    {b : Baseline} (ht : t.Tracks key p) (hnodup : p.trips.Nodup) (hp' : p'.WellFormed)
    (hnext : p'.Continues p) (hstops : t.stops.length = p'.stops.length)
    (hb : Row.ofBaseline b ∈ p'.timetable.rows) (hnew : b.trip.id ∉ p.trips) :
    (Buffer.follow p' t).timetable.current? b.trip.id = some (.scheduled b) := by
  have hnodup' : (Buffer.follow p' t).timetable.trips.Nodup := by
    rw [(ht.follow hnodup hp' hnext hstops).trips_eq]
    exact hp'.nodup
  have hnew' : b.trip.id ∉ t.rows.map Row.tripId := (congrArg (b.trip.id ∉ ·) ht.trips_eq).mpr hnew
  have hrow : Row.ofBaseline b ∈ (Buffer.follow p' t).timetable.rows := by
    rw [ht.follow_rows hnodup hp' hnext hstops]
    exact List.mem_append_right _ (List.mem_map_of_mem
      (List.mem_filter.mpr ⟨List.mem_map_of_mem hb, decide_eq_true hnew'⟩))
  exact congrArg (Option.map Row.current) ((row?_eq_some_iff hnodup').mpr ⟨hrow, rfl⟩)

end Timetable

namespace Updater

variable {s s' : Updater} {u : TripUpdate} {services : Services} {b : Baseline} {made : Synthesized}
  {graph : Graph}

/-- **A trip that enters runs as published on every date**, also where a timetable of its pattern
was held before. -/
theorem Tracks.current?_resolve_entered (ht : s.Tracks) (hs : s.Consistent)
    (hnew : s.index.patternForTrip? b.trip.id = none)
    (hgraph : { s.graph with services }.Enters b made graph) {buffer : Buffer} {changed : Bool}
    (hb : s.buffer.sync made.pattern = (buffer, .ok changed)) (date : ServiceDate) :
    (buffer.resolve made.pattern date).current? b.trip.id = some (.scheduled b) := by
  have hid : made.pattern.id = s.graph.numberUnder made.course := hgraph.id_eq
  have hrow := hgraph.mem_rows
  unfold Buffer.resolve
  rw [(hs.sync_follows hgraph.sound hid hb).get?_timetable]
  unfold Buffer.get?
  cases hheld : s.buffer.timetables.get? ⟨made.pattern.id, date⟩ with
  | none =>
    have hown := (Timetable.row?_eq_some_iff hgraph.sound.wellFormed.nodup).mpr ⟨hrow, rfl⟩
    exact congrArg (Option.map Row.current) hown
  | some held =>
    obtain ⟨q, hq, htracks⟩ := ht _ held hheld
    obtain ⟨q', hq', hstops⟩ := hs.buffered _ held hheld
    cases hq.symm.trans hq'
    obtain ⟨y, hy, -, rfl, -⟩ := hs.kept_of_numberUnder (hid ▸ hq)
    have hfresh : b.trip.id ∉ y.pattern.trips :=
      hs.index.not_mem_of_patternForTrip?_eq_none hnew hq (hs.graph.sound y hy).isSynthesized
    rw [Option.map_some, Option.map_some, if_pos rfl, Option.getD_some]
    refine htracks.current?_follow_of_new (hs.index.pattern _ _ hq).nodup hgraph.sound.wellFormed
      (hs.continues_of_enters hgraph hq) ?_ hrow hfresh
    rw [hstops, hs.stops_eq_of_numberUnder hid _ hq]

/-! ## Admission -/

/-- The trip that a cleared update adds is there: the index finds it in the pattern `p`, which
publishes it as `b`, and it runs like that on every date. -/
structure Admits (s : Updater) (u : TripUpdate) (p : Pattern) (b : Baseline) : Prop where
  found : s.index.patternForTrip? u.tripId = some p
  isSynthesized : p.isSynthesized = true
  /-- Without a route of its own the trip is on one by its name. -/
  routeId_eq : p.routeId = u.routeId.getD u.tripId
  stops_eq : p.stops = u.patches.map StopPatch.stopId
  published_eq : p.published? u.tripId = some b
  trip_eq : b.trip = addedTrip u
  calls_eq : b.calls.map some = u.patches.map StopPatch.call?
  runs : ∀ date, (s.buffer.resolve p date).current? u.tripId = some (.scheduled b)

/-- There is a pattern for the trip that a cleared update adds to join, or a number for a new
one. -/
def HasRoom (s : Updater) (u : TripUpdate) : Prop :=
  s.graph.synthesized.get? ⟨u.routeId.getD u.tripId, u.patches.map StopPatch.stopId⟩ = none →
    s.graph.nextPattern + 1 < 4294967296

/-- A trip that enters is there. -/
theorem admits_of_enter (hs : s.Consistent) (ht : s.Tracks) {zone : Zone}
    {stopTimes : List StopTime} {r : Except ApplyError Unit}
    (hnew : s.index.patternForTrip? u.tripId = none) (hne : stopTimes ≠ [])
    (hstops : stopTimes.map StopTime.stopId = u.patches.map StopPatch.stopId)
    (hcalls : (stopTimes.map Call.ofStopTime).map some = u.patches.map StopPatch.call?)
    (h : s.enter u zone stopTimes = .ok (s', r)) : r = .ok () ∧ ∃ p b, s'.Admits u p b := by
  obtain ⟨rfl, made, graph, buffer, changed, hgraph, hmade, hb, rfl⟩ := enter_cases hs hnew hne h
  have hrow := hgraph.mem_rows
  refine ⟨rfl, made.pattern, s.graph.publication (addedTrip u) stopTimes,
    patternForTrip?_register_of_mem (hs.replaces_of_enters hgraph) (Pattern.mem_trips_of_mem hrow),
    hgraph.sound.isSynthesized, hgraph.routeId_eq, hmade.trans hstops, ?_, rfl, hcalls,
    ht.current?_resolve_entered hs hnew hgraph hb⟩
  exact (Buffer.published?_eq_some_iff hgraph.sound.wellFormed.nodup).mpr
    ⟨List.mem_map_of_mem hrow, rfl⟩

/-- An update that adds a trip which is not there is refused for the first objection, or applied, or
it overflows the counter of patterns. -/
theorem apply_cases_of_new (hs : s.Consistent) (ht : s.Tracks) (hstatus : u.status = .added)
    (hnew : s.index.patternForTrip? u.tripId = none) :
    (∃ e, Objection s.index (u.filter .all) e ∧ s.apply u = .ok (s, .error e)) ∨
    Acceptable s.index (u.filter .all) ∧
      (s.HasRoom (u.filter .all) ∧
          (∃ s' p b, s.apply u = .ok (s', .ok ()) ∧ s'.Admits (u.filter .all) p b) ∨
        ¬ s.HasRoom (u.filter .all) ∧ s.apply u = .error .overflow) := by
  have hadded : s.added.contains u.tripId = false := by
    unfold AddedTrips.contains Table.contains
    rw [hs.get?_trips_eq_none hnew]
    rfl
  rw [apply_eq_of_new hstatus hadded hnew]
  rcases acceptable_or_objection s.index (u.filter .all) with hok | ⟨e, he⟩
  · obtain ⟨zone, stopTimes, hadmitted, hstops, hcalls⟩ := hok.admitted
    have hne := stopTimes_ne_nil_of_admitted hadmitted
    have hcourse : (⟨(u.filter .all).routeId.getD (u.filter .all).tripId,
        (u.filter .all).patches.map StopPatch.stopId⟩ : Course) =
          .of (addedTrip (u.filter .all)) stopTimes := by
      rw [← hstops]
      rfl
    rw [hadmitted]
    refine Or.inr ⟨hok, ?_⟩
    unfold HasRoom
    rw [hcourse]
    by_cases hroom : s.graph.synthesized.get? (.of (addedTrip (u.filter .all)) stopTimes) = none →
      s.graph.nextPattern + 1 < 4294967296
    · obtain ⟨s', r, henter⟩ := exists_enter hs zone hne hroom
      obtain ⟨rfl, p, b, hadmits⟩ :=
        admits_of_enter (u := u.filter .all) hs ht hnew hne hstops hcalls henter
      exact Or.inl ⟨hroom, s', p, b, henter, hadmits⟩
    · obtain ⟨hget, hids⟩ := Classical.not_imp.mp hroom
      exact Or.inr ⟨hroom, enter_of_exhausted zone hne hget hids⟩
  · refine Or.inl ⟨e, he, ?_⟩
    rw [he.admitted]

/-- **What becomes of an update that adds a trip which is not there.** Take a reachable state.

* The update is refused, without effect, for the first objection to it.
* It is applied exactly if there is none: a patch is left after the cleanups, the agency is known,
  and every patch names a known stop and has a time. The one thing that can come between is the
  overflow of the counter of patterns, if the trip needs a new one.
* When it is applied, the index finds the trip in a synthesized pattern with its route and the stops
  of its patches, which publishes it with the times of the patches; and on every date, also if the
  buffer held the timetable of a pattern that the trip joined, it runs exactly as published. -/
theorem admission_exact (h : s.Reachable) (hstatus : u.status = .added)
    (hnew : s.index.patternForTrip? u.tripId = none) :
    (∀ s' e, s.apply u = .ok (s', .error e) ↔ s' = s ∧ Objection s.index (u.filter .all) e) ∧
    ((∃ s', s.apply u = .ok (s', .ok ())) ↔
      Acceptable s.index (u.filter .all) ∧ s.HasRoom (u.filter .all)) ∧
    (∀ fault, s.apply u = .error fault ↔ fault = .overflow ∧
      Acceptable s.index (u.filter .all) ∧ ¬ s.HasRoom (u.filter .all)) ∧
    ∀ s', s.apply u = .ok (s', .ok ()) → ∃ p b, s'.Admits (u.filter .all) p b := by
  rcases apply_cases_of_new h.consistent h.tracks hstatus hnew with
    ⟨e, he, happly⟩ | ⟨hok, ⟨hroom, s', p, b, happly, hadmits⟩ | ⟨hroom, happly⟩⟩
  · rw [happly]
    refine ⟨fun s' e' => ⟨?_, ?_⟩,
      iff_of_false (fun ⟨_, h⟩ => nomatch h) fun hok => hok.1.not_objection he,
      fun fault => iff_of_false nofun fun hno => hno.2.1.not_objection he, fun _ h => nomatch h⟩
    · rintro ⟨⟩
      exact ⟨rfl, he⟩
    · rintro ⟨rfl, he'⟩
      rw [he.unique he']
  · rw [happly]
    refine ⟨fun s' e => iff_of_false nofun fun he => hok.not_objection he.2,
      iff_of_true ⟨s', rfl⟩ ⟨hok, hroom⟩, fun fault => iff_of_false nofun fun hno => hno.2.2 hroom,
      ?_⟩
    rintro s' ⟨⟩
    exact ⟨p, b, hadmits⟩
  · rw [happly]
    refine ⟨fun s' e => iff_of_false nofun fun he => hok.not_objection he.2,
      iff_of_false (fun ⟨_, h⟩ => nomatch h) fun hyes => hroom hyes.2, fun fault => ⟨?_, ?_⟩,
      fun _ h => nomatch h⟩
    · rintro ⟨⟩
      exact ⟨rfl, hok, hroom⟩
    · rintro ⟨rfl, -⟩
      rfl

/-- A third trip joins the pattern of two others, whose timetable for the day is held since one of
them runs late. On the day and on the next the trip runs as its patches have it. A trip to a stop
that is not known is refused. -/
theorem admission_exact_shuttle : shuttleWithTwo.Reachable ∧
    (shuttleWithTwo.buffer.get? ⟨1⟩ shuttleDate).isSome = true ∧
    (∃ s' p b, shuttleWithTwo.apply (extraTrip "o" "x" "y" 180 280) = .ok (s', .ok ()) ∧
      s'.index.patternForTrip? ⟨"a", "o"⟩ = some p ∧ p.id = ⟨1⟩ ∧
      p.stops = [⟨"a", "x"⟩, ⟨"a", "y"⟩] ∧
      b.calls = [180, 280].map (fun t => ⟨t, t, .regular, .regular⟩) ∧
      (s'.buffer.resolve p shuttleDate).current? ⟨"a", "o"⟩ = some (.scheduled b) ∧
      (s'.buffer.resolve p shuttleDate.next).current? ⟨"a", "o"⟩ = some (.scheduled b)) ∧
    shuttleWithTwo.apply (extraTrip "q" "x" "z" 180 280) =
      .ok (shuttleWithTwo, .error (.unknownStop ⟨"a", "q"⟩ ⟨"a", "z"⟩)) := by
  refine ⟨reachable_shuttleWithTwo, rfl, ?_, ?_⟩
  · obtain ⟨-, -, -, hthere⟩ := admission_exact (u := extraTrip "o" "x" "y" 180 280)
      reachable_shuttleWithTwo rfl rfl
    obtain ⟨s', happly, hid⟩ : ∃ s',
      shuttleWithTwo.apply (extraTrip "o" "x" "y" 180 280) = .ok (s', .ok ()) ∧
        (s'.index.patternForTrip? ⟨"a", "o"⟩).map Pattern.id = some ⟨1⟩ := ⟨_, rfl, rfl⟩
    obtain ⟨p, b, hadmits⟩ := hthere s' happly
    have hfound : s'.index.patternForTrip? ⟨"a", "o"⟩ = some p := hadmits.found
    rw [hfound] at hid
    exact ⟨s', p, b, happly, hfound, Option.some.inj hid, hadmits.stops_eq,
      List.map_injective_iff.mpr (fun _ _ => Option.some.inj) hadmits.calls_eq,
      hadmits.runs shuttleDate, hadmits.runs shuttleDate.next⟩
  · have hpatches : ((extraTrip "q" "x" "z" 180 280).filter .all).patches =
        [.ofTimes ⟨"a", "q"⟩ ⟨"a", "x"⟩ 0 .predicted shuttleDate none (some 180)] ++
          .ofTimes ⟨"a", "q"⟩ ⟨"a", "z"⟩ 1 .predicted shuttleDate (some 280) none :: [] := rfl
    refine ((admission_exact reachable_shuttleWithTwo rfl rfl).1 _ _).mpr
      ⟨rfl, .unusable rfl hpatches (fun p hp => ?_) (.unknownStop rfl)⟩
    rw [List.mem_singleton.mp hp]
    exact ⟨rfl, Or.inr rfl⟩

end Updater

end LiveTimetable
