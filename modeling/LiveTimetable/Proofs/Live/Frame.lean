import LiveTimetable.Proofs.Live.Departures
import LiveTimetable.Proofs.Live.Verdicts

/-!
# An update touches its own trip

A trip that enters a pattern, or leaves it, gives the pattern another revision: the index claims all
trips anew, timetables of all dates are written to, and trips change their positions. Told by their
identifiers, all other trips have the pattern and the current times that they had.

* `Updater.spares_retime`, `Updater.spares_depart`, `Updater.Change.spares_of_entered`: what each
  change spares.
* `Updater.other_trips_untouched`: an update, applied or refused, spares every other trip, and its
  own trip on other dates.
-/

namespace LiveTimetable.Updater

variable {s s' : Updater} {u : TripUpdate} {trip other : TripId} {date : ServiceDate}
  {times : TripTimes} {y : Synthesized} {rest : Option Synthesized} {p q : Pattern}
  {r : Except ApplyError Unit}

/-- Patterns of trips with one number are one. -/
theorem Consistent.pattern_inj (hs : s.Consistent) (hp : s.index.patternForTrip? trip = some p)
    (hq : s.index.patternForTrip? other = some q) (hid : p.id = q.id) : p = q := by
  have hp' := get?_of_patternForTrip? hs hp
  rw [hid, get?_of_patternForTrip? hs hq] at hp'
  exact (Option.some.inj hp').symm

/-- A trip that is not in a kept pattern has a pattern of another number. -/
theorem Consistent.id_ne_of_not_mem (hs : s.Consistent) (hy : s.graph.Keeps y)
    (hnot : trip ∉ y.pattern.trips) (hp : s.index.patternForTrip? trip = some p) :
    p.id ≠ y.pattern.id := by
  intro hid
  have hget := get?_of_patternForTrip? hs hp
  rw [hid, hs.agrees.indexed y hy] at hget
  cases hget
  exact hnot (hs.index.mem_trips_of_patternForTrip? hp)

/-! ## Other times -/

theorem retime_eq (hp : s.index.patternForTrip? trip = some p) :
    s.retime trip date times = s.setBuffer (s.buffer.retime p date trip times) := by
  rw [retime, hp]

theorem index_retime : (s.retime trip date times).index = s.index := by
  unfold retime
  split <;> rfl

theorem graph_retime : (s.retime trip date times).graph = s.graph := by
  unfold retime
  split <;> rfl

theorem added_retime : (s.retime trip date times).added = s.added := by
  unfold retime
  split <;> rfl

/-- Other times for a trip on a date are for it and the date only. -/
theorem current?_retime (hs : s.Consistent) {date' : ServiceDate}
    (hne : other ≠ trip ∨ date' ≠ date) :
    (s.retime trip date times).current? other date' = s.current? other date' := by
  cases hp : s.index.patternForTrip? trip with
  | none => rw [retime, hp]
  | some p =>
    rw [retime_eq hp]
    unfold current?
    show (s.index.patternForTrip? other).bind _ = (s.index.patternForTrip? other).bind _
    cases hq : s.index.patternForTrip? other with
    | none => rfl
    | some q => exact Buffer.current?_resolve_retime (hs.pattern_inj hq hp) hne

theorem spares_retime (hs : s.Consistent) (hne : other ≠ trip) :
    s.Spares other (s.retime trip date times) := by
  refine ⟨?_, ?_, ?_, ?_, ?_, ?_, fun date' => current?_retime hs (Or.inl hne)⟩
  · rw [index_retime]
  · rw [index_retime]
  · unfold retime
    split <;> rfl
  · rw [added_retime]
  · rw [index_retime]
  · rw [index_retime]

/-! ## Departures -/

theorem patternForTrip?_depart_of_ne (hne : other ≠ trip) :
    (s.depart trip y rest).index.patternForTrip? other =
      (s.index.patternOf.get? other).bind fun id =>
        if id = y.pattern.id then rest.map Synthesized.pattern else s.index.patterns.get? id := by
  show ((s.index.patternOf.erase trip).get? other).bind
    (s.index.patterns.place y.pattern.id (rest.map Synthesized.pattern)).get? = _
  rw [Table.get?_erase, if_neg hne]
  congr 1
  funext id
  exact Table.get?_place ..

/-- A trip that departs leaves the other trips of its pattern on what stays of it. -/
theorem patternForTrip?_depart_of_mem (rest : Option Synthesized) (hs : s.Consistent)
    (hy : s.graph.Keeps y) (hmem : other ∈ y.pattern.trips) (hne : other ≠ trip) :
    (s.depart trip y rest).index.patternForTrip? other = rest.map Synthesized.pattern := by
  rw [patternForTrip?_depart_of_ne hne, hs.patternOf_eq hy hmem, Option.bind_some, if_pos rfl]

/-- Trips of other patterns stay on them. -/
theorem patternForTrip?_depart_of_not_mem (rest : Option Synthesized) (hs : s.Consistent)
    (hy : s.graph.Keeps y) (hnot : other ∉ y.pattern.trips) (hne : other ≠ trip) :
    (s.depart trip y rest).index.patternForTrip? other = s.index.patternForTrip? other := by
  rw [patternForTrip?_depart_of_ne hne]
  cases hp : s.index.patternForTrip? other with
  | none =>
    rw [hs.index.patternForTrip?_eq_none_iff.mp hp]
    rfl
  | some p =>
    obtain ⟨hclaim, hget⟩ := hs.index.patternForTrip?_eq_some_iff.mp hp
    rw [hclaim, Option.bind_some, if_neg (hs.id_ne_of_not_mem hy hnot hp), hget]

/-- **A trip that departs spares all others.** -/
theorem spares_depart (hs : s.Consistent) (hy : s.graph.Keeps y) (hmem : trip ∈ y.pattern.trips)
    (hrest : y.remaining trip = .ok rest) (hne : other ≠ trip) :
    s.Spares other (s.depart trip y rest) := by
  have hadded : (s.depart trip y rest).added.contains other = s.added.contains other :=
    AddedTrips.contains_depart_of_ne hne
  have hrecovery : (s.depart trip y rest).buffer.recovery = s.buffer.recovery := by
    show (s.buffer.depart trip y.pattern.id rest.isSome).recovery = _
    unfold Buffer.depart
    split <;> rfl
  by_cases hown : other ∈ y.pattern.trips
  · obtain ⟨y', hy'⟩ := Synthesized.exists_remaining_of_ne (hs.graph.sound y hy) hmem hown hne.symm
    cases hrest.symm.trans hy'
    have hremains := Synthesized.remains_of_remaining (hs.graph.sound y hy) hmem hrest
    have hold := hs.patternForTrip?_eq hy hown
    have hnew := patternForTrip?_depart_of_mem (some y') hs hy hown hne
    refine ⟨rfl, rfl, hrecovery, hadded, ?_, ?_, fun date => ?_⟩
    · rw [hold, hnew]
      exact congrArg some hremains.revises.id_eq
    · rw [hold, hnew]
      exact congrArg some hremains.revises.stops_eq
    · unfold current?
      rw [hold, hnew]
      exact Buffer.current?_resolve_strike hremains.revises.id_eq hremains.loses hne
  · have hsame := patternForTrip?_depart_of_not_mem rest hs hy hown hne
    refine ⟨rfl, rfl, hrecovery, hadded, by rw [hsame], by rw [hsame], fun date => ?_⟩
    unfold current?
    rw [hsame]
    cases hp : s.index.patternForTrip? other with
    | none => rfl
    | some p =>
      have hid := hs.id_ne_of_not_mem hy hown hp
      show ((s.buffer.depart trip y.pattern.id rest.isSome).resolve p date).current? other = _
      unfold Buffer.depart
      split
      · rw [Buffer.resolve_strike_of_ne hid]
        rfl
      · rw [Buffer.resolve_removePattern_of_ne hid]
        rfl

/-! ## Arrivals -/

/-- The other trips of the pattern that a trip enters are those of the one before. -/
theorem Consistent.exists_kept_of_enters (hs : s.Consistent) {services : Services} {b : Baseline}
    {made : Synthesized} {graph : Graph} (hgraph : { s.graph with services }.Enters b made graph)
    (hmem : other ∈ made.pattern.trips) (hne : other ≠ b.trip.id) :
    ∃ y, s.graph.Keeps y ∧ y.pattern.id = made.pattern.id ∧ other ∈ y.pattern.trips := by
  have hid : made.pattern.id = s.graph.numberUnder made.course := hgraph.id_eq
  have htrips : made.pattern.trips =
      (s.graph.rowsUnder made.course).map Row.tripId ++ [b.trip.id] := hgraph.trips_eq
  rw [htrips] at hmem
  rcases List.mem_append.mp hmem with hold | hnew
  · obtain ⟨y, hy, hnumber, hmem'⟩ :=
      (hs.agrees.listed _ _).mp ((hs.lists_numberUnder_iff made.course).mpr hold)
    exact ⟨y, hy, hnumber.trans hid.symm, hmem'⟩
  · exact absurd (List.mem_singleton.mp hnew) hne

/-- Trips of other patterns are not claimed by the pattern that a trip enters. -/
theorem patternForTrip?_register_of_not_mem (hs : s.Consistent)
    {x : TransitIndex} (hrep : s.index.Replaces p x) (hnot : other ∉ p.trips)
    (hid : ∀ q, s.index.patternForTrip? other = some q → q.id ≠ p.id) :
    x.patternForTrip? other = s.index.patternForTrip? other := by
  have hwf := hs.index
  cases hq : s.index.patternForTrip? other with
  | none =>
    unfold TransitIndex.patternForTrip?
    rw [hrep.get?_patternOf, if_neg hnot, hwf.patternForTrip?_eq_none_iff.mp hq]
    rfl
  | some q =>
    obtain ⟨hclaim, hget⟩ := hwf.patternForTrip?_eq_some_iff.mp hq
    unfold TransitIndex.patternForTrip?
    rw [hrep.get?_patternOf, if_neg hnot, hclaim, Option.filter_some,
      if_pos (bne_iff_ne.mpr (hid q hq)), Option.bind_some, hrep.get?_patterns,
      if_neg (hid q hq), hget]

theorem patternForTrip?_register_of_mem {x : TransitIndex} (hrep : s.index.Replaces p x)
    (hmem : other ∈ p.trips) : x.patternForTrip? other = some p := by
  unfold TransitIndex.patternForTrip?
  rw [hrep.get?_patternOf, if_pos hmem, Option.bind_some, hrep.get?_patterns, if_pos rfl]

/-- A pattern that its timetables follow runs as before for the trips that stay. -/
theorem Tracks.current?_resolve_sync (ht : s.Tracks) (hs : s.Consistent) {y : Synthesized}
    (hy : y.Sound) (hid : y.pattern.id = s.graph.numberUnder y.course) {b : Buffer}
    {changed : Bool} (hb : s.buffer.sync y.pattern = (b, .ok changed))
    (hp : s.index.patterns.get? y.pattern.id = some p) (hnext : y.pattern.Continues p)
    (hmem : other ∈ p.trips) (hkept : other ∈ y.pattern.trips) :
    (b.resolve y.pattern date).current? other = (s.buffer.resolve p date).current? other := by
  have hpid := hs.index.id_eq _ p hp
  unfold Buffer.resolve Buffer.get?
  rw [(hs.sync_follows hy hid hb).get?_eq, hpid]
  cases hheld : s.buffer.timetables.get? ⟨y.pattern.id, date⟩ with
  | none => exact Timetable.current?_of_continues hnext hmem hkept
  | some held =>
    obtain ⟨q, hq, htracks⟩ := ht _ held hheld
    rw [hp] at hq
    cases hq
    obtain ⟨q, hq, hstops⟩ := hs.buffered _ held hheld
    rw [hp] at hq
    cases hq
    simp only [Option.map_some, if_pos, Option.getD_some, Buffer.followedHeld_timetable]
    refine htracks.current?_follow (hs.index.pattern _ p hp).nodup hy.wellFormed hnext ?_ hmem hkept
    rw [hstops, hs.stops_eq_of_numberUnder hid p hp]

/-- **A trip that enters spares all others.** -/
theorem Change.spares_of_entered {b : Baseline} (h : Change s (some b) s') (hs : s.Consistent)
    (ht : s.Tracks) (hne : other ≠ b.trip.id) : s.Spares other s' := by
  cases h with
  | @entered services trip stopTimes made graph buffer changed date hnew hgraph hb =>
    have hrep := hs.replaces_of_enters hgraph
    have hid : made.pattern.id = s.graph.numberUnder made.course := hgraph.id_eq
    have hfollows := hs.sync_follows hgraph.sound hid hb
    have hbook := hs.get?_trips_eq_none hnew
    have hother : other ≠ trip.id := hne
    have hadded : (s.added.insert trip.id date made).contains other = s.added.contains other := by
      rw [AddedTrips.insert_eq hbook]
      unfold AddedTrips.contains Table.contains
      rw [Table.get?_insert, if_neg hother]
    by_cases hmem : other ∈ made.pattern.trips
    · obtain ⟨y, hy, hnumber, hown⟩ := hs.exists_kept_of_enters hgraph hmem hne
      have hold := hs.patternForTrip?_eq hy hown
      have hnow := patternForTrip?_register_of_mem hrep hmem
      have hget : s.index.patterns.get? made.pattern.id = some y.pattern :=
        hnumber ▸ hs.agrees.indexed y hy
      refine ⟨rfl, rfl, hfollows.recovery_eq, hadded, ?_, ?_, fun date => ?_⟩
      · show ((s.index.register made.pattern).patternForTrip? other).map Pattern.id = _
        rw [hold, hnow]
        exact congrArg some hnumber.symm
      · show ((s.index.register made.pattern).patternForTrip? other).map Pattern.stops = _
        rw [hold, hnow]
        exact congrArg some (hs.stops_eq_of_numberUnder hid y.pattern hget).symm
      · have hnext := hs.continues_of_enters hgraph hget
        rw [current?_eq hold]
        show ((s.index.register made.pattern).patternForTrip? other).bind _ = _
        rw [hnow]
        exact ht.current?_resolve_sync hs hgraph.sound hid hb hget hnext hown hmem
    · have hdiffer : ∀ q, s.index.patternForTrip? other = some q → q.id ≠ made.pattern.id := by
        intro q hq heq
        refine hmem (hs.mem_trips_of_enters hgraph ?_ (hs.index.mem_trips_of_patternForTrip? hq))
        exact heq ▸ get?_of_patternForTrip? hs hq
      have hsame := patternForTrip?_register_of_not_mem hs hrep hmem hdiffer
      refine ⟨rfl, rfl, hfollows.recovery_eq, hadded, congrArg _ hsame, congrArg _ hsame,
        fun date => ?_⟩
      show ((s.index.register made.pattern).patternForTrip? other).bind _ = _
      rw [hsame]
      unfold current?
      cases hq : s.index.patternForTrip? other with
      | none => rfl
      | some q =>
        show (buffer.resolve q date).current? other = _
        unfold Buffer.resolve Buffer.get?
        rw [hfollows.get?_eq]
        simp only [if_neg (hdiffer q hq), Option.map_id']
        rfl

/-- A trip that entered is in the books. -/
theorem Change.contains_of_entered {b : Baseline} (h : Change s (some b) s')
    (hs : s.Consistent) : s'.added.contains b.trip.id = true := by
  cases h with
  | @entered services trip stopTimes made graph buffer changed date hnew hgraph hb =>
    show (s.added.insert trip.id date made).contains trip.id = true
    rw [AddedTrips.insert_eq (hs.get?_trips_eq_none hnew)]
    exact Table.contains_insert .. |>.mpr (Or.inl rfl)

/-! ## Updates -/

/-- The one thing that an update did to the state. -/
inductive Effect (s : Updater) (u : TripUpdate) : Updater → Prop
  | refused : Effect s u s
  | retimed (times : TripTimes) : Effect s u (s.retime u.tripId u.date times)
  | departed {y : Synthesized} {rest : Option Synthesized} (hy : s.graph.Keeps y)
      (hmem : u.tripId ∈ y.pattern.trips) (hrest : y.remaining u.tripId = .ok rest) :
      Effect s u (s.depart u.tripId y rest)
  | entered {b : Baseline} {s' : Updater} (hid : b.trip.id = u.tripId)
      (hchange : Change s (some b) s') : Effect s u s'

theorem effect_of_apply (hs : s.Consistent) (ht : s.Tracks) (h : s.apply u = .ok (s', r)) :
    Effect s u s' := by
  rw [apply_eq hs ht] at h
  obtain ⟨v, hv, h⟩ := Checked.bind_eq_ok_iff.mp h
  rcases verdict_cases hv with ⟨e, rfl⟩ | ⟨times, rfl⟩ | ⟨rfl, -, hadded⟩ |
    ⟨zone, stopTimes, rfl, -, hnew, hadmitted⟩
  · cases h
    exact .refused
  · cases h
    exact .retimed times
  · obtain ⟨y, rest, hy, hmem, hrest, hwithdraw⟩ := exists_withdraw hs ht hadded
    have heq : s.withdraw u.tripId = .ok (s', r) := h
    rw [hwithdraw] at heq
    cases heq
    exact .departed hy hmem hrest
  · have hspec := enter_spec (u := u.filter .all) hs hnew
      (stopTimes_ne_nil_of_admitted hadmitted) h
    exact .entered rfl hspec.2

/-- An update spares all trips but its own. -/
theorem Effect.spares (h : Effect s u s') (hs : s.Consistent) (ht : s.Tracks)
    (hne : other ≠ u.tripId) : s.Spares other s' := by
  cases h with
  | refused => exact .refl s other
  | retimed times => exact spares_retime hs hne
  | departed hy hmem hrest => exact spares_depart hs hy hmem hrest hne
  | entered hid hchange => exact hchange.spares_of_entered hs ht (hid ▸ hne)

/-- **No update touches another trip.** After any call of a reachable state with an update, applied
or refused, every other trip has the pattern that it had, or still none, and the current times that
it had on every date. The trip of the update itself, if it is an added one neither before nor
afterwards, has the times that it had on every other date. -/
theorem other_trips_untouched (h : s.Reachable) (happly : s.apply u = .ok (s', r)) :
    (∀ trip, trip ≠ u.tripId →
      (s'.index.patternForTrip? trip).map Pattern.id =
        (s.index.patternForTrip? trip).map Pattern.id ∧
      ∀ date, s'.current? trip date = s.current? trip date) ∧
    (s.added.contains u.tripId = false → s'.added.contains u.tripId = false →
      ∀ date, date ≠ u.date → s'.current? u.tripId date = s.current? u.tripId date) := by
  have heffect := effect_of_apply h.consistent h.tracks happly
  refine ⟨fun trip hne => ?_, fun hbefore hafter date hne => ?_⟩
  · have hspares := heffect.spares h.consistent h.tracks hne
    exact ⟨hspares.patternId_eq, hspares.current?_eq⟩
  · cases heffect with
    | refused => rfl
    | retimed times => exact current?_retime h.consistent (Or.inr hne)
    | departed hy hmem hrest =>
      rw [h.consistent.contains_iff.mpr ⟨_, hy, hmem⟩] at hbefore
      cases hbefore
    | entered hid hchange =>
      rw [← hid, hchange.contains_of_entered h.consistent] at hafter
      cases hafter

/-- Of two added trips that share a pattern one is canceled and goes; the other one still has the
pattern and its times. A trip of the schedule that is canceled runs as before on the next day. -/
theorem other_trips_untouched_shuttle : shuttleWithTwo.Reachable ∧
    (∃ s', shuttleWithTwo.apply (.canceling ⟨"a", "n"⟩ 0 shuttleDate) = .ok (s', .ok ()) ∧
      (s'.index.patternForTrip? ⟨"a", "n"⟩).isNone ∧
      (s'.index.patternForTrip? ⟨"a", "m"⟩).map Pattern.id = some ⟨1⟩ ∧
      s'.current? ⟨"a", "m"⟩ shuttleDate = shuttleWithTwo.current? ⟨"a", "m"⟩ shuttleDate) ∧
    ∃ s', shuttleWithTwo.apply (.canceling ⟨"a", "t"⟩ 0 shuttleDate) = .ok (s', .ok ()) ∧
      s'.current? ⟨"a", "t"⟩ shuttleDate ≠ shuttleWithTwo.current? ⟨"a", "t"⟩ shuttleDate ∧
      s'.current? ⟨"a", "t"⟩ shuttleDate.next =
        shuttleWithTwo.current? ⟨"a", "t"⟩ shuttleDate.next := by
  refine ⟨reachable_shuttleWithTwo, ?_, ?_⟩
  · obtain ⟨s', happly, hgone⟩ : ∃ s', shuttleWithTwo.apply
        (.canceling ⟨"a", "n"⟩ 0 shuttleDate) = .ok (s', .ok ()) ∧
          (s'.index.patternForTrip? ⟨"a", "n"⟩).isNone := ⟨_, rfl, rfl⟩
    have h := (other_trips_untouched reachable_shuttleWithTwo happly).1 ⟨"a", "m"⟩ (by decide)
    have hbefore : (shuttleWithTwo.index.patternForTrip? ⟨"a", "m"⟩).map Pattern.id =
      some ⟨1⟩ := rfl
    exact ⟨s', happly, hgone, h.1.trans hbefore, h.2 shuttleDate⟩
  · obtain ⟨s', happly, hadded, hchanged⟩ : ∃ s', shuttleWithTwo.apply
        (.canceling ⟨"a", "t"⟩ 0 shuttleDate) = .ok (s', .ok ()) ∧
          s'.added.contains ⟨"a", "t"⟩ = false ∧ s'.current? ⟨"a", "t"⟩ shuttleDate ≠
            shuttleWithTwo.current? ⟨"a", "t"⟩ shuttleDate := ⟨_, rfl, rfl, by decide⟩
    exact ⟨s', happly, hchanged, (other_trips_untouched reachable_shuttleWithTwo happly).2 rfl
      hadded shuttleDate.next (by decide)⟩

end LiveTimetable.Updater
