import LiveTimetable.Proofs.Live.Changes

/-!
# Changes keep the state consistent

One theorem for each kind of change, and `Updater.Change.consistent` for all of them. A trip that
enters a pattern and one that leaves it both give its course another synthesized pattern
(`Updater.Consistent.replaced`).
-/

namespace LiveTimetable.Updater

variable {s s' : Updater}

namespace Consistent

/-- A timetable that is written keeps the stops of its pattern. -/
theorem retimed (hs : s.Consistent) {p : Pattern} {u : TripUpdate} {b : Buffer}
    (hp : s.index.patterns.get? p.id = some p) (hb : (s.buffer.update p u).run = .ok (.ok b)) :
    (s.setBuffer b).Consistent := by
  obtain ⟨i, times, -, rfl⟩ := Buffer.update_spec hb
  refine { hs with buffered := fun key held hget => ?_ }
  simp only [setBuffer_buffer, Buffer.get?_write] at hget
  split at hget
  · rename_i hkey
    cases hget
    refine ⟨p, by rw [hkey]; exact hp, ?_⟩
    show (s.buffer.draft p u.date).stops = p.stops
    unfold Buffer.draft Buffer.get?
    cases hold : s.buffer.timetables.get? ⟨p.id, u.date⟩ with
    | none => rfl
    | some old =>
      obtain ⟨q, hq, hstops⟩ := hs.buffered _ old hold
      rw [hp] at hq
      cases hq
      exact hstops
  · exact hs.buffered key held hget

/-- **A synthesized pattern takes the place of what has its course** in all three stores, with the
trips that the books have for it. -/
theorem replaced (hs : s.Consistent) {services : Services} {made : Synthesized} {graph : Graph}
    {x : TransitIndex} {a : AddedTrips} {b : Buffer} {changed : Bool}
    (hput : { s.graph with services }.Puts made graph) (hsound : made.Sound)
    (hid : made.pattern.id = s.graph.numberUnder made.course)
    (hrep : s.index.Replaces made.pattern x)
    (hbooks : ∀ id, a.patterns.get? id = if id = made.pattern.id then
      some ⟨made.pattern.trips.length, made⟩ else s.added.patterns.get? id)
    (hlists : ∀ trip id, a.Lists trip id ↔
      if id = made.pattern.id then trip ∈ made.pattern.trips else s.added.Lists trip id)
    (hb : s.buffer.sync made.pattern = (b, .ok changed)) :
    ({ s with graph, index := x, added := a }.setBuffer b).Consistent := by
  have hunder := hs.graph.under_cases made.course
  -- The books have a trip under one number, so no other pattern has a trip of this one.
  have hfree : ∀ id q trip, s.index.patterns.get? id = some q → q.isSynthesized = true →
      trip ∈ q.trips → trip ∈ made.pattern.trips → id = made.pattern.id := by
    intro id q trip hq hsynth hmem hmade
    refine Decidable.byContradiction fun hne => ?_
    obtain ⟨y, hy, rfl⟩ := hs.agrees.kept id q hq hsynth
    obtain rfl := hs.index.id_eq id y.pattern hq
    have hthere : a.Lists trip y.pattern.id := by
      rw [hlists, if_neg hne]
      exact (hs.lists_iff hy).mpr hmem
    have hhere : a.Lists trip made.pattern.id := by
      rw [hlists, if_pos rfl]
      exact hmade
    exact hne (hthere.unique hhere)
  have hplace : ∀ y, s.graph.Keeps y → y.course = made.course →
      y.pattern.id = made.pattern.id := by
    intro y hy hc
    have hget : s.graph.synthesized.get? y.course = some y := hy
    rw [hid, Graph.numberUnder, ← hc, hget]
    rfl
  refine ⟨hrep.wellFormed hs.index hsound.wellFormed hfree,
    hput.wellFormed (hs.graph.setServices services) hsound,
    (hs.agrees.setServices services).put hs.index hput hrep hplace hbooks hlists,
    fun id q hq => ?_, fun id revision hw => ?_, hs.buffered_sync hsound hid hrep hb⟩
  · simp only [setBuffer_index, hrep.get?_patterns] at hq
    split at hq
    · rename_i heq
      rw [heq]
      exact hput.number_lt
    · exact Nat.lt_of_lt_of_le (hs.numbered id q hq) hput.nextPattern_le
  · obtain ⟨hnone, hlt⟩ := hs.withdrawn id revision hw
    refine ⟨?_, Nat.lt_of_lt_of_le hlt hput.nextPattern_le⟩
    simp only [setBuffer_index, hrep.get?_patterns]
    -- The number under a course is that of a kept pattern, or new.
    rw [if_neg, hnone]
    rintro rfl
    rcases hunder with ⟨z, hz, -, hnumber, -⟩ | ⟨-, hnumber, -⟩
    · rw [hid, hnumber, hs.agrees.indexed z hz] at hnone
      cases hnone
    · rw [hid, hnumber] at hlt
      exact Nat.lt_irrefl _ hlt

section Enters

variable {services : Services} {b : Baseline} {made : Synthesized} {graph : Graph}

/-- The pattern of a new trip has the trips of the one before. -/
theorem mem_trips_of_enters (hs : s.Consistent)
    (hgraph : { s.graph with services }.Enters b made graph) {q : Pattern}
    (hq : s.index.patterns.get? made.pattern.id = some q) {trip : TripId} (hmem : trip ∈ q.trips) :
    trip ∈ made.pattern.trips := by
  have hid : made.pattern.id = s.graph.numberUnder made.course := hgraph.id_eq
  have htrips : made.pattern.trips =
      (s.graph.rowsUnder made.course).map Row.tripId ++ [b.trip.id] := hgraph.trips_eq
  obtain ⟨y, -, -, rfl, hrows⟩ := hs.kept_of_numberUnder (hid ▸ hq)
  rw [htrips, hrows]
  exact List.mem_append_left _ hmem

/-- The pattern of a new trip replaces the one under its course. -/
theorem replaces_of_enters (hs : s.Consistent)
    (hgraph : { s.graph with services }.Enters b made graph) :
    s.index.Replaces made.pattern (s.index.register made.pattern) :=
  hs.index.replaces_register fun _ hq _ => hs.mem_trips_of_enters hgraph hq

end Enters

/-- A new trip keeps index, graph and books in agreement. -/
theorem entered (hs : s.Consistent) {services : Services} {trip : Trip}
    {stopTimes : List StopTime} {made : Synthesized} {graph : Graph} {b : Buffer} {changed : Bool}
    (date : ServiceDate) (hnew : s.index.patternForTrip? trip.id = none)
    (hgraph : { s.graph with services }.Enters (s.graph.publication trip stopTimes) made graph)
    (hb : s.buffer.sync made.pattern = (b, .ok changed)) :
    ({ s with
      graph
      index := s.index.register made.pattern
      added := s.added.insert trip.id date made }.setBuffer b).Consistent := by
  have hid : made.pattern.id = s.graph.numberUnder made.course := hgraph.id_eq
  have htrips : made.pattern.trips =
      (s.graph.rowsUnder made.course).map Row.tripId ++ [trip.id] := hgraph.trips_eq
  have hrep := hs.replaces_of_enters hgraph
  have hbook := hs.get?_trips_eq_none hnew
  refine hs.replaced hgraph.puts hgraph.sound hid hrep (fun id => ?_) (fun t id => ?_) hb
  · rw [AddedTrips.insert_eq hbook, Table.get?_insert]
    split
    · rw [hid, hs.users_numberUnder, htrips, List.length_append, List.length_map]
      rfl
    · rfl
  · rw [AddedTrips.insert_eq hbook, AddedTrips.lists_insert_iff, htrips, List.mem_append,
      List.mem_singleton, ← hs.lists_numberUnder_iff, ← hid]
    by_cases ht : t = trip.id
    · have hnone : ¬ s.added.Lists t id := by
        rintro ⟨announcement, hget, -⟩
        rw [ht, hbook] at hget
        cases hget
      rw [if_pos ht]
      by_cases hsame : id = made.pattern.id
      · simp [hsame, ht]
      · simp [hsame, hnone]
    · rw [if_neg ht]
      by_cases hsame : id = made.pattern.id
      · simp [hsame, ht]
      · simp [hsame]

/-- A trip that leaves a shared pattern leaves all three stores. -/
theorem left (hs : s.Consistent) {trip : TripId} {old : Synthesized} {p : Pattern} {graph : Graph}
    {b : Buffer} {changed : Bool} (hkeeps : s.graph.Keeps old) (hmem : trip ∈ old.pattern.trips)
    (hrev : p.Revises old.pattern)
    (hrows : p.timetable.rows = old.pattern.timetable.rows.eraseP fun r => r.tripId == trip)
    (hsound : (⟨p, old.edges, old.vertices⟩ : Synthesized).Sound)
    (hgraph : s.graph.Puts ⟨p, old.edges, old.vertices⟩ graph)
    (hb : s.buffer.sync p = (b, .ok changed)) :
    ({ s with
      graph
      index := (s.index.removePattern p.id).register p
      added := ⟨s.added.trips.erase trip, s.added.patterns.insert p.id
        ⟨p.trips.length, ⟨p, old.edges, old.vertices⟩⟩⟩ }.setBuffer b).Consistent := by
  have hnodup := (hs.graph.sound old hkeeps).wellFormed.nodup
  have htrips := Pattern.trips_withoutTrip hrows
  have hput : { s.graph with services := s.graph.services }.Puts
      ⟨p, old.edges, old.vertices⟩ graph := hgraph
  refine hs.replaced hput hsound (Graph.id_eq_numberUnder hkeeps hrev)
    (s.index.replaces_removePattern_register p) (fun id => Table.get?_insert ..) (fun t id => ?_) hb
  rw [AddedTrips.lists_erase_iff]
  split
  · rename_i heq
    rw [heq, hrev.id_eq, hs.lists_iff hkeeps, htrips, hnodup.mem_erase_iff]
  · rename_i hne
    refine ⟨fun h => h.2, fun h => ⟨?_, h⟩⟩
    rintro rfl
    exact hne ((h.unique ((hs.lists_iff hkeeps).mpr hmem)).trans hrev.id_eq.symm)

/-- A pattern that loses its last trip goes from all stores. -/
theorem dissolved (hs : s.Consistent) {trip : TripId} {old : Synthesized}
    (hkeeps : s.graph.Keeps old) (htrips : old.pattern.trips = [trip]) :
    ({ s with
      graph := s.graph.without old
      index := s.index.removePattern old.pattern.id
      added := ⟨s.added.trips.erase trip, s.added.patterns.erase old.pattern.id⟩
      withdrawn := s.withdrawn.insert old.pattern.id old.pattern.revision }.setBuffer
        (s.buffer.removePattern old.pattern.id)).Consistent := by
  refine ⟨hs.index.removePattern _, hs.graph.without hkeeps, ?_, fun id q hq => ?_,
    fun id revision hw => ?_, fun key held hget => ?_⟩
  · refine hs.agrees.drop hs.index hs.graph hkeeps (fun id => ?_) (fun t id => ?_)
    · simp only [setBuffer_added, Table.get?_erase]
    · simp only [setBuffer_added, AddedTrips.lists_erase_iff]
      refine and_congr_left fun hlist => not_congr ?_
      constructor
      · rintro rfl
        refine hlist.unique ((hs.lists_iff hkeeps).mpr ?_)
        rw [htrips]
        exact List.mem_singleton_self _
      · rintro rfl
        have hmem := (hs.lists_iff hkeeps).mp hlist
        rw [htrips] at hmem
        exact List.mem_singleton.mp hmem
  · simp only [setBuffer_index, TransitIndex.get?_patterns_removePattern] at hq
    split at hq
    · cases hq
    · exact hs.numbered id q hq
  · simp only [setBuffer_withdrawn, Table.get?_insert] at hw
    simp only [setBuffer_index, TransitIndex.get?_patterns_removePattern]
    split at hw
    · rename_i heq
      rw [if_pos heq, heq]
      exact ⟨rfl, hs.graph.number_lt old hkeeps⟩
    · rename_i hne
      rw [if_neg hne]
      exact hs.withdrawn id revision hw
  · obtain ⟨hold, hkeep⟩ := Buffer.get?_retain_eq_some_iff.mp hget
    obtain ⟨q, hq, hstops⟩ := hs.buffered key held hold
    refine ⟨q, ?_, hstops⟩
    simp only [setBuffer_index, TransitIndex.get?_patterns_removePattern]
    rw [if_neg (bne_iff_ne.mp hkeep)]
    exact hq

theorem expired (hs : s.Consistent) (date through : ServiceDate) :
    { s.setBuffer (s.buffer.dropBefore date) with purgedThrough := some through }.Consistent := by
  refine { hs with buffered := fun key held hget => ?_ }
  exact hs.buffered key held (Buffer.get?_retain_eq_some_iff.mp hget).1

theorem published (hs : s.Consistent) {b : Buffer} {snapshot : Snapshot} (now : Nat)
    (hb : s.buffer.commit = .ok (b, snapshot)) :
    { s with publisher := { s.publisher with
      buffer := b
      published := snapshot
      lastCut := some now } }.Consistent := by
  refine { hs with buffered := fun key held hget => ?_ }
  obtain ⟨old, hold, heq⟩ := (Buffer.commit_spec hb).2.2 key held hget
  rw [heq]
  exact hs.buffered key old hold

end Consistent

/-- **Every change keeps the state consistent.** -/
theorem Change.consistent {entry : Option Baseline} (h : Change s entry s')
    (hs : s.Consistent) : s'.Consistent := by
  cases h with
  | retimed hp hb => exact hs.retimed hp hb
  | entered date hnew hgraph hb => exact hs.entered date hnew hgraph hb
  | left hkeeps hmem hrev hrows hsound hgraph hb =>
    exact hs.left hkeeps hmem hrev hrows hsound hgraph hb
  | dissolved hkeeps htrips => exact hs.dissolved hkeeps htrips
  | expired date through => exact hs.expired date through
  | published now hb => exact hs.published now hb

end LiveTimetable.Updater
