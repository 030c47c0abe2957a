import LiveTimetable.Live.Updater
import LiveTimetable.Proofs.Live.Agreement
import LiveTimetable.Proofs.Publication.Writing

/-!
# What one change does to the state of the writer

Everything that the writer does is a list of changes of a few kinds. `Updater.Change` says of each
kind what it does to the whole state, and `Updater.Consistent` what holds of a state before and
after each of them.

* `Updater.Consistent.lists_iff`, `Updater.Consistent.patternOf_eq`: what one store says of an added
  trip, told by another.
* `Updater.Consistent.sync_spec`, `Updater.Consistent.mem_rows_sync`: the buffer follows a pattern
  that takes the place of its course, and takes up no rows but those of the pattern.
-/

namespace LiveTimetable.Updater

/-- The stores of the writer agree with each other. -/
structure Consistent (s : Updater) : Prop where
  index : s.index.WellFormed
  graph : s.graph.WellFormed
  agrees : Agrees s.index s.graph s.added
  numbered : ∀ id p, s.index.patterns.get? id = some p → id.number < s.graph.nextPattern
  /-- The number of a pattern that was taken out is not given out again. -/
  withdrawn : ∀ id revision, s.withdrawn.get? id = some revision →
    s.index.patterns.get? id = none ∧ id.number < s.graph.nextPattern
  buffered : ∀ key held, s.buffer.timetables.get? key = some held →
    ∃ p, s.index.patterns.get? key.pattern = some p ∧ held.timetable.stops = p.stops

/-- The state `s'` is `s` after one change; `entry` is the trip that came with it, if one did. -/
inductive Change (s : Updater) : (entry : Option Baseline) → (s' : Updater) → Prop
  /-- A trip in the buffer got other times. -/
  | retimed {p : Pattern} {u : TripUpdate} {b : Buffer}
      (hp : s.index.patterns.get? p.id = some p) (hb : (s.buffer.update p u).run = .ok (.ok b)) :
      Change s none (s.setBuffer b)
  /-- A trip was added, on a new pattern or on one of its course. -/
  | entered {services : Services} {trip : Trip} {stopTimes : List StopTime} {made : Synthesized}
      {graph : Graph} {b : Buffer} {changed : Bool} (date : ServiceDate)
      (hnew : s.index.patternForTrip? trip.id = none)
      (hgraph : { s.graph with services }.Enters (s.graph.publication trip stopTimes) made graph)
      (hb : s.buffer.sync made.pattern = (b, .ok changed)) :
      Change s (some (s.graph.publication trip stopTimes)) ({ s with
        graph
        index := s.index.register made.pattern
        added := s.added.insert trip.id date made }.setBuffer b)
  /-- An added trip left a pattern that others use. -/
  | left {trip : TripId} {old : Synthesized} {p : Pattern} {graph : Graph} {b : Buffer}
      {changed : Bool} (hkeeps : s.graph.Keeps old)
      (hmem : trip ∈ old.pattern.trips) (hrev : p.Revises old.pattern)
      (hrows : p.timetable.rows = old.pattern.timetable.rows.eraseP fun r => r.tripId == trip)
      (hsound : (⟨p, old.edges, old.vertices⟩ : Synthesized).Sound)
      (hgraph : s.graph.Puts ⟨p, old.edges, old.vertices⟩ graph)
      (hb : s.buffer.sync p = (b, .ok changed)) :
      Change s none ({ s with
        graph
        index := (s.index.removePattern p.id).register p
        added := ⟨s.added.trips.erase trip, s.added.patterns.insert p.id
          ⟨p.trips.length, ⟨p, old.edges, old.vertices⟩⟩⟩ }.setBuffer b)
  /-- The last trip of a pattern left, and the pattern went. -/
  | dissolved {trip : TripId} {old : Synthesized}
      (hkeeps : s.graph.Keeps old) (htrips : old.pattern.trips = [trip]) :
      Change s none ({ s with
        graph := s.graph.without old
        index := s.index.removePattern old.pattern.id
        added := ⟨s.added.trips.erase trip, s.added.patterns.erase old.pattern.id⟩
        withdrawn := s.withdrawn.insert old.pattern.id old.pattern.revision }.setBuffer
          (s.buffer.removePattern old.pattern.id))
  /-- Timetables of past days were dropped. -/
  | expired (date through : ServiceDate) :
      Change s none { s.setBuffer (s.buffer.dropBefore date) with purgedThrough := some through }
  /-- A snapshot was cut. -/
  | published {b : Buffer} {snapshot : Snapshot} (now : Nat)
      (hb : s.buffer.commit = .ok (b, snapshot)) :
      Change s none { s with publisher :=
        { s.publisher with buffer := b, published := snapshot, lastCut := some now } }

@[simp] theorem setBuffer_index (s : Updater) (b : Buffer) : (s.setBuffer b).index = s.index := rfl

@[simp] theorem setBuffer_added (s : Updater) (b : Buffer) : (s.setBuffer b).added = s.added := rfl

@[simp] theorem setBuffer_buffer (s : Updater) (b : Buffer) : (s.setBuffer b).buffer = b := rfl

@[simp] theorem setBuffer_withdrawn (s : Updater) (b : Buffer) :
    (s.setBuffer b).withdrawn = s.withdrawn := rfl

/-! ## Consistent states -/

namespace Consistent

variable {s : Updater} {y : Synthesized} {trip : TripId} {id : PatternId} {p : Pattern}

/-- The trips of a kept pattern are the ones that the books have under its number. -/
theorem lists_iff (hs : s.Consistent) (hy : s.graph.Keeps y) :
    s.added.Lists trip y.pattern.id ↔ trip ∈ y.pattern.trips := by
  rw [hs.agrees.listed]
  constructor
  · rintro ⟨z, hz, hid, hmem⟩
    rw [hs.graph.id_inj z y hz hy hid] at hmem
    exact hmem
  · exact fun hmem => ⟨y, hy, rfl, hmem⟩

/-- The trips of a kept pattern have it in the index. -/
theorem patternOf_eq (hs : s.Consistent) (hy : s.graph.Keeps y) (hmem : trip ∈ y.pattern.trips) :
    s.index.patternOf.get? trip = some y.pattern.id :=
  hs.index.owns _ _ trip (hs.agrees.indexed y hy) (hs.graph.sound y hy).isSynthesized hmem

/-- A trip that the index does not know is not in the books. -/
theorem get?_trips_eq_none (hs : s.Consistent) (hnew : s.index.patternForTrip? trip = none) :
    s.added.trips.get? trip = none := by
  cases hget : s.added.trips.get? trip with
  | none => rfl
  | some announcement =>
    obtain ⟨y, hy, -, hmem⟩ := (hs.agrees.listed _ _).mp (AddedTrips.lists_of_get? hget)
    rw [hs.index.patternForTrip?_eq_none_iff, hs.patternOf_eq hy hmem] at hnew
    cases hnew

/-- The users of the pattern under a course are counted by its rows. -/
theorem users_numberUnder (hs : s.Consistent) (c : Course) :
    s.added.users (s.graph.numberUnder c) = (s.graph.rowsUnder c).length := by
  unfold AddedTrips.users
  rcases hs.graph.under_cases c with ⟨y, hy, -, hnumber, hrows⟩ | ⟨-, hnumber, hrows⟩
  · have hbook := (hs.agrees.booked _ _).mpr ⟨y, hy, rfl, rfl⟩
    rw [hnumber, hrows, hbook]
    exact List.length_map _
  · rw [hnumber, hrows]
    cases hget : s.added.patterns.get? ⟨s.graph.nextPattern⟩ with
    | none => rfl
    | some usage =>
      obtain ⟨y, hy, hid, -⟩ := (hs.agrees.booked _ _).mp hget
      have hlt := hs.graph.number_lt y hy
      rw [hid] at hlt
      exact absurd hlt (Nat.lt_irrefl _)

/-- The books have the trips under a course that are in its rows. -/
theorem lists_numberUnder_iff (hs : s.Consistent) (c : Course) :
    s.added.Lists trip (s.graph.numberUnder c) ↔
      trip ∈ (s.graph.rowsUnder c).map Row.tripId := by
  rcases hs.graph.under_cases c with ⟨y, hy, -, hnumber, hrows⟩ | ⟨-, hnumber, hrows⟩
  · rw [hnumber, hrows]
    exact hs.lists_iff hy
  · rw [hnumber, hrows]
    constructor
    · intro hlist
      obtain ⟨y, hy, hid, -⟩ := (hs.agrees.listed _ _).mp hlist
      have hlt := hs.graph.number_lt y hy
      rw [hid] at hlt
      exact absurd hlt (Nat.lt_irrefl _)
    · exact fun hmem => absurd hmem List.not_mem_nil

/-- The pattern that the index has under the number of a course is the one that the graph keeps. -/
theorem kept_of_numberUnder (hs : s.Consistent) {c : Course}
    (hp : s.index.patterns.get? (s.graph.numberUnder c) = some p) :
    ∃ y, s.graph.Keeps y ∧ y.course = c ∧ y.pattern = p ∧
      s.graph.rowsUnder c = p.timetable.rows := by
  rcases hs.graph.under_cases c with ⟨y, hy, hc, hnumber, hrows⟩ | ⟨-, hnumber, -⟩
  · rw [hnumber, hs.agrees.indexed y hy] at hp
    cases hp
    exact ⟨y, hy, hc, rfl, hrows⟩
  · rw [hnumber] at hp
    exact absurd (hs.numbered _ _ hp) (Nat.lt_irrefl _)

/-- The stops of a course do not change. -/
theorem stops_eq_of_numberUnder (hs : s.Consistent)
    (hid : y.pattern.id = s.graph.numberUnder y.course) :
    ∀ q, s.index.patterns.get? y.pattern.id = some q → q.stops = y.pattern.stops := by
  intro q hq
  obtain ⟨z, -, hc, rfl, -⟩ := hs.kept_of_numberUnder (hid ▸ hq)
  exact congrArg Course.stops hc

/-- A pattern with the stops of the one before is followed, and nothing is refused. -/
theorem sync_spec (hs : s.Consistent) (hy : y.Sound)
    (hid : y.pattern.id = s.graph.numberUnder y.course) :
    ∃ b changed, s.buffer.sync y.pattern = (b, .ok changed) ∧
      ∀ key held, b.timetables.get? key = some held → s.buffer.timetables.get? key = some held ∨
        ∃ old, s.buffer.timetables.get? key = some old ∧ key.pattern = y.pattern.id ∧
          old.timetable.stops = y.pattern.stops ∧
          held.timetable = (Buffer.follow y.pattern old.timetable).timetable := by
  have hheld : ∀ key held, s.buffer.timetables.get? key = some held →
      key.pattern = y.pattern.id → held.timetable.stops = y.pattern.stops := by
    intro key held hget hkey
    obtain ⟨q, hq, heq⟩ := hs.buffered key held hget
    exact heq.trans (hs.stops_eq_of_numberUnder hid q (hkey ▸ hq))
  obtain ⟨b, changed, hsync, hb⟩ := Buffer.sync_spec hy.wellFormed hheld
  refine ⟨b, changed, hsync, fun key held hget => (hb key held hget).imp_right ?_⟩
  rintro ⟨old, hold, hkey, heq⟩
  exact ⟨old, hold, hkey, hheld key old hold hkey, heq⟩

/-- What the buffer holds after that has the stops of the patterns. -/
theorem buffered_sync (hs : s.Consistent) (hy : y.Sound)
    (hid : y.pattern.id = s.graph.numberUnder y.course) {x : TransitIndex}
    (hrep : s.index.Replaces y.pattern x) {b : Buffer} {changed : Bool}
    (hb : s.buffer.sync y.pattern = (b, .ok changed)) :
    ∀ key held, b.timetables.get? key = some held →
      ∃ q, x.patterns.get? key.pattern = some q ∧ held.timetable.stops = q.stops := by
  obtain ⟨b', changed', hsync, hb'⟩ := hs.sync_spec hy hid
  rw [hsync] at hb
  cases hb
  intro key held hget
  rw [hrep.get?_patterns]
  rcases hb' key held hget with hold | ⟨old, hold, hkey, hsame, heq⟩
  · obtain ⟨q, hq, heq⟩ := hs.buffered key held hold
    split
    · rename_i hkey
      exact ⟨_, rfl, heq.trans (hs.stops_eq_of_numberUnder hid q (hkey ▸ hq))⟩
    · exact ⟨q, hq, heq⟩
  · rw [if_pos hkey, heq]
    exact ⟨_, rfl, (Buffer.follow_spec hy.wellFormed hsame).2.1⟩

/-- The rows of a synced buffer are rows of before or rows of the pattern. -/
theorem mem_rows_sync (hs : s.Consistent) (hy : y.Sound)
    (hid : y.pattern.id = s.graph.numberUnder y.course) {b : Buffer} {changed : Bool}
    (hb : s.buffer.sync y.pattern = (b, .ok changed)) {key : PatternDate} {held : Held}
    (hget : b.timetables.get? key = some held) {r : Row} (hr : r ∈ held.timetable.rows) :
    r ∈ y.pattern.timetable.rows ∨
      ∃ old, s.buffer.timetables.get? key = some old ∧ r ∈ old.timetable.rows := by
  obtain ⟨b', changed', hsync, hb'⟩ := hs.sync_spec hy hid
  rw [hsync] at hb
  cases hb
  rcases hb' key held hget with hold | ⟨old, hold, -, hsame, heq⟩
  · exact Or.inr ⟨held, hold, hr⟩
  · rw [heq] at hr
    rcases (Buffer.follow_spec hy.wellFormed hsame).2.2 r hr with hr | hr
    · exact Or.inr ⟨old, hold, hr⟩
    · exact Or.inl hr

end Consistent

end LiveTimetable.Updater
