import LiveTimetable.Proofs.Network.Making
import LiveTimetable.Proofs.Network.Synthesis

/-!
# What the graph answers

For each change to the synthesized patterns of a graph, when it is made, and what it makes.

* `Graph.addTrip_eq_ok_iff_of_kept`, `Graph.addTrip_eq_ok_iff_of_not_kept`: a trip joins the pattern
  of its course, or gets a new one.
* `Graph.exists_addTrip`, `Graph.addTrip_of_exhausted`: it is always one of the two, unless a new
  pattern is needed and there is no number for it.
* `Graph.removeTrip_eq_ok_iff`: a trip is taken out of the pattern that is kept under a number now,
  whatever the handle says of it.
* `Graph.eq_of_addTrip_eq_error`, `Graph.removeTrip_eq_error_iff`: what is refused leaves the graph
  as it is.
-/

namespace LiveTimetable

/-- The course of a trip with the given stop times. -/
def Course.of (trip : Trip) (stopTimes : List StopTime) : Course :=
  ⟨trip.routeId, stopTimes.map StopTime.stopId⟩

namespace Graph

/-- The graph with a synthesized pattern under a course, in place of what was kept there. -/
def keep (g : Graph) (c : Course) (s : Synthesized) : Graph :=
  { g with synthesized := g.synthesized.insert c s }

/-- The graph after it gave out the numbers for a new synthesized pattern. -/
def counted (g : Graph) : Graph :=
  { g with nextSerial := g.nextSerial + 1, nextPattern := g.nextPattern + 1 }

/-- The synthesized pattern of a number, as it is linked. -/
def synthesize (g : Graph) (id : PatternId) (p : Pattern) : Synthesized :=
  ⟨p, (g.link id p.stops).1, (g.link id p.stops).2.1⟩

variable {g g' : Graph} {s made : Synthesized} {trip : Trip} {stopTimes : List StopTime}

theorem link_synthesized (g : Graph) (id : PatternId) (stops : List StopId) :
    (g.link id stops).2.2.synthesized = g.synthesized := by
  obtain ⟨_, _, _, _, heq⟩ := link_eq g id stops
  rw [heq]

theorem link_nextPattern (g : Graph) (id : PatternId) (stops : List StopId) :
    (g.link id stops).2.2.nextPattern = g.nextPattern := by
  obtain ⟨_, _, _, _, heq⟩ := link_eq g id stops
  rw [heq]

/-- A trip joins the pattern that is kept under its course. -/
theorem addTrip_eq_ok_iff_of_kept (hne : stopTimes ≠ [])
    (hget : g.synthesized.get? (.of trip stopTimes) = some s) :
    g.addTrip trip stopTimes = .ok (g', .ok made) ↔
      ∃ p, (s.pattern.withTrip (g.publication trip stopTimes)).run = .ok (.ok p) ∧
        made = ⟨p, s.edges, s.vertices⟩ ∧
        g' =
          ({ g with nextSerial := g.nextSerial + 1 } : Graph).keep (.of trip stopTimes) made := by
  have hget' : g.synthesized.get? ⟨trip.routeId, stopTimes.map StopTime.stopId⟩ = some s := hget
  unfold addTrip
  rw [publish_eq hne]
  simp only [hget', Checked.bind_eq_ok_iff]
  constructor
  · rintro ⟨_ | p, hp, hlast⟩
    · cases hlast
    · cases hlast
      exact ⟨p, hp, rfl, rfl⟩
  · rintro ⟨p, hp, rfl, rfl⟩
    exact ⟨.ok p, hp, rfl⟩

/-- A trip gets a new pattern if none is kept under its course. -/
theorem addTrip_eq_ok_iff_of_not_kept (hne : stopTimes ≠ [])
    (hget : g.synthesized.get? (.of trip stopTimes) = none) :
    g.addTrip trip stopTimes = .ok (g', .ok made) ↔
      ∃ p, (Pattern.publish ⟨g.nextPattern⟩ trip.routeId (stopTimes.map StopTime.stopId)
          [g.publication trip stopTimes] true).run = .ok (.ok p) ∧
        g.nextPattern + 1 < 4294967296 ∧ made = g.counted.synthesize ⟨g.nextPattern⟩ p ∧
        g' = (g.counted.link ⟨g.nextPattern⟩ p.stops).2.2.keep (.of trip stopTimes) made := by
  have hget' : g.synthesized.get? ⟨trip.routeId, stopTimes.map StopTime.stopId⟩ = none := hget
  unfold addTrip
  rw [publish_eq hne]
  simp only [hget', Checked.bind_eq_ok_iff]
  constructor
  · rintro ⟨_ | p, hp, hlast⟩
    · cases hlast
    · obtain ⟨n, hn, hlast⟩ := Checked.bind_eq_ok_iff.mp hlast
      have hstops : p.stops = stopTimes.map StopTime.stopId := (Pattern.publish_spec hp).2.2.1
      unfold Checked.word32 at hn
      split at hn
      · rename_i hlt
        cases hn
        cases hlast
        refine ⟨p, hp, hlt, ?_, ?_⟩
        · rw [synthesize, hstops]
          rfl
        · rw [hstops]
          rfl
      · cases hn
  · rintro ⟨p, hp, hlt, rfl, rfl⟩
    have hstops : p.stops = stopTimes.map StopTime.stopId := (Pattern.publish_spec hp).2.2.1
    refine ⟨.ok p, hp, Checked.bind_eq_ok_iff.mpr ⟨_, if_pos hlt, ?_⟩⟩
    unfold synthesize
    rw [hstops]
    rfl

/-- **A trip that is refused leaves the graph as it is.** -/
theorem eq_of_addTrip_eq_error {e : GraphError}
    (h : g.addTrip trip stopTimes = .ok (g', .error e)) : g' = g := by
  unfold addTrip at h
  split at h
  · cases h
    rfl
  · simp only [] at h
    split at h
    · obtain ⟨r, -, hlast⟩ := Checked.bind_eq_ok_iff.mp h
      cases r with
      | error e =>
        cases hlast
        rfl
      | ok p => cases hlast
    · obtain ⟨r, -, hlast⟩ := Checked.bind_eq_ok_iff.mp h
      cases r with
      | error e =>
        cases hlast
        rfl
      | ok p =>
        obtain ⟨n, -, hlast⟩ := Checked.bind_eq_ok_iff.mp hlast
        cases hlast

/-- **A trip that calls somewhere is added**, if there is a number for the pattern that it may
need. -/
theorem exists_addTrip (hkept : ∀ s, g.synthesized.get? (.of trip stopTimes) = some s →
      s.course = .of trip stopTimes ∧ s.pattern.WellFormed)
    (hne : stopTimes ≠ [])
    (hids : g.synthesized.get? (.of trip stopTimes) = none → g.nextPattern + 1 < 4294967296) :
    ∃ made g', g.addTrip trip stopTimes = .ok (g', .ok made) := by
  have hcount := g.stopCount_publication trip stopTimes
  cases hget : g.synthesized.get? (.of trip stopTimes) with
  | some s =>
    obtain ⟨hcourse, hwf⟩ := hkept s hget
    have hstops : s.pattern.stops = stopTimes.map StopTime.stopId := congrArg Course.stops hcourse
    obtain ⟨p, hp⟩ := hwf.exists_withTrip (hcount.trans (congrArg _ hstops.symm))
    exact ⟨_, _, (addTrip_eq_ok_iff_of_kept hne hget).mpr ⟨p, hp, rfl, rfl⟩⟩
  | none =>
    obtain ⟨p, hp⟩ := Pattern.exists_publish_singleton ⟨g.nextPattern⟩ trip.routeId true hcount
    exact ⟨_, _, (addTrip_eq_ok_iff_of_not_kept hne hget).mpr ⟨p, hp, hids hget, rfl, rfl⟩⟩

/-- A trip that needs a new pattern for which there is no number. -/
theorem addTrip_of_exhausted (hne : stopTimes ≠ [])
    (hget : g.synthesized.get? (.of trip stopTimes) = none)
    (hids : ¬ g.nextPattern + 1 < 4294967296) :
    g.addTrip trip stopTimes = .error .overflow := by
  obtain ⟨p, hp⟩ := Pattern.exists_publish_singleton ⟨g.nextPattern⟩ trip.routeId true
    (g.stopCount_publication trip stopTimes)
  have hget' : g.synthesized.get? ⟨trip.routeId, stopTimes.map StopTime.stopId⟩ = none := hget
  have hnumber : Checked.word32 (g.nextPattern + 1) = .error .overflow := if_neg hids
  unfold addTrip
  rw [publish_eq hne]
  simp only [hget', hp, Checked.ok_bind, hnumber, Checked.error_bind]

/-- What is found is kept. -/
theorem get?_of_findSynthesized? {id : PatternId} {c : Course}
    (h : g.findSynthesized? id = some (c, s)) :
    g.synthesized.get? c = some s ∧ s.pattern.id = id := by
  have hid := List.find?_some h
  exact ⟨Table.mem_entries_iff.mp (List.mem_of_find?_eq_some h), beq_iff_eq.mp hid⟩

/-- A trip is taken out of the pattern that is found under the number of its handle. -/
theorem removeTrip_eq_ok_iff {trip : TripId} :
    g.removeTrip s trip = .ok (g', .ok made) ↔ ∃ c x p,
      g.findSynthesized? s.pattern.id = some (c, x) ∧ x.pattern.withoutTrip trip = .ok p ∧
        made = ⟨p, x.edges, x.vertices⟩ ∧ g' = g.keep c made := by
  unfold removeTrip
  cases hfind : g.findSynthesized? s.pattern.id with
  | none =>
    constructor
    · intro h
      cases h
    · rintro ⟨c, x, p, h, -⟩
      cases h
  | some e =>
    obtain ⟨c, x⟩ := e
    constructor
    · intro h
      obtain ⟨p, hp, hlast⟩ := Checked.bind_eq_ok_iff.mp h
      cases hlast
      exact ⟨c, x, p, rfl, hp, rfl, rfl⟩
    · rintro ⟨_, _, p, ⟨⟩, hp, rfl, rfl⟩
      exact Checked.bind_eq_ok_iff.mpr ⟨p, hp, rfl⟩

/-- A trip cannot be taken out exactly if no pattern is found, and the graph stays as it is. -/
theorem removeTrip_eq_error_iff {trip : TripId} {e : GraphError} :
    g.removeTrip s trip = .ok (g', .error e) ↔
      g.findSynthesized? s.pattern.id = none ∧ e = .unknownPattern s.pattern.id ∧ g' = g := by
  unfold removeTrip
  cases hfind : g.findSynthesized? s.pattern.id with
  | none =>
    constructor
    · intro h
      cases h
      exact ⟨rfl, rfl, rfl⟩
    · rintro ⟨-, rfl, rfl⟩
      rfl
  | some found =>
    obtain ⟨c, x⟩ := found
    refine iff_of_false (fun h => ?_) fun h => by cases h.1
    obtain ⟨p, -, hlast⟩ := Checked.bind_eq_ok_iff.mp h
    cases hlast

end Graph

end LiveTimetable
