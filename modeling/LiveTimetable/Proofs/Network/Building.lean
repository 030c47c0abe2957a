import LiveTimetable.Network.Fixture
import LiveTimetable.Proofs.Network.Registry
import LiveTimetable.Proofs.Network.Synthesis

/-!
# The network that a static schedule builds

`Fixture.build_spec`: no pattern is synthesized yet, each has a number below the one that the graph
gives out next, and every trip has the times that the schedule gives it.
-/

namespace LiveTimetable.Fixture

/-- The published times of a trip are those of one of the records. -/
def Publishes (records : List TripRecord) (b : Baseline) : Prop :=
  ∃ record ∈ records, b.trip = record.trip ∧
    b.calls = (bySequence record.stopTimes).map Call.ofStopTime

/-- A network of scheduled patterns, numbered below `number`, of the recorded trips. -/
structure Scheduled (records : List TripRecord) (number : Nat) (x : TransitIndex) (g : Graph) :
    Prop where
  index : x.WellFormed
  synthesized_eq : g.synthesized = Table.empty
  pattern : ∀ id p, x.patterns.get? id = some p → p.isSynthesized = false ∧ id.number < number ∧
    ∀ r ∈ p.timetable.rows, Publishes records r.published

variable {records : List TripRecord} {x : TransitIndex} {g : Graph}

/-! ## Groups -/

theorem mem_addToGroup {course : Course} {b : Baseline} {groups : Groups}
    {e : Course × List Baseline} (h : e ∈ addToGroup course b groups) {b' : Baseline}
    (hb : b' ∈ e.2) :
    b' = b ∨ ∃ e' ∈ groups, b' ∈ e'.2 := by
  induction groups with
  | nil =>
    rw [addToGroup, List.mem_singleton] at h
    rw [h] at hb
    exact Or.inl (List.mem_singleton.mp hb)
  | cons first rest ih =>
    obtain ⟨c, trips⟩ := first
    rw [addToGroup] at h
    split at h
    · rcases List.mem_cons.mp h with rfl | h
      · rcases List.mem_append.mp hb with hb | hb
        · exact Or.inr ⟨_, List.mem_cons_self, hb⟩
        · exact Or.inl (List.mem_singleton.mp hb)
      · exact Or.inr ⟨e, List.mem_cons_of_mem _ h, hb⟩
    · rcases List.mem_cons.mp h with rfl | h
      · exact Or.inr ⟨_, List.mem_cons_self, hb⟩
      · rcases ih h with heq | ⟨e', he', hb'⟩
        · exact Or.inl heq
        · exact Or.inr ⟨e', List.mem_cons_of_mem _ he', hb'⟩

theorem groupTrips_spec : ∀ {records : List TripRecord} {serial : Nat} {groups groups' : Groups},
    groupTrips x serial records groups = .ok groups' → ∀ e ∈ groups', ∀ b ∈ e.2,
      Publishes records b ∨ ∃ e' ∈ groups, b ∈ e'.2
  | [], serial, groups, groups', h, e, he, b, hb => by
    cases h
    exact Or.inr ⟨e, he, hb⟩
  | record :: rest, serial, groups, groups', h, e, he, b, hb => by
    unfold groupTrips at h
    simp only [] at h
    split at h
    · cases h
    · split at h
      · cases h
      · rename_i published hpublished
        rcases groupTrips_spec h e he b hb with ⟨r, hr, hpub⟩ | ⟨e', he', hb'⟩
        · exact Or.inl ⟨r, List.mem_cons_of_mem _ hr, hpub⟩
        · rcases mem_addToGroup he' hb' with rfl | hold
          · unfold Baseline.publish at hpublished
            split at hpublished
            · cases hpublished
            · cases hpublished
              exact Or.inl ⟨record, List.mem_cons_self, rfl, rfl⟩
          · exact Or.inr hold

/-! ## Patterns -/

theorem Scheduled.addPattern {number : Nat} (h : Scheduled records number x g) {course : Course}
    {trips : List Baseline} {p : Pattern} {x' : TransitIndex}
    (hp : (Pattern.publish ⟨number⟩ course.routeId course.stops trips false).run = .ok (.ok p))
    (htrips : ∀ b ∈ trips, Publishes records b) (hx : x.addPattern p = .ok x') :
    Scheduled records (number + 1) x' (g.addScheduled p) := by
  obtain ⟨hid, -, -, -, hsynth, hrows, hwf⟩ := Pattern.publish_spec hp
  obtain ⟨vertices, edges, nextVertex, nextEdge, hlink⟩ := g.link_eq p.id p.stops
  unfold TransitIndex.addPattern at hx
  split at hx
  · cases hx
  · cases hx
    have hnone : x.patterns.get? p.id = none := by
      cases hget : x.patterns.get? p.id with
      | none => rfl
      | some q =>
        have hlt := (h.pattern _ q hget).2.1
        rw [hid] at hlt
        exact absurd hlt (Nat.lt_irrefl _)
    have hrep : x.Replaces p (x.register p) := h.index.replaces_register fun q hq => by
      rw [hnone] at hq
      cases hq
    refine ⟨hrep.wellFormed h.index hwf fun id q t hq hsynth' => ?_, ?_, fun id q hq => ?_⟩
    · rw [(h.pattern id q hq).1] at hsynth'
      cases hsynth'
    · rw [Graph.addScheduled, hlink]
      exact h.synthesized_eq
    · rw [hrep.get?_patterns] at hq
      split at hq
      · rename_i heq
        cases hq
        rw [heq, hid]
        refine ⟨hsynth, Nat.lt_succ_self _, fun r hr => ?_⟩
        rw [hrows] at hr
        obtain ⟨b, hb, rfl⟩ := List.mem_map.mp hr
        exact htrips b hb
      · obtain ⟨hsynth', hlt, hpub⟩ := h.pattern id q hq
        exact ⟨hsynth', Nat.lt_succ_of_lt hlt, hpub⟩

theorem nextPattern_addScheduled (g : Graph) (p : Pattern) :
    (g.addScheduled p).nextPattern = g.nextPattern := by
  obtain ⟨vertices, edges, nextVertex, nextEdge, hlink⟩ := g.link_eq p.id p.stops
  rw [Graph.addScheduled, hlink]

theorem addPatterns_spec : ∀ {groups : Groups} {number : Nat} {x x' : TransitIndex} {g g' : Graph},
    (addPatterns .mk number groups (x, g)).run = .ok (.ok (x', g')) →
      (∀ e ∈ groups, ∀ b ∈ e.2, Publishes records b) → Scheduled records number x g →
        Scheduled records (number + groups.length) x' g' ∧ g'.nextPattern = g.nextPattern
  | [], number, x, x', g, g', h, _, hsched => by
    cases h
    exact ⟨hsched, rfl⟩
  | (course, trips) :: rest, number, x, x', g, g', h, hgroups, hsched => by
    unfold addPatterns at h
    obtain ⟨p, hadapt, hrest⟩ := Attempt.bind_eq_ok_iff.mp h
    obtain ⟨x₁, hx₁, hlast⟩ := Attempt.bind_eq_ok_iff.mp hrest
    obtain ⟨result, hp, hresult⟩ := Attempt.run_adapt_eq_ok_iff.mp hadapt
    cases result with
    | error e => cases hresult
    | ok p₀ =>
      cases hresult
      cases hadd : x.addPattern p with
      | error e =>
        rw [hadd] at hx₁
        cases hx₁
      | ok x₂ =>
        rw [hadd] at hx₁
        cases hx₁
        obtain ⟨hsched', hnext⟩ := addPatterns_spec hlast
          (fun e he => hgroups e (List.mem_cons_of_mem _ he))
          (hsched.addPattern hp (hgroups _ List.mem_cons_self) hadd)
        rw [List.length_cons, Nat.add_comm rest.length, ← Nat.add_assoc]
        exact ⟨hsched', hnext.trans (nextPattern_addScheduled g p)⟩

/-! ## The network -/

theorem patterns_foldl_addStop (stops : List Stop) (x : TransitIndex) :
    (stops.foldl TransitIndex.addStop x).patterns = x.patterns ∧
      (stops.foldl TransitIndex.addStop x).patternOf = x.patternOf := by
  induction stops generalizing x with
  | nil => exact ⟨rfl, rfl⟩
  | cons s rest ih => exact ih (x.addStop s)

theorem patterns_foldl_addAgency (agencies : List Agency) (x : TransitIndex) :
    (agencies.foldl TransitIndex.addAgency x).patterns = x.patterns ∧
      (agencies.foldl TransitIndex.addAgency x).patternOf = x.patternOf := by
  induction agencies generalizing x with
  | nil => exact ⟨rfl, rfl⟩
  | cons a rest ih => exact ih (x.addAgency a)

/-- **The network of a static schedule.** -/
theorem build_spec {f : Fixture} (h : f.build.run = .ok (.ok (x, g))) :
    Scheduled f.trips g.nextPattern x g := by
  obtain ⟨services, -, hrest⟩ := Attempt.bind_eq_ok_iff.mp h
  obtain ⟨groups, hgroups, hlast⟩ := Attempt.bind_eq_ok_iff.mp hrest
  have hgroups' : groupTrips _ 0 f.trips [] = .ok groups := Except.ok.inj hgroups
  obtain ⟨hpa, hca⟩ := patterns_foldl_addAgency f.agencies TransitIndex.empty
  obtain ⟨hps, hcs⟩ := patterns_foldl_addStop f.stops
    (f.agencies.foldl TransitIndex.addAgency TransitIndex.empty)
  obtain ⟨hsched, hnext⟩ := addPatterns_spec hlast (fun e he b hb => by
      rcases groupTrips_spec hgroups' e he b hb with hpub | ⟨e', he', -⟩
      · exact hpub
      · exact absurd he' List.not_mem_nil)
    ⟨TransitIndex.wellFormed_of_empty (hps.trans hpa) (hcs.trans hca), rfl, fun id p hp => by
      rw [hps, hpa] at hp
      cases hp⟩
  rw [Nat.zero_add] at hsched
  rw [hnext]
  exact hsched

end LiveTimetable.Fixture
