import LiveTimetable.Proofs.Live.Runs
import LiveTimetable.Proofs.Network.Building

/-!
# The states that a writer can reach

A state is reachable if a run leads to it, without a fault, from the start over a network that was
built from a static schedule. Every reachable state is consistent (`Updater.Reachable.consistent`).
-/

namespace LiveTimetable.Updater

/-- A run over the network of a static schedule leads to the state. -/
def Reachable (s : Updater) : Prop :=
  ∃ (f : Fixture) (x : TransitIndex) (g : Graph) (settings : Settings) (cs : List Command),
    f.build.run = .ok (.ok (x, g)) ∧ performAll cs (.start x g settings) = .ok s

variable {s : Updater}

/-- Over a network without synthesized patterns nothing is booked and nothing is held. -/
theorem consistent_start {records : List TripRecord} {x : TransitIndex} {g : Graph}
    (h : Fixture.Scheduled records g.nextPattern x g) (settings : Settings) :
    (start x g settings).Consistent := by
  have hnone : ∀ y, ¬ g.Keeps y := by
    intro y hy
    rw [Graph.Keeps, h.synthesized_eq] at hy
    cases hy
  refine ⟨h.index, Graph.wellFormed_of_empty h.synthesized_eq, ⟨fun y hy => absurd hy (hnone y),
    fun id p hp hsynth => ?_, fun id usage => ⟨?_, ?_⟩, fun trip id => ⟨?_, ?_⟩⟩,
    fun id p hp => (h.pattern id p hp).2.1, ?_, ?_⟩
  · rw [(h.pattern id p hp).1] at hsynth
    cases hsynth
  · intro hget
    cases hget
  · rintro ⟨y, hy, -⟩
    exact absurd hy (hnone y)
  · rintro ⟨announcement, hget, -⟩
    cases hget
  · rintro ⟨y, hy, -⟩
    exact absurd hy (hnone y)
  · intro id revision hget
    cases hget
  · intro key held hget
    cases hget

/-- **Every reachable state is consistent.** -/
theorem Reachable.consistent (h : s.Reachable) : s.Consistent := by
  obtain ⟨f, x, g, settings, cs, hbuild, hrun⟩ := h
  exact (consistent_start (Fixture.build_spec hbuild) settings).performAll hrun

theorem performAll_append (cs cs' : List Command) (s : Updater) :
    performAll (cs ++ cs') s = performAll cs s >>= performAll cs' := by
  rw [performAll_eq_passAll, List.flatMap_append, passAll_append, ← performAll_eq_passAll]
  exact congrArg _ (funext fun mid => (performAll_eq_passAll cs' mid).symm)

/-- The state after one more call. -/
theorem Reachable.perform (h : s.Reachable) {c : Command} {s' : Updater}
    (hc : s.perform c = .ok s') : s'.Reachable := by
  obtain ⟨f, x, g, settings, cs, hbuild, hrun⟩ := h
  refine ⟨f, x, g, settings, cs ++ [c], hbuild, ?_⟩
  rw [performAll_append, hrun, Checked.ok_bind, performAll, hc]
  rfl

/-- The state after any further run. -/
theorem Reachable.performAll (h : s.Reachable) {cs : List Command} {s' : Updater}
    (hrun : Updater.performAll cs s = .ok s') : s'.Reachable := by
  obtain ⟨f, x, g, settings, before, hbuild, hbefore⟩ := h
  refine ⟨f, x, g, settings, before ++ cs, hbuild, ?_⟩
  rw [performAll_append, hbefore]
  exact hrun

/-- What holds at the start, and is kept by changes, holds of every reachable state. -/
theorem Reachable.invariant {I : Updater → Prop}
    (hstart : ∀ records x g settings, Fixture.Scheduled records g.nextPattern x g →
      I (.start x g settings))
    (hI : ∀ a entry b, Change a entry b → a.Consistent → I a → I b) (h : s.Reachable) : I s := by
  obtain ⟨f, x, g, settings, cs, hbuild, hrun⟩ := h
  have hscheduled := Fixture.build_spec hbuild
  exact invariant_performAll hI (consistent_start hscheduled settings)
    (hstart _ x g settings hscheduled) hrun

/-! ## One added trip -/

/-- A schedule of two stops and one trip between them. -/
def shuttle : Fixture where
  agencies := [⟨"a", "A", .utc⟩]
  stops := [⟨⟨"a", "x"⟩, "X"⟩, ⟨⟨"a", "y"⟩, "Y"⟩]
  services := []
  trips := [⟨⟨⟨"a", "t"⟩, ⟨"a", "r"⟩, ⟨"a", "s"⟩, false⟩,
    [⟨⟨"a", "x"⟩, 0, 100, 100, .regular, .regular⟩, ⟨⟨"a", "y"⟩, 1, 200, 200, .regular, .regular⟩]⟩]

/-- The date of the updates below. -/
def shuttleDate : ServiceDate := ⟨2024, 3, 1, by decide⟩

/-- A trip of its own name, added on the shuttle's route from one stop to another. -/
def extraTrip (name origin target : String) (departure arrival : ServiceTime) : TripUpdate :=
  .adding ⟨"a", name⟩ ⟨"a", "r"⟩ 0 shuttleDate
    [.ofTimes ⟨"a", name⟩ ⟨"a", origin⟩ 0 .predicted shuttleDate none (some departure),
      .ofTimes ⟨"a", name⟩ ⟨"a", target⟩ 1 .predicted shuttleDate (some arrival) none]

/-- The state after a run over the network of the shuttle; a run that met a fault counts as none. -/
def shuttleAfter (cs : List Command) : Updater :=
  match shuttle.build.run with
  | .ok (.ok (x, g)) =>
    match performAll cs (.start x g .standard) with
    | .ok s => s
    | .error _ => .start x g .standard
  | _ => .start .empty (.ofServices 0 0 .empty) .standard

/-- The shuttle's network with one added trip. -/
def shuttleWithExtra : Updater := shuttleAfter [.apply (extraTrip "n" "x" "y" 150 250)]

theorem reachable_shuttleWithExtra : shuttleWithExtra.Reachable :=
  ⟨shuttle, _, _, .standard, [.apply (extraTrip "n" "x" "y" 150 250)], rfl, rfl⟩

end LiveTimetable.Updater
