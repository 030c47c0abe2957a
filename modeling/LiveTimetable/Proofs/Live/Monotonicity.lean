import LiveTimetable.Proofs.Live.Rows
import LiveTimetable.Proofs.Times.Installing

/-!
# Trips that run backwards

An update of a trip that is there is checked, and its times never step back behind those of a
publication that runs forwards. The times of an added trip become its publication as they are. So
over a schedule that runs forwards no trip ever runs backwards if and only if no trip is added
that does (`Updater.runs_forwards_iff`). One that is stays alone: no other row steps back because
of it.
-/

namespace LiveTimetable

/-- The times of a row are times of its publication, and run forwards if that does. -/
def Row.Steady (r : Row) : Prop :=
  r.current.baseline = r.published ∧
    (Forwards r.published.calls → r.current.isIncreasing = .ok true)

/-- A new row is steady, even if its publication runs backwards. -/
theorem Row.steady_ofBaseline (b : Baseline) : (Row.ofBaseline b).Steady :=
  ⟨rfl, TripTimes.isIncreasing_scheduled_iff.mpr⟩

theorem Row.steady_keptByUpdates : KeptByUpdates Row.Steady := by
  intro row stops u recovery r hsteady hreconcile
  exact TripTimes.reconcile_isIncreasing hsteady.1 hreconcile

/-- An update does not touch the publication. -/
theorem Row.published_keptByUpdates (P : Baseline → Prop) :
    KeptByUpdates fun r => P r.published := fun _ _ _ _ _ h _ => h

/-- The published times of every trip run forwards. -/
def Fixture.RunsForwards (f : Fixture) : Prop :=
  ∀ record ∈ f.trips, Forwards ((bySequence record.stopTimes).map Call.ofStopTime)

instance (f : Fixture) : Decidable f.RunsForwards := List.decidableBAll _ _

namespace Updater

/-- No trip runs backwards, wherever the state has times of it. -/
def RunsForwards (s : Updater) : Prop := s.AllRows fun r => r.current.isIncreasing = .ok true

/-- What holds of the row of every scheduled trip holds of every row at the start. -/
theorem allRows_start {P : Row → Prop} {records : List TripRecord} {x : TransitIndex} {g : Graph}
    (h : Fixture.Scheduled records g.nextPattern x g) (settings : Settings)
    (hP : ∀ b, Fixture.Publishes records b → P (Row.ofBaseline b)) :
    (start x g settings).AllRows P := by
  refine ⟨fun key held hget => ?_, fun key held hget => ?_, fun id p hp r hr => ?_⟩
  · cases hget
  · cases hget
  · rw [(h.index.pattern id p hp).asPublished r hr]
    exact hP _ ((h.pattern id p hp).2.2 r hr)

/-- **No trip ever runs backwards exactly if no trip is added that does.** Take a run over the
network of a schedule whose trips all run forwards, and the states that it passes up to a fault,
if it meets one. In all of them all trips run forwards if and only if all trips that the run adds
do. Even if one does not, every row whose publication runs forwards does so itself. -/
theorem runs_forwards_iff {f : Fixture} {x : TransitIndex} {g : Graph}
    (hbuild : f.build.run = .ok (.ok (x, g))) (hf : f.RunsForwards) (settings : Settings)
    (cs : List Command) :
    ((∀ s ∈ visited (cs.flatMap Command.stages) (start x g settings), s.RunsForwards) ↔
      ∀ b ∈ newTrips (cs.flatMap Command.stages) (start x g settings), Forwards b.calls) ∧
    (∀ s ∈ visited (cs.flatMap Command.stages) (start x g settings),
      s.AllRows fun r => Forwards r.published.calls → r.current.isIncreasing = .ok true) ∧
    ∀ s, performAll cs (start x g settings) = .ok s →
      s ∈ visited (cs.flatMap Command.stages) (start x g settings) := by
  have hsched := Fixture.build_spec hbuild
  have hs := consistent_start hsched settings
  have hsteady : ∀ s ∈ visited (cs.flatMap Command.stages) (start x g settings),
      s.AllRows Row.Steady :=
    allRows_of_mem_visited Row.steady_keptByUpdates hs
      (allRows_start hsched settings fun b _ => Row.steady_ofBaseline b)
      fun b _ => Row.steady_ofBaseline b
  have hscheduled : ∀ b, Fixture.Publishes f.trips b → Forwards b.calls := by
    rintro b ⟨record, hrecord, -, hcalls⟩
    exact hcalls ▸ hf record hrecord
  refine ⟨⟨fun hall b hb => ?_, fun hnew s hmem => ?_⟩, fun s hmem => (hsteady s hmem).imp ?_,
    fun s hrun => mem_visited_of_passAll (performAll_eq_passAll cs _ ▸ hrun)⟩
  -- A trip that was added is in the index with its publication, in the state right after that.
  · obtain ⟨s, hmem, id, p, hp, hrow⟩ := exists_visited_of_mem_newTrips hs hb
    exact TripTimes.isIncreasing_scheduled_iff.mp ((hall s hmem).indexed id p hp _ hrow)
  -- All publications run forwards, and so do the rows, which are steady.
  · have hpublished := allRows_of_mem_visited
      (Row.published_keptByUpdates fun b => Forwards b.calls) hs
      (allRows_start hsched settings hscheduled) hnew s hmem
    exact (hsteady s hmem).and hpublished |>.imp fun r h => h.1.2 h.2
  · exact fun r h => h.2

/-- Over the shuttle, which runs forwards, an added trip that arrives before it departs runs
backwards. -/
theorem runs_forwards_iff_shuttle : shuttle.RunsForwards ∧ ∃ x g,
    shuttle.build.run = .ok (.ok (x, g)) ∧
      ¬ ∀ s ∈ visited ([.apply (extraTrip "n" "x" "y" 250 150)].flatMap Command.stages)
        (start x g .standard), s.RunsForwards := by
  have hf : shuttle.RunsForwards := by decide
  refine ⟨hf, _, _, rfl, fun hall => ?_⟩
  have h := runs_forwards_iff (f := shuttle) rfl hf .standard
    [.apply (extraTrip "n" "x" "y" 250 150)]
  exact absurd (h.1.mp hall) (by decide)

end Updater

end LiveTimetable
