import LiveTimetable.Proofs.Live.Applying
import Mathlib.Logic.Relation

/-!
# Runs of the writer

A **command** is one call to the writer, a run is a list of commands. A command goes in **stages**:
the updates of a batch are applied one by one, and settled after that. So a run is a list of
stages as well (`Updater.performAll_eq_passAll`), and what every stage keeps, every run keeps.

* `Updater.change_of_newTrip?`, `Updater.quiet_of_newTrip?`: in a consistent state a stage adds one
  trip, which is one change, or goes in changes that add none.
* `Updater.invariant_performAll`: what changes of consistent states keep, runs keep.
* `Updater.Consistent.performAll`: runs keep the state consistent.
-/

namespace LiveTimetable.Updater

/-- One call to the writer. -/
inductive Command where
  | apply (u : TripUpdate)
  | runAt (source : Source) (today : ServiceDate) (now : Nat)
  | publish (now : Nat) (force : Bool)
  | purge (today : ServiceDate)

/-- The state after a call that met no fault. -/
def perform (s : Updater) : Command → Checked Updater
  | .apply u => return (← s.apply u).1
  | .runAt source today now =>
    match s.runAt source today now with
    | ((s, _), .ok _) => .ok s
    | (_, .error fault) => .error fault
  | .publish now force => s.publish now force
  | .purge today => return (← s.purge today).1

/-- The state after a run that met no fault. -/
def performAll : List Command → Updater → Checked Updater
  | [], s => .ok s
  | c :: rest, s => do performAll rest (← s.perform c)

/-- A part of a call after which the writer is in a definite state. -/
inductive Stage where
  | apply (u : TripUpdate)
  /-- What follows a batch: a purge, if the settings say so, and a publication. -/
  | settle (today : ServiceDate) (now : Nat)
  | publish (now : Nat) (force : Bool)
  | purge (today : ServiceDate)

/-- The state after a stage that met no fault. -/
def pass (s : Updater) : Stage → Checked Updater
  | .apply u => return (← s.apply u).1
  | .settle today now => return (← s.settle today now).1
  | .publish now force => s.publish now force
  | .purge today => return (← s.purge today).1

/-- The trip that a stage adds, if it adds one. -/
def Stage.newTrip? (s : Updater) : Stage → Option Baseline
  | .apply u => s.newTrip? u
  | _ => none

/-- The state after a list of stages none of which met a fault. -/
def passAll : List Stage → Updater → Checked Updater
  | [], s => .ok s
  | stage :: rest, s => do passAll rest (← s.pass stage)

/-- The stages of a call. A source that fails leaves nothing to do. -/
def Command.stages : Command → List Stage
  | .apply u => [.apply u]
  | .runAt source today now =>
    match source.next.2 with
    | .ok batch => (batch.getD []).map Stage.apply ++ [.settle today now]
    | .error _ => []
  | .publish now force => [.publish now force]
  | .purge today => [.purge today]

/-- **A run pulls once.** If the pull fails, nothing else happens. -/
theorem runAt_cases (s : Updater) (source : Source) (today : ServiceDate) (now : Nat) :
    (∃ e, source.next.2 = .error e ∧
      s.runAt source today now = ((s, source.next.1), .ok (.error e))) ∨
    ∃ batch, source.next.2 = .ok batch ∧
      s.runAt source today now = (((s.runBatch (batch.getD []) today now).1, source.next.1),
        (s.runBatch (batch.getD []) today now).2.map .ok) := by
  unfold runAt
  rcases source.next with ⟨source', e | batch⟩
  · exact .inl ⟨e, rfl, rfl⟩
  · exact .inr ⟨batch, rfl, rfl⟩

/-! ## Runs in stages -/

variable {s s' : Updater}

theorem passAll_append (stages stages' : List Stage) (s : Updater) :
    passAll (stages ++ stages') s = passAll stages s >>= passAll stages' := by
  induction stages generalizing s with
  | nil => rfl
  | cons stage rest ih =>
    rw [List.cons_append, passAll, passAll]
    cases s.pass stage with
    | error fault => rfl
    | ok mid => exact ih mid

theorem passAll_singleton (stage : Stage) (s : Updater) : passAll [stage] s = s.pass stage := by
  rw [passAll]
  cases s.pass stage <;> rfl

/-- A batch passes update by update. -/
theorem passAll_map_apply (batch : Batch) (s : Updater) :
    passAll (batch.map Stage.apply) s =
      (applyAll batch s).2.map fun _ => (applyAll batch s).1 := by
  induction batch generalizing s with
  | nil => rfl
  | cons u rest ih =>
    rw [List.map_cons, passAll, pass, applyAll]
    cases hu : s.apply u with
    | error fault => rfl
    | ok out =>
      obtain ⟨mid, result⟩ := out
      simp only [Checked.ok_bind, Checked.pure_eq_ok, ih]
      cases (applyAll rest mid).2 <;> rfl

/-- The state that a batch leaves is that after its last stage. -/
theorem passAll_batch (batch : Batch) (today : ServiceDate) (now : Nat) (s : Updater) :
    passAll (batch.map Stage.apply ++ [.settle today now]) s =
      (s.runBatch batch today now).2.map fun _ => (s.runBatch batch today now).1 := by
  rw [passAll_append, passAll_map_apply, runBatch]
  rcases applyAll batch s with ⟨mid, _ | counts⟩
  · rfl
  · show passAll [.settle today now] mid = _
    rw [passAll_singleton, pass]
    simp only []
    cases mid.settle today now <;> rfl

theorem perform_eq_passAll (s : Updater) (c : Command) : s.perform c = passAll c.stages s := by
  cases c with
  | apply u => exact (passAll_singleton (.apply u) s).symm
  | publish now force => exact (passAll_singleton (.publish now force) s).symm
  | purge today => exact (passAll_singleton (.purge today) s).symm
  | runAt source today now =>
    simp only [perform, runAt, Command.stages]
    rcases source.next with ⟨source', _ | batch⟩
    · rfl
    · simp only [passAll_batch]
      rcases s.runBatch (batch.getD []) today now with ⟨last, _ | summary⟩ <;> rfl

theorem performAll_eq_passAll (cs : List Command) (s : Updater) :
    performAll cs s = passAll (cs.flatMap Command.stages) s := by
  induction cs generalizing s with
  | nil => rfl
  | cons c rest ih =>
    rw [performAll, List.flatMap_cons, passAll_append, perform_eq_passAll]
    cases passAll c.stages s with
    | error fault => rfl
    | ok mid => exact ih mid

/-! ## Stages in changes -/

/-- The state `s'` is `s` after changes that add no trip. -/
def Quiet : Updater → Updater → Prop := Relation.ReflTransGen fun a b => Change a none b

theorem Quiet.consistent (h : Quiet s s') (hs : s.Consistent) : s'.Consistent := by
  induction h with
  | refl => exact hs
  | tail _ hlast ih => exact hlast.consistent ih

theorem withdrawAll_quiet : ∀ {trips : List TripId} {s s' : Updater} {any : Bool}, s.Consistent →
    withdrawAll trips s = .ok (s', any) → Quiet s s'
  | [], s, s', any, _, h => by
    cases h
    exact .refl
  | trip :: rest, s, s', any, hs, h => by
    obtain ⟨⟨mid, result⟩, hone, h⟩ := Checked.bind_eq_ok_iff.mp h
    obtain ⟨⟨last, any'⟩, hrest, h⟩ := Checked.bind_eq_ok_iff.mp h
    cases h
    cases hadded : s.added.contains trip with
    | true =>
      obtain ⟨-, hchange⟩ := withdraw_spec hs hadded hone
      exact .head hchange (withdrawAll_quiet (hchange.consistent hs) hrest)
    | false =>
      rw [withdraw_eq_of_not_added hadded] at hone
      cases hone
      exact withdrawAll_quiet hs hrest

theorem purge_quiet (hs : s.Consistent) {today : ServiceDate} {any : Bool}
    (h : s.purge today = .ok (s', any)) : Quiet s s' := by
  unfold purge at h
  simp only [] at h
  split at h
  · cases h
    exact .refl
  · obtain ⟨⟨mid, any'⟩, hall, h⟩ := Checked.bind_eq_ok_iff.mp h
    cases h
    exact .tail (withdrawAll_quiet hs hall) (.expired _ _)

theorem publish_quiet {now : Nat} {force : Bool} (h : s.publish now force = .ok s') :
    Quiet s s' := by
  obtain ⟨publisher, hpub, h⟩ := Checked.bind_eq_ok_iff.mp h
  cases h
  unfold Publisher.publish at hpub
  split at hpub
  · obtain ⟨⟨b, snapshot⟩, hcommit, hpub⟩ := Checked.bind_eq_ok_iff.mp hpub
    cases hpub
    exact .single (.published now hcommit)
  · cases hpub
    exact .refl

theorem settle_quiet (hs : s.Consistent) {today : ServiceDate} {now : Nat} {purged : Bool}
    (h : s.settle today now = .ok (s', purged)) : Quiet s s' := by
  unfold settle at h
  split at h
  · obtain ⟨⟨mid, any⟩, hpurge, hrest⟩ := Checked.bind_eq_ok_iff.mp h
    obtain ⟨last, hpublish, hlast⟩ := Checked.bind_eq_ok_iff.mp hrest
    cases hlast
    exact (purge_quiet hs hpurge).trans (publish_quiet hpublish)
  · simp only [Checked.ok_bind] at h
    obtain ⟨last, hpublish, hlast⟩ := Checked.bind_eq_ok_iff.mp h
    cases hlast
    exact publish_quiet hpublish

/-- **A stage that adds a trip is one change.** -/
theorem change_of_newTrip? (hs : s.Consistent) {stage : Stage} (h : s.pass stage = .ok s')
    {b : Baseline} (hentry : stage.newTrip? s = some b) : Change s (some b) s' := by
  cases stage with
  | settle | publish | purge => cases hentry
  | apply u =>
    have hu : s.newTrip? u = some b := hentry
    obtain ⟨⟨mid, result⟩, happly, h⟩ := Checked.bind_eq_ok_iff.mp h
    cases h
    rcases apply_spec hs happly with ⟨-, hnone, -⟩ | ⟨-, hchange⟩
    · rw [hu] at hnone
      cases hnone
    · exact hu ▸ hchange

/-- **Any other stage goes in changes that add none.** -/
theorem quiet_of_newTrip? (hs : s.Consistent) {stage : Stage} (h : s.pass stage = .ok s')
    (hentry : stage.newTrip? s = none) : Quiet s s' := by
  cases stage with
  | apply u =>
    have hu : s.newTrip? u = none := hentry
    obtain ⟨⟨mid, result⟩, happly, h⟩ := Checked.bind_eq_ok_iff.mp h
    cases h
    rcases apply_spec hs happly with ⟨-, -, rfl⟩ | ⟨-, hchange⟩
    · exact .refl
    · exact .single (hu ▸ hchange)
  | settle today now =>
    obtain ⟨⟨mid, purged⟩, hsettle, h⟩ := Checked.bind_eq_ok_iff.mp h
    cases h
    exact settle_quiet hs hsettle
  | publish now force => exact publish_quiet h
  | purge today =>
    obtain ⟨⟨mid, any⟩, hpurge, h⟩ := Checked.bind_eq_ok_iff.mp h
    cases h
    exact purge_quiet hs hpurge

/-! ## Invariants -/

theorem Consistent.pass (hs : s.Consistent) {stage : Stage} (h : s.pass stage = .ok s') :
    s'.Consistent := by
  cases hentry : stage.newTrip? s with
  | none => exact (quiet_of_newTrip? hs h hentry).consistent hs
  | some b => exact (change_of_newTrip? hs h hentry).consistent hs

/-- What changes that add no trip keep. -/
theorem Quiet.invariant {I : Updater → Prop}
    (hI : ∀ a b, Change a none b → a.Consistent → I a → I b) (h : Quiet s s') (hs : s.Consistent)
    (hi : I s) : I s' := by
  induction h with
  | refl => exact hi
  | tail hquiet hlast ih => exact hI _ _ hlast (Quiet.consistent hquiet hs) ih

section Invariant

variable {I : Updater → Prop} (hI : ∀ a entry b, Change a entry b → a.Consistent → I a → I b)

include hI

theorem invariant_passAll : ∀ {stages : List Stage} {s s' : Updater}, s.Consistent → I s →
    passAll stages s = .ok s' → I s'
  | [], s, s', _, hi, h => by
    cases h
    exact hi
  | stage :: rest, s, s', hs, hi, h => by
    obtain ⟨mid, hmid, h⟩ := Checked.bind_eq_ok_iff.mp h
    refine invariant_passAll (hs.pass hmid) ?_ h
    cases hentry : stage.newTrip? s with
    | none => exact (quiet_of_newTrip? hs hmid hentry).invariant (fun a => hI a none) hs hi
    | some b => exact hI _ _ _ (change_of_newTrip? hs hmid hentry) hs hi

/-- **What changes of consistent states keep, runs keep.** -/
theorem invariant_performAll (hs : s.Consistent) (hi : I s) {cs : List Command}
    (h : performAll cs s = .ok s') : I s' := by
  rw [performAll_eq_passAll] at h
  exact invariant_passAll hI hs hi h

end Invariant

theorem Consistent.passAll (hs : s.Consistent) {stages : List Stage}
    (h : passAll stages s = .ok s') : s'.Consistent :=
  invariant_passAll (fun _ _ _ hchange ha _ => hchange.consistent ha) hs hs h

/-- **Runs keep the state consistent.** -/
theorem Consistent.performAll (hs : s.Consistent) {cs : List Command}
    (h : performAll cs s = .ok s') : s'.Consistent :=
  invariant_performAll (fun _ _ _ hchange ha _ => hchange.consistent ha) hs hs h

end LiveTimetable.Updater
