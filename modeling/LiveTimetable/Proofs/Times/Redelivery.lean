import LiveTimetable.Proofs.Times.Layers
import LiveTimetable.Proofs.Times.Refusals

/-!
# Updates that come twice

A feed sends most of what it knows again and again. An update that comes a second time lays its
patches over times that hold them already: the block of the first time is taken out from under the
new one, together with what it covered, and the same block is made once more.

The exception is a fading delay that has replaced blocks. It forgets them, so the second time the
patches lie over the published times, and may run forwards there.

* `TripTimes.uncover_uncover`, `TripTimes.cover_congr`: what is taken out is gone, and what is left
  decides about the new block.
* `TripTimes.patch_again`, `TripTimes.Intact.reconcile_again`: the second time has the answer of the
  first.
* `TripTimes.redelivery_changes_nothing`: and so has any later one.
-/

namespace LiveTimetable

namespace TripTimes

variable {s t under : TripTimes} {b : Baseline} {block : Block} {u : TripUpdate} {start : Nat}
  {recovery : Recovery} {stops : List StopId} {r : Reconciled}

/-! ## Covering twice -/

/-- What was taken out is not there to be taken out again. -/
theorem uncover_uncover (start stop : Nat) (t : TripTimes) :
    (t.uncover start stop).uncover start stop = t.uncover start stop := by
  induction t with
  | scheduled | canceled | decaying => rfl
  | updated block under ih =>
    by_cases hwithin : start ≤ block.offset ∧ block.stop ≤ stop
    · rw [uncover, if_pos hwithin]
      exact ih
    · rw [uncover, if_neg hwithin, uncover, if_neg hwithin]

/-- A block is taken out from under patches of all its stops. -/
theorem uncover_updated {p : Stretch} (h : block.stretch.Within p) :
    (updated block under).uncover p.start p.stop = under.uncover p.start p.stop := if_pos h

/-- The new block depends on the published times, on what the update leaves of the times, and on
what is to be said of wheelchairs. -/
theorem cover_congr (hbase : s.baseline = t.baseline)
    (hunder : s.uncover start (start + u.patches.length) =
      t.uncover start (start + u.patches.length))
    (hwheel : u.wheelchair.getD s.isWheelchair = u.wheelchair.getD t.isWheelchair) :
    s.cover u start = t.cover u start := by
  unfold cover lay stopCount
  by_cases hwidth : start + u.patches.length < 18446744073709551616
  · rw [Checked.word64, if_pos hwidth, Checked.ok_bind, Checked.ok_bind, hbase, hunder, hwheel]
  · rw [Checked.word64, if_neg hwidth]
    rfl

theorem wheelchair_of_cover (h : t.cover u start = .ok (block, under)) :
    block.wheelchair = u.wheelchair.getD t.isWheelchair := by
  obtain ⟨-, whole, hshrinks, -, -, hwheel⟩ := exists_of_cover h
  exact hshrinks.wheelchair_eq.trans hwheel

/-- Patches that lie over their own block make it once more. -/
theorem cover_updated (h : t.cover u start = .ok (block, under)) :
    (updated block under).cover u start = .ok (block, under) := by
  obtain ⟨hwithin, hunder⟩ := within_of_cover h
  have hbase := baseline_of_cover h
  refine (cover_congr (show (updated block under).baseline = t.baseline from hbase) ?_ ?_).trans h
  · rw [uncover_updated hwithin, hunder]
    exact uncover_uncover ..
  · show u.wheelchair.getD block.wheelchair = _
    rw [wheelchair_of_cover h]
    cases u.wheelchair <;> rfl

/-- A block over no stops that says nothing new of wheelchairs comes again as well, over what was
left under it. -/
theorem cover_under (h : t.cover u start = .ok (block, under))
    (hwheel : block.wheelchair = under.isWheelchair) :
    under.cover u start = .ok (block, under) := by
  obtain ⟨-, hunder⟩ := within_of_cover h
  refine (cover_congr (baseline_of_cover h) ?_ ?_).trans h
  · rw [hunder]
    exact uncover_uncover ..
  · rw [← hwheel, wheelchair_of_cover h]
    cases u.wheelchair <;> rfl

/-! ## Patching twice -/

/-- What patches lead to: what is left under a block that says nothing, a block, or a fading delay
in place of all blocks. -/
theorem patch_cases (h : (t.patch b u start recovery).run = .ok (.ok r)) :
    ∃ block under, (t.base b).cover u start = .ok (block, under) ∧
      (block.wheelchair = under.isWheelchair ∧ r.times = under ∨ r.times = updated block under ∨
        ∃ d : Decay, r.times = decaying d) := by
  unfold patch at h
  obtain ⟨⟨block, under⟩, hcover, h⟩ := Attempt.lift_bind_eq_ok_iff.mp h
  refine ⟨block, under, hcover, ?_⟩
  obtain ⟨forwards, -, h⟩ := Attempt.lift_bind_eq_ok_iff.mp h
  cases forwards with
  | true =>
    simp only [if_true] at h
    split at h
    · rename_i hempty
      cases h
      exact Or.inl ⟨hempty.2, rfl⟩
    · cases h
      exact Or.inr (Or.inl rfl)
  | false =>
    simp only [Bool.false_eq_true, if_false] at h
    obtain ⟨_, -, h⟩ := Attempt.lift_bind_eq_ok_iff.mp h
    obtain ⟨decayed, hdecayed, h⟩ := Attempt.lift_bind_eq_ok_iff.mp h
    obtain ⟨steady, -, h⟩ := Attempt.lift_bind_eq_ok_iff.mp h
    cases steady with
    | true =>
      cases h
      obtain ⟨⟨stop, delay⟩, -, hlast⟩ := Checked.bind_eq_ok_iff.mp hdecayed
      cases hlast
      exact Or.inr (Or.inr ⟨_, rfl⟩)
    | false =>
      obtain ⟨_, -, h⟩ := Attempt.lift_bind_eq_ok_iff.mp h
      cases h

/-- Times that are not a block are patched as if they were the published ones. -/
theorem base_of_not_updated (hbase : t.baseline = b) (h : ∀ block under, t ≠ updated block under) :
    t.base b = scheduled b := by
  cases t with
  | scheduled => exact congrArg scheduled hbase
  | canceled | decaying => rfl
  | updated block under => exact absurd rfl (h block under)

/-- **Patches that come twice lead twice to the same times.** -/
theorem patch_again (hbase : t.baseline = b) (ht : (t.base b).IsLayered)
    (h : (t.patch b u start recovery).run = .ok (.ok r))
    (hkind : (∀ d, r.times ≠ decaying d) ∨ ∀ block under, t ≠ updated block under) :
    (r.times.patch b u start recovery).run = .ok (.ok r) := by
  have hsame : (r.times.base b).cover u start = (t.base b).cover u start := by
    obtain ⟨block, under, hcover, hcases⟩ := patch_cases h
    have hlayered := ht.cover hcover
    rcases hcases with ⟨hwheel, hr⟩ | hr | ⟨d, hr⟩
    · rw [hr, hlayered.2.base_eq, cover_under hcover hwheel, hcover]
    · rw [hr, hlayered.base_eq, cover_updated hcover, hcover]
    · have hplain := hkind.resolve_left fun hnot => hnot d hr
      rw [hr, base_of_not_updated hbase hplain]
      rfl
  rw [← h]
  unfold patch
  rw [hsame]

/-! ## Updates that come twice -/

/-- **An update that comes twice has the same answer twice**, unless a fading delay has replaced
the blocks that it was laid over. -/
theorem Intact.reconcile_again (hbase : t.baseline = b) (ht : t.Intact)
    (h : (t.reconcile b stops u recovery).run = .ok (.ok r))
    (hkind : (∀ d, r.times ≠ decaying d) ∨ ∀ block under, t ≠ updated block under) :
    (r.times.reconcile b stops u recovery).run = .ok (.ok r) := by
  by_cases hremoval : u.isRemoval = true
  · rw [TripTimes.reconcile, if_pos hremoval] at h ⊢
    exact h
  by_cases hcancellation : u.isCancellation = true
  · rw [TripTimes.reconcile, if_neg hremoval, if_pos hcancellation] at h ⊢
    exact h
  rw [TripTimes.reconcile, if_neg hremoval, if_neg hcancellation, alignment_eq] at h ⊢
  cases hplace : Sheet.place? b stops u with
  | none =>
    rw [hplace] at h
    cases h
  | some start =>
    rw [hplace] at h
    exact patch_again hbase (ht.layered b) h hkind

/-- An update that has changed nothing once changes nothing however often it comes. -/
theorem deliverAll_replicate (h : (t.reconcile b stops u recovery).run = .ok (.ok r))
    (hsame : r.times = t) : ∀ n, deliverAll b stops recovery (List.replicate n u) t = .ok t
  | 0 => rfl
  | n + 1 => by
    rw [List.replicate_succ, deliverAll, deliver, h, Checked.ok_bind]
    show deliverAll b stops recovery (List.replicate n u) r.times = .ok t
    rw [hsame]
    exact deliverAll_replicate h hsame n

/-- **Delivering an update again changes nothing.** Times that updates have led to take one more
update, and no fading delay replaces blocks on the way. Then the same update has the same answer
once more, and the times stay as they are however often it comes. -/
theorem redelivery_changes_nothing (ht : Arises b t)
    (h : (t.reconcile b stops u recovery).run = .ok (.ok r))
    (hkind : (∀ d, r.times ≠ decaying d) ∨ ∀ block under, t ≠ updated block under) :
    (r.times.reconcile b stops u recovery).run = .ok (.ok r) ∧
      ∀ n, deliverAll b stops recovery (List.replicate n u) r.times = .ok r.times := by
  have hagain := ht.intact.reconcile_again ht.baseline_eq h hkind
  exact ⟨hagain, deliverAll_replicate hagain rfl⟩

/-- The last stop of the late trip was put off to 230, and the stop before it is put off to 150.
When that is said again, the block for it is made again over the one for the last stop. -/
theorem redelivery_changes_nothing_lateTrip :
    let t := updated ⟨2, none, [230], none, false⟩ (scheduled lateTrip)
    let u := lateNews ⟨"a", "y"⟩ 1 150
    let r : Reconciled := ⟨updated ⟨1, none, [150], none, false⟩ t, true⟩
    (Arises lateTrip t ∧ (t.reconcile lateTrip lateStops u .standard).run = .ok (.ok r) ∧
      ∀ d, r.times ≠ decaying d) ∧
    (r.times.reconcile lateTrip lateStops u .standard).run = .ok (.ok r) ∧
      ∀ n, deliverAll lateTrip lateStops .standard (List.replicate n u) r.times = .ok r.times := by
  intro t u r
  have hfirst : ((scheduled lateTrip).reconcile lateTrip lateStops (lateNews ⟨"a", "z"⟩ 2 230)
      .standard).run = .ok (.ok ⟨t, true⟩) := by rfl
  have harises : Arises lateTrip t := Arises.published.reconciled hfirst
  have hrun : (t.reconcile lateTrip lateStops u .standard).run = .ok (.ok r) := by rfl
  have hkind : ∀ d, r.times ≠ decaying d := by simp [r]
  exact ⟨⟨harises, hrun, hkind⟩, redelivery_changes_nothing harises hrun (Or.inl hkind)⟩

/-- The exception: a block that puts the last stop forward to 150 makes the second stop at 160 step
back, and the fading delay of that stop takes its place. The second time there is no block in the
way any more. -/
example :
    deliverAll lateTrip lateStops .standard [lateNews ⟨"a", "z"⟩ 2 150, lateNews ⟨"a", "y"⟩ 1 160]
      (scheduled lateTrip) = .ok (decaying ⟨lateTrip, 1, 60, 30, false⟩) ∧
    deliverAll lateTrip lateStops .standard [lateNews ⟨"a", "y"⟩ 1 160]
      (decaying ⟨lateTrip, 1, 60, 30, false⟩) =
        .ok (updated ⟨1, none, [160], none, false⟩ (scheduled lateTrip)) :=
  ⟨by rfl, by rfl⟩

end TripTimes

end LiveTimetable
