import LiveTimetable.Proofs.Times.Installing
import LiveTimetable.Proofs.Times.Simulation
import Mathlib.Data.List.Flatten

/-!
# How many layers there are

Every update that is not taken back puts one more block over the times of its trip, and takes out
from under it the outer blocks that lie within its stops. A block further in stays, also if later
ones cover it altogether. So the number of layers hangs on the **stretches** of stops that the
updates patch.

* `TripTimes.Stacked`: blocks from stretches, each longer than the one over it. Where any two
  stretches are nested, one within the other, updates keep the blocks stacked
  (`Stacked.deliverAll`), and a stack has no more layers than its trip has stops
  (`Stacked.depth_le`).
* `TripTimes.exists_alternating`: two stretches that are not nested, patched in turn, add a layer
  with each update.
* `TripTimes.depth_bounded_by_nesting`: both sides together.
-/

namespace LiveTimetable

/-! ## Stretches of stops -/

/-- Neighbouring stops, from `start` up to `stop`. -/
structure Stretch where
  start : Nat
  stop : Nat
  deriving DecidableEq

namespace Stretch

/-- The number of stops. -/
def length (p : Stretch) : Nat := p.stop - p.start

/-- All stops of the one are stops of the other. -/
def Within (p q : Stretch) : Prop := q.start ≤ p.start ∧ p.stop ≤ q.stop

/-- One of the two lies within the other. -/
def Nested (p q : Stretch) : Prop := p.Within q ∨ q.Within p

/-- The stretch has stops, and they are stops of a trip with so many of them. -/
def Fits (p : Stretch) (stopCount : Nat) : Prop := p.start < p.stop ∧ p.stop ≤ stopCount

/-- The stop is one of the stretch. -/
def Has (p : Stretch) (stop : Nat) : Prop := p.start ≤ stop ∧ stop < p.stop

instance (p q : Stretch) : Decidable (p.Within q) := inferInstanceAs (Decidable (_ ∧ _))

instance (p q : Stretch) : Decidable (p.Nested q) := inferInstanceAs (Decidable (_ ∨ _))

instance (p : Stretch) (stopCount : Nat) : Decidable (p.Fits stopCount) :=
  inferInstanceAs (Decidable (_ ∧ _))

variable {p q : Stretch} {stopCount : Nat}

/-- A stretch that does not lie within another one has a stop of its own. -/
theorem exists_own_stop (hp : p.Fits stopCount) (h : ¬ p.Within q) :
    ∃ stop, p.Has stop ∧ ¬ q.Has stop := by
  unfold Within at h
  unfold Fits at hp
  by_cases hstart : q.start ≤ p.start
  · exact ⟨p.stop - 1, ⟨by omega, by omega⟩, fun hq => by unfold Has at hq; omega⟩
  · exact ⟨p.start, ⟨by omega, by omega⟩, fun hq => by unfold Has at hq; omega⟩

end Stretch

/-- The stops of a trip that an update patches, if its patches align with them. -/
def TripUpdate.stretch? (b : Baseline) (stops : List StopId) (u : TripUpdate) : Option Stretch :=
  match u.status with
  | .removed | .canceled => none
  | .added | .modified =>
    (Sheet.place? b stops u).map fun start => ⟨start, start + u.patches.length⟩

/-- The stretch is patched by one of the updates. -/
def Stretch.PatchedBy (b : Baseline) (stops : List StopId) (us : List TripUpdate) (p : Stretch) :
    Prop := ∃ u ∈ us, u.stretch? b stops = some p

/-- The stops of a block. -/
def Block.stretch (b : Block) : Stretch := ⟨b.offset, b.stop⟩

namespace TripTimes

variable {b : Baseline} {stops : List StopId} {recovery : Recovery} {u : TripUpdate}
  {t under : TripTimes} {block : Block} {start : Nat} {W : Stretch → Prop} {p q : Stretch}

/-- The block of an update lies within the stops that it patches. -/
theorem within_of_cover (h : t.cover u start = .ok (block, under)) :
    block.stretch.Within ⟨start, start + u.patches.length⟩ ∧
      under = t.uncover start (start + u.patches.length) := by
  obtain ⟨hunder, whole, hshrinks, hoffset, hspan, -⟩ := exists_of_cover h
  refine ⟨?_, hunder⟩
  have hoffset' := hshrinks.offset_eq
  have hspan' := hshrinks.span_le
  unfold Stretch.Within Block.stretch Block.stop
  simp only []
  omega

/-! ## Stacks -/

/-- Each block lies within a stretch of `W` that is longer than `least`, and longer than those of
the blocks over it. -/
def Stacked (W : Stretch → Prop) : (least : Nat) → TripTimes → Prop
  | least, updated block under =>
    ∃ p, W p ∧ block.stretch.Within p ∧ least < p.length ∧ under.Stacked W p.length
  | _, _ => True

namespace Stacked

theorem mono {least least' : Nat} (h : t.Stacked W least) (hle : least' ≤ least) :
    t.Stacked W least' := by
  cases t with
  | scheduled | canceled | decaying => trivial
  | updated block under =>
    obtain ⟨p, hp, hwithin, hlt, hunder⟩ := h
    exact ⟨p, hp, hwithin, Nat.lt_of_le_of_lt hle hlt, hunder⟩

/-- **A stack has no more layers than there are lengths.** -/
theorem depth_le {stopCount : Nat} (hW : ∀ p, W p → p.Fits stopCount) :
    ∀ {t : TripTimes} {least : Nat}, least ≤ stopCount → t.Stacked W least →
      least + t.depth ≤ stopCount
  | scheduled _, _, hle, _ | canceled _, _, hle, _ | decaying _, _, hle, _ => hle
  | updated block under, least, _, h => by
    obtain ⟨p, hp, -, hlt, hunder⟩ := h
    have hlength : p.length ≤ stopCount := by
      have := hW p hp
      unfold Stretch.Fits at this
      unfold Stretch.length
      omega
    have hrest := depth_le hW hlength hunder
    unfold depth
    omega

/-- What is left after the blocks within a stretch are taken out goes under a block of it: the
next one lies within a longer stretch. -/
theorem uncover {stopCount : Nat} (hW : ∀ p, W p → p.Fits stopCount)
    (hnested : ∀ p q, W p → W q → p.Nested q) (hp : W p) :
    ∀ {t : TripTimes} {least : Nat}, t.Stacked W least →
      (t.uncover p.start p.stop).Stacked W p.length
  | scheduled _, _, _ | canceled _, _, _ | decaying _, _, _ => trivial
  | updated block under, least, h => by
    obtain ⟨q, hq, hwithin, -, hunder⟩ := h
    unfold TripTimes.uncover
    split
    · exact uncover hW hnested hp hunder
    · rename_i hout
      refine ⟨q, hq, hwithin, ?_, hunder⟩
      have hfits := hW p hp
      have hor := hnested p q hp hq
      unfold Stretch.Nested Stretch.Within at hor
      unfold Stretch.Within Block.stretch at hwithin
      unfold Stretch.Fits at hfits
      unfold Stretch.length
      simp only [] at hwithin
      omega

theorem base {least : Nat} (h : t.Stacked W least) (b : Baseline) :
    (t.base b).Stacked W least := by
  cases t with
  | scheduled | canceled | decaying => trivial
  | updated block under => exact h

/-- Patches over a stretch of `W` keep the blocks stacked. -/
theorem patch {stopCount least : Nat} (hW : ∀ p, W p → p.Fits stopCount)
    (hnested : ∀ p q, W p → W q → p.Nested q) (hp : W ⟨start, start + u.patches.length⟩)
    (h : t.Stacked W least) {r : Reconciled} (hr : (t.patch b u start recovery).run = .ok (.ok r)) :
    r.times.Stacked W 0 := by
  unfold TripTimes.patch at hr
  obtain ⟨⟨block, under⟩, hcover, hr⟩ := Attempt.lift_bind_eq_ok_iff.mp hr
  obtain ⟨hwithin, rfl⟩ := within_of_cover hcover
  have hunder := (h.base b).uncover hW hnested hp
  obtain ⟨forwards, -, hr⟩ := Attempt.lift_bind_eq_ok_iff.mp hr
  cases forwards with
  | true =>
    simp only [if_true] at hr
    split at hr
    · cases hr
      exact hunder.mono (Nat.zero_le _)
    · cases hr
      refine ⟨_, hp, hwithin, ?_, hunder⟩
      have hfits := hW _ hp
      unfold Stretch.Fits at hfits
      unfold Stretch.length
      omega
  | false =>
    simp only [Bool.false_eq_true, if_false] at hr
    obtain ⟨_, -, hr⟩ := Attempt.lift_bind_eq_ok_iff.mp hr
    obtain ⟨decayed, hdecayed, hr⟩ := Attempt.lift_bind_eq_ok_iff.mp hr
    obtain ⟨steady, -, hr⟩ := Attempt.lift_bind_eq_ok_iff.mp hr
    obtain ⟨_, -, hdecayed⟩ := Checked.bind_eq_ok_iff.mp hdecayed
    cases hdecayed
    cases steady with
    | true =>
      cases hr
      trivial
    | false =>
      obtain ⟨_, -, hr⟩ := Attempt.lift_bind_eq_ok_iff.mp hr
      cases hr

/-- One update keeps the blocks stacked, if the stretch that it patches is one of `W`. -/
theorem deliver {stopCount : Nat} (hW : ∀ p, W p → p.Fits stopCount)
    (hnested : ∀ p q, W p → W q → p.Nested q) (hu : ∀ p, u.stretch? b stops = some p → W p)
    (hbase : t.baseline = b) (h : t.Stacked W 0) {t' : TripTimes}
    (ht' : t.deliver b stops recovery u = .ok t') : t'.baseline = b ∧ t'.Stacked W 0 := by
  obtain ⟨result, hresult, ht'⟩ := Checked.bind_eq_ok_iff.mp ht'
  cases result with
  | error e =>
    cases ht'
    exact ⟨hbase, h⟩
  | ok r =>
    cases ht'
    refine ⟨(reconcile_isIncreasing hbase hresult).1, ?_⟩
    unfold reconcile TripUpdate.isRemoval TripUpdate.isCancellation at hresult
    unfold TripUpdate.stretch? at hu
    cases hs : u.status with
    | removed =>
      rw [hs] at hresult
      cases hresult
      trivial
    | canceled =>
      rw [hs] at hresult
      cases hresult
      trivial
    | added | modified =>
      rw [hs, if_neg (by decide), if_neg (by decide), alignment_eq] at hresult
      rw [hs] at hu
      cases hplace : Sheet.place? b stops u with
      | none =>
        rw [hplace] at hresult
        cases hresult
      | some start =>
        rw [hplace] at hresult hu
        exact h.patch hW hnested (hu _ rfl) hresult

/-- **Updates of nested stretches keep the blocks stacked.** -/
theorem deliverAll {stopCount : Nat} (hW : ∀ p, W p → p.Fits stopCount)
    (hnested : ∀ p q, W p → W q → p.Nested q) :
    ∀ {us : List TripUpdate}, (∀ u ∈ us, ∀ p, u.stretch? b stops = some p → W p) →
      ∀ {t t' : TripTimes}, t.baseline = b → t.Stacked W 0 →
        TripTimes.deliverAll b stops recovery us t = .ok t' → t'.Stacked W 0
  | [], _, t, t', _, h, ht' => by
    cases ht'
    exact h
  | u :: rest, hus, t, t', hbase, h, ht' => by
    obtain ⟨mid, hmid, ht'⟩ := Checked.bind_eq_ok_iff.mp ht'
    obtain ⟨hbase', h'⟩ := deliver hW hnested (hus u List.mem_cons_self) hbase h hmid
    exact deliverAll hW hnested (fun v hv => hus v (List.mem_cons_of_mem _ hv)) hbase' h' ht'

end Stacked

/-- The stretch that an update patches fits into the trip. -/
theorem fits_of_stretch? (h : u.stretch? b stops = some p) : p.Fits b.stopCount := by
  unfold TripUpdate.stretch? at h
  have hplace : ∀ start, Sheet.place? b stops u = some start →
      p = ⟨start, start + u.patches.length⟩ → p.Fits b.stopCount := by
    rintro start hstart rfl
    obtain ⟨haligned, hfit⟩ := Option.filter_eq_some_iff.mp hstart
    have hpatches : u.patches ≠ [] := by
      intro hnil
      unfold TripUpdate.startIn? at haligned
      rw [hnil] at haligned
      cases haligned
    have hpos := List.length_pos_iff.mpr hpatches
    exact ⟨by show start < start + _; omega, of_decide_eq_true hfit⟩
  split at h
  · cases h
  · cases h
  all_goals
    obtain ⟨start, hstart, heq⟩ := Option.map_eq_some_iff.mp h
    exact hplace start hstart heq.symm

end TripTimes

/-! ## Closing a stretch -/

/-- The call of a stop that is closed, because the vehicle passed it or because it is left out. -/
def Call.closed (passed : Bool) : Call :=
  .marked (if passed then ServiceTime.passed else ServiceTime.skipped)

/-- The update that closes every stop of a stretch. -/
def TripUpdate.closing (trip : TripId) (date : ServiceDate) (stops : List StopId) (p : Stretch)
    (passed : Bool) : TripUpdate :=
  .modifying trip 0 date <| (((stops.take p.stop).drop p.start).zipIdx p.start).map fun s =>
    .ofTimes trip s.1 (UInt64.ofNat s.2) (if passed then .passed else .canceled) date none none

namespace TripUpdate

variable {trip : TripId} {date : ServiceDate} {stops : List StopId} {p : Stretch}
  {passed : Bool} {b : Baseline}

theorem length_closing (hp : p.Fits stops.length) :
    (closing trip date stops p passed).patches.length = p.length := by
  unfold Stretch.Fits at hp
  unfold closing modifying ofStatus Stretch.length
  simp only [List.length_map, List.length_zipIdx, List.length_drop, List.length_take]
  omega

theorem callOver_of_mem_closing {patch : StopPatch}
    (h : patch ∈ (closing trip date stops p passed).patches) (c : Call) :
    patch.callOver c = Call.closed passed := by
  obtain ⟨s, -, rfl⟩ := List.mem_map.mp h
  cases passed <;> rfl

theorem matchesAt_closing (hp : p.Fits stops.length) :
    (closing trip date stops p passed).matchesAt stops p.start = true := by
  have hids : (closing trip date stops p passed).patches.map StopPatch.stopId =
      (stops.take p.stop).drop p.start := by
    unfold closing modifying ofStatus
    rw [List.map_map]
    exact List.zipIdx_map_fst ..
  unfold matchesAt
  rw [hids, length_closing hp, List.drop_take]
  exact beq_self_eq_true _

theorem position_of_head_closing (hp : p.Fits stops.length)
    (hwidth : stops.length < 18446744073709551616) {patch : StopPatch}
    (h : (closing trip date stops p passed).patches[0]? = some patch) :
    patch.position.toNat = p.start := by
  unfold Stretch.Fits at hp
  unfold closing modifying ofStatus at h
  simp only [List.getElem?_map, List.getElem?_zipIdx, Nat.add_zero] at h
  obtain ⟨s, hs, rfl⟩ := Option.map_eq_some_iff.mp h
  obtain ⟨id, -, rfl⟩ := Option.map_eq_some_iff.mp hs
  show (UInt64.ofNat p.start).toNat = p.start
  rw [UInt64.toNat_ofNat']
  exact Nat.mod_eq_of_lt (by omega)

/-- It aligns with the stretch. -/
theorem startIn?_closing (hp : p.Fits stops.length) (hwidth : stops.length < 18446744073709551616) :
    (closing trip date stops p passed).startIn? stops = some p.start := by
  have hlength : (closing trip date stops p passed).patches.length = p.length := length_closing hp
  have hmatch : (closing trip date stops p passed).matchesAt stops p.start = true :=
    matchesAt_closing hp
  have hlt := hp.1
  have hle := hp.2
  cases hpatches : (closing trip date stops p passed).patches with
  | nil =>
    rw [hpatches] at hlength
    unfold Stretch.length at hlength
    rw [List.length_nil] at hlength
    omega
  | cons first rest =>
    have hfirst : first.position.toNat = p.start :=
      position_of_head_closing hp hwidth (congrArg (·[0]?) hpatches)
    unfold startIn?
    rw [hpatches]
    simp only [hfirst]
    rw [← hpatches, hlength]
    unfold Stretch.length
    rw [if_neg (by omega), if_pos ⟨by omega, hmatch⟩]

theorem place?_closing (hp : p.Fits stops.length) (hwidth : stops.length < 18446744073709551616)
    (hstops : stops.length = b.stopCount) :
    Sheet.place? b stops (closing trip date stops p passed) = some p.start := by
  unfold Sheet.place?
  rw [startIn?_closing hp hwidth, length_closing hp]
  unfold Stretch.Fits at hp
  unfold Stretch.length
  exact Option.filter_eq_some_iff.mpr ⟨rfl, decide_eq_true (by omega)⟩

theorem stretch?_closing (hp : p.Fits stops.length) (hwidth : stops.length < 18446744073709551616)
    (hstops : stops.length = b.stopCount) :
    (closing trip date stops p passed).stretch? b stops = some p := by
  have hstatus : (closing trip date stops p passed).status = .modified := rfl
  unfold stretch?
  rw [hstatus]
  simp only [place?_closing hp hwidth hstops, Option.map_some, length_closing hp]
  unfold Stretch.Fits at hp
  unfold Stretch.length
  rw [show p.start + (p.stop - p.start) = p.stop by omega]

end TripUpdate

/-- Closed calls have no real times. -/
theorem realTimes_of_closed (passed : Bool) : ∀ {cs : List Call},
    (∀ c ∈ cs, c = Call.closed passed) → realTimes cs = []
  | [], _ => rfl
  | c :: rest, h => by
    rw [realTimes_cons, h c List.mem_cons_self,
      realTimes_of_closed passed fun c' hc' => h c' (List.mem_cons_of_mem _ hc')]
    cases passed <;> rfl

theorem realTimes_append (cs ds : List Call) :
    realTimes (cs ++ ds) = realTimes cs ++ realTimes ds := by
  unfold realTimes
  rw [List.flatMap_append, List.filter_append]

section Closed

variable {passed : Bool} {published cs : List Call} {start stop : Nat} {ps : List StopPatch}

/-- Closing stops cannot make a trip step back. -/
theorem forwards_overwrite_closed
    (hclosed : ∀ patch ∈ ps, ∀ c, patch.callOver c = Call.closed passed) (h : Forwards cs) :
    Forwards (overwrite published cs start ps) := by
  have hzip : realTimes (List.zipWith StopPatch.callOver ps (published.drop start)) = [] := by
    refine realTimes_of_closed passed fun c hc => ?_
    obtain ⟨i, hi⟩ := List.getElem?_of_mem hc
    obtain ⟨patch, c', hpatch, -, rfl⟩ := List.getElem?_zipWith_eq_some.mp hi
    exact hclosed patch (List.mem_of_getElem? hpatch) c'
  have hkept : (cs.take start ++ cs.drop (start + ps.length)).Sublist cs := by
    conv => rhs; rw [← List.take_append_drop start cs]
    rw [← List.drop_drop]
    exact (List.drop_sublist _ _).append_left _
  unfold Forwards overwrite at *
  rw [realTimes_append, realTimes_append, hzip, List.append_nil, ← realTimes_append]
  exact h.sublist ((hkept.flatMap _).filter _)

theorem getElem?_overwrite_closed (hlen : cs.length = published.length)
    (hfit : start + ps.length ≤ published.length)
    (hclosed : ∀ patch ∈ ps, ∀ c, patch.callOver c = Call.closed passed) (hle : start ≤ stop)
    (hlt : stop < start + ps.length) :
    (overwrite published cs start ps)[stop]? = some (.closed passed) := by
  obtain ⟨slot, rfl⟩ := Nat.exists_eq_add_of_le hle
  have hslot : slot < ps.length := by omega
  have hpub : start + slot < published.length := by omega
  rw [getElem?_overwrite_add hlen hfit hslot]
  refine List.getElem?_zipWith_eq_some.mpr ⟨ps[slot], published[start + slot],
    List.getElem?_eq_getElem hslot, ?_, hclosed _ (List.getElem_mem _) _⟩
  rw [List.getElem?_drop, List.getElem?_eq_getElem hpub]

end Closed

namespace TripTimes

/-! ## Two stretches in turn -/

/-- Layers of blocks over a baseline in which no real time steps back. -/
structure Steady (b : Baseline) (t : TripTimes) : Prop where
  baseline_eq : t.baseline = b
  layered : t.IsLayered
  reads : ∃ cs, t.Reads cs ∧ Forwards cs

variable {passed : Bool} {trip : TripId} {date : ServiceDate} {stop : Nat}

/-- A block that closes a stretch of steady times, where no block lies within the stretch that can
be taken out: the times over it are steady, and read as closed at every stop of the stretch. -/
theorem cover_closing (trip : TripId) (date : ServiceDate) (passed : Bool) (ht : Steady b t)
    (hstops : stops.length = b.stopCount) (hwidth : b.stopCount < 18446744073709551616)
    (hp : p.Fits b.stopCount) (hout : t.uncover p.start p.stop = t) :
    ∃ block, t.cover (.closing trip date stops p passed) p.start = .ok (block, t) ∧
      Steady b (updated block t) ∧ (updated block t).isIncreasing = .ok true ∧
      ∀ stop, p.Has stop → (updated block t).ReadsAt stop (.closed passed) := by
  obtain ⟨hbase, hlayered, cs, hreads, hforwards⟩ := ht
  have hcount : t.stopCount = b.stopCount := congrArg Baseline.stopCount hbase
  have hend : p.start + (TripUpdate.closing trip date stops p passed).patches.length = p.stop := by
    rw [TripUpdate.length_closing (hstops ▸ hp)]
    exact Nat.add_sub_of_le (Nat.le_of_lt hp.1)
  have hfit : p.start + (TripUpdate.closing trip date stops p passed).patches.length
      ≤ t.stopCount := by
    rw [hend, hcount]
    exact hp.2
  obtain ⟨block, hcover, -, hlayered', hreads'⟩ :=
    cover_reads hlayered hreads (hcount ▸ hwidth) hfit
  rw [hend, hout] at hcover hlayered' hreads'
  have hclosing : ∀ patch ∈ (TripUpdate.closing trip date stops p passed).patches,
      ∀ c, patch.callOver c = Call.closed passed := fun patch h =>
    TripUpdate.callOver_of_mem_closing h
  have hforwards' : Forwards (overwrite t.baseline.calls cs p.start
      (TripUpdate.closing trip date stops p passed).patches) :=
    forwards_overwrite_closed hclosing hforwards
  have hincreasing := hreads'.isIncreasing_eq
  rw [decide_eq_true hforwards'] at hincreasing
  refine ⟨block, hcover, ⟨hbase, hlayered', _, hreads', hforwards'⟩, hincreasing, ?_⟩
  intro stop hstop
  exact hreads'.readsAt _ _ <| getElem?_overwrite_closed hreads.length_eq hfit hclosing hstop.1
    (by rw [hend]; exact hstop.2)

/-- Closing a stretch adds a layer, if no block lies within the stretch that can be taken out, and
if it can be seen at a stop that this stop was closed. -/
theorem deliver_closing (trip : TripId) (date : ServiceDate) (recovery : Recovery)
    (ht : Steady b t) (hstops : stops.length = b.stopCount)
    (hwidth : b.stopCount < 18446744073709551616) (hp : p.Fits b.stopCount)
    (hout : t.uncover p.start p.stop = t) (hstop : p.Has stop)
    (hnews : ¬ t.ReadsAt stop (.closed passed)) :
    ∃ block, t.deliver b stops recovery (.closing trip date stops p passed) =
        .ok (updated block t) ∧
      Steady b (updated block t) ∧ block.slot? stop ≠ none := by
  obtain ⟨block, hcover, hsteady, hincreasing, hclosed⟩ :=
    cover_closing trip date passed ht hstops hwidth hp hout
  -- The times under the block do not read as closed at the stop: the block has it.
  have hhas : block.slot? stop ≠ none := fun hnone =>
    hnews ((sameAt_updated hnone).readsAt_iff.mp (hclosed stop hstop))
  have hspan : ¬ block.span = 0 := by
    intro hzero
    refine hhas (Block.slot?_eq_none_iff.mpr ?_)
    unfold Block.stop
    omega
  refine ⟨block, ?_, hsteady, hhas⟩
  have hstatus : (TripUpdate.closing trip date stops p passed).status = .modified := rfl
  unfold deliver reconcile TripUpdate.isRemoval TripUpdate.isCancellation
  rw [hstatus, if_neg (by decide), if_neg (by decide), alignment_eq,
    TripUpdate.place?_closing (hstops ▸ hp) (hstops ▸ hwidth) hstops]
  simp only [patch, ht.layered.base_eq, hcover, Attempt.lift_ok_bind, hincreasing, if_true, hspan,
    false_and, if_false]
  rfl

/-- Two stretches that are not nested, closed in turn: each update adds a layer, for its block has
a stop that the stretch after it does not have. -/
theorem exists_alternating (recovery : Recovery) (hstops : stops.length = b.stopCount)
    (hwidth : b.stopCount < 18446744073709551616) (k : Nat) (hp : p.Fits b.stopCount)
    (hq : q.Fits b.stopCount) (hnested : ¬ p.Nested q) (ht : Steady b t)
    (hout : t.uncover p.start p.stop = t) :
    ∃ us : List TripUpdate, us.length = k ∧
      (∀ u ∈ us, u.stretch? b stops = some p ∨ u.stretch? b stops = some q) ∧
      ∃ t', deliverAll b stops recovery us t = .ok t' ∧ t'.depth = t.depth + k := by
  induction k generalizing p q t with
  | zero => exact ⟨[], rfl, fun _ h => absurd h List.not_mem_nil, t, rfl, rfl⟩
  | succ k ih =>
    obtain ⟨stop, hstop, hown⟩ := Stretch.exists_own_stop hp fun h => hnested (.inl h)
    obtain ⟨passed, hnews⟩ : ∃ passed, ¬ t.ReadsAt stop (.closed passed) := by
      by_cases h : t.ReadsAt stop (.closed true)
      · exact ⟨false, fun h' => absurd (h.arrival.symm.trans h'.arrival) (by decide)⟩
      · exact ⟨true, h⟩
    obtain ⟨block, hdeliver, hsteady, hhas⟩ :=
      deliver_closing b.trip.id ⟨2024, 1, 1, by decide⟩ recovery ht hstops hwidth hp hout hstop
        hnews
    have hnext : (updated block t).uncover q.start q.stop = updated block t := by
      unfold uncover
      refine if_neg fun hwithin => ?_
      rw [Ne, Block.slot?_eq_none_iff] at hhas
      unfold Stretch.Has at hown
      omega
    obtain ⟨us, hlength, hus, t', hrun, hdepth⟩ :=
      ih hq hp (fun h => hnested h.symm) hsteady hnext
    refine ⟨.closing b.trip.id ⟨2024, 1, 1, by decide⟩ stops p passed :: us, ?_, ?_, t', ?_, ?_⟩
    · rw [List.length_cons, hlength]
    · intro u hu
      rcases List.mem_cons.mp hu with rfl | hu
      · exact .inl (TripUpdate.stretch?_closing (hstops ▸ hp) (hstops ▸ hwidth) hstops)
      · exact (hus u hu).symm
    · rw [deliverAll, hdeliver, Checked.ok_bind]
      exact hrun
    · rw [hdepth, depth, Nat.add_assoc, Nat.add_comm 1]

/-! ## Both sides -/

/-- **The layers of a trip are bounded where its updates patch nested stretches, and only there.**
If any two stretches that the updates patch are nested, the trip never has more layers than stops.
Any two stretches that are not nested can be patched in turn so that each update adds a layer. -/
theorem depth_bounded_by_nesting (b : Baseline) (stops : List StopId) (recovery : Recovery) :
    (∀ us : List TripUpdate,
      (∀ p q : Stretch, p.PatchedBy b stops us → q.PatchedBy b stops us → p.Nested q) →
      (b.InRange → (∀ u ∈ us, u.InRange) →
        ∃ t, deliverAll b stops recovery us (.scheduled b) = .ok t) ∧
      ∀ t, deliverAll b stops recovery us (.scheduled b) = .ok t → t.depth ≤ b.stopCount) ∧
    (stops.length = b.stopCount → b.stopCount < 18446744073709551616 → Forwards b.calls →
      ∀ p q : Stretch, p.Fits b.stopCount → q.Fits b.stopCount → ¬ p.Nested q →
        ∀ k, ∃ us : List TripUpdate, us.length = k ∧
          (∀ u ∈ us, u.stretch? b stops = some p ∨ u.stretch? b stops = some q) ∧
          ∃ t, deliverAll b stops recovery us (.scheduled b) = .ok t ∧ t.depth = k) := by
  constructor
  · intro us hnested
    refine ⟨fun hrange hus => ?_, fun t ht => ?_⟩
    · obtain ⟨t, ht, -⟩ := deliverAll_matches stops recovery hrange hus (matches_scheduled hrange)
      exact ⟨t, ht⟩
    · have hfits : ∀ p, Stretch.PatchedBy b stops us p → p.Fits b.stopCount :=
        fun p ⟨_, _, hp⟩ => fits_of_stretch? hp
      have hbase : (scheduled b).Stacked (Stretch.PatchedBy b stops us) 0 := trivial
      have hstacked := hbase.deliverAll hfits hnested (fun u hu p hp => ⟨u, hu, hp⟩) rfl ht
      have := hstacked.depth_le hfits (Nat.zero_le _)
      omega
  · intro hstops hwidth hforwards p q hp hq hnested k
    obtain ⟨us, hlength, hus, t, ht, hdepth⟩ := exists_alternating (t := scheduled b) recovery
      hstops hwidth k hp hq hnested ⟨rfl, trivial, _, reads_scheduled b, hforwards⟩ rfl
    exact ⟨us, hlength, hus, t, ht, hdepth.trans (Nat.zero_add k)⟩

/-- The first stop of the late trip and its last one, patched in turn: four layers over three
stops. Patches of the last stop alone make one layer, however many there are. -/
theorem depth_bounded_by_nesting_lateTrip :
    (∃ us : List TripUpdate, us.length = 4 ∧
      ∃ t, deliverAll lateTrip lateStops .standard us (.scheduled lateTrip) = .ok t ∧
        lateTrip.stopCount = 3 ∧ t.depth = 4) ∧
    ∃ t, deliverAll lateTrip lateStops .standard
        [lateNews ⟨"a", "z"⟩ 2 230, lateNews ⟨"a", "z"⟩ 2 240] (.scheduled lateTrip) = .ok t ∧
      t.depth ≤ 3 := by
  obtain ⟨hbounded, hunbounded⟩ := depth_bounded_by_nesting lateTrip lateStops .standard
  constructor
  · obtain ⟨us, hlength, -, t, ht, hdepth⟩ := hunbounded (by decide) (by decide) (by decide)
      ⟨0, 1⟩ ⟨2, 3⟩ (by decide) (by decide) (by decide) 4
    exact ⟨us, hlength, t, ht, rfl, hdepth⟩
  · have hsame : ∀ u ∈ [lateNews ⟨"a", "z"⟩ 2 230, lateNews ⟨"a", "z"⟩ 2 240],
        u.stretch? lateTrip lateStops = some ⟨2, 3⟩ := by decide
    obtain ⟨-, hle⟩ := hbounded [lateNews ⟨"a", "z"⟩ 2 230, lateNews ⟨"a", "z"⟩ 2 240]
      fun p q ⟨u, hu, hp⟩ ⟨v, hv, hq⟩ => by
        cases (hsame u hu).symm.trans hp
        cases (hsame v hv).symm.trans hq
        decide
    exact ⟨_, rfl, hle _ rfl⟩

end TripTimes

end LiveTimetable
