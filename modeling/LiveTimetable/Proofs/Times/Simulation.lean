import LiveTimetable.Proofs.Times.Cover
import LiveTimetable.Proofs.Times.Fallback

/-!
# Wrapped times simulate the flat sheet

Updates are delivered to a trip one after another: each result is the starting point of the next
update, and a refused update changes nothing.

* `TripTimes.Matches`: the times read as a sheet does, and so does what patches go over.
* `TripTimes.deliver_matches`: one update keeps times and sheet matched.
* `TripTimes.deliverAll_reads`: after any list of updates the times of a trip read as its sheet.
-/

namespace LiveTimetable

/-- The reported times lie within 2^29 seconds of the start of the day. -/
structure TripUpdate.InRange (u : TripUpdate) : Prop where
  arrival : ∀ p ∈ u.patches, ∀ t, p.arrival = some t → t.InRange
  departure : ∀ p ∈ u.patches, ∀ t, p.departure = some t → t.InRange

namespace TripTimes

/-- The times after an update of a trip with the given published times and stops. -/
def deliver (published : Baseline) (stops : List StopId) (recovery : Recovery) (t : TripTimes)
    (u : TripUpdate) : Checked TripTimes := do
  match ← (t.reconcile published stops u recovery).run with
  | .ok r => return r.times
  | .error _ => return t

/-- The times after a list of updates. -/
def deliverAll (published : Baseline) (stops : List StopId) (recovery : Recovery) :
    List TripUpdate → TripTimes → Checked TripTimes
  | [], t => .ok t
  | u :: rest, t => do
    deliverAll published stops recovery rest (← t.deliver published stops recovery u)

/-- Layers of blocks over the baseline that read as the sheet. -/
structure Grounded (b : Baseline) (s : Sheet) (t : TripTimes) : Prop where
  baseline_eq : t.baseline = b
  layered : t.IsLayered
  reads : t.Reads s.calls
  wheelchair_eq : t.isWheelchair = s.wheelchair
  sound : ∀ c ∈ s.calls, c.Sound

/-- The times read as the sheet, and the base of the times as the ground of the sheet. -/
structure Matches (b : Baseline) (s : Sheet) (t : TripTimes) : Prop where
  baseline_eq : t.baseline = b
  reads : t.Reads s.calls
  wheelchair_eq : t.isWheelchair = s.wheelchair
  base : Grounded b (s.ground b) (t.base b)

variable {b : Baseline} {s : Sheet} {t : TripTimes} {u : TripUpdate} {start : Nat}
  {recovery : Recovery} {stops : List StopId}

theorem IsLayered.base_eq (h : t.IsLayered) (b : Baseline) : t.base b = t := by
  cases t with
  | scheduled | updated => rfl
  | canceled | decaying => exact h.elim

/-- Layers of blocks are what patches go over. -/
theorem Grounded.matches (h : Grounded b s t) (hs : s.isGround = true) : Matches b s t := by
  refine ⟨h.baseline_eq, h.reads, h.wheelchair_eq, ?_⟩
  unfold Sheet.ground
  rw [h.layered.base_eq, if_pos hs]
  exact h

theorem grounded_scheduled (hrange : b.InRange) : Grounded b (.ofBaseline b) (scheduled b) :=
  ⟨rfl, trivial, reads_scheduled b, rfl, fun c hc => (hrange.calls c hc).sound⟩

theorem matches_scheduled (hrange : b.InRange) : Matches b (.ofBaseline b) (scheduled b) :=
  (grounded_scheduled hrange).matches rfl

theorem matches_canceled (hrange : b.InRange) : Matches b (.canceled b) (canceled b) := by
  refine ⟨rfl, ⟨List.length_map _, fun stop c hc => ?_⟩, rfl, grounded_scheduled hrange⟩
  unfold Sheet.canceled at hc
  rw [List.getElem?_map] at hc
  obtain ⟨_, -, rfl⟩ := Option.map_eq_some_iff.mp hc
  exact readsAt_canceled b stop

/-! ## Patched sheets -/

/-- What a patch makes of a published call is sound if the reported times are in range. -/
theorem sound_callOver {p : StopPatch} {c : Call} (hc : c.InRange)
    (harr : ∀ t, p.arrival = some t → t.InRange) (hdep : ∀ t, p.departure = some t → t.InRange) :
    (p.callOver c).Sound := by
  unfold StopPatch.callOver
  cases hs : p.status with
  | passed | canceled => exact nofun
  | unknown | planned => exact hc.sound
  | arrived | predicted =>
    unfold StopPatch.reported?
    cases ha : p.arrival with
    | none =>
      cases hd : p.departure with
      | none => exact hc.sound
      | some d => exact fun _ => ⟨hdep d hd, hdep d hd⟩
    | some a =>
      cases hd : p.departure with
      | none => exact fun _ => ⟨harr a ha, harr a ha⟩
      | some d => exact fun _ => ⟨harr a ha, hdep d hd⟩

theorem sound_overwrite {cs : List Call} (hrange : b.InRange) (hu : u.InRange)
    (hcs : ∀ c ∈ cs, c.Sound) : ∀ c ∈ overwrite b.calls cs start u.patches, c.Sound := by
  intro c hc
  unfold overwrite at hc
  rw [List.mem_append, List.mem_append] at hc
  rcases hc with (htake | hzip) | hdrop
  · exact hcs c (List.mem_of_mem_take htake)
  · obtain ⟨i, hi⟩ := List.getElem?_of_mem hzip
    obtain ⟨p, q, hp, hq, rfl⟩ := List.getElem?_zipWith_eq_some.mp hi
    have hpmem := List.mem_of_getElem? hp
    exact sound_callOver (hrange.calls q (List.mem_of_mem_drop (List.mem_of_getElem? hq)))
      (hu.arrival p hpmem) (hu.departure p hpmem)
  · exact hcs c (List.mem_of_mem_drop hdrop)

/-- The block that the patches lead to lies over the base and reads as the patched sheet. -/
theorem cover_grounded (hrange : b.InRange) (hu : u.InRange) (hm : Matches b s t)
    (hfit : start + u.patches.length ≤ b.stopCount) :
    ∃ block under, (t.base b).cover u start = .ok (block, under) ∧
      under.baseline = b ∧ under.IsLayered ∧
      Grounded b (s.patched b u start) (updated block under) := by
  have hg := hm.base
  have hcount : (t.base b).stopCount = b.stopCount := congrArg Baseline.stopCount hg.baseline_eq
  obtain ⟨block, hcover, hwheel, hlayered, hreads⟩ := cover_reads hg.layered hg.reads
    (hcount ▸ hrange.stopCount_lt) (hcount ▸ hfit)
  have hunder := (baseline_uncover start (start + u.patches.length) (t.base b)).trans hg.baseline_eq
  rw [hg.baseline_eq] at hreads
  refine ⟨block, _, hcover, hunder, hlayered.2, hunder, hlayered, hreads, ?_, ?_⟩
  · exact hwheel.trans (congrArg _ hg.wheelchair_eq)
  · exact sound_overwrite hrange hu hg.sound

/-- What lies under an empty block reads as the block. -/
theorem Grounded.of_updated {block : Block} {under : TripTimes}
    (h : Grounded b s (updated block under)) (hunder : under.IsLayered)
    (hspan : block.span = 0) (hwheel : block.wheelchair = under.isWheelchair) :
    Grounded b s under := by
  refine ⟨h.baseline_eq, hunder, h.reads.congr rfl fun stop => ?_,
    hwheel.symm.trans h.wheelchair_eq, h.sound⟩
  refine (sameAt_updated (Block.slot?_eq_none_iff.mpr ?_)).symm
  unfold Block.stop
  omega

/-! ## One update -/

/-- Patches that run forwards are taken. -/
theorem patch_of_forwards (recovery : Recovery) (hrange : b.InRange) (hu : u.InRange)
    (hm : Matches b s t) (hfit : start + u.patches.length ≤ b.stopCount)
    (hfwd : Forwards (s.patched b u start).calls) :
    ∃ r, (t.patch b u start recovery).run = .ok (.ok r) ∧
      Matches b (s.patched b u start) r.times := by
  obtain ⟨block, under, hcover, hbase, hlayered, hg⟩ := cover_grounded hrange hu hm hfit
  have hinc := hg.reads.isIncreasing_eq
  rw [decide_eq_true hfwd] at hinc
  rw [patch, hcover, Attempt.lift_ok_bind]
  simp only [hinc, Attempt.lift_ok_bind, if_true]
  split
  · rename_i h
    exact ⟨_, rfl, (hg.of_updated hlayered h.1 h.2).matches rfl⟩
  · exact ⟨_, rfl, hg.matches rfl⟩

/-- Patches that step back are given up, for the fading delay that is seen in them. -/
theorem patch_of_backwards (recovery : Recovery) (hrange : b.InRange) (hu : u.InRange)
    (hm : Matches b s t) (hfit : start + u.patches.length ≤ b.stopCount)
    (hback : ¬ Forwards (s.patched b u start).calls) :
    ∃ d : Decay, Matches b (s.decayed b u start recovery) (decaying d) ∧
      (t.patch b u start recovery).run =
        if Forwards (s.decayed b u start recovery).calls then .ok (.ok ⟨decaying d, true⟩)
        else .ok (.error (.nonIncreasing u.tripId)) := by
  obtain ⟨block, under, hcover, hbase, -, hg⟩ := cover_grounded hrange hu hm hfit
  have hinc := hg.reads.isIncreasing_eq
  rw [decide_eq_false hback] at hinc
  have hcheck := hg.reads.readable.check_eq
  have hpub : (updated block under).baseline = b := hbase
  have hfit' : start + u.patches.length ≤ (updated block under).stopCount := by
    rw [TripTimes.stopCount, hpub]
    exact hfit
  obtain ⟨d, hfall, hdbase, hdwheel, hdreads⟩ := fallback_reads
    (u := u) (hpub ▸ hrange) hg.reads hg.sound recovery hfit'
  rw [hpub] at hfall hdbase hdwheel hdreads
  have hd : Matches b (s.decayed b u start recovery) (decaying d) :=
    ⟨hdbase, hdreads, hdwheel, hdbase ▸ grounded_scheduled (hdbase ▸ hrange)⟩
  have hdinc := hd.reads.isIncreasing_eq
  refine ⟨d, hd, ?_⟩
  rw [patch, hcover, Attempt.lift_ok_bind]
  simp only [hinc, hcheck, hfall, hdinc, Attempt.lift_ok_bind, Bool.false_eq_true, if_false]
  by_cases hfade : Forwards (s.decayed b u start recovery).calls
  · simp only [hfade, decide_true, if_true, Attempt.run_pure]
  · simp only [hfade, decide_false, Bool.false_eq_true, if_false,
      hd.reads.readable.check_eq, Attempt.lift_ok_bind, Attempt.run_throw]

/-- Updates align with the trip where they have a place on the sheet. -/
theorem alignment_eq (b : Baseline) (stops : List StopId) (u : TripUpdate) :
    alignment b stops u = match Sheet.place? b stops u with
      | some start => .ok start
      | none => .error (.matchFailed u.tripId) := by
  unfold alignment Sheet.place?
  cases u.startIn? stops with
  | none => rfl
  | some start =>
    by_cases hfit : start + u.patches.length ≤ b.stopCount
    · simp only [Option.filter, hfit, decide_true, if_true]
    · simp only [Option.filter, hfit, decide_false, Bool.false_eq_true, if_false]

/-- **One update keeps times and sheet matched**, and never ends in a fault. -/
theorem deliver_matches (stops : List StopId) (recovery : Recovery) (hrange : b.InRange)
    (hu : u.InRange) (hm : Matches b s t) :
    ∃ t', t.deliver b stops recovery u = .ok t' ∧ Matches b (s.next b stops recovery u) t' := by
  unfold deliver reconcile TripUpdate.isRemoval TripUpdate.isCancellation Sheet.next
  cases hs : u.status with
  | removed => exact ⟨_, rfl, matches_scheduled hrange⟩
  | canceled => exact ⟨_, rfl, matches_canceled hrange⟩
  | added | modified =>
    rw [if_neg (by decide), if_neg (by decide), alignment_eq]
    cases hp : Sheet.place? b stops u with
    | none => exact ⟨t, rfl, hm⟩
    | some start =>
      have hfit : start + u.patches.length ≤ b.stopCount :=
        of_decide_eq_true (Option.filter_eq_some_iff.mp hp).2
      simp only []
      split
      · rename_i hfwd
        obtain ⟨r, hr, hmatch⟩ := patch_of_forwards recovery hrange hu hm hfit hfwd
        exact ⟨r.times, by rw [hr]; rfl, hmatch⟩
      · rename_i hback
        obtain ⟨d, hd, hr⟩ := patch_of_backwards recovery hrange hu hm hfit hback
        split
        · rename_i hfade
          rw [if_pos hfade] at hr
          exact ⟨decaying d, by rw [hr]; rfl, hd⟩
        · rename_i hfade
          rw [if_neg hfade] at hr
          exact ⟨t, by rw [hr]; rfl, hm⟩

/-! ## Whole runs -/

theorem deliverAll_matches (stops : List StopId) (recovery : Recovery) (hrange : b.InRange) :
    ∀ {us : List TripUpdate}, (∀ u ∈ us, u.InRange) → ∀ {s : Sheet} {t : TripTimes},
      Matches b s t → ∃ t', deliverAll b stops recovery us t = .ok t' ∧
        Matches b (us.foldl (Sheet.next b stops recovery) s) t'
  | [], _, _, t, hm => ⟨t, rfl, hm⟩
  | u :: rest, hus, s, t, hm => by
    obtain ⟨t', ht', hm'⟩ := deliver_matches stops recovery hrange (hus u List.mem_cons_self) hm
    rw [deliverAll, ht', Checked.ok_bind]
    exact deliverAll_matches stops recovery hrange
      (fun v hv => hus v (List.mem_cons_of_mem _ hv)) hm'

/-- **After any list of updates the times of a trip read as its sheet**: the times exist, the sheet
has a call for each stop, and every stop reads as the sheet says. -/
theorem deliverAll_reads (b : Baseline) (stops : List StopId) (recovery : Recovery)
    (us : List TripUpdate) (hrange : b.InRange) (hus : ∀ u ∈ us, u.InRange) :
    ∃ t, deliverAll b stops recovery us (.scheduled b) = .ok t ∧
      t.isWheelchair = (Sheet.afterAll b stops recovery us).wheelchair ∧
      (Sheet.afterAll b stops recovery us).calls.length = b.stopCount ∧
      ∀ stop c, (Sheet.afterAll b stops recovery us).calls[stop]? = some c →
        t.arrival stop = .ok c.arrival ∧ t.departure stop = .ok c.departure ∧
        t.pickup stop = .ok c.access.pickup ∧ t.dropoff stop = .ok c.access.dropoff := by
  obtain ⟨t, ht, hm⟩ := deliverAll_matches stops recovery hrange hus (matches_scheduled hrange)
  refine ⟨t, ht, hm.wheelchair_eq, ?_, fun stop c hc => ?_⟩
  · rw [Sheet.afterAll, hm.reads.length_eq]
    exact congrArg Baseline.stopCount hm.baseline_eq
  · have hread := hm.reads.readsAt stop c hc
    exact ⟨hread.arrival, hread.departure, hread.pickup, hread.dropoff⟩

/-! ## A late trip -/

section LateTrip

/-- A trip over three stops, a minute and forty seconds from each to the next. -/
def lateTrip : Baseline where
  serial := 0
  trip := ⟨⟨"a", "t"⟩, ⟨"a", "r"⟩, ⟨"a", "s"⟩, false⟩
  calls := [0, 100, 200].map fun t => ⟨t, t, ⟨.regular, .regular⟩⟩

/-- The stops of the late trip. -/
def lateStops : List StopId := [⟨"a", "x"⟩, ⟨"a", "y"⟩, ⟨"a", "z"⟩]

/-- A prediction for the late trip. -/
def lateNews (stop : StopId) (position : UInt64) (t : ServiceTime) : TripUpdate :=
  .modifying ⟨"a", "t"⟩ 0 ⟨2024, 1, 1, by decide⟩
    [.ofTimes ⟨"a", "t"⟩ stop position .predicted ⟨2024, 1, 1, by decide⟩ (some t) none]

theorem inRange_lateNews {stop : StopId} {position : UInt64} {t : ServiceTime} (h : t.InRange) :
    (lateNews stop position t).InRange := by
  constructor
  · intro p hp a ha
    rw [List.mem_singleton.mp hp] at ha
    cases ha
    exact h
  · intro p hp d hd
    rw [List.mem_singleton.mp hp] at hd
    cases hd

/-- The last stop is put off to 230. Then the stop before it is put off to 250: read on its own
that steps back, and the delay of 150 seconds fades to 100 until the last stop. -/
theorem deliverAll_reads_lateTrip :
    let us := [lateNews ⟨"a", "z"⟩ 2 230, lateNews ⟨"a", "y"⟩ 1 250]
    (lateTrip.InRange ∧ ∀ u ∈ us, u.InRange) ∧
      ∃ t, deliverAll lateTrip lateStops .standard us (.scheduled lateTrip) = .ok t ∧
        t.departure 1 = .ok 250 ∧ t.departure 2 = .ok 300 := by
  intro us
  have hrange : lateTrip.InRange := ⟨by decide, fun c hc => by
    have : ∀ c ∈ lateTrip.calls, c.arrival.InRange ∧ c.departure.InRange := by decide
    exact ⟨(this c hc).1, (this c hc).2⟩⟩
  have hnews : ∀ u ∈ us, u.InRange := by
    intro u hu
    rcases List.mem_cons.mp hu with rfl | hu
    · exact inRange_lateNews (by decide)
    · rw [List.mem_singleton.mp hu]
      exact inRange_lateNews (by decide)
  obtain ⟨t, ht, -, -, hreads⟩ := deliverAll_reads lateTrip lateStops .standard us hrange hnews
  refine ⟨⟨hrange, hnews⟩, t, ht, ?_, ?_⟩
  · exact (hreads 1 ⟨250, 250, ⟨.regular, .regular⟩⟩ (by decide)).2.1
  · exact (hreads 2 ⟨300, 300, ⟨.regular, .regular⟩⟩ (by decide)).2.1

end LateTrip

end TripTimes

end LiveTimetable
