import LiveTimetable.Times.Block

/-!
# Reading trip times stop by stop

What passengers see of trip times is what is read at each stop. `TripTimes.ReadsAt` says that a
stop reads as a given call, `TripTimes.SameAt` that two times cannot be told apart at a stop.

* `Block.Fits`: the lists of a block are as long as its span, and the block lies within the trip.
* `TripTimes.IsLayered`: fitting blocks over a baseline, any number of them. Such times can be
  read at every stop (`IsLayered.readable`).
* `sameAt_updated`, `readsAt_updated_iff`: what is read outside and inside the outer block.
* `sameAt_uncover`: blocks that are taken out from under a stretch of stops are not missed outside
  of it.
-/

namespace LiveTimetable

namespace Block

/-- The block lies within a trip of so many stops, and its lists are as long as its span. -/
structure Fits (b : Block) (stopCount : Nat) : Prop where
  stop_le : b.stop ≤ stopCount
  arrivals : ∀ as, b.arrivals = some as → as.length = b.span
  access : ∀ as, b.access = some as → as.length = b.span

variable {b : Block} {stop slot : Nat}

theorem slot?_eq_some_iff : b.slot? stop = some slot ↔ stop = b.offset + slot ∧ slot < b.span := by
  unfold slot? Block.stop
  split
  · rw [Option.some.injEq]
    omega
  · simp only [reduceCtorEq, false_iff]
    omega

theorem slot?_eq_none_iff : b.slot? stop = none ↔ stop < b.offset ∨ b.stop ≤ stop := by
  unfold slot?
  split
  · simp only [reduceCtorEq, false_iff]
    omega
  · simp only [true_iff]
    omega

theorem arrivals_length {n : Nat} (h : b.Fits n) :
    (b.arrivals.getD b.departures).length = b.span := by
  cases ha : b.arrivals with
  | none => rfl
  | some as => exact h.arrivals as ha

end Block

theorem Checked.nth_of_lt {α : Type} {xs : List α} {i : Nat} (h : i < xs.length) :
    Checked.nth xs i = .ok xs[i] :=
  Checked.nth_eq_ok_iff.mpr (List.getElem?_eq_getElem h)

namespace Baseline

variable {p : Baseline} {stop : Nat} {c : Call}

theorem call_of_getElem? (h : p.calls[stop]? = some c) : p.call stop = .ok c :=
  Checked.nth_eq_ok_iff.mpr h

theorem arrival_of_getElem? (h : p.calls[stop]? = some c) : p.arrival stop = .ok c.arrival := by
  rw [arrival, call_of_getElem? h]
  rfl

theorem departure_of_getElem? (h : p.calls[stop]? = some c) :
    p.departure stop = .ok c.departure := by
  rw [departure, call_of_getElem? h]
  rfl

end Baseline

namespace TripTimes

/-- A stop reads as the given call. -/
structure ReadsAt (t : TripTimes) (stop : Nat) (c : Call) : Prop where
  arrival : t.arrival stop = .ok c.arrival
  departure : t.departure stop = .ok c.departure
  access : t.access stop = .ok c.access

/-- Two times read the same at a stop. -/
structure SameAt (s t : TripTimes) (stop : Nat) : Prop where
  arrival : s.arrival stop = t.arrival stop
  departure : s.departure stop = t.departure stop
  access : s.access stop = t.access stop

/-- The stops of the trip read as the given calls. -/
structure Reads (t : TripTimes) (cs : List Call) : Prop where
  length_eq : cs.length = t.stopCount
  readsAt : ∀ stop c, cs[stop]? = some c → t.ReadsAt stop c

/-- Every stop of the trip can be read. -/
def Readable (t : TripTimes) : Prop := ∀ stop < t.stopCount, ∃ c, t.ReadsAt stop c

variable {s t under : TripTimes} {b : Block} {stop slot : Nat} {c c' : Call}

theorem ReadsAt.pickup (h : t.ReadsAt stop c) : t.pickup stop = .ok c.access.pickup := by
  unfold TripTimes.pickup
  rw [h.access]
  rfl

theorem ReadsAt.dropoff (h : t.ReadsAt stop c) : t.dropoff stop = .ok c.access.dropoff := by
  unfold TripTimes.dropoff
  rw [h.access]
  rfl

theorem SameAt.refl (t : TripTimes) (stop : Nat) : t.SameAt t stop := ⟨rfl, rfl, rfl⟩

theorem SameAt.symm (h : s.SameAt t stop) : t.SameAt s stop :=
  ⟨h.arrival.symm, h.departure.symm, h.access.symm⟩

theorem SameAt.trans {r : TripTimes} (h : r.SameAt s stop) (h' : s.SameAt t stop) :
    r.SameAt t stop :=
  ⟨h.arrival.trans h'.arrival, h.departure.trans h'.departure, h.access.trans h'.access⟩

theorem SameAt.readsAt_iff (h : s.SameAt t stop) : s.ReadsAt stop c ↔ t.ReadsAt stop c := by
  constructor
  · intro hr
    exact ⟨h.arrival ▸ hr.arrival, h.departure ▸ hr.departure, h.access ▸ hr.access⟩
  · intro hr
    exact ⟨h.arrival ▸ hr.arrival, h.departure ▸ hr.departure, h.access ▸ hr.access⟩

theorem SameAt.pickup (h : s.SameAt t stop) : s.pickup stop = t.pickup stop := by
  unfold TripTimes.pickup
  rw [h.access]

theorem SameAt.dropoff (h : s.SameAt t stop) : s.dropoff stop = t.dropoff stop := by
  unfold TripTimes.dropoff
  rw [h.access]

/-! ## One layer -/

theorem readsAt_scheduled {p : Baseline} (h : p.calls[stop]? = some c) :
    (scheduled p).ReadsAt stop c := by
  refine ⟨Baseline.arrival_of_getElem? h, Baseline.departure_of_getElem? h, ?_⟩
  show p.access stop = _
  rw [Baseline.access, Baseline.call_of_getElem? h]
  rfl

theorem reads_scheduled (p : Baseline) : (scheduled p).Reads p.calls :=
  ⟨rfl, fun _ _ => readsAt_scheduled⟩

theorem Reads.readable {cs : List Call} (h : t.Reads cs) : t.Readable := fun stop hstop => by
  have hlt : stop < cs.length := h.length_eq ▸ hstop
  exact ⟨cs[stop], h.readsAt stop _ (List.getElem?_eq_getElem hlt)⟩

/-- Times that read the same everywhere read as the same calls. -/
theorem Reads.congr {cs : List Call} (h : t.Reads cs) (hcount : s.stopCount = t.stopCount)
    (hsame : ∀ stop, s.SameAt t stop) : s.Reads cs :=
  ⟨h.length_eq.trans hcount.symm, fun stop c hc =>
    (hsame stop).readsAt_iff.mpr (h.readsAt stop c hc)⟩

theorem readsAt_canceled (p : Baseline) (stop : Nat) :
    (canceled p).ReadsAt stop ⟨ServiceTime.skipped, ServiceTime.skipped, .closed⟩ :=
  ⟨rfl, rfl, rfl⟩

/-- Outside of a block the times read as what lies under it. -/
theorem sameAt_updated (h : b.slot? stop = none) : (updated b under).SameAt under stop := by
  constructor
  · rw [TripTimes.arrival, h]
  · rw [TripTimes.departure, h]
  · rw [TripTimes.access, h]

/-! Inside of a block the times read as the block says. -/

theorem arrival_updated (h : b.slot? stop = some slot) :
    (updated b under).arrival stop = b.arrivalAt slot := by
  rw [TripTimes.arrival, h]

theorem departure_updated (h : b.slot? stop = some slot) :
    (updated b under).departure stop = b.departureAt slot := by
  rw [TripTimes.departure, h]

theorem access_updated (h : b.slot? stop = some slot) :
    (updated b under).access stop = b.accessAt under slot := by
  rw [TripTimes.access, h, Block.accessAt, (Block.slot?_eq_some_iff.mp h).1]
  cases b.access <;> rfl

theorem readsAt_updated_iff (h : b.slot? stop = some slot) :
    (updated b under).ReadsAt stop c ↔
      b.arrivalAt slot = .ok c.arrival ∧ b.departureAt slot = .ok c.departure ∧
        b.accessAt under slot = .ok c.access := by
  have ha : (updated b under).arrival stop = b.arrivalAt slot := arrival_updated h
  have hd : (updated b under).departure stop = b.departureAt slot := departure_updated h
  rw [← ha, ← hd, ← access_updated h]
  constructor
  · exact fun hr => ⟨hr.arrival, hr.departure, hr.access⟩
  · exact fun hr => ⟨hr.1, hr.2.1, hr.2.2⟩

/-! ## All layers -/

/-- Fitting blocks over a baseline. -/
def IsLayered : TripTimes → Prop
  | scheduled _ => True
  | updated b under => b.Fits under.stopCount ∧ under.IsLayered
  | _ => False

/-- A fitting block over readable times can be read. -/
theorem readable_updated (hb : b.Fits under.stopCount) (hu : under.Readable) :
    (updated b under).Readable := by
  intro stop hstop
  obtain ⟨c, hc⟩ := hu stop hstop
  cases hslot : b.slot? stop with
  | none => exact ⟨c, (sameAt_updated hslot).readsAt_iff.mpr hc⟩
  | some slot =>
    obtain ⟨hst, hlt⟩ := Block.slot?_eq_some_iff.mp hslot
    have ha : slot < (b.arrivals.getD b.departures).length := by
      rw [Block.arrivals_length hb]
      exact hlt
    have haccess : ∃ a, b.accessAt under slot = .ok a := by
      unfold Block.accessAt
      cases has : b.access with
      | none => exact ⟨c.access, hst ▸ hc.access⟩
      | some as =>
        have : slot < as.length := by
          rw [hb.access as has]
          exact hlt
        exact ⟨_, Checked.nth_of_lt this⟩
    obtain ⟨a, haccess⟩ := haccess
    exact ⟨⟨_, _, a⟩, (readsAt_updated_iff hslot).mpr
      ⟨Checked.nth_of_lt ha, Checked.nth_of_lt hlt, haccess⟩⟩

theorem IsLayered.readable : ∀ {t : TripTimes}, t.IsLayered → t.Readable
  | scheduled p, _ => fun stop hstop =>
    ⟨p.calls[stop], readsAt_scheduled (List.getElem?_eq_getElem hstop)⟩
  | updated _ _, h => readable_updated h.1 h.2.readable

/-! ## Taking out what is covered -/

theorem baseline_uncover (start stop : Nat) (t : TripTimes) :
    (t.uncover start stop).baseline = t.baseline := by
  induction t with
  | scheduled | canceled | decaying => rfl
  | updated b under ih =>
    rw [uncover]
    split
    · exact ih
    · rfl

theorem stopCount_uncover (start stop : Nat) (t : TripTimes) :
    (t.uncover start stop).stopCount = t.stopCount := by
  unfold TripTimes.stopCount
  rw [baseline_uncover]

theorem IsLayered.uncover (start stop : Nat) (h : t.IsLayered) :
    (t.uncover start stop).IsLayered := by
  induction t with
  | scheduled | canceled | decaying => exact h
  | updated b under ih =>
    rw [TripTimes.uncover]
    split
    · exact ih h.2
    · exact h

/-- Outside of a stretch of stops nothing changes when the blocks within it are taken out. -/
theorem sameAt_uncover {start last stop : Nat} (h : stop < start ∨ last ≤ stop) (t : TripTimes) :
    (t.uncover start last).SameAt t stop := by
  induction t with
  | scheduled | canceled | decaying => exact SameAt.refl _ _
  | updated b under ih =>
    rw [uncover]
    split
    · have hout : b.slot? stop = none := Block.slot?_eq_none_iff.mpr (by omega)
      exact ih.trans (sameAt_updated hout).symm
    · exact SameAt.refl _ _

end TripTimes

end LiveTimetable
