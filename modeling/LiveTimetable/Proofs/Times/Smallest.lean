import LiveTimetable.Proofs.Times.Compaction
import LiveTimetable.Proofs.Times.Simulation

/-!
# A compacted block is the smallest

A block may be given in many ways without a difference to anyone who reads the times. Compaction
picks the way that stores the least.

* `Block.IsSmallest`: whatever is stored differs somewhere from what would be read without it.
  A block on which no step of the compaction finds anything to do is the smallest
  (`Settled.isSmallest`).
* `Shrinks.loses_iff`: a compacted block can be told from what it was made of by what it lost.
* `compaction_exact`: compacting the outer block of any times cannot be noticed, says whether
  something was dropped, has nothing to do the second time, and leaves the smallest block.
-/

namespace LiveTimetable

namespace Block

open TripTimes

/-- All that the block stores over `under` is needed: its last stop reads differently without the
block, some arrival is not the departure, and some access not that of `under`. -/
structure IsSmallest (b : Block) (under : TripTimes) : Prop where
  last : b.span = 0 ∨ (updated b under).DiffersAt under (b.stop - 1)
  arrivals : b.arrivals ≠ none → ∃ stop, b.Has stop ∧
    ((updated b under).arrival stop).Differ ((updated b under).departure stop)
  access : b.access ≠ none → ∃ stop, b.Has stop ∧
    ((updated b under).access stop).Differ (under.access stop)

variable {b b' : Block} {under : TripTimes}

/-! ## Dropping something -/

/-- A list of which a prefix of the same length is left is left as it is. -/
theorem eq_of_part {α : Type} {n : Nat} {xs xs' : Option (List α)}
    (hpart : ∀ as', xs' = some as' → ∃ as, xs = some as ∧ as' <+: as)
    (hkept : xs' = none → xs = none) (hlen : ∀ as, xs = some as → as.length = n)
    (hlen' : ∀ as, xs' = some as → as.length = n) : xs' = xs := by
  cases xs' with
  | none => exact (hkept rfl).symm
  | some as' =>
    obtain ⟨as, rfl, hpre⟩ := hpart as' rfl
    rw [hpre.eq_of_length ((hlen' as' rfl).trans (hlen as rfl).symm)]

/-- What is left of a block is the block itself if nothing is missing. -/
theorem Shrinks.eq_of_kept (h : b'.Shrinks b under) (hfits : b.Fits under.stopCount)
    (hspan : b'.span = b.span) (harrivals : b'.arrivals = none → b.arrivals = none)
    (haccess : b'.access = none → b.access = none) : b' = b := by
  have hdepartures : b'.departures = b.departures := h.departures.eq_of_length hspan
  have harrivals' : b'.arrivals = b.arrivals :=
    eq_of_part h.arrivals harrivals hfits.arrivals (hspan ▸ h.fits.arrivals)
  have haccess' : b'.access = b.access :=
    eq_of_part h.access haccess hfits.access (hspan ▸ h.fits.access)
  cases b
  cases b'
  simp only [Block.mk.injEq]
  exact ⟨h.offset_eq, harrivals', hdepartures, haccess', h.wheelchair_eq⟩

/-- What is left of a block is another block only if something was dropped. -/
theorem Shrinks.loses_iff (h : b'.Shrinks b under) (hfits : b.Fits under.stopCount) :
    b.Loses b' ↔ b' ≠ b := by
  constructor
  · rintro hloses rfl
    exact Loses.irrefl _ hloses
  · intro hne
    refine Decidable.byContradiction fun hkeeps => hne (h.eq_of_kept hfits ?_ ?_ ?_)
    · exact Nat.le_antisymm h.span_le (Nat.le_of_not_lt fun hlt => hkeeps (Or.inl hlt))
    · exact fun hnone => Decidable.byContradiction fun hsome =>
        hkeeps (Or.inr (Or.inl ⟨hsome, hnone⟩))
    · exact fun hnone => Decidable.byContradiction fun hsome =>
        hkeeps (Or.inr (Or.inr ⟨hsome, hnone⟩))

/-! ## Nothing left to drop -/

/-- Lists of the same length that differ do so at a position. -/
theorem exists_getElem?_ne {α : Type} [DecidableEq α] : ∀ {xs ys : List α},
    xs.length = ys.length → xs ≠ ys →
      ∃ i < ys.length, ∃ x y, xs[i]? = some x ∧ ys[i]? = some y ∧ x ≠ y
  | [], [], _, hne => absurd rfl hne
  | x :: xs, y :: ys, hlen, hne => by
    by_cases hxy : x = y
    · subst hxy
      obtain ⟨i, hi, x', y', hx, hy, hne'⟩ := exists_getElem?_ne (Nat.succ.inj hlen)
        fun heq => hne (heq ▸ rfl)
      exact ⟨i + 1, Nat.succ_lt_succ hi, x', y', hx, hy, hne'⟩
    · exact ⟨0, Nat.zero_lt_succ _, x, y, rfl, rfl, hxy⟩

/-- A settled block is the smallest that reads as it does. -/
theorem Settled.isSmallest (h : b.Settled under) (hfits : b.Fits under.stopCount) :
    b.IsSmallest under := by
  constructor
  · cases hspan : b.span with
    | zero => exact Or.inl rfl
    | succ slot =>
      have hends := agreesAt_ends under hfits (show slot < b.span by omega)
      rw [h.last slot hspan] at hends
      obtain ⟨hfalse, -⟩ | ⟨-, hdiffers⟩ := hends
      · cases hfalse
      · have hstop : b.stop - 1 = b.offset + slot := by
          unfold Block.stop
          omega
        exact Or.inr (hstop ▸ hdiffers)
  · intro hne
    obtain ⟨as, has⟩ := Option.ne_none_iff_exists'.mp hne
    obtain ⟨slot, hslot, a, d, ha, hd, had⟩ := exists_getElem?_ne (hfits.arrivals as has)
      fun heq => h.arrivals (heq ▸ has)
    refine ⟨b.offset + slot, has_iff.mpr ⟨slot, rfl, hslot⟩, a, d, ?_, ?_, had⟩
    · rw [arrival_updated (slot?_of_lt hslot), arrivalAt, has]
      exact Checked.nth_eq_ok_iff.mpr ha
    · rw [departure_updated (slot?_of_lt hslot)]
      exact Checked.nth_eq_ok_iff.mpr hd
  · intro hne
    obtain ⟨as, has⟩ := Option.ne_none_iff_exists'.mp hne
    have hends := accessAgrees_ends under as b.offset
    rw [h.access as has] at hends
    obtain ⟨hfalse, -⟩ | ⟨-, slot, a, a', hget, hread, hneq⟩ := hends
    · cases hfalse
    · have hslot : slot < b.span := by
        rw [← hfits.access as has]
        exact (List.getElem?_eq_some_iff.mp hget).1
      refine ⟨b.offset + slot, has_iff.mpr ⟨slot, rfl, hslot⟩, a, a', ?_, hread, hneq⟩
      rw [access_updated (slot?_of_lt hslot), accessAt, has]
      exact Checked.nth_eq_ok_iff.mpr hget

/-- A block that agrees everywhere with what lies under it is the smallest when it is empty. -/
theorem IsSmallest.span_eq_zero (h : b.IsSmallest under)
    (hsame : ∀ stop, b.Has stop → (updated b under).SameAt under stop) : b.span = 0 := by
  refine Decidable.byContradiction fun hspan => ?_
  have hstop : b.Has (b.stop - 1) := by
    unfold Has Block.stop
    omega
  exact (h.last.resolve_left hspan).not_sameAt (hsame _ hstop)

end Block

open TripTimes

/-- **Compaction is invisible, idempotent and maximal.** The outer block of any times may store
arrivals and access or not, as long as its lists fit its span and the trip. Compacting it changes
nothing that is read at any stop. It says that it changed something exactly if it dropped stops,
arrivals or access, and the second time it changes nothing. All that it leaves is needed, so
nothing is left of a block that says what is under it anyway. The compaction cannot be finished
only if a stop of the block cannot be read under it. -/
theorem compaction_exact {b : Block} {under : TripTimes} (hfits : b.Fits under.stopCount) :
    (∃ smaller changed,
      (updated b under).recompact = .ok (updated smaller under, changed) ∧
      (∀ stop,
        (updated smaller under).arrival stop = (updated b under).arrival stop ∧
        (updated smaller under).departure stop = (updated b under).departure stop ∧
        (updated smaller under).pickup stop = (updated b under).pickup stop ∧
        (updated smaller under).dropoff stop = (updated b under).dropoff stop) ∧
      (changed = true ↔ b.Loses smaller) ∧
      (changed = false → smaller = b) ∧
      (updated smaller under).recompact = .ok (updated smaller under, false) ∧
      smaller.IsSmallest under ∧
      ((∀ stop, b.Has stop → (updated b under).SameAt under stop) → smaller.span = 0)) ∨
    ∃ stop fault, b.Has stop ∧ under.FaultsAt stop fault ∧
      (updated b under).recompact = .error fault := by
  obtain ⟨⟨smaller, changed⟩, hcompact, hdrops, hsettled⟩ |
    ⟨fault, hcompact, stop, hstop, hfault⟩ := Checked.ends_iff.mp (Block.compact_ends hfits)
  · have hshrinks : smaller.Shrinks b under := hdrops.shrinks
    have hsmallest := hsettled.isSmallest hshrinks.fits
    have hchanged : changed = true ↔ b.Loses smaller :=
      hdrops.changed_iff.trans (or_iff_right Bool.false_ne_true)
    refine Or.inl ⟨smaller, changed, ?_, fun stop => ?_, hchanged, fun hkept => ?_, ?_, hsmallest,
      fun hagrees => ?_⟩
    · rw [recompact, hcompact]
      rfl
    · have hsame := hshrinks.sameAt stop
      exact ⟨hsame.arrival, hsame.departure, hsame.pickup, hsame.dropoff⟩
    · rw [← Bool.not_eq_true, hchanged, hshrinks.loses_iff hfits] at hkept
      exact Decidable.not_not.mp hkept
    · rw [recompact, hsettled.compact_eq]
      rfl
    · refine hsmallest.span_eq_zero fun stop hstop => (hshrinks.sameAt stop).trans ?_
      exact hagrees stop (hshrinks.has hstop)
  · refine Or.inr ⟨stop, fault, hstop, hfault, ?_⟩
    rw [recompact, hcompact]
    rfl

/-- Only the early first departure of the late trip is worth storing. The other two stops are on
time, the arrivals are the departures, and the access is as published. -/
def wordyBlock : Block where
  offset := 0
  arrivals := some [-5, 100, 200]
  departures := [-5, 100, 200]
  access := some (List.replicate 3 ⟨.regular, .regular⟩)
  wheelchair := false

theorem compaction_exact_wordyBlock :
    wordyBlock.Fits lateTrip.stopCount ∧
    ∃ smaller, (updated wordyBlock (scheduled lateTrip)).recompact =
        .ok (updated smaller (scheduled lateTrip), true) ∧
      smaller = ⟨0, none, [-5], none, false⟩ ∧ wordyBlock.Loses smaller ∧
      smaller.IsSmallest (scheduled lateTrip) := by
  have hfits : wordyBlock.Fits lateTrip.stopCount := by
    refine ⟨by decide, fun as has => ?_, fun as has => ?_⟩
    · cases has
      rfl
    · cases has
      rfl
  have hresult : (updated wordyBlock (scheduled lateTrip)).recompact =
      .ok (updated ⟨0, none, [-5], none, false⟩ (scheduled lateTrip), true) := by rfl
  obtain ⟨smaller, changed, hcompact, -, hchanged, -, -, hsmallest, -⟩ | ⟨_, _, -, -, hfault⟩ :=
    @compaction_exact wordyBlock (scheduled lateTrip) hfits
  · cases hresult.symm.trans hcompact
    exact ⟨hfits, _, hresult, rfl, hchanged.mp rfl, hsmallest⟩
  · cases hresult.symm.trans hfault

end LiveTimetable
