import LiveTimetable.Proofs.Times.Compaction
import LiveTimetable.Proofs.Times.Sheet

/-!
# Laying patches over times is overwriting their calls

`TripTimes.lay` puts a block over the times and takes out from under it the blocks that it covers;
`TripTimes.cover` compacts the block after that. Whatever the layers are, the stops of the block
read as the patches say and all others as before: the calls of the times are overwritten
(`lay_reads`, `cover_reads`). Any block that was made is a part of the block of all patches
(`exists_of_cover`).
-/

namespace LiveTimetable

/-! ## Overwritten calls -/

section Overwrite

variable {published cs : List Call} {start stop : Nat} {ps : List StopPatch}

theorem length_overwrite (hlen : cs.length = published.length)
    (hfit : start + ps.length ≤ published.length) :
    (overwrite published cs start ps).length = published.length := by
  unfold overwrite
  simp only [List.length_append, List.length_take, List.length_zipWith, List.length_drop]
  omega

theorem length_zipWith_patches (hfit : start + ps.length ≤ published.length) :
    (List.zipWith StopPatch.callOver ps (published.drop start)).length = ps.length := by
  rw [List.length_zipWith, List.length_drop]
  omega

theorem getElem?_overwrite_of_lt (hlen : cs.length = published.length)
    (hfit : start + ps.length ≤ published.length) (h : stop < start) :
    (overwrite published cs start ps)[stop]? = cs[stop]? := by
  have htake : stop < (cs.take start).length := by
    rw [List.length_take]
    omega
  unfold overwrite
  rw [List.append_assoc, List.getElem?_append_left htake, List.getElem?_take_of_lt h]

theorem getElem?_overwrite_of_ge (hlen : cs.length = published.length)
    (hfit : start + ps.length ≤ published.length) (h : start + ps.length ≤ stop) :
    (overwrite published cs start ps)[stop]? = cs[stop]? := by
  have hleft : (cs.take start ++ List.zipWith StopPatch.callOver ps (published.drop start)).length
      = start + ps.length := by
    rw [List.length_append, length_zipWith_patches hfit, List.length_take]
    omega
  unfold overwrite
  rw [List.getElem?_append_right (by omega), hleft, List.getElem?_drop, Nat.add_sub_cancel' h]

theorem getElem?_overwrite_add {slot : Nat} (hlen : cs.length = published.length)
    (hfit : start + ps.length ≤ published.length) (h : slot < ps.length) :
    (overwrite published cs start ps)[start + slot]? =
      (List.zipWith StopPatch.callOver ps (published.drop start))[slot]? := by
  have htake : (cs.take start).length = start := by
    rw [List.length_take]
    omega
  have hzip := length_zipWith_patches hfit
  unfold overwrite
  rw [List.append_assoc, List.getElem?_append_right (by omega), htake, Nat.add_sub_cancel_left,
    List.getElem?_append_left (by omega)]

end Overwrite

/-! ## The calls of a block -/

namespace Block

variable {p : Baseline} {stop : Nat}

/-- What is worked out for one patch is what the patch makes of the published call. -/
theorem callOf_eq (patch : StopPatch) {c : Call} (h : p.calls[stop]? = some c) :
    callOf p stop patch = .ok (patch.callOver c) := by
  have hcall : p.call stop = .ok c := Checked.nth_eq_ok_iff.mpr h
  unfold callOf StopPatch.callOver
  cases hs : patch.status with
  | passed | canceled => rfl
  | unknown | planned =>
    simp only [hcall, Checked.ok_bind]
    rfl
  | arrived | predicted =>
    simp only [hcall, Checked.ok_bind, StopStatus.hasTimes, StopPatch.reported?]
    cases patch.arrival <;> cases patch.departure <;> rfl

theorem callsOf_eq : ∀ (ps : List StopPatch) (stop : Nat), stop + ps.length ≤ p.calls.length →
    callsOf p stop ps = .ok (List.zipWith StopPatch.callOver ps (p.calls.drop stop))
  | [], _, _ => by
    rw [List.zipWith_nil_left]
    rfl
  | patch :: rest, stop, hfit => by
    rw [List.length_cons] at hfit
    have hlt : stop < p.calls.length := by omega
    rw [callsOf, callOf_eq patch (List.getElem?_eq_getElem hlt), Checked.ok_bind,
      callsOf_eq rest (stop + 1) (by omega), Checked.ok_bind, List.drop_eq_getElem_cons hlt,
      List.zipWith_cons_cons]
    rfl

/-- The block of full lists that holds the given calls. -/
def ofCalls (offset : Nat) (cs : List Call) (wheelchair : Bool) : Block where
  offset
  arrivals := some (cs.map Call.arrival)
  departures := cs.map Call.departure
  access := some (cs.map Call.access)
  wheelchair

variable {offset : Nat} {cs : List Call} {wheelchair : Bool}

theorem span_ofCalls : (ofCalls offset cs wheelchair).span = cs.length := List.length_map _

theorem fits_ofCalls {n : Nat} (h : offset + cs.length ≤ n) :
    (ofCalls offset cs wheelchair).Fits n := by
  constructor
  · unfold Block.stop
    rw [span_ofCalls]
    exact h
  · rintro as ⟨⟩
    rw [span_ofCalls, List.length_map]
  · rintro as ⟨⟩
    rw [span_ofCalls, List.length_map]

/-- A block of full lists reads as the calls it holds. -/
theorem readsAt_ofCalls {under : TripTimes} {slot : Nat} {c : Call} (h : cs[slot]? = some c) :
    (TripTimes.updated (ofCalls offset cs wheelchair) under).ReadsAt (offset + slot) c := by
  have hlt : slot < cs.length := (List.getElem?_eq_some_iff.mp h).1
  have hslot : (ofCalls offset cs wheelchair).slot? (offset + slot) = some slot :=
    slot?_eq_some_iff.mpr ⟨rfl, by rw [span_ofCalls]; exact hlt⟩
  refine (TripTimes.readsAt_updated_iff hslot).mpr ⟨?_, ?_, ?_⟩
  all_goals
    refine Checked.nth_eq_ok_iff.mpr ?_
    simp [ofCalls, h]

end Block

/-! ## Laying and covering -/

namespace TripTimes

variable {t under : TripTimes} {b : Block} {cs : List Call} {u : TripUpdate} {start : Nat}

/-- **Patches are laid over times by overwriting their calls.** -/
theorem lay_reads (hread : t.Reads cs) (hwidth : t.stopCount < 18446744073709551616)
    (hfit : start + u.patches.length ≤ t.stopCount) :
    ∃ b, t.lay u start = .ok (b, t.uncover start (start + u.patches.length)) ∧
      b.wheelchair = u.wheelchair.getD t.isWheelchair ∧
      b.Fits t.stopCount ∧
      (updated b (t.uncover start (start + u.patches.length))).Reads
        (overwrite t.baseline.calls cs start u.patches) := by
  have hlen : cs.length = t.baseline.calls.length := hread.length_eq
  have hfit' : start + u.patches.length ≤ t.baseline.calls.length := hfit
  have hzip := length_zipWith_patches hfit'
  refine ⟨.ofCalls start (List.zipWith StopPatch.callOver u.patches (t.baseline.calls.drop start))
    (u.wheelchair.getD t.isWheelchair), ?_, rfl, Block.fits_ofCalls (by omega), ?_, ?_⟩
  · have hword : Checked.word64 (start + u.patches.length) = .ok (start + u.patches.length) :=
      if_pos (by omega)
    rw [lay, hword, Checked.ok_bind, if_neg (by omega), Block.callsOf_eq u.patches start hfit',
      Checked.ok_bind]
    rfl
  · rw [length_overwrite hlen hfit']
    show _ = (t.uncover _ _).stopCount
    rw [stopCount_uncover]
    rfl
  · intro stop c hc
    by_cases hin : start ≤ stop ∧ stop < start + u.patches.length
    · obtain ⟨slot, rfl⟩ := Nat.exists_eq_add_of_le hin.1
      rw [getElem?_overwrite_add hlen hfit' (by omega)] at hc
      exact Block.readsAt_ofCalls hc
    · have hold : cs[stop]? = some c := by
        rcases Nat.lt_or_ge stop start with hlt | hge
        · rwa [getElem?_overwrite_of_lt hlen hfit' hlt] at hc
        · rwa [getElem?_overwrite_of_ge hlen hfit' (by omega)] at hc
      have hslot : (Block.ofCalls start
          (List.zipWith StopPatch.callOver u.patches (t.baseline.calls.drop start))
          (u.wheelchair.getD t.isWheelchair)).slot? stop = none := by
        refine Block.slot?_eq_none_iff.mpr ?_
        unfold Block.stop
        rw [Block.span_ofCalls, hzip]
        show stop < start ∨ start + u.patches.length ≤ stop
        omega
      exact (sameAt_updated hslot).readsAt_iff.mpr
        ((sameAt_uncover (by omega) t).readsAt_iff.mpr (hread.readsAt stop c hold))

/-- **Covering overwrites the calls**, whatever was covered before. -/
theorem cover_reads (hlayered : t.IsLayered) (hread : t.Reads cs)
    (hwidth : t.stopCount < 18446744073709551616)
    (hfit : start + u.patches.length ≤ t.stopCount) :
    ∃ b, t.cover u start = .ok (b, t.uncover start (start + u.patches.length)) ∧
      b.wheelchair = u.wheelchair.getD t.isWheelchair ∧
      (updated b (t.uncover start (start + u.patches.length))).IsLayered ∧
      (updated b (t.uncover start (start + u.patches.length))).Reads
        (overwrite t.baseline.calls cs start u.patches) := by
  obtain ⟨b, hlay, hwheel, hfits, hover⟩ := lay_reads hread hwidth hfit
  have hunder := hlayered.uncover start (start + u.patches.length)
  rw [← stopCount_uncover start (start + u.patches.length) t] at hfits
  obtain ⟨b', changed, hcompact, hshrinks⟩ := Block.compact_shrinks hunder.readable hfits
  refine ⟨b', ?_, hshrinks.wheelchair_eq.trans hwheel, ⟨hshrinks.fits, hunder⟩,
    hover.congr rfl hshrinks.sameAt⟩
  rw [cover, hlay, Checked.ok_bind]
  simp only [hcompact, Checked.ok_bind]
  rfl

/-- A block that was made is what compaction left of the block of all patches. -/
theorem exists_of_cover (h : t.cover u start = .ok (b, under)) :
    under = t.uncover start (start + u.patches.length) ∧
      ∃ whole : Block, b.Shrinks whole under ∧ whole.offset = start ∧
        whole.span = u.patches.length ∧ whole.wheelchair = u.wheelchair.getD t.isWheelchair := by
  obtain ⟨⟨whole, below⟩, hlay, h⟩ := Checked.bind_eq_ok_iff.mp h
  obtain ⟨⟨smaller, changed⟩, hcompact, h⟩ := Checked.bind_eq_ok_iff.mp h
  cases h
  obtain ⟨stop, hstop, hlay⟩ := Checked.bind_eq_ok_iff.mp hlay
  have hend : stop = start + u.patches.length := by
    unfold Checked.word64 at hstop
    split at hstop
    · exact (Except.ok.inj hstop).symm
    · cases hstop
  split at hlay
  · cases hlay
  · rename_i hle
    obtain ⟨calls, hcalls, hlay⟩ := Checked.bind_eq_ok_iff.mp hlay
    cases hlay
    have hfit : start + u.patches.length ≤ t.baseline.calls.length := hend ▸ Nat.le_of_not_lt hle
    have hlength : calls.length = u.patches.length := by
      rw [Block.callsOf_eq u.patches start hfit] at hcalls
      cases hcalls
      exact length_zipWith_patches hfit
    have hfits : (Block.ofCalls start calls (u.wheelchair.getD t.isWheelchair)).Fits
        (t.uncover start stop).stopCount := by
      refine Block.fits_ofCalls ?_
      rw [stopCount_uncover, hlength]
      exact hfit
    obtain ⟨r, hr, hdrops, -⟩ | ⟨fault, hr, -⟩ := Checked.ends_iff.mp (Block.compact_ends hfits)
    · cases hr.symm.trans hcompact
      exact ⟨by rw [hend], _, hdrops.shrinks, rfl, Block.span_ofCalls.trans hlength, rfl⟩
    · cases hr.symm.trans hcompact

end TripTimes

end LiveTimetable
