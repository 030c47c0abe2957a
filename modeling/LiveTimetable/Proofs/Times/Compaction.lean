import LiveTimetable.Proofs.Times.Reading

/-!
# Compacting a block changes nothing that is read

`Block.compact` cuts stops off the end of a block and drops lists that repeat what is known
anyway. What lies under the block is arbitrary: a stop of it that cannot be read stops the
compaction at the fault of that stop, and nothing else does.

* `Block.Shrinks`: the new block is a part of the old one, starts at the same stop, fits, and the
  times read the same with it.
* `Block.Loses`: something that was stored is stored no more.
* `Block.Drops`: the block shrinks, and the flag tells whether it lost something. Each step of the
  compaction is of this kind (`trim_ends`, `dropArrivals_drops`, `dropAccess_ends`), and so is the
  whole (`compact_ends`).
* `Block.Settled`: no step of the compaction finds anything to do. A settled block is its own
  compaction (`Settled.compact_eq`), and a compacted block is settled (`compact_ends`).
-/

namespace LiveTimetable

/-- Both computations have a value, and these differ. -/
def Checked.Differ {α : Type} (x y : Checked α) : Prop :=
  ∃ a a', x = .ok a ∧ y = .ok a' ∧ a ≠ a'

theorem Checked.Differ.ne {α : Type} {x y : Checked α} (h : x.Differ y) : x ≠ y := by
  obtain ⟨a, a', rfl, rfl, hne⟩ := h
  exact fun heq => hne (Except.ok.inj heq)

namespace TripTimes

/-- Reading a stop meets the fault. -/
def FaultsAt (t : TripTimes) (stop : Nat) (fault : Fault) : Prop :=
  t.arrival stop = .error fault ∨ t.departure stop = .error fault ∨ t.access stop = .error fault

/-- Two times can be told apart at a stop. -/
def DiffersAt (s t : TripTimes) (stop : Nat) : Prop :=
  (s.arrival stop).Differ (t.arrival stop) ∨ (s.departure stop).Differ (t.departure stop) ∨
    (s.access stop).Differ (t.access stop)

variable {s t : TripTimes} {stop : Nat}

theorem DiffersAt.not_sameAt (h : s.DiffersAt t stop) : ¬ s.SameAt t stop := by
  rintro ⟨ha, hd, hs⟩
  obtain h | h | h := h
  · exact h.ne ha
  · exact h.ne hd
  · exact h.ne hs

theorem Readable.not_faultsAt (h : t.Readable) (hstop : stop < t.stopCount) (fault : Fault) :
    ¬ t.FaultsAt stop fault := by
  obtain ⟨c, hc⟩ := h stop hstop
  unfold FaultsAt
  rw [hc.arrival, hc.departure, hc.access]
  rintro (h | h | h) <;> cases h

end TripTimes

namespace Block

open TripTimes

/-- `b'` is what is left of `b`, and cannot be told from it over `under`. -/
structure Shrinks (b' b : Block) (under : TripTimes) : Prop where
  offset_eq : b'.offset = b.offset
  wheelchair_eq : b'.wheelchair = b.wheelchair
  departures : b'.departures <+: b.departures
  arrivals : ∀ as', b'.arrivals = some as' → ∃ as, b.arrivals = some as ∧ as' <+: as
  access : ∀ as', b'.access = some as' → ∃ as, b.access = some as ∧ as' <+: as
  fits : b'.Fits under.stopCount
  sameAt : ∀ stop, (updated b' under).SameAt (updated b under) stop

/-- Some of what the first block stores is not stored in the second. -/
def Loses (b b' : Block) : Prop :=
  b'.span < b.span ∨ (b.arrivals ≠ none ∧ b'.arrivals = none) ∨
    (b.access ≠ none ∧ b'.access = none)

instance (b b' : Block) : Decidable (b.Loses b') := inferInstanceAs (Decidable (_ ∨ _ ∨ _))

/-- The block of `before` shrinks to that of `after`, and the flag of `after` is set if that of
`before` is, or if the block lost something on the way. -/
structure Drops (under : TripTimes) (before after : Block × Bool) : Prop where
  shrinks : after.1.Shrinks before.1 under
  changed_iff : after.2 = true ↔ before.2 = true ∨ before.1.Loses after.1

/-- No step of the compaction finds anything to do. -/
structure Settled (b : Block) (under : TripTimes) : Prop where
  last : ∀ slot, b.span = slot + 1 → b.agreesAt under slot = .ok false
  arrivals : b.arrivals ≠ some b.departures
  access : ∀ as, b.access = some as → accessAgrees under b.offset as = .ok false

/-- The stop is one of the block. -/
def Has (b : Block) (stop : Nat) : Prop := b.offset ≤ stop ∧ stop < b.stop

variable {b b' b'' : Block} {under : TripTimes} {changed : Bool}

theorem has_iff {stop : Nat} : b.Has stop ↔ ∃ slot, stop = b.offset + slot ∧ slot < b.span := by
  unfold Has Block.stop
  constructor
  · intro h
    exact ⟨stop - b.offset, by omega, by omega⟩
  · rintro ⟨slot, rfl, hslot⟩
    omega

theorem Shrinks.refl (h : b.Fits under.stopCount) : b.Shrinks b under :=
  ⟨rfl, rfl, List.prefix_refl _, fun as has => ⟨as, has, List.prefix_refl _⟩,
    fun as has => ⟨as, has, List.prefix_refl _⟩, h, fun stop => SameAt.refl _ stop⟩

theorem Shrinks.trans (h : b''.Shrinks b' under) (h' : b'.Shrinks b under) :
    b''.Shrinks b under where
  offset_eq := h.offset_eq.trans h'.offset_eq
  wheelchair_eq := h.wheelchair_eq.trans h'.wheelchair_eq
  departures := h.departures.trans h'.departures
  arrivals as'' h'' := by
    obtain ⟨as', has', hpre⟩ := h.arrivals as'' h''
    obtain ⟨as, has, hpre'⟩ := h'.arrivals as' has'
    exact ⟨as, has, hpre.trans hpre'⟩
  access as'' h'' := by
    obtain ⟨as', has', hpre⟩ := h.access as'' h''
    obtain ⟨as, has, hpre'⟩ := h'.access as' has'
    exact ⟨as, has, hpre.trans hpre'⟩
  fits := h.fits
  sameAt stop := (h.sameAt stop).trans (h'.sameAt stop)

theorem Shrinks.span_le (h : b'.Shrinks b under) : b'.span ≤ b.span := h.departures.length_le

theorem Shrinks.has {stop : Nat} (h : b'.Shrinks b under) (hstop : b'.Has stop) : b.Has stop := by
  have := h.span_le
  have := h.offset_eq
  unfold Has Block.stop at hstop ⊢
  omega

theorem Loses.irrefl (b : Block) : ¬ b.Loses b := by
  rintro (h | h | h)
  · exact Nat.lt_irrefl _ h
  · exact h.1 h.2
  · exact h.1 h.2

theorem Shrinks.arrivals_ne_none (h : b'.Shrinks b under) (hne : b'.arrivals ≠ none) :
    b.arrivals ≠ none := by
  obtain ⟨as', has'⟩ := Option.ne_none_iff_exists'.mp hne
  obtain ⟨as, has, -⟩ := h.arrivals as' has'
  exact has ▸ Option.some_ne_none as

theorem Shrinks.access_ne_none (h : b'.Shrinks b under) (hne : b'.access ≠ none) :
    b.access ≠ none := by
  obtain ⟨as', has'⟩ := Option.ne_none_iff_exists'.mp hne
  obtain ⟨as, has, -⟩ := h.access as' has'
  exact has ▸ Option.some_ne_none as

/-- What is lost in two steps is lost in one of them. -/
theorem Shrinks.loses_trans_iff (h : b''.Shrinks b' under) (h' : b'.Shrinks b under) :
    b.Loses b'' ↔ b.Loses b' ∨ b'.Loses b'' := by
  have hspan := h.span_le
  have hspan' := h'.span_le
  have harrivals := h'.arrivals_ne_none
  have harrivals' := h.arrivals_ne_none
  have haccess := h'.access_ne_none
  have haccess' := h.access_ne_none
  unfold Loses
  grind

theorem Drops.refl (h : b.Fits under.stopCount) (changed : Bool) :
    Drops under (b, changed) (b, changed) :=
  ⟨Shrinks.refl h, (or_iff_left (Loses.irrefl b)).symm⟩

theorem Drops.trans {r r' r'' : Block × Bool} (h : Drops under r r') (h' : Drops under r' r'') :
    Drops under r r'' where
  shrinks := h'.shrinks.trans h.shrinks
  changed_iff := by
    rw [h'.changed_iff, h.changed_iff, h'.shrinks.loses_trans_iff h.shrinks, or_assoc]

/-- A step that drops something sets the flag. -/
theorem Shrinks.drops (h : b'.Shrinks b under) (hloses : b.Loses b') (changed : Bool) :
    Drops under (b, changed) (b', true) :=
  ⟨h, iff_of_true rfl (Or.inr hloses)⟩

/-! ## One position -/

theorem exists_arrivalAt {n slot : Nat} (hfits : b.Fits n) (hslot : slot < b.span) :
    ∃ t, b.arrivalAt slot = .ok t :=
  ⟨_, Checked.nth_of_lt (by rwa [arrivals_length hfits])⟩

theorem exists_departureAt {slot : Nat} (hslot : slot < b.span) :
    ∃ t, b.departureAt slot = .ok t :=
  ⟨_, Checked.nth_of_lt hslot⟩

/-- The access at a position cannot be read only if it is read from under the block. -/
theorem accessAt_ends (under : TripTimes) {n slot : Nat} (hfits : b.Fits n)
    (hslot : slot < b.span) :
    (b.accessAt under slot).Ends (fun _ => True)
      fun fault => under.access (b.offset + slot) = .error fault := by
  unfold accessAt
  cases has : b.access with
  | none =>
    show (under.access (b.offset + slot)).Ends _ _
    cases under.access (b.offset + slot) with
    | ok a => trivial
    | error fault => rfl
  | some as =>
    show (Checked.nth as slot).Ends _ _
    rw [Checked.nth_of_lt (by rwa [hfits.access as has])]
    trivial

theorem slot?_of_lt {slot : Nat} (hslot : slot < b.span) : b.slot? (b.offset + slot) = some slot :=
  slot?_eq_some_iff.mpr ⟨rfl, hslot⟩

/-- Whether a position agrees with what lies under it is found out, if that can be read. -/
theorem agreesAt_ends (under : TripTimes) {n slot : Nat} (hfits : b.Fits n)
    (hslot : slot < b.span) :
    (b.agreesAt under slot).Ends
      (fun agrees => (agrees = true ∧ (updated b under).SameAt under (b.offset + slot)) ∨
        (agrees = false ∧ (updated b under).DiffersAt under (b.offset + slot)))
      (under.FaultsAt (b.offset + slot)) := by
  obtain ⟨a, ha⟩ := exists_arrivalAt hfits hslot
  obtain ⟨d, hd⟩ := exists_departureAt hslot
  have harrival : (updated b under).arrival (b.offset + slot) = .ok a :=
    (arrival_updated (slot?_of_lt hslot)).trans ha
  have hdeparture : (updated b under).departure (b.offset + slot) = .ok d :=
    (departure_updated (slot?_of_lt hslot)).trans hd
  have haccess : (updated b under).access (b.offset + slot) = b.accessAt under slot :=
    access_updated (slot?_of_lt hslot)
  unfold agreesAt
  simp only [ha, hd, Checked.ok_bind]
  cases hua : under.arrival (b.offset + slot) with
  | error fault => exact Or.inl hua
  | ok a' =>
    rw [Checked.ok_bind]
    split
    · rename_i hsame
      subst hsame
      cases hud : under.departure (b.offset + slot) with
      | error fault => exact Or.inr (Or.inl hud)
      | ok d' =>
        rw [Checked.ok_bind]
        split
        · rename_i hsame
          subst hsame
          have hends := accessAt_ends under hfits hslot
          cases hs : b.accessAt under slot with
          | error fault =>
            rw [hs] at hends
            exact Or.inr (Or.inr hends)
          | ok s =>
            rw [Checked.ok_bind]
            cases hus : under.access (b.offset + slot) with
            | error fault => exact Or.inr (Or.inr hus)
            | ok s' =>
              show (decide (s = s') = true ∧ _) ∨ _
              by_cases hsame : s = s'
              · subst hsame
                exact Or.inl ⟨decide_eq_true rfl, harrival.trans hua.symm,
                  hdeparture.trans hud.symm, (haccess.trans hs).trans hus.symm⟩
              · exact Or.inr ⟨decide_eq_false hsame,
                  Or.inr (Or.inr ⟨s, s', haccess.trans hs, hus, hsame⟩)⟩
        · rename_i hne
          exact Or.inr ⟨rfl, Or.inr (Or.inl ⟨d, d', hdeparture, hud, hne⟩)⟩
    · rename_i hne
      exact Or.inr ⟨rfl, Or.inl ⟨a, a', harrival, hua, hne⟩⟩

/-- Whether a position agrees depends on nothing but what is read there. -/
theorem agreesAt_congr {slot : Nat} (hoffset : b'.offset = b.offset) (hslot : slot < b.span)
    (hslot' : slot < b'.span)
    (hsame : (updated b' under).SameAt (updated b under) (b.offset + slot)) :
    b'.agreesAt under slot = b.agreesAt under slot := by
  have hslot?' : b'.slot? (b.offset + slot) = some slot := hoffset ▸ slot?_of_lt hslot'
  have ha := hsame.arrival
  have hd := hsame.departure
  have hs := hsame.access
  rw [arrival_updated hslot?', arrival_updated (slot?_of_lt hslot)] at ha
  rw [departure_updated hslot?', departure_updated (slot?_of_lt hslot)] at hd
  rw [access_updated hslot?', access_updated (slot?_of_lt hslot)] at hs
  unfold agreesAt
  rw [hoffset, ha, hd, hs]

/-! ## Cutting stops off the end -/

theorem span_take {n : Nat} (h : n ≤ b.span) : (b.take n).span = n :=
  (List.length_take ..).trans (Nat.min_eq_left h)

theorem fits_take {n : Nat} (h : n ≤ b.span) (hb : b.Fits under.stopCount) :
    (b.take n).Fits under.stopCount := by
  constructor
  · have := hb.stop_le
    unfold Block.stop at this ⊢
    rw [span_take h]
    show b.offset + n ≤ _
    omega
  · intro as has
    obtain ⟨as', has', rfl⟩ := Option.map_eq_some_iff.mp has
    rw [span_take h, List.length_take, hb.arrivals as' has']
    exact Nat.min_eq_left h
  · intro as has
    obtain ⟨as', has', rfl⟩ := Option.map_eq_some_iff.mp has
    rw [span_take h, List.length_take, hb.access as' has']
    exact Nat.min_eq_left h

theorem nth_take {α : Type} (xs : List α) {i n : Nat} (h : i < n) :
    Checked.nth (xs.take n) i = Checked.nth xs i := by
  unfold Checked.nth
  rw [List.getElem?_take_of_lt h]

/-- The stops that are left of a block read as before. -/
theorem sameAt_take {n slot : Nat} (hn : n ≤ b.span) (hslot : slot < n) :
    (updated (b.take n) under).SameAt (updated b under) (b.offset + slot) := by
  have h1 : (b.take n).slot? (b.offset + slot) = some slot :=
    slot?_eq_some_iff.mpr ⟨rfl, by rw [span_take hn]; exact hslot⟩
  have h2 : b.slot? (b.offset + slot) = some slot := slot?_of_lt (Nat.lt_of_lt_of_le hslot hn)
  have ha : (b.take n).arrivalAt slot = b.arrivalAt slot := by
    unfold arrivalAt
    cases h : b.arrivals with
    | none =>
      simp only [take, h, Option.map_none, Option.getD_none]
      exact nth_take _ hslot
    | some as =>
      simp only [take, h, Option.map_some, Option.getD_some]
      exact nth_take _ hslot
  have hs : (b.take n).accessAt under slot = b.accessAt under slot := by
    unfold accessAt
    cases h : b.access with
    | none => simp only [take, h, Option.map_none]
    | some as =>
      simp only [take, h, Option.map_some]
      exact nth_take _ hslot
  have hd : (b.take n).departureAt slot = b.departureAt slot := nth_take _ hslot
  constructor
  · rw [arrival_updated h1, arrival_updated h2, ha]
  · rw [departure_updated h1, departure_updated h2, hd]
  · rw [access_updated h1, access_updated h2, hs]

/-- The last stop can be cut off if the block and what lies under it agree there. -/
theorem take_shrinks {n : Nat} (hspan : b.span = n + 1) (hfits : b.Fits under.stopCount)
    (hsame : (updated b under).SameAt under (b.offset + n)) : (b.take n).Shrinks b under := by
  have hn : n ≤ b.span := by omega
  refine ⟨rfl, rfl, List.take_prefix _ _, fun as' has' => ?_, fun as' has' => ?_,
    fits_take hn hfits, fun stop => ?_⟩
  · obtain ⟨as, has, rfl⟩ := Option.map_eq_some_iff.mp has'
    exact ⟨as, has, List.take_prefix _ _⟩
  · obtain ⟨as, has, rfl⟩ := Option.map_eq_some_iff.mp has'
    exact ⟨as, has, List.take_prefix _ _⟩
  have hoff : (b.take n).offset = b.offset := rfl
  cases hslot : b.slot? stop with
  | none =>
    have hout : (b.take n).slot? stop = none := by
      rw [slot?_eq_none_iff] at hslot ⊢
      unfold Block.stop at hslot ⊢
      rw [span_take hn, hoff]
      omega
    exact (sameAt_updated hout).trans (sameAt_updated hslot).symm
  | some slot =>
    obtain ⟨rfl, hlt⟩ := slot?_eq_some_iff.mp hslot
    by_cases hlast : slot = n
    · subst hlast
      have hout : (b.take slot).slot? (b.offset + slot) = none := by
        rw [slot?_eq_none_iff]
        unfold Block.stop
        rw [span_take hn, hoff]
        omega
      exact (sameAt_updated hout).trans hsame.symm
    · exact sameAt_take hn (by omega)

/-- Stops are cut off the end up to one that does not agree. -/
theorem trim_ends : ∀ (n : Nat) (b : Block) (changed : Bool), b.span = n →
    b.Fits under.stopCount →
    (trim under n b changed).Ends
      (fun r => Drops under (b, changed) r ∧
        ∀ slot, r.1.span = slot + 1 → r.1.agreesAt under slot = .ok false)
      fun fault => ∃ stop, b.Has stop ∧ under.FaultsAt stop fault
  | 0, b, changed, hspan, hfits =>
    ⟨Drops.refl hfits changed, fun slot (hslot : b.span = slot + 1) => by omega⟩
  | n + 1, b, changed, hspan, hfits => by
    have hhas : b.Has (b.offset + n) := has_iff.mpr ⟨n, rfl, by omega⟩
    rw [trim]
    obtain ⟨agrees, heq, hagrees⟩ | ⟨fault, heq, hfault⟩ :=
      Checked.ends_iff.mp (agreesAt_ends under hfits (show n < b.span by omega))
    · rw [heq, Checked.ok_bind]
      obtain ⟨rfl, hsame⟩ | ⟨rfl, -⟩ := hagrees
      · have hcut := take_shrinks hspan hfits hsame
        have hspan' : (b.take n).span = n := span_take (by omega)
        have hdrops := hcut.drops (Or.inl (by omega)) changed
        refine (trim_ends n (b.take n) true hspan' hcut.fits).mono ?_ ?_
        · rintro r ⟨hrest, hlast⟩
          exact ⟨hdrops.trans hrest, hlast⟩
        · rintro fault ⟨stop, hstop, hfault⟩
          exact ⟨stop, hcut.has hstop, hfault⟩
      · refine ⟨Drops.refl hfits changed, fun slot (hslot : b.span = slot + 1) => ?_⟩
        obtain rfl : n = slot := by omega
        exact heq
    · rw [heq, Checked.error_bind]
      exact ⟨_, hhas, hfault⟩

/-! ## Dropping lists -/

/-- Arrivals that repeat the departures need not be kept. -/
theorem dropArrivals_drops (hfits : b.Fits under.stopCount) (changed : Bool) :
    Drops under (b, changed) (b.dropArrivals changed) := by
  unfold dropArrivals
  split
  · rename_i h
    have hsame : { b with arrivals := none }.arrivalAt = b.arrivalAt := by
      funext slot
      unfold arrivalAt
      rw [h]
      rfl
    have hshrinks : Shrinks { b with arrivals := none } b under := by
      refine ⟨rfl, rfl, List.prefix_refl _, nofun, fun as has => ⟨as, has, List.prefix_refl _⟩,
        ⟨hfits.stop_le, nofun, hfits.access⟩, fun stop => ⟨?_, rfl, rfl⟩⟩
      simp only [TripTimes.arrival, hsame]
      rfl
    exact hshrinks.drops (Or.inr (Or.inl ⟨h ▸ Option.some_ne_none _, rfl⟩)) changed
  · exact Drops.refl hfits changed

theorem arrivals_dropArrivals (b : Block) (changed : Bool) :
    (b.dropArrivals changed).1.arrivals ≠ some (b.dropArrivals changed).1.departures := by
  unfold dropArrivals
  split
  · exact nofun
  · assumption

theorem departures_dropArrivals (b : Block) (changed : Bool) :
    (b.dropArrivals changed).1.departures = b.departures := by
  unfold dropArrivals
  split <;> rfl

/-- Whether a list of access is that of the times from a stop on is found out, if they can be
read. -/
theorem accessAgrees_ends (under : TripTimes) : ∀ (as : List Access) (stop : Nat),
    (accessAgrees under stop as).Ends
      (fun agrees =>
        (agrees = true ∧ ∀ i a, as[i]? = some a → under.access (stop + i) = .ok a) ∨
        (agrees = false ∧ ∃ i a a', as[i]? = some a ∧ under.access (stop + i) = .ok a' ∧ a ≠ a'))
      fun fault => ∃ i < as.length, under.access (stop + i) = .error fault
  | [], _ => Or.inl ⟨rfl, fun _ _ h => by cases h⟩
  | a :: rest, stop => by
    have hshift : ∀ i, stop + 1 + i = stop + (i + 1) := fun i => by omega
    rw [accessAgrees]
    cases hus : under.access stop with
    | error fault => exact ⟨0, Nat.zero_lt_succ _, hus⟩
    | ok s =>
      rw [Checked.ok_bind]
      by_cases hsame : a = s
      · subst hsame
        rw [if_pos rfl]
        refine (accessAgrees_ends under rest (stop + 1)).mono ?_ ?_
        · rintro agrees (⟨rfl, hall⟩ | ⟨rfl, i, a', a'', hget, hread, hne⟩)
          · refine Or.inl ⟨rfl, fun i a' ha' => ?_⟩
            cases i with
            | zero =>
              cases ha'
              exact hus
            | succ i => exact hshift i ▸ hall i a' ha'
          · exact Or.inr ⟨rfl, i + 1, a', a'', hget, hshift i ▸ hread, hne⟩
        · rintro fault ⟨i, hi, hread⟩
          exact ⟨i + 1, Nat.succ_lt_succ hi, hshift i ▸ hread⟩
      · rw [if_neg hsame]
        exact Or.inr ⟨rfl, 0, a, s, rfl, hus, hsame⟩

/-- Access that repeats what lies under the block need not be kept. -/
theorem dropAccess_ends (hfits : b.Fits under.stopCount) (changed : Bool) :
    (b.dropAccess under changed).Ends
      (fun r => Drops under (b, changed) r ∧ r.1.arrivals = b.arrivals ∧
        r.1.departures = b.departures ∧
        ∀ as, r.1.access = some as → accessAgrees under r.1.offset as = .ok false)
      fun fault => ∃ stop, b.Has stop ∧ under.FaultsAt stop fault := by
  unfold dropAccess
  cases has : b.access with
  | none =>
    refine ⟨Drops.refl hfits changed, rfl, rfl, fun as (h : b.access = some as) => ?_⟩
    rw [has] at h
    cases h
  | some as =>
    have hlen := hfits.access as has
    obtain ⟨agrees, heq, hagrees⟩ | ⟨fault, heq, i, hi, hfault⟩ :=
      Checked.ends_iff.mp (accessAgrees_ends under as b.offset)
    · simp only [heq, Checked.ok_bind]
      obtain ⟨rfl, hall⟩ | ⟨rfl, -⟩ := hagrees
      · have hshrinks : Shrinks { b with access := none } b under := by
          refine ⟨rfl, rfl, List.prefix_refl _, fun as has => ⟨as, has, List.prefix_refl _⟩,
            by rintro _ ⟨⟩, ⟨hfits.stop_le, hfits.arrivals, by rintro _ ⟨⟩⟩,
            fun stop => ⟨rfl, rfl, ?_⟩⟩
          have hslot? : ({ b with access := none } : Block).slot? stop = b.slot? stop := rfl
          rw [TripTimes.access, TripTimes.access, hslot?, has]
          cases hslot : b.slot? stop with
          | none => rfl
          | some slot =>
            obtain ⟨rfl, hlt⟩ := slot?_eq_some_iff.mp hslot
            have hlt' : slot < as.length := by omega
            simp only [Checked.nth_of_lt hlt']
            exact hall slot _ (List.getElem?_eq_getElem hlt')
        have hloses : b.Loses { b with access := none } :=
          Or.inr (Or.inr ⟨has ▸ Option.some_ne_none as, rfl⟩)
        exact ⟨hshrinks.drops hloses changed, rfl, rfl, by rintro _ ⟨⟩⟩
      · refine ⟨Drops.refl hfits changed, rfl, rfl, fun as' (has' : b.access = some as') => ?_⟩
        obtain rfl : as = as' := Option.some.inj (has.symm.trans has')
        exact heq
    · simp only [heq, Checked.error_bind]
      exact ⟨_, has_iff.mpr ⟨i, rfl, hlen ▸ hi⟩, Or.inr (Or.inr hfault)⟩

/-! ## The whole compaction -/

/-- What is left of a block after a stop was found that is needed still needs that stop. -/
theorem Shrinks.last_of_span_eq (h : b'.Shrinks b under) (hspan : b'.span = b.span)
    (hlast : ∀ slot, b.span = slot + 1 → b.agreesAt under slot = .ok false) :
    ∀ slot, b'.span = slot + 1 → b'.agreesAt under slot = .ok false := by
  intro slot hslot
  rw [agreesAt_congr h.offset_eq (by omega) (by omega) (h.sameAt _)]
  exact hlast slot (hspan ▸ hslot)

/-- Compaction leaves a part of the block that reads the same and is settled, and tells whether
that is all of it; or it stops at a stop under the block that cannot be read. -/
theorem compact_ends (hfits : b.Fits under.stopCount) :
    (b.compact under).Ends (fun r => Drops under (b, false) r ∧ r.1.Settled under)
      fun fault => ∃ stop, b.Has stop ∧ under.FaultsAt stop fault := by
  refine (trim_ends b.span b false rfl hfits).bind ?_
  rintro ⟨trimmed, changed⟩ ⟨hs1, hlast⟩
  have hs2 := dropArrivals_drops hs1.shrinks.fits changed
  have hspan2 := congrArg List.length (departures_dropArrivals trimmed changed)
  have hsingle := arrivals_dropArrivals trimmed changed
  show ((trimmed.dropArrivals changed).1.dropAccess under (trimmed.dropArrivals changed).2).Ends _ _
  generalize trimmed.dropArrivals changed = r at hs2 hspan2 hsingle ⊢
  obtain ⟨single, changed'⟩ := r
  refine (dropAccess_ends hs2.shrinks.fits changed').mono ?_ ?_
  · rintro ⟨b3, changed''⟩ ⟨hs3, harrivals, hdepartures, haccess⟩
    have hspan3 : b3.span = single.span := congrArg List.length hdepartures
    refine ⟨(hs1.trans hs2).trans hs3, ?_, ?_, haccess⟩
    · exact hs3.shrinks.last_of_span_eq hspan3 (hs2.shrinks.last_of_span_eq hspan2 hlast)
    · rw [harrivals, hdepartures]
      exact hsingle
  · rintro fault ⟨stop, hstop, hfault⟩
    exact ⟨stop, (hs1.trans hs2).shrinks.has hstop, hfault⟩

/-- **Compaction cannot be noticed.** It always comes to an end over times that can be read, and
its block reads the same. -/
theorem compact_shrinks (hread : under.Readable) (hfits : b.Fits under.stopCount) :
    ∃ b' changed, b.compact under = .ok (b', changed) ∧ b'.Shrinks b under := by
  obtain ⟨⟨b', changed⟩, hcompact, hdrops, -⟩ := (compact_ends hfits).ok_of_not_bad
    fun fault ⟨stop, hstop, hfault⟩ =>
      hread.not_faultsAt (Nat.lt_of_lt_of_le hstop.2 hfits.stop_le) fault hfault
  exact ⟨b', changed, hcompact, hdrops.shrinks⟩

/-- A settled block is its own compaction, and no step of it sets the flag. -/
theorem Settled.compact_eq (h : b.Settled under) : b.compact under = .ok (b, false) := by
  have htrim : trim under b.span b false = .ok (b, false) := by
    cases hspan : b.span with
    | zero => rfl
    | succ slot =>
      rw [trim, h.last slot hspan]
      rfl
  have harrivals : b.dropArrivals false = (b, false) := if_neg h.arrivals
  rw [compact, htrim, Checked.ok_bind]
  simp only [harrivals, dropAccess]
  cases has : b.access with
  | none => rfl
  | some as =>
    simp only [h.access as has]
    rfl

end Block

end LiveTimetable
