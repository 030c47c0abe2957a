import LiveTimetable.Proofs.Publication.Editing
import LiveTimetable.Proofs.Publication.Throttling
import LiveTimetable.Proofs.Timetable.Columns

/-!
# Bringing timetables in line with a pattern

To follow a pattern is to reconcile which trips its timetables have, and nothing else. A trip that
the pattern still has in the same publication keeps its current times; any other one of its trips
runs as published. Publications are told apart by their serial numbers alone, as they are one and
the same object or not.

* `Buffer.Reachable`: a buffer after calls in any order, refused ones included; its timetables are
  reachable (`Reachable.timetables`).
* `Buffer.InLine`: what becomes of one timetable (`follow_inLine`).
* `Buffer.follow_changed_iff`, `Buffer.follow_follow`: a change is reported exactly if there is one,
  and there is none the second time.
* `Buffer.sync_brings_in_line`: what becomes of the buffer.
-/

namespace LiveTimetable

namespace Timetable

variable {t : Timetable}

theorem Reachable.foldl_remove (ht : t.Reachable) (trips : List TripId) :
    (trips.foldl remove t).Reachable := by
  induction trips generalizing t with
  | nil => exact ht
  | cons trip rest ih => exact ih (ht.step (.removed t trip))

end Timetable

namespace Buffer

variable {b b' : Buffer} {p : Pattern} {t : Timetable} {f : Following}

/-! ## Buffers after any calls -/

/-- A buffer after calls in any order. An update that is refused leaves it as it was; the timetables
of a pattern follow it in any order, up to the first that is refused. -/
inductive Reachable : Buffer → Prop
  | start (recovery : Recovery) : Reachable (.empty recovery)
  | updated {b b' : Buffer} {p : Pattern} {u : TripUpdate} (hb : Reachable b) (hp : p.Made)
      (h : (b.update p u).run = .ok (.ok b')) : Reachable b'
  | synced {b : Buffer} {p : Pattern} {es : List (PatternDate × Held)} (hb : Reachable b)
      (hp : p.Made) (hes : es.Perm (b.timetables.entries.filter fun e => e.1.pattern == p.id)) :
      Reachable (syncAll p es b).1
  | patternRemoved {b : Buffer} (hb : Reachable b) (pattern : PatternId) :
      Reachable (b.removePattern pattern)
  | dropped {b : Buffer} (hb : Reachable b) (date : ServiceDate) : Reachable (b.dropBefore date)
  | committed {b b' : Buffer} {snapshot : Snapshot} (hb : Reachable b)
      (h : b.commit = .ok (b', snapshot)) : Reachable b'

theorem reachable_takeUp {bs : List Baseline} (h : f.timetable.Reachable) :
    (takeUp bs f).timetable.Reachable := by
  induction bs generalizing f with
  | nil => exact h
  | cons x rest ih =>
    unfold takeUp
    split
    · exact ih h
    · split
      · rename_i t hins
        exact ih (h.step (.inserted hins))
      · exact h

/-- Also a timetable that is refused on the way is reachable. -/
theorem reachable_follow (p : Pattern) (h : t.Reachable) : (follow p t).timetable.Reachable :=
  reachable_takeUp (h.foldl_remove _)

/-- All timetables that the buffer holds are reachable. -/
def Sound (b : Buffer) : Prop :=
  ∀ key held, b.timetables.get? key = some held → held.timetable.Reachable

theorem Sound.write (hb : b.Sound) (ht : t.Reachable) (key : PatternDate) :
    (b.write key t).Sound := by
  intro k held hget
  rw [get?_write] at hget
  split at hget
  · cases hget
    exact ht
  · exact hb k held hget

theorem Sound.syncAll : ∀ {es : List (PatternDate × Held)} {b : Buffer}, b.Sound →
    (∀ e ∈ es, e.2.timetable.Reachable) → (syncAll p es b).1.Sound
  | [], b, hb, _ => hb
  | (key, held) :: rest, b, hb, hes => by
    have hfollow := reachable_follow p (hes _ List.mem_cons_self)
    have hmid : ∀ {b' result}, b.syncOne p key held.timetable = (b', result) → b'.Sound := by
      intro b' result hone
      have hwritten : (if (follow p held.timetable).changed then
          b.write key (follow p held.timetable).timetable else b).Sound := by
        split
        · exact hb.write hfollow key
        · exact hb
      unfold syncOne at hone
      simp only [] at hone
      split at hone
      · cases hone
        exact hwritten.write hfollow key
      · cases hone
        exact hwritten
    unfold Buffer.syncAll
    split
    · rename_i hone
      exact hmid hone
    · rename_i hone
      exact (hmid hone).syncAll fun e he => hes e (List.mem_cons_of_mem _ he)

theorem Sound.retain (hb : b.Sound) (keep : PatternDate → Bool) : (b.retain keep).Sound :=
  fun key held h => hb key held (get?_retain_eq_some_iff.mp h).1

theorem reachable_finishAll : ∀ {keys : List PatternDate} {ts ts' : Table PatternDate Held},
    finishAll keys ts = .ok ts' →
      (∀ key held, ts.get? key = some held → held.timetable.Reachable) →
        ∀ key held, ts'.get? key = some held → held.timetable.Reachable
  | [], ts, ts', h, hts => by
    cases h
    exact hts
  | first :: rest, ts, ts', h, hts => by
    unfold finishAll at h
    split at h
    · exact reachable_finishAll h hts
    · rename_i old hold
      obtain ⟨t, ht, h⟩ := Checked.bind_eq_ok_iff.mp h
      refine reachable_finishAll h fun key held hheld => ?_
      rw [Table.get?_insert] at hheld
      split at hheld
      · cases hheld
        exact (hts first old hold).step (.finished ht)
      · exact hts key held hheld

/-- **All timetables of a reachable buffer are reachable.** -/
theorem Reachable.sound (h : b.Reachable) : b.Sound := by
  induction h with
  | start recovery =>
    intro key held h
    cases h
  | @updated b b' p u _ hp h ih =>
    obtain ⟨i, times, hreconcile, rfl⟩ := update_spec h
    have hdraft : (b.draft p u.date).Reachable := by
      unfold draft Buffer.get?
      cases hheld : b.timetables.get? ⟨p.id, u.date⟩ with
      | none => exact hp.reachable.step (.dated _ _)
      | some held => exact ih _ held hheld
    exact ih.write (hdraft.step (.retimed hreconcile)) _
  | synced _ hp hes ih =>
    refine ih.syncAll fun e he => ?_
    exact ih e.1 e.2 (Table.mem_entries_iff.mp (List.mem_of_mem_filter (hes.mem_iff.mp he)))
  | patternRemoved _ pattern ih => exact ih.retain _
  | dropped _ date ih => exact ih.retain _
  | committed _ h ih =>
    obtain ⟨ts, hts, hlast⟩ := Checked.bind_eq_ok_iff.mp h
    cases hlast
    exact reachable_finishAll hts ih

/-! ## One timetable -/

/-- The timetable `t'` is `t` with the trips of the pattern, each in the publication that the
pattern has. -/
structure InLine (p : Pattern) (t t' : Timetable) : Prop where
  frame : t'.SameFrame t
  /-- Trips that stay are in their order, and all others follow in that of the pattern. -/
  trips_eq : t'.trips = t.trips.filter (fun trip => decide (trip ∈ p.trips)) ++
    p.trips.filter fun trip => decide (trip ∉ t.trips)
  /-- A trip that was there in its publication keeps its times. -/
  kept : ∀ r ∈ t.rows, ∀ x, p.published? r.tripId = some x → r.published.serial = x.serial →
    t'.row? r.tripId = some r
  /-- Any other trip of the pattern runs as published. -/
  renewed : ∀ trip x, p.published? trip = some x →
    (∀ old, t.published? trip = some old → old.serial ≠ x.serial) →
      t'.row? trip = some (Row.ofBaseline x)
  /-- Either way the trip has the publication of the pattern, if serial numbers tell publications
  apart. -/
  published : ∀ trip x, p.published? trip = some x →
    (∃ x', t'.published? trip = some x' ∧ x'.serial = x.serial) ∧
      ((∀ old, t.published? trip = some old → old.serial = x.serial → old = x) →
        t'.published? trip = some x)

/-- The publication that a pattern has of a trip. -/
theorem find?_published (p : Pattern) (trip : TripId) :
    ((p.timetable.rows.map Row.published).find? fun x => x.trip.id == trip) =
      p.published? trip := by
  rw [List.find?_map]
  rfl

theorem published?_eq_some_iff {trip : TripId} {x : Baseline} (hnodup : p.trips.Nodup) :
    p.published? trip = some x ↔ x ∈ p.timetable.rows.map Row.published ∧ x.trip.id = trip := by
  unfold Pattern.published? Timetable.published?
  rw [Option.map_eq_some_iff]
  simp only [Timetable.row?_eq_some_iff hnodup, List.mem_map]
  constructor
  · rintro ⟨r, ⟨hr, hid⟩, rfl⟩
    exact ⟨⟨r, hr, rfl⟩, hid⟩
  · rintro ⟨⟨r, hr, rfl⟩, hid⟩
    exact ⟨r, ⟨hr, hid⟩, rfl⟩

/-- A row of a trip that the pattern has, refreshed. -/
theorem refreshedBy_published {r : Row} {x : Baseline} (h : p.published? r.tripId = some x) :
    r.refreshedBy (p.timetable.rows.map Row.published) =
      if r.published.serial = x.serial then r else .ofBaseline x := by
  unfold Row.refreshedBy
  rw [find?_published, h]

theorem trips_followed (p : Pattern) (rows : List Row) :
    (followed p rows).map Row.tripId =
      (rows.map Row.tripId).filter (fun trip => decide (trip ∈ p.trips)) ++
        p.trips.filter fun trip => decide (trip ∉ rows.map Row.tripId) := by
  have hkept : (rows.filter fun r => decide (r.tripId ∈ p.trips)).map Row.tripId =
      (rows.map Row.tripId).filter fun trip => decide (trip ∈ p.trips) := by
    rw [List.filter_map]
    rfl
  have hnew : ∀ bs : List Baseline, ((bs.filter fun x =>
      decide (x.trip.id ∉ rows.map Row.tripId)).map Row.ofBaseline).map Row.tripId =
        (bs.map fun x => x.trip.id).filter fun trip => decide (trip ∉ rows.map Row.tripId) := by
    intro bs
    rw [List.filter_map, List.map_map]
    rfl
  have htrips : (p.timetable.rows.map Row.published).map (fun x => x.trip.id) = p.trips := by
    rw [List.map_map]
    rfl
  unfold followed takenUp
  rw [filter_not_mem_kept, List.map_append, tripIds_map_refreshedBy, hkept, hnew, htrips]

theorem mem_trips_of_published? {trip : TripId} {x : Baseline} (h : p.published? trip = some x) :
    trip ∈ p.trips := by
  refine Decidable.byContradiction fun hnot => ?_
  rw [published?_eq_none_iff.mpr hnot] at h
  cases h

section Follow

variable {trip : TripId} {x : Baseline}

/-- The row of a trip that the pattern has stays, or is exchanged for the publication. -/
theorem mem_rows_follow_of_mem (hp : p.Made) (ht : t.Reachable)
    (hstops : t.stops.length = p.stops.length) {r : Row} (hr : r ∈ t.rows)
    (hx : p.published? r.tripId = some x) :
    (if r.published.serial = x.serial then r else .ofBaseline x) ∈
      (follow p t).timetable.rows := by
  rw [← refreshedBy_published hx, follow_rows hp.wellFormed ht.aligned.nodup hstops]
  refine List.mem_append_left _ (List.mem_map_of_mem (List.mem_filter.mpr ⟨hr, ?_⟩))
  exact decide_eq_true (mem_trips_of_published? hx)

/-- The row of a trip that is new is that of its publication. -/
theorem mem_rows_follow_of_not_mem (hp : p.Made) (ht : t.Reachable)
    (hstops : t.stops.length = p.stops.length) (hx : p.published? trip = some x)
    (hnew : trip ∉ t.trips) : Row.ofBaseline x ∈ (follow p t).timetable.rows := by
  obtain ⟨hpublished, rfl⟩ := (published?_eq_some_iff hp.wellFormed.nodup).mp hx
  rw [follow_rows hp.wellFormed ht.aligned.nodup hstops]
  unfold followed takenUp
  rw [filter_not_mem_kept]
  refine List.mem_append_right _ (List.mem_map_of_mem (List.mem_filter.mpr ⟨hpublished, ?_⟩))
  exact decide_eq_true hnew

/-- **A timetable with as many stops as its pattern is brought in line.** -/
theorem follow_inLine (hp : p.Made) (ht : t.Reachable)
    (hstops : t.stops.length = p.stops.length) : InLine p t (follow p t).timetable := by
  have hnodup := ht.aligned.nodup
  have hnodup' := (reachable_follow p ht).aligned.nodup
  have hkept : ∀ r ∈ t.rows, ∀ x, p.published? r.tripId = some x →
      r.published.serial = x.serial → (follow p t).timetable.row? r.tripId = some r := by
    intro r hr x hx hserial
    have hrow := mem_rows_follow_of_mem hp ht hstops hr hx
    rw [if_pos hserial] at hrow
    exact (Timetable.row?_eq_some_iff hnodup').mpr ⟨hrow, rfl⟩
  have hrenewed : ∀ trip x, p.published? trip = some x →
      (∀ old, t.published? trip = some old → old.serial ≠ x.serial) →
        (follow p t).timetable.row? trip = some (Row.ofBaseline x) := by
    intro trip x hx hother
    have hid := ((published?_eq_some_iff hp.wellFormed.nodup).mp hx).2
    refine (Timetable.row?_eq_some_iff hnodup').mpr ⟨?_, hid⟩
    by_cases hthere : trip ∈ t.trips
    · obtain ⟨r, hr, rfl⟩ := Timetable.mem_trips_iff.mp hthere
      have hold : t.published? r.tripId = some r.published :=
        congrArg (Option.map Row.published) ((Timetable.row?_eq_some_iff hnodup).mpr ⟨hr, rfl⟩)
      have hrow := mem_rows_follow_of_mem hp ht hstops hr hx
      rw [if_neg (hother _ hold)] at hrow
      exact hrow
    · exact mem_rows_follow_of_not_mem hp ht hstops hx hthere
  refine ⟨(follow_frame hp.wellFormed hstops).2, ?_, hkept, hrenewed, fun trip x hx => ?_⟩
  · unfold Timetable.trips
    rw [follow_rows hp.wellFormed hnodup hstops, trips_followed]
  · unfold Timetable.published?
    by_cases hsame : ∃ old, t.published? trip = some old ∧ old.serial = x.serial
    · obtain ⟨old, hold, hserial⟩ := hsame
      obtain ⟨r, hrow, rfl⟩ := Option.map_eq_some_iff.mp hold
      obtain ⟨hr, rfl⟩ := (Timetable.row?_eq_some_iff hnodup).mp hrow
      rw [hkept r hr x hx hserial]
      exact ⟨⟨r.published, rfl, hserial⟩, fun hid => congrArg some (hid _ hold hserial)⟩
    · rw [hrenewed trip x hx fun old hold hserial => hsame ⟨old, hold, hserial⟩]
      exact ⟨⟨x, rfl, rfl⟩, fun _ => rfl⟩

end Follow

/-! ## Changes -/

/-- A timetable of the trips that the pattern has, in its publications, is in line already. -/
theorem follow_of_publishes (hgone : ∀ trip ∈ t.trips, trip ∈ p.trips)
    (hpublishes : ∀ x ∈ p.timetable.rows.map Row.published, publishes t x = true) :
    follow p t = ⟨t, false, none⟩ := by
  have hnone : t.trips.filter (fun trip => (p.published? trip).isNone) = [] := by
    refine List.filter_eq_nil_iff.mpr fun trip htrip => ?_
    rw [Option.isNone_iff_eq_none, published?_eq_none_iff]
    exact not_not.mpr (hgone trip htrip)
  unfold follow
  rw [hnone]
  exact takeUp_of_publishes hpublishes

theorem InLine.follow_eq {t' : Timetable} (h : InLine p t t') (hp : p.Made) :
    follow p t' = ⟨t', false, none⟩ := by
  refine follow_of_publishes (fun trip htrip => ?_) fun x hx => ?_
  · rw [h.trips_eq] at htrip
    rcases List.mem_append.mp htrip with htrip | htrip
    · exact of_decide_eq_true (List.mem_filter.mp htrip).2
    · exact (List.mem_filter.mp htrip).1
  · obtain ⟨⟨x', hx', hserial⟩, -⟩ :=
      h.published _ x ((published?_eq_some_iff hp.wellFormed.nodup).mpr ⟨hx, rfl⟩)
    unfold publishes
    rw [hx']
    exact beq_iff_eq.mpr hserial

/-- **What was brought in line stays as it is.** -/
theorem follow_follow (hp : p.Made) (ht : t.Reachable)
    (hstops : t.stops.length = p.stops.length) :
    follow p (follow p t).timetable = ⟨(follow p t).timetable, false, none⟩ :=
  (follow_inLine hp ht hstops).follow_eq hp

/-- **A change is reported exactly if there is one.** -/
theorem follow_changed_iff (hp : p.Made) (ht : t.Reachable)
    (hstops : t.stops.length = p.stops.length) :
    (follow p t).changed = true ↔ (follow p t).timetable ≠ t := by
  constructor
  · intro hchanged hsame
    have htwice := follow_follow hp ht hstops
    rw [hsame] at htwice
    rw [htwice] at hchanged
    cases hchanged
  · intro hne
    refine Decidable.byContradiction fun hnot => hne ?_
    exact follow_of_not_changed (Bool.eq_false_iff.mpr hnot)

/-! ## The buffer -/

/-- The answer tells whether any of the timetables changed. -/
theorem changed_of_syncAll : ∀ {es : List (PatternDate × Held)} {b b' : Buffer} {changed : Bool},
    syncAll p es b = (b', .ok changed) →
      changed = es.any fun e => (follow p e.2.timetable).changed
  | [], _, _, _, h => by
    cases h
    rfl
  | (key, held) :: rest, b, b', changed, h => by
    unfold syncAll at h
    split at h
    · cases h
    · rename_i mid first hone
      have hfirst : first = (follow p held.timetable).changed := by
        unfold syncOne at hone
        simp only [] at hone
        split at hone
        · cases hone
        · cases hone
          rfl
      rcases hrest : syncAll p rest mid with ⟨last, _ | changed'⟩
      · rw [hrest] at h
        cases h
      · rw [hrest] at h
        cases h
        rw [List.any_cons, ← changed_of_syncAll hrest, hfirst]

/-- The buffer `b'` is `b` with the timetables of a pattern in line with it. -/
structure Synced (p : Pattern) (b b' : Buffer) (changed : Bool) : Prop where
  /-- Other patterns have the very timetables that they had. -/
  others : ∀ pattern date, pattern ≠ p.id →
    b'.timetables.get? ⟨pattern, date⟩ = b.timetables.get? ⟨pattern, date⟩
  inLine : ∀ date, Option.Rel (InLine p) (b.get? p.id date) (b'.get? p.id date)
  /-- What is marked now, and was not before, is what changed. -/
  dirty_iff : ∀ pattern date, b'.dirty.contains ⟨pattern, date⟩ = true ↔
    b.dirty.contains ⟨pattern, date⟩ = true ∨ b'.get? pattern date ≠ b.get? pattern date
  changed_iff : changed = true ↔ ∃ pattern date, b'.get? pattern date ≠ b.get? pattern date
  removed_eq : b'.removed = b.removed
  generation_eq : b'.generation = b.generation
  recovery_eq : b'.recovery = b.recovery

theorem get?_eq_some_iff {pattern : PatternId} {date : ServiceDate} :
    b.get? pattern date = some t ↔
      ∃ held, b.timetables.get? ⟨pattern, date⟩ = some held ∧ held.timetable = t :=
  Option.map_eq_some_iff

/-- The timetables after the buffer followed a pattern. -/
theorem Follows.get?_timetable (h : Follows p (b.timetables.entries.filter fun e =>
    e.1.pattern == p.id) b b') (pattern : PatternId) (date : ServiceDate) :
    b'.get? pattern date = (b.get? pattern date).map fun t =>
      if pattern = p.id then (follow p t).timetable else t := by
  unfold Buffer.get?
  rw [h.get?_eq, Option.map_map, Option.map_map]
  congr 1
  funext held
  by_cases hid : pattern = p.id
  · simp [hid, followedHeld_timetable]
  · simp [hid]

/-- What is held changes where following a pattern reports a change. -/
theorem Follows.get?_ne_iff (h : Follows p (b.timetables.entries.filter fun e =>
    e.1.pattern == p.id) b b') (hp : p.Made) (hb : b.Sound)
    (hstops : ∀ date t, b.get? p.id date = some t → t.stops.length = p.stops.length)
    (pattern : PatternId) (date : ServiceDate) :
    b'.get? pattern date ≠ b.get? pattern date ↔ ∃ held,
      b.timetables.get? ⟨pattern, date⟩ = some held ∧ pattern = p.id ∧
        (follow p held.timetable).changed = true := by
  rw [h.get?_timetable]
  unfold Buffer.get?
  cases hheld : b.timetables.get? ⟨pattern, date⟩ with
  | none => simp
  | some held =>
    by_cases hid : pattern = p.id
    · subst hid
      have hchanged := follow_changed_iff hp (hb _ held hheld)
        (hstops date _ (get?_eq_some_iff.mpr ⟨held, hheld, rfl⟩))
      simp [hchanged]
    · simp [hid]

/-- Timetables that are in line are left alone. -/
theorem syncAll_of_follow_eq : ∀ {es : List (PatternDate × Held)},
    (∀ e ∈ es, follow p e.2.timetable = ⟨e.2.timetable, false, none⟩) →
      syncAll p es b = (b, .ok false)
  | [], _ => rfl
  | (key, held) :: rest, h => by
    have hone : b.syncOne p key held.timetable = (b, .ok false) := by
      unfold syncOne
      rw [h _ List.mem_cons_self]
      rfl
    unfold syncAll
    simp only [hone, syncAll_of_follow_eq fun e he => h e (List.mem_cons_of_mem _ he)]
    rfl

section Synced

variable {changed : Bool} (hp : p.Made) (hb : b.Sound)
  (hstops : ∀ date t, b.get? p.id date = some t → t.stops.length = p.stops.length)

include hp hb hstops

theorem inLine_of_held {date : ServiceDate} {held : Held}
    (hheld : b.timetables.get? ⟨p.id, date⟩ = some held) :
    InLine p held.timetable (follow p held.timetable).timetable :=
  follow_inLine hp (hb _ held hheld) (hstops date _ (get?_eq_some_iff.mpr ⟨held, hheld, rfl⟩))

/-- A buffer that followed a pattern is in line with it. -/
theorem Follows.synced (h : Follows p (b.timetables.entries.filter fun e =>
    e.1.pattern == p.id) b b') (hsync : b.sync p = (b', .ok changed)) : Synced p b b' changed := by
  have hchanges := h.get?_ne_iff hp hb hstops
  refine ⟨fun pattern date hne => ?_, fun date => ?_, fun pattern date => ?_, ?_, h.removed_eq,
    h.generation_eq, h.recovery_eq⟩
  · rw [h.get?_eq]
    simp [hne]
  · rw [h.get?_timetable]
    unfold Buffer.get?
    cases hheld : b.timetables.get? ⟨p.id, date⟩ with
    | none => exact .none
    | some held =>
      rw [Option.map_some, Option.map_some, if_pos rfl]
      exact .some (inLine_of_held hp hb hstops hheld)
  · rw [h.dirty_iff, hchanges]
  · rw [changed_of_syncAll hsync, List.any_eq_true]
    constructor
    · rintro ⟨⟨⟨pattern, date⟩, held⟩, he, hchanged⟩
      obtain ⟨hmem, hid⟩ := List.mem_filter.mp he
      exact ⟨pattern, date, (hchanges pattern date).mpr
        ⟨held, Table.mem_entries_iff.mp hmem, beq_iff_eq.mp hid, hchanged⟩⟩
    · rintro ⟨pattern, date, hne⟩
      obtain ⟨held, hheld, hid, hchanged⟩ := (hchanges pattern date).mp hne
      exact ⟨(⟨pattern, date⟩, held), List.mem_filter.mpr
        ⟨Table.mem_entries_iff.mpr hheld, beq_iff_eq.mpr hid⟩, hchanged⟩

/-- What is held after that was brought in line, so nothing is left to do. -/
theorem Follows.sync_again (h : Follows p (b.timetables.entries.filter fun e =>
    e.1.pattern == p.id) b b') : b'.sync p = (b', .ok false) := by
  refine syncAll_of_follow_eq fun e he => ?_
  obtain ⟨⟨pattern, date⟩, held'⟩ := e
  obtain ⟨hmem, hid⟩ := List.mem_filter.mp he
  obtain rfl : pattern = p.id := beq_iff_eq.mp hid
  have hheld' := Table.mem_entries_iff.mp hmem
  rw [h.get?_eq] at hheld'
  obtain ⟨held, hheld, heq⟩ := Option.map_eq_some_iff.mp hheld'
  rw [if_pos rfl] at heq
  rw [← heq, followedHeld_timetable]
  exact (inLine_of_held hp hb hstops hheld).follow_eq hp

end Synced

/-- **The timetables of a pattern are brought in line with it, and nothing else changes.** They have
the trips of the pattern in its publications: a trip that was there in its publication keeps its
times, and any other runs as published. Trips that stay are in their order, and new ones follow in
that of the pattern. Other patterns keep their timetables, what changed is marked, and the answer
tells whether anything did. The second time nothing changes. -/
theorem sync_brings_in_line (hb : b.Reachable) (hp : p.Made)
    (hstops : ∀ date t, b.get? p.id date = some t → t.stops.length = p.stops.length) :
    ∃ b' changed, b.sync p = (b', .ok changed) ∧ Synced p b b' changed ∧
      b'.sync p = (b', .ok false) := by
  have hsound := hb.sound
  have hsame : ∀ key held, b.timetables.get? key = some held → key.pattern = p.id →
      held.timetable.stops.length = p.stops.length := by
    rintro ⟨pattern, date⟩ held hheld rfl
    exact hstops date _ (get?_eq_some_iff.mpr ⟨held, hheld, rfl⟩)
  obtain ⟨b', changed, hsync, hfollows⟩ := sync_follows hp.wellFormed hsame
  exact ⟨b', changed, hsync, hfollows.synced hp hsound hstops hsync,
    hfollows.sync_again hp hsound hstops⟩

/-! ## A trip joins a late one -/

section Joined

open TripTimes Timetable Publisher

/-- The late trip is put off. -/
def putOff : Buffer := ((start 1000 .standard).predicted 230).buffer

/-- The timetable of the day with the late trip put off. -/
def lateHeld : Timetable :=
  { plannedTimetable.forDate (lateNews ⟨"a", "z"⟩ 2 230).date with
    rows := [⟨lateTrip, lateTimes⟩] }

/-- When the other trip joins its pattern, the late trip stays late. -/
theorem sync_brings_in_line_otherTrip : putOff.Reachable ∧
    ∃ p, (latePattern.withTrip otherTrip).run = .ok (.ok p) ∧
      ∃ b changed, putOff.sync p = (b, .ok changed) ∧ b.sync p = (b, .ok false) ∧
        ∃ t, b.get? p.id (lateNews ⟨"a", "z"⟩ 2 230).date = some t ∧
          t.trips = [lateTrip.trip.id, otherTrip.trip.id] ∧
          t.current? lateTrip.trip.id = some lateTimes ∧
          t.current? otherTrip.trip.id = some (.scheduled otherTrip) := by
  have hupdate : ((Buffer.empty .standard).update latePattern (lateNews ⟨"a", "z"⟩ 2 230)).run =
      .ok (.ok putOff) := rfl
  have hreachable : putOff.Reachable := .updated (.start .standard) made_latePattern hupdate
  obtain ⟨p, hp⟩ := made_latePattern.wellFormed.exists_withTrip (b := otherTrip) rfl
  obtain ⟨p', ⟨⟩, hrevises, hrows⟩ := Pattern.withTrip_spec (by rfl) (by decide) hp
  have hid : p.id = ⟨0⟩ := hrevises.id_eq
  have hheld : putOff.get? p.id (lateNews ⟨"a", "z"⟩ 2 230).date = some lateHeld := by
    rw [hid]
    rfl
  have honly : putOff.timetables.values.map Held.timetable = [lateHeld] := rfl
  obtain ⟨b, changed, hsync, hsynced, hagain⟩ := sync_brings_in_line hreachable
    (.withTrip made_latePattern hp) fun date t ht => by
      obtain ⟨held, hget, rfl⟩ := get?_eq_some_iff.mp ht
      have hmem : held.timetable ∈ putOff.timetables.values.map Held.timetable :=
        List.mem_map_of_mem (List.mem_map_of_mem (Table.mem_entries_iff.mpr hget))
      rw [honly, List.mem_singleton] at hmem
      rw [hmem, hrevises.stops_eq]
      rfl
  have hrel := hsynced.inLine (lateNews ⟨"a", "z"⟩ 2 230).date
  rw [hheld] at hrel
  cases hafter : b.get? p.id (lateNews ⟨"a", "z"⟩ 2 230).date with
  | none =>
    rw [hafter] at hrel
    cases hrel
  | some t =>
    rw [hafter] at hrel
    cases hrel with
    | some hinLine =>
      have htrips : p.trips = [lateTrip.trip.id, otherTrip.trip.id] := Pattern.trips_withTrip hrows
      have hpublished : ∀ x ∈ [lateTrip, otherTrip], p.published? x.trip.id = some x := by
        intro x hx
        unfold Pattern.published? Timetable.published? Timetable.row?
        rw [hrows]
        simp only [List.mem_cons, List.not_mem_nil, or_false] at hx
        rcases hx with rfl | rfl <;> rfl
      refine ⟨hreachable, p, hp, b, changed, hsync, hagain, t, hafter, ?_, ?_, ?_⟩
      · rw [hinLine.trips_eq, htrips]
        rfl
      · exact congrArg (Option.map Row.current) (hinLine.kept ⟨lateTrip, lateTimes⟩
          (List.mem_singleton.mpr rfl) lateTrip (hpublished _ (by simp)) rfl)
      · exact congrArg (Option.map Row.current) (hinLine.renewed otherTrip.trip.id otherTrip
          (hpublished _ (by simp)) fun old hold => by cases hold)

end Joined

end Buffer

end LiveTimetable
