import LiveTimetable.Proofs.Publication.Tracking
import LiveTimetable.Proofs.Timetable.Exchanges

/-!
# Edits of the buffer

An update edits the buffer for one trip. The trip gets other times on one date, or it goes from all
timetables of its pattern. Such edits leave the times of all other trips alone, and edits for
different trips can be exchanged.

* `Buffer.retime`, `Buffer.strike`: the two edits. The third one, `Buffer.removePattern`, is for the
  last trip of a pattern.
* `Buffer.update_run_eq`: an update reads the current times of its trip, and is the first edit.
* `Buffer.sync_eq_strike`: to follow a pattern that lost a trip is the second edit.
* `Buffer.current?_resolve_retime`, `Buffer.current?_resolve_strike`: the times of other trips.
* `Buffer.retime_comm`, `Buffer.strike_comm`, `Buffer.strike_retime`: two edits, in either order.
-/

namespace LiveTimetable

namespace Buffer

/-! ## The edits -/

/-- The buffer with other times for a trip of a pattern on a date. -/
def retime (b : Buffer) (p : Pattern) (date : ServiceDate) (trip : TripId) (times : TripTimes) :
    Buffer :=
  b.write ⟨p.id, date⟩ ((b.draft p date).retime trip times)

/-- The buffer without a trip in the timetables of its pattern, all of which are marked. -/
def strike (b : Buffer) (pattern : PatternId) (trip : TripId) : Buffer :=
  { b with
    timetables := b.timetables.map fun key held =>
      if key.pattern = pattern then ⟨held.timetable.strike trip, b.generation⟩ else held
    dirty := ((b.timetables.filter fun key _ => key.pattern == pattern).map
      fun _ _ => ()).entries.foldl (fun dirty e => dirty.insert e.1 e.2) b.dirty }

variable {b b' : Buffer} {p p' q : Pattern} {u : TripUpdate} {key : PatternDate}
  {pattern pattern' : PatternId} {trip other : TripId} {date date' : ServiceDate}
  {times times' : TripTimes}

/-- A buffer is determined by what it holds, by its marks and by its counters. -/
theorem ext_get? (htimetables : ∀ key, b.timetables.get? key = b'.timetables.get? key)
    (hdirty : ∀ key, b.dirty.contains key = true ↔ b'.dirty.contains key = true)
    (hremoved : b.removed = b'.removed) (hgeneration : b.generation = b'.generation)
    (hrecovery : b.recovery = b'.recovery) : b = b' := by
  have htables : b.timetables = b'.timetables := Table.ext_get? htimetables
  have hmarks : b.dirty = b'.dirty := by
    refine Table.ext_get? fun key => ?_
    have hkey := hdirty key
    unfold Table.contains at hkey
    cases hb : b.dirty.get? key with
    | none =>
      rw [hb] at hkey
      exact (Option.not_isSome_iff_eq_none.mp fun h => Bool.false_ne_true (hkey.mpr h)).symm
    | some =>
      rw [hb] at hkey
      obtain ⟨_, hb'⟩ := Option.isSome_iff_exists.mp (hkey.mp rfl)
      exact hb'.symm
  obtain ⟨_, _, _, _, _⟩ := b
  obtain ⟨_, _, _, _, _⟩ := b'
  cases htables
  cases hmarks
  cases hremoved
  cases hgeneration
  cases hrecovery
  rfl

theorem get?_retime (b : Buffer) (p : Pattern) (date : ServiceDate) (trip : TripId)
    (times : TripTimes) (key : PatternDate) :
    (b.retime p date trip times).timetables.get? key = if key = ⟨p.id, date⟩ then
      some ⟨(b.draft p date).retime trip times, b.generation⟩ else b.timetables.get? key :=
  get?_write ..

theorem contains_retime : (b.retime p date trip times).timetables.contains key = true ↔
    key = ⟨p.id, date⟩ ∨ b.timetables.contains key = true :=
  Table.contains_insert ..

theorem contains_dirty_retime : (b.retime p date trip times).dirty.contains key = true ↔
    key = ⟨p.id, date⟩ ∨ b.dirty.contains key = true :=
  contains_dirty_write

theorem get?_strike (b : Buffer) (pattern : PatternId) (trip : TripId) (key : PatternDate) :
    (b.strike pattern trip).timetables.get? key = (b.timetables.get? key).map fun held =>
      if key.pattern = pattern then ⟨held.timetable.strike trip, b.generation⟩ else held :=
  Table.get?_map ..

theorem contains_strike (b : Buffer) (pattern : PatternId) (trip : TripId) (key : PatternDate) :
    (b.strike pattern trip).timetables.contains key = b.timetables.contains key := by
  unfold Table.contains
  rw [get?_strike, Option.isSome_map]

theorem contains_dirty_strike : (b.strike pattern trip).dirty.contains key = true ↔
    b.dirty.contains key = true ∨
      key.pattern = pattern ∧ b.timetables.contains key = true := by
  unfold strike
  rw [Table.contains_foldl_insert, or_comm]
  refine or_congr_right ?_
  simp only [Table.mem_entries_iff, Table.get?_map, Table.get?_filter, Option.map_eq_some_iff,
    Option.filter_eq_some_iff, beq_iff_eq, Table.contains, Option.isSome_iff_exists]
  constructor
  · rintro ⟨_, held, ⟨hheld, hkey⟩, -⟩
    exact ⟨hkey, held, hheld⟩
  · rintro ⟨hkey, held, hheld⟩
    exact ⟨(), held, ⟨hheld, hkey⟩, trivial⟩

theorem get?_removePattern (b : Buffer) (pattern : PatternId) (key : PatternDate) :
    (b.removePattern pattern).timetables.get? key =
      if key.pattern = pattern then none else b.timetables.get? key := by
  unfold removePattern
  rw [get?_retain]
  by_cases hkey : key.pattern = pattern
  · rw [if_pos hkey, hkey, bne_self_eq_false]
    cases b.timetables.get? key <;> rfl
  · rw [if_neg hkey, bne_iff_ne.mpr hkey]
    cases b.timetables.get? key <;> rfl

theorem contains_removePattern : (b.removePattern pattern).timetables.contains key = true ↔
    key.pattern ≠ pattern ∧ b.timetables.contains key = true := by
  unfold Table.contains
  rw [get?_removePattern]
  split
  · rename_i hkey
    exact iff_of_false Bool.false_ne_true fun h => h.1 hkey
  · rename_i hkey
    exact (and_iff_right hkey).symm

theorem contains_dirty_removePattern : (b.removePattern pattern).dirty.contains key = true ↔
    b.dirty.contains key = true ∧ key.pattern ≠ pattern := by
  unfold removePattern
  rw [contains_dirty_retain, bne_iff_ne]

theorem removed_removePattern : (b.removePattern pattern).removed = true ↔ b.removed = true ∨
    ∃ key : PatternDate, key.pattern = pattern ∧ b.timetables.contains key = true := by
  unfold removePattern retain
  rw [Bool.or_eq_true, List.any_eq_true]
  refine or_congr_right (exists_congr fun key => ?_)
  rw [Table.mem_keys_iff, ← Option.isSome_iff_exists, and_comm, Bool.not_eq_true',
    bne_eq_false_iff_eq]
  rfl

/-- A draft has the rows by which the pattern runs. -/
theorem rows_draft (b : Buffer) (p : Pattern) (date : ServiceDate) :
    (b.draft p date).rows = (b.resolve p date).rows := by
  unfold draft resolve
  cases b.get? p.id date <;> rfl

theorem current?_draft (b : Buffer) (p : Pattern) (date : ServiceDate) (trip : TripId) :
    (b.draft p date).current? trip = (b.resolve p date).current? trip := by
  unfold Timetable.current? Timetable.row?
  rw [rows_draft]

/-! ## What is done to the buffer -/

/-- **An update reads the current times of its trip, and writes those that it leads to.** -/
theorem update_run_eq (hnodup : (b.resolve p u.date).trips.Nodup)
    (hbase : ∀ r ∈ (b.resolve p u.date).rows, r.current.baseline = r.published)
    (hstops : (b.draft p u.date).stops = p.stops)
    (h : (b.resolve p u.date).current? u.tripId = some times) :
    (b.update p u).run = (times.reconcile times.baseline p.stops u b.recovery).run.map
      (Except.map fun r => b.retime p u.date u.tripId r.times) := by
  have hcurrent : (b.draft p u.date).current? u.tripId = some times :=
    (b.current?_draft p u.date u.tripId).trans h
  have hnodup' : (b.draft p u.date).trips.Nodup := by
    unfold Timetable.trips at hnodup ⊢
    rwa [rows_draft]
  rw [← rows_draft] at hbase
  obtain ⟨i, hi, hrun⟩ := Timetable.reconcile_run_eq b.recovery hbase hcurrent
  rw [update_eq, ExceptT.run_bind, hrun, hstops]
  rcases (times.reconcile times.baseline p.stops u b.recovery).run with fault | _ | r
  · rfl
  · rfl
  · show Except.ok (Except.ok (b.write _ ((b.draft p u.date).setTimes i r.times))) = _
    rw [Timetable.setTimes_eq_retime hnodup' hi]
    rfl

/-- Trips that are there in their publications are taken up already. -/
theorem takeUp_of_publishes : ∀ {bs : List Baseline} {f : Following},
    (∀ x ∈ bs, publishes f.timetable x = true) → takeUp bs f = f
  | [], _, _ => rfl
  | x :: rest, f, h => by
    rw [takeUp, if_pos (h x List.mem_cons_self)]
    exact takeUp_of_publishes fun y hy => h y (List.mem_cons_of_mem _ hy)

/-- **A timetable that follows a pattern without one of its trips loses the trip**, and nothing
else changes. -/
theorem follow_eq_strike {t : Timetable} (ht : t.Tracks key p) (hnodup : p.trips.Nodup)
    (hmem : trip ∈ p.trips) (hloses : p'.timetable.Loses p.timetable trip) :
    follow p' t = ⟨t.strike trip, true, none⟩ := by
  have hnodup' : t.trips.Nodup := ht.trips_eq ▸ hnodup
  have hgone : (t.trips.filter fun x => (p'.published? x).isNone) = [trip] := by
    have hone : t.trips.count trip = 1 :=
      List.count_eq_one_of_mem hnodup' (ht.trips_eq ▸ hmem)
    rw [← List.replicate_one, ← hone, ← List.filter_beq]
    refine List.filter_congr fun x hx => ?_
    have hmem' : x ∈ p'.trips ↔ x ≠ trip := by
      have htrips : p'.trips = p.trips.filter (· != trip) := by
        unfold Pattern.trips Timetable.trips
        rw [hloses.rows_eq, List.filter_map]
        rfl
      rw [htrips, List.mem_filter, bne_iff_ne, ← ht.trips_eq]
      exact and_iff_right hx
    rw [Bool.eq_iff_iff, Option.isNone_iff_eq_none, published?_eq_none_iff, hmem', beq_iff_eq,
      not_ne_iff]
  unfold follow
  rw [hgone]
  show takeUp _ ⟨t.remove trip, true, none⟩ = _
  rw [Timetable.remove_eq_strike hnodup' (ht.trips_eq ▸ hmem)]
  refine takeUp_of_publishes fun x hx => ?_
  have hstruck : (t.strike trip).trips.Nodup := by
    rw [Timetable.trips_strike]
    exact hnodup'.filter _
  rw [publishes_iff hstruck]
  obtain ⟨r, hr, rfl⟩ := List.mem_map.mp hx
  rw [hloses.rows_eq] at hr
  obtain ⟨hold, hne⟩ := List.mem_filter.mp hr
  have hpublished : r.published ∈ t.rows.map Row.published := by
    rw [ht.published_eq]
    exact List.mem_map_of_mem hold
  obtain ⟨r', hr', heq⟩ := List.mem_map.mp hpublished
  have hid : r'.tripId = r.tripId := congrArg (fun b : Baseline => b.trip.id) heq
  exact ⟨r', List.mem_filter.mpr ⟨hr', hid ▸ hne⟩, hid, congrArg Baseline.serial heq⟩

/-- **A buffer that follows a pattern without one of its trips loses the trip.** -/
theorem sync_eq_strike (hp' : p'.WellFormed) (hnodup : p.trips.Nodup) (hmem : trip ∈ p.trips)
    (hloses : p'.timetable.Loses p.timetable trip)
    (hheld : ∀ key held, b.timetables.get? key = some held → key.pattern = p'.id →
      held.timetable.Tracks key p ∧ held.timetable.stops = p'.stops) :
    ∃ changed, b.sync p' = (b.strike p'.id trip, .ok changed) := by
  obtain ⟨b', changed, hsync, hfollows⟩ := sync_follows hp' fun key held hget hkey =>
    congrArg List.length (hheld key held hget hkey).2
  suffices heq : b' = b.strike p'.id trip from ⟨changed, heq ▸ hsync⟩
  have hfollow : ∀ key held, b.timetables.get? key = some held → key.pattern = p'.id →
      follow p' held.timetable = ⟨held.timetable.strike trip, true, none⟩ :=
    fun key held hget hkey => follow_eq_strike (hheld key held hget hkey).1 hnodup hmem hloses
  refine ext_get? (fun key => ?_) (fun key => ?_) hfollows.removed_eq hfollows.generation_eq
    hfollows.recovery_eq
  · rw [hfollows.get?_eq, get?_strike]
    cases hget : b.timetables.get? key with
    | none => rfl
    | some held =>
      simp only [Option.map_some]
      split
      · rename_i hkey
        rw [followedHeld, hfollow key held hget hkey]
        rfl
      · rfl
  · rw [hfollows.dirty_iff, contains_dirty_strike]
    refine or_congr_right ?_
    constructor
    · rintro ⟨held, hget, hkey, -⟩
      exact ⟨hkey, Option.isSome_iff_exists.mpr ⟨held, hget⟩⟩
    · rintro ⟨hkey, hheld⟩
      obtain ⟨held, hget⟩ := Option.isSome_iff_exists.mp hheld
      exact ⟨held, hget, hkey, by rw [hfollow key held hget hkey]⟩

/-! ## Other trips -/

/-- An edit on a date leaves other trips alone, and the trip itself on other dates. -/
theorem current?_resolve_retime (hsame : q.id = p.id → q = p) (hne : other ≠ trip ∨ date' ≠ date) :
    ((b.retime p date trip times).resolve q date').current? other =
      (b.resolve q date').current? other := by
  by_cases hkey : (⟨q.id, date'⟩ : PatternDate) = ⟨p.id, date⟩
  · obtain ⟨hid, rfl⟩ := PatternDate.mk.inj hkey
    obtain rfl := hsame hid
    have hother : other ≠ trip := hne.resolve_right fun h => h rfl
    have hget : (b.retime q date' trip times).resolve q date' =
        (b.draft q date').retime trip times := by
      unfold resolve get?
      rw [get?_retime, if_pos rfl]
      rfl
    rw [hget, Timetable.current?_retime_of_ne hother, current?_draft]
  · unfold resolve get?
    rw [get?_retime, if_neg hkey]

/-- Without a trip a pattern runs as before for all others. -/
theorem current?_resolve_strike (hid : p'.id = p.id) (hloses : p'.timetable.Loses p.timetable trip)
    (hne : other ≠ trip) :
    ((b.strike p.id trip).resolve p' date).current? other =
      (b.resolve p date).current? other := by
  unfold resolve get?
  rw [get?_strike, hid]
  cases b.timetables.get? ⟨p.id, date⟩ with
  | none => exact hloses.current?_eq hne
  | some held =>
    simp only [Option.map_some, if_pos, Option.getD_some]
    exact Timetable.current?_strike_of_ne hne

/-- Other patterns run as before. -/
theorem resolve_strike_of_ne (hne : p.id ≠ pattern) :
    (b.strike pattern trip).resolve p date = b.resolve p date := by
  unfold resolve get?
  rw [get?_strike]
  simp only [if_neg hne, Option.map_id']

theorem resolve_removePattern_of_ne (hne : p.id ≠ pattern) :
    (b.removePattern pattern).resolve p date = b.resolve p date := by
  unfold resolve get?
  rw [get?_removePattern, if_neg hne]

/-! ## Two edits -/

theorem draft_retime (hsame : q.id = p.id → q = p) :
    (b.retime p date trip times).draft q date' =
      if (⟨q.id, date'⟩ : PatternDate) = ⟨p.id, date⟩ then (b.draft p date).retime trip times
      else b.draft q date' := by
  split
  · rename_i hkey
    obtain ⟨hid, rfl⟩ := PatternDate.mk.inj hkey
    obtain rfl := hsame hid
    show (((b.retime q date' trip times).timetables.get? _).map Held.timetable).getD _ = _
    rw [get?_retime, if_pos rfl]
    rfl
  · rename_i hkey
    unfold draft get?
    rw [get?_retime, if_neg hkey]

/-- **Other times for two trips**, in either order. -/
theorem retime_comm (hsame : q.id = p.id → q = p) (hne : trip ≠ other) :
    (b.retime p date trip times).retime q date' other times' =
      (b.retime q date' other times').retime p date trip times := by
  refine ext_get? (fun key => ?_) (fun key => ?_) rfl rfl rfl
  · rw [get?_retime, get?_retime, get?_retime, get?_retime, draft_retime hsame,
      draft_retime fun h => (hsame h.symm).symm]
    by_cases hkeys : (⟨q.id, date'⟩ : PatternDate) = ⟨p.id, date⟩
    · obtain ⟨hid, rfl⟩ := PatternDate.mk.inj hkeys
      obtain rfl := hsame hid
      rw [if_pos rfl, if_pos rfl, Timetable.retime_comm hne]
      split <;> rfl
    · rw [if_neg hkeys, if_neg (Ne.symm hkeys)]
      by_cases hkey : key = ⟨p.id, date⟩
      · rw [if_pos hkey, if_pos hkey, if_neg fun h => hkeys (h.symm.trans hkey)]
        rfl
      · rw [if_neg hkey, if_neg hkey]
        rfl
  · rw [contains_dirty_retime, contains_dirty_retime, contains_dirty_retime,
      contains_dirty_retime, or_left_comm]

/-- **Two trips that go**, in either order. -/
theorem strike_comm : (b.strike pattern trip).strike pattern' other =
    (b.strike pattern' other).strike pattern trip := by
  refine ext_get? (fun key => ?_) (fun key => ?_) rfl rfl rfl
  · rw [get?_strike, get?_strike, get?_strike, get?_strike]
    cases b.timetables.get? key with
    | none => rfl
    | some held =>
      by_cases hkey : key.pattern = pattern <;> by_cases hkey' : key.pattern = pattern'
      · simp only [Option.map_some, if_pos hkey, if_pos hkey', Timetable.strike_comm]
        rfl
      · simp only [Option.map_some, if_pos hkey, if_neg hkey']
        rfl
      · simp only [Option.map_some, if_neg hkey, if_pos hkey']
        rfl
      · simp only [Option.map_some, if_neg hkey, if_neg hkey']
  · simp only [contains_dirty_strike, contains_strike]
    rw [or_right_comm]

theorem contains_dirty_strike_retime (hid : p'.id = p.id) :
    ((b.retime p date other times).strike pattern trip).dirty.contains key = true ↔
      ((b.strike pattern trip).retime p' date other times).dirty.contains key = true := by
  rw [contains_dirty_strike, contains_dirty_retime, contains_dirty_retime, contains_dirty_strike,
    contains_retime, hid]
  by_cases hkey : key = ⟨p.id, date⟩
  · simp [hkey]
  · simp [hkey]

/-- **Other times for a trip, and another trip of its pattern that goes**, in either order. -/
theorem strike_retime (hid : p'.id = p.id) (hloses : p'.timetable.Loses p.timetable trip) :
    (b.retime p date other times).strike p.id trip =
      (b.strike p.id trip).retime p' date other times := by
  have hdraft : ((b.strike p.id trip).draft p' date).retime other times =
      ((b.draft p date).retime other times).strike trip := by
    unfold draft get?
    rw [get?_strike, hid]
    cases b.timetables.get? ⟨p.id, date⟩ with
    | none => exact hloses.retime_forDate
    | some held =>
      simp only [Option.map_some, if_pos, Option.getD_some]
      exact Timetable.strike_retime.symm
  refine ext_get? (fun key => ?_) (fun _ => contains_dirty_strike_retime hid) rfl rfl rfl
  rw [get?_strike, get?_retime, get?_retime, get?_strike, hdraft, hid]
  by_cases hkey : key = ⟨p.id, date⟩
  · rw [if_pos hkey, if_pos hkey, hkey]
    exact congrArg some (if_pos rfl)
  · rw [if_neg hkey, if_neg hkey]
    rfl

theorem strike_retime_of_ne (hne : p.id ≠ pattern) :
    (b.retime p date other times).strike pattern trip =
      (b.strike pattern trip).retime p date other times := by
  have hdraft : (b.strike pattern trip).draft p date = b.draft p date := by
    unfold draft get?
    rw [get?_strike]
    simp only [if_neg hne, Option.map_id']
  refine ext_get? (fun key => ?_) (fun _ => contains_dirty_strike_retime rfl) rfl rfl rfl
  rw [get?_strike, get?_retime, get?_retime, get?_strike, hdraft]
  by_cases hkey : key = ⟨p.id, date⟩
  · rw [if_pos hkey, if_pos hkey, hkey]
    exact congrArg some (if_neg hne)
  · rw [if_neg hkey, if_neg hkey]
    rfl

/-! ### The last trip of a pattern -/

/-- What is taken out does not matter any more. -/
theorem removePattern_strike : (b.strike pattern trip).removePattern pattern =
    b.removePattern pattern := by
  refine ext_get? (fun key => ?_) (fun key => ?_) (Bool.eq_iff_iff.mpr ?_) rfl rfl
  · rw [get?_removePattern, get?_removePattern, get?_strike]
    by_cases hkey : key.pattern = pattern
    · rw [if_pos hkey, if_pos hkey]
    · simp only [if_neg hkey, Option.map_id']
  · rw [contains_dirty_removePattern, contains_dirty_removePattern, contains_dirty_strike]
    refine and_congr_left fun hkey => ?_
    simp [hkey]
  · rw [removed_removePattern, removed_removePattern]
    simp only [contains_strike]
    rfl

theorem removePattern_strike_of_ne (hne : pattern' ≠ pattern) :
    (b.strike pattern trip).removePattern pattern' =
      (b.removePattern pattern').strike pattern trip := by
  refine ext_get? (fun key => ?_) (fun key => ?_) (Bool.eq_iff_iff.mpr ?_) rfl rfl
  · rw [get?_removePattern, get?_strike, get?_strike, get?_removePattern]
    split <;> rfl
  · rw [contains_dirty_strike, contains_dirty_removePattern, contains_dirty_removePattern,
      contains_dirty_strike, contains_removePattern]
    by_cases hkey : key.pattern = pattern
    · simp [hkey, hne.symm]
    · simp [hkey]
  · show _ ↔ (b.removePattern pattern').removed = true
    rw [removed_removePattern, removed_removePattern]
    simp only [contains_strike]
    rfl

/-- **Two patterns that go**, in either order. -/
theorem removePattern_comm : (b.removePattern pattern).removePattern pattern' =
    (b.removePattern pattern').removePattern pattern := by
  refine ext_get? (fun key => ?_) (fun key => ?_) (Bool.eq_iff_iff.mpr ?_) rfl rfl
  · rw [get?_removePattern, get?_removePattern, get?_removePattern, get?_removePattern]
    split <;> split <;> rfl
  · rw [contains_dirty_removePattern, contains_dirty_removePattern, contains_dirty_removePattern,
      contains_dirty_removePattern, and_right_comm]
  · simp only [removed_removePattern, contains_removePattern]
    by_cases heq : pattern' = pattern
    · rw [heq]
    · -- A key is of one of the patterns at most, so the other one's are found as before.
      have hother : ∀ {pattern pattern' : PatternId}, pattern' ≠ pattern →
          ((∃ key : PatternDate, key.pattern = pattern' ∧ key.pattern ≠ pattern ∧
            b.timetables.contains key = true) ↔
              ∃ key : PatternDate, key.pattern = pattern' ∧ b.timetables.contains key = true) :=
        fun hne => exists_congr fun key => and_congr_right fun hkey =>
          and_iff_right fun h => hne (hkey.symm.trans h)
      rw [hother heq, hother (Ne.symm heq), or_right_comm]

/-- **Other times for a trip, and another pattern that goes**, in either order. -/
theorem removePattern_retime (hne : p.id ≠ pattern) :
    (b.retime p date trip times).removePattern pattern =
      (b.removePattern pattern).retime p date trip times := by
  have hdraft : (b.removePattern pattern).draft p date = b.draft p date := by
    unfold draft get?
    rw [get?_removePattern, if_neg hne]
  refine ext_get? (fun key => ?_) (fun key => ?_) (Bool.eq_iff_iff.mpr ?_) rfl rfl
  · rw [get?_removePattern, get?_retime, get?_retime, get?_removePattern, hdraft]
    by_cases hkey : key = ⟨p.id, date⟩
    · rw [if_pos hkey, if_pos hkey, hkey]
      exact if_neg hne
    · rw [if_neg hkey, if_neg hkey]
  · rw [contains_dirty_removePattern, contains_dirty_retime, contains_dirty_retime,
      contains_dirty_removePattern]
    by_cases hkey : key = ⟨p.id, date⟩
    · simp [hkey, hne]
    · simp [hkey]
  · show _ ↔ (b.removePattern pattern).removed = true
    rw [removed_removePattern, removed_removePattern]
    refine or_congr_right (exists_congr fun key => and_congr_right fun hkey => ?_)
    rw [contains_retime]
    refine or_iff_right ?_
    rintro rfl
    exact hne hkey

end Buffer

end LiveTimetable
