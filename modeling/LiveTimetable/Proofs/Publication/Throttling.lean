import LiveTimetable.Proofs.Network.Making
import LiveTimetable.Proofs.Publication.Following
import LiveTimetable.Proofs.Timetable.Lookups

/-!
# Throttling loses nothing

The buffer knows which of its timetables were written to and whether any was taken out. That is
enough to tell what the published snapshot does not show yet: a key that is not marked has in the
snapshot what it has in the buffer, as long as nothing was taken out.

* `Buffer.Tidy`: timetables can be read, and those that are not marked are finished.
* `Buffer.Writes.edits`: what a write to a tidy buffer does, as far as publication is concerned.
* `Buffer.Tidy.commit_eq`: a commit of a tidy buffer succeeds and shows what the buffer holds.
* `Publisher.Run`: a publisher after writes and calls, with the number of snapshots that it cut.
* `Publisher.throttling_loses_nothing`: what a call publishes, and what is held back until then.
-/

namespace LiveTimetable

theorem Table.contains_eq_false_of_isEmpty {K V : Type} [Ord K] {t : Table K V}
    (h : t.isEmpty = true) (k : K) : t.contains k = false := by
  unfold isEmpty at h
  unfold contains get?
  rw [List.isEmpty_iff.mp h]
  rfl

namespace Timetable

variable {t t' : Timetable}

/-- A finished timetable is not finished again. -/
theorem finish_eq_self (h : t.isFinished = true) : t.finish = .ok t := by
  unfold isFinished at h
  unfold finish
  obtain ⟨index, hindex⟩ := Option.isSome_iff_exists.mp h
  rw [hindex]

/-- The timetable with its stop index, if that can be built. -/
def finished (t : Timetable) : Timetable := t.finish.toOption.getD t

theorem Intact.finish_eq (ht : t.Intact) : t.finish = .ok t.finished := by
  obtain ⟨t', ht'⟩ := ht.exists_finish
  rw [finished, ht']
  rfl

theorem Intact.finished_finished (ht : t.Intact) : t.finished.finished = t.finished := by
  have hagain := finish_eq_self (isFinished_of_finish ht.finish_eq)
  rw [finished, hagain]
  rfl

end Timetable

namespace Buffer

/-- What the buffer holds can be read, what is marked is held, and what is held and not marked is
finished. -/
structure Tidy (b : Buffer) : Prop where
  intact : ∀ key held, b.timetables.get? key = some held → held.timetable.Intact
  held : ∀ key, b.dirty.contains key = true → ∃ held, b.timetables.get? key = some held
  finished : ∀ key held, b.timetables.get? key = some held → b.dirty.contains key = false →
    held.timetable.isFinished = true

/-- A write to the buffer. The pattern that is followed has the number of stops of the timetables
that are held for it. -/
inductive Writes : Buffer → Buffer → Prop
  | updated {b b' : Buffer} {p : Pattern} {u : TripUpdate} (hp : p.Made)
      (h : (b.update p u).run = .ok (.ok b')) : Writes b b'
  | refused {b : Buffer} {p : Pattern} {u : TripUpdate} {e : ReconcileError} (hp : p.Made)
      (h : (b.update p u).run = .ok (.error e)) : Writes b b
  | synced {b : Buffer} {p : Pattern} (hp : p.Made)
      (hstops : ∀ key held, b.timetables.get? key = some held → key.pattern = p.id →
        held.timetable.stops.length = p.stops.length) : Writes b (b.sync p).1
  | removed (b : Buffer) (pattern : PatternId) : Writes b (b.removePattern pattern)
  | dropped (b : Buffer) (date : ServiceDate) : Writes b (b.dropBefore date)

/-- The tidy buffer `b'` is `b` after a write: unless something was taken out, what is not marked
is as it was. -/
structure Edits (b b' : Buffer) : Prop where
  tidy : b'.Tidy
  generation_eq : b'.generation = b.generation
  removed : b.removed = true → b'.removed = true
  unmarked : b'.removed = false → ∀ key, b'.dirty.contains key = false →
    b.dirty.contains key = false ∧ b'.timetables.get? key = b.timetables.get? key

variable {b b' : Buffer} {p : Pattern} {u : TripUpdate}

/-! ## Writes -/

/-- The timetable that an update goes to can be read. -/
theorem Tidy.intact_draft (hb : b.Tidy) (hp : p.Made) (date : ServiceDate) :
    (b.draft p date).Intact := by
  unfold draft Buffer.get?
  cases hheld : b.timetables.get? ⟨p.id, date⟩ with
  | none => exact hp.intact.forDate date
  | some held => exact hb.intact _ held hheld

theorem Tidy.updated (hb : b.Tidy) (hp : p.Made) (h : (b.update p u).run = .ok (.ok b')) :
    b.Edits b' := by
  obtain ⟨i, times, hreconcile, rfl⟩ := update_spec h
  have hunmarked : ∀ key, (b.write ⟨p.id, u.date⟩
      ((b.draft p u.date).setTimes i times)).dirty.contains key = false →
        key ≠ ⟨p.id, u.date⟩ ∧ b.dirty.contains key = false := by
    intro key hkey
    rw [Bool.eq_false_iff, ne_eq, contains_dirty_write, not_or] at hkey
    exact ⟨hkey.1, Bool.eq_false_iff.mpr hkey.2⟩
  refine ⟨⟨fun key held hget => ?_, fun key hkey => ?_, fun key held hget hkey => ?_⟩, rfl,
    fun hremoved => hremoved, fun _ key hkey => ?_⟩
  · rw [get?_write] at hget
    split at hget
    · cases hget
      exact (hb.intact_draft hp u.date).retime hreconcile
    · exact hb.intact key held hget
  · rw [get?_write]
    rcases contains_dirty_write.mp hkey with rfl | hold
    · exact ⟨_, if_pos rfl⟩
    · split
      · exact ⟨_, rfl⟩
      · exact hb.held key hold
  · obtain ⟨hne, hold⟩ := hunmarked key hkey
    rw [get?_write, if_neg hne] at hget
    exact hb.finished key held hget hold
  · obtain ⟨hne, hold⟩ := hunmarked key hkey
    exact ⟨hold, by rw [get?_write, if_neg hne]⟩

theorem Tidy.synced (hb : b.Tidy) (hp : p.Made)
    (hstops : ∀ key held, b.timetables.get? key = some held → key.pattern = p.id →
      held.timetable.stops.length = p.stops.length) : b.Edits (b.sync p).1 := by
  obtain ⟨b', changed, hsync, hfollows⟩ := sync_follows hp.wellFormed hstops
  rw [hsync]
  -- A timetable of the pattern that is not marked did not change.
  have hunmarked : ∀ key, b'.dirty.contains key = false → b.dirty.contains key = false ∧
      b'.timetables.get? key = b.timetables.get? key := by
    intro key hkey
    rw [Bool.eq_false_iff, ne_eq, hfollows.dirty_iff, not_or] at hkey
    refine ⟨Bool.eq_false_iff.mpr hkey.1, ?_⟩
    rw [hfollows.get?_eq]
    cases hheld : b.timetables.get? key with
    | none => rfl
    | some held =>
      by_cases hid : key.pattern = p.id
      · have hsame : (follow p held.timetable).changed = false := by
          refine Bool.eq_false_iff.mpr fun hchanged => hkey.2 ?_
          exact ⟨held, hheld, hid, hchanged⟩
        simp [hid, followedHeld, hsame]
      · simp [hid]
  refine ⟨⟨fun key held hget => ?_, fun key hkey => ?_, fun key held hget hkey => ?_⟩,
    hfollows.generation_eq, fun hremoved => hfollows.removed_eq.trans hremoved,
    fun _ => hunmarked⟩
  · rw [hfollows.get?_eq] at hget
    obtain ⟨old, hold, rfl⟩ := Option.map_eq_some_iff.mp hget
    split
    · unfold followedHeld
      split
      · exact intact_follow (hb.intact key old hold)
      · exact hb.intact key old hold
    · exact hb.intact key old hold
  · have hold : ∃ held, b.timetables.get? key = some held := by
      rcases (hfollows.dirty_iff key).mp hkey with hold | ⟨held, hheld, -⟩
      · exact hb.held key hold
      · exact ⟨held, hheld⟩
    obtain ⟨held, hheld⟩ := hold
    rw [hfollows.get?_eq, hheld]
    exact ⟨_, rfl⟩
  · obtain ⟨hold, hsame⟩ := hunmarked key hkey
    exact hb.finished key held (hsame ▸ hget) hold

/-- Taking timetables out. -/
theorem Tidy.retained (hb : b.Tidy) (keep : PatternDate → Bool) : b.Edits (b.retain keep) := by
  refine ⟨⟨fun key held hget => ?_, fun key hkey => ?_, fun key held hget hkey => ?_⟩, rfl,
    fun hremoved => ?_, fun hremoved key hkey => ?_⟩
  · exact hb.intact key held (get?_retain_eq_some_iff.mp hget).1
  · obtain ⟨hold, hkeep⟩ := contains_dirty_retain.mp hkey
    obtain ⟨held, hheld⟩ := hb.held key hold
    exact ⟨held, get?_retain_eq_some_iff.mpr ⟨hheld, hkeep⟩⟩
  · obtain ⟨hold, hkeep⟩ := get?_retain_eq_some_iff.mp hget
    refine hb.finished key held hold (Bool.eq_false_iff.mpr fun hmarked => ?_)
    rw [contains_dirty_retain.mpr ⟨hmarked, hkeep⟩] at hkey
    cases hkey
  · show (b.removed || _) = true
    rw [hremoved]
    rfl
  · -- Nothing was taken out, so every key that is held is kept.
    obtain ⟨-, hnone⟩ := Bool.or_eq_false_iff.mp hremoved
    have hkept : ∀ held, b.timetables.get? key = some held → keep key = true := by
      intro held hheld
      have hkey := List.any_eq_false.mp hnone key (Table.mem_keys_iff.mpr ⟨held, hheld⟩)
      simpa using hkey
    constructor
    · refine Bool.eq_false_iff.mpr fun hmarked => ?_
      obtain ⟨held, hheld⟩ := hb.held key hmarked
      rw [contains_dirty_retain.mpr ⟨hmarked, hkept held hheld⟩] at hkey
      cases hkey
    · rw [get?_retain]
      cases hheld : b.timetables.get? key with
      | none => rfl
      | some held => rw [hkept held hheld]; rfl

/-- **What a write does to a tidy buffer.** -/
theorem Writes.edits (h : b.Writes b') (hb : b.Tidy) : b.Edits b' := by
  cases h with
  | updated hp h => exact hb.updated hp h
  | refused hp h =>
    exact ⟨hb, rfl, fun hremoved => hremoved, fun _ key hkey => ⟨hkey, rfl⟩⟩
  | synced hp hstops => exact hb.synced hp hstops
  | removed pattern => exact hb.retained _
  | dropped date => exact hb.retained _

/-! ## Commits -/

/-- The listed timetables are finished, and nothing else changes. -/
theorem finishAll_eq : ∀ (keys : List PatternDate) (ts : Table PatternDate Held),
    (∀ key held, ts.get? key = some held → held.timetable.Intact) →
      ∃ ts', finishAll keys ts = .ok ts' ∧ ∀ key, ts'.get? key = (ts.get? key).map fun held =>
        if key ∈ keys then { held with timetable := held.timetable.finished } else held
  | [], ts, _ => ⟨ts, rfl, fun key => by simp⟩
  | first :: rest, ts, hintact => by
    unfold finishAll
    cases hfirst : ts.get? first with
    | none =>
      obtain ⟨ts', hts', hget'⟩ := finishAll_eq rest ts hintact
      refine ⟨ts', hts', fun key => ?_⟩
      rw [hget']
      by_cases heq : key = first
      · rw [heq, hfirst]
        rfl
      · simp [heq]
    | some old =>
      have hold := hintact first old hfirst
      have hget : ∀ key, (ts.insert first
          { old with timetable := old.timetable.finished }).get? key = if key = first then
            some { old with timetable := old.timetable.finished } else ts.get? key := fun key =>
        Table.get?_insert ..
      obtain ⟨ts', hts', hget'⟩ := finishAll_eq rest
        (ts.insert first { old with timetable := old.timetable.finished }) fun key held hheld => by
          rw [hget] at hheld
          split at hheld
          · cases hheld
            exact hold.finish hold.finish_eq
          · exact hintact key held hheld
      refine ⟨ts', ?_, fun key => ?_⟩
      · simp only [hold.finish_eq, Checked.ok_bind]
        exact hts'
      · rw [hget', hget]
        by_cases heq : key = first
        · -- Finished once more it stays as it is.
          rw [if_pos heq, heq, hfirst]
          simp [hold.finished_finished]
        · simp [heq]

end Buffer

/-- The snapshot has the keys of the buffer, and under each of them its timetable, finished. -/
def Snapshot.Shows (shown : Snapshot) (b : Buffer) : Prop :=
  ∀ key, Option.Rel (fun held now => held.timetable.finish = .ok now.timetable)
    (b.timetables.get? key) (shown.timetables.get? key)

theorem Snapshot.Shows.exists_held {shown : Snapshot} {b : Buffer} (h : shown.Shows b)
    {key : PatternDate} {now : Held} (hnow : shown.timetables.get? key = some now) :
    ∃ held, b.timetables.get? key = some held ∧ held.timetable.finish = .ok now.timetable := by
  have hrel := h key
  rw [hnow] at hrel
  cases hheld : b.timetables.get? key with
  | none =>
    rw [hheld] at hrel
    cases hrel
  | some held =>
    rw [hheld] at hrel
    cases hrel with
    | some hfinish => exact ⟨held, rfl, hfinish⟩

namespace Buffer

variable {b b' : Buffer}

/-- **A commit of a tidy buffer succeeds.** The snapshot shows the buffer, and shares what the
buffer holds from then on. -/
theorem Tidy.commit_eq (hb : b.Tidy) : ∃ ts, b.commit = .ok
      ({ b with
        timetables := ts
        generation := b.generation + 1
        dirty := Table.empty
        removed := false }, ⟨ts, b.generation + 1⟩) ∧
    Snapshot.Shows ⟨ts, b.generation + 1⟩ b := by
  obtain ⟨ts, hts, hget⟩ := finishAll_eq b.dirty.keys b.timetables hb.intact
  refine ⟨ts, ?_, fun key => ?_⟩
  · rw [commit, hts]
    rfl
  · rw [hget]
    cases hheld : b.timetables.get? key with
    | none => exact .none
    | some held =>
      refine .some ?_
      split
      · exact (hb.intact key held hheld).finish_eq
      · rename_i hmem
        refine Timetable.finish_eq_self (hb.finished key held hheld (Bool.eq_false_iff.mpr ?_))
        exact fun hmarked => hmem (Table.mem_keys_iff.mpr (Option.isSome_iff_exists.mp hmarked))

end Buffer

/-! ## The publisher -/

namespace Publisher

/-- Whether a call cuts a snapshot. -/
def cuts (s : Publisher) (now : Nat) (force : Bool) : Bool :=
  force || (s.isDue now && s.buffer.isDirty)

/-- A publisher after writes and calls in any order; `n` is the number of snapshots that it cut. -/
inductive Run (minInterval : Nat) (recovery : Recovery) : (n : Nat) → Publisher → Prop
  | start : Run minInterval recovery 0 (.start minInterval recovery)
  | wrote {n : Nat} {s : Publisher} {b : Buffer} (h : Run minInterval recovery n s)
      (hb : s.buffer.Writes b) : Run minInterval recovery n { s with buffer := b }
  | called {n now : Nat} {s s' : Publisher} {force : Bool} (h : Run minInterval recovery n s)
      (hs : s.publish now force = .ok s') :
      Run minInterval recovery (n + (s.cuts now force).toNat) s'

/-- The buffer is tidy, and the published snapshot shows what is not marked. -/
structure Sound (n : Nat) (s : Publisher) : Prop where
  buffer : s.buffer.Tidy
  written : s.buffer.generation = n
  generation : s.published.generation = n
  finished : ∀ key shown, s.published.timetables.get? key = some shown →
    shown.timetable.isFinished = true
  shown : s.buffer.removed = false → ∀ key, s.buffer.dirty.contains key = false →
    s.published.timetables.get? key = s.buffer.timetables.get? key

variable {n now minInterval : Nat} {recovery : Recovery} {s s' : Publisher} {b : Buffer}
  {force : Bool}

theorem sound_start (minInterval : Nat) (recovery : Recovery) :
    Sound 0 (.start minInterval recovery) where
  buffer :=
    { intact := fun key held h => by cases h
      held := fun key h => by cases h
      finished := fun key held h => by cases h }
  written := rfl
  generation := rfl
  finished := fun key shown h => by cases h
  shown := fun _ _ _ => rfl

theorem Sound.wrote (hs : Sound n s) (hb : s.buffer.Writes b) :
    Sound n { s with buffer := b } := by
  have hedits := hb.edits hs.buffer
  refine ⟨hedits.tidy, hedits.generation_eq.trans hs.written, hs.generation, hs.finished,
    fun hremoved key hkey => ?_⟩
  obtain ⟨hold, hsame⟩ := hedits.unmarked hremoved key hkey
  have hbefore : s.buffer.removed = false :=
    Bool.eq_false_iff.mpr fun h => by
      rw [hedits.removed h] at hremoved
      cases hremoved
  rw [hs.shown hbefore key hold]
  exact hsame.symm

/-- **A snapshot can be cut, and shows what the buffer holds.** -/
theorem Sound.cut (hs : Sound n s) (now : Nat) : ∃ s', s.cut now = .ok s' ∧ Sound (n + 1) s' ∧
    s'.published.timetables = s'.buffer.timetables ∧ s'.buffer.isDirty = false ∧
      s'.published.Shows s.buffer := by
  obtain ⟨ts, hcommit, hshows⟩ := hs.buffer.commit_eq
  rw [hs.written] at hcommit hshows
  have hfinished : ∀ key shown, ts.get? key = some shown → shown.timetable.isFinished = true := by
    intro key shown hshown
    obtain ⟨old, -, h⟩ := hshows.exists_held hshown
    exact Timetable.isFinished_of_finish h
  have htidy : Buffer.Tidy { s.buffer with
      timetables := ts, generation := n + 1, dirty := Table.empty, removed := false } :=
    { intact := fun key held hheld => by
        obtain ⟨old, hold, h⟩ := hshows.exists_held hheld
        exact (hs.buffer.intact key old hold).finish h
      held := fun key h => by cases h
      finished := fun key held hheld _ => hfinished key held hheld }
  refine ⟨_, by rw [Publisher.cut, hcommit]; rfl, ⟨htidy, rfl, rfl, hfinished, fun _ _ _ => rfl⟩,
    rfl, rfl, hshows⟩

/-- A call cuts a snapshot or does nothing. -/
theorem publish_eq (s : Publisher) (now : Nat) (force : Bool) :
    s.publish now force = if s.cuts now force then s.cut now else .ok s := rfl

theorem Sound.called (hs : Sound n s) (h : s.publish now force = .ok s') :
    Sound (n + (s.cuts now force).toNat) s' := by
  rw [publish_eq] at h
  cases hcuts : s.cuts now force with
  | true =>
    rw [hcuts, if_pos rfl] at h
    obtain ⟨s'', hcut, hs'', -⟩ := hs.cut now
    cases hcut.symm.trans h
    exact hs''
  | false =>
    rw [hcuts, if_neg Bool.false_ne_true] at h
    cases h
    exact hs

/-- **Every run keeps the publisher sound.** -/
theorem Run.sound (h : Run minInterval recovery n s) : Sound n s := by
  induction h with
  | start => exact sound_start minInterval recovery
  | wrote _ hb ih => exact ih.wrote hb
  | called _ hs ih => exact ih.called hs

/-- A snapshot shows a buffer of which nothing is marked and from which nothing was taken out. -/
theorem Sound.timetables_eq (hs : Sound n s) (h : s.buffer.isDirty = false) :
    s.published.timetables = s.buffer.timetables := by
  obtain ⟨hremoved, hempty⟩ := Bool.or_eq_false_iff.mp h
  refine Table.ext_get? fun key => hs.shown hremoved key ?_
  refine Table.contains_eq_false_of_isEmpty ?_ key
  simpa using hempty

theorem Sound.shows (hs : Sound n s) (h : s.buffer.isDirty = false) :
    s.published.Shows s.buffer := by
  have hsame := hs.timetables_eq h
  intro key
  rw [hsame]
  cases hheld : s.buffer.timetables.get? key with
  | none => exact .none
  | some held =>
    exact .some (Timetable.finish_eq_self (hs.finished key held (hsame ▸ hheld)))

/-- **Throttling loses nothing.** After writes and calls in any order all published timetables are
finished, the published snapshot is the buffer unless the buffer is dirty, and its generation is
the number of snapshots that were cut. A call that is not forced leaves the snapshot in place if
it is not due or if the buffer is clean; any other call cuts one that shows the buffer. So after
a call that is forced or due the snapshot shows all that was written before. -/
theorem throttling_loses_nothing (h : Run minInterval recovery n s) :
    (∀ key shown, s.published.timetables.get? key = some shown →
      shown.timetable.isFinished = true) ∧
    (s.buffer.isDirty = false → s.published.timetables = s.buffer.timetables) ∧
    s.published.generation = n ∧
    ∀ now force, ∃ s', s.publish now force = .ok s' ∧
      (force = false → s.isDue now = false ∨ s.buffer.isDirty = false → s' = s) ∧
      (force = true ∨ s.isDue now = true ∧ s.buffer.isDirty = true →
        s'.published.Shows s.buffer ∧ s'.published.timetables = s'.buffer.timetables ∧
          s'.buffer.isDirty = false ∧ s'.published.generation = n + 1) ∧
      (force = true ∨ s.isDue now = true → s'.published.Shows s.buffer) := by
  have hs := h.sound
  refine ⟨hs.finished, hs.timetables_eq, hs.generation, fun now force => ?_⟩
  obtain ⟨cut, hcut, hsound, hsame, hclean, hshows⟩ := hs.cut now
  cases hcuts : s.cuts now force with
  | true =>
    refine ⟨cut, by rw [publish_eq, hcuts, if_pos rfl, hcut], fun hforce hkept => ?_,
      fun _ => ⟨hshows, hsame, hclean, hsound.generation⟩, fun _ => hshows⟩
    unfold cuts at hcuts
    rcases hkept with hdue | hclean'
    · simp [hforce, hdue] at hcuts
    · simp [hforce, hclean'] at hcuts
  | false =>
    unfold cuts at hcuts
    refine ⟨s, by rw [publish_eq, cuts, hcuts, if_neg Bool.false_ne_true], fun _ _ => rfl,
      fun hcut' => ?_, fun hdue => ?_⟩
    · rcases hcut' with hforce | ⟨hdue, hdirty⟩
      · simp [hforce] at hcuts
      · simp [hdue, hdirty] at hcuts
    · rcases hdue with hforce | hdue
      · simp [hforce] at hcuts
      · simp only [hdue, Bool.true_and, Bool.or_eq_false_iff] at hcuts
        exact hs.shows hcuts.2

/-! ## A prediction that is held back -/

section HeldBack

open TripTimes

/-- The pattern of the late trip. -/
def latePattern : Pattern where
  id := ⟨0⟩
  routeId := ⟨"a", "r"⟩
  timetable :=
    { Timetable.plannedTimetable with
      rows := [.ofBaseline lateTrip]
      index := some
        { departures := [[⟨0, 0⟩], [⟨100, 0⟩], [⟨200, 0⟩]].map Passage.setOf
          arrivals := [[⟨0, 0⟩], [⟨100, 0⟩], [⟨200, 0⟩]].map Passage.setOf } }
  isTraversable := true
  isSynthesized := false
  revision := 0

theorem made_latePattern : latePattern.Made := by
  have h : (Pattern.publish ⟨0⟩ ⟨"a", "r"⟩ lateStops [lateTrip] false).run =
      .ok (.ok latePattern) := rfl
  exact .published h

/-- The publisher after a prediction for the last stop of the late trip. -/
def predicted (s : Publisher) (t : ServiceTime) : Publisher :=
  match (s.buffer.update latePattern (lateNews ⟨"a", "z"⟩ 2 t)).run with
  | .ok (.ok b) => { s with buffer := b }
  | _ => s

theorem Run.predicted (h : Run minInterval recovery n s) (t : ServiceTime) :
    Run minInterval recovery n (s.predicted t) := by
  unfold Publisher.predicted
  split
  · rename_i b hb
    exact .wrote h (.updated made_latePattern hb)
  · exact h

/-- The publisher after a call at `now`; one that met a fault counts as none. -/
def afterCall (s : Publisher) (now : Nat) (force : Bool) : Publisher :=
  match s.publish now force with
  | .ok s' => s'
  | .error _ => s

/-- The last stop is put off to 230, which goes out at once, and to 240 soon after. -/
def heldBack : Publisher := (((start 1000 .standard).predicted 230).afterCall 0 false).predicted 240

/-- When the late trip arrives at its last stop according to the snapshot, on the date of the
predictions. -/
def lateArrival? (s : Publisher) : Option ServiceTime :=
  let date := (lateNews ⟨"a", "z"⟩ 2 0).date
  ((s.published.resolve latePattern date).lastArrival 2 1000).toOption.join.map Passage.time

/-- The second prediction is held back by the call that is not due, and goes out with the next one
that is. -/
theorem throttling_loses_nothing_heldBack :
    Run 1000 .standard 1 heldBack ∧
    heldBack.isDue 999 = false ∧ heldBack.publish 999 false = .ok heldBack ∧
    heldBack.lateArrival? = some 230 ∧
    ∃ s, heldBack.publish 1000 false = .ok s ∧ s.published.generation = 2 ∧
      s.published.Shows heldBack.buffer ∧ s.lateArrival? = some 240 := by
  have hcall : ((start 1000 .standard).predicted 230).publish 0 false =
      .ok (((start 1000 .standard).predicted 230).afterCall 0 false) := rfl
  have hcut : Run 1000 .standard 1 (((start 1000 .standard).predicted 230).afterCall 0 false) :=
    .called (Run.start.predicted 230) hcall
  have hrun : Run 1000 .standard 1 heldBack := hcut.predicted 240
  have hdue : heldBack.isDue 999 = false := rfl
  obtain ⟨-, -, -, hcalls⟩ := throttling_loses_nothing hrun
  obtain ⟨s, hs, hkept, -⟩ := hcalls 999 false
  obtain ⟨s', hs', -, hpublished, -⟩ := hcalls 1000 false
  obtain ⟨hshows, -, -, hgeneration⟩ := hpublished (.inr ⟨rfl, rfl⟩)
  refine ⟨hrun, hdue, hkept rfl (.inl hdue) ▸ hs, rfl, s', hs', hgeneration, hshows, ?_⟩
  have harrival : (heldBack.publish 1000 false).toOption.bind lateArrival? = some 240 := rfl
  rw [hs'] at harrival
  exact harrival

end HeldBack

end Publisher

end LiveTimetable
