import LiveTimetable.Publication.Publisher
import LiveTimetable.Proofs.Network.Revisions

/-!
# What the buffer holds after a write

Each write to the buffer is told by what is held under a key afterwards.

* `Buffer.update_spec`: an update changes the times of one row of one timetable.
* `Buffer.follow_spec`, `Buffer.sync_spec`: a timetable that follows its pattern takes rows from it
  as published. If its stops are those of the pattern, nothing is refused.
* `Buffer.get?_retain`, `Buffer.commit_spec`: taking out, and cutting a snapshot.
-/

namespace LiveTimetable

namespace Buffer

variable {b b' : Buffer} {p : Pattern} {u : TripUpdate} {key : PatternDate}

/-! ## Updates -/

/-- The timetable by which a pattern runs on a date, as a timetable of that date. -/
def draft (b : Buffer) (p : Pattern) (date : ServiceDate) : Timetable :=
  (b.get? p.id date).getD (p.timetable.forDate date)

/-- An update writes the draft of its date, with other times for its trip. -/
theorem update_eq (b : Buffer) (p : Pattern) (u : TripUpdate) : b.update p u = (do
    let (i, times) ← (b.draft p u.date).reconcile u b.recovery
    return b.write ⟨p.id, u.date⟩ ((b.draft p u.date).setTimes i times)) := rfl

theorem update_spec (h : (b.update p u).run = .ok (.ok b')) :
    ∃ i times, ((b.draft p u.date).reconcile u b.recovery).run = .ok (.ok (i, times)) ∧
      b' = b.write ⟨p.id, u.date⟩ ((b.draft p u.date).setTimes i times) := by
  obtain ⟨⟨i, times⟩, hrec, hlast⟩ := Attempt.bind_eq_ok_iff.mp h
  cases hlast
  exact ⟨i, times, hrec, rfl⟩

theorem get?_write (b : Buffer) (key k : PatternDate) (t : Timetable) :
    (b.write key t).timetables.get? k =
      if k = key then some ⟨t, b.generation⟩ else b.timetables.get? k :=
  Table.get?_insert ..

theorem contains_dirty_write {k : PatternDate} {t : Timetable} :
    (b.write key t).dirty.contains k = true ↔ k = key ∨ b.dirty.contains k = true :=
  Table.contains_insert ..

/-! ## Following -/

/-- The pattern's trips that are taken up run as published. -/
theorem takeUp_spec {stops : List StopId} : ∀ {bs : List Baseline} {f : Following},
    (∀ x ∈ bs, x.stopCount = stops.length) → f.timetable.stops = stops → f.refusal = none →
      (takeUp bs f).refusal = none ∧ (takeUp bs f).timetable.stops = stops ∧
        ∀ r ∈ (takeUp bs f).timetable.rows, r ∈ f.timetable.rows ∨ ∃ x ∈ bs, r = Row.ofBaseline x
  | [], f, _, hstops, hnone => ⟨hnone, hstops, fun r hr => Or.inl hr⟩
  | x :: rest, f, hcount, hstops, hnone => by
    have hrest : ∀ y ∈ rest, y.stopCount = stops.length := fun y hy =>
      hcount y (List.mem_cons_of_mem _ hy)
    unfold takeUp
    split
    · obtain ⟨hr, hs, hrows⟩ := takeUp_spec hrest hstops hnone
      refine ⟨hr, hs, fun r hmem => (hrows r hmem).imp_right ?_⟩
      rintro ⟨y, hy, heq⟩
      exact ⟨y, List.mem_cons_of_mem _ hy, heq⟩
    · have hx : x.stopCount = f.timetable.stops.length := by
        rw [hstops]
        exact hcount x List.mem_cons_self
      cases hins : f.timetable.insert x with
      | error e =>
        rw [Timetable.insert_eq hx] at hins
        cases hins
      | ok t =>
        have hstops' : t.stops = stops := (Timetable.stops_of_insert hins).trans hstops
        obtain ⟨hr, hs, hrows⟩ :=
          takeUp_spec (f := { f with timetable := t, changed := true }) hrest hstops' hnone
        refine ⟨hr, hs, fun r hmem => ?_⟩
        rcases hrows r hmem with hold | ⟨y, hy, heq⟩
        · rcases Timetable.mem_rows_of_insert hins hold with hold | rfl
          · exact Or.inl hold
          · exact Or.inr ⟨x, List.mem_cons_self, rfl⟩
        · exact Or.inr ⟨y, List.mem_cons_of_mem _ hy, heq⟩

theorem foldl_remove_stops (trips : List TripId) (t : Timetable) :
    (trips.foldl Timetable.remove t).stops = t.stops := by
  induction trips generalizing t with
  | nil => rfl
  | cons trip rest ih => rw [List.foldl_cons, ih, Timetable.remove_stops]

theorem mem_rows_foldl_remove {trips : List TripId} {t : Timetable} {r : Row}
    (h : r ∈ (trips.foldl Timetable.remove t).rows) : r ∈ t.rows := by
  induction trips generalizing t with
  | nil => exact h
  | cons trip rest ih =>
    have hmem := ih h
    rw [Timetable.remove_rows] at hmem
    exact List.mem_of_mem_eraseP hmem

/-- **A timetable with the stops of its pattern follows it without being refused.** -/
theorem follow_spec (hp : p.WellFormed) {t : Timetable} (hstops : t.stops = p.stops) :
    (follow p t).refusal = none ∧ (follow p t).timetable.stops = p.stops ∧
      ∀ r ∈ (follow p t).timetable.rows, r ∈ t.rows ∨ r ∈ p.timetable.rows := by
  have hcount : ∀ x ∈ p.timetable.rows.map Row.published, x.stopCount = p.stops.length := by
    intro x hx
    obtain ⟨r, hr, rfl⟩ := List.mem_map.mp hx
    exact hp.stopCount_eq r hr
  unfold follow
  have hleft := foldl_remove_stops (t.trips.filter fun trip => (p.published? trip).isNone) t
  obtain ⟨hr, hs, hrows⟩ := takeUp_spec (f := ⟨_, _, none⟩) hcount (hleft.trans hstops) rfl
  refine ⟨hr, hs, fun r hmem => ?_⟩
  rcases hrows r hmem with hold | ⟨x, hx, rfl⟩
  · exact Or.inl (mem_rows_foldl_remove hold)
  · obtain ⟨q, hq, rfl⟩ := List.mem_map.mp hx
    rw [← hp.asPublished q hq]
    exact Or.inr hq

theorem syncOne_spec (hp : p.WellFormed) (b : Buffer) (key : PatternDate) {t : Timetable}
    (hstops : t.stops = p.stops) :
    ∃ b' changed, b.syncOne p key t = (b', .ok changed) ∧
      ∀ k held, b'.timetables.get? k = some held → b.timetables.get? k = some held ∨
        k = key ∧ held.timetable = (follow p t).timetable := by
  unfold syncOne
  simp only [(follow_spec hp hstops).1]
  refine ⟨_, _, rfl, fun k held hk => ?_⟩
  split at hk
  · rw [get?_write] at hk
    split at hk
    · rename_i heq
      cases hk
      exact Or.inr ⟨heq, rfl⟩
    · exact Or.inl hk
  · exact Or.inl hk

theorem syncAll_spec (hp : p.WellFormed) : ∀ (es : List (PatternDate × Held)) (b : Buffer),
    (∀ e ∈ es, e.2.timetable.stops = p.stops) →
      ∃ b' changed, syncAll p es b = (b', .ok changed) ∧
        ∀ k held, b'.timetables.get? k = some held → b.timetables.get? k = some held ∨
          ∃ old, (k, old) ∈ es ∧ held.timetable = (follow p old.timetable).timetable
  | [], b, _ => ⟨b, false, rfl, fun _ _ h => Or.inl h⟩
  | (key, old) :: rest, b, hstops => by
    obtain ⟨mid, changed, hone, hmid⟩ := syncOne_spec hp b key
      (hstops _ List.mem_cons_self)
    obtain ⟨b', changed', hrest, hb'⟩ := syncAll_spec hp rest mid fun e he =>
      hstops e (List.mem_cons_of_mem _ he)
    refine ⟨b', changed || changed', ?_, fun k held hk => ?_⟩
    · simp only [syncAll, hone, hrest]
      rfl
    · rcases hb' k held hk with hk | ⟨x, hx, heq⟩
      · rcases hmid k held hk with hk | ⟨rfl, heq⟩
        · exact Or.inl hk
        · exact Or.inr ⟨old, List.mem_cons_self, heq⟩
      · exact Or.inr ⟨x, List.mem_cons_of_mem _ hx, heq⟩

/-- **A pattern is followed without being refused**, if the timetables held for it have its stops.
Each of them is as it was or follows the pattern. -/
theorem sync_spec (hp : p.WellFormed) (hstops : ∀ k held, b.timetables.get? k = some held →
      k.pattern = p.id → held.timetable.stops = p.stops) :
    ∃ b' changed, b.sync p = (b', .ok changed) ∧
      ∀ k held, b'.timetables.get? k = some held → b.timetables.get? k = some held ∨
        ∃ old, b.timetables.get? k = some old ∧ k.pattern = p.id ∧
          held.timetable = (follow p old.timetable).timetable := by
  obtain ⟨b', changed, hsync, hb'⟩ := syncAll_spec hp
    (b.timetables.entries.filter fun e => e.1.pattern == p.id) b fun e he => by
      obtain ⟨hmem, hid⟩ := List.mem_filter.mp he
      exact hstops e.1 e.2 (Table.mem_entries_iff.mp hmem) (beq_iff_eq.mp hid)
  refine ⟨b', changed, hsync, fun k held hk => (hb' k held hk).imp_right ?_⟩
  rintro ⟨old, hmem, heq⟩
  obtain ⟨hmem, hid⟩ := List.mem_filter.mp hmem
  exact ⟨old, Table.mem_entries_iff.mp hmem, beq_iff_eq.mp hid, heq⟩

/-! ## Taking out -/

theorem get?_retain (b : Buffer) (keep : PatternDate → Bool) (k : PatternDate) :
    (b.retain keep).timetables.get? k = (b.timetables.get? k).filter fun _ => keep k :=
  Table.get?_filter ..

/-- What is held after taking out was held before, and is to be kept. -/
theorem get?_retain_eq_some_iff {keep : PatternDate → Bool} {k : PatternDate} {held : Held} :
    (b.retain keep).timetables.get? k = some held ↔
      b.timetables.get? k = some held ∧ keep k = true := by
  rw [get?_retain, Option.filter_eq_some_iff]

theorem contains_dirty_retain {keep : PatternDate → Bool} {k : PatternDate} :
    (b.retain keep).dirty.contains k = true ↔ b.dirty.contains k = true ∧ keep k = true := by
  unfold retain Table.contains
  simp only [Table.get?_filter]
  cases b.dirty.get? k <;> simp

/-! ## Snapshots -/

theorem finishAll_spec : ∀ {keys : List PatternDate} {ts ts' : Table PatternDate Held},
    finishAll keys ts = .ok ts' → ∀ k held, ts'.get? k = some held → ∃ old, ts.get? k = some old ∧
      held.timetable = { old.timetable with index := held.timetable.index }
  | [], ts, ts', h, k, held, hk => by
    cases h
    exact ⟨held, hk, rfl⟩
  | key :: rest, ts, ts', h, k, held, hk => by
    unfold finishAll at h
    split at h
    · exact finishAll_spec h k held hk
    · rename_i first hfirst
      obtain ⟨t, ht, h⟩ := Checked.bind_eq_ok_iff.mp h
      obtain ⟨old, hold, heq⟩ := finishAll_spec h k held hk
      rw [Table.get?_insert] at hold
      split at hold
      · rename_i hkey
        cases hold
        refine ⟨first, hkey ▸ hfirst, heq.trans ?_⟩
        rw [Timetable.eq_of_finish ht]
      · exact ⟨old, hold, heq⟩

/-- A commit builds stop indexes and changes nothing else that is held; the snapshot holds the
same. -/
theorem commit_spec {snapshot : Snapshot} (h : b.commit = .ok (b', snapshot)) :
    snapshot.timetables = b'.timetables ∧ b'.recovery = b.recovery ∧
      ∀ k held, b'.timetables.get? k = some held → ∃ old, b.timetables.get? k = some old ∧
        held.timetable = { old.timetable with index := held.timetable.index } := by
  obtain ⟨ts, hts, hlast⟩ := Checked.bind_eq_ok_iff.mp h
  cases hlast
  exact ⟨rfl, rfl, finishAll_spec hts⟩

end Buffer

end LiveTimetable
