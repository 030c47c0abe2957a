import LiveTimetable.Proofs.Live.Reachability

/-!
# What holds of every row

The state has rows of trips in three places: in the buffer, in the published snapshot and in the
patterns of the index. They go from one to another, but a new row comes in with a new trip only,
and a row that is there changes by the times of an update. So what holds of the new row, and is
kept by updates, holds of every row after a change (`Updater.Change.allRows`) and in every state
that a run passes (`Updater.allRows_of_mem_visited`).
-/

namespace LiveTimetable

/-- What holds of a row holds of it with the times of an update. -/
def KeptByUpdates (P : Row → Prop) : Prop := ∀ (row : Row) (stops : List StopId) (u : TripUpdate)
  (recovery : Recovery) (r : Reconciled),
    P row → (row.current.reconcile row.published stops u recovery).run = .ok (.ok r) →
      P { row with current := r.times }

variable {P : Row → Prop}

namespace Timetable

/-- A timetable with the times of an update has rows as before, or a row that was updated. -/
theorem forall_rows_setTimes (hP : KeptByUpdates P) {t : Timetable} {u : TripUpdate}
    {recovery : Recovery} {i : Nat} {times : TripTimes}
    (h : (t.reconcile u recovery).run = .ok (.ok (i, times))) (ht : ∀ r ∈ t.rows, P r) :
    ∀ r ∈ (t.setTimes i times).rows, P r := by
  intro r hr
  obtain ⟨row, reconciled, hrow, -, hreconcile, rfl⟩ := reconcile_spec h
  rcases mem_rows_setTimes hr with hr | ⟨row', hrow', rfl⟩
  · exact ht r hr
  · rw [hrow] at hrow'
    cases hrow'
    exact hP row _ u recovery reconciled (ht row (List.mem_of_getElem? hrow)) hreconcile

end Timetable

namespace Updater

/-- All rows of the buffer, of the published snapshot and of the patterns of the index. -/
structure AllRows (P : Row → Prop) (s : Updater) : Prop where
  buffered : ∀ key held, s.buffer.timetables.get? key = some held →
    ∀ r ∈ held.timetable.rows, P r
  published : ∀ key held, s.publisher.published.timetables.get? key = some held →
    ∀ r ∈ held.timetable.rows, P r
  indexed : ∀ id p, s.index.patterns.get? id = some p → ∀ r ∈ p.timetable.rows, P r

variable {s s' : Updater}

theorem AllRows.imp {Q : Row → Prop} (himp : ∀ r, P r → Q r) (h : s.AllRows P) : s.AllRows Q where
  buffered key held hget r hr := himp r (h.buffered key held hget r hr)
  published key held hget r hr := himp r (h.published key held hget r hr)
  indexed id p hp r hr := himp r (h.indexed id p hp r hr)

theorem AllRows.and {Q : Row → Prop} (h : s.AllRows P) (hQ : s.AllRows Q) :
    s.AllRows fun r => P r ∧ Q r where
  buffered key held hget r hr := ⟨h.buffered key held hget r hr, hQ.buffered key held hget r hr⟩
  published key held hget r hr := ⟨h.published key held hget r hr, hQ.published key held hget r hr⟩
  indexed id p hp r hr := ⟨h.indexed id p hp r hr, hQ.indexed id p hp r hr⟩

namespace AllRows

/-- An update of a trip changes its row in the buffer. -/
theorem retimed (hP : KeptByUpdates P) (h : s.AllRows P) {p : Pattern} {u : TripUpdate} {b : Buffer}
    (hp : s.index.patterns.get? p.id = some p) (hb : (s.buffer.update p u).run = .ok (.ok b)) :
    (s.setBuffer b).AllRows P := by
  obtain ⟨i, times, hreconcile, rfl⟩ := Buffer.update_spec hb
  refine ⟨fun key held hget => ?_, h.published, h.indexed⟩
  simp only [setBuffer_buffer, Buffer.get?_write] at hget
  split at hget
  · cases hget
    refine Timetable.forall_rows_setTimes hP hreconcile ?_
    unfold Buffer.draft Buffer.get?
    cases hold : s.buffer.timetables.get? ⟨p.id, u.date⟩ with
    | none => exact h.indexed p.id p hp
    | some old => exact h.buffered _ old hold
  · exact h.buffered key held hget

/-- A pattern that is registered and followed brings its own rows only. -/
theorem synced (h : s.AllRows P) (hs : s.Consistent) {y : Synthesized} (hy : y.Sound)
    (hid : y.pattern.id = s.graph.numberUnder y.course) {b : Buffer} {changed : Bool}
    (hb : s.buffer.sync y.pattern = (b, .ok changed)) (hrows : ∀ r ∈ y.pattern.timetable.rows, P r)
    {x : TransitIndex} (hx : ∀ id, x.patterns.get? id =
      if id = y.pattern.id then some y.pattern else s.index.patterns.get? id)
    (graph : Graph) (added : AddedTrips) :
    ({ s with graph, index := x, added }.setBuffer b).AllRows P := by
  refine ⟨fun key held hget r hr => ?_, h.published, fun id q hq => ?_⟩
  · rcases hs.mem_rows_sync hy hid hb hget hr with hr | ⟨old, hold, hr⟩
    · exact hrows r hr
    · exact h.buffered key old hold r hr
  · simp only [setBuffer_index, hx] at hq
    split at hq
    · cases hq
      exact hrows
    · exact h.indexed id q hq

/-- The rows under a course are rows of the index. -/
theorem rowsUnder (h : s.AllRows P) (hs : s.Consistent) (c : Course) :
    ∀ r ∈ s.graph.rowsUnder c, P r := by
  rcases hs.graph.under_cases c with ⟨y, hy, -, -, hrows⟩ | ⟨-, -, hrows⟩
  · rw [hrows]
    exact h.indexed _ _ (hs.agrees.indexed y hy)
  · rw [hrows]
    exact fun r hr => absurd hr List.not_mem_nil

end AllRows

/-- **A change keeps what holds of every row**, if it holds of the row of a new trip and updates
keep it. -/
theorem Change.allRows {entry : Option Baseline} (h : Change s entry s') (hs : s.Consistent)
    (hP : KeptByUpdates P) (hentry : ∀ b, entry = some b → P (Row.ofBaseline b))
    (hrows : s.AllRows P) : s'.AllRows P := by
  cases h with
  | retimed hp hb => exact hrows.retimed hP hp hb
  | entered date hnew hgraph hb =>
    refine hrows.synced hs hgraph.sound hgraph.id_eq hb (fun r hr => ?_)
      (fun id => Table.get?_insert ..) _ _
    rw [hgraph.rows_eq] at hr
    rcases List.mem_append.mp hr with hr | hr
    · exact hrows.rowsUnder hs _ r hr
    · rw [List.mem_singleton.mp hr]
      exact hentry _ rfl
  | left hkeeps hmem hrev hleft hsound hgraph hb =>
    refine hrows.synced hs hsound (Graph.id_eq_numberUnder hkeeps hrev) hb (fun r hr => ?_)
      (s.index.replaces_removePattern_register _).get?_patterns _ _
    rw [hleft] at hr
    exact hrows.indexed _ _ (hs.agrees.indexed _ hkeeps) r (List.mem_of_mem_eraseP hr)
  | dissolved hkeeps htrips =>
    refine ⟨fun key held hget => ?_, hrows.published, fun id q hq => ?_⟩
    · exact hrows.buffered key held (Buffer.get?_retain_eq_some_iff.mp hget).1
    · simp only [setBuffer_index, TransitIndex.get?_patterns_removePattern] at hq
      split at hq
      · cases hq
      · exact hrows.indexed id q hq
  | expired date through =>
    refine ⟨fun key held hget => ?_, hrows.published, hrows.indexed⟩
    exact hrows.buffered key held (Buffer.get?_retain_eq_some_iff.mp hget).1
  | @published b snapshot now hb =>
    obtain ⟨hsame, -, hheld⟩ := Buffer.commit_spec hb
    have hcommitted : ∀ key held, b.timetables.get? key = some held →
        ∀ r ∈ held.timetable.rows, P r := by
      intro key held hget r hr
      obtain ⟨old, hold, heq⟩ := hheld key held hget
      rw [heq] at hr
      exact hrows.buffered key old hold r hr
    refine ⟨hcommitted, fun key held hget => ?_, hrows.indexed⟩
    exact hcommitted key held (hsame ▸ hget)

/-- A new trip is in the index with its publication. -/
theorem Change.exists_row {b : Baseline} (h : Change s (some b) s') : ∃ id p,
    s'.index.patterns.get? id = some p ∧ Row.ofBaseline b ∈ p.timetable.rows := by
  cases h with
  | @entered services trip stopTimes made graph buffer changed date hnew hgraph hb =>
    exact ⟨made.pattern.id, made.pattern, Table.get?_insert .. |>.trans (if_pos rfl),
      hgraph.mem_rows⟩

theorem Quiet.allRows (h : Quiet s s') (hs : s.Consistent) (hP : KeptByUpdates P)
    (hrows : s.AllRows P) : s'.AllRows P :=
  h.invariant (fun _ _ hchange ha => hchange.allRows ha hP fun b hb => by cases hb) hs hrows

/-! ## Runs -/

/-- The states that a list of stages passes, up to a fault: the first, and one after each stage. -/
def visited : List Stage → Updater → List Updater
  | [], s => [s]
  | stage :: rest, s =>
    s :: match s.pass stage with
      | .ok mid => visited rest mid
      | .error _ => []

/-- The publications of the trips that a list of stages adds, up to a fault. -/
def newTrips : List Stage → Updater → List Baseline
  | [], _ => []
  | stage :: rest, s =>
    match s.pass stage with
    | .ok mid => (stage.newTrip? s).toList ++ newTrips rest mid
    | .error _ => []

theorem mem_visited_self (stages : List Stage) (s : Updater) : s ∈ visited stages s := by
  cases stages with
  | nil => exact List.mem_singleton_self s
  | cons stage rest => exact List.mem_cons_self

/-- The state after a run is the last one that it passes. -/
theorem mem_visited_of_passAll : ∀ {stages : List Stage} {s : Updater},
    passAll stages s = .ok s' → s' ∈ visited stages s
  | [], _, h => by
    cases h
    exact List.mem_singleton_self _
  | stage :: rest, s, h => by
    obtain ⟨mid, hmid, hrest⟩ := Checked.bind_eq_ok_iff.mp h
    rw [visited, hmid]
    exact List.mem_cons_of_mem _ (mem_visited_of_passAll hrest)

/-- **What updates keep holds of every row in every state that a run passes**, if it holds at the
start and of the rows of the trips that the run adds. -/
theorem allRows_of_mem_visited (hP : KeptByUpdates P) : ∀ {stages : List Stage} {s : Updater},
    s.Consistent → s.AllRows P → (∀ b ∈ newTrips stages s, P (Row.ofBaseline b)) →
      ∀ s' ∈ visited stages s, s'.AllRows P
  | [], s, _, hrows, _, s', hmem => by
    rw [List.mem_singleton.mp hmem]
    exact hrows
  | stage :: rest, s, hs, hrows, hnew, s', hmem => by
    rw [visited] at hmem
    rcases List.mem_cons.mp hmem with heq | hmem
    · exact heq ▸ hrows
    · cases hmid : s.pass stage with
      | error fault =>
        rw [hmid] at hmem
        exact absurd hmem List.not_mem_nil
      | ok mid =>
        rw [hmid] at hmem
        rw [newTrips, hmid] at hnew
        have hstage : mid.AllRows P := by
          cases hentry : stage.newTrip? s with
          | none => exact (quiet_of_newTrip? hs hmid hentry).allRows hs hP hrows
          | some b =>
            refine (change_of_newTrip? hs hmid hentry).allRows hs hP (fun b' hb => ?_) hrows
            cases hb
            exact hnew b (List.mem_append_left _ (by rw [hentry]; exact List.mem_singleton_self b))
        exact allRows_of_mem_visited hP (hs.pass hmid) hstage
          (fun b hb => hnew b (List.mem_append_right _ hb)) s' hmem

/-- A new trip is in the index with its publication in a state that the run passes. -/
theorem exists_visited_of_mem_newTrips : ∀ {stages : List Stage} {s : Updater} {b : Baseline},
    s.Consistent → b ∈ newTrips stages s → ∃ s' ∈ visited stages s, ∃ id p,
      s'.index.patterns.get? id = some p ∧ Row.ofBaseline b ∈ p.timetable.rows
  | [], s, b, _, hmem => absurd hmem List.not_mem_nil
  | stage :: rest, s, b, hs, hmem => by
    rw [newTrips] at hmem
    cases hmid : s.pass stage with
    | error fault =>
      rw [hmid] at hmem
      exact absurd hmem List.not_mem_nil
    | ok mid =>
      rw [hmid] at hmem
      rw [visited, hmid]
      rcases List.mem_append.mp hmem with hentry | hmem
      · refine ⟨mid, List.mem_cons_of_mem _ (mem_visited_self rest mid), ?_⟩
        exact (change_of_newTrip? hs hmid (Option.mem_toList.mp hentry)).exists_row
      · obtain ⟨s', hs', hrow⟩ := exists_visited_of_mem_newTrips (hs.pass hmid) hmem
        exact ⟨s', List.mem_cons_of_mem _ hs', hrow⟩

end Updater

end LiveTimetable
