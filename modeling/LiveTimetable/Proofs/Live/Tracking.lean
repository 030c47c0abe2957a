import LiveTimetable.Proofs.Live.Reachability
import LiveTimetable.Proofs.Publication.Tracking

/-!
# The buffer tracks the patterns

A timetable comes into the buffer with the first update for its date, and from then on follows
each revision of its pattern. So whatever is held tracks what the index has under its number, and
a snapshot shows the trips of the patterns right after it was cut.

* `Updater.Change.tracks`: every change keeps the buffer on track.
* `Updater.perform_publishes`: a call leaves the published snapshot alone, or cuts the next one when
  nothing more happens to the buffer.
* `Updater.buffer_tracks_patterns`: what is held, and what a new snapshot shows, in every reachable
  state.
-/

namespace LiveTimetable.Updater

/-- Every timetable that is held tracks the pattern that the index has for it. -/
def Tracks (s : Updater) : Prop :=
  ∀ key held, s.buffer.timetables.get? key = some held →
    ∃ p, s.index.patterns.get? key.pattern = some p ∧ held.timetable.Tracks key p

variable {s s' : Updater}

/-- The buffer follows a pattern that takes the place of its course. -/
theorem Consistent.sync_follows (hs : s.Consistent) {y : Synthesized} (hy : y.Sound)
    (hid : y.pattern.id = s.graph.numberUnder y.course) {b : Buffer} {changed : Bool}
    (hb : s.buffer.sync y.pattern = (b, .ok changed)) :
    Buffer.Follows y.pattern
      (s.buffer.timetables.entries.filter fun e => e.1.pattern == y.pattern.id) s.buffer b := by
  obtain ⟨b', changed', hsync, hfollows⟩ := Buffer.sync_follows hy.wellFormed
    fun key held hget hkey => by
      obtain ⟨q, hq, heq⟩ := hs.buffered key held hget
      rw [heq, hs.stops_eq_of_numberUnder hid q (hkey ▸ hq)]
  rw [hsync] at hb
  cases hb
  exact hfollows

/-- The pattern that a trip enters continues the one before. -/
theorem Consistent.continues_of_enters (hs : s.Consistent) {services : Services} {b : Baseline}
    {made : Synthesized} {graph : Graph} (hgraph : { s.graph with services }.Enters b made graph)
    {q : Pattern} (hq : s.index.patterns.get? made.pattern.id = some q) :
    made.pattern.Continues q := by
  have hid : made.pattern.id = s.graph.numberUnder made.course := hgraph.id_eq
  obtain ⟨-, -, -, -, hrows⟩ := hs.kept_of_numberUnder (hid ▸ hq)
  exact Pattern.continues_of_append (hrows ▸ hgraph.rows_eq) hgraph.sound.wellFormed.nodup

/-! ## Changes -/

namespace Tracks

/-- An update writes a timetable that is held already, or a copy of its pattern. -/
theorem retimed (ht : s.Tracks) (hs : s.Consistent) {p : Pattern} {u : TripUpdate} {b : Buffer}
    (hp : s.index.patterns.get? p.id = some p) (hb : (s.buffer.update p u).run = .ok (.ok b)) :
    (s.setBuffer b).Tracks := by
  obtain ⟨i, times, hreconcile, rfl⟩ := Buffer.update_spec hb
  intro key held hget
  simp only [setBuffer_buffer, Buffer.get?_write] at hget
  split at hget
  · rename_i hkey
    cases hget
    refine ⟨p, by rw [hkey]; exact hp, Timetable.Tracks.retime ?_ hreconcile⟩
    rw [hkey]
    unfold Buffer.draft Buffer.get?
    cases hold : s.buffer.timetables.get? ⟨p.id, u.date⟩ with
    | none => exact Timetable.tracks_forDate (hs.index.pattern p.id p hp) u.date
    | some old =>
      obtain ⟨q, hq, htracks⟩ := ht _ old hold
      rw [hp] at hq
      cases hq
      exact htracks
  · exact ht key held hget

/-- A buffer that follows the next revision of a pattern tracks it. -/
theorem synced (ht : s.Tracks) (hs : s.Consistent) {y : Synthesized} (hy : y.Sound)
    (hid : y.pattern.id = s.graph.numberUnder y.course) {b : Buffer} {changed : Bool}
    (hb : s.buffer.sync y.pattern = (b, .ok changed))
    (hnext : ∀ q, s.index.patterns.get? y.pattern.id = some q → y.pattern.Continues q)
    {x : TransitIndex} (hx : ∀ id, x.patterns.get? id =
      if id = y.pattern.id then some y.pattern else s.index.patterns.get? id)
    (graph : Graph) (added : AddedTrips) :
    ({ s with graph, index := x, added }.setBuffer b).Tracks := by
  intro key held hget
  simp only [setBuffer_buffer, (hs.sync_follows hy hid hb).get?_eq] at hget
  obtain ⟨old, hold, rfl⟩ := Option.map_eq_some_iff.mp hget
  obtain ⟨q, hq, htracks⟩ := ht key old hold
  simp only [setBuffer_index, hx]
  by_cases hkey : key.pattern = y.pattern.id
  · obtain ⟨q', hq', hstops⟩ := hs.buffered key old hold
    rw [hq] at hq'
    cases hq'
    rw [hkey] at hq
    rw [if_pos hkey, if_pos hkey, Buffer.followedHeld_timetable]
    refine ⟨_, rfl, htracks.follow (hs.index.pattern _ q hq).nodup hy.wellFormed (hnext q hq) ?_⟩
    rw [hstops, hs.stops_eq_of_numberUnder hid q hq]
  · rw [if_neg hkey, if_neg hkey]
    exact ⟨q, hq, htracks⟩

end Tracks

/-- **Every change keeps the buffer on track.** -/
theorem Change.tracks {entry : Option Baseline} (h : Change s entry s') (hs : s.Consistent)
    (ht : s.Tracks) : s'.Tracks := by
  cases h with
  | retimed hp hb => exact ht.retimed hs hp hb
  | entered date hnew hgraph hb =>
    exact ht.synced hs hgraph.sound hgraph.id_eq hb (fun q hq => hs.continues_of_enters hgraph hq)
      (fun id => Table.get?_insert ..) _ _
  | @left trip old p graph b changed hkeeps hmem hrev hrows hsound hgraph hb =>
    refine ht.synced hs hsound (Graph.id_eq_numberUnder hkeeps hrev) hb (fun q hq => ?_)
      (s.index.replaces_removePattern_register _).get?_patterns _ _
    have hold := hs.agrees.indexed old hkeeps
    rw [← hrev.id_eq] at hold
    cases hold.symm.trans hq
    exact Pattern.continues_of_eraseP hrows (hs.graph.sound old hkeeps).wellFormed.nodup
  | @dissolved trip old hkeeps htrips =>
    intro key held hget
    obtain ⟨hold, hkeep⟩ := Buffer.get?_retain_eq_some_iff.mp hget
    obtain ⟨q, hq, htracks⟩ := ht key held hold
    refine ⟨q, ?_, htracks⟩
    simp only [setBuffer_index, TransitIndex.get?_patterns_removePattern]
    rw [if_neg (bne_iff_ne.mp hkeep)]
    exact hq
  | expired date through =>
    intro key held hget
    exact ht key held (Buffer.get?_retain_eq_some_iff.mp hget).1
  | published now hb =>
    intro key held hget
    obtain ⟨old, hold, heq⟩ := (Buffer.commit_spec hb).2.2 key held hget
    obtain ⟨q, hq, htracks⟩ := ht key old hold
    refine ⟨q, hq, ?_⟩
    rw [heq]
    exact ⟨htracks.pattern_eq, htracks.date_eq, htracks.published_eq, htracks.baseline_eq⟩

theorem Reachable.tracks (h : s.Reachable) : s.Tracks := by
  refine h.invariant (I := Tracks) (fun _ x g settings _ key held hget => ?_)
    fun a entry b hchange hs ht => hchange.tracks hs ht
  cases hget

/-! ## The published snapshot -/

/-- The published snapshot is that of the last commit. -/
def Numbered (s : Updater) : Prop :=
  s.publisher.published.generation = s.buffer.generation

theorem Change.numbered {entry : Option Baseline} (h : Change s entry s') (hs : s.Consistent)
    (hn : s.Numbered) : s'.Numbered := by
  cases h with
  | retimed hp hb =>
    obtain ⟨i, times, -, rfl⟩ := Buffer.update_spec hb
    exact hn
  | entered date hnew hgraph hb =>
    exact hn.trans (hs.sync_follows hgraph.sound hgraph.id_eq hb).generation_eq.symm
  | left hkeeps hmem hrev hrows hsound hgraph hb =>
    have hid := Graph.id_eq_numberUnder hkeeps hrev
    exact hn.trans (hs.sync_follows hsound hid hb).generation_eq.symm
  | dissolved hkeeps htrips => exact hn
  | expired date through => exact hn
  | published now hb =>
    obtain ⟨ts, -, hlast⟩ := Checked.bind_eq_ok_iff.mp hb
    cases hlast
    rfl

theorem Reachable.numbered (h : s.Reachable) : s.Numbered :=
  h.invariant (fun _ _ _ _ _ => rfl) fun _ _ _ => Change.numbered

section Published

variable {u : TripUpdate} {r : Except ApplyError Unit}

@[simp] theorem setBuffer_published (s : Updater) (b : Buffer) :
    (s.setBuffer b).publisher.published = s.publisher.published := rfl

theorem published_updateBuffer {p : Pattern} (h : s.updateBuffer p u = .ok (s', r)) :
    s'.publisher.published = s.publisher.published := by
  obtain ⟨result, -, hlast⟩ := Checked.bind_eq_ok_iff.mp h
  cases result with
  | ok b =>
    cases hlast
    rfl
  | error e =>
    cases hlast
    rfl

theorem published_modify (h : s.modify u = .ok (s', r)) :
    s'.publisher.published = s.publisher.published := by
  unfold modify at h
  simp only [] at h
  split at h
  · cases h
    rfl
  · obtain ⟨coherent, -, h⟩ := Checked.bind_eq_ok_iff.mp h
    split at h
    · split at h
      · cases h
        rfl
      · exact published_updateBuffer h
    · cases h
      rfl

theorem published_enter {zone : Zone} {stopTimes : List StopTime}
    (h : s.enter u zone stopTimes = .ok (s', r)) :
    s'.publisher.published = s.publisher.published := by
  obtain ⟨⟨graph, result⟩, -, hlast⟩ := Checked.bind_eq_ok_iff.mp h
  cases result with
  | ok made =>
    cases hlast
    rfl
  | error e =>
    cases hlast
    rfl

theorem published_add (h : s.add u = .ok (s', r)) :
    s'.publisher.published = s.publisher.published := by
  unfold add at h
  split at h
  · exact published_modify h
  · simp only [] at h
    split at h
    · cases h
      rfl
    · exact published_enter h

theorem published_withdraw {trip : TripId} (h : s.withdraw trip = .ok (s', r)) :
    s'.publisher.published = s.publisher.published := by
  unfold withdraw at h
  split at h
  · cases h
    rfl
  · split at h
    · simp only [] at h
      split at h
      · cases h
        rfl
      · cases h
        rfl
    · obtain ⟨result, -, h⟩ := Checked.bind_eq_ok_iff.mp h
      split at h
      · cases h
        rfl
      · simp only [] at h
        split at h
        · cases h
          rfl
        · cases h
          rfl

theorem published_cancel (h : s.cancel u = .ok (s', r)) :
    s'.publisher.published = s.publisher.published := by
  unfold cancel at h
  split at h
  · cases h
    rfl
  · exact published_updateBuffer h

theorem published_revert (h : s.revert u = .ok (s', r)) :
    s'.publisher.published = s.publisher.published := by
  unfold revert at h
  split at h
  · cases h
    rfl
  · exact published_updateBuffer h

/-- No update touches the published snapshot. -/
theorem published_apply (h : s.apply u = .ok (s', r)) :
    s'.publisher.published = s.publisher.published := by
  unfold apply at h
  split at h
  · exact published_add h
  · exact published_modify h
  · exact published_modify h
  · exact published_withdraw h
  · exact published_withdraw h
  · exact published_cancel h
  · exact published_revert h

theorem published_batch : ∀ {batch : Batch} {s s' : Updater},
    passAll (batch.map Stage.apply) s = .ok s' → s'.publisher.published = s.publisher.published
  | [], s, s', h => by
    cases h
    rfl
  | u :: rest, s, s', h => by
    obtain ⟨mid, hone, hrest⟩ := Checked.bind_eq_ok_iff.mp h
    obtain ⟨⟨mid', result⟩, happly, hone⟩ := Checked.bind_eq_ok_iff.mp hone
    cases hone
    exact (published_batch hrest).trans (published_apply happly)

theorem published_withdrawAll : ∀ {trips : List TripId} {s s' : Updater} {any : Bool},
    withdrawAll trips s = .ok (s', any) → s'.publisher.published = s.publisher.published
  | [], s, s', any, h => by
    cases h
    rfl
  | trip :: rest, s, s', any, h => by
    obtain ⟨⟨mid, result⟩, hone, h⟩ := Checked.bind_eq_ok_iff.mp h
    obtain ⟨⟨last, any'⟩, hrest, h⟩ := Checked.bind_eq_ok_iff.mp h
    cases h
    exact (published_withdrawAll hrest).trans (published_withdraw hone)

theorem published_purge {today : ServiceDate} {any : Bool} (h : s.purge today = .ok (s', any)) :
    s'.publisher.published = s.publisher.published := by
  unfold purge at h
  simp only [] at h
  split at h
  · cases h
    rfl
  · obtain ⟨⟨mid, any'⟩, hall, h⟩ := Checked.bind_eq_ok_iff.mp h
    cases h
    have hsame := published_withdrawAll hall
    exact hsame

/-- After a call the published snapshot is that of before, or the next one, which shows what the
buffer holds now. -/
def Publishes (s s' : Updater) : Prop :=
  s'.publisher.published = s.publisher.published ∨
    s'.publisher.published.generation = s.publisher.published.generation + 1 ∧
      s'.publisher.published.timetables = s'.buffer.timetables

theorem publish_publishes (hn : s.Numbered) {now : Nat} {force : Bool}
    (h : s.publish now force = .ok s') : s.Publishes s' := by
  obtain ⟨publisher, hpub, h⟩ := Checked.bind_eq_ok_iff.mp h
  cases h
  unfold Publisher.publish at hpub
  split at hpub
  · obtain ⟨⟨b, snapshot⟩, hcommit, hpub⟩ := Checked.bind_eq_ok_iff.mp hpub
    cases hpub
    obtain ⟨ts, -, hlast⟩ := Checked.bind_eq_ok_iff.mp hcommit
    cases hlast
    exact Or.inr ⟨congrArg Nat.succ (Eq.symm hn), rfl⟩
  · cases hpub
    exact Or.inl rfl

theorem settle_publishes (hs : s.Consistent) (hn : s.Numbered) {today : ServiceDate} {now : Nat}
    {purged : Bool} (h : s.settle today now = .ok (s', purged)) : s.Publishes s' := by
  unfold settle at h
  split at h
  · obtain ⟨⟨mid, any⟩, hpurge, hrest⟩ := Checked.bind_eq_ok_iff.mp h
    obtain ⟨last, hpublish, hlast⟩ := Checked.bind_eq_ok_iff.mp hrest
    cases hlast
    have hmid : mid.Numbered :=
      (purge_quiet hs hpurge).invariant (fun _ _ => Change.numbered) hs hn
    have hboth := publish_publishes hmid hpublish
    unfold Publishes at hboth ⊢
    rw [published_purge hpurge] at hboth
    exact hboth
  · simp only [Checked.ok_bind] at h
    obtain ⟨last, hpublish, hlast⟩ := Checked.bind_eq_ok_iff.mp h
    cases hlast
    exact publish_publishes hn hpublish

/-- **A call publishes at most one snapshot**, and after it did nothing more happens to the
buffer. -/
theorem perform_publishes (hs : s.Consistent) (hn : s.Numbered) {c : Command}
    (h : s.perform c = .ok s') : s.Publishes s' := by
  cases c with
  | apply u =>
    obtain ⟨⟨mid, result⟩, happly, h⟩ := Checked.bind_eq_ok_iff.mp h
    cases h
    exact Or.inl (published_apply happly)
  | publish now force => exact publish_publishes hn h
  | purge today =>
    obtain ⟨⟨mid, any⟩, hpurge, h⟩ := Checked.bind_eq_ok_iff.mp h
    cases h
    exact Or.inl (published_purge hpurge)
  | runAt source today now =>
    rw [perform_eq_passAll, Command.stages] at h
    split at h
    · rw [passAll_append] at h
      obtain ⟨mid, hbatch, h⟩ := Checked.bind_eq_ok_iff.mp h
      rw [passAll_singleton] at h
      obtain ⟨⟨last, purged⟩, hsettle, h⟩ := Checked.bind_eq_ok_iff.mp h
      cases h
      have hmid := invariant_passAll (fun _ _ _ => Change.numbered) hs hn hbatch
      have hboth := settle_publishes (hs.passAll hbatch) hmid hsettle
      unfold Publishes at hboth ⊢
      rw [published_batch hbatch] at hboth
      exact hboth
    · cases h
      exact Or.inl rfl

end Published

/-! ## Tracking -/

/-- A snapshot of a buffer that is on track shows the trips of every pattern. -/
theorem Tracks.trips_resolve (ht : s.Tracks) (hs : s.Consistent) {snapshot : Snapshot}
    (hsnapshot : snapshot.timetables = s.buffer.timetables) {id : PatternId} {p : Pattern}
    (hp : s.index.patterns.get? id = some p) (date : ServiceDate) :
    (snapshot.resolve p date).trips = p.trips := by
  unfold Snapshot.resolve Snapshot.get?
  rw [hsnapshot]
  cases hheld : s.buffer.timetables.get? ⟨p.id, date⟩ with
  | none => rfl
  | some held =>
    obtain ⟨q, hq, htracks⟩ := ht _ held hheld
    obtain rfl := hs.index.id_eq id p hp
    rw [hp] at hq
    cases hq
    exact htracks.trips_eq

/-- **The buffer never drifts from the patterns.** In a reachable state the index has a pattern for
every timetable that is held. The timetable is of this pattern and of its date; it has the trips
of the pattern in their order, each with the same publication, and all current times are times of
that. So whenever a call cuts the next snapshot, the snapshot shows right after it, for every
pattern of the index and every date, the trips of the pattern in their order. -/
theorem buffer_tracks_patterns (h : s.Reachable) :
    (∀ key held, s.buffer.timetables.get? key = some held → ∃ p,
      s.index.patterns.get? key.pattern = some p ∧ p.id = key.pattern ∧
      held.timetable.pattern = key.pattern ∧ held.timetable.date = some key.date ∧
      held.timetable.rows.map Row.published = p.timetable.rows.map Row.published ∧
      ∀ r ∈ held.timetable.rows, r.current.baseline = r.published) ∧
    ∀ c s', s.perform c = .ok s' → s'.publisher.published = s.publisher.published ∨
      s'.publisher.published.generation = s.publisher.published.generation + 1 ∧
      ∀ id p, s'.index.patterns.get? id = some p →
        ∀ date, (s'.publisher.published.resolve p date).trips = p.trips := by
  refine ⟨fun key held hget => ?_, fun c s' hc => ?_⟩
  · obtain ⟨p, hp, htracks⟩ := h.tracks key held hget
    exact ⟨p, hp, h.consistent.index.id_eq _ p hp, htracks.pattern_eq, htracks.date_eq,
      htracks.published_eq, htracks.baseline_eq⟩
  · refine (perform_publishes h.consistent h.numbered hc).imp_right ?_
    rintro ⟨hnext, hshown⟩
    have h' := h.perform hc
    exact ⟨hnext, fun id p hp date => h'.tracks.trips_resolve h'.consistent hshown hp date⟩

/-- The shuttle's network with an added trip that runs late, and another one that joined it. -/
def shuttleWithTwo : Updater :=
  shuttleAfter [.apply (extraTrip "n" "x" "y" 150 250), .apply (extraTrip "n" "x" "y" 160 260),
    .apply (extraTrip "m" "x" "y" 170 270)]

theorem reachable_shuttleWithTwo : shuttleWithTwo.Reachable :=
  ⟨shuttle, _, _, .standard, [.apply (extraTrip "n" "x" "y" 150 250),
    .apply (extraTrip "n" "x" "y" 160 260), .apply (extraTrip "m" "x" "y" 170 270)], rfl, rfl⟩

/-- The timetable of the late trip is held before the other trip joins, and has it afterwards, as
has the next snapshot. -/
theorem buffer_tracks_patterns_shuttle : shuttleWithTwo.Reachable ∧ ∃ held p,
    shuttleWithTwo.buffer.timetables.get? ⟨⟨1⟩, shuttleDate⟩ = some held ∧
    p.trips = [⟨"a", "n"⟩, ⟨"a", "m"⟩] ∧
    held.timetable.rows.map Row.published = p.timetable.rows.map Row.published ∧
    ∃ s, shuttleWithTwo.perform (.publish 0 true) = .ok s ∧
      (s.publisher.published.resolve p shuttleDate).trips = p.trips := by
  obtain ⟨hheld, hcalls⟩ := buffer_tracks_patterns reachable_shuttleWithTwo
  have hindex : (shuttleWithTwo.index.patterns.get? ⟨1⟩).map Pattern.trips =
      some [⟨"a", "n"⟩, ⟨"a", "m"⟩] := rfl
  obtain ⟨held, hget⟩ : ∃ held,
      shuttleWithTwo.buffer.timetables.get? ⟨⟨1⟩, shuttleDate⟩ = some held := ⟨_, rfl⟩
  obtain ⟨p, hp, -, -, -, hpublished, -⟩ := hheld _ held hget
  rw [hp] at hindex
  obtain ⟨s, hs, hnext, hsame⟩ : ∃ s, shuttleWithTwo.perform (.publish 0 true) = .ok s ∧
      s.publisher.published.generation = 1 ∧ s.index = shuttleWithTwo.index := ⟨_, rfl, rfl, rfl⟩
  refine ⟨reachable_shuttleWithTwo, held, p, hget, Option.some.inj hindex, hpublished, s, hs, ?_⟩
  rcases hcalls _ s hs with hold | ⟨-, hshown⟩
  · rw [hold] at hnext
    cases hnext
  · exact hshown ⟨1⟩ p (hsame ▸ hp) shuttleDate

end LiveTimetable.Updater
