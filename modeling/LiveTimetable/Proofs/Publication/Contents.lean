import LiveTimetable.Proofs.Publication.Writing
import LiveTimetable.Proofs.Timetable.Lookups

/-!
# What a commit leaves alone

A commit builds stop indexes, takes marks away and counts generations up. None of this has a say in
what later writes do to the trips and their times, which are the **contents** of the buffer.

* `Buffer.exists_commit`, `Buffer.contents_of_commit`: a commit comes to its end, and leaves the
  contents alone.
* `Buffer.update_congr`, `Buffer.sync_congr`, `Buffer.removePattern_congr`: writes to buffers with
  the same contents have the same answers, and lead to the same contents.
-/

namespace LiveTimetable

/-! ## Timetables -/

namespace Timetable

/-- The timetable without its stop index. -/
def plain (t : Timetable) : Timetable := { t with index := none }

variable {t t' : Timetable}

theorem plain_finish (h : t.finish = .ok t') : t'.plain = t.plain := by
  rw [eq_of_finish h]
  rfl

theorem exists_finish_of_plain {t : Timetable} (h : t.plain.Intact) : ∃ t', t.finish = .ok t' := by
  unfold finish
  cases t.index with
  | some index => exact ⟨t, rfl⟩
  | none =>
    obtain ⟨index, hindex⟩ := h.exists_index
    have hsame : t.buildIndex = .ok index := hindex
    exact ⟨_, by rw [hsame]; rfl⟩

/-- What does not look at the stop index is the same of timetables that differ in it only. -/
theorem congr_of_plain {α : Type} (f : Timetable → α) (hf : ∀ t, f t.plain = f t)
    (h : t.plain = t'.plain) : f t = f t' := by
  rw [← hf t, h, hf t']

theorem rows_congr (h : t.plain = t'.plain) : t.rows = t'.rows :=
  congr_of_plain rows (fun _ => rfl) h

theorem reconcile_congr (h : t.plain = t'.plain) (u : TripUpdate) (recovery : Recovery) :
    t.reconcile u recovery = t'.reconcile u recovery :=
  congr_of_plain (·.reconcile u recovery) (fun _ => rfl) h

theorem setTimes_congr (h : t.plain = t'.plain) (i : Nat) (times : TripTimes) :
    t.setTimes i times = t'.setTimes i times :=
  congr_of_plain (·.setTimes i times) (fun _ => rfl) h

theorem insert_congr (h : t.plain = t'.plain) (b : Baseline) : t.insert b = t'.insert b :=
  congr_of_plain (·.insert b) (fun _ => rfl) h

theorem published?_congr (h : t.plain = t'.plain) (trip : TripId) :
    t.published? trip = t'.published? trip :=
  congr_of_plain (·.published? trip) (fun _ => rfl) h

/-- A trip that is not there leaves a stop index behind, and one that is takes it along. -/
theorem plain_remove (h : t.plain = t'.plain) (trip : TripId) :
    (t.remove trip).plain = (t'.remove trip).plain := by
  have hposition : t.position? trip = t'.position? trip := by
    unfold position?
    rw [rows_congr h]
  unfold remove
  rw [hposition]
  cases t'.position? trip with
  | none => exact h
  | some i =>
    have hplain : ({ t.plain with rows := t.plain.rows.eraseIdx i } : Timetable) =
        { t'.plain with rows := t'.plain.rows.eraseIdx i } := by rw [h]
    exact hplain

theorem plain_foldl_remove (trips : List TripId) (h : t.plain = t'.plain) :
    (trips.foldl remove t).plain = (trips.foldl remove t').plain := by
  induction trips generalizing t t' with
  | nil => exact h
  | cons trip rest ih => exact ih (plain_remove h trip)

end Timetable

namespace Buffer

/-! ## Following -/

/-- Two timetables on the way differ in their stop indexes only. -/
structure Following.Alike (f f' : Following) : Prop where
  timetable : f.timetable.plain = f'.timetable.plain
  changed : f.changed = f'.changed
  refusal : f.refusal = f'.refusal

theorem takeUp_congr (bs : List Baseline) {f f' : Following} (h : f.Alike f') :
    (takeUp bs f).Alike (takeUp bs f') := by
  induction bs generalizing f f' with
  | nil => exact h
  | cons b rest ih =>
    have hpublishes : publishes f.timetable b = publishes f'.timetable b := by
      unfold publishes
      rw [Timetable.published?_congr h.timetable]
    rw [takeUp, takeUp, hpublishes, Timetable.insert_congr h.timetable]
    split
    · exact ih h
    · cases f'.timetable.insert b with
      | ok t => exact ih ⟨rfl, rfl, h.refusal⟩
      | error e => exact ⟨h.timetable, h.changed, rfl⟩

theorem follow_congr (p : Pattern) {t t' : Timetable} (h : t.plain = t'.plain) :
    (follow p t).Alike (follow p t') := by
  have htrips : t.trips = t'.trips := congrArg (List.map Row.tripId) (Timetable.rows_congr h)
  unfold follow
  rw [htrips]
  exact takeUp_congr _ ⟨Timetable.plain_foldl_remove _ h, rfl, rfl⟩

/-! ## Contents -/

/-- Trips and times, without stop indexes, marks and generations. -/
structure Contents where
  timetables : Table PatternDate Timetable
  recovery : Recovery

/-- The contents of a buffer. -/
def contents (b : Buffer) : Contents :=
  ⟨b.timetables.map fun _ held => held.timetable.plain, b.recovery⟩

/-- The contents with a timetable under a key. -/
def Contents.put (c : Contents) (key : PatternDate) (t : Timetable) : Contents :=
  { c with timetables := c.timetables.insert key t.plain }

variable {b b' : Buffer} {p : Pattern} {u : TripUpdate} {key : PatternDate} {t t' : Timetable}

theorem contents_put (b : Buffer) (key : PatternDate) (t : Timetable) :
    (b.put key t).contents = b.contents.put key t :=
  congrArg (Contents.mk · b.recovery) (b.timetables.map_insert key ⟨t, b.generation⟩
    fun held => held.timetable.plain)

theorem contents_write (b : Buffer) (key : PatternDate) (t : Timetable) :
    (b.write key t).contents = b.contents.put key t :=
  contents_put b key t

theorem Contents.put_congr (c : Contents) (key : PatternDate) (h : t.plain = t'.plain) :
    c.put key t = c.put key t' := by
  unfold Contents.put
  rw [h]

/-- Buffers with the same contents hold timetables that differ in their stop indexes only. -/
theorem plain_get? (h : b.contents = b'.contents) (pattern : PatternId) (date : ServiceDate) :
    (b.get? pattern date).map Timetable.plain = (b'.get? pattern date).map Timetable.plain := by
  have hget : ∀ b : Buffer, (b.get? pattern date).map Timetable.plain =
      b.contents.timetables.get? ⟨pattern, date⟩ := by
    intro b
    unfold contents Buffer.get?
    rw [Table.get?_map, Option.map_map]
    rfl
  rw [hget b, hget b', h]

/-! ## Writes -/

theorem plain_draft (h : b.contents = b'.contents) (p : Pattern) (date : ServiceDate) :
    (b.draft p date).plain = (b'.draft p date).plain := by
  have hget := plain_get? h p.id date
  unfold draft
  cases hb : b.get? p.id date with
  | none =>
    rw [hb] at hget
    rw [Option.map_eq_none_iff.mp hget.symm]
  | some t =>
    rw [hb] at hget
    obtain ⟨t', ht', heq⟩ := Option.map_eq_some_iff.mp hget.symm
    rw [ht']
    exact heq.symm

/-- **An update does the same to the same contents.** -/
theorem update_congr (h : b.contents = b'.contents) (p : Pattern) (u : TripUpdate) :
    (b.update p u).run.map (Except.map contents) =
      (b'.update p u).run.map (Except.map contents) := by
  have hrun : ∀ b : Buffer, (b.update p u).run.map (Except.map contents) =
      ((b.draft p u.date).reconcile u b.recovery).run.map (Except.map fun r =>
        b.contents.put ⟨p.id, u.date⟩ ((b.draft p u.date).setTimes r.1 r.2)) := by
    intro b
    rw [update_eq, ExceptT.run_bind]
    rcases ((b.draft p u.date).reconcile u b.recovery).run with fault | e | ⟨i, times⟩
    · rfl
    · rfl
    · exact congrArg (fun c => Except.ok (Except.ok c)) (contents_write b ⟨p.id, u.date⟩ _)
  have hdraft := plain_draft h p u.date
  have hrecovery : b.recovery = b'.recovery := congrArg Contents.recovery h
  have hsetTimes : (b.draft p u.date).setTimes = (b'.draft p u.date).setTimes := by
    funext i times
    exact Timetable.setTimes_congr hdraft i times
  rw [hrun b, hrun b', h, hrecovery, Timetable.reconcile_congr hdraft, hsetTimes]

theorem syncOne_congr (h : b.contents = b'.contents) (ht : t.plain = t'.plain) (p : Pattern)
    (key : PatternDate) : (b.syncOne p key t).1.contents = (b'.syncOne p key t').1.contents ∧
      (b.syncOne p key t).2 = (b'.syncOne p key t').2 := by
  have hfollow := follow_congr p ht
  have hput : ∀ c : Contents, c.put key (follow p t).timetable =
      c.put key (follow p t').timetable := fun c => c.put_congr key hfollow.timetable
  -- Whether or not the copy is written, a refusal puts the same timetable.
  have hwritten :
      (if (follow p t').changed then b.write key (follow p t).timetable else b).contents =
      (if (follow p t').changed then b'.write key (follow p t').timetable else b').contents := by
    split
    · rw [contents_write, contents_write, h, hput]
    · exact h
  unfold syncOne
  simp only [hfollow.changed, hfollow.refusal]
  split
  · refine ⟨?_, rfl⟩
    rw [contents_put, contents_put, hwritten, hput]
  · exact ⟨hwritten, rfl⟩

theorem syncAll_congr (p : Pattern) {es es' : List (PatternDate × Held)}
    (hes : es.map (fun e => (e.1, e.2.timetable.plain)) =
      es'.map fun e => (e.1, e.2.timetable.plain)) (h : b.contents = b'.contents) :
    (syncAll p es b).1.contents = (syncAll p es' b').1.contents ∧
      (syncAll p es b).2 = (syncAll p es' b').2 := by
  induction es generalizing es' b b' with
  | nil =>
    rw [List.map_eq_nil_iff.mp hes.symm]
    exact ⟨h, rfl⟩
  | cons e rest ih =>
    obtain ⟨e', rest', rfl, he, hrest⟩ := List.map_eq_cons_iff.mp hes.symm
    obtain ⟨hkey, ht⟩ := Prod.mk.inj he
    obtain ⟨hone, hanswer⟩ := syncOne_congr h ht.symm p e.1
    obtain ⟨key, held⟩ := e
    obtain ⟨key', held'⟩ := e'
    obtain rfl : key' = key := hkey
    rw [syncAll, syncAll]
    rcases hb : b.syncOne p key' held.timetable with ⟨mid, answer⟩
    rcases hb' : b'.syncOne p key' held'.timetable with ⟨mid', answer'⟩
    simp only [hb, hb'] at hone hanswer
    obtain rfl := hanswer
    cases answer with
    | error e => exact ⟨hone, rfl⟩
    | ok changed =>
      obtain ⟨hlast, hresult⟩ := ih hrest.symm hone
      exact ⟨hlast, congrArg (Except.map (changed || ·)) hresult⟩

/-- **To follow a pattern does the same to the same contents.** -/
theorem sync_congr (h : b.contents = b'.contents) (p : Pattern) :
    (b.sync p).1.contents = (b'.sync p).1.contents ∧ (b.sync p).2 = (b'.sync p).2 := by
  have hentries : ∀ b : Buffer, (b.timetables.entries.filter fun e => e.1.pattern == p.id).map
      (fun e => (e.1, e.2.timetable.plain)) =
        b.contents.timetables.entries.filter fun e => e.1.pattern == p.id := by
    intro b
    show _ = (b.timetables.entries.map _).filter _
    rw [List.filter_map]
    rfl
  exact syncAll_congr p (by rw [hentries b, hentries b', h]) h

/-- **To take a pattern out does the same to the same contents.** -/
theorem removePattern_congr (h : b.contents = b'.contents) (pattern : PatternId) :
    (b.removePattern pattern).contents = (b'.removePattern pattern).contents := by
  have hcontents : ∀ b : Buffer, (b.removePattern pattern).contents =
      { b.contents with
        timetables := b.contents.timetables.filter fun key _ => key.pattern != pattern } := by
    intro b
    refine congrArg (Contents.mk · b.recovery) (Table.ext_get? fun key => ?_)
    unfold contents removePattern retain
    simp only [Table.get?_map, Table.get?_filter]
    cases b.timetables.get? key with
    | none => rfl
    | some held =>
      simp only [Option.filter_some, Option.map_some]
      split <;> rfl
  rw [hcontents b, hcontents b', h]

/-! ## Commits -/

theorem contents_of_finishAll : ∀ {keys : List PatternDate} {ts ts' : Table PatternDate Held},
    finishAll keys ts = .ok ts' →
      ts'.map (fun _ held => held.timetable.plain) = ts.map fun _ held => held.timetable.plain
  | [], ts, ts', h => by
    cases h
    rfl
  | key :: rest, ts, ts', h => by
    unfold finishAll at h
    split at h
    · exact contents_of_finishAll h
    · rename_i held hheld
      obtain ⟨t, ht, h⟩ := Checked.bind_eq_ok_iff.mp h
      rw [contents_of_finishAll h]
      refine Table.ext_get? fun q => ?_
      rw [Table.get?_map, Table.get?_insert, Table.get?_map]
      split
      · rename_i hq
        rw [hq, hheld]
        exact congrArg some (Timetable.plain_finish ht)
      · rfl

theorem exists_finishAll : ∀ (keys : List PatternDate) {ts : Table PatternDate Held},
    (∀ key held, ts.get? key = some held → held.timetable.plain.Intact) →
      ∃ ts', finishAll keys ts = .ok ts'
  | [], ts, _ => ⟨ts, rfl⟩
  | key :: rest, ts, h => by
    unfold finishAll
    cases hheld : ts.get? key with
    | none => exact exists_finishAll rest h
    | some held =>
      obtain ⟨t, ht⟩ := Timetable.exists_finish_of_plain (h key held hheld)
      simp only [ht, Checked.ok_bind]
      refine exists_finishAll rest fun key' held' hget => ?_
      rw [Table.get?_insert] at hget
      split at hget
      · cases hget
        show t.plain.Intact
        rw [Timetable.plain_finish ht]
        exact h key held hheld
      · exact h key' held' hget

/-- A commit comes to its end if all that is held can be read. -/
theorem exists_commit {b : Buffer}
    (h : ∀ key held, b.timetables.get? key = some held → held.timetable.plain.Intact) :
    ∃ b' snapshot, b.commit = .ok (b', snapshot) := by
  obtain ⟨ts, hts⟩ := exists_finishAll b.dirty.keys h
  unfold commit
  rw [hts]
  exact ⟨_, _, rfl⟩

/-- **A commit leaves the contents alone.** -/
theorem contents_of_commit {snapshot : Snapshot} (h : b.commit = .ok (b', snapshot)) :
    b'.contents = b.contents := by
  obtain ⟨ts, hts, hlast⟩ := Checked.bind_eq_ok_iff.mp h
  cases hlast
  exact congrArg (Contents.mk · b.recovery) (contents_of_finishAll hts)

end Buffer

end LiveTimetable
