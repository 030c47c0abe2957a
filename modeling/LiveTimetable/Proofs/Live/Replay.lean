import LiveTimetable.Proofs.Feed.RoundTrip
import LiveTimetable.Proofs.Live.Contents
import LiveTimetable.Proofs.Live.Directories
import LiveTimetable.Proofs.Live.Lifetimes
import LiveTimetable.Proofs.Live.Settling

/-!
# Runs over a directory

Runs pull the files of a directory one by one. Publications between the updates make no difference
to their contents, and a run that cannot read its file does nothing at all. So, as long as nothing
expires, the runs lead to what the updates of the readable files lead to when they are applied one
by one, in the order of the file names.

* `Updater.contents_of_perform_runAt`: a run applies the updates of one pull.
* `Updater.contents_of_runEach`: so do many runs, with those of as many pulls.
* `Updater.replay_exact`: what is pulled from a directory, and what runs over it lead to.
-/

namespace LiveTimetable.Updater

variable {s s' t : Updater} {u : TripUpdate}

/-! ## What follows a batch -/

/-- Where nothing expires, what follows a batch leaves the contents alone. -/
theorem Reachable.contents_settle (hs : s.Reachable) (hexpiry : s.settings.purgeExpired = false)
    (today : ServiceDate) (now : Nat) :
    ∃ s', s.pass (.settle today now) = .ok s' ∧ s'.contents = s.contents := by
  obtain ⟨s', hs'⟩ := hs.exists_publish now false
  refine ⟨s', ?_, contents_of_publish hs'⟩
  simp [pass, settle, hexpiry, hs']

/-! ## Updates one by one -/

/-- The state after updates one by one, none of which met a fault. -/
def applyEach (us : List TripUpdate) (s : Updater) : Checked Updater :=
  performAll (us.map .apply) s

theorem applyEach_append (us vs : List TripUpdate) (s : Updater) :
    applyEach (us ++ vs) s = applyEach us s >>= applyEach vs := by
  unfold applyEach
  rw [List.map_append, performAll_append]

theorem applyEach_eq_passAll (us : List TripUpdate) (s : Updater) :
    applyEach us s = passAll (us.map .apply) s := by
  unfold applyEach
  rw [performAll_eq_passAll, List.flatMap_map]
  exact congrArg (passAll · s) (List.map_eq_flatMap ..).symm

/-- **Updates one by one do the same to the same contents.** -/
theorem applyEach_congr (us : List TripUpdate) (h : s.contents = t.contents) :
    (applyEach us s).map contents = (applyEach us t).map contents := by
  induction us generalizing s t with
  | nil => exact congrArg Except.ok h
  | cons u rest ih =>
    refine Checked.map_bind_congr ?_ fun mid mid' _ _ hmid => ih hmid
    refine Checked.map_bind_congr (apply_congr h u) fun out out' _ _ hout => ?_
    exact congrArg Except.ok (Prod.ext_iff.mp hout).1

/-- Updates leave the settings alone. -/
theorem Reachable.settings_applyEach (hs : s.Reachable) {us : List TripUpdate}
    (h : applyEach us s = .ok s') : s'.settings = s.settings := by
  induction us generalizing s with
  | nil =>
    cases h
    rfl
  | cons u rest ih =>
    obtain ⟨mid, hmid, hrest⟩ := Checked.bind_eq_ok_iff.mp h
    refine (ih (hs.perform hmid) hrest).trans ?_
    obtain ⟨⟨last, answer⟩, happly, hlast⟩ := Checked.bind_eq_ok_iff.mp hmid
    cases hlast
    exact (effect_of_apply hs.consistent hs.tracks happly).settings_eq

/-! ## Runs -/

/-- The state, the source and the answers after one run for each date and clock reading. -/
def runEach : List (ServiceDate × Nat) → Updater → Source →
    Checked (Updater × Source × List (Except SourceError RunSummary))
  | [], s, source => .ok (s, source, [])
  | (today, now) :: rest, s, source =>
    match s.runAt source today now with
    | (_, .error fault) => .error fault
    | ((s, source), .ok answer) => do
      let (s, source, answers) ← runEach rest s source
      return (s, source, answer :: answers)

variable {source source' : Source} {today : ServiceDate} {now : Nat}

theorem source_of_runAt (s : Updater) (source : Source) (today : ServiceDate) (now : Nat) :
    (s.runAt source today now).1.2 = source.next.1 := by
  rcases runAt_cases s source today now with ⟨e, -, hrun⟩ | ⟨batch, -, hrun⟩
  · rw [hrun]
  · rw [hrun]

/-- A run fails if the pull does, with the same error. -/
theorem answer_of_runAt {answer : Except SourceError RunSummary}
    (h : (s.runAt source today now).2 = .ok answer) :
    answer.map (fun _ => ()) = source.next.2.map fun _ => () := by
  rcases runAt_cases s source today now with ⟨e, hnext, hrun⟩ | ⟨batch, hnext, hrun⟩
  · rw [hrun] at h
    cases h
    rw [hnext]
    rfl
  · rw [hrun] at h
    obtain ⟨summary, -, rfl⟩ := Checked.map_eq_ok_iff.mp h
    rw [hnext]
    rfl

/-- **A run that fails does nothing** but to pull. -/
theorem eq_of_runAt_error {e : SourceError} {w : Updater × Source}
    (h : s.runAt source today now = (w, .ok (.error e))) : w = (s, source.next.1) := by
  rcases runAt_cases s source today now with ⟨e', -, hrun⟩ | ⟨batch, -, hrun⟩
  · rw [hrun] at h
    cases h
    rfl
  · rw [hrun] at h
    obtain ⟨summary, -, hanswer⟩ := Checked.map_eq_ok_iff.mp (Prod.mk.inj h).2
    cases hanswer

/-- **A run applies the updates that its pull brings**, as far as the contents go. -/
theorem contents_of_perform_runAt (hs : s.Reachable) (hexpiry : s.settings.purgeExpired = false)
    (source : Source) (today : ServiceDate) (now : Nat) :
    (s.perform (.runAt source today now)).map contents =
      (applyEach (Source.brought source.next.2) s).map contents := by
  rw [perform_eq_passAll, Command.stages]
  rcases source.next.2 with e | batch
  · rfl
  · show (passAll ((batch.getD []).map Stage.apply ++ _) s).map contents =
      (applyEach (batch.getD []) s).map contents
    rw [passAll_append, ← applyEach_eq_passAll]
    cases hmid : applyEach (batch.getD []) s with
    | error fault => rfl
    | ok mid =>
      obtain ⟨last, hlast, hsame⟩ := (hs.performAll hmid).contents_settle
        (hs.settings_applyEach hmid ▸ hexpiry) today now
      rw [Checked.ok_bind, passAll_singleton, hlast]
      exact congrArg Except.ok hsame

/-- A run leaves the settings alone. -/
theorem Reachable.settings_perform_runAt (hs : s.Reachable)
    (hexpiry : s.settings.purgeExpired = false)
    (h : s.perform (.runAt source today now) = .ok s') : s'.settings = s.settings := by
  have hcontents := contents_of_perform_runAt hs hexpiry source today now
  rw [h] at hcontents
  cases hmid : applyEach (Source.brought source.next.2) s with
  | error fault =>
    rw [hmid] at hcontents
    cases hcontents
  | ok mid =>
    rw [hmid] at hcontents
    have hsame : s'.contents = mid.contents := Except.ok.inj hcontents
    exact (congrArg Contents.settings hsame).trans (hs.settings_applyEach hmid)

theorem runEach_cons (s : Updater) (source : Source) (today : ServiceDate) (now : Nat)
    (rest : List (ServiceDate × Nat)) :
    (runEach ((today, now) :: rest) s source).map (·.1.contents) =
      (s.perform (.runAt source today now) >>= fun s' => runEach rest s' source.next.1).map
        (·.1.contents) := by
  rw [runEach, perform, ← source_of_runAt s source today now]
  rcases s.runAt source today now with ⟨⟨s', source'⟩, fault | answer⟩
  · rfl
  · simp only [Checked.ok_bind]
    cases runEach rest s' source' <;> rfl

/-- **Runs lead to what the updates that they pull lead to one by one.** -/
theorem contents_of_runEach : ∀ (calls : List (ServiceDate × Nat)) {s t : Updater}
    (source : Source), s.Reachable → s.settings.purgeExpired = false → s.contents = t.contents →
      (runEach calls s source).map (·.1.contents) =
        (applyEach ((source.pull calls.length).2.flatMap Source.brought) t).map contents
  | [], s, t, source, _, _, h => congrArg Except.ok h
  | (today, now) :: rest, s, t, source, hs, hexpiry, h => by
    have hpull : (source.pull ((today, now) :: rest).length).2.flatMap Source.brought =
        Source.brought source.next.2 ++
          (source.next.1.pull rest.length).2.flatMap Source.brought := rfl
    rw [runEach_cons, hpull, applyEach_append]
    have hrun := (contents_of_perform_runAt hs hexpiry source today now).trans
      (applyEach_congr _ h)
    refine Checked.map_bind_congr hrun fun mid mid' hmid _ hsame => ?_
    exact contents_of_runEach rest _ (hs.perform hmid)
      (hs.settings_perform_runAt hexpiry hmid ▸ hexpiry) hsame

/-- Each run pulls once, and fails if its pull does. -/
theorem pulls_of_runEach {last : Updater} :
    ∀ {calls : List (ServiceDate × Nat)} {s : Updater} {source : Source}
      {answers : List (Except SourceError RunSummary)},
      runEach calls s source = .ok (last, source', answers) →
        source' = (source.pull calls.length).1 ∧ answers.map (·.map fun _ => ()) =
          (source.pull calls.length).2.map (·.map fun _ => ())
  | [], s, source, answers, h => by
    cases h
    exact ⟨rfl, rfl⟩
  | (today, now) :: rest, s, source, answers, h => by
    have hsource := source_of_runAt s source today now
    rw [runEach] at h
    rcases hrun : s.runAt source today now with ⟨⟨mid, between⟩, fault | answer⟩
    · rw [hrun] at h
      cases h
    · rw [hrun] at h hsource
      obtain ⟨⟨last', source'', answers'⟩, hrest, heq⟩ := Checked.bind_eq_ok_iff.mp h
      cases heq
      obtain rfl : between = source.next.1 := hsource
      obtain ⟨hsource', hanswers⟩ := pulls_of_runEach hrest
      refine ⟨hsource', ?_⟩
      have hanswer : answer.map (fun _ => ()) = source.next.2.map fun _ => () :=
        answer_of_runAt (by rw [hrun])
      exact congrArg₂ List.cons hanswer hanswers

/-! ## Directories -/

/-- The same network, the same books, and for each pattern and date the same trips with the same
times. -/
structure Matches (s t : Updater) : Prop where
  index_eq : s.index = t.index
  graph_eq : s.graph = t.graph
  added_eq : s.added = t.added
  rows_eq : ∀ pattern date, (s.buffer.get? pattern date).map Timetable.rows =
    (t.buffer.get? pattern date).map Timetable.rows

theorem matches_of_contents_eq (h : s.contents = t.contents) : s.Matches t := by
  refine ⟨congrArg Contents.index h, congrArg Contents.graph h, congrArg Contents.added h,
    fun pattern date => ?_⟩
  have hplain := congrArg (Option.map Timetable.rows)
    (Buffer.plain_get? (congrArg Contents.buffer h) pattern date)
  rwa [Option.map_map, Option.map_map] at hplain

/-- What runs over the files do to a state. Each takes one file, and fails exactly if that cannot
be read; once all of them ran, the state is as after the updates in those files, one by one. -/
structure Replays (s : Updater) (files : ReplayFiles) (calls : List (ServiceDate × Nat)) :
    Prop where
  fault_iff : ∀ fault, runEach calls s (.replay files) = .error fault ↔
    applyEach (Source.updatesIn (files.take calls.length)) s = .error fault
  answers : ∀ last source answers, runEach calls s (.replay files) = .ok (last, source, answers) →
    source = .replay (files.drop calls.length) ∧
    answers.map (·.map fun _ => ()) =
      (files.take calls.length).map (fun f => (Source.batchOf f.1 f.2).map fun _ => ()) ++
        List.replicate (calls.length - files.length) (.ok ())
  final : ∀ last source answers, runEach calls s (.replay files) = .ok (last, source, answers) →
    ∃ t, applyEach (Source.updatesIn (files.take calls.length)) s = .ok t ∧ last.Matches t

theorem Reachable.replays (hs : s.Reachable) (hexpiry : s.settings.purgeExpired = false)
    (files : ReplayFiles) (calls : List (ServiceDate × Nat)) : s.Replays files calls := by
  have hcontents := contents_of_runEach calls (.replay files) hs hexpiry rfl
  rw [Source.brought_pull_replay] at hcontents
  refine ⟨fun fault => ?_, fun last source answers h => ?_, fun last source answers h => ?_⟩
  · rw [← Checked.map_eq_error_iff (f := fun w => w.1.contents), hcontents,
      Checked.map_eq_error_iff]
  · obtain ⟨hsource, hanswers⟩ := pulls_of_runEach h
    rw [Source.pull_replay] at hsource hanswers
    refine ⟨hsource, hanswers.trans ?_⟩
    rw [List.map_append, List.map_map, List.map_replicate]
    refine congrArg (· ++ _) (List.map_congr_left fun f _ => ?_)
    show ((Source.batchOf f.1 f.2).map some).map (fun _ => ()) = _
    cases Source.batchOf f.1 f.2 <;> rfl
  · rw [h] at hcontents
    cases ht : applyEach (Source.updatesIn (files.take calls.length)) s with
    | error fault =>
      rw [ht] at hcontents
      cases hcontents
    | ok t =>
      rw [ht] at hcontents
      exact ⟨t, rfl, matches_of_contents_eq (Except.ok.inj hcontents)⟩

/-- **A replay is exhaustive and ordered, and survives bad files.** Take a directory, however it is
listed. Its files whose names end in `.json` are replayed in the order of their names: one by each
pull, whether or not it can be read, and nothing after the last.

A run that fails leaves the writer as it was. If nothing expires, any number of runs over the
directory from a reachable state, on any dates and at any times, take as many files, fail for those
that cannot be read, and lead to the network, the books and the realtime trips and times that the
updates in the others lead to when they are applied one by one; they meet a fault exactly if an
update does. -/
theorem replay_exact {entries : List (String × Option ByteArray)}
    (hnames : (entries.map Prod.fst).Nodup) :
    ∃ files : ReplayFiles,
      files.Pairwise (fun f g => f.1 < g.1) ∧
      (∀ name content, (name, content) ∈ files ↔ (name, some content) ∈ entries ∧
        ∃ stem : String, stem ≠ "" ∧ name = stem ++ ".json") ∧
      (∀ listed, listed.Perm entries → Source.ofDirectory listed = .replay files) ∧
      (∀ n, (Source.replay files).pull n = (.replay (files.drop n),
        (files.take n).map (fun f => (Source.batchOf f.1 f.2).map some) ++
          List.replicate (n - files.length) (.ok none))) ∧
      (∀ (s : Updater) source today now e w, s.runAt source today now = (w, .ok (.error e)) →
        w = (s, source.next.1)) ∧
      ∀ s : Updater, s.Reachable → s.settings.purgeExpired = false →
        ∀ calls, s.Replays files calls := by
  obtain ⟨files, hfiles, hsorted, hmem⟩ := Source.exists_ofDirectory hnames
  refine ⟨files, hsorted, hmem, fun listed hlisted => ?_, fun n => Source.pull_replay n files,
    fun s source today now e w => eq_of_runAt_error, fun s hs hexpiry => hs.replays hexpiry files⟩
  exact (Source.ofDirectory_perm hnames hlisted).trans hfiles

/-- The network of the shuttle, on which nothing expires. -/
def lastingShuttle : Updater :=
  match shuttle.build.run with
  | .ok (.ok (x, g)) => .start x g { Settings.standard with purgeExpired := false }
  | _ => .start .empty (.ofServices 0 0 .empty) .standard

theorem reachable_lastingShuttle : lastingShuttle.Reachable :=
  ⟨shuttle, _, _, { Settings.standard with purgeExpired := false }, [], rfl, rfl⟩

/-- A directory of a file with the given content, a note, a file that is cut short, and a
directory. -/
def shuttleDirectory (content : ByteArray) : List (String × Option ByteArray) :=
  [("b.json", some content), ("notes.txt", some "".toUTF8), ("a.json", some "[".toUTF8),
    ("c.json", none)]

theorem files_shuttleDirectory {content : ByteArray} {files : ReplayFiles}
    (hsorted : files.Pairwise fun f g => f.1 < g.1)
    (hmem : ∀ name found, (name, found) ∈ files ↔ (name, some found) ∈ shuttleDirectory content ∧
      ∃ stem : String, stem ≠ "" ∧ name = stem ++ ".json") :
    files = [("a.json", "[".toUTF8), ("b.json", content)] := by
  have horder : "a.json" < "b.json" := by decide
  refine Source.files_eq hsorted (List.pairwise_pair.mpr horder) fun name found => ?_
  rw [hmem, ← Source.extension?_eq_json_iff]
  simp only [shuttleDirectory, List.mem_cons, Prod.mk.injEq, Option.some.injEq, reduceCtorEq,
    and_false, List.not_mem_nil, or_false]
  constructor
  · rintro ⟨⟨rfl, rfl⟩ | ⟨rfl, -⟩ | ⟨rfl, rfl⟩, hjson⟩
    · exact .inr ⟨rfl, rfl⟩
    · exact absurd hjson (by decide)
    · exact .inl ⟨rfl, rfl⟩
  · rintro (⟨rfl, rfl⟩ | ⟨rfl, rfl⟩)
    · exact ⟨.inr (.inr ⟨rfl, rfl⟩), by decide⟩
    · exact ⟨.inl ⟨rfl, rfl⟩, by decide⟩

/-- The text of a batch that adds one trip. -/
def shuttleBatch : ByteArray := (Json.ofBatch [extraTrip "n" "x" "y" 150 250]).write.toUTF8

theorem batchOf_shuttleBatch :
    Source.batchOf "b.json" shuttleBatch = .ok [extraTrip "n" "x" "y" 150 250] := by
  refine Json.batchOf_write "b.json" (List.forall_mem_singleton.mpr ?_)
  have hid : ∀ name, name ≠ "" → (⟨"a", name⟩ : FeedId).IsTextual := fun name hname =>
    ⟨(by decide : "a" ≠ ""), (by decide : ':' ∉ "a".toList), hname⟩
  have hdate : shuttleDate.IsTextual := ⟨by decide, by decide⟩
  have hn := hid "n" (by decide)
  refine ⟨hn, hdate, ?_, fun _ h => Option.some.inj h ▸ hid "r" (by decide), nofun⟩
  exact List.forall_mem_cons.mpr ⟨⟨hn, hid "x" (by decide), hdate⟩,
    List.forall_mem_singleton.mpr ⟨hn, hid "y" (by decide), hdate⟩⟩

/-- Two runs over the directory: the first fails for the file that is cut short, the second adds
the trip, and none is left. -/
theorem replay_exact_shuttle : ((shuttleDirectory shuttleBatch).map Prod.fst).Nodup ∧
    lastingShuttle.Reachable ∧ lastingShuttle.settings.purgeExpired = false ∧
    ∃ last answers t,
      runEach [(shuttleDate, 0), (shuttleDate, 0)] lastingShuttle
        (.ofDirectory (shuttleDirectory shuttleBatch)) = .ok (last, .replay [], answers) ∧
      answers.map (·.map fun _ => ()) = [.error (.malformed "a.json" .mismatch), .ok ()] ∧
      applyEach [extraTrip "n" "x" "y" 150 250] lastingShuttle = .ok t ∧
      last.Matches t ∧ t.index.patternForTrip? ⟨"a", "n"⟩ ≠ none := by
  have hnames : ((shuttleDirectory shuttleBatch).map Prod.fst).Nodup := by
    unfold shuttleDirectory
    decide
  obtain ⟨files, hsorted, hmem, hlisted, -, -, hruns⟩ := replay_exact hnames
  have hdirectory := hlisted _ (.refl _)
  have hfiles := files_shuttleDirectory hsorted hmem
  have hcut : Source.batchOf "a.json" "[".toUTF8 = .error (.malformed "a.json" .mismatch) := rfl
  have hread : Source.updatesIn (files.take 2) = [extraTrip "n" "x" "y" 150 250] := by
    rw [hfiles]
    simp only [List.take, Source.updatesIn, List.flatMap_cons, hcut, batchOf_shuttleBatch]
    rfl
  obtain ⟨t, ht, hindexed⟩ : ∃ t, applyEach [extraTrip "n" "x" "y" 150 250] lastingShuttle = .ok t ∧
      t.index.patternForTrip? ⟨"a", "n"⟩ ≠ none := ⟨_, rfl, nofun⟩
  have hreplays := hruns lastingShuttle reachable_lastingShuttle rfl
    [(shuttleDate, 0), (shuttleDate, 0)]
  have hsame : applyEach (Source.updatesIn (files.take 2)) lastingShuttle = .ok t := by
    rw [hread, ht]
  refine ⟨hnames, reachable_lastingShuttle, rfl, ?_⟩
  rw [hdirectory]
  cases hrun : runEach [(shuttleDate, 0), (shuttleDate, 0)] lastingShuttle (.replay files) with
  | error fault => cases ((hreplays.fault_iff fault).mp hrun).symm.trans hsame
  | ok out =>
    obtain ⟨last, source, answers⟩ := out
    obtain ⟨hsource, hanswers⟩ := hreplays.answers last source answers hrun
    obtain ⟨t', ht', hmatches⟩ := hreplays.final last source answers hrun
    cases ht'.symm.trans hsame
    refine ⟨last, answers, t, ?_, ?_, ht, hmatches, hindexed⟩
    · rw [hsource, hfiles]
      rfl
    · rw [hanswers, hfiles]
      simp only [List.length_cons, List.take_succ_cons, List.map_cons, hcut, batchOf_shuttleBatch]
      rfl

end LiveTimetable.Updater
