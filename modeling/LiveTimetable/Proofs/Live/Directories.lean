import LiveTimetable.Live.Source

/-!
# Replays of directories

A replay hands out the files of a directory whose names end in `.json`, each of them once and in
the order of their names, however the directory was listed. Pull by pull it answers with the next
file, readable or not, and with nothing once there are no more.

* `Source.extension?_eq_json_iff`: the names of the files that are replayed.
* `Source.exists_ofDirectory`: which files are replayed, and in which order.
* `Source.pull_replay`: what the pulls answer.
-/

namespace LiveTimetable

namespace Source

/-! ## Names -/

theorem extension?_append_json {stem : String} (hstem : stem ≠ "") :
    extension? (stem ++ ".json") = some "json" := by
  have hending : (stem ++ ".json").toList.reverse.takeWhile (· != '.') =
      "json".toList.reverse := by
    rw [String.toList_append, List.reverse_append]
    rfl
  have hlength : 0 < stem.toList.length :=
    List.length_pos_iff.mpr fun hnil => hstem (String.toList_inj.mp hnil)
  unfold extension?
  simp only [hending]
  rw [if_pos ?_]
  · rfl
  · rw [String.toList_append, List.length_append]
    exact Nat.lt_add_of_pos_left hlength

theorem exists_stem_of_extension? {name : String} (h : extension? name = some "json") :
    ∃ stem : String, stem ≠ "" ∧ name = stem ++ ".json" := by
  have hsplit : name.toList.reverse.takeWhile (· != '.') ++
      name.toList.reverse.dropWhile (· != '.') = name.toList.reverse :=
    List.takeWhile_append_dropWhile
  have hdot := List.head?_dropWhile_not (· != '.') name.toList.reverse
  unfold extension? at h
  simp only [] at h
  split at h
  · rename_i hlength
    have hending : name.toList.reverse.takeWhile (· != '.') = "json".toList.reverse := by
      have hlist := congrArg String.toList (Option.some.inj h)
      rw [String.toList_ofList] at hlist
      rw [← hlist, List.reverse_reverse]
    rw [hending] at hsplit hlength
    have hcount := congrArg List.length hsplit
    simp only [List.length_append, List.length_reverse] at hcount hlength
    -- What stands before the ending is a dot and, as the name is longer, a stem.
    cases hrest : name.toList.reverse.dropWhile (· != '.') with
    | nil =>
      rw [hrest, List.length_nil] at hcount
      omega
    | cons c stem =>
      rw [hrest] at hsplit hdot hcount
      obtain rfl : c = '.' := by simpa using hdot
      have hname : name.toList = stem.reverse ++ ".json".toList := by
        rw [← List.reverse_reverse name.toList, ← hsplit]
        simp
      refine ⟨String.ofList stem.reverse, fun hempty => ?_, ?_⟩
      · have hnil : stem.reverse = [] := by simpa using congrArg String.toList hempty
        rw [List.reverse_eq_nil_iff.mp hnil, List.length_singleton] at hcount
        omega
      · apply String.toList_inj.mp
        rw [hname]
        simp
  · cases h

/-- **The names of the files that are replayed**: something, and the ending `.json`. -/
theorem extension?_eq_json_iff {name : String} :
    extension? name = some "json" ↔ ∃ stem : String, stem ≠ "" ∧ name = stem ++ ".json" := by
  refine ⟨exists_stem_of_extension?, ?_⟩
  rintro ⟨stem, hstem, rfl⟩
  exact extension?_append_json hstem

/-! ## Files -/

/-- The entries of a directory that are files have names of their own, as all entries have. -/
theorem nodup_files {entries : List (String × Option ByteArray)}
    (hnames : (entries.map Prod.fst).Nodup) :
    ((entries.filterMap fun e => e.2.map fun content => (e.1, content)).map Prod.fst).Nodup := by
  refine List.pairwise_map.mpr (List.pairwise_filterMap.mpr ?_)
  refine (List.pairwise_map.mp hnames).imp fun hne f hf g hg heq => hne ?_
  obtain ⟨content, -, rfl⟩ := Option.map_eq_some_iff.mp hf
  obtain ⟨content', -, rfl⟩ := Option.map_eq_some_iff.mp hg
  exact heq

/-- **The files that are replayed**: those whose names end in `.json`, in the order of their
names. -/
theorem exists_ofDirectory {entries : List (String × Option ByteArray)}
    (hnames : (entries.map Prod.fst).Nodup) : ∃ files : ReplayFiles,
      ofDirectory entries = replay files ∧ files.Pairwise (fun f g => f.1 < g.1) ∧
      ∀ name content, (name, content) ∈ files ↔ (name, some content) ∈ entries ∧
        ∃ stem : String, stem ≠ "" ∧ name = stem ++ ".json" := by
  refine ⟨_, rfl, (Table.sorted _).imp compareOfLessAndEq_eq_lt.mp, fun name content => ?_⟩
  rw [Table.mem_entries_ofList ((nodup_files hnames).sublist (List.filter_sublist.map _)),
    List.mem_filter, List.mem_filterMap, beq_iff_eq, extension?_eq_json_iff]
  refine and_congr_left' ⟨?_, fun h => ⟨_, h, rfl⟩⟩
  rintro ⟨⟨name', found⟩, he, hf⟩
  obtain ⟨content', rfl, heq⟩ := Option.map_eq_some_iff.mp hf
  cases heq
  exact he

/-- Files in the order of their names are told by what they are. -/
theorem files_eq {files files' : ReplayFiles} (hsorted : files.Pairwise fun f g => f.1 < g.1)
    (hsorted' : files'.Pairwise fun f g => f.1 < g.1)
    (h : ∀ name content, (name, content) ∈ files ↔ (name, content) ∈ files') : files = files' :=
  Table.entries_eq_of_mem_iff (hsorted.imp compareOfLessAndEq_eq_lt.mpr)
    (hsorted'.imp compareOfLessAndEq_eq_lt.mpr) h

/-- **The order in which a directory is listed makes no difference.** -/
theorem ofDirectory_perm {entries listed : List (String × Option ByteArray)}
    (hnames : (entries.map Prod.fst).Nodup) (h : listed.Perm entries) :
    ofDirectory listed = ofDirectory entries := by
  obtain ⟨files, heq, hsorted, hmem⟩ := exists_ofDirectory hnames
  obtain ⟨files', heq', hsorted', hmem'⟩ := exists_ofDirectory ((h.map _).nodup_iff.mpr hnames)
  rw [heq, heq']
  refine congrArg replay (files_eq hsorted' hsorted fun name content => ?_)
  rw [hmem, hmem', h.mem_iff]

/-- The updates in the files that can be read, in the order of the files. -/
def updatesIn (files : ReplayFiles) : List TripUpdate :=
  files.flatMap fun f => (batchOf f.1 f.2).toOption.getD []

/-! ## Pulls -/

/-- The updates that a pull brings. -/
def brought : Except SourceError (Option Batch) → List TripUpdate
  | .ok batch => batch.getD []
  | .error _ => []

/-- The source after `n` pulls, and what they answered. -/
def pull : (n : Nat) → Source → Source × List (Except SourceError (Option Batch))
  | 0, source => (source, [])
  | n + 1, source =>
    let (source, answer) := source.next
    let (source, answers) := pull n source
    (source, answer :: answers)

/-- **Each pull takes one file**, and after the last one there is nothing. -/
theorem pull_replay (n : Nat) (files : ReplayFiles) :
    (replay files).pull n = (replay (files.drop n),
      (files.take n).map (fun f => (batchOf f.1 f.2).map some) ++
        List.replicate (n - files.length) (.ok none)) := by
  induction n generalizing files with
  | zero => simp [pull]
  | succ n ih =>
    cases files with
    | nil =>
      simp only [pull, next, ih]
      simp [List.replicate_succ]
    | cons f rest =>
      obtain ⟨name, content⟩ := f
      simp only [pull, next, ih]
      simp

/-- What the pulls bring are the updates in the files. -/
theorem brought_pull_replay (n : Nat) (files : ReplayFiles) :
    ((replay files).pull n).2.flatMap brought = updatesIn (files.take n) := by
  have hfile : ∀ f : String × ByteArray, brought ((batchOf f.1 f.2).map some) =
      (batchOf f.1 f.2).toOption.getD [] := by
    intro f
    cases batchOf f.1 f.2 <;> rfl
  rw [pull_replay, List.flatMap_append, List.flatMap_map]
  simp only [hfile]
  have hnone : (List.replicate (n - files.length) (.ok none)).flatMap brought = [] :=
    List.flatMap_eq_nil_iff.mpr fun a ha => by rw [List.eq_of_mem_replicate ha]; rfl
  rw [hnone, List.append_nil]
  rfl

end Source

end LiveTimetable
