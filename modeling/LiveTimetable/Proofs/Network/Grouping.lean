import LiveTimetable.Network.Fixture
import Mathlib.Data.List.Induction
import Mathlib.Data.List.Nodup

/-!
# Grouping the trips of a schedule

The courses of the trips decide which trips share a pattern. The trips come in the order of the
file and go, one after another, to the group of their course; courses come in the order of their
first trips, each once, which is what `List.eraseDups` makes of the courses of all trips.

* `Fixture.StablySorts`: the order of the sequence numbers, equal numbers as they were. There is
  one such list only (`StablySorts.unique`), and `bySequence` makes it (`bySequence_stable`).
* `Fixture.groupsOf`: the groups of published trips, told by filters.
* `Fixture.groupTrips_eq_ok_iff`: trips are grouped if each calls somewhere, and at listed stops
  only. The groups are those of all trips.
* `Fixture.registerServices_iff`: services are registered if their agencies are listed.
-/

namespace LiveTimetable

/-! ## Putting stop times in order -/

namespace Fixture

/-- The rows with a sequence number. -/
def numbered (n : UInt32) (rows : List StopTime) : List StopTime :=
  rows.filter fun s => s.sequence == n

/-- The rows are the stop times in the order of their sequence numbers. Those with equal numbers
are in the order that they had. -/
structure StablySorts (rows stopTimes : List StopTime) : Prop where
  ascending : rows.Pairwise fun s t => s.sequence ≤ t.sequence
  numbered_eq : ∀ n, numbered n rows = numbered n stopTimes

variable {rows rows' stopTimes : List StopTime} {s t : StopTime} {n : UInt32}

theorem numbered_cons : numbered n (s :: rows) =
    if s.sequence = n then s :: numbered n rows else numbered n rows := by
  unfold numbered
  rw [List.filter_cons]
  simp only [beq_iff_eq]

theorem numbered_append : numbered n (rows ++ rows') = numbered n rows ++ numbered n rows' :=
  List.filter_append ..

theorem mem_numbered : s ∈ numbered n rows ↔ s ∈ rows ∧ s.sequence = n := by
  unfold numbered
  rw [List.mem_filter, beq_iff_eq]

/-- Lists with the same rows of each number have the same rows. -/
theorem mem_iff_of_numbered_eq (h : ∀ n, numbered n rows = numbered n rows') :
    s ∈ rows ↔ s ∈ rows' := by
  have hnumber : s ∈ numbered s.sequence rows ↔ s ∈ numbered s.sequence rows' := by rw [h]
  simpa only [mem_numbered, and_true] using hnumber

/-- The first of ascending rows has the least number. -/
theorem head_le_of_ascending (h : (s :: rows).Pairwise fun s t => s.sequence ≤ t.sequence)
    (ht : t ∈ s :: rows) : s.sequence ≤ t.sequence := by
  rcases List.mem_cons.mp ht with rfl | ht
  · exact UInt32.le_refl _
  · exact List.rel_of_pairwise_cons h ht

/-- **There is one stable order.** -/
theorem StablySorts.unique (h : StablySorts rows stopTimes) (h' : StablySorts rows' stopTimes) :
    rows = rows' := by
  have heq : ∀ n, numbered n rows = numbered n rows' := fun n =>
    (h.numbered_eq n).trans (h'.numbered_eq n).symm
  have hs := h.ascending
  have ht := h'.ascending
  clear h h'
  induction rows generalizing rows' with
  | nil =>
    refine (List.eq_nil_iff_forall_not_mem.mpr fun t ht => ?_).symm
    exact List.not_mem_nil ((mem_iff_of_numbered_eq heq).mpr ht)
  | cons s rest ih =>
    cases rows' with
    | nil => exact absurd ((mem_iff_of_numbered_eq heq).mp List.mem_cons_self) List.not_mem_nil
    | cons t others =>
      -- both heads have the least number, and are the first rows of that number
      have hnumber : s.sequence = t.sequence := UInt32.le_antisymm
        (head_le_of_ascending hs ((mem_iff_of_numbered_eq heq).mpr List.mem_cons_self))
        (head_le_of_ascending ht ((mem_iff_of_numbered_eq heq).mp List.mem_cons_self))
      have hfirst := heq s.sequence
      rw [numbered_cons, numbered_cons, if_pos rfl, if_pos hnumber.symm] at hfirst
      obtain rfl := (List.cons.inj hfirst).1
      refine congrArg (s :: ·) (ih (fun n => ?_) hs.of_cons ht.of_cons)
      have hn := heq n
      rw [numbered_cons, numbered_cons] at hn
      by_cases hsn : s.sequence = n
      · rw [if_pos hsn, if_pos hsn] at hn
        exact (List.cons.inj hn).2
      · rwa [if_neg hsn, if_neg hsn] at hn

theorem mem_insertBySequence : t ∈ insertBySequence s rows ↔ t = s ∨ t ∈ rows := by
  induction rows with
  | nil => exact List.mem_cons
  | cons first rest ih =>
    rw [insertBySequence]
    split
    · exact List.mem_cons
    · rw [List.mem_cons, ih, List.mem_cons]
      exact or_left_comm

theorem ascending_insertBySequence (h : rows.Pairwise fun s t => s.sequence ≤ t.sequence) :
    (insertBySequence s rows).Pairwise fun s t => s.sequence ≤ t.sequence := by
  induction rows with
  | nil => exact List.pairwise_singleton _ _
  | cons first rest ih =>
    rw [insertBySequence]
    split
    · rename_i hlt
      refine List.pairwise_cons.mpr ⟨fun t ht => ?_, h⟩
      exact UInt32.le_trans (UInt32.le_of_lt hlt) (head_le_of_ascending h ht)
    · rename_i hnot
      refine List.pairwise_cons.mpr ⟨fun t ht => ?_, ih h.of_cons⟩
      rcases mem_insertBySequence.mp ht with rfl | ht
      · exact UInt32.not_lt.mp hnot
      · exact List.rel_of_pairwise_cons h ht

/-- A stop time is put behind all others of its number. -/
theorem numbered_insertBySequence (h : rows.Pairwise fun s t => s.sequence ≤ t.sequence) :
    numbered n (insertBySequence s rows) = numbered n (rows ++ [s]) := by
  induction rows with
  | nil => rfl
  | cons first rest ih =>
    rw [insertBySequence]
    split
    · rename_i hlt
      rw [numbered_append, numbered_cons]
      by_cases hsn : s.sequence = n
      · -- the rows behind have greater numbers
        have hnone : numbered n (first :: rest) = [] := by
          refine List.eq_nil_iff_forall_not_mem.mpr fun t ht => ?_
          obtain ⟨hmem, htn⟩ := mem_numbered.mp ht
          have hle := head_le_of_ascending h hmem
          rw [htn, ← hsn] at hle
          exact UInt32.not_lt.mpr hle hlt
        rw [if_pos hsn, hnone, List.nil_append, numbered_cons, if_pos hsn]
        rfl
      · rw [if_neg hsn, numbered_cons (s := s), if_neg hsn]
        exact (List.append_nil _).symm
    · rw [numbered_cons, ih h.of_cons, List.cons_append, numbered_cons]

/-- **Stop times are put in the stable order.** -/
theorem bySequence_stable (stopTimes : List StopTime) :
    StablySorts (bySequence stopTimes) stopTimes := by
  have hfold : ∀ rest rows done, StablySorts rows done →
      StablySorts (rest.foldl (fun sorted s => insertBySequence s sorted) rows) (done ++ rest) := by
    intro rest
    induction rest with
    | nil =>
      intro rows done h
      rwa [List.append_nil]
    | cons s rest ih =>
      intro rows done h
      rw [List.append_cons]
      refine ih _ _ ⟨ascending_insertBySequence h.ascending, fun n => ?_⟩
      rw [numbered_insertBySequence h.ascending, numbered_append, numbered_append, h.numbered_eq]
  exact hfold stopTimes [] [] ⟨List.Pairwise.nil, fun n => rfl⟩

theorem mem_bySequence : s ∈ bySequence stopTimes ↔ s ∈ stopTimes :=
  mem_iff_of_numbered_eq (bySequence_stable stopTimes).numbered_eq

theorem bySequence_eq_nil_iff : bySequence stopTimes = [] ↔ stopTimes = [] := by
  simp only [List.eq_nil_iff_forall_not_mem, mem_bySequence]

end Fixture

/-! ## Trips as they are published -/

namespace TripRecord

/-- The route of a trip, and its stops in the order of its stop times. -/
def course (r : TripRecord) : Course :=
  ⟨r.trip.routeId, (Fixture.bySequence r.stopTimes).map StopTime.stopId⟩

/-- The trip with its stop times in order, as a publication of a serial number. -/
def baseline (r : TripRecord) (serial : Nat) : Baseline :=
  ⟨serial, r.trip, (Fixture.bySequence r.stopTimes).map Call.ofStopTime⟩

theorem stopCount_baseline (r : TripRecord) (serial : Nat) :
    (r.baseline serial).stopCount = r.course.stops.length := by
  unfold Baseline.stopCount baseline course
  rw [List.length_map, List.length_map]

end TripRecord

namespace Fixture

/-! ## Courses in the order of their first trips -/

section FirstTrips

variable {α : Type} [DecidableEq α] {xs : List α} {x : α}

theorem eraseDups_concat : (xs ++ [x]).eraseDups =
    if x ∈ xs then xs.eraseDups else xs.eraseDups ++ [x] := by
  rw [List.eraseDups_append]
  by_cases hx : x ∈ xs
  · simp [List.removeAll, hx]
  · simp [List.removeAll, hx, List.eraseDups_cons]

theorem nodup_eraseDups (xs : List α) : xs.eraseDups.Nodup := by
  induction xs using List.reverseRecOn with
  | nil => exact List.nodup_nil
  | append_singleton xs x ih =>
    rw [eraseDups_concat]
    split
    · exact ih
    · rename_i hnew
      refine List.nodup_append.mpr ⟨ih, List.nodup_singleton x, fun y hy z hz => ?_⟩
      rw [List.mem_singleton.mp hz]
      rintro rfl
      exact hnew (List.mem_eraseDups.mp hy)

end FirstTrips

/-! ## Groups -/

/-- The groups of published trips, each with its course. -/
def groupsOf (entries : List (Course × Baseline)) : Groups :=
  (entries.map Prod.fst).eraseDups.map fun c => (c, (entries.filter (·.1 = c)).map Prod.snd)

/-- The records as they are published with serial numbers counting up, each with its course. -/
def publications (serial : Nat) (records : List TripRecord) : List (Course × Baseline) :=
  (records.zipIdx serial).map fun r => (r.1.course, r.1.baseline r.2)

variable {course : Course} {b : Baseline} {entries : List (Course × Baseline)}
  {records : List TripRecord} {serial : Nat} {x : TransitIndex} {groups : Groups}

/-- A trip goes to the end of the group of its course, or makes a group at the end. -/
theorem addToGroup_map {courses : List Course} (hnodup : courses.Nodup)
    (trips : Course → List Baseline) :
    addToGroup course b (courses.map fun c => (c, trips c)) =
      if course ∈ courses then
        courses.map fun c => (c, if c = course then trips c ++ [b] else trips c)
      else courses.map (fun c => (c, trips c)) ++ [(course, [b])] := by
  induction courses with
  | nil => rfl
  | cons first rest ih =>
    obtain ⟨hfirst, hrest⟩ := List.nodup_cons.mp hnodup
    rw [List.map_cons, addToGroup]
    by_cases heq : first = course
    · subst heq
      have hothers : rest.map (fun c => (c, if c = first then trips c ++ [b] else trips c)) =
          rest.map fun c => (c, trips c) := by
        refine List.map_congr_left fun c hc => ?_
        have hne : c ≠ first := fun h => hfirst (h ▸ hc)
        rw [if_neg hne]
      rw [if_pos rfl, if_pos List.mem_cons_self, List.map_cons, if_pos rfl, hothers]
    · rw [if_neg heq, ih hrest]
      by_cases hmem : course ∈ rest
      · rw [if_pos hmem, if_pos (List.mem_cons_of_mem _ hmem), List.map_cons, if_neg heq]
      · have hnot : course ∉ first :: rest := fun h =>
          hmem ((List.mem_cons.mp h).resolve_left (Ne.symm heq))
        rw [if_neg hmem, if_neg hnot]
        rfl

/-- To add a trip to the groups is to have one more trip to group. -/
theorem addToGroup_groupsOf (course : Course) (b : Baseline) (entries : List (Course × Baseline)) :
    addToGroup course b (groupsOf entries) = groupsOf (entries ++ [(course, b)]) := by
  have hfilter : ∀ c, ((entries ++ [(course, b)]).filter (·.1 = c)).map Prod.snd =
      if c = course then (entries.filter (·.1 = c)).map Prod.snd ++ [b]
      else (entries.filter (·.1 = c)).map Prod.snd := by
    intro c
    rw [List.filter_append, List.map_append]
    by_cases hc : c = course
    · simp [hc]
    · simp [hc, Ne.symm hc]
  unfold groupsOf
  rw [addToGroup_map (nodup_eraseDups _), List.map_append, List.map_singleton, eraseDups_concat]
  simp only [List.mem_eraseDups, hfilter]
  split
  · rfl
  · rename_i hnew
    rw [List.map_append, List.map_singleton, if_pos rfl]
    have hnone : entries.filter (·.1 = course) = [] := by
      refine List.filter_eq_nil_iff.mpr fun e he => ?_
      rw [decide_eq_true_eq]
      rintro rfl
      exact hnew (List.mem_map_of_mem he)
    have hothers : (entries.map Prod.fst).eraseDups.map (fun c =>
          (c, if c = course then (entries.filter (·.1 = c)).map Prod.snd ++ [b]
            else (entries.filter (·.1 = c)).map Prod.snd)) =
        (entries.map Prod.fst).eraseDups.map fun c =>
          (c, (entries.filter (·.1 = c)).map Prod.snd) := by
      refine List.map_congr_left fun c hc => ?_
      have hne : c ≠ course := fun h => hnew (List.mem_eraseDups.mp (h ▸ hc))
      rw [if_neg hne]
    rw [hothers, hnone]
    rfl

/-- A trip can be published if it calls somewhere, and at listed stops only. -/
def Callable (x : TransitIndex) (r : TripRecord) : Prop :=
  r.stopTimes ≠ [] ∧ ∀ s ∈ r.stopTimes, x.stops.contains s.stopId = true

instance (x : TransitIndex) (r : TripRecord) : Decidable (Callable x r) :=
  inferInstanceAs (Decidable (_ ∧ _))

theorem groupTrips_cons_of_callable {r : TripRecord} (h : Callable x r) :
    groupTrips x serial (r :: records) groups =
      groupTrips x (serial + 1) records (addToGroup r.course (r.baseline serial) groups) := by
  have hlisted : (bySequence r.stopTimes).find? (fun s => !x.stops.contains s.stopId) = none := by
    refine List.find?_eq_none.mpr fun s hs => ?_
    rw [h.2 s (mem_bySequence.mp hs)]
    exact Bool.false_ne_true
  have hcalls : ¬ (bySequence r.stopTimes).isEmpty = true := fun hempty =>
    h.1 (bySequence_eq_nil_iff.mp (List.isEmpty_iff.mp hempty))
  have hpublish : Baseline.publish serial r.trip (bySequence r.stopTimes) =
      .ok (r.baseline serial) := if_neg hcalls
  simp only [groupTrips, hlisted, hpublish]
  rfl

theorem groupTrips_cons_of_not_callable {r : TripRecord} (h : ¬ Callable x r) :
    ∃ e, groupTrips x serial (r :: records) groups = .error e := by
  cases hfind : (bySequence r.stopTimes).find? fun s => !x.stops.contains s.stopId with
  | some s => exact ⟨.schedule (.unknownStop s.stopId), by simp only [groupTrips, hfind]⟩
  | none =>
    have hnil : r.stopTimes = [] := by
      refine Decidable.byContradiction fun hne => h ⟨hne, fun s hs => ?_⟩
      have := List.find?_eq_none.mp hfind s (mem_bySequence.mpr hs)
      simpa only [Bool.not_eq_true', Bool.not_eq_false] using this
    have hempty : (bySequence r.stopTimes).isEmpty = true :=
      List.isEmpty_iff.mpr (bySequence_eq_nil_iff.mpr hnil)
    have hpublish : Baseline.publish serial r.trip (bySequence r.stopTimes) =
        .error (.emptyTrip r.trip.id) := if_pos hempty
    exact ⟨.schedule (.emptyTrip r.trip.id), by simp only [groupTrips, hfind, hpublish]⟩

/-- **Trips are grouped by their courses**, if each can be published. -/
theorem groupTrips_eq_ok_iff : groupTrips x serial records (groupsOf entries) = .ok groups ↔
    (∀ r ∈ records, Callable x r) ∧ groups = groupsOf (entries ++ publications serial records) := by
  induction records generalizing serial entries with
  | nil =>
    unfold groupTrips publications
    simp only [List.not_mem_nil, false_imp_iff, implies_true, true_and, List.zipIdx_nil,
      List.map_nil, List.append_nil, Except.ok.injEq]
    exact eq_comm
  | cons r rest ih =>
    have hpub : publications serial (r :: rest) =
        (r.course, r.baseline serial) :: publications (serial + 1) rest := by
      unfold publications
      rw [List.zipIdx_cons, List.map_cons]
    rw [List.forall_mem_cons]
    by_cases hr : Callable x r
    · rw [groupTrips_cons_of_callable hr, addToGroup_groupsOf, ih, hpub, ← List.append_cons]
      exact ⟨fun h => ⟨⟨hr, h.1⟩, h.2⟩, fun h => ⟨h.1.2, h.2⟩⟩
    · obtain ⟨e, he⟩ := groupTrips_cons_of_not_callable hr
      rw [he]
      exact ⟨nofun, fun h => absurd h.1.1 hr⟩

/-! ## Services -/

/-- Services are registered if their agencies are listed. -/
theorem registerServices_iff {agencies : List Agency} {records : List ServiceRecord}
    {services : Services} : (∃ services', registerServices agencies records services =
      .ok services') ↔ ∀ r ∈ records, ∃ a ∈ agencies, a.id = r.id.agency := by
  induction records generalizing services with
  | nil => exact ⟨fun _ => nofun, fun _ => ⟨services, rfl⟩⟩
  | cons r rest ih =>
    rw [List.forall_mem_cons, registerServices]
    cases hfind : agencies.find? fun a => a.id == r.id.agency with
    | none =>
      simp only [reduceCtorEq, exists_false, false_iff, not_and]
      rintro ⟨a, ha, heq⟩
      exact absurd (beq_iff_eq.mpr heq) (List.find?_eq_none.mp hfind a ha)
    | some a =>
      have hid := List.find?_some hfind
      have ha : ∃ a ∈ agencies, a.id = r.id.agency :=
        ⟨a, List.mem_of_find?_eq_some hfind, beq_iff_eq.mp hid⟩
      simp only [ih]
      exact ⟨fun h => ⟨ha, h⟩, And.right⟩

end Fixture

end LiveTimetable
