import LiveTimetable.Proofs.Network.Answers
import LiveTimetable.Proofs.Network.Building
import LiveTimetable.Proofs.Network.Grouping
import LiveTimetable.Proofs.Network.Parts
import LiveTimetable.Proofs.Timetable.Columns

/-!
# The patterns of a schedule

Each group of trips becomes a pattern, numbered by the place of the group. Index and graph take
the patterns one by one, and neither knows of the other's numbers; yet they agree.

* `Fixture.Laid`: a network of groups, pattern by pattern. One more pattern makes it the network
  of one more group (`Laid.add`), so `addPatterns` lays all groups (`addPatterns_laid`).
* `Fixture.Complete`: the file lists what it refers to, and every trip calls somewhere. This is
  what it takes to build the network (`build_cases`).
* `Fixture.Shown`: the network told by the courses of the trips.
* `Fixture.buildWith_eq`: the numbers of the patterns need not be wider than the file makes them.
* `Fixture.build_exact`: which files make a network, and which one.
-/

namespace LiveTimetable

namespace Pattern

/-- The first revision of a pattern for a group of trips. -/
structure Carries (p : Pattern) (number : Nat) (e : Course × List Baseline) : Prop where
  id_eq : p.id = ⟨number⟩
  routeId_eq : p.routeId = e.1.routeId
  stops_eq : p.stops = e.1.stops
  rows_eq : p.timetable.rows = e.2.map Row.ofBaseline

/-- The identifiers of the trips of a group. -/
def idsOf (e : Course × List Baseline) : List TripId := e.2.map fun b => b.trip.id

variable {p : Pattern} {number : Nat} {e : Course × List Baseline}

theorem Carries.trips_eq (h : p.Carries number e) : p.trips = idsOf e := by
  show p.timetable.rows.map Row.tripId = _
  rw [h.rows_eq, List.map_map]
  rfl

/-- A pattern of different trips that call at its stops is not refused, and can be finished. -/
theorem exists_publish (number : Nat) (isSynthesized : Bool) (hnodup : (idsOf e).Nodup)
    (hcount : ∀ b ∈ e.2, b.stopCount = e.1.stops.length) :
    ∃ p, (publish ⟨number⟩ e.1.routeId e.1.stops e.2 isSynthesized).run = .ok (.ok p) ∧
      p.Carries number e := by
  obtain ⟨t, ht⟩ := Timetable.publish_eq_ok_iff.mpr ⟨hcount, hnodup⟩
  obtain ⟨t', ht'⟩ := (Timetable.Reachable.published ht).intact.exists_finish
  have hrun : (publish ⟨number⟩ e.1.routeId e.1.stops e.2 isSynthesized).run =
      .ok (.ok ⟨⟨number⟩, e.1.routeId, t', true, isSynthesized, 0⟩) := by
    rw [publish, ht, Attempt.mk_ok_bind]
    exact Attempt.lift_bind_eq_ok_iff.mpr ⟨t', ht', rfl⟩
  obtain ⟨hid, hroute, hstops, -, -, hrows, -⟩ := publish_spec hrun
  exact ⟨_, hrun, hid, hroute, hstops, hrows⟩

end Pattern

namespace TransitIndex

/-- Numbers that count up have successors as long as the last one fits. -/
theorem mapM_successors (k : Nat) :
    (((List.range k).map PatternId.mk).mapM fun p => Checked.word32 (p.number + 1)) =
      if k < 4294967296 then .ok ((List.range k).map (· + 1)) else .error .overflow := by
  induction k with
  | zero => rfl
  | succ k ih =>
    rw [List.range_succ, List.map_append, List.mapM_append, ih, List.map_append]
    by_cases hk : k + 1 < 4294967296
    · have hk' : k < 4294967296 := by omega
      simp [hk, hk', Checked.word32]
    · by_cases hk' : k < 4294967296
      · simp [hk, hk', Checked.word32]
      · simp [hk, hk']

theorem foldl_max_range (k : Nat) : ((List.range k).map (· + 1)).foldl max 0 = k := by
  induction k with
  | zero => rfl
  | succ k ih =>
    rw [List.range_succ, List.map_append, List.foldl_append, ih]
    exact Nat.max_eq_right (Nat.le_succ k)

/-- After patterns that are numbered without gaps comes their number, if it fits. -/
theorem nextPatternId_eq {x : TransitIndex} {k : Nat}
    (h : x.patterns.keys = (List.range k).map PatternId.mk) :
    x.nextPatternId = PatternId.mk <$> Checked.word32 k := by
  rw [nextPatternId, h, mapM_successors, Checked.word32]
  split
  · rw [Checked.ok_bind, foldl_max_range]
    rfl
  · rfl

theorem contains_foldl_addStop (stops : List Stop) (x : TransitIndex) (id : StopId) :
    (stops.foldl addStop x).stops.contains id = true ↔
      (∃ s ∈ stops, s.id = id) ∨ x.stops.contains id = true := by
  induction stops generalizing x with
  | nil => simp
  | cons s rest ih =>
    rw [List.foldl_cons, ih, addStop, Table.contains_insert, List.exists_mem_cons_iff,
      @eq_comm _ id s.id, or_assoc]
    exact or_left_comm

theorem stops_foldl_addAgency (agencies : List Agency) (x : TransitIndex) :
    (agencies.foldl addAgency x).stops = x.stops := by
  induction agencies generalizing x with
  | nil => rfl
  | cons a rest ih => exact ih (x.addAgency a)

end TransitIndex

namespace Fixture

open Pattern (idsOf)

/-! ## Laying groups -/

/-- Index and graph have a pattern for each group, numbered by its place, and no others. -/
structure Laid (groups : Groups) (x : TransitIndex) (g : Graph) : Prop where
  keys_eq : x.patterns.keys = (List.range groups.length).map PatternId.mk
  pattern : ∀ i e, groups[i]? = some e → ∃ p, x.patterns.get? ⟨i⟩ = some p ∧ p.Carries i e
  patternOf : ∀ trip id, x.patternOf.get? trip = some id ↔
    ∃ e, groups[id.number]? = some e ∧ trip ∈ idsOf e
  parts : ∃ parts, g.ConsistsOf parts ∧
    parts.map (fun a => (a.pattern, a.stops)) = groups.zipIdx.map fun e => (⟨e.2⟩, e.1.1.stops)
  counts : g.Counts

variable {groups : Groups} {e : Course × List Baseline} {x x' : TransitIndex} {g g' : Graph}
  {p : Pattern}

/-- Nothing is the network of no groups. -/
theorem laid_nil (hp : x.patterns = Table.empty) (hc : x.patternOf = Table.empty)
    (services : Services) (first serial : Nat) :
    Laid [] x (.ofServices first serial services) where
  keys_eq := by
    rw [hp]
    rfl
  pattern i e h := by cases h
  patternOf trip id := by
    rw [hc]
    constructor
    · intro h
      cases h
    · rintro ⟨e, he, -⟩
      cases he
  parts := ⟨[], ⟨rfl, rfl, nofun, List.nodup_nil⟩, rfl⟩
  counts := ⟨nofun, nofun⟩

theorem getElem?_concat_iff {α : Type} {xs : List α} {x y : α} {i : Nat} :
    (xs ++ [x])[i]? = some y ↔ xs[i]? = some y ∨ (i = xs.length ∧ y = x) := by
  by_cases hi : i < xs.length
  · rw [List.getElem?_append_left hi]
    exact (or_iff_left fun h => absurd h.1 (Nat.ne_of_lt hi)).symm
  · rw [List.getElem?_append_right (Nat.le_of_not_lt hi),
      List.getElem?_eq_none (Nat.le_of_not_lt hi), List.getElem?_singleton]
    constructor
    · intro h
      split at h
      · exact Or.inr ⟨by omega, (Option.some.inj h).symm⟩
      · cases h
    · rintro (h | ⟨rfl, rfl⟩)
      · cases h
      · rw [Nat.sub_self, if_pos rfl]

/-- The next pattern is taken, under the next number. -/
theorem Laid.entries_register (h : Laid groups x g) (hp : p.Carries groups.length e) :
    x.addPattern p = .ok (x.register p) ∧
      (x.register p).patterns.keys = (List.range (groups ++ [e]).length).map PatternId.mk := by
  have hlt : ∀ id ∈ x.patterns.keys, compare id p.id = .lt := by
    rw [h.keys_eq, hp.id_eq]
    intro id hid
    obtain ⟨i, hi, rfl⟩ := List.mem_map.mp hid
    exact Nat.compare_eq_lt.mpr (List.mem_range.mp hi)
  refine ⟨if_neg fun hcontains => ?_, ?_⟩
  · obtain ⟨q, hq⟩ := Option.isSome_iff_exists.mp hcontains
    have := hlt p.id (Table.mem_keys_iff.mpr ⟨q, hq⟩)
    rw [Table.compare_refl] at this
    cases this
  · have hentries := x.patterns.entries_insert_of_forall_lt p hlt
    have hkeys : (x.register p).patterns.keys = x.patterns.keys ++ [p.id] := by
      show (x.patterns.insert p.id p).entries.map Prod.fst = _
      rw [hentries, List.map_append]
      rfl
    rw [hkeys, h.keys_eq, hp.id_eq, List.length_append, List.length_singleton, List.range_succ,
      List.map_append]
    rfl

/-- The number after those of the groups is that of no part. -/
theorem next_not_mem {parts : List Part}
    (hshape : parts.map (fun a => (a.pattern, a.stops)) =
      groups.zipIdx.map fun e => ((⟨e.2⟩ : PatternId), e.1.1.stops)) :
    (⟨groups.length⟩ : PatternId) ∉ parts.map Part.pattern := by
  intro hmem
  obtain ⟨a, ha, hid⟩ := List.mem_map.mp hmem
  have hshown : (a.pattern, a.stops) ∈ parts.map fun a => (a.pattern, a.stops) :=
    List.mem_map_of_mem ha
  rw [hshape] at hshown
  obtain ⟨⟨e', i⟩, hi, heq⟩ := List.mem_map.mp hshown
  have hlt := List.snd_lt_of_mem_zipIdx hi
  have hnumber := congrArg PatternId.number ((Prod.mk.inj heq).1.trans hid)
  exact absurd hnumber (Nat.ne_of_lt (by simpa using hlt))

/-- The pattern that is registered claims the trips of its group, and no others. -/
theorem Laid.patternOf_register (h : Laid groups x g) (hp : p.Carries groups.length e)
    (hnew : ∀ e' ∈ groups, ∀ trip ∈ idsOf e, trip ∉ idsOf e') (trip : TripId) (id : PatternId) :
    (x.register p).patternOf.get? trip = some id ↔
      ∃ e', (groups ++ [e])[id.number]? = some e' ∧ trip ∈ idsOf e' := by
  have hget : (x.register p).patternOf.get? trip =
      if trip ∈ p.trips then some p.id else x.patternOf.get? trip :=
    TransitIndex.get?_foldl_insert ..
  rw [hget, hp.trips_eq, hp.id_eq]
  by_cases htrip : trip ∈ idsOf e
  · rw [if_pos htrip, Option.some.injEq]
    constructor
    · rintro rfl
      exact ⟨e, getElem?_concat_iff.mpr (Or.inr ⟨rfl, rfl⟩), htrip⟩
    · rintro ⟨e', he', hmem⟩
      rcases getElem?_concat_iff.mp he' with hold | ⟨hlast, -⟩
      · exact absurd hmem (hnew e' (List.mem_of_getElem? hold) trip htrip)
      · rw [← hlast]
  · rw [if_neg htrip, h.patternOf]
    refine exists_congr fun e' => and_congr_left fun hmem => ?_
    rw [getElem?_concat_iff]
    refine (or_iff_left ?_).symm
    rintro ⟨-, rfl⟩
    exact htrip hmem

/-- **With one pattern more it is the network of one group more.** -/
theorem Laid.add (h : Laid groups x g) (hp : p.Carries groups.length e)
    (hnew : ∀ e' ∈ groups, ∀ trip ∈ idsOf e, trip ∉ idsOf e') :
    Laid (groups ++ [e]) (x.register p) (g.addScheduled p) := by
  obtain ⟨parts, hparts, hshape⟩ := h.parts
  have hgraph : (g.addScheduled p).ConsistsOf (parts ++ [g.partOf p.id p.stops]) :=
    hparts.link h.counts (hp.id_eq ▸ next_not_mem hshape) p.stops
  refine ⟨(h.entries_register hp).2, fun i e' he' => ?_, fun trip id => ?_,
    ⟨_, hgraph, ?_⟩, (Graph.link_entries h.counts p.id p.stops).2.2.2⟩
  · have hget : (x.register p).patterns.get? ⟨i⟩ =
        if (⟨i⟩ : PatternId) = p.id then some p else x.patterns.get? ⟨i⟩ := Table.get?_insert ..
    rw [hget, hp.id_eq]
    rcases getElem?_concat_iff.mp he' with hold | ⟨rfl, rfl⟩
    · have hne : (⟨i⟩ : PatternId) ≠ ⟨groups.length⟩ := fun heq =>
        Nat.ne_of_lt (List.getElem?_eq_some_iff.mp hold).1 (PatternId.mk.inj heq)
      rw [if_neg hne]
      exact h.pattern i e' hold
    · exact ⟨p, if_pos rfl, hp⟩
  · exact h.patternOf_register hp hnew trip id
  · rw [List.map_append, hshape, List.zipIdx_append, List.map_append]
    simp [Graph.partOf, hp.id_eq, hp.stops_eq]

/-- **All groups are laid**, one after another. -/
theorem addPatterns_laid : ∀ (rest : Groups) {groups : Groups} {x : TransitIndex} {g : Graph},
    Laid groups x g → (∀ e ∈ rest, ∀ b ∈ e.2, b.stopCount = e.1.stops.length) →
      ((groups ++ rest).flatMap idsOf).Nodup →
        ∃ x' g', (addPatterns .mk groups.length rest (x, g)).run = .ok (.ok (x', g')) ∧
          Laid (groups ++ rest) x' g' ∧ g'.nextPattern = g.nextPattern
  | [], groups, x, g, h, _, _ => ⟨x, g, rfl, (List.append_nil groups).symm ▸ h, rfl⟩
  | e :: rest, groups, x, g, h, hcount, hnodup => by
    have hids : (idsOf e).Nodup ∧ ∀ e' ∈ groups, ∀ trip ∈ idsOf e, trip ∉ idsOf e' := by
      rw [List.flatMap_append, List.flatMap_cons] at hnodup
      obtain ⟨-, hrest, hapart⟩ := List.nodup_append.mp hnodup
      refine ⟨(List.nodup_append.mp hrest).1, fun e' he' trip htrip htrip' => ?_⟩
      exact hapart trip (List.mem_flatMap_of_mem he' htrip') trip
        (List.mem_append_left _ htrip) rfl
    obtain ⟨p, hpublish, hp⟩ := Pattern.exists_publish groups.length false hids.1
      (hcount e List.mem_cons_self)
    obtain ⟨x', g', hrun, hlaid, hnext⟩ := addPatterns_laid rest (h.add hp hids.2)
      (fun e' he' => hcount e' (List.mem_cons_of_mem _ he')) (by rwa [← List.append_cons])
    rw [← List.append_cons] at hlaid
    refine ⟨x', g', ?_, hlaid, hnext.trans (nextPattern_addScheduled g p)⟩
    rw [List.length_append, List.length_singleton] at hrun
    unfold addPatterns
    refine Attempt.bind_eq_ok_iff.mpr ⟨p, ?_, ?_⟩
    · exact Attempt.run_adapt_eq_ok_iff.mpr ⟨.ok p, hpublish, rfl⟩
    · rw [(h.entries_register hp).1]
      exact hrun

/-! ## The trips of a file -/

variable {f : Fixture} {c : Course} {r r' : TripRecord}

/-- The courses of the trips, each once, in the order of the file. -/
def courses (f : Fixture) : List Course := (f.trips.map TripRecord.course).eraseDups

/-- The trips of a course, in the order of the file. -/
def tripsOn (f : Fixture) (c : Course) : List TripRecord := f.trips.filter (·.course = c)

theorem mem_courses (hr : r ∈ f.trips) : r.course ∈ f.courses :=
  List.mem_eraseDups.mpr (List.mem_map_of_mem hr)

theorem courses_publications (serial : Nat) (records : List TripRecord) :
    (publications serial records).map Prod.fst = records.map TripRecord.course := by
  conv_rhs => rw [← List.zipIdx_map_fst serial records]
  unfold publications
  rw [List.map_map, List.map_map]
  rfl

theorem length_groupsOf (f : Fixture) :
    (groupsOf (publications 0 f.trips)).length = f.courses.length := by
  unfold groupsOf courses
  rw [List.length_map, courses_publications]

/-- The group of a course: its trips as they are published, in the order of the file. -/
def groupOn (f : Fixture) (c : Course) : Course × List Baseline :=
  (c, ((publications 0 f.trips).filter (·.1 = c)).map Prod.snd)

/-- The groups are those of the courses. -/
theorem getElem?_groupsOf_iff {i : Nat} {e : Course × List Baseline} :
    (groupsOf (publications 0 f.trips))[i]? = some e ↔
      f.courses[i]? = some e.1 ∧ e = f.groupOn e.1 := by
  unfold groupsOf courses
  rw [List.getElem?_map, Option.map_eq_some_iff, courses_publications]
  constructor
  · rintro ⟨c, hc, rfl⟩
    exact ⟨hc, rfl⟩
  · rintro ⟨hc, heq⟩
    exact ⟨e.1, hc, heq.symm⟩

theorem getElem?_groupsOf {i : Nat} (hi : f.courses[i]? = some c) :
    (groupsOf (publications 0 f.trips))[i]? = some (f.groupOn c) :=
  getElem?_groupsOf_iff.mpr ⟨hi, rfl⟩

theorem mem_publications {e : Course × Baseline} :
    e ∈ publications 0 f.trips ↔
      ∃ (i : Nat) (r : TripRecord), f.trips[i]? = some r ∧ e = (r.course, r.baseline i) := by
  unfold publications
  rw [List.mem_map]
  constructor
  · rintro ⟨⟨r, i⟩, hr, rfl⟩
    exact ⟨i, r, List.mem_zipIdx_iff_getElem?.mp hr, rfl⟩
  · rintro ⟨i, r, hr, rfl⟩
    exact ⟨(r, i), List.mem_zipIdx_iff_getElem?.mpr hr, rfl⟩

theorem idsOf_groupOn (f : Fixture) (c : Course) :
    idsOf (f.groupOn c) = (f.tripsOn c).map fun r => r.trip.id := by
  unfold idsOf groupOn tripsOn publications
  conv_rhs => rw [← List.zipIdx_map_fst 0 f.trips]
  rw [List.filter_map, List.filter_map, List.map_map, List.map_map, List.map_map]
  rfl

theorem ids_publications (f : Fixture) :
    ((publications 0 f.trips).map fun e => e.2.trip.id) = f.trips.map fun r => r.trip.id := by
  conv_rhs => rw [← List.zipIdx_map_fst 0 f.trips]
  unfold publications
  rw [List.map_map, List.map_map]
  rfl

/-- Trips of different identifiers are in one group each, and there once. -/
theorem nodup_ids_groupsOf {entries : List (Course × Baseline)}
    (hnodup : (entries.map fun e => e.2.trip.id).Nodup) :
    ((groupsOf entries).flatMap idsOf).Nodup := by
  have hids : ∀ c, idsOf (c, (entries.filter (·.1 = c)).map Prod.snd) =
      (entries.filter (·.1 = c)).map fun e => e.2.trip.id := fun c => by
    unfold idsOf
    rw [List.map_map]
    rfl
  unfold groupsOf
  rw [List.flatMap_map, List.nodup_flatMap]
  refine ⟨fun c _ => ?_, (nodup_eraseDups _).imp fun {c c'} hne trip htrip htrip' => hne ?_⟩
  · rw [hids]
    exact hnodup.sublist (List.filter_sublist.map _)
  · simp only [hids, List.mem_map, List.mem_filter, decide_eq_true_eq] at htrip htrip'
    obtain ⟨e, ⟨he, rfl⟩, rfl⟩ := htrip
    obtain ⟨e', ⟨he', rfl⟩, hid⟩ := htrip'
    rw [List.inj_on_of_nodup_map hnodup he he' hid.symm]

theorem stopCount_groupsOf {e : Course × List Baseline} {b : Baseline}
    (he : e ∈ groupsOf (publications 0 f.trips)) (hb : b ∈ e.2) :
    b.stopCount = e.1.stops.length := by
  obtain ⟨i, hi⟩ := List.getElem?_of_mem he
  rw [(getElem?_groupsOf_iff.mp hi).2] at hb
  obtain ⟨entry, hentry, rfl⟩ := List.mem_map.mp hb
  obtain ⟨hmem, hcourse⟩ := List.mem_filter.mp hentry
  obtain ⟨i, r, -, rfl⟩ := mem_publications.mp hmem
  rw [← of_decide_eq_true hcourse]
  exact r.stopCount_baseline i

/-! ## What it takes -/

/-- The file lists the agencies and the stops that it refers to, and every trip calls somewhere. -/
structure Complete (f : Fixture) : Prop where
  agency : ∀ s ∈ f.services, ∃ a ∈ f.agencies, a.id = s.id.agency
  stop : ∀ r ∈ f.trips, ∀ s ∈ r.stopTimes, ∃ place ∈ f.stops, place.id = s.stopId
  call : ∀ r ∈ f.trips, r.stopTimes ≠ []

/-- A network is built exactly of a complete file. Otherwise the building is refused. -/
theorem build_cases (hnodup : (f.trips.map fun r => r.trip.id).Nodup) :
    (f.Complete ∧ ∃ x g, f.build.run = .ok (.ok (x, g)) ∧
      Laid (groupsOf (publications 0 f.trips)) x g ∧ g.nextPattern = f.courses.length) ∨
    ¬ f.Complete ∧ ∃ e, f.build.run = .ok (.error e) := by
  unfold build buildWith
  cases hservices : registerServices f.agencies f.services Services.empty with
  | error e =>
    refine Or.inr ⟨fun hcomplete => ?_, e, rfl⟩
    obtain ⟨services, hok⟩ := registerServices_iff.mpr hcomplete.agency
    rw [hservices] at hok
    cases hok
  | ok services =>
    have hagency := registerServices_iff.mp ⟨services, hservices⟩
    rw [Attempt.mk_ok_bind]
    generalize hx : f.stops.foldl TransitIndex.addStop
      (f.agencies.foldl TransitIndex.addAgency TransitIndex.empty) = x
    have hstops : ∀ id, x.stops.contains id = true ↔ ∃ s ∈ f.stops, s.id = id := fun id => by
      rw [← hx, TransitIndex.contains_foldl_addStop, TransitIndex.stops_foldl_addAgency]
      exact or_iff_left Bool.false_ne_true
    have hcallable : (∀ r ∈ f.trips, Callable x r) ↔ f.Complete := by
      unfold Callable
      simp only [hstops]
      exact ⟨fun h => ⟨hagency, fun r hr => (h r hr).2, fun r hr => (h r hr).1⟩,
        fun h r hr => ⟨h.call r hr, h.stop r hr⟩⟩
    have hgroups := fun groups => @groupTrips_eq_ok_iff [] f.trips 0 x groups
    cases hgroup : groupTrips x 0 f.trips [] with
    | error e =>
      refine Or.inr ⟨fun hcomplete => ?_, e, by simp only [hgroup]; rfl⟩
      have hok := (hgroups _).mpr ⟨hcallable.mpr hcomplete, rfl⟩
      exact absurd (hgroup.symm.trans hok) nofun
    | ok groups =>
      obtain ⟨hall, rfl⟩ := (hgroups groups).mp hgroup
      obtain ⟨hpa, hca⟩ := patterns_foldl_addAgency f.agencies TransitIndex.empty
      obtain ⟨hps, hcs⟩ := patterns_foldl_addStop f.stops
        (f.agencies.foldl TransitIndex.addAgency TransitIndex.empty)
      have hempty := @laid_nil x (hx ▸ hps.trans hpa) (hx ▸ hcs.trans hca) services
        (groupsOf (publications 0 f.trips)).length f.trips.length
      obtain ⟨x', g', hrun, hlaid, hnext⟩ := addPatterns_laid
        (groupsOf (publications 0 f.trips)) hempty (fun e he b hb => stopCount_groupsOf he hb)
        (nodup_ids_groupsOf (by rwa [ids_publications]))
      refine Or.inl ⟨hcallable.mp hall, x', g', ?_, hlaid, hnext.trans (length_groupsOf f)⟩
      simp only [hgroup]
      exact hrun

/-! ## The network told by the courses -/

/-- A trip added to a graph without synthesized patterns gets the next number. -/
theorem id_of_addTrip {trip : Trip} {stopTimes : List StopTime} {made : Synthesized}
    (hempty : g.synthesized = Table.empty)
    (h : g.addTrip trip stopTimes = .ok (g', .ok made)) :
    made.pattern.id = ⟨g.nextPattern⟩ := by
  by_cases hnil : stopTimes = []
  · subst hnil
    cases h
  · have hget : g.synthesized.get? (.of trip stopTimes) = none := by
      rw [hempty]
      rfl
    obtain ⟨p, hpublish, -, rfl, -⟩ := (Graph.addTrip_eq_ok_iff_of_not_kept hnil hget).mp h
    exact (Pattern.publish_spec hpublish).1

/-- The network of a file. Its patterns are the courses of the trips, numbered in the order in
which the file first needs them; index and graph agree on them and on the next number. -/
structure Shown (f : Fixture) (x : TransitIndex) (g : Graph) : Prop where
  /-- The numbers have no gaps. -/
  numbered : ∀ id, x.patterns.contains id = true ↔ id.number < f.courses.length
  /-- A pattern has the route and the stops of its course, and its trips as the file has them. -/
  pattern : ∀ i c, f.courses[i]? = some c → ∃ p, x.patterns.get? ⟨i⟩ = some p ∧ p.id = ⟨i⟩ ∧
    p.routeId = c.routeId ∧ p.stops = c.stops ∧ p.trips = (f.tripsOn c).map fun r => r.trip.id
  /-- A trip is found in the pattern of its course, and runs there as its stop times say. -/
  trip : ∀ r ∈ f.trips, ∃ p b, x.patternForTrip? r.trip.id = some p ∧
    f.courses[p.id.number]? = some r.course ∧ p.routeId = r.trip.routeId ∧
    p.stops = (bySequence r.stopTimes).map StopTime.stopId ∧
    p.timetable.row? r.trip.id = some (.ofBaseline b) ∧ b.trip = r.trip ∧
    b.calls = (bySequence r.stopTimes).map Call.ofStopTime
  /-- No other trips are found. -/
  only : ∀ trip p, x.patternForTrip? trip = some p → ∃ r ∈ f.trips, r.trip.id = trip
  /-- Two trips share a pattern if their courses are the same. -/
  shared : ∀ r ∈ f.trips, ∀ r' ∈ f.trips,
    x.patternForTrip? r.trip.id = x.patternForTrip? r'.trip.id ↔ r.course = r'.course
  /-- The hops of a pattern are the pairs of neighbours among its stops. -/
  hops : ∀ i c, f.courses[i]? = some c → g.hops ⟨i⟩ = c.stops.zip c.stops.tail
  nextPattern_eq : g.nextPattern = f.courses.length
  nextPatternId_eq : x.nextPatternId = PatternId.mk <$> Checked.word32 f.courses.length
  /-- The first pattern that is synthesized gets the next number. -/
  synthesized : ∀ trip stopTimes made g',
    g.addTrip trip stopTimes = .ok (g', .ok made) →
      made.pattern.id = ⟨f.courses.length⟩

theorem nodup_tripsOn (hnodup : (f.trips.map fun r => r.trip.id).Nodup) (c : Course) :
    ((f.tripsOn c).map fun r => r.trip.id).Nodup :=
  hnodup.sublist (List.filter_sublist.map _)

/-- The pattern of a course has the trips of the file that have the course. -/
theorem Laid.exists_pattern (h : Laid (groupsOf (publications 0 f.trips)) x g) {i : Nat}
    (hi : f.courses[i]? = some c) : ∃ p, x.patterns.get? ⟨i⟩ = some p ∧
      p.Carries i (f.groupOn c) ∧ p.trips = (f.tripsOn c).map fun r => r.trip.id := by
  obtain ⟨p, hget, hp⟩ := h.pattern i _ (getElem?_groupsOf hi)
  exact ⟨p, hget, hp, hp.trips_eq.trans (idsOf_groupOn f c)⟩

/-- A trip is claimed for the pattern of its course. -/
theorem Laid.patternForTrip?_eq (h : Laid (groupsOf (publications 0 f.trips)) x g) {i : Nat}
    (hr : r ∈ f.trips) (hi : f.courses[i]? = some r.course) :
    x.patternForTrip? r.trip.id = x.patterns.get? ⟨i⟩ := by
  have hclaim : x.patternOf.get? r.trip.id = some ⟨i⟩ := by
    refine (h.patternOf _ _).mpr ⟨_, getElem?_groupsOf hi, ?_⟩
    rw [idsOf_groupOn]
    exact List.mem_map.mpr ⟨r, List.mem_filter.mpr ⟨hr, decide_eq_true rfl⟩, rfl⟩
  unfold TransitIndex.patternForTrip?
  rw [hclaim]
  rfl

/-- A trip has a course of the file. -/
theorem exists_course (hr : r ∈ f.trips) : ∃ i : Nat, f.courses[i]? = some r.course :=
  List.getElem?_of_mem (mem_courses hr)

/-- Trips are found in one pattern exactly if they have one course. -/
theorem Laid.patternForTrip?_eq_iff (h : Laid (groupsOf (publications 0 f.trips)) x g)
    {r' : TripRecord} (hr : r ∈ f.trips) (hr' : r' ∈ f.trips) :
    x.patternForTrip? r.trip.id = x.patternForTrip? r'.trip.id ↔ r.course = r'.course := by
  obtain ⟨i, hi⟩ := exists_course hr
  obtain ⟨j, hj⟩ := exists_course hr'
  obtain ⟨p, hget, hp, -⟩ := h.exists_pattern hi
  obtain ⟨q, hget', hq, -⟩ := h.exists_pattern hj
  rw [h.patternForTrip?_eq hr hi, h.patternForTrip?_eq hr' hj, hget, hget']
  constructor
  · intro heq
    have hid := hp.id_eq.symm.trans ((congrArg Pattern.id (Option.some.inj heq)).trans hq.id_eq)
    rw [PatternId.mk.inj hid, hj] at hi
    exact (Option.some.inj hi).symm
  · intro heq
    have hsame : i = j := (List.getElem?_inj (List.getElem?_eq_some_iff.mp hi).1
      (nodup_eraseDups _)).mp (hi.trans (heq ▸ hj.symm))
    rw [← hget, ← hget', hsame]

/-- The pattern of a course has the rows of its trips, as published. -/
theorem row?_of_carries {i serial : Nat} (hnodup : (f.trips.map fun r => r.trip.id).Nodup)
    (hp : p.Carries i (f.groupOn r.course)) (hserial : f.trips[serial]? = some r)
    (htrips : p.trips = (f.tripsOn r.course).map fun r => r.trip.id) :
    p.timetable.row? r.trip.id = some (.ofBaseline (r.baseline serial)) := by
  have hrow : Row.ofBaseline (r.baseline serial) ∈ p.timetable.rows := by
    rw [hp.rows_eq]
    refine List.mem_map_of_mem (List.mem_map.mpr ⟨(r.course, r.baseline serial), ?_, rfl⟩)
    exact List.mem_filter.mpr
      ⟨mem_publications.mpr ⟨serial, r, hserial, rfl⟩, decide_eq_true rfl⟩
  have hdiff : p.trips.Nodup := by
    rw [htrips]
    exact nodup_tripsOn hnodup r.course
  exact (Timetable.row?_eq_some_iff hdiff).mpr ⟨hrow, rfl⟩

/-- The pattern of a course hops from each of its stops to the next. -/
theorem Laid.hops_eq (h : Laid (groupsOf (publications 0 f.trips)) x g) {i : Nat}
    (hi : f.courses[i]? = some c) : g.hops ⟨i⟩ = c.stops.zip c.stops.tail := by
  obtain ⟨parts, hparts, hshape⟩ := h.parts
  have hgroup : (f.groupOn c, i) ∈ (groupsOf (publications 0 f.trips)).zipIdx :=
    List.mem_zipIdx_iff_getElem?.mpr (getElem?_groupsOf hi)
  have hmem : ((⟨i⟩ : PatternId), c.stops) ∈ parts.map fun a => (a.pattern, a.stops) := by
    rw [hshape]
    exact List.mem_map_of_mem hgroup
  obtain ⟨a, ha, heq⟩ := List.mem_map.mp hmem
  obtain ⟨hid, hstops⟩ := Prod.mk.inj heq
  rw [← hid, ← hstops]
  exact hparts.hops_eq ha

/-- **The network of the groups is that of the file.** -/
theorem Laid.shown (h : Laid (groupsOf (publications 0 f.trips)) x g)
    (hnodup : (f.trips.map fun r => r.trip.id).Nodup) (hnext : g.nextPattern = f.courses.length)
    (hempty : g.synthesized = Table.empty) : f.Shown x g := by
  have hkeys : x.patterns.keys = (List.range f.courses.length).map PatternId.mk := by
    rw [h.keys_eq, length_groupsOf]
  constructor
  case numbered =>
    intro id
    rw [Table.contains, Option.isSome_iff_exists, ← Table.mem_keys_iff, hkeys, List.mem_map]
    constructor
    · rintro ⟨i, hi, rfl⟩
      exact List.mem_range.mp hi
    · exact fun hlt => ⟨id.number, List.mem_range.mpr hlt, rfl⟩
  case pattern =>
    intro i c hi
    obtain ⟨p, hget, hp, htrips⟩ := h.exists_pattern hi
    exact ⟨p, hget, hp.id_eq, hp.routeId_eq, hp.stops_eq, htrips⟩
  case trip =>
    intro r hr
    obtain ⟨i, hi⟩ := exists_course hr
    obtain ⟨serial, hserial⟩ := List.getElem?_of_mem hr
    obtain ⟨p, hget, hp, htrips⟩ := h.exists_pattern hi
    refine ⟨p, r.baseline serial, (h.patternForTrip?_eq hr hi).trans hget, ?_, hp.routeId_eq,
      hp.stops_eq, row?_of_carries hnodup hp hserial htrips, rfl, rfl⟩
    rw [hp.id_eq]
    exact hi
  case only =>
    intro trip p hp
    obtain ⟨id, hclaim, -⟩ := Option.bind_eq_some_iff.mp hp
    obtain ⟨e, he, htrip⟩ := (h.patternOf trip id).mp hclaim
    rw [(getElem?_groupsOf_iff.mp he).2, idsOf_groupOn] at htrip
    obtain ⟨r, hr, hid⟩ := List.mem_map.mp htrip
    exact ⟨r, (List.mem_filter.mp hr).1, hid⟩
  case shared => exact fun r hr r' hr' => h.patternForTrip?_eq_iff hr hr'
  case hops => exact fun i c => h.hops_eq
  case nextPattern_eq => exact hnext
  case nextPatternId_eq => exact TransitIndex.nextPatternId_eq hkeys
  case synthesized =>
    intro trip stopTimes made g' hadd
    rw [id_of_addTrip hempty hadd, hnext]

/-! ## Numbers of limited width -/

/-- Patterns may be identified in another way, if that is the same way for all numbers needed. -/
theorem addPatterns_congr {identify : Nat → PatternId} :
    ∀ (groups : Groups) (number : Nat) (network : TransitIndex × Graph),
      (∀ n < number + groups.length, identify n = ⟨n⟩) →
        addPatterns identify number groups network = addPatterns .mk number groups network
  | [], _, _, _ => rfl
  | (course, trips) :: rest, number, (x, g), h => by
    have hnumber := h number (by simp)
    have hrest : ∀ n < number + 1 + rest.length, identify n = ⟨n⟩ := fun n hn =>
      h n (by rw [List.length_cons]; omega)
    rw [addPatterns, addPatterns, hnumber]
    refine bind_congr fun p => bind_congr fun x' => ?_
    exact addPatterns_congr rest (number + 1) _ hrest

/-- **So may those of a network**, and then the network is the same. -/
theorem buildWith_eq {identify : Nat → PatternId}
    (h : ∀ n ≤ f.courses.length, identify n = ⟨n⟩) : f.buildWith identify = f.build := by
  unfold build buildWith
  cases registerServices f.agencies f.services Services.empty with
  | error e => rfl
  | ok services =>
    simp only [Attempt.mk_ok_bind]
    generalize f.stops.foldl TransitIndex.addStop
      (f.agencies.foldl TransitIndex.addAgency TransitIndex.empty) = x
    cases hgroup : groupTrips x 0 f.trips [] with
    | error e => rfl
    | ok groups =>
      obtain ⟨-, rfl⟩ := (@groupTrips_eq_ok_iff [] f.trips 0 x groups).mp hgroup
      have hlength : (groupsOf ([] ++ publications 0 f.trips)).length = f.courses.length :=
        length_groupsOf f
      simp only [Attempt.mk_ok_bind]
      rw [h _ (Nat.le_of_eq hlength)]
      refine addPatterns_congr _ 0 _ fun n hn => h n ?_
      rw [Nat.zero_add, hlength] at hn
      exact Nat.le_of_lt hn

/-- **Building a network.** Of a file whose trips have different identifiers a network is built
exactly if the file lists what it refers to and every trip calls somewhere; otherwise it is refused,
and never does a fault come up. The stop times of each trip are put in the one stable order of
their sequence numbers. Trips share a pattern exactly if their routes and their stops in that order
are the same. Patterns are numbered without gaps in the order in which the file first needs them,
and have their trips in the order of the file, each with its own times and access. With fewer than
2^32 patterns, 32 bits hold all their numbers. -/
theorem build_exact {f : Fixture} (hnodup : (f.trips.map fun r => r.trip.id).Nodup) :
    (∀ fault, f.build.run ≠ .error fault) ∧
    ((∃ x g, f.build.run = .ok (.ok (x, g))) ↔ f.Complete) ∧
    (∀ r ∈ f.trips, StablySorts (bySequence r.stopTimes) r.stopTimes) ∧
    (∀ x g, f.build.run = .ok (.ok (x, g)) → f.Shown x g) ∧
    (f.courses.length < 4294967296 → f.buildWith PatternId.wrapped = f.build) := by
  refine ⟨fun fault => ?_, ?_, fun r _ => bySequence_stable r.stopTimes, fun x g hrun => ?_,
    fun hfew => buildWith_eq fun n hn => ?_⟩
  · obtain ⟨-, x, g, hrun, -⟩ | ⟨-, e, hrun⟩ := build_cases hnodup
    · rw [hrun]
      exact nofun
    · rw [hrun]
      exact nofun
  · obtain ⟨hcomplete, x, g, hrun, -⟩ | ⟨hnot, e, hrun⟩ := build_cases hnodup
    · exact ⟨fun _ => hcomplete, fun _ => ⟨x, g, hrun⟩⟩
    · refine ⟨fun ⟨x, g, hok⟩ => ?_, fun hcomplete => absurd hcomplete hnot⟩
      cases hrun.symm.trans hok
  · obtain ⟨-, x', g', hrun', hlaid, hnext⟩ | ⟨-, e, hrun'⟩ := build_cases hnodup
    · cases hrun.symm.trans hrun'
      exact hlaid.shown hnodup hnext (build_spec hrun).synthesized_eq
    · cases hrun.symm.trans hrun'
  · unfold PatternId.wrapped
    rw [Nat.mod_eq_of_lt (Nat.lt_of_le_of_lt hn hfew)]

/-- Three trips between two stops. The first and the last go the same way, though the file has the
stop times of one of them in the wrong order; the trip between them numbers its stop times alike. -/
def crossing : Fixture where
  agencies := [⟨"a", "A", .utc⟩]
  stops := [⟨⟨"a", "x"⟩, "X"⟩, ⟨⟨"a", "y"⟩, "Y"⟩]
  services := [⟨⟨"a", "s"⟩, []⟩]
  trips := [
    ⟨⟨⟨"a", "t"⟩, ⟨"a", "r"⟩, ⟨"a", "s"⟩, false⟩,
      [⟨⟨"a", "y"⟩, 2, 200, 200, .regular, .none⟩, ⟨⟨"a", "x"⟩, 1, 100, 100, .none, .regular⟩]⟩,
    ⟨⟨⟨"a", "u"⟩, ⟨"a", "r"⟩, ⟨"a", "s"⟩, false⟩,
      [⟨⟨"a", "y"⟩, 7, 300, 300, .regular, .none⟩, ⟨⟨"a", "x"⟩, 7, 400, 400, .none, .regular⟩]⟩,
    ⟨⟨⟨"a", "v"⟩, ⟨"a", "r"⟩, ⟨"a", "s"⟩, false⟩,
      [⟨⟨"a", "x"⟩, 0, 500, 500, .regular, .none⟩, ⟨⟨"a", "y"⟩, 9, 600, 600, .none, .regular⟩]⟩]

theorem complete_crossing : crossing.Complete := by
  constructor
  · decide
  · decide
  · decide

theorem build_exact_crossing :
    (crossing.trips.map fun r => r.trip.id).Nodup ∧
    (∃ x g, crossing.build.run = .ok (.ok (x, g)) ∧ crossing.Shown x g) ∧
    crossing.courses =
      [⟨⟨"a", "r"⟩, [⟨"a", "x"⟩, ⟨"a", "y"⟩]⟩, ⟨⟨"a", "r"⟩, [⟨"a", "y"⟩, ⟨"a", "x"⟩]⟩] ∧
    (crossing.tripsOn ⟨⟨"a", "r"⟩, [⟨"a", "x"⟩, ⟨"a", "y"⟩]⟩).map (fun r => r.trip.id) =
      [⟨"a", "t"⟩, ⟨"a", "v"⟩] := by
  have hnodup : (crossing.trips.map fun r => r.trip.id).Nodup := by decide
  obtain ⟨-, hiff, -, hshown, -⟩ := build_exact hnodup
  obtain ⟨x, g, hrun⟩ := hiff.mpr complete_crossing
  exact ⟨hnodup, ⟨x, g, hrun, hshown x g hrun⟩, by decide, by decide⟩

end Fixture

end LiveTimetable
