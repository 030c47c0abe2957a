import LiveTimetable.Proofs.Live.Counting

/-!
# The books as four tables

The books of added trips can be held in four tables, with each fact in two of them: the announcement
of each trip, the revision of each pattern, the number of its users, and the trips of each date. A
trip that goes is struck from its date, which goes with its last trip, and the count of its pattern
is lowered, down to zero at most.

Tables edited so say at any time what the books say, and give the same answers.

* `Ledger.file`, `Ledger.strike`: the trips of a date, with one more and with one less.
* `Ledger.Shows`: the four tables say what the books say (`Ledger.shows_after`).
* `Ledger.Shows.through_eq`, `Ledger.Shows.remove_eq`: the answers are the same.
* `AddedTrips.counts_exact`: books and tables after any history.
-/

namespace LiveTimetable

open AddedTrips (Entry)

/-- The announcements, patterns and dates of added trips, each in a table of its own. -/
structure Ledger where
  byTrip : Table TripId Announcement
  patterns : Table PatternId Synthesized
  usage : Table PatternId Nat
  byDate : Table ServiceDate (KeySet TripId)

namespace Ledger

/-! ## Dates -/

section Dates

variable {byDate : Table ServiceDate (KeySet TripId)} {date day : ServiceDate}
  {trip other : TripId}

/-- The trips of a date. -/
def tripsOn (byDate : Table ServiceDate (KeySet TripId)) (date : ServiceDate) : KeySet TripId :=
  (byDate.get? date).getD Table.empty

/-- The trips of the dates, with one more. -/
def file (byDate : Table ServiceDate (KeySet TripId)) (date : ServiceDate) (trip : TripId) :
    Table ServiceDate (KeySet TripId) :=
  byDate.insert date ((tripsOn byDate date).insert trip ())

/-- The trips of the dates, with one less; a date without trips goes. -/
def strike (byDate : Table ServiceDate (KeySet TripId)) (date : ServiceDate) (trip : TripId) :
    Table ServiceDate (KeySet TripId) :=
  match byDate.get? date with
  | none => byDate
  | some trips =>
    if (trips.erase trip).isEmpty then byDate.erase date
    else byDate.insert date (trips.erase trip)

theorem tripsOn_insert (byDate : Table ServiceDate (KeySet TripId)) (date day : ServiceDate)
    (trips : KeySet TripId) : tripsOn (byDate.insert date trips) day =
      if day = date then trips else tripsOn byDate day := by
  unfold tripsOn
  rw [Table.get?_insert]
  split <;> rfl

theorem tripsOn_erase (byDate : Table ServiceDate (KeySet TripId)) (date day : ServiceDate) :
    tripsOn (byDate.erase date) day = if day = date then Table.empty else tripsOn byDate day := by
  unfold tripsOn
  rw [Table.get?_erase]
  split <;> rfl

theorem eq_empty_of_isEmpty {trips : KeySet TripId} (h : trips.isEmpty = true) :
    trips = Table.empty := by
  obtain ⟨entries, hsorted⟩ := trips
  cases entries with
  | nil => rfl
  | cons e rest => cases h

/-- A date without trips that goes has the same trips as one that is kept. -/
theorem tripsOn_strike (byDate : Table ServiceDate (KeySet TripId)) (date day : ServiceDate)
    (trip : TripId) : tripsOn (strike byDate date trip) day =
      if day = date then (tripsOn byDate date).erase trip else tripsOn byDate day := by
  unfold strike
  cases hget : byDate.get? date with
  | none =>
    by_cases hday : day = date
    · rw [if_pos hday, hday, tripsOn, hget]
      rfl
    · rw [if_neg hday]
  | some trips =>
    have hon : tripsOn byDate date = trips := by
      rw [tripsOn, hget]
      rfl
    rw [hon]
    by_cases hempty : (trips.erase trip).isEmpty = true
    · simp only [if_pos hempty]
      rw [tripsOn_erase, eq_empty_of_isEmpty hempty]
    · simp only [if_neg hempty]
      rw [tripsOn_insert]

/-- A trip is filed under the dates of which it is one of the trips. -/
def Files (byDate : Table ServiceDate (KeySet TripId)) (date : ServiceDate) (trip : TripId) :
    Prop :=
  (tripsOn byDate date).contains trip = true

theorem files_file_iff : Files (file byDate date trip) day other ↔
    day = date ∧ other = trip ∨ Files byDate day other := by
  unfold Files file
  rw [tripsOn_insert]
  by_cases hday : day = date
  · simp [hday, Table.contains_insert]
  · simp [hday]

theorem files_strike_iff : Files (strike byDate date trip) day other ↔
    ¬ (day = date ∧ other = trip) ∧ Files byDate day other := by
  unfold Files
  rw [tripsOn_strike]
  by_cases hday : day = date
  · rw [if_pos hday, hday]
    unfold Table.contains
    rw [Table.get?_erase]
    by_cases hother : other = trip
    · simp [hother]
    · simp [hother]
  · simp [hday]

end Dates

/-! ## Changes -/

/-- The tables without a trip under its date and as a user of its pattern, and whether the pattern
has no other users. -/
def forget (l : Ledger) (trip : TripId) (known : Announcement) : Bool × Ledger :=
  let byDate := strike l.byDate known.date trip
  let remaining := (l.usage.get? known.pattern).getD 0 - 1
  if remaining = 0 then
    (true, { l with
      byDate
      usage := l.usage.erase known.pattern
      patterns := l.patterns.erase known.pattern })
  else (false, { l with byDate, usage := l.usage.insert known.pattern remaining })

/-- The tables once an earlier announcement of a trip is forgotten. -/
def forgetFormer (l : Ledger) (trip : TripId) : Ledger :=
  match l.byTrip.get? trip with
  | some former => (l.forget trip former).2
  | none => l

/-- Records the announcement of a trip, in place of an earlier one. -/
def insert (l : Ledger) (trip : TripId) (date : ServiceDate) (s : Synthesized) : Ledger :=
  let former := l.forgetFormer trip
  { byTrip := l.byTrip.insert trip ⟨date, s.pattern.id⟩
    patterns := former.patterns.insert s.pattern.id s
    usage := former.usage.insert s.pattern.id ((former.usage.get? s.pattern.id).getD 0 + 1)
    byDate := file former.byDate date trip }

/-- Takes a trip out, and says what was known of it. -/
def remove (l : Ledger) (trip : TripId) : Option RemovedTrip × Ledger :=
  match l.byTrip.get? trip with
  | none => (none, l)
  | some known =>
    let taken := { l with byTrip := l.byTrip.erase trip }
    match l.patterns.get? known.pattern with
    | none => (none, taken)
    | some s =>
      let (wasLast, left) := taken.forget trip known
      (some ⟨known.date, s, wasLast⟩, left)

/-- Keeps a new revision of a pattern that is there. -/
def updatePattern (l : Ledger) (s : Synthesized) : Ledger :=
  if l.patterns.contains s.pattern.id then
    { l with patterns := l.patterns.insert s.pattern.id s }
  else l

/-- The pattern of an added trip. -/
def patternFor? (l : Ledger) (trip : TripId) : Option Synthesized := do
  let known ← l.byTrip.get? trip
  l.patterns.get? known.pattern

/-- The trips for dates up to `last`, date by date. -/
def through (l : Ledger) (last : ServiceDate) : List TripId :=
  (l.byDate.entries.filter fun e => !decide (last < e.1)).flatMap fun e => e.2.keys

/-- The tables after a change. -/
def enter (l : Ledger) : Entry → Ledger
  | .insert trip date s => l.insert trip date s
  | .remove trip => (l.remove trip).2
  | .update s => l.updatePattern s

/-- The tables after a history, of which the latest change comes first. -/
def after : List Entry → Ledger
  | [] => ⟨Table.empty, Table.empty, Table.empty, Table.empty⟩
  | e :: earlier => (after earlier).enter e

/-! ## What the tables say -/

/-- The tables of patterns and counts are those of the books. -/
structure Keeps (l : Ledger) (a : AddedTrips) : Prop where
  patterns_eq : ∀ id, l.patterns.get? id = (a.patterns.get? id).map Usage.synthesized
  usage_eq : ∀ id, l.usage.get? id = (a.patterns.get? id).map Usage.users

/-- The four tables say what the books say. -/
structure Shows (l : Ledger) (a : AddedTrips) : Prop where
  byTrip_eq : l.byTrip = a.trips
  keeps : l.Keeps a
  files_iff : ∀ date trip, Files l.byDate date trip ↔
    ∃ announcement, a.trips.get? trip = some announcement ∧ announcement.date = date

variable {l : Ledger} {a : AddedTrips} {es : List Entry} {trip : TripId} {known : Announcement}

theorem Keeps.count_eq (h : l.Keeps a) (id : PatternId) :
    (l.usage.get? id).getD 0 = a.users id := by
  rw [h.usage_eq]
  rfl

/-- To forget a trip is to release its pattern. -/
theorem Keeps.forget (h : l.Keeps a) (trip : TripId) (known : Announcement) :
    (l.forget trip known).2.Keeps (a.release known.pattern) ∧
      (l.forget trip known).1 = !(a.release known.pattern).patterns.contains known.pattern := by
  have hrelease := AddedTrips.get?_release a known.pattern
  unfold Ledger.forget Table.contains
  simp only [h.count_eq]
  by_cases hlast : a.users known.pattern - 1 = 0
  · have hgone : ∀ id, (a.release known.pattern).patterns.get? id =
        if id = known.pattern then none else a.patterns.get? id := by
      intro id
      rw [hrelease]
      cases hget : a.patterns.get? known.pattern with
      | none => rfl
      | some usage =>
        rw [AddedTrips.users_of_get? hget] at hlast
        simp [Nat.sub_eq_zero_iff_le.mp hlast]
    rw [if_pos hlast]
    refine ⟨⟨fun id => ?_, fun id => ?_⟩, ?_⟩
    · rw [Table.get?_erase, hgone, h.patterns_eq]
      split <;> rfl
    · rw [Table.get?_erase, hgone, h.usage_eq]
      split <;> rfl
    · rw [hgone, if_pos rfl]
      rfl
  · obtain ⟨usage, hget⟩ : ∃ usage, a.patterns.get? known.pattern = some usage := by
      cases hget : a.patterns.get? known.pattern with
      | none => exact absurd (by simp [AddedTrips.users, hget]) hlast
      | some usage => exact ⟨usage, rfl⟩
    rw [AddedTrips.users_of_get? hget] at hlast ⊢
    have hleft : ∀ id, (a.release known.pattern).patterns.get? id = if id = known.pattern then
        some { usage with users := usage.users - 1 } else a.patterns.get? id := by
      intro id
      have hmany : ¬ usage.users ≤ 1 := by omega
      rw [hrelease, hget, Option.bind_some, if_neg hmany]
    rw [if_neg hlast]
    refine ⟨⟨fun id => ?_, fun id => ?_⟩, ?_⟩
    · rw [hleft, h.patterns_eq]
      split
      · rename_i hid
        rw [hid, hget]
        rfl
      · rfl
    · rw [Table.get?_insert, hleft, h.usage_eq]
      split <;> rfl
    · rw [hleft, if_pos rfl]
      rfl

theorem byDate_forget (l : Ledger) (trip : TripId) (known : Announcement) :
    (l.forget trip known).2.byDate = strike l.byDate known.date trip := by
  unfold forget
  simp only []
  split <;> rfl

theorem byTrip_forget (l : Ledger) (trip : TripId) (known : Announcement) :
    (l.forget trip known).2.byTrip = l.byTrip := by
  unfold forget
  simp only []
  split <;> rfl

/-- A trip that is struck from its date is filed no more. -/
theorem Shows.files_strike_iff (h : l.Shows a) (hget : a.trips.get? trip = some known)
    (date : ServiceDate) (other : TripId) :
    Files (strike l.byDate known.date trip) date other ↔ other ≠ trip ∧
      ∃ announcement, a.trips.get? other = some announcement ∧ announcement.date = date := by
  rw [Ledger.files_strike_iff, h.files_iff]
  refine and_congr_left fun hfiled => ?_
  constructor
  · rintro hnot rfl
    obtain ⟨_, hget', hdate⟩ := hfiled
    rw [hget] at hget'
    cases hget'
    exact hnot ⟨hdate.symm, rfl⟩
  · rintro hne ⟨-, rfl⟩
    exact hne rfl

/-- An earlier announcement is forgotten where the books release its pattern. -/
theorem Shows.forgetFormer (h : l.Shows a) (trip : TripId) :
    (l.forgetFormer trip).Keeps (a.released trip) ∧ ∀ date other,
      Files (l.forgetFormer trip).byDate date other ↔ other ≠ trip ∧
        ∃ announcement, a.trips.get? other = some announcement ∧ announcement.date = date := by
  unfold Ledger.forgetFormer AddedTrips.released
  rw [h.byTrip_eq]
  cases hget : a.trips.get? trip with
  | none =>
    refine ⟨h.keeps, fun date other => ?_⟩
    rw [h.files_iff]
    refine ⟨fun hfiled => ⟨?_, hfiled⟩, fun hfiled => hfiled.2⟩
    rintro rfl
    obtain ⟨_, hget', -⟩ := hfiled
    rw [hget] at hget'
    cases hget'
  | some former =>
    refine ⟨(h.keeps.forget trip former).1, fun date other => ?_⟩
    simp only [byDate_forget]
    exact h.files_strike_iff hget date other

theorem Shows.insert (h : l.Shows a) (trip : TripId) (date : ServiceDate) (s : Synthesized) :
    (l.insert trip date s).Shows (a.insert trip date s) := by
  obtain ⟨hkeeps, hfiles⟩ := h.forgetFormer trip
  have htrips : (a.insert trip date s).trips = a.trips.insert trip ⟨date, s.pattern.id⟩ :=
    congrArg (fun trips : Table TripId Announcement => trips.insert trip ⟨date, s.pattern.id⟩)
      (AddedTrips.trips_released a trip)
  have hpatterns : (a.insert trip date s).patterns = (a.released trip).patterns.insert s.pattern.id
      ⟨(a.released trip).users s.pattern.id + 1, s⟩ := rfl
  refine ⟨?_, ⟨fun id => ?_, fun id => ?_⟩, fun day other => ?_⟩
  · rw [htrips, ← h.byTrip_eq]
    rfl
  · rw [hpatterns, Table.get?_insert, Ledger.insert, Table.get?_insert, hkeeps.patterns_eq]
    split <;> rfl
  · rw [hpatterns, Table.get?_insert, Ledger.insert, Table.get?_insert, hkeeps.usage_eq id,
      hkeeps.count_eq]
    split <;> rfl
  · rw [htrips, Ledger.insert]
    simp only []
    rw [files_file_iff, hfiles, Table.get?_insert]
    by_cases hother : other = trip
    · simp [hother, eq_comm]
    · simp [hother]

/-- What is known of a trip that is taken out is what the books know. -/
theorem Shows.remove_eq (h : l.Shows a) (ha : a.Exact es) (trip : TripId) :
    (l.remove trip).1 = (a.remove? trip).map Prod.fst ∧
      (l.remove trip).2.Shows (a.enter (.remove trip)) := by
  cases hget : AddedTrips.announced? es trip with
  | none =>
    have hnone := (ha.trips trip).trans hget
    have hsame : a.enter (.remove trip) = a := by
      simp only [AddedTrips.enter, AddedTrips.remove?_eq_none hnone, Option.map_none,
        Option.getD_none]
    have hleft : l.remove trip = (none, l) := by
      unfold remove
      rw [h.byTrip_eq, hnone]
    rw [hleft, hsame, AddedTrips.remove?_eq_none hnone]
    exact ⟨rfl, h⟩
  | some known =>
    have htrip : a.trips.get? trip = some known := (ha.trips trip).trans hget
    have hreleased : a.released trip = a.release known.pattern := by
      unfold AddedTrips.released
      rw [htrip]
    obtain ⟨s, hgiven, hremove⟩ := ha.remove?_eq hget
    obtain ⟨usage, husage, hgiven'⟩ := ha.exists_given hget
    obtain rfl : s = usage.synthesized := Option.some.inj (hgiven.symm.trans hgiven')
    have hpattern : l.patterns.get? known.pattern = some usage.synthesized := by
      rw [h.keeps.patterns_eq, husage]
      rfl
    have htaken : Keeps { l with byTrip := l.byTrip.erase trip } a :=
      ⟨h.keeps.patterns_eq, h.keeps.usage_eq⟩
    obtain ⟨hkeeps, hlast⟩ := htaken.forget trip known
    have hleft : l.remove trip = (some ⟨known.date, usage.synthesized,
        (Ledger.forget { l with byTrip := l.byTrip.erase trip } trip known).1⟩,
        (Ledger.forget { l with byTrip := l.byTrip.erase trip } trip known).2) := by
      unfold remove
      rw [h.byTrip_eq, htrip]
      simp only [hpattern]
    have hafter : a.enter (.remove trip) =
        ⟨a.trips.erase trip, (a.release known.pattern).patterns⟩ := by
      simp only [AddedTrips.enter, hremove, hreleased, Option.map_some, Option.getD_some]
    rw [hleft, hafter, hremove, hlast, hreleased]
    refine ⟨rfl, ?_, ⟨hkeeps.patterns_eq, hkeeps.usage_eq⟩, fun date other => ?_⟩
    · rw [byTrip_forget, h.byTrip_eq]
    · rw [byDate_forget, h.files_strike_iff htrip, Table.get?_erase]
      by_cases hother : other = trip
      · simp [hother]
      · simp [hother]

theorem Shows.updatePattern (h : l.Shows a) (s : Synthesized) :
    (l.updatePattern s).Shows (a.updatePattern s) := by
  unfold Ledger.updatePattern AddedTrips.updatePattern Table.contains
  rw [h.keeps.patterns_eq]
  cases hget : a.patterns.get? s.pattern.id with
  | none => exact h
  | some usage =>
    rw [Option.map_some, Option.isSome_some, if_pos rfl]
    refine ⟨h.byTrip_eq, ⟨fun id => ?_, fun id => ?_⟩, h.files_iff⟩
    · rw [Table.get?_insert, Table.get?_insert, h.keeps.patterns_eq]
      split <;> rfl
    · rw [Table.get?_insert, h.keeps.usage_eq]
      split
      · rename_i hid
        rw [hid, hget]
        rfl
      · rfl

/-- **The four tables say what the books say, after every history.** -/
theorem shows_after (es : List Entry) : (after es).Shows (AddedTrips.after es) := by
  induction es with
  | nil =>
    refine ⟨rfl, ⟨fun id => rfl, fun id => rfl⟩, fun date trip => iff_of_false ?_ ?_⟩
    · rintro ⟨⟩
    · rintro ⟨_, ⟨⟩, -⟩
  | cons e earlier ih =>
    cases e with
    | insert trip date s => exact ih.insert trip date s
    | remove trip => exact (ih.remove_eq (AddedTrips.exact_after earlier) trip).2
    | update s => exact ih.updatePattern s

/-! ## Answers -/

theorem Shows.patternFor?_eq (h : l.Shows a) (trip : TripId) :
    l.patternFor? trip = a.patternFor? trip := by
  unfold patternFor? AddedTrips.patternFor?
  rw [h.byTrip_eq]
  cases a.trips.get? trip with
  | none => rfl
  | some known =>
    simp only [Option.bind_eq_bind, Option.bind_some, h.keeps.patterns_eq]
    cases a.patterns.get? known.pattern <;> rfl

/-- The trips of all dates, date by date. -/
def dated (byDate : Table ServiceDate (KeySet TripId)) : List DatedTrip :=
  byDate.entries.flatMap fun e => e.2.keys.map (DatedTrip.mk e.1)

theorem mem_dated_iff {byDate : Table ServiceDate (KeySet TripId)} {t : DatedTrip} :
    t ∈ dated byDate ↔ Files byDate t.date t.trip := by
  unfold dated Files tripsOn Table.contains
  rw [List.mem_flatMap]
  simp only [List.mem_map, Table.mem_keys_iff]
  constructor
  · rintro ⟨⟨date, trips⟩, he, trip, ⟨_, htrip⟩, rfl⟩
    simp only [Table.mem_entries_iff.mp he, Option.getD_some, htrip, Option.isSome_some]
  · intro hfiled
    cases hget : byDate.get? t.date with
    | none =>
      rw [hget] at hfiled
      cases hfiled
    | some trips =>
      rw [hget] at hfiled
      exact ⟨(t.date, trips), Table.mem_entries_iff.mpr hget, t.trip,
        Option.isSome_iff_exists.mp hfiled, rfl⟩

/-- Dates are in order, and so are the trips of each date. -/
theorem sorted_dated (byDate : Table ServiceDate (KeySet TripId)) :
    (dated byDate).Pairwise fun t u => compare t u = .lt := by
  refine List.pairwise_flatMap.mpr ⟨fun e _ => List.pairwise_map.mpr ?_, ?_⟩
  · refine e.2.sorted_keys.imp fun {x y} hlt => Ordering.then_eq_lt.mpr (Or.inr ⟨?_, hlt⟩)
    exact Std.ReflCmp.compare_self
  · refine byDate.sorted.imp fun {d e} hlt t ht u hu => Ordering.then_eq_lt.mpr (Or.inl ?_)
    obtain ⟨_, -, rfl⟩ := List.mem_map.mp ht
    obtain ⟨_, -, rfl⟩ := List.mem_map.mp hu
    exact hlt

/-- Trips that come in one order, and are the same, are the same list. -/
theorem eq_of_sorted {ts us : List DatedTrip} (ht : ts.Pairwise fun t u => compare t u = .lt)
    (hu : us.Pairwise fun t u => compare t u = .lt) (h : ∀ t, t ∈ ts ↔ t ∈ us) : ts = us := by
  have hne : ∀ {t u : DatedTrip}, compare t u = .lt → t ≠ u := by
    rintro t _ hlt rfl
    rw [Table.compare_refl] at hlt
    cases hlt
  have hperm : ts.Perm us := (List.perm_ext_iff_of_nodup (ht.imp hne) (hu.imp hne)).mpr h
  refine hperm.eq_of_pairwise (fun t u _ _ hlt hgt => ?_) ht hu
  have hnot : compare u t ≠ .lt := Std.OrientedCmp.not_lt_of_lt hlt
  exact absurd hgt hnot

theorem Shows.dated_eq (h : l.Shows a) : dated l.byDate = a.byDate :=
  eq_of_sorted (sorted_dated _) (Table.sorted_keys _) fun t => by
    rw [mem_dated_iff, h.files_iff, AddedTrips.mem_byDate_iff]

/-- To choose dates is to choose the trips of these dates. -/
theorem flatMap_keys_filter (keep : ServiceDate → Bool)
    (es : List (ServiceDate × KeySet TripId)) :
    (es.filter fun e => keep e.1).flatMap (fun e => e.2.keys) =
      ((es.flatMap fun e => e.2.keys.map (DatedTrip.mk e.1)).filter fun t => keep t.date).map
        DatedTrip.trip := by
  induction es with
  | nil => rfl
  | cons e rest ih =>
    have htrips : (e.2.keys.map (DatedTrip.mk e.1)).map DatedTrip.trip = e.2.keys := by
      rw [List.map_map]
      exact List.map_id _
    rw [List.flatMap_cons, List.filter_append, List.map_append, ← ih]
    by_cases hkeep : keep e.1 = true
    · have hall : (e.2.keys.map (DatedTrip.mk e.1)).filter (fun t => keep t.date) =
          e.2.keys.map (DatedTrip.mk e.1) := by
        refine List.filter_eq_self.mpr fun t ht => ?_
        obtain ⟨_, -, rfl⟩ := List.mem_map.mp ht
        exact hkeep
      rw [List.filter_cons_of_pos (by exact hkeep), List.flatMap_cons, hall, htrips]
    · have hnone : (e.2.keys.map (DatedTrip.mk e.1)).filter (fun t => keep t.date) = [] := by
        refine List.filter_eq_nil_iff.mpr fun t ht => ?_
        obtain ⟨_, -, rfl⟩ := List.mem_map.mp ht
        exact hkeep
      rw [List.filter_cons_of_neg (by exact hkeep), hnone]
      rfl

/-- **Date by date the trips come as they do by date and identifier.** -/
theorem Shows.through_eq (h : l.Shows a) (last : ServiceDate) :
    l.through last = a.through last := by
  unfold AddedTrips.through
  rw [← h.dated_eq]
  exact flatMap_keys_filter (fun date => !decide (last < date)) l.byDate.entries

end Ledger

/-- **The books keep exact counts.** After any history of announcements, of one trip or another, of
removals and of revisions, a pattern that is in the books is counted once for each trip that uses
it, and some trip does. It is there exactly while it has users, in the revision that was given last.
Trips that are in the books have a pattern and can be taken out, and no others; what is known of one
is the date of its latest announcement, and whether any other trip uses its pattern. The trips up to
a date are those announced for it or a date before, each once, by date and then by identifier. The
four tables say and answer the same. -/
theorem AddedTrips.counts_exact (es : List Entry) :
    Tells es (after es) ∧ (Ledger.after es).Shows (after es) ∧
      (∀ trip, (Ledger.after es).patternFor? trip = (after es).patternFor? trip ∧
        ((Ledger.after es).remove trip).1 = ((after es).remove? trip).map Prod.fst) ∧
      ∀ last, (Ledger.after es).through last = (after es).through last := by
  have hexact := exact_after es
  have hshows := Ledger.shows_after es
  exact ⟨hexact.tells, hshows, fun trip => ⟨hshows.patternFor?_eq trip,
    (hshows.remove_eq hexact trip).1⟩, hshows.through_eq⟩

end LiveTimetable
