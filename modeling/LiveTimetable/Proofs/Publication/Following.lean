import LiveTimetable.Proofs.Publication.Writing
import LiveTimetable.Proofs.Timetable.Reachability
import LiveTimetable.Proofs.Timetable.Trips

/-!
# What following a pattern makes of the buffer

A timetable that follows its pattern keeps the rows of the trips that the pattern still has, drops
all others, and takes up the trips that are new. A trip whose publication was replaced runs as
published again.

* `Buffer.takeUp_rows`, `Buffer.follow_rows`: the rows of a timetable that followed its pattern.
* `Buffer.follow_of_not_changed`: nothing changes unless that is reported.
* `Buffer.sync_follows`: following a pattern changes the timetables of the pattern, and marks those
  that changed; nothing else in the buffer is touched.
-/

namespace LiveTimetable

/-- A row after its trip was published: as it was if it has that publication, else as published. -/
def Row.refreshedBy (bs : List Baseline) (r : Row) : Row :=
  match bs.find? fun x => x.trip.id == r.tripId with
  | some x => if r.published.serial = x.serial then r else .ofBaseline x
  | none => r

/-- Rows after trips were taken up: those that were there, refreshed, and then the new ones. -/
def takenUp (bs : List Baseline) (rows : List Row) : List Row :=
  rows.map (Row.refreshedBy bs) ++
    (bs.filter fun x => decide (x.trip.id ∉ rows.map Row.tripId)).map Row.ofBaseline

section TakenUp

variable {bs : List Baseline} {x : Baseline} {r : Row} {rows : List Row}

theorem Row.refreshedBy_cons_of_eq (h : r.tripId = x.trip.id) :
    r.refreshedBy (x :: bs) = if r.published.serial = x.serial then r else .ofBaseline x := by
  simp [refreshedBy, h]

theorem Row.refreshedBy_cons_of_ne (h : r.tripId ≠ x.trip.id) :
    r.refreshedBy (x :: bs) = r.refreshedBy bs := by
  simp [refreshedBy, Ne.symm h]

theorem Row.refreshedBy_of_not_mem (h : r.tripId ∉ bs.map fun x => x.trip.id) :
    r.refreshedBy bs = r := by
  have hnone : (bs.find? fun x => x.trip.id == r.tripId) = none := by
    refine List.find?_eq_none.mpr fun x hx heq => h ?_
    rw [← beq_iff_eq.mp heq]
    exact List.mem_map_of_mem hx
  rw [refreshedBy, hnone]

theorem Row.tripId_refreshedBy (bs : List Baseline) (r : Row) :
    (r.refreshedBy bs).tripId = r.tripId := by
  unfold refreshedBy
  split
  · rename_i x hx
    split
    · rfl
    · have hid := List.find?_some hx
      exact beq_iff_eq.mp hid
  · rfl

theorem tripIds_map_refreshedBy (bs : List Baseline) (rows : List Row) :
    (rows.map (Row.refreshedBy bs)).map Row.tripId = rows.map Row.tripId := by
  rw [List.map_map]
  exact List.map_congr_left fun r _ => Row.tripId_refreshedBy bs r

theorem takenUp_nil : takenUp [] rows = rows := by
  have hsame : rows.map (Row.refreshedBy []) = rows := Timetable.map_eq_self fun r _ => rfl
  unfold takenUp
  rw [hsame]
  exact List.append_nil rows

/-- A trip that is there is refreshed, any other one comes last. -/
theorem takenUp_singleton : takenUp [x] rows = rows.map (Row.refreshedBy [x]) ++
    if x.trip.id ∈ rows.map Row.tripId then [] else [.ofBaseline x] := by
  unfold takenUp
  by_cases hmem : x.trip.id ∈ rows.map Row.tripId
  · rw [if_pos hmem, List.filter_cons_of_neg (by simpa using hmem)]
    rfl
  · rw [if_neg hmem, List.filter_cons_of_pos (by simpa using hmem)]
    rfl

/-- Trips are taken up one after another. -/
theorem takenUp_cons (hnew : x.trip.id ∉ bs.map fun y => y.trip.id) :
    takenUp bs (takenUp [x] rows) = takenUp (x :: bs) rows := by
  have hrow : ∀ r : Row, (r.refreshedBy [x]).refreshedBy bs = r.refreshedBy (x :: bs) := by
    intro r
    by_cases hid : r.tripId = x.trip.id
    · rw [Row.refreshedBy_of_not_mem (by rw [Row.tripId_refreshedBy, hid]; exact hnew),
        Row.refreshedBy_cons_of_eq hid, Row.refreshedBy_cons_of_eq hid]
    · rw [Row.refreshedBy_cons_of_ne hid, Row.refreshedBy_cons_of_ne hid]
      rfl
  have hold : (rows.map (Row.refreshedBy [x])).map (Row.refreshedBy bs) =
      rows.map (Row.refreshedBy (x :: bs)) := by
    rw [List.map_map]
    exact List.map_congr_left fun r _ => hrow r
  have hother : ∀ y ∈ bs, y.trip.id ≠ x.trip.id := by
    rintro y hy heq
    exact hnew (heq ▸ List.mem_map_of_mem hy)
  rw [takenUp_singleton]
  unfold takenUp
  by_cases hmem : x.trip.id ∈ rows.map Row.tripId
  · rw [if_pos hmem, List.append_nil, hold, tripIds_map_refreshedBy,
      List.filter_cons_of_neg (by simpa using hmem)]
  · have hself : [Row.ofBaseline x].map (Row.refreshedBy bs) = [.ofBaseline x] :=
      congrArg (fun r => [r]) (Row.refreshedBy_of_not_mem hnew)
    have hfilter : bs.filter (fun y => decide (y.trip.id ∉ rows.map Row.tripId ++
        [Row.ofBaseline x].map Row.tripId)) =
          bs.filter fun y => decide (y.trip.id ∉ rows.map Row.tripId) := by
      refine List.filter_congr fun y hy => ?_
      have hne : y.trip.id ≠ (Row.ofBaseline x).tripId := hother y hy
      simp [hne]
    rw [if_neg hmem, List.filter_cons_of_pos (by simpa using hmem), List.map_append,
      List.map_append, hold, tripIds_map_refreshedBy, hself, hfilter, List.append_assoc]
    rfl

end TakenUp

namespace Buffer

variable {b b' : Buffer} {p : Pattern} {t t' : Timetable} {x : Baseline} {bs : List Baseline}
  {f : Following}

/-! ## Taking up -/

theorem publishes_iff (hnodup : t.trips.Nodup) : publishes t x = true ↔
    ∃ r ∈ t.rows, r.tripId = x.trip.id ∧ r.published.serial = x.serial := by
  unfold publishes Timetable.published? Timetable.row?
  constructor
  · intro h
    cases hfind : t.rows.find? fun r => r.tripId == x.trip.id with
    | none =>
      rw [hfind] at h
      cases h
    | some r =>
      rw [hfind] at h
      have hid := List.find?_some hfind
      exact ⟨r, List.mem_of_find?_eq_some hfind, beq_iff_eq.mp hid, beq_iff_eq.mp h⟩
  · rintro ⟨r, hr, hid, hserial⟩
    cases hfind : t.rows.find? fun r => r.tripId == x.trip.id with
    | none => exact absurd (beq_iff_eq.mpr hid) (List.find?_eq_none.mp hfind r hr)
    | some q =>
      have hq := List.find?_some hfind
      have hqr : q = r := Timetable.eq_of_tripId_eq hnodup (List.mem_of_find?_eq_some hfind) hr
        ((beq_iff_eq.mp hq).trans hid.symm)
      subst hqr
      exact beq_iff_eq.mpr hserial

/-- A trip that is there in its publication is taken up already. -/
theorem takenUp_of_publishes (hnodup : t.trips.Nodup) (h : publishes t x = true) :
    takenUp [x] t.rows = t.rows := by
  obtain ⟨r, hr, hid, hserial⟩ := (publishes_iff hnodup).mp h
  have hmem : x.trip.id ∈ t.rows.map Row.tripId := hid ▸ List.mem_map_of_mem hr
  rw [takenUp_singleton, if_pos hmem, List.append_nil]
  refine Timetable.map_eq_self fun q hq => ?_
  by_cases hqid : q.tripId = x.trip.id
  · obtain rfl := Timetable.eq_of_tripId_eq hnodup hq hr (hqid.trans hid.symm)
    rw [Row.refreshedBy_cons_of_eq hqid, if_pos hserial]
  · rw [Row.refreshedBy_cons_of_ne hqid]
    rfl

/-- Any other trip is taken up by putting it in. -/
theorem takenUp_of_insert (hnodup : t.trips.Nodup) (hpub : publishes t x = false)
    (h : t.insert x = .ok t') : t'.rows = takenUp [x] t.rows := by
  have hcount := Timetable.stopCount_of_insert h
  rw [takenUp_singleton]
  by_cases hmem : x.trip.id ∈ t.trips
  · rw [Timetable.insert_eq_of_mem hcount hnodup hmem] at h
    cases h
    have hmem' : x.trip.id ∈ t.rows.map Row.tripId := hmem
    rw [if_pos hmem', List.append_nil]
    refine List.map_congr_left fun r hr => ?_
    by_cases hid : r.tripId = x.trip.id
    · have hserial : r.published.serial ≠ x.serial := fun hserial => by
        rw [(publishes_iff hnodup).mpr ⟨r, hr, hid, hserial⟩] at hpub
        cases hpub
      rw [if_pos hid, Row.refreshedBy_cons_of_eq hid, if_neg hserial]
    · rw [if_neg hid, Row.refreshedBy_cons_of_ne hid]
      rfl
  · rw [Timetable.insert_eq_of_not_mem hcount hmem] at h
    cases h
    have hsame : t.rows.map (Row.refreshedBy [x]) = t.rows := by
      refine Timetable.map_eq_self fun r hr => Row.refreshedBy_of_not_mem fun hid => hmem ?_
      have hid' : r.tripId = x.trip.id := List.mem_singleton.mp hid
      exact hid' ▸ List.mem_map_of_mem hr
    have hmem' : x.trip.id ∉ t.rows.map Row.tripId := hmem
    rw [if_neg hmem', hsame]

/-- Trips that call at the stops are taken up without being refused. -/
theorem takeUp_frame (hcount : ∀ x ∈ bs, x.stopCount = f.timetable.stops.length)
    (hnone : f.refusal = none) :
    (takeUp bs f).refusal = none ∧ (takeUp bs f).timetable.SameFrame f.timetable := by
  induction bs generalizing f with
  | nil => exact ⟨hnone, Timetable.SameFrame.refl _⟩
  | cons x rest ih =>
    have hrest : ∀ y ∈ rest, y.stopCount = f.timetable.stops.length := fun y hy =>
      hcount y (List.mem_cons_of_mem _ hy)
    unfold takeUp
    by_cases hpub : publishes f.timetable x = true
    · rw [if_pos hpub]
      exact ih hrest hnone
    · rw [if_neg hpub]
      cases hins : f.timetable.insert x with
      | error e =>
        rw [Timetable.insert_eq (hcount x List.mem_cons_self)] at hins
        cases hins
      | ok mid =>
        have hframe := Timetable.sameFrame_of_insert hins
        obtain ⟨hr, hs⟩ := ih (f := { f with timetable := mid, changed := true })
          (fun y hy => by rw [hframe.stops_eq]; exact hrest y hy) hnone
        exact ⟨hr, hs.trans hframe⟩

/-- **The rows after trips were taken up.** -/
theorem takeUp_rows (hcount : ∀ x ∈ bs, x.stopCount = f.timetable.stops.length)
    (hnodup : f.timetable.trips.Nodup) (hdiff : (bs.map fun x => x.trip.id).Nodup) :
    (takeUp bs f).timetable.rows = takenUp bs f.timetable.rows := by
  induction bs generalizing f with
  | nil => exact takenUp_nil.symm
  | cons x rest ih =>
    obtain ⟨hnew, hdiff'⟩ := List.nodup_cons.mp hdiff
    have hrest : ∀ y ∈ rest, y.stopCount = f.timetable.stops.length := fun y hy =>
      hcount y (List.mem_cons_of_mem _ hy)
    unfold takeUp
    rw [← takenUp_cons hnew]
    by_cases hpub : publishes f.timetable x = true
    · rw [if_pos hpub, takenUp_of_publishes hnodup hpub]
      exact ih hrest hnodup hdiff'
    · rw [if_neg hpub]
      cases hins : f.timetable.insert x with
      | error e =>
        rw [Timetable.insert_eq (hcount x List.mem_cons_self)] at hins
        cases hins
      | ok mid =>
        rw [← takenUp_of_insert hnodup (Bool.eq_false_iff.mpr hpub) hins]
        refine ih (fun y hy => ?_) (Timetable.nodup_trips_of_insert hnodup hins) hdiff'
        rw [(Timetable.sameFrame_of_insert hins).stops_eq]
        exact hrest y hy

/-- A change that was made stays reported. -/
theorem changed_takeUp (h : f.changed = true) : (takeUp bs f).changed = true := by
  induction bs generalizing f with
  | nil => exact h
  | cons x rest ih =>
    unfold takeUp
    split
    · exact ih h
    · split
      · exact ih rfl
      · exact h

/-- Nothing changes unless that is reported. -/
theorem takeUp_of_not_changed (h : (takeUp bs f).changed = false) :
    (takeUp bs f).timetable = f.timetable := by
  induction bs generalizing f with
  | nil => rfl
  | cons x rest ih =>
    unfold takeUp at h ⊢
    split at h
    · rename_i hpub
      rw [if_pos hpub]
      exact ih h
    · rename_i hpub
      rw [if_neg hpub]
      split at h
      · rw [changed_takeUp rfl] at h
        cases h
      · rfl

theorem intact_takeUp (h : f.timetable.Intact) : (takeUp bs f).timetable.Intact := by
  induction bs generalizing f with
  | nil => exact h
  | cons x rest ih =>
    unfold takeUp
    split
    · exact ih h
    · split
      · rename_i t hins
        exact ih (h.insert hins)
      · exact h

/-! ## Following -/

/-- The rows of a timetable after it followed its pattern: those of trips that the pattern has,
refreshed, and then those of the other trips of the pattern. -/
def followed (p : Pattern) (rows : List Row) : List Row :=
  takenUp (p.timetable.rows.map Row.published) (rows.filter fun r => decide (r.tripId ∈ p.trips))

theorem published?_eq_none_iff {trip : TripId} : p.published? trip = none ↔ trip ∉ p.trips := by
  unfold Pattern.published? Timetable.published? Timetable.row?
  rw [Option.map_eq_none_iff, List.find?_eq_none, Pattern.trips, Timetable.mem_trips_iff]
  simp

theorem stopCount_of_mem_published (hp : p.WellFormed) {n : Nat} (hstops : n = p.stops.length) :
    ∀ x ∈ p.timetable.rows.map Row.published, x.stopCount = n := by
  intro x hx
  obtain ⟨r, hr, rfl⟩ := List.mem_map.mp hx
  exact (hp.stopCount_eq r hr).trans hstops.symm

/-- **A timetable with as many stops as its pattern follows it without being refused.** -/
theorem follow_frame (hp : p.WellFormed) (hstops : t.stops.length = p.stops.length) :
    (follow p t).refusal = none ∧ (follow p t).timetable.SameFrame t := by
  have hframe := Timetable.sameFrame_foldl_remove
    (t.trips.filter fun trip => (p.published? trip).isNone) t
  obtain ⟨hr, hs⟩ := takeUp_frame (f := ⟨_, _, none⟩) (stopCount_of_mem_published hp
    ((congrArg List.length hframe.stops_eq).trans hstops)) rfl
  exact ⟨hr, hs.trans hframe⟩

/-- **The rows of a timetable that followed its pattern.** -/
theorem follow_rows (hp : p.WellFormed) (hnodup : t.trips.Nodup)
    (hstops : t.stops.length = p.stops.length) :
    (follow p t).timetable.rows = followed p t.rows := by
  have hframe := Timetable.sameFrame_foldl_remove
    (t.trips.filter fun trip => (p.published? trip).isNone) t
  have hkept : ((t.trips.filter fun trip => (p.published? trip).isNone).foldl Timetable.remove
      t).rows = t.rows.filter fun r => decide (r.tripId ∈ p.trips) := by
    rw [Timetable.rows_foldl_remove _ hnodup]
    refine List.filter_congr fun r hr => ?_
    have hmem : r.tripId ∈ t.trips := List.mem_map_of_mem hr
    simp [hmem, published?_eq_none_iff]
  have hids : ((p.timetable.rows.map Row.published).map fun x => x.trip.id).Nodup := by
    rw [List.map_map]
    exact hp.nodup
  unfold follow
  rw [takeUp_rows (stopCount_of_mem_published hp
    ((congrArg List.length hframe.stops_eq).trans hstops))
    (Timetable.nodup_trips_foldl_remove _ hnodup) hids, followed, hkept]

/-- Nothing changes unless that is reported. -/
theorem follow_of_not_changed (h : (follow p t).changed = false) :
    (follow p t).timetable = t := by
  unfold follow at h ⊢
  simp only [] at h ⊢
  rw [takeUp_of_not_changed h]
  cases hgone : t.trips.filter fun trip => (p.published? trip).isNone with
  | nil => rfl
  | cons trip rest =>
    rw [hgone, changed_takeUp rfl] at h
    cases h

theorem intact_follow (h : t.Intact) : (follow p t).timetable.Intact := by
  refine intact_takeUp ?_
  suffices hall : ∀ (trips : List TripId) (t : Timetable), t.Intact →
      (trips.foldl Timetable.remove t).Intact from hall _ t h
  intro trips
  induction trips with
  | nil => exact fun t ht => ht
  | cons trip rest ih => exact fun t ht => ih _ (ht.remove trip)

/-! ## The buffer -/

/-- What is held of a timetable that followed a pattern: it is written to if it changed. -/
def followedHeld (p : Pattern) (generation : Nat) (held : Held) : Held :=
  if (follow p held.timetable).changed then ⟨(follow p held.timetable).timetable, generation⟩
  else held

theorem followedHeld_timetable (p : Pattern) (generation : Nat) (held : Held) :
    (followedHeld p generation held).timetable = (follow p held.timetable).timetable := by
  unfold followedHeld
  split
  · rfl
  · rename_i hsame
    exact (follow_of_not_changed (Bool.eq_false_iff.mpr hsame)).symm

/-- The buffer `b'` is `b` after the listed timetables followed a pattern. -/
structure Follows (p : Pattern) (es : List (PatternDate × Held)) (b b' : Buffer) : Prop where
  removed_eq : b'.removed = b.removed
  generation_eq : b'.generation = b.generation
  recovery_eq : b'.recovery = b.recovery
  listed : ∀ e ∈ es, b'.timetables.get? e.1 = some (followedHeld p b.generation e.2)
  others : ∀ key ∉ es.map Prod.fst, b'.timetables.get? key = b.timetables.get? key
  dirty : ∀ key, b'.dirty.contains key = true ↔ b.dirty.contains key = true ∨
    ∃ e ∈ es, e.1 = key ∧ (follow p e.2.timetable).changed = true

theorem syncOne_eq (key : PatternDate) (h : (follow p t).refusal = none) :
    b.syncOne p key t = (if (follow p t).changed then b.write key (follow p t).timetable else b,
      .ok (follow p t).changed) := by
  unfold syncOne
  simp only [h]

/-- One timetable follows the pattern. -/
theorem follows_singleton {key : PatternDate} {held : Held}
    (hheld : b.timetables.get? key = some held) :
    Follows p [(key, held)] b (if (follow p held.timetable).changed then
      b.write key (follow p held.timetable).timetable else b) := by
  by_cases hchanged : (follow p held.timetable).changed = true
  · rw [if_pos hchanged]
    refine ⟨rfl, rfl, rfl, fun e he => ?_, fun k hk => ?_, fun k => ?_⟩
    · rw [List.mem_singleton.mp he, get?_write, if_pos rfl, followedHeld, if_pos hchanged]
    · rw [get?_write, if_neg fun heq => hk (List.mem_singleton.mpr heq)]
    · simp only [List.mem_singleton, exists_eq_left, hchanged, and_true]
      show (b.dirty.insert key ()).contains k = true ↔ _
      rw [Table.contains_insert, or_comm, eq_comm (a := k)]
  · rw [if_neg hchanged]
    refine ⟨rfl, rfl, rfl, fun e he => ?_, fun k hk => rfl, fun k => ?_⟩
    · rw [List.mem_singleton.mp he, hheld, followedHeld, if_neg hchanged]
    · simp [hchanged]

/-- Timetables under different keys follow the pattern one after another. -/
theorem Follows.append {c : Buffer} {es es' : List (PatternDate × Held)}
    (h : Follows p es b b') (h' : Follows p es' b' c)
    (hdiff : ∀ e ∈ es, e.1 ∉ es'.map Prod.fst) : Follows p (es ++ es') b c where
  removed_eq := h'.removed_eq.trans h.removed_eq
  generation_eq := h'.generation_eq.trans h.generation_eq
  recovery_eq := h'.recovery_eq.trans h.recovery_eq
  listed e he := by
    rcases List.mem_append.mp he with he | he
    · rw [h'.others e.1 (hdiff e he), h.listed e he]
    · rw [h'.listed e he, h.generation_eq]
  others key hkey := by
    rw [List.map_append, List.mem_append, not_or] at hkey
    rw [h'.others key hkey.2, h.others key hkey.1]
  dirty key := by
    rw [h'.dirty, h.dirty, or_assoc]
    refine or_congr_right ?_
    constructor
    · rintro (⟨e, he, hkey⟩ | ⟨e, he, hkey⟩)
      · exact ⟨e, List.mem_append_left _ he, hkey⟩
      · exact ⟨e, List.mem_append_right _ he, hkey⟩
    · rintro ⟨e, he, hkey⟩
      rcases List.mem_append.mp he with he | he
      · exact Or.inl ⟨e, he, hkey⟩
      · exact Or.inr ⟨e, he, hkey⟩

theorem syncAll_follows : ∀ {es : List (PatternDate × Held)} {b : Buffer},
    (∀ e ∈ es, (follow p e.2.timetable).refusal = none) → (es.map Prod.fst).Nodup →
      (∀ e ∈ es, b.timetables.get? e.1 = some e.2) →
        ∃ b' changed, syncAll p es b = (b', .ok changed) ∧ Follows p es b b'
  | [], b, _, _, _ => by
    refine ⟨b, false, rfl, rfl, rfl, rfl, fun e he => absurd he List.not_mem_nil,
      fun _ _ => rfl, fun key => ?_⟩
    simp
  | (key, held) :: rest, b, hrefusal, hnodup, hheld => by
    obtain ⟨hnew, hrest⟩ := List.nodup_cons.mp hnodup
    have hone := follows_singleton (p := p) (hheld _ List.mem_cons_self)
    have hmid : ∀ e ∈ rest, (if (follow p held.timetable).changed then
        b.write key (follow p held.timetable).timetable else b).timetables.get? e.1 =
          some e.2 := by
      intro e he
      rw [hone.others e.1, hheld e (List.mem_cons_of_mem _ he)]
      rintro hkey
      exact hnew (List.mem_singleton.mp hkey ▸ List.mem_map_of_mem he)
    have hrefusal' : ∀ e ∈ rest, (follow p e.2.timetable).refusal = none := fun e he =>
      hrefusal e (List.mem_cons_of_mem _ he)
    obtain ⟨b', changed, hsync, hfollows⟩ := syncAll_follows hrefusal' hrest hmid
    have hall : Follows p ([(key, held)] ++ rest) b b' := by
      refine hone.append hfollows fun e he => ?_
      rw [List.mem_singleton.mp he]
      exact hnew
    refine ⟨b', (follow p held.timetable).changed || changed, ?_, hall⟩
    rw [syncAll, syncOne_eq key (hrefusal _ List.mem_cons_self)]
    simp only [hsync]
    rfl

/-- **A buffer whose timetables of a pattern have its number of stops follows the pattern**, and
nothing is refused. -/
theorem sync_follows (hp : p.WellFormed) (hstops : ∀ key held, b.timetables.get? key = some held →
      key.pattern = p.id → held.timetable.stops.length = p.stops.length) :
    ∃ b' changed, b.sync p = (b', .ok changed) ∧
      Follows p (b.timetables.entries.filter fun e => e.1.pattern == p.id) b b' := by
  refine syncAll_follows (fun e he => ?_) ?_ fun e he => ?_
  · obtain ⟨hmem, hid⟩ := List.mem_filter.mp he
    exact (follow_frame hp (hstops e.1 e.2 (Table.mem_entries_iff.mp hmem)
      (beq_iff_eq.mp hid))).1
  · exact (b.timetables.filter fun key _ => key.pattern == p.id).nodup_keys
  · exact Table.mem_entries_iff.mp (List.mem_of_mem_filter he)

/-- What is held under a key after the buffer followed a pattern. -/
theorem Follows.get?_eq (h : Follows p (b.timetables.entries.filter fun e => e.1.pattern == p.id)
    b b') (key : PatternDate) : b'.timetables.get? key = (b.timetables.get? key).map fun held =>
      if key.pattern = p.id then followedHeld p b.generation held else held := by
  cases hheld : b.timetables.get? key with
  | none =>
    rw [h.others key, hheld]
    · rfl
    · intro hmem
      obtain ⟨e, he, rfl⟩ := List.mem_map.mp hmem
      have hsome := Table.mem_entries_iff.mp (List.mem_of_mem_filter he)
      rw [hheld] at hsome
      cases hsome
  | some held =>
    by_cases hid : key.pattern = p.id
    · rw [h.listed (key, held), Option.map_some, if_pos hid]
      exact List.mem_filter.mpr ⟨Table.mem_entries_iff.mpr hheld, beq_iff_eq.mpr hid⟩
    · rw [h.others key, hheld, Option.map_some, if_neg hid]
      intro hmem
      obtain ⟨e, he, rfl⟩ := List.mem_map.mp hmem
      exact hid (beq_iff_eq.mp (List.mem_filter.mp he).2)

/-- The keys that are marked after the buffer followed a pattern. -/
theorem Follows.dirty_iff (h : Follows p (b.timetables.entries.filter fun e =>
    e.1.pattern == p.id) b b') (key : PatternDate) :
    b'.dirty.contains key = true ↔ b.dirty.contains key = true ∨ ∃ held,
      b.timetables.get? key = some held ∧ key.pattern = p.id ∧
        (follow p held.timetable).changed = true := by
  rw [h.dirty]
  refine or_congr_right ?_
  constructor
  · rintro ⟨e, he, rfl, hchanged⟩
    obtain ⟨hmem, hid⟩ := List.mem_filter.mp he
    exact ⟨e.2, Table.mem_entries_iff.mp hmem, beq_iff_eq.mp hid, hchanged⟩
  · rintro ⟨held, hheld, hid, hchanged⟩
    exact ⟨(key, held), List.mem_filter.mpr ⟨Table.mem_entries_iff.mpr hheld,
      beq_iff_eq.mpr hid⟩, rfl, hchanged⟩

end Buffer

end LiveTimetable
