import LiveTimetable.Proofs.Live.Frame

/-!
# Updates of different trips can be exchanged

An update that adds no trip gives its trip other times, or lets it depart, or is refused. As it
spares all other trips, an update of another trip comes to the same verdict before and afterwards.
What is left is that the state is the same whichever is carried out first: one case for each two
kinds, by the edits of the buffer and by what a departure does to the other stores.

* `Updater.retime_comm`, `Updater.depart_retime`, `Updater.withdraw_comm`: two updates that are
  carried out, in either order.
* `Updater.updates_commute`: two updates of different trips, neither of which adds one, have the
  same results in either order, and lead to one and the same state.
-/

namespace LiveTimetable.Updater

variable {s : Updater} {u v : TripUpdate} {trip other : TripId} {date date' : ServiceDate}
  {times times' : TripTimes} {y z : Synthesized} {rest rest' : Option Synthesized}

/-! ## Two trips with other times -/

theorem retime_comm (hs : s.Consistent) (hne : trip ≠ other) :
    (s.retime trip date times).retime other date' times' =
      (s.retime other date' times').retime trip date times := by
  unfold retime
  cases hp : s.index.patternForTrip? trip with
  | none =>
    cases hq : s.index.patternForTrip? other with
    | none => simp only [hp]
    | some q => simp only [setBuffer_index, hp]
  | some p =>
    cases hq : s.index.patternForTrip? other with
    | none => simp only [setBuffer_index, hq, hp]
    | some q =>
      simp only [setBuffer_index, hp, hq]
      exact congrArg s.setBuffer (Buffer.retime_comm (hs.pattern_inj hq hp) hne)

/-! ## A trip with other times and a trip that departs -/

/-- **A trip gets other times, and another one departs**, in either order. -/
theorem depart_retime (hs : s.Consistent) (hy : s.graph.Keeps y) (hmem : trip ∈ y.pattern.trips)
    (hrest : y.remaining trip = .ok rest) (hne : other ≠ trip) :
    (s.retime other date times).depart trip y rest =
      (s.depart trip y rest).retime other date times := by
  by_cases hown : other ∈ y.pattern.trips
  · obtain ⟨y', hy'⟩ := Synthesized.exists_remaining_of_ne (hs.graph.sound y hy) hmem hown hne.symm
    cases hrest.symm.trans hy'
    have hremains := Synthesized.remains_of_remaining (hs.graph.sound y hy) hmem hrest
    rw [retime_eq (hs.patternForTrip?_eq hy hown),
      retime_eq (patternForTrip?_depart_of_mem (some y') hs hy hown hne)]
    exact congrArg (s.depart trip y (some y')).setBuffer
      (Buffer.strike_retime hremains.revises.id_eq hremains.loses)
  · have hsame := patternForTrip?_depart_of_not_mem rest hs hy hown hne
    cases hp : s.index.patternForTrip? other with
    | none =>
      rw [hp] at hsame
      unfold retime
      rw [hp, hsame]
    | some p =>
      rw [hp] at hsame
      rw [retime_eq hp, retime_eq hsame]
      exact congrArg (s.depart trip y rest).setBuffer
        (Buffer.depart_retime_of_ne (hs.id_ne_of_not_mem hy hown hp))

/-- A trip gets other times, and another one is withdrawn. -/
theorem withdraw_retime (hs : s.Consistent) (ht : s.Tracks)
    (hs' : (s.retime other date times).Consistent) (ht' : (s.retime other date times).Tracks)
    (hadded : s.added.contains trip = true) (hne : other ≠ trip) {gone : Updater}
    {r : Except ApplyError Unit} (h : s.withdraw trip = .ok (gone, r)) :
    (s.retime other date times).withdraw trip = .ok (gone.retime other date times, r) := by
  obtain ⟨y, rest, hy, hmem, hrest, hwithdraw⟩ := exists_withdraw hs ht hadded
  cases hwithdraw.symm.trans h
  rw [withdraw_eq hs' ht' (by rwa [graph_retime]) hmem hrest,
    depart_retime hs hy hmem hrest hne]

/-! ## Two trips that depart -/

/-- States with the same stores are the same. -/
theorem ext_stores {a b : Updater} (hindex : a.index = b.index) (hgraph : a.graph = b.graph)
    (hbuffer : a.buffer = b.buffer) (hadded : a.added = b.added)
    (hwithdrawn : a.withdrawn = b.withdrawn)
    (hrest : { b with index := a.index, graph := a.graph, publisher := { b.publisher with
      buffer := a.buffer }, added := a.added, withdrawn := a.withdrawn } = a) : a = b := by
  rw [← hrest, hindex, hgraph, hbuffer, hadded, hwithdrawn]
  rfl

theorem keeps_depart_self {y' : Synthesized} (hcourse : y'.course = y.course) :
    (s.depart trip y (some y')).graph.Keeps y' := by
  show (s.graph.synthesized.place y.course (some y')).get? y'.course = some y'
  rw [Table.get?_place, if_pos hcourse]

theorem keeps_depart_of_ne (hz : s.graph.Keeps z) (hne : z.course ≠ y.course) :
    (s.depart trip y rest).graph.Keeps z := by
  show (s.graph.synthesized.place y.course rest).get? z.course = some z
  rw [Table.get?_place, if_neg hne]
  exact hz

/-- Two trips of one pattern. -/
theorem depart_depart {y' z' : Synthesized} (hy : y.Remains trip y') (hz : y.Remains other z') :
    (s.depart trip y (some y')).depart other y' rest =
      (s.depart other y (some z')).depart trip z' rest := by
  have hid := hy.revises.id_eq
  have hid' := hz.revises.id_eq
  refine ext_stores ?_ ?_ ?_ ?_ ?_ rfl
  · show (s.index.depart trip y.pattern.id (some y'.pattern)).depart other y'.pattern.id _ =
      (s.index.depart other y.pattern.id (some z'.pattern)).depart trip z'.pattern.id _
    rw [hid, hid']
    exact TransitIndex.depart_depart
  · show (s.graph.depart y (some y')).depart y' rest = (s.graph.depart y (some z')).depart z' rest
    rw [Graph.depart_depart hy.course_eq hy.edges_eq hy.vertices_eq,
      Graph.depart_depart hz.course_eq hz.edges_eq hz.vertices_eq]
  · show (s.buffer.depart trip y.pattern.id true).depart other y'.pattern.id rest.isSome =
      (s.buffer.depart other y.pattern.id true).depart trip z'.pattern.id rest.isSome
    rw [hid, hid']
    exact Buffer.depart_depart
  · show (s.added.depart trip y.pattern.id (some y')).depart other y'.pattern.id rest =
      (s.added.depart other y.pattern.id (some z')).depart trip z'.pattern.id rest
    rw [hid, hid']
    exact AddedTrips.depart_depart
  · show (if rest.isSome then s.withdrawn
        else s.withdrawn.insert y'.pattern.id y'.pattern.revision) =
      if rest.isSome then s.withdrawn else s.withdrawn.insert z'.pattern.id z'.pattern.revision
    rw [hid, hid', hy.revision_eq, hz.revision_eq]

/-- Trips of two patterns. -/
theorem depart_comm (hid : y.pattern.id ≠ z.pattern.id) (hcourse : y.course ≠ z.course) :
    (s.depart trip y rest).depart other z rest' = (s.depart other z rest').depart trip y rest := by
  refine ext_stores (TransitIndex.depart_comm hid) (Graph.depart_comm hcourse)
    (Buffer.depart_comm hid) (AddedTrips.depart_comm hid) ?_ rfl
  cases rest <;> cases rest'
  · exact Table.place_comm (v := some _) (w := some _) hid
  · rfl
  · rfl
  · rfl

/-- **Two added trips are withdrawn in either order.** -/
theorem withdraw_comm (hs : s.Consistent) (ht : s.Tracks) (hy : s.graph.Keeps y)
    (hmem : trip ∈ y.pattern.trips) (hrest : y.remaining trip = .ok rest) (hz : s.graph.Keeps z)
    (hmem' : other ∈ z.pattern.trips) (hrest' : z.remaining other = .ok rest')
    (hne : trip ≠ other) :
    ∃ s', (s.depart trip y rest).withdraw other = .ok (s', .ok ()) ∧
      (s.depart other z rest').withdraw trip = .ok (s', .ok ()) := by
  have hchange := (withdraw_spec hs (hs.contains_iff.mpr ⟨y, hy, hmem⟩)
    (withdraw_eq hs ht hy hmem hrest)).2
  have hchange' := (withdraw_spec hs (hs.contains_iff.mpr ⟨z, hz, hmem'⟩)
    (withdraw_eq hs ht hz hmem' hrest')).2
  have hwithdraw := fun x rest => @withdraw_eq _ other x rest (hchange.consistent hs)
    (hchange.tracks hs ht)
  have hwithdraw' := fun x rest => @withdraw_eq _ trip x rest (hchange'.consistent hs)
    (hchange'.tracks hs ht)
  by_cases hsame : y = z
  · subst hsame
    have hsound := hs.graph.sound y hy
    obtain ⟨y', hy'⟩ := Synthesized.exists_remaining_of_ne hsound hmem hmem' hne
    obtain ⟨z', hz'⟩ := Synthesized.exists_remaining_of_ne hsound hmem' hmem hne.symm
    cases hrest.symm.trans hy'
    cases hrest'.symm.trans hz'
    have hremains := Synthesized.remains_of_remaining hsound hmem hrest
    have hremains' := Synthesized.remains_of_remaining hsound hmem' hrest'
    have hleft := hremains.mem_trips_iff.mpr ⟨hne.symm, hmem'⟩
    have hleft' := hremains'.mem_trips_iff.mpr ⟨hne, hmem⟩
    obtain ⟨last, hlast⟩ := Synthesized.exists_remaining hremains.sound hleft
    have hlast' := (Synthesized.remaining_comm hsound hmem hmem' hne hrest hrest').symm.trans hlast
    refine ⟨_, hwithdraw _ _ (keeps_depart_self hremains.course_eq) hleft hlast, ?_⟩
    rw [hwithdraw' _ _ (keeps_depart_self hremains'.course_eq) hleft' hlast',
      depart_depart hremains hremains']
  · have hid : y.pattern.id ≠ z.pattern.id := fun h => hsame (hs.graph.id_inj y z hy hz h)
    have hcourse : y.course ≠ z.course := fun h => hid ((hs.id_eq_iff_course_eq hy hz).mpr
      ⟨congrArg Course.routeId h, congrArg Course.stops h⟩)
    refine ⟨_, hwithdraw _ _ (keeps_depart_of_ne hz hcourse.symm) hmem' hrest', ?_⟩
    rw [hwithdraw' _ _ (keeps_depart_of_ne hy hcourse) hmem hrest, depart_comm hid hcourse]

/-! ## Updates -/

/-- The verdict on an update that adds no trip. -/
theorem verdict_cases_of_not_added {verdict : Verdict} (hu : u.status ≠ .added)
    (h : s.verdict u = .ok verdict) :
    (∃ e, verdict = .refused e) ∨ (∃ times, verdict = .retimed times) ∨
      verdict = .withdrawn ∧ s.added.contains u.tripId = true := by
  rcases verdict_cases h with hrefused | hretimed | ⟨hwithdrawn, -, hadded⟩ | ⟨_, _, -, hstatus, -⟩
  · exact Or.inl hrefused
  · exact Or.inr (Or.inl hretimed)
  · exact Or.inr (Or.inr ⟨hwithdrawn, hadded⟩)
  · exact absurd hstatus hu

/-- What two verdicts say that add no trip, in either order. -/
theorem carryOut_comm (hs : s.Consistent) (ht : s.Tracks) (hne : u.tripId ≠ v.tripId)
    {vu vv : Verdict} (hvu : s.verdict u = .ok vu) (hvv : s.verdict v = .ok vv)
    (hu : u.status ≠ .added) (hv : v.status ≠ .added) {su sv : Updater}
    {ru rv : Except ApplyError Unit} (hcu : s.carryOut u vu = .ok (su, ru))
    (hcv : s.carryOut v vv = .ok (sv, rv)) (hsu : su.Consistent) (htu : su.Tracks)
    (hsv : sv.Consistent) (htv : sv.Tracks) :
    ∃ s', su.carryOut v vv = .ok (s', rv) ∧ sv.carryOut u vu = .ok (s', ru) := by
  rcases verdict_cases_of_not_added hu hvu with ⟨e, rfl⟩ | ⟨times, rfl⟩ | ⟨rfl, hadded⟩ <;>
    rcases verdict_cases_of_not_added hv hvv with ⟨e', rfl⟩ | ⟨times', rfl⟩ | ⟨rfl, hadded'⟩
  case inl.inl | inl.inr.inl | inl.inr.inr =>
    cases hcu
    exact ⟨sv, hcv, rfl⟩
  case inr.inl.inl | inr.inr.inl =>
    cases hcv
    exact ⟨su, rfl, hcu⟩
  case inr.inl.inr.inl =>
    cases hcu
    cases hcv
    refine ⟨_, rfl, ?_⟩
    rw [retime_comm hs hne]
    rfl
  case inr.inl.inr.inr =>
    cases hcu
    exact ⟨_, withdraw_retime hs ht hsu htu hadded' hne hcv, rfl⟩
  case inr.inr.inr.inl =>
    cases hcv
    exact ⟨_, rfl, withdraw_retime hs ht hsv htv hadded hne.symm hcu⟩
  case inr.inr.inr.inr =>
    obtain ⟨y, rest, hy, hmem, hrest, hwithdraw⟩ := exists_withdraw hs ht hadded
    obtain ⟨z, rest', hz, hmem', hrest', hwithdraw'⟩ := exists_withdraw hs ht hadded'
    cases hwithdraw.symm.trans hcu
    cases hwithdraw'.symm.trans hcv
    exact withdraw_comm hs ht hy hmem hrest hz hmem' hrest' hne

/-- **Updates of different trips can be exchanged.** If neither adds a trip, and each of them can be
applied to a reachable state, or is refused there, then each has this same result after the other
one too, and both orders lead to one and the same state. -/
theorem updates_commute {su sv : Updater} {ru rv : Except ApplyError Unit} (h : s.Reachable)
    (hne : u.tripId ≠ v.tripId) (hu : u.status ≠ .added) (hv : v.status ≠ .added)
    (happly : s.apply u = .ok (su, ru)) (happly' : s.apply v = .ok (sv, rv)) :
    ∃ s', su.apply v = .ok (s', rv) ∧ sv.apply u = .ok (s', ru) := by
  have hs := h.consistent
  have ht := h.tracks
  have hsu : su.Reachable := h.perform (c := .apply u) (by rw [perform, happly]; rfl)
  have hsv : sv.Reachable := h.perform (c := .apply v) (by rw [perform, happly']; rfl)
  have hspares := (effect_of_apply hs ht happly).spares hs ht hne.symm
  have hspares' := (effect_of_apply hs ht happly').spares hs ht hne
  rw [apply_eq hsu.consistent hsu.tracks, apply_eq hsv.consistent hsv.tracks, hspares.verdict_eq,
    hspares'.verdict_eq]
  rw [apply_eq hs ht] at happly happly'
  obtain ⟨vu, hvu, hcu⟩ := Checked.bind_eq_ok_iff.mp happly
  obtain ⟨vv, hvv, hcv⟩ := Checked.bind_eq_ok_iff.mp happly'
  rw [hvu, hvv, Checked.ok_bind, Checked.ok_bind]
  exact carryOut_comm hs ht hne hvu hvv hu hv hcu hcv hsu.consistent hsu.tracks hsv.consistent
    hsv.tracks

/-- Two added trips share a pattern. Each of their cancellations leaves the pattern to the other
trip if it comes first, and takes the pattern along if it comes second. -/
theorem updates_commute_shuttle : shuttleWithTwo.Reachable ∧ ∃ su sv s',
    shuttleWithTwo.apply (.canceling ⟨"a", "n"⟩ 0 shuttleDate) = .ok (su, .ok ()) ∧
    shuttleWithTwo.apply (.canceling ⟨"a", "m"⟩ 0 shuttleDate) = .ok (sv, .ok ()) ∧
    su ≠ sv ∧ su.apply (.canceling ⟨"a", "m"⟩ 0 shuttleDate) = .ok (s', .ok ()) ∧
    sv.apply (.canceling ⟨"a", "n"⟩ 0 shuttleDate) = .ok (s', .ok ()) := by
  obtain ⟨su, sv, hsu, hsv, hne⟩ : ∃ su sv,
      shuttleWithTwo.apply (.canceling ⟨"a", "n"⟩ 0 shuttleDate) = .ok (su, .ok ()) ∧
        shuttleWithTwo.apply (.canceling ⟨"a", "m"⟩ 0 shuttleDate) = .ok (sv, .ok ()) ∧
          su.added.contains ⟨"a", "n"⟩ ≠ sv.added.contains ⟨"a", "n"⟩ := ⟨_, _, rfl, rfl, by decide⟩
  obtain ⟨s', h, h'⟩ := updates_commute reachable_shuttleWithTwo (by decide) (by decide) (by decide)
    hsu hsv
  exact ⟨reachable_shuttleWithTwo, su, sv, s', hsu, hsv, fun heq => hne (heq ▸ rfl), h, h'⟩

end LiveTimetable.Updater
