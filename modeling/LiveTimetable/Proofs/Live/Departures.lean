import LiveTimetable.Proofs.Live.AddedPatterns
import LiveTimetable.Proofs.Live.Tracking
import LiveTimetable.Proofs.Network.Departures
import LiveTimetable.Proofs.Publication.Editing

/-!
# An added trip is withdrawn

To withdraw an added trip is one change of all stores at once, given by what the trip leaves behind
of its pattern (`Updater.depart`). In a consistent state whose buffer is on track there is nothing
that can go wrong on the way.

* `Updater.withdraw_eq`: to withdraw a trip is to let it depart.
* `Updater.exists_withdraw`: an added trip can be withdrawn.
-/

namespace LiveTimetable

namespace AddedTrips

/-- The books after a trip left a pattern, with what stays of it. -/
def depart (a : AddedTrips) (trip : TripId) (pattern : PatternId) (rest : Option Synthesized) :
    AddedTrips :=
  ⟨a.trips.erase trip, a.patterns.place pattern (rest.map fun y => ⟨y.pattern.trips.length, y⟩)⟩

variable {a : AddedTrips} {trip other : TripId} {pattern pattern' : PatternId}
  {rest rest' mid mid' : Option Synthesized}

theorem contains_depart_of_ne (h : other ≠ trip) :
    (a.depart trip pattern rest).contains other = a.contains other := by
  unfold contains Table.contains depart
  rw [Table.get?_erase, if_neg h]

theorem contains_depart_self : (a.depart trip pattern rest).contains trip = false := by
  unfold contains Table.contains depart
  rw [Table.get?_erase, if_pos rfl]
  rfl

theorem depart_depart : (a.depart trip pattern mid).depart other pattern rest =
    (a.depart other pattern mid').depart trip pattern rest := by
  unfold depart
  simp only [Table.place_place, Table.erase_comm (k := trip)]

theorem depart_comm (hne : pattern ≠ pattern') :
    (a.depart trip pattern rest).depart other pattern' rest' =
      (a.depart other pattern' rest').depart trip pattern rest := by
  unfold depart
  simp only [Table.place_comm hne, Table.erase_comm (k := trip)]

end AddedTrips

namespace Buffer

/-- The buffer after a trip left a pattern, which stays or goes with it. -/
def depart (b : Buffer) (trip : TripId) (pattern : PatternId) (stays : Bool) : Buffer :=
  if stays then b.strike pattern trip else b.removePattern pattern

variable {b : Buffer} {trip other : TripId} {pattern pattern' : PatternId} {stays stays' : Bool}

theorem depart_depart : (b.depart trip pattern true).depart other pattern stays =
    (b.depart other pattern true).depart trip pattern stays := by
  cases stays with
  | true => exact strike_comm
  | false => exact removePattern_strike.trans removePattern_strike.symm

theorem depart_comm (hne : pattern ≠ pattern') :
    (b.depart trip pattern stays).depart other pattern' stays' =
      (b.depart other pattern' stays').depart trip pattern stays := by
  cases stays <;> cases stays'
  · exact removePattern_comm
  · exact (removePattern_strike_of_ne hne).symm
  · exact removePattern_strike_of_ne hne.symm
  · exact strike_comm

theorem depart_retime_of_ne {p : Pattern} {date : ServiceDate} {times : TripTimes}
    (hne : p.id ≠ pattern) : (b.retime p date other times).depart trip pattern stays =
      (b.depart trip pattern stays).retime p date other times := by
  cases stays with
  | true => exact strike_retime_of_ne hne
  | false => exact removePattern_retime hne

end Buffer

namespace Updater

/-- The state after an added trip left its pattern, with what stays of it. -/
def depart (s : Updater) (trip : TripId) (y : Synthesized) (rest : Option Synthesized) : Updater :=
  { s with
    index := s.index.depart trip y.pattern.id (rest.map Synthesized.pattern)
    graph := s.graph.depart y rest
    added := s.added.depart trip y.pattern.id rest
    withdrawn :=
      if rest.isSome then s.withdrawn else s.withdrawn.insert y.pattern.id y.pattern.revision
  }.setBuffer (s.buffer.depart trip y.pattern.id rest.isSome)

variable {s : Updater} {trip : TripId} {y : Synthesized} {rest : Option Synthesized}

/-- **To withdraw an added trip is to let it depart.** -/
theorem withdraw_eq (hs : s.Consistent) (ht : s.Tracks) (hy : s.graph.Keeps y)
    (hmem : trip ∈ y.pattern.trips) (hrest : y.remaining trip = .ok rest) :
    s.withdraw trip = .ok (s.depart trip y rest, .ok ()) := by
  obtain ⟨announcement, hget, hid⟩ := (hs.lists_iff hy).mpr hmem
  have hbook : s.added.patterns.get? announcement.pattern = some ⟨y.pattern.trips.length, y⟩ :=
    (hs.agrees.booked _ _).mpr ⟨y, hy, hid.symm, rfl⟩
  have hindexed := hs.agrees.indexed y hy
  have hsound := hs.graph.sound y hy
  unfold withdraw
  cases rest with
  | none =>
    have hle := Synthesized.remaining_eq_none_iff.mp hrest
    have htrips : y.pattern.trips = [trip] := by
      obtain ⟨first, hfirst⟩ := List.length_eq_one_iff.mp
        (Nat.le_antisymm hle (List.length_pos_of_mem hmem))
      rw [hfirst] at hmem ⊢
      rw [List.mem_singleton.mp hmem]
    rw [AddedTrips.remove?_eq_of_le hget hbook hle, hid]
    simp only [if_true, hs.graph.detach_eq hy, ← hs.graph.depart_none hy,
      hs.index.depart_none hindexed hsound.isSynthesized htrips]
    rfl
  | some y' =>
    have hlt := (Synthesized.remaining_eq_some_iff.mp hrest).1
    have hremains := Synthesized.remains_of_remaining hsound hmem hrest
    obtain ⟨-, p, hp, rfl⟩ := Synthesized.remaining_eq_some_iff.mp hrest
    have hremove : s.graph.removeTrip y trip =
        .ok (s.graph.keep y.course ⟨p, y.edges, y.vertices⟩, .ok ⟨p, y.edges, y.vertices⟩) :=
      Graph.removeTrip_eq_ok_iff.mpr
        ⟨y.course, y, p, hs.graph.findSynthesized?_eq hy, hp, rfl, rfl⟩
    have hpid : p.id = y.pattern.id := hremains.revises.id_eq
    obtain ⟨changed, hsync⟩ := Buffer.sync_eq_strike (b := s.buffer) hremains.sound.wellFormed
      hsound.wellFormed.nodup hmem hremains.loses fun key held hheld hkey => by
        obtain ⟨q, hq, htracks⟩ := ht key held hheld
        obtain ⟨q', hq', hstops⟩ := hs.buffered key held hheld
        rw [hkey, hpid, hindexed] at hq hq'
        cases hq
        cases hq'
        exact ⟨htracks, hstops.trans hremains.revises.stops_eq.symm⟩
    rw [AddedTrips.remove?_eq_of_lt hget hbook hlt, hid]
    have hindex := hs.index.depart_some hindexed hsound.isSynthesized hmem hpid hremains.trips_eq
    have hcount : y.pattern.trips.length - 1 = p.trips.length := by
      rw [Pattern.trips_withoutTrip (Pattern.withoutTrip_spec hp).2, List.length_erase_of_mem hmem]
    simp only [Bool.false_eq_true, if_false, hremove, Checked.ok_bind]
    have hbuffer : ({ s with added := ⟨s.added.trips.erase trip, s.added.patterns.insert
        y.pattern.id ⟨y.pattern.trips.length - 1, y⟩⟩ } : Updater).buffer.sync p =
          (s.buffer.strike p.id trip, .ok changed) := hsync
    have hadded := AddedTrips.updatePattern_insert (s.added.trips.erase trip) s.added.patterns
      (y.pattern.trips.length - 1) y ⟨p, y.edges, y.vertices⟩
    simp only [hpid] at hadded
    simp only [hbuffer, setBuffer_added, hadded, hindex]
    rw [hcount, hpid]
    rfl

/-- **An added trip can be withdrawn.** -/
theorem exists_withdraw (hs : s.Consistent) (ht : s.Tracks)
    (hadded : s.added.contains trip = true) :
    ∃ y rest, s.graph.Keeps y ∧ trip ∈ y.pattern.trips ∧ y.remaining trip = .ok rest ∧
      s.withdraw trip = .ok (s.depart trip y rest, .ok ()) := by
  obtain ⟨y, hy, hmem⟩ := hs.contains_iff.mp hadded
  obtain ⟨rest, hrest⟩ := Synthesized.exists_remaining (hs.graph.sound y hy) hmem
  exact ⟨y, rest, hy, hmem, hrest, withdraw_eq hs ht hy hmem hrest⟩

end Updater

end LiveTimetable
