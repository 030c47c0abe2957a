import LiveTimetable.Proofs.Live.Withdrawals

/-!
# Internal failures do not happen

Some refusals tell of a state that is not in order, and not of the update: a trip of the index that
its timetable does not have, or a pattern of the books that the graph or the buffer refuse. No
reachable state is like that.

* `TripTimes.reconcile_refused`, `Updater.not_isInternal_of_verdict`: why an update is refused.
* `Updater.purge_spec`: when trips expire, each of them is withdrawn.
* `Updater.no_internal_failure`: no internal failure in any reachable state, neither for an update
  nor when trips expire.
-/

namespace LiveTimetable

/-- Whether a refusal tells of a state that is not in order. -/
def ApplyError.isInternal : ApplyError → Bool
  | .graph _ | .schedule _ | .reconcile (.tripNotInPattern _) => true
  | _ => false

namespace TripTimes

variable {t : TripTimes} {published : Baseline} {stops : List StopId} {u : TripUpdate}
  {recovery : Recovery} {e : ReconcileError}

theorem patch_refused {start : Nat}
    (h : (t.patch published u start recovery).run = .ok (.error e)) :
    e = .nonIncreasing u.tripId := by
  unfold TripTimes.patch at h
  obtain ⟨⟨block, under⟩, -, h⟩ := Attempt.lift_bind_eq_ok_iff.mp h
  obtain ⟨forwards, -, h⟩ := Attempt.lift_bind_eq_ok_iff.mp h
  cases forwards with
  | true =>
    simp only [if_true] at h
    split at h <;> cases h
  | false =>
    simp only [Bool.false_eq_true, if_false] at h
    obtain ⟨_, -, h⟩ := Attempt.lift_bind_eq_ok_iff.mp h
    obtain ⟨decayed, -, h⟩ := Attempt.lift_bind_eq_ok_iff.mp h
    obtain ⟨steady, -, h⟩ := Attempt.lift_bind_eq_ok_iff.mp h
    cases steady with
    | true => cases h
    | false =>
      obtain ⟨_, -, h⟩ := Attempt.lift_bind_eq_ok_iff.mp h
      cases h
      rfl

/-- An update leads to no times if it does not align, or if its times step back. -/
theorem reconcile_refused (h : (t.reconcile published stops u recovery).run = .ok (.error e)) :
    e = .matchFailed u.tripId ∨ e = .nonIncreasing u.tripId := by
  unfold TripTimes.reconcile at h
  split at h
  · cases h
  · split at h
    · cases h
    · split at h
      · rename_i refusal hrefusal
        cases h
        unfold alignment at hrefusal
        split at hrefusal
        · split at hrefusal
          · cases hrefusal
          · exact Or.inl (Except.error.inj hrefusal).symm
        · exact Or.inl (Except.error.inj hrefusal).symm
      · exact Or.inr (patch_refused h)

end TripTimes

namespace Updater

variable {s s' : Updater} {u : TripUpdate} {e : ApplyError} {trip : TripId}

/-! ## Refusals -/

theorem not_isInternal_of_stopTimesOf {x : TransitIndex} : ∀ {sequence : Nat}
    {patches : List StopPatch}, stopTimesOf x trip sequence patches = .error e →
      e.isInternal = false
  | sequence, p :: rest, h => by
    unfold stopTimesOf at h
    cases hone : stopTimeOf x trip sequence p with
    | error refusal =>
      rw [hone] at h
      cases h
      unfold stopTimeOf at hone
      split at hone
      · split at hone
        · cases hone
        · cases hone
          rfl
      · cases hone
        rfl
    | ok first =>
      rw [hone] at h
      cases hrest : stopTimesOf x trip (sequence + 1) rest with
      | error refusal =>
        rw [hrest] at h
        cases h
        exact not_isInternal_of_stopTimesOf hrest
      | ok others =>
        rw [hrest] at h
        cases h

theorem not_isInternal_of_admitted {x : TransitIndex} (h : admitted x u = .error e) :
    e.isInternal = false := by
  unfold admitted at h
  split at h
  · cases h
    rfl
  · split at h
    · cases h
      rfl
    · cases hstops : stopTimesOf x u.tripId 0 u.patches with
      | error refusal =>
        rw [hstops] at h
        cases h
        exact not_isInternal_of_stopTimesOf hstops
      | ok stopTimes =>
        rw [hstops] at h
        cases h

theorem not_isInternal_of_screened (h : u.screened = .ok (.error e)) : e.isInternal = false := by
  unfold TripUpdate.screened at h
  split at h
  · cases h
  · simp only [] at h
    split at h
    · cases h
      rfl
    · obtain ⟨coherent, -, h⟩ := Checked.bind_eq_ok_iff.mp h
      split at h
      · cases h
      · cases h
        rfl

theorem not_isInternal_unknownTrip (u : TripUpdate) : u.unknownTrip.isInternal = false := by
  unfold TripUpdate.unknownTrip
  split <;> rfl

theorem not_isInternal_of_reading (hs : s.Consistent) (ht : s.Tracks)
    (h : s.reading u = .ok (.refused e)) : e.isInternal = false := by
  unfold reading at h
  split at h
  · cases h
    exact not_isInternal_unknownTrip u
  · rename_i p hp hnone
    obtain ⟨times, htimes⟩ := ht.exists_current? hs hp u.date
    rw [current?_eq hp, htimes] at hnone
    cases hnone
  · obtain ⟨result, hresult, h⟩ := Checked.bind_eq_ok_iff.mp h
    split at h
    · cases h
      rcases TripTimes.reconcile_refused hresult with rfl | rfl <;> rfl
    · cases h

/-- **No verdict tells of an internal failure.** -/
theorem not_isInternal_of_verdict (hs : s.Consistent) (ht : s.Tracks)
    (h : s.verdict u = .ok (.refused e)) : e.isInternal = false := by
  unfold verdict at h
  split at h
  · cases h
  · split at h
    · split at h
      · rename_i hadmitted
        cases h
        exact not_isInternal_of_admitted hadmitted
      · cases h
    · obtain ⟨screened, hscreened, h⟩ := Checked.bind_eq_ok_iff.mp h
      split at h
      · cases h
        exact not_isInternal_of_screened hscreened
      · exact not_isInternal_of_reading hs ht h

/-- What is not refused by the verdict is carried out. -/
theorem verdict_of_refused (hs : s.Consistent) (ht : s.Tracks)
    (h : s.apply u = .ok (s', .error e)) : s.verdict u = .ok (.refused e) := by
  rw [apply_eq hs ht] at h
  obtain ⟨v, hv, h⟩ := Checked.bind_eq_ok_iff.mp h
  rcases verdict_cases hv with ⟨_, rfl⟩ | ⟨times, rfl⟩ | ⟨rfl, -, hadded⟩ |
    ⟨zone, stopTimes, rfl, -, hnew, hadmitted⟩
  · cases h
    exact hv
  · cases h
  · exact absurd (withdraw_spec hs hadded h).1 nofun
  · exact absurd (enter_spec (u := u.filter .all) hs hnew
      (stopTimes_ne_nil_of_admitted hadmitted) h).1 nofun

/-! ## Expiry -/

/-- **Trips expire.** Unless it was done before, the added trips of past days go, and all others
stay. -/
theorem purge_spec (hs : s.Consistent) (ht : s.Tracks) (today : ServiceDate) :
    ∃ s' any, s.purge today = .ok (s', any) ∧
      ((∃ done, s.purgedThrough = some done ∧ ¬ done < today.previous.previous ∧ s' = s) ∨
        ∀ trip, s'.added.contains trip = true ↔
          s.added.contains trip = true ∧ trip ∉ s.added.through today.previous.previous) := by
  rcases purge_cases hs ht today with ⟨done, hdone, hnot, hpurge⟩ | ⟨-, mid, hdeparts, hpurge⟩
  · exact ⟨s, false, hpurge, Or.inl ⟨done, hdone, hnot, rfl⟩⟩
  · exact ⟨_, _, hpurge, Or.inr fun trip => hdeparts.contains_iff⟩

/-- **No internal failure happens in a reachable state.**

* No update is refused because of the graph, of the timetables, or of a trip that is not in the
  timetable of its pattern.
* A trip that the index knows is in the timetable by which its pattern runs, on every date.
* A trip that the books know can be withdrawn, and is not in the books any more then.
* When trips expire, each of them is withdrawn when its turn comes; afterwards the books have the
  other ones only. -/
theorem no_internal_failure (h : s.Reachable) :
    (∀ u s' e, s.apply u = .ok (s', .error e) → e.isInternal = false) ∧
    (∀ trip p, s.index.patternForTrip? trip = some p →
      ∀ date, (s.buffer.resolve p date).contains trip = true) ∧
    (∀ trip, s.added.contains trip = true →
      ∃ s', s.withdraw trip = .ok (s', .ok ()) ∧ s'.added.contains trip = false) ∧
    ∀ today,
      (∀ before trip after, s.added.through today.previous.previous = before ++ trip :: after →
        ∃ mid any s', withdrawAll before s = .ok (mid, any) ∧
          mid.withdraw trip = .ok (s', .ok ())) ∧
      ∃ s' any, s.purge today = .ok (s', any) ∧
        ((∃ done, s.purgedThrough = some done ∧ ¬ done < today.previous.previous ∧ s' = s) ∨
          ∀ trip, s'.added.contains trip = true ↔
            s.added.contains trip = true ∧ trip ∉ s.added.through today.previous.previous) := by
  have hs := h.consistent
  have ht := h.tracks
  refine ⟨fun u s' e happly => not_isInternal_of_verdict hs ht (verdict_of_refused hs ht happly),
    fun trip p hp date => ?_, fun trip hadded => ?_,
    fun today => ⟨fun before trip after hlist => ?_, purge_spec hs ht today⟩⟩
  · rw [Timetable.contains_eq_true_iff, ht.trips_buffer_resolve (get?_of_patternForTrip? hs hp)]
    exact hs.index.mem_trips_of_patternForTrip? hp
  · obtain ⟨y, rest, -, -, -, hwithdraw⟩ := exists_withdraw hs ht hadded
    exact ⟨_, hwithdraw, AddedTrips.contains_depart_self⟩
  · have hnodup := s.added.nodup_through today.previous.previous
    have hmem : ∀ x ∈ before ++ trip :: after, s.added.contains x = true := fun x hx =>
      AddedTrips.contains_of_mem_through (hlist ▸ hx)
    rw [hlist] at hnodup
    obtain ⟨hbefore, -, happart⟩ := List.nodup_append.mp hnodup
    obtain ⟨mid, hall, hs', ht', hbooks⟩ := withdrawAll_spec hs ht hbefore fun x hx =>
      hmem x (List.mem_append_left _ hx)
    have hadded : mid.added.contains trip = true := (hbooks trip).mpr
      ⟨hmem trip (List.mem_append_right _ List.mem_cons_self),
        fun hin => happart trip hin trip List.mem_cons_self rfl⟩
    obtain ⟨y, rest, -, -, -, hwithdraw⟩ := exists_withdraw hs' ht' hadded
    exact ⟨mid, _, _, hall, hwithdraw⟩

/-- An update of a trip that nobody knows is refused for that. Two days later both added trips
expire: the second one is withdrawn from what the first one left behind, and none stays. -/
theorem no_internal_failure_shuttle : shuttleWithTwo.Reachable ∧
    (∃ s' e, shuttleWithTwo.apply (.canceling ⟨"a", "z"⟩ 0 shuttleDate) = .ok (s', .error e) ∧
      e.isInternal = false) ∧
    (∃ p, shuttleWithTwo.index.patternForTrip? ⟨"a", "n"⟩ = some p ∧
      (shuttleWithTwo.buffer.resolve p shuttleDate).contains ⟨"a", "n"⟩ = true) ∧
    (∃ s', shuttleWithTwo.withdraw ⟨"a", "n"⟩ = .ok (s', .ok ())) ∧
    (∃ mid any s', withdrawAll [⟨"a", "m"⟩] shuttleWithTwo = .ok (mid, any) ∧
      mid.withdraw ⟨"a", "n"⟩ = .ok (s', .ok ())) ∧
    ∃ s' any, shuttleWithTwo.purge shuttleDate.next.next = .ok (s', any) ∧
      s'.added.contains ⟨"a", "n"⟩ = false := by
  obtain ⟨hrefusals, hheld, hwithdraw, hexpiry⟩ := no_internal_failure reachable_shuttleWithTwo
  obtain ⟨s', e, happly⟩ : ∃ s' e, shuttleWithTwo.apply (.canceling ⟨"a", "z"⟩ 0 shuttleDate) =
    .ok (s', .error e) := ⟨_, _, rfl⟩
  obtain ⟨p, hp⟩ : ∃ p, shuttleWithTwo.index.patternForTrip? ⟨"a", "n"⟩ = some p := ⟨_, rfl⟩
  obtain ⟨gone, hgone, -⟩ := hwithdraw ⟨"a", "n"⟩ rfl
  have hlist : shuttleWithTwo.added.through shuttleDate.next.next.previous.previous =
    [⟨"a", "m"⟩] ++ ⟨"a", "n"⟩ :: [] := by decide
  obtain ⟨hturns, last, any, hpurge, hbooks⟩ := hexpiry shuttleDate.next.next
  refine ⟨reachable_shuttleWithTwo, ⟨s', e, happly, hrefusals _ s' e happly⟩,
    ⟨p, hp, hheld _ p hp shuttleDate⟩, ⟨gone, hgone⟩, hturns _ _ _ hlist, last, any, hpurge, ?_⟩
  rcases hbooks with ⟨done, hdone, -⟩ | hbooks
  · cases hdone
  · refine Bool.eq_false_iff.mpr fun hin => ((hbooks _).mp hin).2 ?_
    rw [hlist]
    decide

end Updater

end LiveTimetable
