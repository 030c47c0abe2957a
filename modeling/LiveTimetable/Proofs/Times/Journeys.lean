import LiveTimetable.Proofs.Times.Decay
import LiveTimetable.Times.Measure
import Mathlib.Algebra.BigOperators.Intervals
import Mathlib.Algebra.Order.BigOperators.Group.LocallyFinite

/-!
# The time from the first served stop to the last

A hop is measured from the last departure before it, so the hops over stops that are not served
take no time, and the hop to the next served stop takes all of it. With the time that the vehicle
stands at the served stops between them, the hops add up to the time from the departure at the
first served stop to the arrival at the last.

* `TripTimes.Itinerary`: the arrivals and departures of a trip, whatever layers they are read
  from. They are moderate, and a stop has two markers or none.
* `hopSeconds`, `staySeconds`: how long a hop and a stay take, in integers without bounds.
  `Itinerary.runningTime_eq` and `Itinerary.dwellTime_eq` say that these are worked out.
* `Itinerary.sum_hops_add_sum_stays`: up to any stop behind the first served one, hops and stays
  add up to the time since the departure there.
* `TripTimes.le_of_isIncreasing`: what the check that times run forwards says of two stops.
* `TripTimes.journey_adds_up`: the main statement.
-/

namespace LiveTimetable

open Finset

/-! ## Hops and stays -/

section Seconds

variable (arrival departure : Nat → ServiceTime)

/-- The departure from the last served stop at or before a stop. -/
def departedBy? : Nat → Option ServiceTime
  | 0 => if ServiceTime.isMarker (departure 0) then none else some (departure 0)
  | stop + 1 =>
    if ServiceTime.isMarker (departure (stop + 1)) then departedBy? stop
    else some (departure (stop + 1))

/-- How long a hop takes: nothing if it ends at a stop that is not served, or before the trip
begins. -/
def hopSeconds (hop : Nat) : Int :=
  if ServiceTime.isMarker (arrival (hop + 1)) then 0
  else
    match departedBy? departure hop with
    | some departed => (arrival (hop + 1)).toInt - departed.toInt
    | none => 0

/-- How long the vehicle stands at a stop. -/
def staySeconds (stop : Nat) : Int :=
  if ServiceTime.isMarker (arrival stop) || ServiceTime.isMarker (departure stop) then 0
  else (departure stop).toInt - (arrival stop).toInt

end Seconds

variable {arrival departure : Nat → ServiceTime} {t : TripTimes} {first last stop hop : Nat}

/-- What a trip departed at is the departure from a served stop. -/
theorem exists_of_departedBy? {departed : ServiceTime} : ∀ {stop : Nat},
    departedBy? departure stop = some departed →
      ∃ origin ≤ stop, departure origin = departed ∧ ServiceTime.isMarker departed = false
  | 0, h => by
    unfold departedBy? at h
    split at h
    · cases h
    · rename_i hreal
      cases h
      exact ⟨0, Nat.le_refl 0, rfl, Bool.eq_false_of_not_eq_true hreal⟩
  | stop + 1, h => by
    unfold departedBy? at h
    split at h
    · obtain ⟨origin, hle, horigin⟩ := exists_of_departedBy? h
      exact ⟨origin, Nat.le_succ_of_le hle, horigin⟩
    · rename_i hreal
      cases h
      exact ⟨stop + 1, Nat.le_refl _, rfl, Bool.eq_false_of_not_eq_true hreal⟩

/-- Before the first served stop the trip has not departed. -/
theorem departedBy?_eq_none : ∀ {stop : Nat},
    (∀ i ≤ stop, ServiceTime.isMarker (departure i) = true) → departedBy? departure stop = none
  | 0, h => if_pos (h 0 (Nat.le_refl 0))
  | stop + 1, h => by
    rw [departedBy?, if_pos (h (stop + 1) (Nat.le_refl _))]
    exact departedBy?_eq_none fun i hi => h i (Nat.le_succ_of_le hi)

theorem departedBy?_of_served (h : ServiceTime.isMarker (departure stop) = false) :
    departedBy? departure stop = some (departure stop) := by
  have hnot : ¬ ServiceTime.isMarker (departure stop) = true := by simp [h]
  cases stop with
  | zero => exact if_neg hnot
  | succ stop => exact if_neg hnot

/-- A hop that ends at or before the first served stop takes no time. -/
theorem hopSeconds_of_le (hle : hop + 1 ≤ first)
    (hbefore : ∀ stop < first, ServiceTime.isMarker (departure stop) = true) :
    hopSeconds arrival departure hop = 0 := by
  unfold hopSeconds
  rw [departedBy?_eq_none fun i hi => hbefore i (by omega)]
  split <;> rfl

/-- A hop to a stop that is not served takes no time. -/
theorem hopSeconds_of_isMarker (h : ServiceTime.isMarker (arrival (hop + 1)) = true) :
    hopSeconds arrival departure hop = 0 := if_pos h

theorem staySeconds_of_isMarker (h : ServiceTime.isMarker (departure stop) = true) :
    staySeconds arrival departure stop = 0 := by
  unfold staySeconds
  rw [h, Bool.or_true, if_pos rfl]

namespace TripTimes

/-! ## Itineraries -/

/-- The stops of the trip have the given arrivals and departures. Each is a marker or within 2^29
seconds of the start of the day, and the markers come in pairs. -/
structure Itinerary (t : TripTimes) (arrival departure : Nat → ServiceTime) : Prop where
  arrival_eq : ∀ stop < t.stopCount, t.arrival stop = .ok (arrival stop)
  departure_eq : ∀ stop < t.stopCount, t.departure stop = .ok (departure stop)
  arrival_inRange : ∀ stop < t.stopCount,
    ServiceTime.isMarker (arrival stop) = false → (arrival stop).InRange
  departure_inRange : ∀ stop < t.stopCount,
    ServiceTime.isMarker (departure stop) = false → (departure stop).InRange
  paired : ∀ stop < t.stopCount,
    ServiceTime.isMarker (arrival stop) = ServiceTime.isMarker (departure stop)

namespace Itinerary

variable (h : t.Itinerary arrival departure)

include h

theorem lastDeparture?_eq : ∀ {stop : Nat}, stop < t.stopCount →
    t.lastDeparture? stop = .ok (departedBy? departure stop)
  | 0, hstop => by
    rw [lastDeparture?, h.departure_eq 0 hstop, Checked.ok_bind, departedBy?]
    rfl
  | stop + 1, hstop => by
    rw [lastDeparture?, h.departure_eq _ hstop, Checked.ok_bind, departedBy?]
    split
    · exact lastDeparture?_eq (Nat.lt_of_succ_lt hstop)
    · rfl

/-- **A hop is worked out**, as moderate times have a difference that fits. -/
theorem runningTime_eq (hwidth : t.stopCount < 18446744073709551616)
    (hhop : hop + 1 < t.stopCount) : Fits32 (hopSeconds arrival departure hop) ∧
      t.runningTime hop = .ok (Int32.ofInt (hopSeconds arrival departure hop)) := by
  have hword : Checked.word64 (hop + 1) = .ok (hop + 1) := if_pos (by omega)
  unfold runningTime hopSeconds
  rw [hword, Checked.ok_bind, h.arrival_eq _ hhop, Checked.ok_bind]
  split
  · exact ⟨by decide, rfl⟩
  · rename_i hreal
    rw [h.lastDeparture?_eq (Nat.lt_of_succ_lt hhop), Checked.ok_bind]
    cases hdeparted : departedBy? departure hop with
    | none => exact ⟨(by decide : Fits32 0), rfl⟩
    | some departed =>
      obtain ⟨origin, hle, rfl, hserved⟩ := exists_of_departedBy? hdeparted
      have harrival := h.arrival_inRange _ hhop (Bool.eq_false_of_not_eq_true hreal)
      have hdeparture := h.departure_inRange origin (by omega) hserved
      have hfits : Fits32 ((arrival (hop + 1)).toInt - (departure origin).toInt) := by
        unfold ServiceTime.InRange at harrival hdeparture
        unfold Fits32
        omega
      exact ⟨hfits, Checked.int32_of_fits hfits⟩

/-- **A stay is worked out.** -/
theorem dwellTime_eq (hstop : stop < t.stopCount) :
    Fits32 (staySeconds arrival departure stop) ∧
      t.dwellTime stop = .ok (Int32.ofInt (staySeconds arrival departure stop)) := by
  unfold dwellTime staySeconds
  rw [h.arrival_eq _ hstop, Checked.ok_bind, h.departure_eq _ hstop, Checked.ok_bind]
  split
  · exact ⟨by decide, rfl⟩
  · rename_i hreal
    obtain ⟨hrealArrival, hrealDeparture⟩ := not_or.mp (mt Bool.or_eq_true_iff.mpr hreal)
    have harrival := h.arrival_inRange _ hstop (Bool.eq_false_of_not_eq_true hrealArrival)
    have hdeparture := h.departure_inRange _ hstop (Bool.eq_false_of_not_eq_true hrealDeparture)
    have hfits : Fits32 ((departure stop).toInt - (arrival stop).toInt) := by
      unfold ServiceTime.InRange at harrival hdeparture
      unfold Fits32
      omega
    exact ⟨hfits, Checked.int32_of_fits hfits⟩

/-! ## Adding up -/

/-- **Up to any stop from the first served one on, hops and stays add up** to the time between the
departure there and the last departure so far. -/
theorem sum_hops_add_sum_stays (hfirst : ServiceTime.isMarker (departure first) = false)
    (hbefore : ∀ stop < first, ServiceTime.isMarker (departure stop) = true)
    (hle : first ≤ stop) (hstop : stop < t.stopCount) :
    ∃ departed, departedBy? departure stop = some departed ∧
      ∑ hop ∈ range stop, hopSeconds arrival departure hop +
        ∑ i ∈ Ioc first stop, staySeconds arrival departure i =
          departed.toInt - (departure first).toInt := by
  induction stop, hle using Nat.le_induction with
  | base =>
    refine ⟨_, departedBy?_of_served hfirst, ?_⟩
    have hnone : ∀ hop ∈ range first, hopSeconds arrival departure hop = 0 := fun hop hhop => by
      have := mem_range.mp hhop
      exact hopSeconds_of_le (by omega) hbefore
    rw [sum_eq_zero hnone, Ioc_self, sum_empty, Int.sub_self, Int.add_zero]
  | succ stop hle ih =>
    obtain ⟨departed, hdeparted, hsum⟩ := ih (Nat.lt_of_succ_lt hstop)
    have hpaired := h.paired _ hstop
    rw [sum_range_succ, sum_Ioc_succ_top hle]
    cases hserved : ServiceTime.isMarker (departure (stop + 1)) with
    | true =>
      -- Nothing is added by a stop that is not served.
      have hhop : hopSeconds arrival departure stop = 0 :=
        hopSeconds_of_isMarker (hpaired.trans hserved)
      have hstay : staySeconds arrival departure (stop + 1) = 0 := staySeconds_of_isMarker hserved
      refine ⟨departed, (if_pos hserved).trans hdeparted, ?_⟩
      omega
    | false =>
      -- The hop is measured from the last departure so far, and the stay ends with the next.
      rw [hserved] at hpaired
      have hhop : hopSeconds arrival departure stop =
          (arrival (stop + 1)).toInt - departed.toInt := by
        unfold hopSeconds
        rw [hpaired, if_neg Bool.false_ne_true, hdeparted]
      have hstay : staySeconds arrival departure (stop + 1) =
          (departure (stop + 1)).toInt - (arrival (stop + 1)).toInt := by
        unfold staySeconds
        rw [hpaired, hserved, Bool.or_false, if_neg Bool.false_ne_true]
      refine ⟨_, departedBy?_of_served hserved, ?_⟩
      omega

end Itinerary

/-! ## Running forwards -/

/-- From `start` up to `stop` the real times never go back behind `last`, nor behind each other. -/
structure Ordered (arrival departure : Nat → ServiceTime) (last : ServiceTime)
    (start stop : Nat) : Prop where
  since_last : ∀ i, start ≤ i → i < stop →
    ServiceTime.isMarker (arrival i) = false → last ≤ arrival i
  stay : ∀ i, start ≤ i → i < stop → ServiceTime.isMarker (arrival i) = false →
    ServiceTime.isMarker (departure i) = false → arrival i ≤ departure i
  hop : ∀ i j, start ≤ i → i < j → j < stop → ServiceTime.isMarker (departure i) = false →
    ServiceTime.isMarker (arrival j) = false → departure i ≤ arrival j

/-- The walk never goes back, and stays at a time that is real. -/
theorem advance?_spec {last time next : ServiceTime} (h : advance? last time = some next) :
    last ≤ next ∧ (ServiceTime.isMarker time = false → next = time) := by
  unfold advance? at h
  split at h
  · rename_i hmarker
    cases h
    exact ⟨Int32.le_refl _, fun hreal => absurd (hmarker.symm.trans hreal) Bool.true_eq_false.mp⟩
  · split at h
    · cases h
    · rename_i hle
      cases h
      exact ⟨Int32.not_lt.mp hle, fun _ => rfl⟩

namespace Itinerary

variable (h : t.Itinerary arrival departure)

include h

theorem ordered_of_isIncreasingFrom : ∀ {count start : Nat} {last : ServiceTime},
    start + count ≤ t.stopCount → t.isIncreasingFrom count start last = .ok true →
    Ordered arrival departure last start (start + count)
  | 0, start, last, _, _ => by
    constructor <;> intros <;> omega
  | count + 1, start, last, hcount, hwalk => by
    have hstart : start < t.stopCount := by omega
    unfold isIncreasingFrom at hwalk
    rw [h.arrival_eq _ hstart, Checked.ok_bind, h.departure_eq _ hstart, Checked.ok_bind] at hwalk
    split at hwalk
    · rename_i latest hlatest
      obtain ⟨reached, hreached, hleft⟩ := Option.bind_eq_some_iff.mp hlatest
      obtain ⟨hle, harrived⟩ := advance?_spec hreached
      obtain ⟨hle', hdeparted⟩ := advance?_spec hleft
      have hrest := ordered_of_isIncreasingFrom (by omega) hwalk
      rw [Nat.add_right_comm, Nat.add_assoc] at hrest
      refine ⟨fun i hi hlt hreal => ?_, fun i hi hlt hreal hreal' => ?_,
        fun i j hi hij hlt hreal hreal' => ?_⟩
      · rcases Nat.eq_or_lt_of_le hi with rfl | hi
        · rw [← harrived hreal]
          exact hle
        · exact Int32.le_trans (Int32.le_trans hle hle') (hrest.since_last i hi hlt hreal)
      · rcases Nat.eq_or_lt_of_le hi with rfl | hi
        · rw [← harrived hreal, ← hdeparted hreal']
          exact hle'
        · exact hrest.stay i hi hlt hreal hreal'
      · rcases Nat.eq_or_lt_of_le hi with rfl | hi
        · rw [← hdeparted hreal]
          exact hrest.since_last j hij hlt hreal'
        · exact hrest.hop i j hi hij hlt hreal hreal'
    · cases hwalk

/-- **Where times run forwards no stay and no hop takes less than no time.** -/
theorem nonneg_of_isIncreasing (hincreasing : t.isIncreasing = .ok true) :
    (∀ hop, hop + 1 < t.stopCount → 0 ≤ hopSeconds arrival departure hop) ∧
      ∀ stop < t.stopCount, 0 ≤ staySeconds arrival departure stop := by
  have hordered := h.ordered_of_isIncreasingFrom (by omega) hincreasing
  rw [Nat.zero_add] at hordered
  constructor
  · intro hop hhop
    unfold hopSeconds
    split
    · exact Int.le_refl 0
    · rename_i hreal
      cases hdeparted : departedBy? departure hop with
      | none => exact Int.le_refl 0
      | some departed =>
        obtain ⟨origin, hle, rfl, hserved⟩ := exists_of_departedBy? hdeparted
        have hforwards := hordered.hop origin (hop + 1) (Nat.zero_le _) (by omega) hhop hserved
          (Bool.eq_false_of_not_eq_true hreal)
        rw [Int32.le_iff_toInt_le] at hforwards
        exact Int.sub_nonneg_of_le hforwards
  · intro stop hstop
    unfold staySeconds
    split
    · exact Int.le_refl 0
    · rename_i hreal
      obtain ⟨hrealArrival, hrealDeparture⟩ := not_or.mp (mt Bool.or_eq_true_iff.mpr hreal)
      have hforwards := hordered.stay stop (Nat.zero_le _) hstop
        (Bool.eq_false_of_not_eq_true hrealArrival) (Bool.eq_false_of_not_eq_true hrealDeparture)
      rw [Int32.le_iff_toInt_le] at hforwards
      exact Int.sub_nonneg_of_le hforwards

/-- **Between the first served stop and the last hops and stays add up** to the time from the one to
the other. -/
theorem sum_hops_add_sum_stays_between
    (hfirst : ServiceTime.isMarker (departure first) = false)
    (hlast : ServiceTime.isMarker (departure last) = false)
    (houter : ∀ stop < t.stopCount, ServiceTime.isMarker (departure stop) = false →
      first ≤ stop ∧ stop ≤ last) (hlt : first < last) (hlast_lt : last < t.stopCount) :
    ∑ hop ∈ range (t.stopCount - 1), hopSeconds arrival departure hop +
      ∑ stop ∈ Ioo first last, staySeconds arrival departure stop =
        (arrival last).toInt - (departure first).toInt := by
  have hskipped : ∀ stop < t.stopCount, ¬ (first ≤ stop ∧ stop ≤ last) →
      ServiceTime.isMarker (departure stop) = true := fun stop hstop hout =>
    Bool.eq_true_of_not_eq_false fun hserved => hout (houter stop hstop hserved)
  obtain ⟨departed, hdeparted, hsum⟩ := h.sum_hops_add_sum_stays hfirst
    (fun stop hstop => hskipped stop (by omega) (by omega)) (Nat.le_of_lt hlt) hlast_lt
  -- Behind the last served stop there are only hops to stops that are not served.
  have hbehind : ∑ hop ∈ range (t.stopCount - 1), hopSeconds arrival departure hop =
      ∑ hop ∈ range last, hopSeconds arrival departure hop := by
    refine (sum_subset (range_subset_range.mpr (by omega)) fun hop hhop hnot => ?_).symm
    rw [mem_range] at hhop hnot
    refine hopSeconds_of_isMarker ?_
    rw [h.paired _ (by omega)]
    exact hskipped _ (by omega) (by omega)
  -- The stay at the last served stop is not part of the journey.
  have hstay : staySeconds arrival departure last =
      (departure last).toInt - (arrival last).toInt := by
    unfold staySeconds
    rw [h.paired _ hlast_lt, hlast, Bool.or_false, if_neg Bool.false_ne_true]
  cases hdeparted.symm.trans (departedBy?_of_served hlast)
  rw [← sum_Ioo_add_eq_sum_Ioc hlt, hstay] at hsum
  rw [hbehind]
  omega

end Itinerary

/-- **Hops and stays add up across the stops that are not served.** Take times of any kind that are
moderate and whose markers come in pairs, of a trip that serves at least two stops, the first of
them `first` and the last of them `last`.

* All hops and stays can be worked out. The hops, and the stays at the served stops strictly
  between the first and the last, add up to the time from the departure at the first to the arrival
  at the last.
* A hop to a stop that is not served, or that ends at or before the first served stop, takes no
  time.
* If the times run forwards no hop and no stay takes less than no time. -/
theorem journey_adds_up (hwidth : t.stopCount < 18446744073709551616)
    (h : t.Itinerary arrival departure)
    (hfirst : ServiceTime.isMarker (departure first) = false)
    (hlast : ServiceTime.isMarker (departure last) = false)
    (houter : ∀ stop < t.stopCount, ServiceTime.isMarker (departure stop) = false →
      first ≤ stop ∧ stop ≤ last) (hlt : first < last) (hlast_lt : last < t.stopCount) :
    ∃ running dwell : Nat → Int32,
      (∀ hop, hop + 1 < t.stopCount → t.runningTime hop = .ok (running hop)) ∧
      (∀ stop < t.stopCount, t.dwellTime stop = .ok (dwell stop)) ∧
      ∑ hop ∈ range (t.stopCount - 1), (running hop).toInt +
        ∑ stop ∈ Ioo first last with ServiceTime.isMarker (departure stop) = false,
          (dwell stop).toInt = (arrival last).toInt - (departure first).toInt ∧
      (∀ hop, hop + 1 < t.stopCount →
        ServiceTime.isMarker (arrival (hop + 1)) = true ∨ hop + 1 ≤ first → running hop = 0) ∧
      (t.isIncreasing = .ok true → (∀ hop, hop + 1 < t.stopCount → 0 ≤ running hop) ∧
        ∀ stop < t.stopCount, 0 ≤ dwell stop) := by
  have hrunning : ∀ hop, hop + 1 < t.stopCount →
      (Int32.ofInt (hopSeconds arrival departure hop)).toInt = hopSeconds arrival departure hop :=
    fun hop hhop => toInt_ofInt (h.runningTime_eq hwidth hhop).1
  have hdwell : ∀ stop < t.stopCount,
      (Int32.ofInt (staySeconds arrival departure stop)).toInt =
        staySeconds arrival departure stop := fun stop hstop => toInt_ofInt (h.dwellTime_eq hstop).1
  refine ⟨fun hop => Int32.ofInt (hopSeconds arrival departure hop),
    fun stop => Int32.ofInt (staySeconds arrival departure stop),
    fun hop hhop => (h.runningTime_eq hwidth hhop).2, fun stop hstop => (h.dwellTime_eq hstop).2,
    ?_, fun hop hhop hzero => ?_, fun hincreasing => ?_⟩
  · rw [← h.sum_hops_add_sum_stays_between hfirst hlast houter hlt hlast_lt]
    congr 1
    · refine sum_congr rfl fun hop hhop => hrunning hop ?_
      have := mem_range.mp hhop
      omega
    · rw [sum_congr rfl fun stop hstop => hdwell stop ?_]
      · refine sum_filter_of_ne fun stop _ hne => ?_
        exact Bool.eq_false_of_not_eq_true fun hmarker => hne (staySeconds_of_isMarker hmarker)
      · have := mem_Ioo.mp (mem_filter.mp hstop).1
        omega
  · have hseconds : hopSeconds arrival departure hop = 0 := by
      rcases hzero with hmarker | hle
      · exact hopSeconds_of_isMarker hmarker
      · refine hopSeconds_of_le hle fun stop hstop => Bool.eq_true_of_not_eq_false fun hserved => ?_
        have := houter stop (by omega) hserved
        omega
    exact congrArg Int32.ofInt hseconds
  · obtain ⟨hhops, hstays⟩ := h.nonneg_of_isIncreasing hincreasing
    constructor
    · intro hop hhop
      rw [Int32.le_iff_toInt_le, hrunning hop hhop]
      exact hhops hop hhop
    · intro stop hstop
      rw [Int32.le_iff_toInt_le, hdwell stop hstop]
      exact hstays stop hstop

/-- A trip of five stops. -/
def longTrip : Baseline where
  serial := 0
  trip := ⟨⟨"a", "t"⟩, ⟨"a", "r"⟩, ⟨"a", "s"⟩, false⟩
  calls := [(100, 100), (160, 190), (250, 250), (300, 320), (400, 400)].map fun (a, d) =>
    ⟨a, d, .regular, .regular⟩

/-- It has left its first stop behind, and will not serve the third. -/
def longTripUnderWay : TripTimes :=
  .updated ⟨0, none, [ServiceTime.passed], some [.closed], false⟩
    (.updated ⟨2, none, [ServiceTime.skipped], some [.closed], false⟩ (.scheduled longTrip))

/-- Its arrivals are those at the second, fourth and fifth stop. -/
def longTripArrival : Nat → ServiceTime
  | 1 => 160
  | 3 => 300
  | 4 => 400
  | stop => if stop = 0 then ServiceTime.passed else ServiceTime.skipped

/-- And so are its departures. -/
def longTripDeparture : Nat → ServiceTime
  | 1 => 190
  | 3 => 320
  | 4 => 400
  | stop => if stop = 0 then ServiceTime.passed else ServiceTime.skipped

theorem itinerary_longTripUnderWay :
    longTripUnderWay.Itinerary longTripArrival longTripDeparture where
  arrival_eq := by decide
  departure_eq := by decide
  arrival_inRange := by decide
  departure_inRange := by decide
  paired := by decide

/-- From the second stop to the last it takes 210 seconds: 110 and 80 for two of the hops, and 20
at the fourth stop. -/
theorem journey_adds_up_longTrip :
    longTripUnderWay.stopCount = 5 ∧ longTripUnderWay.Itinerary longTripArrival longTripDeparture ∧
    longTripUnderWay.isIncreasing = .ok true ∧
    ∃ running dwell : Nat → Int32,
      (∀ hop, hop + 1 < 5 → longTripUnderWay.runningTime hop = .ok (running hop)) ∧
      (∀ stop < 5, longTripUnderWay.dwellTime stop = .ok (dwell stop)) ∧
      ∑ hop ∈ range 4, (running hop).toInt +
        ∑ stop ∈ Ioo 1 4 with ServiceTime.isMarker (longTripDeparture stop) = false,
          (dwell stop).toInt = 210 ∧
      running 1 = 0 ∧ ∀ hop, hop + 1 < 5 → 0 ≤ running hop := by
  have hforwards : longTripUnderWay.isIncreasing = .ok true := by decide
  have houter : ∀ stop < longTripUnderWay.stopCount,
      ServiceTime.isMarker (longTripDeparture stop) = false → 1 ≤ stop ∧ stop ≤ 4 := by decide
  obtain ⟨running, dwell, hrunning, hdwell, hsum, hzero, hnonneg⟩ :=
    journey_adds_up (by decide) itinerary_longTripUnderWay (by decide) (by decide) houter
      (by decide) (by decide)
  exact ⟨rfl, itinerary_longTripUnderWay, hforwards, running, dwell, hrunning, hdwell, hsum,
    hzero 1 (by decide) (Or.inl (by decide)), (hnonneg hforwards).1⟩

end TripTimes

end LiveTimetable
