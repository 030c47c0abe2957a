import LiveTimetable.Proofs.Times.Simulation

/-!
# The shape of a fading delay

A vehicle that makes up less than sixty seconds in a minute never gains more on the schedule than
the time that passes. So published times that run forwards do so under a fading delay as well, be
the vehicle late or early, and a delay that is gone at one time is gone at all later ones.

* `remaining_eq_zero_iff`, `natAbs_remaining_antitone`: when a delay is gone, and that it shrinks.
* `add_remaining_monotone`: what is left of a delay shrinks no faster than time passes.
* `Fades`: what calls look like under a delay that fades from some stop on.
* `fades_faded`: the faded calls of published ones that run forwards look like that.
* `forwards_faded`: and they run forwards, if the delay does not lead back behind the stops before.
* `TripTimes.decaying_fades`: the same of times under a fading delay, with the stop at which the
  trip has recovered.
-/

namespace LiveTimetable

/-! ## What is left of a delay -/

section Remaining

variable {delay elapsed elapsed' : Int} {rate : Nat}

/-- The longer a vehicle is under way, the more of its delay it has made up. -/
theorem madeUp_monotone (rate : Nat) (h : elapsed ≤ elapsed') :
    max 0 elapsed * (rate : Int) / 60 ≤ max 0 elapsed' * (rate : Int) / 60 :=
  Int.ediv_le_ediv (by decide) (Int.mul_le_mul_of_nonneg_right (by omega) (Int.natCast_nonneg _))

/-- What a vehicle makes up is no more than the time that passes. -/
theorem madeUp_le_add (hrate : rate ≤ 60) (h : elapsed ≤ elapsed') :
    max 0 elapsed' * (rate : Int) / 60 ≤
      max 0 elapsed * (rate : Int) / 60 + (elapsed' - elapsed) := by
  have hgain : (max 0 elapsed' - max 0 elapsed) * (rate : Int) ≤
      (max 0 elapsed' - max 0 elapsed) * 60 :=
    Int.mul_le_mul_of_nonneg_left (by omega) (by omega)
  rw [Int.sub_mul] at hgain
  calc max 0 elapsed' * (rate : Int) / 60
      ≤ (max 0 elapsed * (rate : Int) + (max 0 elapsed' - max 0 elapsed) * 60) / 60 :=
        Int.ediv_le_ediv (by decide) (by omega)
    _ = max 0 elapsed * (rate : Int) / 60 + (max 0 elapsed' - max 0 elapsed) :=
        Int.add_mul_ediv_right _ _ (by decide)
    _ ≤ max 0 elapsed * (rate : Int) / 60 + (elapsed' - elapsed) := by omega

theorem madeUp_nonneg (elapsed : Int) (rate : Nat) : 0 ≤ max 0 elapsed * (rate : Int) / 60 :=
  Int.ediv_nonneg (Int.mul_nonneg (Int.le_max_left _ _) (Int.natCast_nonneg _)) (by decide)

/-- As long as no time has passed all of the delay is left. -/
theorem remaining_of_nonpos (delay : Int) (rate : Nat) (h : elapsed ≤ 0) :
    remaining delay rate elapsed = delay := by
  unfold remaining
  rw [Int.max_eq_left h, Int.zero_mul, Int.zero_ediv, Int.sub_zero,
    Int.max_eq_right (Int.natCast_nonneg _), Int.sign_mul_natAbs]

/-- **When a delay is gone**: as much was made up as there was. -/
theorem remaining_eq_zero_iff :
    remaining delay rate elapsed = 0 ↔ (delay.natAbs : Int) ≤ max 0 elapsed * rate / 60 := by
  have hmade := madeUp_nonneg elapsed rate
  by_cases hzero : delay = 0
  · rw [hzero]
    exact iff_of_true (remaining_zero ..) hmade
  · have habs := natAbs_remaining hzero rate elapsed
    omega

/-- A vehicle that is late does not get ahead of the schedule, and the other way round. -/
theorem remaining_sign (delay : Int) (rate : Nat) (elapsed : Int) :
    remaining delay rate elapsed = 0 ∨ (remaining delay rate elapsed).sign = delay.sign := by
  obtain ⟨hlo, hhi⟩ := remaining_mem delay rate elapsed
  rcases Int.lt_trichotomy (remaining delay rate elapsed) 0 with h | h | h
  · right
    rw [Int.sign_eq_neg_one_of_neg h, Int.sign_eq_neg_one_of_neg (by omega)]
  · exact Or.inl h
  · right
    rw [Int.sign_eq_one_of_pos h, Int.sign_eq_one_of_pos (by omega)]

/-- A delay never grows. -/
theorem natAbs_remaining_antitone (delay : Int) (rate : Nat) (h : elapsed ≤ elapsed') :
    (remaining delay rate elapsed').natAbs ≤ (remaining delay rate elapsed).natAbs := by
  by_cases hzero : delay = 0
  · simp [hzero, remaining_zero]
  · have habs := natAbs_remaining hzero rate elapsed
    have habs' := natAbs_remaining hzero rate elapsed'
    have hmade := madeUp_monotone rate h
    omega

/-- **A delay shrinks no faster than time passes**, so what is due later stays later. -/
theorem add_remaining_monotone (delay : Int) (hrate : rate ≤ 60) (h : elapsed ≤ elapsed') :
    elapsed + remaining delay rate elapsed ≤ elapsed' + remaining delay rate elapsed' := by
  have hmono := madeUp_monotone rate h
  have hgain := madeUp_le_add hrate h
  unfold remaining
  rcases Int.lt_trichotomy delay 0 with hneg | hzero | hpos
  · rw [Int.sign_eq_neg_one_of_neg hneg, Int.neg_one_mul, Int.neg_one_mul]
    omega
  · rw [hzero, Int.sign_zero, Int.zero_mul, Int.zero_mul]
    omega
  · rw [Int.sign_eq_one_of_pos hpos, Int.one_mul, Int.one_mul]
    omega

end Remaining

/-! ## Times along a trip -/

/-- The times of calls, in the order in which the vehicle meets them. -/
def timesAlong (cs : List Call) : List ServiceTime := cs.flatMap fun c => [c.arrival, c.departure]

/-- Each of the published times, and how much later than that the time of the other calls is. -/
def delaysAlong (published cs : List Call) : List (ServiceTime × Int) :=
  List.zipWith (fun due t => (due, t.toInt - due.toInt)) (timesAlong published) (timesAlong cs)

/-- A published time under what is left of a delay since the time `origin`. -/
def later (delay : Int) (rate : Nat) (origin due : ServiceTime) : ServiceTime :=
  Int32.ofInt (due.toInt + remaining delay rate (due.toInt - origin.toInt))

/-- Both times of a call under what is left of a delay. -/
def Call.later (delay : Int) (rate : Nat) (origin : ServiceTime) (c : Call) : Call :=
  { c with
    arrival := LiveTimetable.later delay rate origin c.arrival
    departure := LiveTimetable.later delay rate origin c.departure }

theorem mem_timesAlong_iff {cs : List Call} {t : ServiceTime} :
    t ∈ timesAlong cs ↔ ∃ c ∈ cs, t = c.arrival ∨ t = c.departure := by
  simp [timesAlong]

theorem timesAlong_append (cs cs' : List Call) :
    timesAlong (cs ++ cs') = timesAlong cs ++ timesAlong cs' := List.flatMap_append

theorem timesAlong_drop {cs : List Call} {stop : Nat} (h : stop < cs.length) :
    timesAlong (cs.drop stop) =
      cs[stop].arrival :: cs[stop].departure :: timesAlong (cs.drop (stop + 1)) := by
  rw [List.drop_eq_getElem_cons h]
  rfl

theorem timesAlong_map_later (delay : Int) (rate : Nat) (origin : ServiceTime) (cs : List Call) :
    timesAlong (cs.map (Call.later delay rate origin)) =
      (timesAlong cs).map (later delay rate origin) := by
  simp [timesAlong, List.flatMap_map, List.map_flatMap, Call.later]

/-- Times that never decrease do so on both sides of a stop, and across it. -/
theorem pairwise_split {cs : List Call} (h : (timesAlong cs).Pairwise (· ≤ ·)) (stop : Nat) :
    (timesAlong (cs.take stop)).Pairwise (· ≤ ·) ∧ (timesAlong (cs.drop stop)).Pairwise (· ≤ ·) ∧
      ∀ t ∈ timesAlong (cs.take stop), ∀ t' ∈ timesAlong (cs.drop stop), t ≤ t' := by
  rw [← List.take_append_drop stop cs, timesAlong_append] at h
  exact List.pairwise_append.mp h

/-- The vehicle is nowhere later before it arrives. -/
theorem arrival_le {cs : List Call} {stop : Nat} (h : (timesAlong cs).Pairwise (· ≤ ·))
    (hlt : stop < cs.length) {t : ServiceTime} (ht : t ∈ timesAlong (cs.drop stop)) :
    cs[stop].arrival ≤ t := by
  have hdrop := (pairwise_split h stop).2.1
  rw [timesAlong_drop hlt] at hdrop ht
  rcases List.mem_cons.mp ht with rfl | ht
  · exact Int32.le_refl _
  · exact (List.pairwise_cons.mp hdrop).1 t ht

/-- Times that never decrease run forwards, whether or not there are markers among them. -/
theorem forwards_of_pairwise {cs : List Call} (h : (timesAlong cs).Pairwise (· ≤ ·)) :
    Forwards cs := List.Pairwise.filter _ h

theorem ServiceTime.InRange.not_isMarker {t : ServiceTime} (h : t.InRange) :
    ServiceTime.isMarker t = false := by
  obtain ⟨hlo, -⟩ := h
  have hne : ∀ marker : ServiceTime, marker.toInt < -536870912 → (t == marker) = false := by
    intro marker hmarker
    rw [beq_eq_false_iff_ne]
    rintro rfl
    omega
  unfold isMarker
  rw [hne passed (by decide), hne skipped (by decide), Bool.or_false]

/-- Moderate times are real, so if they run forwards they never decrease. -/
theorem pairwise_of_forwards {cs : List Call} (hrange : ∀ c ∈ cs, c.InRange)
    (h : Forwards cs) : (timesAlong cs).Pairwise (· ≤ ·) := by
  have hreal : realTimes cs = timesAlong cs := by
    refine List.filter_eq_self.mpr fun t ht => ?_
    obtain ⟨c, hc, rfl | rfl⟩ := mem_timesAlong_iff.mp ht
    · rw [(hrange c hc).arrival.not_isMarker, Bool.not_false]
    · rw [(hrange c hc).departure.not_isMarker, Bool.not_false]
  rw [← hreal]
  exact h

/-! ## The faded calls -/

section Faded

variable {published : List Call} {start stop : Nat} {origin : Call} {delay : Int} {rate : Nat}

theorem take_faded (published : List Call) (start : Nat) (delay : Int) (rate : Nat) :
    (faded published start delay rate).take start = published.take start := by
  refine List.ext_getElem? fun i => ?_
  rw [List.getElem?_take, List.getElem?_take]
  split
  · rename_i hi
    exact getElem?_faded_of_lt delay rate hi
  · rfl

/-- Without a stop to fade from nothing is delayed. -/
theorem faded_of_length_le (delay : Int) (rate : Nat) (h : published.length ≤ start) :
    faded published start delay rate = published := by
  unfold faded
  rw [List.getElem?_eq_none h]

theorem drop_faded (delay : Int) (rate : Nat) (horigin : published[start]? = some origin)
    (h : start ≤ stop) : (faded published start delay rate).drop stop =
      (published.drop stop).map (Call.later delay rate origin.departure) := by
  refine List.ext_getElem? fun i => ?_
  rw [List.getElem?_drop, List.getElem?_map, List.getElem?_drop,
    getElem?_faded_of_le delay rate horigin (Nat.le_trans h (Nat.le_add_right ..))]
  rfl

/-- From the stop on where the delay was seen, times are later by what is left of it. -/
theorem timesAlong_drop_faded (delay : Int) (rate : Nat)
    (horigin : published[start]? = some origin) (h : start ≤ stop) :
    timesAlong ((faded published start delay rate).drop stop) =
      (timesAlong (published.drop stop)).map (later delay rate origin.departure) := by
  rw [drop_faded delay rate horigin h, timesAlong_map_later]

/-- All times from the first delayed stop on can be worked out. -/
theorem FadesInRange.fitsUnder (hfades : FadesInRange published start delay rate)
    (horigin : published[start]? = some origin) (h : start ≤ stop) {due : ServiceTime}
    (hdue : due ∈ timesAlong (published.drop stop)) :
    FitsUnder delay rate origin.departure due := by
  obtain ⟨c, hc, hdue⟩ := mem_timesAlong_iff.mp hdue
  have hmem : c ∈ published.drop start := by
    rw [← Nat.add_sub_cancel' h, ← List.drop_drop] at hc
    exact List.mem_of_mem_drop hc
  obtain ⟨harrival, hdeparture⟩ := hfades origin horigin c hmem
  rcases hdue with rfl | rfl
  · exact harrival
  · exact hdeparture

theorem toInt_later {origin due : ServiceTime} (h : FitsUnder delay rate origin due) :
    (later delay rate origin due).toInt =
      due.toInt + remaining delay rate (due.toInt - origin.toInt) := toInt_ofInt h.2

theorem later_eq_self_iff {origin due : ServiceTime} (h : FitsUnder delay rate origin due) :
    later delay rate origin due = due ↔ remaining delay rate (due.toInt - origin.toInt) = 0 := by
  rw [← Int32.toInt_inj, toInt_later h]
  omega

/-- Under a fading delay later times stay later. -/
theorem later_monotone (hrate : rate ≤ 60) {origin due due' : ServiceTime}
    (hfit : FitsUnder delay rate origin due) (hfit' : FitsUnder delay rate origin due')
    (h : due ≤ due') : later delay rate origin due ≤ later delay rate origin due' := by
  rw [Int32.le_iff_toInt_le] at h ⊢
  rw [toInt_later hfit, toInt_later hfit']
  have hmono := add_remaining_monotone delay hrate (Int.sub_le_sub_right h origin.toInt)
  omega

/-- The delays of faded calls are what is left of the one that was seen. -/
theorem delaysAlong_faded (hfades : FadesInRange published start delay rate)
    (horigin : published[start]? = some origin) :
    delaysAlong (published.drop start) ((faded published start delay rate).drop start) =
      (timesAlong (published.drop start)).map fun due =>
        (due, remaining delay rate (due.toInt - origin.departure.toInt)) := by
  unfold delaysAlong
  rw [timesAlong_drop_faded delay rate horigin (Nat.le_refl _), List.zipWith_map_right,
    List.zipWith_self]
  refine List.map_congr_left fun due hdue => ?_
  rw [toInt_later (hfades.fitsUnder horigin (Nat.le_refl _) hdue), Int.add_comm,
    Int.add_sub_cancel]

/-- The calls `cs` are the published ones under a delay that is seen at the stop `start` and
fades away. -/
structure Fades (published cs : List Call) (start : Nat) (delay : Int) (rate : Nat) : Prop where
  /-- The stops before are as published. -/
  before : cs.take start = published.take start
  /-- The vehicle stays on its side of the schedule. -/
  direction : ∀ p ∈ delaysAlong (published.drop start) (cs.drop start),
    p.2 = 0 ∨ p.2.sign = delay.sign
  /-- From one time to the next the delay never grows. -/
  shrinks : (delaysAlong (published.drop start) (cs.drop start)).Pairwise
    fun p q => q.2.natAbs ≤ p.2.natAbs
  /-- It is gone as soon as it was made up since the published departure from the stop. -/
  gone_iff : ∀ origin ∈ published[start]?,
    ∀ p ∈ delaysAlong (published.drop start) (cs.drop start),
      p.2 = 0 ↔ (delay.natAbs : Int) ≤ max 0 (p.1.toInt - origin.departure.toInt) * rate / 60
  /-- The vehicle does not go back in time. -/
  forwards : (timesAlong (cs.drop start)).Pairwise (· ≤ ·)

/-- **Published times that never decrease fade in good order**: the delay shrinks on one side of
the schedule until it is gone, and the delayed times never decrease. -/
theorem fades_faded (hrate : rate ≤ 60) (hfades : FadesInRange published start delay rate)
    (hmono : (timesAlong published).Pairwise (· ≤ ·)) :
    Fades published (faded published start delay rate) start delay rate := by
  rcases Nat.lt_or_ge start published.length with hlt | hge
  · have horigin := List.getElem?_eq_getElem hlt
    have hdelays := delaysAlong_faded hfades horigin
    have hdrop := (pairwise_split hmono start).2.1
    refine ⟨take_faded .., ?_, ?_, ?_, ?_⟩
    · rw [hdelays]
      intro p hp
      obtain ⟨due, -, rfl⟩ := List.mem_map.mp hp
      exact remaining_sign ..
    · rw [hdelays, List.pairwise_map]
      refine hdrop.imp fun {due due'} hle => ?_
      rw [Int32.le_iff_toInt_le] at hle
      exact natAbs_remaining_antitone delay rate (Int.sub_le_sub_right hle _)
    · rw [hdelays]
      intro origin' horigin' p hp
      obtain rfl := Option.some.inj (horigin.symm.trans horigin')
      obtain ⟨due, -, rfl⟩ := List.mem_map.mp hp
      exact remaining_eq_zero_iff
    · rw [timesAlong_drop_faded delay rate horigin (Nat.le_refl _), List.pairwise_map]
      refine hdrop.imp_of_mem fun {due due'} hdue hdue' hle => ?_
      exact later_monotone hrate (hfades.fitsUnder horigin (Nat.le_refl _) hdue)
        (hfades.fitsUnder horigin (Nat.le_refl _) hdue') hle
  · rw [faded_of_length_le delay rate hge]
    have hnil := List.drop_eq_nil_of_le hge
    refine ⟨rfl, ?_, ?_, ?_, ?_⟩ <;> simp [hnil, delaysAlong, timesAlong]

/-- **Faded times run forwards**, if not even the whole delay leads back behind the stops before
the one at which it was seen. -/
theorem forwards_faded (hrate : rate ≤ 60) (hfades : FadesInRange published start delay rate)
    (hmono : (timesAlong published).Pairwise (· ≤ ·))
    (hlead : ∀ origin ∈ published[start]?, ∀ t ∈ timesAlong (published.take start),
      t.toInt ≤ origin.arrival.toInt + delay) :
    Forwards (faded published start delay rate) := by
  rcases Nat.lt_or_ge start published.length with hlt | hge
  · have horigin := List.getElem?_eq_getElem hlt
    have hshape := fades_faded hrate hfades hmono
    have hfit : ∀ {due}, due ∈ timesAlong (published.drop start) →
        FitsUnder delay rate published[start].departure due :=
      hfades.fitsUnder horigin (Nat.le_refl _)
    have hfirst : published[start].arrival ∈ timesAlong (published.drop start) := by
      rw [timesAlong_drop hlt]
      exact List.mem_cons_self
    have hdwell : published[start].arrival ≤ published[start].departure := by
      refine arrival_le hmono hlt ?_
      rw [timesAlong_drop hlt]
      exact List.mem_cons_of_mem _ List.mem_cons_self
    -- All of the delay is left on arrival, as it starts to fade with the departure.
    have hwhole : (later delay rate published[start].departure published[start].arrival).toInt =
        published[start].arrival.toInt + delay := by
      rw [Int32.le_iff_toInt_le] at hdwell
      rw [toInt_later (hfit hfirst), remaining_of_nonpos delay rate (by omega)]
    refine forwards_of_pairwise ?_
    rw [← List.take_append_drop start (faded published start delay rate), timesAlong_append,
      hshape.before, List.pairwise_append]
    refine ⟨(pairwise_split hmono start).1, hshape.forwards, fun t ht t' ht' => ?_⟩
    rw [timesAlong_drop_faded delay rate horigin (Nat.le_refl _)] at ht'
    obtain ⟨due, hdue, rfl⟩ := List.mem_map.mp ht'
    refine Int32.le_trans (Int32.le_iff_toInt_le.mpr ?_)
      (later_monotone hrate (hfit hfirst) (hfit hdue) (arrival_le hmono hlt hdue))
    rw [hwhole]
    exact hlead _ horigin t ht
  · rw [faded_of_length_le delay rate hge]
    exact forwards_of_pairwise hmono

/-- The faded calls are the published ones from some stop on exactly if the delay is gone at that
stop: then it is gone for good. -/
theorem timesAlong_drop_faded_eq_iff (hfades : FadesInRange published start delay rate)
    (hmono : (timesAlong published).Pairwise (· ≤ ·)) (horigin : published[start]? = some origin)
    (h : start ≤ stop) {c : Call} (hc : published[stop]? = some c) :
    timesAlong ((faded published start delay rate).drop stop) =
        timesAlong (published.drop stop) ↔
      remaining delay rate (c.arrival.toInt - origin.departure.toInt) = 0 ∧
        remaining delay rate (c.departure.toInt - origin.departure.toInt) = 0 := by
  obtain ⟨hlt, rfl⟩ := List.getElem?_eq_some_iff.mp hc
  have hpoint : timesAlong ((faded published start delay rate).drop stop) =
      timesAlong (published.drop stop) ↔ ∀ due ∈ timesAlong (published.drop stop),
        remaining delay rate (due.toInt - origin.departure.toInt) = 0 := by
    have hmap := List.map_inj_left (l := timesAlong (published.drop stop))
      (f := later delay rate origin.departure) (g := id)
    rw [List.map_id, ← timesAlong_drop_faded delay rate horigin h] at hmap
    refine hmap.trans (forall₂_congr fun due hdue => ?_)
    exact later_eq_self_iff (hfades.fitsUnder horigin h hdue)
  rw [hpoint]
  constructor
  · intro hall
    rw [timesAlong_drop hlt] at hall
    exact ⟨hall _ List.mem_cons_self, hall _ (List.mem_cons_of_mem _ List.mem_cons_self)⟩
  · rintro ⟨harrival, -⟩ due hdue
    have hle := arrival_le hmono hlt hdue
    rw [Int32.le_iff_toInt_le] at hle
    have hshrinks := natAbs_remaining_antitone delay rate
      (Int.sub_le_sub_right hle origin.departure.toInt)
    omega

end Faded

/-! ## Times under a fading delay -/

namespace Decay

variable {d : Decay} {origin : Call}

theorem delayAt_eq_ok {due : ServiceTime} {stop : Nat} (hstop : d.start ≤ stop)
    (horigin : d.baseline.calls[d.start]? = some origin) (hrate : d.rate ≤ 59)
    (hfit : FitsUnder d.initialDelay.toInt d.rate origin.departure due) :
    ∃ left : Int32, d.delayAt stop due = .ok left ∧
      (left = 0 ↔
        remaining d.initialDelay.toInt d.rate (due.toInt - origin.departure.toInt) = 0) := by
  refine ⟨_, (delayAt_eq due hstop horigin hrate rfl).trans (if_pos hfit.1), ?_⟩
  have hfits : Fits32 (remaining d.initialDelay.toInt d.rate
      (due.toInt - origin.departure.toInt)) := by
    have hdelay := fits32_toInt d.initialDelay
    have hmem := remaining_mem d.initialDelay.toInt d.rate (due.toInt - origin.departure.toInt)
    unfold Fits32 at hdelay ⊢
    omega
  rw [← Int32.toInt_inj, toInt_ofInt hfits]
  rfl

/-- The search finds the first stop from which on everything is as published. -/
theorem firstRecovered?_eq (hrate : d.rate ≤ 59)
    (hfades : FadesInRange d.baseline.calls d.start d.initialDelay.toInt d.rate)
    (hmono : (timesAlong d.baseline.calls).Pairwise (· ≤ ·)) :
    ∀ {stops : List Nat}, (∀ stop ∈ stops, d.start ≤ stop ∧ stop < d.baseline.stopCount) →
      d.firstRecovered? stops = .ok (stops.find? fun stop =>
        timesAlong ((faded d.baseline.calls d.start d.initialDelay.toInt d.rate).drop stop) =
          timesAlong (d.baseline.calls.drop stop))
  | [], _ => rfl
  | stop :: rest, hstops => by
    obtain ⟨hstart, hlt⟩ := hstops stop List.mem_cons_self
    have ih := firstRecovered?_eq hrate hfades hmono fun stop' h =>
      hstops stop' (List.mem_cons_of_mem stop h)
    have hc := List.getElem?_eq_getElem hlt
    have horigin := List.getElem?_eq_getElem (Nat.lt_of_le_of_lt hstart hlt)
    obtain ⟨harrival, hdeparture⟩ := hfades _ horigin _ (TripTimes.mem_drop_of_getElem? hstart hc)
    obtain ⟨left, hleft, hgone⟩ := delayAt_eq_ok hstart horigin hrate harrival
    obtain ⟨left', hleft', hgone'⟩ := delayAt_eq_ok hstart horigin hrate hdeparture
    rw [firstRecovered?, Baseline.arrival_of_getElem? hc, Checked.ok_bind, hleft, Checked.ok_bind,
      Baseline.departure_of_getElem? hc, Checked.ok_bind, hleft', Checked.ok_bind, ih,
      List.find?_cons]
    simp only [timesAlong_drop_faded_eq_iff hfades hmono horigin hstart hc, ← hgone, ← hgone']
    by_cases hzero : left = 0 <;> by_cases hzero' : left' = 0 <;> simp [hzero, hzero']

end Decay

namespace TripTimes

/-- **The shape of a fading delay.** Under a delay of at most 2^30 seconds, of which less than sixty
are made up in a minute, published times that are real and never decrease can be read at every
stop. They read as calls that fade, and the trip has recovered at the first stop from which on all
times are the published ones. -/
theorem decaying_fades (d : Decay) (hrange : ∀ c ∈ d.baseline.calls, c.InRange)
    (hforwards : Forwards d.baseline.calls) (hdelay : d.initialDelay.toInt.natAbs ≤ 1073741824)
    (hrate : d.rate ≤ 59) :
    ∃ cs, (decaying d).Reads cs ∧
      Fades d.baseline.calls cs d.start d.initialDelay.toInt d.rate ∧
      d.recoveredAt? = .ok (((List.range d.baseline.stopCount).drop d.start).find? fun stop =>
        timesAlong (cs.drop stop) = timesAlong (d.baseline.calls.drop stop)) := by
  have hlo : -1073741824 ≤ d.initialDelay.toInt := by omega
  have hhi : d.initialDelay.toInt ≤ 1073741824 := by omega
  have hfades := fadesInRange_of_inRange hrange hlo hhi d.start d.rate
  have hmono := pairwise_of_forwards hrange hforwards
  refine ⟨_, reads_decaying hrate hfades, fades_faded (by omega) hfades hmono, ?_⟩
  refine Decay.firstRecovered?_eq hrate hfades hmono fun stop hstop => ?_
  obtain ⟨i, hi⟩ := List.getElem?_of_mem hstop
  rw [List.getElem?_drop] at hi
  obtain ⟨hlt, rfl⟩ := List.getElem?_eq_some_iff.mp hi
  rw [List.getElem_range]
  rw [List.length_range] at hlt
  exact ⟨Nat.le_add_right .., hlt⟩

theorem inRange_lateTrip : lateTrip.InRange := by
  refine ⟨by decide, fun c hc => ?_⟩
  have hall : ∀ c ∈ lateTrip.calls, c.arrival.InRange ∧ c.departure.InRange := by decide
  exact ⟨(hall c hc).1, (hall c hc).2⟩

/-- A delay of 50 seconds at the second stop of the late trip, half of which is made up in every
minute, is gone at the last stop. -/
theorem decaying_fades_lateTrip :
    let d : Decay := ⟨lateTrip, 1, 50, 30, false⟩
    ((∀ c ∈ d.baseline.calls, c.InRange) ∧ Forwards d.baseline.calls ∧
      d.initialDelay.toInt.natAbs ≤ 1073741824 ∧ d.rate ≤ 59) ∧
    (∃ cs, (decaying d).Reads cs ∧ Fades lateTrip.calls cs 1 50 30) ∧
    d.recoveredAt? = .ok (some 2) := by
  have hrecovered : (⟨lateTrip, 1, 50, 30, false⟩ : Decay).recoveredAt? = .ok (some 2) := by rfl
  intro d
  have hrange : ∀ c ∈ d.baseline.calls, c.InRange := inRange_lateTrip.calls
  have hforwards : Forwards d.baseline.calls := by decide
  have hdelay : d.initialDelay.toInt.natAbs ≤ 1073741824 := by decide
  have hrate : d.rate ≤ 59 := by decide
  obtain ⟨cs, hreads, hshape, -⟩ := decaying_fades d hrange hforwards hdelay hrate
  exact ⟨⟨hrange, hforwards, hdelay, hrate⟩, ⟨cs, hreads, hshape⟩, hrecovered⟩

end TripTimes

end LiveTimetable
