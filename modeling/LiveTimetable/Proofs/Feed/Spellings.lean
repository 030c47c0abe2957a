import LiveTimetable.Proofs.Feed.Texts

/-!
# Identifiers and dates have one spelling each

An identifier or a date is read from no text but the one that it is written as, so two texts never
mean one of them. What can be read is told without the readers: an identifier is something, a
colon and something (`FeedId.IsSpelling`), a date is eight digits that name a day
(`ServiceDate.IsSpelling`). What is written is read back exactly if it has such a text.

* `FeedId.parse_eq_ok_iff`, `ServiceDate.parse_eq_ok_iff`: a text is read as what is written so.
* `ServiceDate.numeral_lt_iff`: texts of digits of one length are ordered as the numbers are.
* `spellings_exact`: both kinds of text, and the order of dates as that of their texts.
-/

namespace LiveTimetable

/-! ## Identifiers -/

namespace FeedId

/-- Something, a colon, and something. The colon is the first one. -/
def IsSpelling (s : String) : Prop :=
  ∃ before after : String, s = before ++ ":" ++ after ∧ ':' ∉ before.toList ∧
    before ≠ "" ∧ after ≠ ""

variable {s : String} {f : FeedId}

/-- What is read has the text that it was read from, and a text that can be read. -/
theorem isTextual_of_parse (h : parse s = .ok f) : f.text = s ∧ f.IsTextual := by
  have hsplit : s.toList.takeWhile (· != ':') ++ s.toList.dropWhile (· != ':') = s.toList :=
    List.takeWhile_append_dropWhile
  have hbefore : ':' ∉ s.toList.takeWhile (· != ':') := fun hmem => by
    simpa using List.all_eq_true.mp List.all_takeWhile _ hmem
  have hcolon := List.head?_dropWhile_not (· != ':') s.toList
  simp only [parse] at h
  cases hafter : s.toList.dropWhile (· != ':') with
  | nil =>
    rw [hafter] at h
    cases h
  | cons c after =>
    rw [hafter] at h hsplit hcolon
    obtain rfl : c = ':' := by simpa using hcolon
    simp only [] at h
    split at h
    · cases h
    · rename_i hagency
      split at h
      · cases h
      · rename_i hlocal
        cases h
        refine ⟨?_, ?_, ?_, ?_⟩
        · apply String.toList_inj.mp
          simpa [text, List.append_assoc] using hsplit
        · simpa using hagency
        · simpa using hbefore
        · simpa using hlocal

/-- **An identifier is read from its own text and from no other.** -/
theorem parse_eq_ok_iff : parse s = .ok f ↔ f.text = s ∧ f.IsTextual := by
  constructor
  · exact isTextual_of_parse
  · rintro ⟨rfl, h⟩
    exact parse_text h

theorem exists_parse_iff : (∃ f, parse s = .ok f) ↔ IsSpelling s := by
  simp only [parse_eq_ok_iff]
  constructor
  · rintro ⟨f, rfl, h⟩
    exact ⟨f.agency, f.localId, rfl, h.no_colon, h.agency_ne, h.localId_ne⟩
  · rintro ⟨before, after, rfl, hcolon, hbefore, hafter⟩
    exact ⟨⟨before, after⟩, rfl, hbefore, hcolon, hafter⟩

end FeedId

/-! ## Digits -/

namespace ServiceDate

variable {cs ds : List Char} {m n : Nat}

theorem isDigit_iff (c : Char) : c.isDigit = true ↔ '0' ≤ c ∧ c ≤ '9' := by
  simp only [Char.isDigit, Bool.and_eq_true, decide_eq_true_eq, ge_iff_le, Char.le_def]

theorem toNat_of_isDigit {c : Char} (h : c.isDigit = true) : 48 ≤ c.toNat ∧ c.toNat ≤ 57 :=
  (isDigit_iff c).mp h

theorem numeral_eq (cs : List Char) : numeral cs = Nat.ofDigitChars 10 cs 0 :=
  Nat.ofDigitChars_eq_foldl.symm

/-- Of two numbers that go on with as many digits each, the smaller one began smaller, or began
alike and went on smaller. -/
theorem ofDigitChars_lt_iff (hlen : cs.length = ds.length) (hcs : cs.all Char.isDigit = true)
    (hds : ds.all Char.isDigit = true) :
    Nat.ofDigitChars 10 cs m < Nat.ofDigitChars 10 ds n ↔ m < n ∨ m = n ∧ cs < ds := by
  induction cs generalizing ds m n with
  | nil =>
    obtain rfl := List.eq_nil_of_length_eq_zero hlen.symm
    simp
  | cons c cs ih =>
    cases ds with
    | nil => cases hlen
    | cons d ds =>
      simp only [List.all_cons, Bool.and_eq_true] at hcs hds
      have hc := toNat_of_isDigit hcs.1
      have hd := toNat_of_isDigit hds.1
      have hlt : c < d ↔ c.toNat < d.toNat := Iff.rfl
      have heq : c = d ↔ c.toNat = d.toNat := Char.toNat_inj.symm
      have hzero : '0'.toNat = 48 := rfl
      rw [Nat.ofDigitChars_cons, Nat.ofDigitChars_cons, ih (Nat.succ.inj hlen) hcs.2 hds.2,
        List.cons_lt_cons_iff, hlt, heq, hzero]
      by_cases hrest : cs < ds
      · simp only [hrest, and_true]
        omega
      · simp only [hrest, and_false, or_false]
        omega

/-- Texts of digits of one length are ordered as the numbers that they stand for. -/
theorem numeral_lt_iff (hlen : cs.length = ds.length) (hcs : cs.all Char.isDigit = true)
    (hds : ds.all Char.isDigit = true) : numeral cs < numeral ds ↔ cs < ds := by
  rw [numeral_eq, numeral_eq, ofDigitChars_lt_iff hlen hcs hds]
  simp

/-- A number has one text of a length. -/
theorem numeral_inj (hlen : cs.length = ds.length) (hcs : cs.all Char.isDigit = true)
    (hds : ds.all Char.isDigit = true) (h : numeral cs = numeral ds) : cs = ds := by
  have hle : ¬ cs < ds := fun hlt => by
    have := (numeral_lt_iff hlen hcs hds).mpr hlt
    omega
  have hge : ¬ ds < cs := fun hlt => by
    have := (numeral_lt_iff hlen.symm hds hcs).mpr hlt
    omega
  exact List.le_antisymm hge hle

theorem numeral_append (cs ds : List Char) :
    numeral (cs ++ ds) = Nat.pow 10 ds.length * numeral cs + numeral ds := by
  simp only [numeral_eq, Nat.ofDigitChars_append]
  exact Nat.ofDigitChars_eq_ofDigitChars_zero

theorem numeral_lt (hcs : cs.all Char.isDigit = true) : numeral cs < Nat.pow 10 cs.length := by
  induction cs with
  | nil => decide
  | cons c cs ih =>
    simp only [List.all_cons, Bool.and_eq_true] at hcs
    have hc := toNat_of_isDigit hcs.1
    have hrest := ih hcs.2
    have hone : numeral [c] ≤ 9 := by
      show 10 * 0 + (c.toNat - 48) ≤ 9
      omega
    rw [← List.singleton_append, numeral_append]
    calc Nat.pow 10 cs.length * numeral [c] + numeral cs
        < Nat.pow 10 cs.length * numeral [c] + Nat.pow 10 cs.length := Nat.add_lt_add_left hrest _
      _ = Nat.pow 10 cs.length * (numeral [c] + 1) := by rw [Nat.mul_add, Nat.mul_one]
      _ ≤ Nat.pow 10 cs.length * 10 := Nat.mul_le_mul_left _ (by omega)
      _ = Nat.pow 10 ([c] ++ cs).length := rfl

/-- A number is written with the digits that it was read from. -/
theorem zeroPadded_numeral (hpos : 0 < cs.length) (hcs : cs.all Char.isDigit = true) :
    (Text.zeroPadded cs.length (numeral cs : Nat)).toList = cs := by
  refine numeral_inj ?_ (Text.isDigit_zeroPadded _ _) hcs (Text.numeral_zeroPadded _ _)
  exact Text.length_zeroPadded _ _ hpos (numeral_lt hcs)

end ServiceDate

/-! ## Dates -/

namespace ServiceDate

/-- The number of a digit. -/
def digit (c : Char) : Nat := c.toNat - '0'.toNat

/-- Eight ASCII digits: four for a year, two for a month, and two for a day that it has. -/
def IsSpelling (s : String) : Prop :=
  ∃ y₃ y₂ y₁ y₀ m₁ m₀ d₁ d₀ : Char, s.toList = [y₃, y₂, y₁, y₀, m₁, m₀, d₁, d₀] ∧
    (∀ c ∈ s.toList, '0' ≤ c ∧ c ≤ '9') ∧
    IsDay (1000 * digit y₃ + 100 * digit y₂ + 10 * digit y₁ + digit y₀ : Nat)
      (10 * digit m₁ + digit m₀) (10 * digit d₁ + digit d₀)

variable {s t : String} {d e : ServiceDate}

/-- A date is read from the digits of its year, its month and its day. -/
theorem parse_eq_ok_iff_parts : parse s = .ok d ↔ ∃ ys ms ds : List Char,
    s.toList = ys ++ (ms ++ ds) ∧ ys.length = 4 ∧ ms.length = 2 ∧ ds.length = 2 ∧
      s.toList.all Char.isDigit = true ∧
      d.year = numeral ys ∧ d.month = numeral ms ∧ d.day = numeral ds := by
  constructor
  · intro h
    simp only [parse] at h
    split at h
    · rename_i hdigits
      refine ⟨s.toList.take 4, (s.toList.drop 4).take 2, s.toList.drop 6, ?_, by simp [hdigits.1],
        by simp [hdigits.1], by simp [hdigits.1], hdigits.2, ?_⟩
      · rw [← List.drop_drop (i := 2) (j := 4), List.take_append_drop, List.take_append_drop]
      · split at h
        · rename_i date hdate
          cases h
          unfold ofYmd? at hdate
          split at hdate
          · cases hdate
            exact ⟨rfl, rfl, rfl⟩
          · cases hdate
        · cases h
    · cases h
  · rintro ⟨ys, ms, ds, hs, hys, hms, hds, hdigits, hyear, hmonth, hday⟩
    have hlen : s.toList.length = 8 := by simp [hs, hys, hms, hds]
    have htake : s.toList.take 4 = ys := by rw [hs, List.take_left' hys]
    have hdrop : s.toList.drop 4 = ms ++ ds := by rw [hs, List.drop_left' hys]
    have hlast : s.toList.drop 6 = ds := by
      rw [← List.drop_drop (i := 2) (j := 4), hdrop, List.drop_left' hms]
    have hnamed : ofYmd? (numeral ys) (numeral ms) (numeral ds) = some d := by
      rw [← hyear, ← hmonth, ← hday]
      exact ofYmd?_of_isDay d.isDay
    simp only [parse]
    rw [if_pos ⟨hlen, hdigits⟩, htake, hdrop, hlast, List.take_left' hms, hnamed]

theorem isTextual_of_parse (h : parse s = .ok d) : d.text = s ∧ d.IsTextual := by
  obtain ⟨ys, ms, ds, hs, hys, hms, hds, hdigits, hyear, hmonth, hday⟩ :=
    parse_eq_ok_iff_parts.mp h
  simp only [hs, List.all_append, Bool.and_eq_true] at hdigits
  have hytext := zeroPadded_numeral (by omega) hdigits.1
  have hmtext := zeroPadded_numeral (by omega) hdigits.2.1
  have hdtext := zeroPadded_numeral (by omega) hdigits.2.2
  rw [hys] at hytext
  rw [hms] at hmtext
  rw [hds] at hdtext
  constructor
  · apply String.toList_inj.mp
    rw [text, hyear, hmonth, hday, String.toList_append, String.toList_append, hytext, hmtext,
      hdtext, hs, List.append_assoc]
  · have hlt := numeral_lt hdigits.1
    have hbound : Nat.pow 10 ys.length = 10000 := by rw [hys]
    unfold IsTextual
    omega

/-- **A date is read from its own text and from no other.** -/
theorem parse_eq_ok_iff : parse s = .ok d ↔ d.text = s ∧ d.IsTextual := by
  constructor
  · exact isTextual_of_parse
  · rintro ⟨rfl, h⟩
    exact parse_text h

theorem numeral_four (a b c d : Char) :
    numeral [a, b, c, d] = 1000 * digit a + 100 * digit b + 10 * digit c + digit d := by
  show 10 * (10 * (10 * (10 * 0 + digit a) + digit b) + digit c) + digit d = _
  omega

theorem numeral_two (a b : Char) : numeral [a, b] = 10 * digit a + digit b := by
  show 10 * (10 * 0 + digit a) + digit b = _
  omega

theorem exists_parse_iff : (∃ d, parse s = .ok d) ↔ IsSpelling s := by
  have hall : s.toList.all Char.isDigit = true ↔ ∀ c ∈ s.toList, '0' ≤ c ∧ c ≤ '9' := by
    simp only [List.all_eq_true, isDigit_iff]
  constructor
  · rintro ⟨d, h⟩
    obtain ⟨ys, ms, ds, hs, hys, hms, hds, hdigits, hyear, hmonth, hday⟩ :=
      parse_eq_ok_iff_parts.mp h
    match ys, ms, ds, hys, hms, hds with
    | [y₃, y₂, y₁, y₀], [m₁, m₀], [d₁, d₀], _, _, _ =>
      refine ⟨y₃, y₂, y₁, y₀, m₁, m₀, d₁, d₀, hs, hall.mp hdigits, ?_⟩
      rw [← numeral_four, ← numeral_two, ← numeral_two, ← hyear, ← hmonth, ← hday]
      exact d.isDay
  · rintro ⟨y₃, y₂, y₁, y₀, m₁, m₀, d₁, d₀, hs, hdigits, hday⟩
    exact ⟨⟨_, _, _, hday⟩, parse_eq_ok_iff_parts.mpr ⟨[y₃, y₂, y₁, y₀], [m₁, m₀], [d₁, d₀], hs,
      rfl, rfl, rfl, hall.mpr hdigits, congrArg Nat.cast (numeral_four ..).symm,
      (numeral_two ..).symm, (numeral_two ..).symm⟩⟩

/-- The text of a date stands for its year, month and day in one number. -/
theorem numeral_of_parse (h : parse s = .ok d) :
    (numeral s.toList : Int) = 10000 * d.year + 100 * d.month + d.day := by
  obtain ⟨ys, ms, ds, hs, hys, hms, hds, -, hyear, hmonth, hday⟩ := parse_eq_ok_iff_parts.mp h
  have hmonthDay : Nat.pow 10 (ms ++ ds).length = 10000 := by
    rw [List.length_append, hms, hds]
  have hdayOnly : Nat.pow 10 ds.length = 100 := by rw [hds]
  rw [hs, numeral_append, numeral_append, hmonthDay, hdayOnly, hyear, hmonth, hday]
  omega

/-- **Dates are ordered as their texts.** -/
theorem lt_iff_of_parse (hs : parse s = .ok d) (ht : parse t = .ok e) : d < e ↔ s < t := by
  obtain ⟨_, _, _, hsplit, hys, hms, hds, hdigits, -⟩ := parse_eq_ok_iff_parts.mp hs
  obtain ⟨_, _, _, hsplit', hys', hms', hds', hdigits', -⟩ := parse_eq_ok_iff_parts.mp ht
  have hlen : s.toList.length = t.toList.length := by
    simp only [hsplit, hsplit', List.length_append, hys, hms, hds, hys', hms', hds']
  have hnumber := numeral_of_parse hs
  have hnumber' := numeral_of_parse ht
  have hday := (daysInMonth_mem d.year (month_mem d)).2
  have hday' := (daysInMonth_mem e.year (month_mem e)).2
  have hmonth := month_mem d
  have hmonth' := month_mem e
  have hle := d.isDay.2
  have hle' := e.isDay.2
  show d < e ↔ s.toList < t.toList
  rw [← numeral_lt_iff hlen hdigits hdigits', lt_iff]
  omega

end ServiceDate

/-! ## Both kinds of text -/

/-- **Texts of identifiers and dates are exact.** A text is read as an identifier exactly if there
is something before its first colon and something after it, and as a date exactly if it has eight
digits that name a day. Either is written again as it was read. An identifier is read back from its
own text exactly if both of its parts are there and the first has no colon, and a date exactly if
its year is one from 0 to 9999. Dates that were read are ordered as their texts, character by
character. -/
theorem spellings_exact :
    ((∀ s, (∃ f, FeedId.parse s = .ok f) ↔ FeedId.IsSpelling s) ∧
      (∀ s f, FeedId.parse s = .ok f → f.text = s) ∧
      ∀ f, FeedId.parse f.text = .ok f ↔ f.agency ≠ "" ∧ ':' ∉ f.agency.toList ∧ f.localId ≠ "") ∧
    (∀ s, (∃ d, ServiceDate.parse s = .ok d) ↔ ServiceDate.IsSpelling s) ∧
      (∀ s d, ServiceDate.parse s = .ok d → d.text = s) ∧
      (∀ d, ServiceDate.parse d.text = .ok d ↔ 0 ≤ d.year ∧ d.year ≤ 9999) ∧
      ∀ s t d e, ServiceDate.parse s = .ok d → ServiceDate.parse t = .ok e → (d < e ↔ s < t) := by
  refine ⟨⟨fun s => FeedId.exists_parse_iff, fun s f h => (FeedId.isTextual_of_parse h).1,
    fun f => ?_⟩, fun s => ServiceDate.exists_parse_iff,
    fun s d h => (ServiceDate.isTextual_of_parse h).1, fun d => ?_,
    fun s t d e => ServiceDate.lt_iff_of_parse⟩
  · rw [FeedId.parse_eq_ok_iff, and_iff_right rfl]
    exact ⟨fun h => ⟨h.agency_ne, h.no_colon, h.localId_ne⟩, fun h => ⟨h.1, h.2.1, h.2.2⟩⟩
  · rw [ServiceDate.parse_eq_ok_iff, and_iff_right rfl]
    rfl

/-- The last day of February 2024 is a day, and its text comes before that of the next one. Of the
two colons in an identifier the first one separates, so another one cannot be in the agency. -/
theorem spellings_exact_leapDay : ∃ leapDay march : ServiceDate,
    ServiceDate.parse "20240229" = .ok leapDay ∧ leapDay.text = "20240229" ∧
    ServiceDate.parse "20240301" = .ok march ∧ leapDay < march ∧ "20240229" < "20240301" ∧
    FeedId.IsSpelling "bus:stop:12" ∧
    FeedId.parse (FeedId.text ⟨"bus:stop", "12"⟩) ≠ .ok ⟨"bus:stop", "12"⟩ := by
  obtain ⟨⟨hid, -, hback⟩, -, htext, -, horder⟩ := spellings_exact
  have hleap : ServiceDate.parse "20240229" = .ok ⟨2024, 2, 29, by decide⟩ := rfl
  have hmarch : ServiceDate.parse "20240301" = .ok ⟨2024, 3, 1, by decide⟩ := rfl
  have hstop : FeedId.parse "bus:stop:12" = .ok ⟨"bus", "stop:12"⟩ := rfl
  have hlt : (⟨2024, 2, 29, by decide⟩ : ServiceDate) < ⟨2024, 3, 1, by decide⟩ := by decide
  refine ⟨_, _, hleap, htext _ _ hleap, hmarch, hlt, (horder _ _ _ _ hleap hmarch).mp hlt,
    (hid _).mp ⟨_, hstop⟩, fun h => ?_⟩
  exact ((hback _).mp h).2.1 (by decide)

end LiveTimetable
