import LiveTimetable.FeedId
import LiveTimetable.Proofs.Calendar.Steps

/-!
# Texts of identifiers and dates are read back

Both texts are made of parts without anything around them, so what can go wrong is that a part
does not end where it should. An identifier ends its agency with the first colon: the text is read
back if the agency has none and both parts are there (`FeedId.IsTextual`). A date gives each part
a fixed width: the text is read back if the year fits its four places (`ServiceDate.IsTextual`).
-/

namespace LiveTimetable

/-! ## Identifiers -/

/-- Both parts of the identifier are there, and the first colon of its text is the separator. -/
structure FeedId.IsTextual (f : FeedId) : Prop where
  agency_ne : f.agency ≠ ""
  no_colon : ':' ∉ f.agency.toList
  localId_ne : f.localId ≠ ""

theorem FeedId.parse_text {f : FeedId} (h : f.IsTextual) : parse f.text = .ok f := by
  have shape : f.text.toList = f.agency.toList ++ ':' :: f.localId.toList := by
    simp [text, List.append_assoc]
  have before : ∀ c ∈ f.agency.toList, (c != ':') = true := by
    rintro c hc
    exact bne_iff_ne.mpr fun colon => h.no_colon (colon ▸ hc)
  have agency : f.agency.toList.isEmpty = false := by simpa using h.agency_ne
  have localId : f.localId.toList.isEmpty = false := by simpa using h.localId_ne
  simp [parse, shape, List.takeWhile_append_of_pos before, List.dropWhile_append_of_pos before,
    agency, localId]

/-! ## Dates -/

/-- The year has at most four digits and no sign. -/
def ServiceDate.IsTextual (d : ServiceDate) : Prop := 0 ≤ d.year ∧ d.year ≤ 9999

namespace Text

theorem zeroPadded_toList (width n : Nat) :
    (zeroPadded width n).toList
      = List.replicate (width - (Nat.toDigits 10 n).length) '0' ++ Nat.toDigits 10 n := by
  rw [zeroPadded, if_neg (Int.not_lt.mpr (Int.natCast_nonneg n)), padLeft, Int.natAbs_natCast,
    Nat.toString_eq_ofList_toDigits, String.toList_ofList, String.toList_ofList]

theorem length_zeroPadded (width n : Nat) (positive : 0 < width) (fits : n < Nat.pow 10 width) :
    (zeroPadded width n).toList.length = width := by
  have := (Nat.length_toDigits_le_iff (b := 10) (by decide) positive).mpr fits
  rw [zeroPadded_toList, List.length_append, List.length_replicate]
  omega

theorem isDigit_zeroPadded (width n : Nat) :
    (zeroPadded width n).toList.all Char.isDigit = true := by
  rw [zeroPadded_toList, List.all_append, Bool.and_eq_true]
  constructor
  · simp
  · exact List.all_eq_true.mpr fun c hc =>
      Nat.isDigit_of_mem_toDigits (b := 10) (by decide) (by decide) hc

theorem numeral_zeroPadded (width n : Nat) :
    ServiceDate.numeral (zeroPadded width n).toList = n := by
  have : ∀ cs, ServiceDate.numeral cs = Nat.ofDigitChars 10 cs 0 :=
    fun cs => Nat.ofDigitChars_eq_foldl.symm
  rw [this, zeroPadded_toList, Nat.ofDigitChars_append, Nat.ofDigitChars_replicate_zero,
    Nat.mul_zero, Nat.ofDigitChars_ten_toDigits]

end Text

theorem ServiceDate.parse_text {d : ServiceDate} (h : d.IsTextual) : parse d.text = .ok d := by
  obtain ⟨lo, hi⟩ := h
  obtain ⟨year, hy⟩ := Int.eq_ofNat_of_zero_le lo
  have hm := (month_mem d).2
  have hd : d.day ≤ 31 := Nat.le_trans d.isDay.2.2 (daysInMonth_mem d.year (month_mem d)).2
  have year4 : year < Nat.pow 10 4 := Nat.lt_of_le_of_lt (show year ≤ 9999 by omega) (by decide)
  have month2 : d.month < Nat.pow 10 2 := Nat.lt_of_le_of_lt hm (by decide)
  have day2 : d.day < Nat.pow 10 2 := Nat.lt_of_le_of_lt hd (by decide)
  have ly := Text.length_zeroPadded 4 year (by decide) year4
  have lm := Text.length_zeroPadded 2 d.month (by decide) month2
  have ld := Text.length_zeroPadded 2 d.day (by decide) day2
  have shape : d.text.toList = (Text.zeroPadded 4 year).toList
      ++ ((Text.zeroPadded 2 d.month).toList ++ (Text.zeroPadded 2 d.day).toList) := by
    rw [text, hy, String.toList_append, String.toList_append, List.append_assoc]
  have digits : d.text.toList.length = 8 ∧ d.text.toList.all Char.isDigit = true := by
    constructor
    · simp only [shape, List.length_append, ly, lm, ld]
    · simp only [shape, List.all_append, Text.isDigit_zeroPadded, Bool.and_self]
  have front : d.text.toList.take 4 = (Text.zeroPadded 4 year).toList := by
    rw [shape, List.take_left' ly]
  have middle : (d.text.toList.drop 4).take 2 = (Text.zeroPadded 2 d.month).toList := by
    rw [shape, List.drop_left' ly, List.take_left' lm]
  have back : d.text.toList.drop 6 = (Text.zeroPadded 2 d.day).toList := by
    rw [shape, ← List.append_assoc, List.drop_left' (by rw [List.length_append, ly, lm])]
  have named : ofYmd? year d.month d.day = some d := by
    rw [← hy]
    exact ofYmd?_of_isDay d.isDay
  rw [parse]
  simp only [digits, front, middle, back, Text.numeral_zeroPadded, and_self, if_true, named]

end LiveTimetable
