import Eventide.Model.Prices

/-! # The order of times and of their texts

The texts that `isoformat` writes for instants in UTC are in the order of the instants, with or
without a fraction of a second. -/

namespace Eventide

/-! ## Dates -/

/-- The year of a day in an era of 400 years. -/
def yearOfEra (doe : ℤ) : ℤ := (doe - doe / 1460 + doe / 36524 - doe / 146096) / 365

/-- The days of an era before one of its years, from March on. -/
def daysBefore (yoe : ℤ) : ℤ := 365 * yoe + yoe / 4 - yoe / 100

theorem yearOfEra_mono {a b : ℤ} (h : a ≤ b) : yearOfEra a ≤ yearOfEra b := by
  have hleap : a - a / 1460 ≤ b - b / 1460 := by omega
  have hcentury : a / 36524 - a / 146096 ≤ b / 36524 - b / 146096 := by
    have hle : a / 36524 ≤ b / 36524 := Int.ediv_le_ediv (by decide) h
    have hquarter (n : ℤ) : n / 146096 = n / 36524 / 4 := by
      rw [Int.ediv_ediv_of_nonneg (by decide)]
      rfl
    rw [hquarter, hquarter]
    omega
  exact Int.ediv_le_ediv (by decide) (by omega)

theorem yearOfEra_range {a : ℤ} (h0 : 0 ≤ a) (h : a < 146097) :
    0 ≤ yearOfEra a ∧ yearOfEra a ≤ 399 := by
  simp only [yearOfEra]
  omega

/-- A year begins on its first day, and not before. -/
theorem yearOfEra_first : ∀ y : ℕ, y < 400 → 0 < y →
    yearOfEra (daysBefore y - 1) < y ∧ y ≤ yearOfEra (daysBefore y) := by
  decide +kernel

theorem dayOfYear_range {a : ℤ} (h0 : 0 ≤ a) (h : a < 146097) :
    0 ≤ a - daysBefore (yearOfEra a) ∧ a - daysBefore (yearOfEra a) ≤ 365 := by
  obtain ⟨hy0, hy⟩ := yearOfEra_range h0 h
  obtain ⟨y, hyear⟩ := Int.eq_ofNat_of_zero_le hy0
  rw [hyear] at hy ⊢
  have hstart : 0 ≤ daysBefore y ∧ daysBefore y ≤ 145731 := by
    simp only [daysBefore]
    omega
  have hlength : daysBefore (y + 1 : ℕ) ≤ daysBefore y + 366 := by
    simp only [daysBefore]
    omega
  constructor
  · by_contra hneg
    have hpos : 0 < y := by
      by_contra hzero
      obtain rfl : y = 0 := by omega
      have hnone : daysBefore ((0 : ℕ) : ℤ) = 0 := by decide
      omega
    have hbefore := (yearOfEra_first y (by omega) hpos).1
    have hmono := @yearOfEra_mono a (daysBefore y - 1) (by omega)
    omega
  · by_contra hlate
    have hlast : y ≠ 399 := by
      rintro rfl
      have hday : daysBefore ((399 : ℕ) : ℤ) = 145731 := by decide
      omega
    have hnext := (yearOfEra_first (y + 1) (by omega) (by omega)).2
    have hmono := @yearOfEra_mono (daysBefore (y + 1 : ℕ)) a (by omega)
    omega

/-- The month of a day of the year, from March on. -/
def monthOfYear (doy : ℤ) : ℤ := (5 * doy + 2) / 153

def dayOfMonth (doy : ℤ) : ℤ := doy - (153 * monthOfYear doy + 2) / 5 + 1

theorem monthOfYear_range {doy : ℤ} (h0 : 0 ≤ doy) (h : doy ≤ 365) :
    0 ≤ monthOfYear doy ∧ monthOfYear doy ≤ 11 := by
  simp only [monthOfYear]
  omega

theorem dayOfMonth_range (doy : ℤ) : 1 ≤ dayOfMonth doy ∧ dayOfMonth doy ≤ 31 := by
  simp only [dayOfMonth, monthOfYear]
  omega

theorem monthOfYear_lt {a b : ℤ} (h : a < b) : monthOfYear a < monthOfYear b ∨
    monthOfYear a = monthOfYear b ∧ dayOfMonth a < dayOfMonth b := by
  have hmono : monthOfYear a ≤ monthOfYear b := by
    simp only [monthOfYear]
    omega
  rcases hmono.lt_or_eq with hlt | heq
  · exact .inl hlt
  · refine .inr ⟨heq, ?_⟩
    rw [dayOfMonth, dayOfMonth, heq]
    omega

/-- The date in a year that begins in March. -/
def dateOf (year doy : ℤ) : ℤ × ℕ × ℕ :=
  (year + (if 10 ≤ monthOfYear doy then 1 else 0),
    (if monthOfYear doy < 10 then monthOfYear doy + 3 else monthOfYear doy - 9).toNat,
    (dayOfMonth doy).toNat)

theorem civilDate_eq (days : ℤ) : ∃ era doe : ℤ, days + 719468 = 146097 * era + doe ∧ 0 ≤ doe ∧
    doe < 146097 ∧
    civilDate days = dateOf (yearOfEra doe + era * 400) (doe - daysBefore (yearOfEra doe)) := by
  have hdoe := Int.emod_nonneg (days + 719468) (show (146097 : ℤ) ≠ 0 by decide)
  have hlt := Int.emod_lt_of_pos (days + 719468) (show (0 : ℤ) < 146097 by decide)
  refine ⟨(days + 719468) / 146097, (days + 719468) % 146097, by omega, hdoe, hlt, ?_⟩
  obtain ⟨hday, hday'⟩ := dayOfYear_range hdoe hlt
  obtain ⟨hmonth, hmonth'⟩ := monthOfYear_range hday hday'
  refine Prod.ext ?_ rfl
  -- January and February are the last months of the year that begins in March.
  have hearly (m : ℤ) (h0 : 0 ≤ m) (h : m ≤ 11) :
      (if (if m < 10 then m + 3 else m - 9) ≤ 2 then (1 : ℤ) else 0) = if 10 ≤ m then 1 else 0 := by
    split_ifs <;> omega
  exact congrArg (yearOfEra _ + _ * 400 + ·) (hearly _ hmonth hmonth')

/-- `(year, month, day)` in the order of tuples. -/
def DateLt (a b : ℤ × ℕ × ℕ) : Prop :=
  a.1 < b.1 ∨ a.1 = b.1 ∧ (a.2.1 < b.2.1 ∨ a.2.1 = b.2.1 ∧ a.2.2 < b.2.2)

theorem dateOf_lt {year doy year' doy' : ℤ} (h0 : 0 ≤ doy) (h : doy ≤ 365) (h0' : 0 ≤ doy')
    (h' : doy' ≤ 365) (hlt : year < year' ∨ year = year' ∧ doy < doy') :
    DateLt (dateOf year doy) (dateOf year' doy') := by
  have hm := monthOfYear_range h0 h
  have hm' := monthOfYear_range h0' h'
  have hd := dayOfMonth_range doy
  have hmonth := @monthOfYear_lt doy doy'
  simp only [DateLt, dateOf]
  generalize monthOfYear doy = m at *
  generalize monthOfYear doy' = m' at *
  generalize dayOfMonth doy = d at *
  generalize dayOfMonth doy' = d' at *
  split_ifs <;> omega

/-- A later day has a later date. -/
theorem civilDate_lt {a b : ℤ} (h : a < b) : DateLt (civilDate a) (civilDate b) := by
  obtain ⟨era, doe, hdays, hdoe, hdoe', heq⟩ := civilDate_eq a
  obtain ⟨era', doe', hdays', hdoe2, hdoe2', heq'⟩ := civilDate_eq b
  obtain ⟨hy0, hy⟩ := yearOfEra_range hdoe hdoe'
  obtain ⟨hy0', hy'⟩ := yearOfEra_range hdoe2 hdoe2'
  obtain ⟨hd0, hd⟩ := dayOfYear_range hdoe hdoe'
  obtain ⟨hd0', hd'⟩ := dayOfYear_range hdoe2 hdoe2'
  rw [heq, heq']
  apply dateOf_lt hd0 hd hd0' hd'
  rcases lt_or_eq_of_le (show era ≤ era' by omega) with hera | rfl
  · exact .inl (by omega)
  · have hmono := @yearOfEra_mono doe doe' (by omega)
    rcases hmono.lt_or_eq with hyear | hyear
    · exact .inl (by omega)
    · refine .inr ⟨by omega, ?_⟩
      rw [hyear]
      omega

theorem civilDate_range (days : ℤ) :
    (civilDate days).2.1 ≤ 12 ∧ (civilDate days).2.2 ≤ 31 := by
  obtain ⟨era, doe, -, hdoe, hdoe', heq⟩ := civilDate_eq days
  obtain ⟨hd0, hd⟩ := dayOfYear_range hdoe hdoe'
  have hm := monthOfYear_range hd0 hd
  have hday := dayOfMonth_range (doe - daysBefore (yearOfEra doe))
  rw [heq, dateOf]
  constructor
  · simp only
    split_ifs <;> omega
  · simp only
    omega

/-! ## Texts -/

theorem toList_pad (width n : ℕ) : (pad width n).toList = Digits.padded width n := by
  have hlength : (toString n).length = (Nat.toDigits 10 n).length := by
    rw [Nat.toString_eq_repr, Nat.repr_eq_ofList_toDigits, String.length_ofList]
  rw [pad, hlength, String.toList_append, String.toList_ofList, Nat.toString_eq_repr,
    Nat.toList_repr, Digits.padded]

/-- The numbers of a text, their widths and the marks after them. -/
def isoLayout : List (ℕ × List Char) :=
  [(4, ['-']), (2, ['-']), (2, ['T']), (2, [':']), (2, [':']), (2, [])]

def isoNumbers (micros : ℤ) : List ℕ :=
  let date := civilDate (micros / microsPerDay)
  let seconds := (micros % microsPerDay).toNat / 1000000
  [date.1.toNat, date.2.1, date.2.2, seconds / 3600, seconds / 60 % 60, seconds % 60]

def isoRest (fraction : ℕ) : List Char :=
  (if fraction = 0 then [] else '.' :: Digits.padded 6 fraction) ++ "+00:00".toList

theorem toList_isoformat (micros : ℤ) : (isoformat micros).toList =
    Digits.written isoLayout (isoNumbers micros)
      (isoRest ((micros % microsPerDay).toNat % 1000000)) := by
  simp only [isoformat, isoLayout, isoNumbers, isoRest, Digits.written, String.toList_append,
    toList_pad]
  split_ifs <;> simp [toList_pad]

/-- A sign is before a point. -/
theorem isoRest_lt {a b : ℕ} (h : a < b) (hb : b < 1000000) : isoRest a < isoRest b := by
  have hpoint : isoRest b = '.' :: (Digits.padded 6 b ++ "+00:00".toList) := by
    rw [isoRest, if_neg (by omega), List.cons_append]
  rw [hpoint]
  by_cases hzero : a = 0
  · subst hzero
    exact List.cons_lt_cons_iff.mpr (.inl (by decide))
  · rw [isoRest, if_neg hzero, List.cons_append]
    refine List.cons_lt_cons_iff.mpr (.inr ⟨rfl, ?_⟩)
    have hlength : (Digits.padded 6 a).length = (Digits.padded 6 b).length := by
      rw [Digits.length_padded (by omega) (by decide), Digits.length_padded hb (by decide)]
    refine Digits.append_lt_append hlength (Digits.lt_of_number_lt hlength
      (Digits.isDigit_padded _ _) (Digits.isDigit_padded _ _) ?_) _ _
    rwa [Digits.number_padded, Digits.number_padded]

theorem fits_isoNumbers {micros : ℤ} (h : OfDatetime micros) :
    Digits.Fits isoLayout (isoNumbers micros) := by
  obtain ⟨hmonth, hday⟩ := civilDate_range (micros / microsPerDay)
  have hlt := Int.emod_lt_of_pos micros (show 0 < microsPerDay by decide)
  have hunit : microsPerDay = 86400000000 := rfl
  obtain ⟨hyear0, hyear⟩ := h
  simp only [isoLayout, isoNumbers, Digits.Fits, hunit, and_true] at *
  omega

theorem isoNumbers_lt {a b : ℤ} (ha : OfDatetime a) (h : a < b) : isoNumbers a < isoNumbers b ∨
    isoNumbers a = isoNumbers b ∧
      (a % microsPerDay).toNat % 1000000 < (b % microsPerDay).toNat % 1000000 := by
  have hyear := ha.1
  have hmod := Int.emod_nonneg a (show microsPerDay ≠ 0 by decide)
  have hdiv := Int.mul_ediv_add_emod a microsPerDay
  have hdiv' := Int.mul_ediv_add_emod b microsPerDay
  rcases lt_or_ge (a / microsPerDay) (b / microsPerDay) with hday | hday
  · left
    have hdate := civilDate_lt hday
    simp only [isoNumbers, List.cons_lt_cons_iff]
    rcases hdate with hlt | ⟨heq, hlt | ⟨hmonth, hlt⟩⟩
    · exact .inl (by omega)
    · exact .inr ⟨by rw [heq], .inl hlt⟩
    · exact .inr ⟨by rw [heq], .inr ⟨hmonth, .inl hlt⟩⟩
  · have hle : a / microsPerDay ≤ b / microsPerDay := Int.ediv_le_ediv (by decide) h.le
    have hsame : a / microsPerDay = b / microsPerDay := le_antisymm hle hday
    rw [hsame] at hdiv
    have htime : (a % microsPerDay).toNat < (b % microsPerDay).toNat := by omega
    simp only [isoNumbers, List.cons_lt_cons_iff, hsame, lt_irrefl, true_and, false_or,
      List.cons.injEq, and_true, and_false, or_false]
    generalize (a % microsPerDay).toNat = time at *
    generalize (b % microsPerDay).toNat = time' at *
    omega

/-- The texts are in the order of the instants. -/
theorem isoformat_lt {a b : ℤ} (ha : OfDatetime a) (hb : OfDatetime b) (h : a < b) :
    isoformat a < isoformat b := by
  rw [String.lt_iff_toList_lt, toList_isoformat, toList_isoformat]
  rcases isoNumbers_lt ha h with hlt | ⟨heq, hlt⟩
  · exact Digits.written_lt (fits_isoNumbers ha) (fits_isoNumbers hb) hlt _ _
  · rw [heq]
    exact Digits.written_lt_rest _ _ (isoRest_lt hlt (Nat.mod_lt _ (by decide)))

theorem isoformat_lt_iff {a b : ℤ} (ha : OfDatetime a) (hb : OfDatetime b) :
    isoformat a < isoformat b ↔ a < b := by
  refine ⟨fun h => ?_, isoformat_lt ha hb⟩
  by_contra hnot
  rcases (not_lt.mp hnot).lt_or_eq with hlt | rfl
  · exact lt_asymm h (isoformat_lt hb ha hlt)
  · exact lt_irrefl _ h

end Eventide
