import Eventide.Model.Prices
import Mathlib.Tactic.NormNum

/-! # Amounts

A decimal that is written is read back, and the amount of a line is exact within the digits of the
context. -/

namespace Eventide

open Outcome RuntimeStore
open Nat (toDigits)

/-! ## Decimal strings -/

/-- The characters of a scientific string. -/
def Scientific (c : Char) : Prop := c.isDigit = true ∨ c ∈ ['-', '+', '.', 'E']

theorem scientific_signed (n : ℤ) : ∀ c ∈ Decimal.signed n, Scientific c := by
  intro c hc
  rcases List.mem_cons.mp hc with rfl | hc
  · right
    split_ifs <;> decide
  · exact .inl (Digits.isDigit_toDigits _ c hc)

theorem scientific_toText (d : Decimal) : ∀ c ∈ d.toText, Scientific c := by
  have hdigits : ∀ c ∈ d.digits, Scientific c := fun c hc => .inl (Digits.isDigit_toDigits _ c hc)
  have hzeros (n : ℕ) : ∀ c ∈ List.replicate n '0', Scientific c := fun c hc =>
    .inl (by rw [List.eq_of_mem_replicate hc]; rfl)
  have hexponent (n : ℤ) : ∀ c ∈ Decimal.exponentText n, Scientific c := by
    intro c hc
    rw [Decimal.exponentText] at hc
    split at hc
    · cases hc
    · rcases List.mem_cons.mp hc with rfl | hc
      · exact .inr (by decide)
      · exact scientific_signed _ c hc
  intro c hc
  rw [Decimal.toText] at hc
  simp only [List.mem_append] at hc
  generalize (if d.exponent ≤ 0 ∧ -6 < d.exponent + d.digits.length then
    d.exponent + d.digits.length else 1 : ℤ) = point at hc
  rcases hc with hc | hc | hc
  · split at hc
    · exact .inr (by simp [List.mem_singleton.mp hc])
    · cases hc
  · split_ifs at hc
    all_goals simp only [List.mem_cons, List.mem_append] at hc
    · rcases hc with rfl | rfl | hc | hc
      · exact .inl rfl
      · exact .inr (by decide)
      · exact hzeros _ c hc
      · exact hdigits c hc
    · exact hc.elim (hdigits c) (hzeros _ c)
    · rcases hc with hc | rfl | hc
      · exact hdigits c (List.mem_of_mem_take hc)
      · exact .inr (by decide)
      · exact hdigits c (List.mem_of_mem_drop hc)
  · exact hexponent _ c hc

/-- A character that Python leaves as it is. -/
theorem scientific_plain {c : Char} (h : Scientific c) :
    isSpace c = false ∧ c ≠ '_' ∧ asciiDigit c = c := by
  have hrange : 43 ≤ c.toNat ∧ c.toNat < 70 ∧ c ≠ '_' := by
    rcases h with h | h
    · have hdigit := Digits.isDigit_iff.mp h
      refine ⟨by omega, by omega, ?_⟩
      rintro rfl
      cases h
    · simp only [List.mem_cons, List.not_mem_nil, or_false] at h
      rcases h with rfl | rfl | rfl | rfl <;> decide
  obtain ⟨hlow, hhigh, hmark⟩ := hrange
  refine ⟨?_, hmark, if_pos (by omega)⟩
  simp only [isSpace, List.mem_cons, List.not_mem_nil, or_false, decide_eq_false_iff_not]
  omega

theorem dropWhile_isSpace {cs : List Char} (h : ∀ c ∈ cs, isSpace c = false) :
    cs.dropWhile isSpace = cs := by
  cases cs with
  | nil => rfl
  | cons c cs => rw [List.dropWhile_cons, h c List.mem_cons_self]; rfl

theorem numericText_decimalText (d : Decimal) : numericText (decimalText d) = d.toText := by
  have hplain : ∀ c ∈ d.toText, isSpace c = false ∧ c ≠ '_' ∧ asciiDigit c = c := fun c hc =>
    scientific_plain (scientific_toText d c hc)
  have hspace : ∀ c ∈ d.toText, isSpace c = false := fun c hc => (hplain c hc).1
  have hstrip : (strip (decimalText d)).toList = d.toText := by
    rw [strip, decimalText, String.toList_ofList, String.toList_ofList, dropWhile_isSpace hspace,
      dropWhile_isSpace (fun c hc => hspace c (List.mem_reverse.mp hc)), List.reverse_reverse]
  have hfilter : d.toText.filter (· ≠ '_') = d.toText := by
    apply List.filter_eq_self.mpr
    intro c hc
    exact decide_eq_true (hplain c hc).2.1
  rw [numericText, hstrip, hfilter]
  exact (List.map_congr_left fun c hc => (hplain c hc).2.2).trans (List.map_id _)

/-- `Decimal(str(d))` is `d`. -/
theorem parseDecimal_decimalText {d : Decimal} (h : readable d = true) :
    parseDecimal (decimalText d) = some (.finite d) := by
  simp only [parseDecimal, numericText_decimalText, Decimal.ofText_toText, h, if_true]

theorem readable_of_parseDecimal {text : String} {d : Decimal}
    (h : parseDecimal text = some (.finite d)) : readable d = true := by
  unfold parseDecimal at h
  split at h
  · split_ifs at h with hreadable
    obtain rfl := ParsedDecimal.finite.inj (Option.some.inj h)
    exact hreadable
  · split_ifs at h
    cases Option.some.inj h

/-! ## Prices -/

/-- What a registered price is. -/
structure ValidPrice (d : Decimal) : Prop where
  readable : Eventide.readable d = true
  nonneg : 0 ≤ d.value
  le : d.value ≤ 1000000000000
  exponent : -18 ≤ d.exponent

theorem readPrice_valid {text : String} {d : Decimal} (h : readPrice text = .ok d) :
    ValidPrice d := by
  unfold readPrice at h
  split at h
  · cases h
  · cases h
  · rename_i price hparse
    simp only [bind_eq_ok, raiseIf_eq_ok, pure_eq_ok, Except.ok.injEq, not_or, not_lt] at h
    obtain ⟨_, hvalue, _, hexponent, rfl⟩ := h
    exact ⟨readable_of_parseDecimal hparse, hvalue.1, hvalue.2, hexponent⟩

/-- A price that is not zero has at most 31 digits and a small exponent. -/
theorem ValidPrice.bounds {d : Decimal} (h : ValidPrice d) (hne : d.coefficient ≠ 0) :
    d.coefficient ≤ 10 ^ 30 ∧ d.exponent ≤ 12 := by
  have hpos : (0 : ℚ) < d.coefficient := by exact_mod_cast Nat.pos_of_ne_zero hne
  have hone : (1 : ℚ) ≤ d.coefficient := by exact_mod_cast Nat.pos_of_ne_zero hne
  have hten : (1 : ℚ) < 10 := by norm_num
  have hpower : (0 : ℚ) < 10 ^ d.exponent := zpow_pos (by norm_num) _
  have hsign : d.negative = false := by
    by_contra hneg
    have hvalue := h.nonneg
    rw [Bool.not_eq_false] at hneg
    rw [Decimal.value, hneg, if_pos rfl] at hvalue
    nlinarith [mul_pos hpos hpower]
  have hvalue : d.coefficient * (10 : ℚ) ^ d.exponent ≤ 10 ^ (12 : ℤ) := by
    have hle := h.le
    rw [Decimal.value, hsign, if_neg (by decide), one_mul] at hle
    exact hle.trans (by norm_num)
  constructor
  · have hscale : (10 : ℚ) ^ (-18 : ℤ) ≤ 10 ^ d.exponent := zpow_le_zpow_right₀ hten.le h.exponent
    have hle : (d.coefficient : ℚ) * 10 ^ (-18 : ℤ) ≤ 10 ^ (12 : ℤ) :=
      (mul_le_mul_of_nonneg_left hscale hpos.le).trans hvalue
    have hcast : (d.coefficient : ℚ) ≤ 10 ^ 30 := by
      have hsplit : (10 : ℚ) ^ 30 * 10 ^ (-18 : ℤ) = 10 ^ (12 : ℤ) := by norm_num
      rw [← hsplit] at hle
      exact le_of_mul_le_mul_right hle (zpow_pos (by norm_num) _)
    exact_mod_cast hcast
  · have hle : (10 : ℚ) ^ d.exponent ≤ 10 ^ (12 : ℤ) :=
      (le_mul_of_one_le_left hpower.le hone).trans hvalue
    exact (zpow_le_zpow_iff_right₀ hten).mp hle

/-! ## Amounts -/

theorem value_ofNat (n : ℕ) : (Decimal.ofNat n).value = n := by
  simp [Decimal.value, Decimal.ofNat]

theorem lineAmount_readable {price : String} {quantity : ℕ} {amount : Decimal}
    (h : lineAmount price quantity = .ok amount) : readable amount = true := by
  unfold lineAmount at h
  split at h
  · split at h
    · rename_i result hresult
      obtain rfl := Except.ok.inj h
      obtain ⟨product, -, hdiv⟩ := Option.bind_eq_some_iff.mp hresult
      obtain ⟨htiny, hmax⟩ := Decimal.div_range (by decide) (by decide) hdiv
      have hetiny : feeContext.etiny = -1000048 := rfl
      have hemax : feeContext.emax = 999999 := rfl
      simp only [readable, decide_eq_true_eq]
      omega
    · cases h
  · cases h

/-- The amount is the price times the quantity, in millions. -/
theorem lineAmount_exact {price : Decimal} (h : ValidPrice price) {quantity : ℕ}
    (hquantity : quantity < 10 ^ 19) :
    ∃ amount, lineAmount (decimalText price) quantity = .ok amount ∧
      amount.value = price.value * quantity / 10 ^ 6 := by
  have hetiny : feeContext.etiny = -1000048 := rfl
  have hetop : feeContext.etop = 999950 := rfl
  have hprecision : feeContext.precision = 50 := rfl
  have hroom : price.coefficient * (Decimal.ofNat quantity).coefficient < 10 ^ 50 := by
    by_cases hzero : price.coefficient = 0
    · rw [hzero, Nat.zero_mul]
      exact Nat.pow_pos (by decide)
    · have hle := (h.bounds hzero).1
      calc price.coefficient * quantity ≤ 10 ^ 30 * 10 ^ 19 := Nat.mul_le_mul hle hquantity.le
        _ < 10 ^ 50 := by norm_num
  have hne (hproduct : price.coefficient * (Decimal.ofNat quantity).coefficient ≠ 0) :
      -18 ≤ price.exponent + (Decimal.ofNat quantity).exponent ∧
        price.exponent + (Decimal.ofNat quantity).exponent ≤ 12 := by
    have hexponent : (Decimal.ofNat quantity).exponent = 0 := rfl
    have hbounds := h.bounds (left_ne_zero_of_mul hproduct)
    have hlow := h.exponent
    omega
  obtain ⟨product, hproduct, hvalue, hcoefficient, hexponent⟩ :=
    @Decimal.mul_exact feeContext price (.ofNat quantity) (by decide) hroom fun hp => by
      have hbounds := hne hp
      omega
  obtain ⟨amount, hamount, hquotient⟩ := @Decimal.div_exact feeContext product 6 (by decide)
    (by rw [hcoefficient]; exact hroom) fun hp => by
      rw [hexponent hp]
      rw [hcoefficient] at hp
      have hbounds := hne hp
      omega
  refine ⟨amount, ?_, by rw [hquotient, hvalue, value_ofNat]⟩
  simp only [lineAmount, parseDecimal_decimalText h.readable, hproduct, Option.bind_some, hamount]

end Eventide
