import Eventide.Library.Digits
import Mathlib.Algebra.Order.Field.Power
import Mathlib.Data.Rat.Defs
import Mathlib.Tactic.FieldSimp
import Mathlib.Tactic.Ring

/-! # Decimal arithmetic

Finite decimals with a sign, a coefficient and an exponent: their texts, and arithmetic in a context
that rounds to so many digits. -/

open Digits
open Nat (toDigits)

/-- A finite decimal. -/
structure Decimal where
  negative : Bool
  coefficient : ℕ
  exponent : ℤ
  deriving DecidableEq, Repr

namespace Decimal

def ofNat (n : ℕ) : Decimal := ⟨false, n, 0⟩

/-- The number that a decimal stands for. -/
def value (d : Decimal) : ℚ := (if d.negative then -1 else 1) * d.coefficient * 10 ^ d.exponent

/-- The digits of the coefficient. -/
def digits (d : Decimal) : List Char := toDigits 10 d.coefficient

/-! ## Texts -/

/-- `%+d`. -/
def signed (n : ℤ) : List Char := (if n < 0 then '-' else '+') :: toDigits 10 n.natAbs

/-- The exponent of a scientific string, unless it is zero. -/
def exponentText (n : ℤ) : List Char := if n = 0 then [] else 'E' :: signed n

/-- The scientific string. -/
def toText (d : Decimal) : List Char :=
  let left := d.exponent + d.digits.length
  let point := if d.exponent ≤ 0 ∧ -6 < left then left else 1
  let mantissa :=
    if point ≤ 0 then '0' :: '.' :: (List.replicate (-point).toNat '0' ++ d.digits)
    else if d.digits.length ≤ point then
      d.digits ++ List.replicate (point - d.digits.length).toNat '0'
    else d.digits.take point.toNat ++ '.' :: d.digits.drop point.toNat
  (if d.negative then ['-'] else []) ++ (mantissa ++ exponentText (left - point))

/-- The sign before a number, and what follows it. -/
def splitSign : List Char → Bool × List Char
  | '-' :: rest => (true, rest)
  | '+' :: rest => (false, rest)
  | rest => (false, rest)

/-- The digits of a mantissa: those before the point, those after it, and what follows. -/
def splitMantissa (text : List Char) : List Char × List Char × List Char :=
  let whole := text.takeWhile Char.isDigit
  match text.dropWhile Char.isDigit with
  | '.' :: rest => (whole, rest.takeWhile Char.isDigit, rest.dropWhile Char.isDigit)
  | rest => (whole, [], rest)

/-- An exponent with its mark, or nothing. -/
def readExponent : List Char → Option ℤ
  | [] => some 0
  | mark :: rest =>
    let (negative, digits) := splitSign rest
    if (mark = 'E' ∨ mark = 'e') ∧ digits ≠ [] ∧ digits.all Char.isDigit then
      some (if negative then -(number digits : ℤ) else number digits)
    else none

/-- The decimal of a numeric string that is finite. -/
def ofText (text : List Char) : Option Decimal :=
  let (negative, rest) := splitSign text
  let (whole, fraction, rest) := splitMantissa rest
  if whole ++ fraction = [] then none
  else (readExponent rest).map fun exponent =>
    ⟨negative, number (whole ++ fraction), exponent - fraction.length⟩

/-- A text that names an infinity or no number. -/
def isSpecial (text : List Char) : Bool :=
  let name := (splitSign text).2.map Char.toLower
  name = "inf".toList || name = "infinity".toList ||
    ("nan".toList.isPrefixOf name && (name.drop 3).all Char.isDigit) ||
    ("snan".toList.isPrefixOf name && (name.drop 4).all Char.isDigit)

/-! ## What is written is read back -/

theorem readExponent_exponentText (n : ℤ) : readExponent (exponentText n) = some n := by
  by_cases hzero : n = 0
  · subst hzero
    rfl
  · have hsign : splitSign (signed n) = (decide (n < 0), toDigits 10 n.natAbs) := by
      by_cases hneg : n < 0
      · simp [signed, splitSign, hneg]
      · simp [signed, splitSign, hneg]
    have hdigits : (toDigits 10 n.natAbs).all Char.isDigit = true :=
      List.all_eq_true.mpr (isDigit_toDigits _)
    simp only [exponentText, if_neg hzero, readExponent, hsign, hdigits, number_toDigits]
    simp only [true_or, ne_eq, Nat.toDigits_ne_nil, not_false_eq_true, and_self, if_true,
      Option.some.injEq, decide_eq_true_eq]
    split_ifs <;> omega

theorem dropWhile_exponentText (n : ℤ) :
    (exponentText n).dropWhile Char.isDigit = exponentText n ∧
      (exponentText n).takeWhile Char.isDigit = [] := by
  rw [exponentText]
  split_ifs <;> exact ⟨rfl, rfl⟩

theorem splitMantissa_point {whole fraction : List Char} (n : ℤ)
    (hwhole : ∀ c ∈ whole, c.isDigit = true) (hfraction : ∀ c ∈ fraction, c.isDigit = true) :
    splitMantissa (whole ++ '.' :: (fraction ++ exponentText n)) =
      (whole, fraction, exponentText n) := by
  obtain ⟨hdrop, htake⟩ := dropWhile_exponentText n
  have hpoint : ('.' :: (fraction ++ exponentText n)).takeWhile Char.isDigit = [] := rfl
  have hpoint' : ('.' :: (fraction ++ exponentText n)).dropWhile Char.isDigit =
      '.' :: (fraction ++ exponentText n) := rfl
  rw [splitMantissa, List.takeWhile_append_of_pos hwhole, List.dropWhile_append_of_pos hwhole,
    hpoint, hpoint']
  simp only [List.takeWhile_append_of_pos hfraction, List.dropWhile_append_of_pos hfraction, hdrop,
    htake, List.append_nil]

theorem splitMantissa_whole {whole : List Char} (n : ℤ)
    (hwhole : ∀ c ∈ whole, c.isDigit = true) :
    splitMantissa (whole ++ exponentText n) = (whole, [], exponentText n) := by
  obtain ⟨hdrop, htake⟩ := dropWhile_exponentText n
  rw [splitMantissa, List.takeWhile_append_of_pos hwhole, List.dropWhile_append_of_pos hwhole,
    hdrop, htake, List.append_nil]
  rw [exponentText]
  split_ifs <;> rfl

theorem splitSign_digits (negative : Bool) {whole : List Char} (rest : List Char)
    (hne : whole ≠ []) (hwhole : ∀ c ∈ whole, c.isDigit = true) :
    splitSign ((if negative then ['-'] else []) ++ (whole ++ rest)) = (negative, whole ++ rest) := by
  cases whole with
  | nil => exact absurd rfl hne
  | cons c whole =>
    have hdigit := hwhole c List.mem_cons_self
    cases negative with
    | true => rfl
    | false =>
      have hminus : c ≠ '-' := by
        rintro rfl
        cases hdigit
      have hplus : c ≠ '+' := by
        rintro rfl
        cases hdigit
      simp only [Bool.false_eq_true, if_false, List.nil_append, List.cons_append]
      exact splitSign.eq_3 _ (fun _ h => hminus (List.cons.inj h).1)
        fun _ h => hplus (List.cons.inj h).1

variable (negative : Bool) {whole fraction : List Char}

theorem ofText_point (n : ℤ) (hne : whole ≠ []) (hwhole : ∀ c ∈ whole, c.isDigit = true)
    (hfraction : ∀ c ∈ fraction, c.isDigit = true) :
    ofText ((if negative then ['-'] else []) ++ (whole ++ '.' :: (fraction ++ exponentText n))) =
      some ⟨negative, number (whole ++ fraction), n - fraction.length⟩ := by
  simp only [ofText, splitSign_digits negative _ hne hwhole, splitMantissa_point n hwhole hfraction,
    readExponent_exponentText, List.append_eq_nil_iff, hne, false_and, if_false, Option.map_some]

theorem ofText_whole (n : ℤ) (hne : whole ≠ []) (hwhole : ∀ c ∈ whole, c.isDigit = true) :
    ofText ((if negative then ['-'] else []) ++ (whole ++ exponentText n)) =
      some ⟨negative, number whole, n⟩ := by
  simp only [ofText, splitSign_digits negative _ hne hwhole, splitMantissa_whole n hwhole,
    readExponent_exponentText, List.append_nil, hne, if_false, Option.map_some, List.length_nil,
    Nat.cast_zero, sub_zero]

/-- A scientific string is read back as the decimal. -/
theorem ofText_toText (d : Decimal) : ofText d.toText = some d := by
  have hdigits : ∀ c ∈ d.digits, c.isDigit = true := isDigit_toDigits _
  have hnumber : number d.digits = d.coefficient := number_toDigits _
  have hlength : 0 < d.digits.length := Nat.length_toDigits_pos
  have hne : d.digits ≠ [] := List.ne_nil_of_length_pos hlength
  obtain ⟨point, hpoint⟩ : ∃ point : ℤ, point =
      if d.exponent ≤ 0 ∧ -6 < d.exponent + d.digits.length then
        d.exponent + d.digits.length else 1 := ⟨_, rfl⟩
  rw [toText]
  simp only [← hpoint]
  by_cases hsmall : point ≤ 0
  · have hleft : point = d.exponent + d.digits.length := by
      rw [hpoint] at hsmall ⊢
      split_ifs at hsmall ⊢ <;> omega
    have hzeros : ∀ c ∈ List.replicate (-point).toNat '0' ++ d.digits, c.isDigit = true := by
      intro c hc
      rcases List.mem_append.mp hc with hc | hc
      · obtain rfl := List.eq_of_mem_replicate hc
        rfl
      · exact hdigits c hc
    have hread := ofText_point d.negative (d.exponent + d.digits.length - point)
      (List.cons_ne_nil '0' []) (List.forall_mem_singleton.mpr rfl) hzeros
    rw [if_pos hsmall]
    refine hread.trans (congrArg some ?_)
    have hvalue : number (['0'] ++ (List.replicate (-point).toNat '0' ++ d.digits)) =
        d.coefficient := by
      rw [← hnumber]
      exact number_zeros ((-point).toNat + 1) d.digits
    rw [hvalue, List.length_append, List.length_replicate]
    obtain ⟨negative, coefficient, exponent⟩ := d
    simp only [Decimal.mk.injEq, true_and] at hleft ⊢
    omega
  · rw [if_neg hsmall]
    by_cases hlong : (d.digits.length : ℤ) ≤ point
    · have hexponent : d.exponent + d.digits.length - point = d.exponent ∧
          (point - d.digits.length).toNat = 0 := by
        rw [hpoint] at hlong ⊢
        split_ifs at hlong ⊢ <;> omega
      rw [if_pos hlong, hexponent.1, hexponent.2, List.replicate_zero, List.append_nil,
        ofText_whole d.negative _ hne hdigits, hnumber]
    · have hpos : 0 < point.toNat := by omega
      have htake : d.digits.take point.toNat ≠ [] := by
        apply List.ne_nil_of_length_pos
        rw [List.length_take]
        omega
      rw [if_neg hlong, List.append_assoc, List.cons_append,
        ofText_point d.negative _ htake (fun c hc => hdigits c (List.mem_of_mem_take hc))
          (fun c hc => hdigits c (List.mem_of_mem_drop hc)),
        List.take_append_drop, hnumber, List.length_drop]
      obtain ⟨negative, coefficient, exponent⟩ := d
      simp only [Option.some.injEq, Decimal.mk.injEq, true_and] at hlong ⊢
      omega

/-! ## Arithmetic in a context -/

/-- So many digits, and the exponents that a rounded number may have. -/
structure Context where
  precision : ℕ
  emin : ℤ
  emax : ℤ

def Context.etiny (context : Context) : ℤ := context.emin - context.precision + 1

def Context.etop (context : Context) : ℤ := context.emax - context.precision + 1

/-- `n / m`, to the nearest, a tie to the even one. -/
def roundHalfEven (n m : ℕ) : ℕ :=
  if m < 2 * (n % m) ∨ (m = 2 * (n % m) ∧ (n / m) % 2 = 1) then n / m + 1 else n / m

/-- A result in a context; none if it overflows. -/
def finish (context : Context) (d : Decimal) : Option Decimal :=
  if d.coefficient = 0 then
    some { d with exponent := min (max d.exponent context.etiny) context.emax }
  else
    let least := d.exponent + d.digits.length - context.precision
    if context.etop < least then none
    else
      let least := max least context.etiny
      if least ≤ d.exponent then some d
      else
        let rounded := roundHalfEven d.coefficient (10 ^ (least - d.exponent).toNat)
        if rounded < 10 ^ context.precision then
          some { d with coefficient := rounded, exponent := least }
        else if context.etop < least + 1 then none
        else some { d with coefficient := rounded / 10, exponent := least + 1 }

def mul (context : Context) (a b : Decimal) : Option Decimal :=
  finish context ⟨a.negative != b.negative, a.coefficient * b.coefficient, a.exponent + b.exponent⟩

/-- Without the zeros at its end, at most so many; and how many of these there are not. -/
def stripZeros (n : ℕ) : ℕ → ℕ × ℕ
  | 0 => (n, 0)
  | limit + 1 => if n % 10 = 0 then stripZeros (n / 10) limit else (n, limit + 1)

/-- The quotient of two coefficients, with as many digits more or less. -/
def divShifted (context : Context) (negative : Bool) (ideal : ℤ) (a b : ℕ) (shift : ℤ) :
    Option Decimal :=
  let dividend := a * 10 ^ shift.toNat
  let divisor := b * 10 ^ (-shift).toNat
  let quotient := dividend / divisor
  if dividend % divisor = 0 then
    let stripped := stripZeros quotient shift.toNat
    finish context ⟨negative, stripped.1, ideal - shift + (shift.toNat - stripped.2 : ℕ)⟩
  else
    -- One more digit tells the rounding that something was left.
    finish context ⟨negative, if quotient % 5 = 0 then quotient + 1 else quotient, ideal - shift⟩

/-- A quotient, of a divisor that is not zero. -/
def div (context : Context) (a b : Decimal) : Option Decimal :=
  let negative := a.negative != b.negative
  let ideal := a.exponent - b.exponent
  if a.coefficient = 0 then finish context ⟨negative, 0, ideal⟩
  else divShifted context negative ideal a.coefficient b.coefficient
    (b.digits.length - a.digits.length + context.precision + 1)

/-- The coefficient with the exponent that is not greater than its own. -/
def scaled (d : Decimal) (exponent : ℤ) : ℤ :=
  (if d.negative then -1 else 1) * (d.coefficient * 10 ^ (d.exponent - exponent).toNat : ℕ)

def add (context : Context) (a b : Decimal) : Option Decimal :=
  let exponent := min a.exponent b.exponent
  let sum := a.scaled exponent + b.scaled exponent
  finish context ⟨if sum = 0 then a.negative && b.negative else sum < 0, sum.natAbs, exponent⟩

/-! ## What a context leaves -/

theorem length_digits_le {d : Decimal} {n : ℕ} (hn : 0 < n) (h : d.coefficient < 10 ^ n) :
    d.digits.length ≤ n := (Nat.length_toDigits_le_iff (by decide) hn).mpr h

theorem coefficient_lt (d : Decimal) : d.coefficient < 10 ^ d.digits.length :=
  (Nat.length_toDigits_le_iff (by decide) Nat.length_toDigits_pos).mp le_rfl

/-- A coefficient that loses all digits but so many is at most the next power. -/
theorem roundHalfEven_le {n digits kept lost : ℕ} (h : n < 10 ^ digits)
    (hkept : digits ≤ kept + lost) : roundHalfEven n (10 ^ lost) ≤ 10 ^ kept := by
  have hlt : n / 10 ^ lost < 10 ^ kept := by
    apply Nat.div_lt_of_lt_mul
    rw [← Nat.pow_add, Nat.add_comm]
    exact lt_of_lt_of_le h (Nat.pow_le_pow_right (by decide) hkept)
  rw [roundHalfEven]
  split_ifs <;> omega

/-- A result has an exponent of the context. -/
theorem finish_range {context : Context} {d result : Decimal} (hp : 0 < context.precision)
    (hmin : context.emin ≤ context.emax) (h : finish context d = some result) :
    context.etiny ≤ result.exponent ∧
      result.exponent + result.digits.length - 1 ≤ context.emax := by
  have hetiny : context.etiny = context.emin - context.precision + 1 := rfl
  have hetop : context.etop = context.emax - context.precision + 1 := rfl
  rw [finish] at h
  by_cases hzero : d.coefficient = 0
  · rw [if_pos hzero] at h
    obtain rfl := Option.some.inj h
    have hlength : (toDigits 10 d.coefficient).length = 1 := by rw [hzero]; rfl
    simp only [digits, hlength]
    omega
  · simp only [if_neg hzero] at h
    by_cases hover : context.etop < d.exponent + d.digits.length - context.precision
    · rw [if_pos hover] at h
      cases h
    · rw [if_neg hover] at h
      by_cases hfits : max (d.exponent + d.digits.length - context.precision) context.etiny ≤
          d.exponent
      · rw [if_pos hfits] at h
        obtain rfl := Option.some.inj h
        omega
      · rw [if_neg hfits] at h
        split_ifs at h with hrounded htop
        · have hresult := Option.some.inj h
          have hlength : result.digits.length ≤ context.precision := by
            rw [← hresult]
            exact length_digits_le hp hrounded
          have hexponent := congrArg Decimal.exponent hresult
          simp only at hexponent
          omega
        · have hresult := Option.some.inj h
          have hle := @roundHalfEven_le _ _ context.precision (max (d.exponent + d.digits.length -
            context.precision) context.etiny - d.exponent).toNat d.coefficient_lt (by omega)
          have hlast : 10 ^ context.precision / 10 < 10 ^ context.precision :=
            Nat.div_lt_self (Nat.pow_pos (by decide)) (by decide)
          have hlength : result.digits.length ≤ context.precision := by
            rw [← hresult]
            exact length_digits_le hp (lt_of_le_of_lt (Nat.div_le_div_right hle) hlast)
          have hexponent := congrArg Decimal.exponent hresult
          simp only at hexponent
          omega

theorem div_range {context : Context} {a b result : Decimal} (hp : 0 < context.precision)
    (hmin : context.emin ≤ context.emax) (h : div context a b = some result) :
    context.etiny ≤ result.exponent ∧
      result.exponent + result.digits.length - 1 ≤ context.emax := by
  simp only [div, divShifted] at h
  split_ifs at h <;> exact finish_range hp hmin h

/-! ## Exact results -/

theorem value_zero {d : Decimal} (h : d.coefficient = 0) : d.value = 0 := by
  rw [value, h, Nat.cast_zero, mul_zero, zero_mul]

/-- A coefficient that has room is not rounded. -/
theorem finish_exact {context : Context} {d : Decimal} (hp : 0 < context.precision)
    (h : d.coefficient < 10 ^ context.precision)
    (hexponent : d.coefficient ≠ 0 → context.etiny ≤ d.exponent ∧ d.exponent ≤ context.etop) :
    ∃ result, finish context d = some result ∧ result.value = d.value ∧
      result.coefficient = d.coefficient ∧
      (d.coefficient ≠ 0 → result.exponent = d.exponent) := by
  rw [finish]
  by_cases hzero : d.coefficient = 0
  · rw [if_pos hzero]
    refine ⟨_, rfl, ?_, rfl, fun hne => absurd hzero hne⟩
    rw [value_zero hzero]
    exact value_zero hzero
  · obtain ⟨htiny, htop⟩ := hexponent hzero
    have hlength := length_digits_le hp h
    simp only [if_neg hzero]
    rw [if_neg (by omega), if_pos (by omega)]
    exact ⟨d, rfl, rfl, rfl, fun _ => rfl⟩

theorem value_mul (a b : Decimal) :
    value ⟨a.negative != b.negative, a.coefficient * b.coefficient, a.exponent + b.exponent⟩ =
      a.value * b.value := by
  simp only [value, zpow_add₀ (show (10 : ℚ) ≠ 0 by norm_num), Nat.cast_mul]
  cases a.negative <;> cases b.negative <;> simp <;> ring

theorem mul_exact {context : Context} {a b : Decimal} (hp : 0 < context.precision)
    (h : a.coefficient * b.coefficient < 10 ^ context.precision)
    (hexponent : a.coefficient * b.coefficient ≠ 0 →
      context.etiny ≤ a.exponent + b.exponent ∧ a.exponent + b.exponent ≤ context.etop) :
    ∃ result, mul context a b = some result ∧ result.value = a.value * b.value ∧
      result.coefficient = a.coefficient * b.coefficient ∧
      (result.coefficient ≠ 0 → result.exponent = a.exponent + b.exponent) := by
  obtain ⟨result, hresult, hvalue, hcoefficient, hexp⟩ :=
    finish_exact (d := ⟨a.negative != b.negative, _, _⟩) hp h hexponent
  refine ⟨result, hresult, hvalue.trans (value_mul a b), hcoefficient, fun hne => hexp ?_⟩
  rwa [hcoefficient] at hne

/-- The zeros that are certainly there are stripped. -/
theorem stripZeros_mul (n zeros limit : ℕ) :
    stripZeros (n * 10 ^ zeros) (zeros + limit) = stripZeros n limit := by
  induction zeros with
  | zero => rw [Nat.pow_zero, Nat.mul_one, Nat.zero_add]
  | succ zeros ih =>
    have hlimit : zeros + 1 + limit = (zeros + limit) + 1 := by omega
    have hpower : n * 10 ^ (zeros + 1) = n * 10 ^ zeros * 10 := by rw [Nat.pow_succ, Nat.mul_assoc]
    rw [hlimit, hpower, stripZeros, if_pos (Nat.mul_mod_left _ _),
      Nat.mul_div_cancel _ (by decide), ih]

theorem stripZeros_spec (n limit : ℕ) : (stripZeros n limit).2 ≤ limit ∧
    (stripZeros n limit).1 * 10 ^ (limit - (stripZeros n limit).2) = n := by
  induction limit generalizing n with
  | zero => simp [stripZeros]
  | succ limit ih =>
    rw [stripZeros]
    split_ifs with hzero
    · obtain ⟨hle, hvalue⟩ := ih (n / 10)
      have hlimit : limit + 1 - (stripZeros (n / 10) limit).2 =
          limit - (stripZeros (n / 10) limit).2 + 1 := by omega
      refine ⟨by omega, ?_⟩
      rw [hlimit, Nat.pow_succ, ← Nat.mul_assoc, hvalue]
      omega
    · simp

theorem length_digits_pow (k : ℕ) : (ofNat (10 ^ k)).digits.length = k + 1 := by
  apply le_antisymm
  · exact length_digits_le (by omega) (Nat.pow_lt_pow_right (by decide) (by omega))
  · by_contra hless
    rcases Nat.eq_zero_or_pos k with rfl | hk
    · exact hless Nat.length_toDigits_pos
    · have hle : (toDigits 10 (10 ^ k)).length ≤ k := Nat.lt_succ_iff.mp (not_le.mp hless)
      exact lt_irrefl _ ((Nat.length_toDigits_le_iff (by decide) hk).mp hle)

/-- Dividing by a power of ten moves the exponent, when all the zeros are there. -/
theorem divShifted_pow {context : Context} (negative : Bool) (ideal : ℤ) (a : ℕ) {k shift : ℕ}
    (hk : k < shift) : ∃ coefficient rest : ℕ, rest ≤ k ∧ coefficient * 10 ^ (k - rest) = a ∧
      divShifted context negative ideal a (10 ^ k) shift =
        finish context ⟨negative, coefficient, ideal - rest⟩ := by
  have hquotient : a * 10 ^ shift = a * 10 ^ (shift - k) * 10 ^ k := by
    rw [Nat.mul_assoc, ← Nat.pow_add, Nat.sub_add_cancel hk.le]
  have hpos : 0 < 10 ^ k := Nat.pow_pos (by decide)
  have hstrip := stripZeros_mul a (shift - k) k
  rw [Nat.sub_add_cancel hk.le] at hstrip
  obtain ⟨hle, hvalue⟩ := stripZeros_spec a k
  have hneg : (-(shift : ℤ)).toNat = 0 := by omega
  have hexact : ideal - shift + ((shift - (stripZeros a k).2 : ℕ) : ℤ) =
      ideal - (stripZeros a k).2 := by omega
  refine ⟨(stripZeros a k).1, (stripZeros a k).2, hle, hvalue, ?_⟩
  simp only [divShifted, Int.toNat_natCast, hneg, Nat.pow_zero, Nat.mul_one, hquotient,
    Nat.mul_mod_left, if_true, Nat.mul_div_cancel _ hpos, hstrip, hexact]

/-- Dividing by a power of ten that has room is exact. -/
theorem div_exact {context : Context} {a : Decimal} {k : ℕ} (hp : k < context.precision)
    (h : a.coefficient < 10 ^ context.precision)
    (hexponent : a.coefficient ≠ 0 →
      context.etiny + k ≤ a.exponent ∧ a.exponent ≤ context.etop) :
    ∃ result, div context a (ofNat (10 ^ k)) = some result ∧
      result.value = a.value / 10 ^ k := by
  have hlength := length_digits_le (by omega) h
  rw [div]
  by_cases hzero : a.coefficient = 0
  · obtain ⟨result, hresult, -, hcoefficient, -⟩ := @finish_exact context
      ⟨a.negative != (ofNat (10 ^ k)).negative, 0, a.exponent - (ofNat (10 ^ k)).exponent⟩
      (by omega) (Nat.pow_pos (by decide)) (fun hne => absurd rfl hne)
    simp only [if_pos hzero]
    refine ⟨result, hresult, ?_⟩
    rw [value_zero hcoefficient, value_zero hzero, zero_div]
  · obtain ⟨htiny, htop⟩ := hexponent hzero
    have hshift : ((k + 2 + (context.precision - a.digits.length) : ℕ) : ℤ) =
        (ofNat (10 ^ k)).digits.length - a.digits.length + context.precision + 1 := by
      rw [length_digits_pow]
      omega
    obtain ⟨coefficient, rest, hrest, hvalue, hdiv⟩ := @divShifted_pow context
      (a.negative != (ofNat (10 ^ k)).negative) (a.exponent - (ofNat (10 ^ k)).exponent)
      a.coefficient k (k + 2 + (context.precision - a.digits.length)) (by omega)
    rw [hshift] at hdiv
    have hcoefficient : coefficient ≤ a.coefficient := by
      rw [← hvalue]
      exact Nat.le_mul_of_pos_right _ (Nat.pow_pos (by decide))
    have hideal : a.exponent - (ofNat (10 ^ k)).exponent = a.exponent := sub_zero _
    rw [hideal] at hdiv
    obtain ⟨result, hfinish, hsame, -, -⟩ := @finish_exact context
      ⟨a.negative != (ofNat (10 ^ k)).negative, coefficient, a.exponent - rest⟩ (by omega)
      (lt_of_le_of_lt hcoefficient h) (fun _ => ⟨by simp only; omega, by simp only; omega⟩)
    simp only [if_neg hzero, hideal]
    refine ⟨result, hdiv.trans hfinish, hsame.trans ?_⟩
    have hten : (10 : ℚ) ≠ 0 := by norm_num
    have hcast : (a.coefficient : ℚ) = coefficient * 10 ^ (k - rest) := by
      rw [← hvalue]
      push_cast
      rfl
    have hpower : (10 : ℚ) ^ (a.exponent - rest) =
        10 ^ (k - rest) * 10 ^ a.exponent / 10 ^ k := by
      rw [eq_div_iff (pow_ne_zero _ hten), ← zpow_natCast, ← zpow_natCast, ← zpow_add₀ hten,
        ← zpow_add₀ hten]
      congr 1
      omega
    have hsign : (a.negative != (ofNat (10 ^ k)).negative) = a.negative := Bool.bne_false _
    rw [value, value, hcast, hpower, hsign]
    ring

end Decimal
