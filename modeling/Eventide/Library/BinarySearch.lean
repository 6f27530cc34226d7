import Mathlib.Tactic.Common

/-! # The greatest number that passes a test

A binary search between two bounds, the lower of which passes. -/

namespace BinarySearch

/-- `while lower < upper: …`, with the middle rounded up. -/
def greatest (fits : ℕ → Bool) (lower upper : ℕ) : ℕ :=
  if lower < upper then
    let middle := (lower + upper + 1) / 2
    if fits middle then greatest fits middle upper else greatest fits lower (middle - 1)
  else lower
termination_by upper - lower

variable {fits : ℕ → Bool} {lower upper : ℕ}

theorem greatest_le (h : lower ≤ upper) : greatest fits lower upper ≤ upper := by
  fun_induction greatest fits lower upper with
  | case1 lower upper hlt middle hfits ih => exact ih (by omega)
  | case2 lower upper hlt middle hfits ih => exact Nat.le_trans (ih (by omega)) (by omega)
  | case3 => exact h

theorem fits_greatest (h : fits lower) : fits (greatest fits lower upper) := by
  fun_induction greatest fits lower upper with
  | case1 lower upper hlt middle hfits ih => exact ih hfits
  | case2 lower upper hlt middle hfits ih => exact ih h
  | case3 => exact h

/-- Nothing greater passes, when what is less than a number that passes passes too. -/
theorem le_greatest_of_fits (hmono : ∀ m n, m ≤ n → fits n → fits m) {n : ℕ} (hn : n ≤ upper)
    (hfits : fits n) : n ≤ greatest fits lower upper := by
  fun_induction greatest fits lower upper with
  | case1 lower upper hlt middle hmiddle ih => exact ih hn
  | case2 lower upper hlt middle hmiddle ih =>
    apply ih
    by_contra hless
    exact hmiddle (hmono middle n (by omega) hfits)
  | case3 => omega

end BinarySearch
