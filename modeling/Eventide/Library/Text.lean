import Mathlib.Data.List.Basic
import Mathlib.Tactic.Common

/-! # Slices, searches and lines

A text is a list of characters, and a place in it a number. -/

namespace Text

variable {α : Type}

/-- `text[start:stop]`. -/
def slice (text : List α) (start stop : ℕ) : List α := (text.take stop).drop start

theorem length_slice (text : List α) (start stop : ℕ) :
    (slice text start stop).length = min stop text.length - start := by
  simp [slice]

theorem getElem?_slice (text : List α) (start stop i : ℕ) :
    (slice text start stop)[i]? = if start + i < stop then text[start + i]? else none := by
  simp [slice, List.getElem?_drop, List.getElem?_take]

theorem mem_slice {text : List α} {start stop : ℕ} {c : α} :
    c ∈ slice text start stop ↔ ∃ i, start ≤ i ∧ i < stop ∧ text[i]? = some c := by
  rw [List.mem_iff_getElem?]
  constructor
  · rintro ⟨i, hi⟩
    rw [getElem?_slice] at hi
    split at hi
    · exact ⟨start + i, by omega, by assumption, hi⟩
    · cases hi
  · rintro ⟨i, hstart, hstop, hi⟩
    refine ⟨i - start, ?_⟩
    have hsum : start + (i - start) = i := by omega
    rw [getElem?_slice, hsum, if_pos hstop]
    exact hi

theorem slice_slice (text : List α) (start stop i j : ℕ) (h : start + j ≤ stop) :
    slice (slice text start stop) i j = slice text (start + i) (start + j) := by
  apply List.ext_getElem?
  intro k
  simp only [getElem?_slice]
  by_cases hk : i + k < j
  · have hin : start + (i + k) < stop := by omega
    have hsum : start + i + k < start + j := by omega
    rw [if_pos hk, if_pos hin, if_pos hsum, Nat.add_assoc]
  · have hsum : ¬ start + i + k < start + j := by omega
    rw [if_neg hk, if_neg hsum]

section Search

variable [DecidableEq α]

/-- `text.rfind(sub, start, stop)`: the last place in a range where `sub` stands. -/
def rfind (sub text : List α) (start stop : ℕ) : Option ℕ :=
  ((List.range (min stop text.length + 1 - sub.length)).filter fun i =>
    start ≤ i ∧ slice text i (i + sub.length) = sub).getLast?

theorem rfind_eq_some {sub text : List α} {start stop i : ℕ} (h : rfind sub text start stop = some i) :
    start ≤ i ∧ i + sub.length ≤ min stop text.length ∧ slice text i (i + sub.length) = sub := by
  obtain ⟨hrange, hfound⟩ := List.mem_filter.mp (List.mem_of_getLast? h)
  obtain ⟨hstart, hsub⟩ := of_decide_eq_true hfound
  have := List.mem_range.mp hrange
  exact ⟨hstart, by omega, hsub⟩

/-- What stands in the range stands no later than what is found. -/
theorem le_rfind {sub text : List α} {start stop i j : ℕ} (h : rfind sub text start stop = some i)
    (hstart : start ≤ j) (hstop : j + sub.length ≤ min stop text.length)
    (hj : slice text j (j + sub.length) = sub) : j ≤ i := by
  have hin : j ∈ (List.range (min stop text.length + 1 - sub.length)).filter fun i =>
      start ≤ i ∧ slice text i (i + sub.length) = sub := by
    refine List.mem_filter.mpr ⟨List.mem_range.mpr (by omega), decide_eq_true ⟨hstart, hj⟩⟩
  obtain ⟨front, hfront⟩ := List.getLast?_eq_some_iff.mp h
  have hsorted : (front ++ [i]).Pairwise (· < ·) := by
    rw [← hfront]
    exact List.pairwise_lt_range.filter _
  rw [hfront] at hin
  rcases List.mem_append.mp hin with hin | hin
  · exact Nat.le_of_lt ((List.pairwise_append.mp hsorted).2.2 j hin i List.mem_cons_self)
  · exact Nat.le_of_eq (List.mem_singleton.mp hin)

theorem rfind_isSome {sub text : List α} {start stop j : ℕ} (hstart : start ≤ j)
    (hstop : j + sub.length ≤ min stop text.length) (hj : slice text j (j + sub.length) = sub) :
    ∃ i, rfind sub text start stop = some i ∧ j ≤ i := by
  cases h : rfind sub text start stop with
  | some i => exact ⟨i, rfl, le_rfind h hstart hstop hj⟩
  | none =>
    have hnil := List.getLast?_eq_none_iff.mp h
    have hin : j ∈ (List.range (min stop text.length + 1 - sub.length)).filter fun i =>
        start ≤ i ∧ slice text i (i + sub.length) = sub :=
      List.mem_filter.mpr ⟨List.mem_range.mpr (by omega), decide_eq_true ⟨hstart, hj⟩⟩
    rw [hnil] at hin
    cases hin

end Search

/-! ## Lines -/

/-- The lines of a text with their ends, where `ends c rest` says that `c` ends one. -/
def splitLines (ends : α → List α → Bool) : List α → List (List α)
  | [] => []
  | c :: cs =>
    if ends c cs then [c] :: splitLines ends cs
    else
      match splitLines ends cs with
      | [] => [[c]]
      | line :: lines => (c :: line) :: lines

theorem flatten_splitLines (ends : α → List α → Bool) (text : List α) :
    (splitLines ends text).flatten = text := by
  induction text with
  | nil => rfl
  | cons c cs ih =>
    unfold splitLines
    split
    · simp [ih]
    · cases h : splitLines ends cs with
      | nil =>
        rw [h] at ih
        simpa using ih
      | cons line lines =>
        rw [h] at ih
        simpa using ih

/-- `bisect.bisect_right(xs, x)`, for sorted `xs`. -/
def bisectRight (xs : List ℕ) (x : ℕ) : ℕ := (xs.takeWhile (· ≤ x)).length

end Text
