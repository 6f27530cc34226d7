import Eventide.Library.Digits

/-! # Reading printed texts

The parts of a text that was put together from fixed words, numbers and lines. -/

namespace Reading

/-! ## Words and numbers -/

/-- `xs` without its first part, if it starts with that. -/
def strip? (front xs : List Char) : Option (List Char) :=
  if front <+: xs then some (xs.drop front.length) else none

def number? (cs : List Char) : Option (ℕ × List Char) :=
  if (cs.takeWhile Char.isDigit).isEmpty then none
  else some (Nat.ofDigitChars 10 (cs.takeWhile Char.isDigit) 0, cs.dropWhile Char.isDigit)

theorem strip?_append (front rest : List Char) : strip? front (front ++ rest) = some rest := by
  rw [strip?, if_pos (List.prefix_append _ _), List.drop_left]

theorem strip?_nil (c : Char) (cs : List Char) : strip? (c :: cs) [] = none := if_neg (by simp)

/-- Another first character. -/
theorem strip?_eq_none {c d : Char} (h : c ≠ d) (cs ds : List Char) :
    strip? (c :: cs) (d :: ds) = none :=
  if_neg fun hprefix => h (List.cons_prefix_cons.mp hprefix).1

theorem number?_toDigits {rest : List Char} (n : ℕ)
    (hr : ∀ c, rest.head? = some c → c.isDigit = false) :
    number? (Nat.toDigits 10 n ++ rest) = some (n, rest) := by
  have hdigit := Digits.isDigit_toDigits n
  have hstop : rest.takeWhile Char.isDigit = [] ∧ rest.dropWhile Char.isDigit = rest := by
    cases rest with
    | nil => exact ⟨rfl, rfl⟩
    | cons c cs => simp [hr c rfl]
  have htake : (Nat.toDigits 10 n ++ rest).takeWhile Char.isDigit = Nat.toDigits 10 n := by
    rw [List.takeWhile_append_of_pos hdigit, hstop.1, List.append_nil]
  have hdrop : (Nat.toDigits 10 n ++ rest).dropWhile Char.isDigit = rest := by
    rw [List.dropWhile_append_of_pos hdigit, hstop.2]
  have hne : (Nat.toDigits 10 n).isEmpty = false := by
    simp [List.isEmpty_eq_false_iff, Nat.toDigits_ne_nil]
  rw [number?, htake, hdrop, hne, if_neg Bool.false_ne_true, Nat.ofDigitChars_ten_toDigits]

/-! ## Lines -/

section Lines

variable {α : Type} [DecidableEq α]

/-- What stands before the first `mark`, and after it. -/
def firstLine (mark : α) (text : List α) : List α × List α :=
  (text.takeWhile (· ≠ mark), (text.dropWhile (· ≠ mark)).tail)

variable {mark : α} {line : List α}

theorem firstLine_append (h : mark ∉ line) (rest : List α) :
    firstLine mark (line ++ mark :: rest) = (line, rest) := by
  have hline : ∀ c ∈ line, decide (c ≠ mark) = true := fun c hc =>
    decide_eq_true fun heq => h (heq ▸ hc)
  have hstop : decide (mark ≠ mark) = false := by simp
  rw [firstLine, List.takeWhile_append_of_pos hline, List.dropWhile_append_of_pos hline,
    List.takeWhile_cons, List.dropWhile_cons, hstop]
  simp

/-- Lines that are joined are split again where the mark stands, also inside of one. -/
theorem splitOn_intercalate {lines : List (List α)} (h : lines ≠ []) :
    ([mark].intercalate lines).splitOn mark = lines.flatMap (·.splitOn mark) := by
  induction lines with
  | nil => exact absurd rfl h
  | cons line lines ih =>
    cases lines with
    | nil => simp
    | cons next lines =>
      have hrest := ih (List.cons_ne_nil next lines)
      rw [List.intercalate_cons_cons, List.append_assoc, List.singleton_append,
        List.splitOn_append_cons_self, hrest]
      rfl

/-- Lines without the mark are split as they were. -/
theorem flatMap_splitOn {lines : List (List α)} (h : ∀ line ∈ lines, mark ∉ line) :
    lines.flatMap (·.splitOn mark) = lines := by
  rw [List.flatMap_congr fun line hline => List.splitOn_eq_singleton (h line hline)]
  exact List.flatMap_singleton' lines

end Lines

end Reading
