import Mathlib.Data.List.Basic
import Mathlib.Data.List.Infix

/-! # Unified diffs

A hunk replaces a stretch of one list by a stretch of another. A script of hunks turns the
first list into the second, and prints as the body of a unified diff. -/

namespace UnifiedDiff

universe u

section Script

variable {α : Type u}

inductive Edit (α : Type u) where
  | keep (line : α)
  | delete (line : α)
  | insert (line : α)

def Edit.old? : Edit α → Option α
  | keep line | delete line => some line
  | insert _ => none

def Edit.new? : Edit α → Option α
  | keep line | insert line => some line
  | delete _ => none

def Edit.line : Edit α → α
  | keep line | delete line | insert line => line

/-- The indices count the lines before the hunk. -/
structure Hunk (α : Type u) where
  oldStart : ℕ
  newStart : ℕ
  edits : List (Edit α)

def Hunk.old (h : Hunk α) : List α := h.edits.filterMap Edit.old?

def Hunk.new (h : Hunk α) : List α := h.edits.filterMap Edit.new?

/-- The hunks turn the first list, from index `i` on, into the second, from index `j` on. -/
inductive Script : ℕ → ℕ → List α → List α → List (Hunk α) → Prop
  | done (i j : ℕ) (rest : List α) : Script i j rest rest []
  | hunk {i j : ℕ} {xs ys : List α} {h : Hunk α} {hs : List (Hunk α)} (gap : List α) :
      h.oldStart = i + gap.length → h.newStart = j + gap.length →
      Script (h.oldStart + h.old.length) (h.newStart + h.new.length) xs ys hs →
      Script i j (gap ++ h.old ++ xs) (gap ++ h.new ++ ys) (h :: hs)

/-- Each hunk must find its old lines at the place that it names. -/
def applyHunks [DecidableEq α] : ℕ → List α → List (Hunk α) → Option (List α)
  | _, xs, [] => some xs
  | i, xs, h :: hs =>
    if i ≤ h.oldStart ∧ h.oldStart - i ≤ xs.length ∧ h.old <+: xs.drop (h.oldStart - i) then
      (applyHunks (h.oldStart + h.old.length)
        (xs.drop (h.oldStart - i + h.old.length)) hs).map
        (xs.take (h.oldStart - i) ++ h.new ++ ·)
    else none

theorem Script.applyHunks [DecidableEq α] {i j : ℕ} {xs ys : List α} {hs : List (Hunk α)}
    (h : Script i j xs ys hs) : UnifiedDiff.applyHunks i xs hs = some ys := by
  induction h with
  | done => rfl
  | @hunk i j xs ys h hs gap hi hj _ ih =>
    have hgap : h.oldStart - i = gap.length := by omega
    have hle : i ≤ h.oldStart := by omega
    have hdrop : (gap ++ h.old ++ xs).drop (gap.length + h.old.length) = xs := by
      rw [← List.length_append, List.drop_left]
    have hfits : i ≤ h.oldStart ∧ gap.length ≤ (gap ++ h.old ++ xs).length ∧
        h.old <+: (gap ++ h.old ++ xs).drop gap.length := by
      refine ⟨hle, by simp, ?_⟩
      rw [List.append_assoc, List.drop_left]
      exact List.prefix_append _ _
    rw [UnifiedDiff.applyHunks, hgap, if_pos hfits, hdrop, ih, List.append_assoc,
      List.take_left, Option.map_some, List.append_assoc]

/-- A script without hunks changes nothing. -/
theorem Script.eq_of_nil {i j : ℕ} {xs ys : List α} (h : Script i j xs ys []) : xs = ys := by
  cases h
  rfl

theorem Hunk.line_mem {h : Hunk α} {edit : Edit α} (he : edit ∈ h.edits) :
    edit.line ∈ h.old ∨ edit.line ∈ h.new := by
  cases edit with
  | keep line => exact Or.inl (List.mem_filterMap.mpr ⟨_, he, rfl⟩)
  | delete line => exact Or.inl (List.mem_filterMap.mpr ⟨_, he, rfl⟩)
  | insert line => exact Or.inr (List.mem_filterMap.mpr ⟨_, he, rfl⟩)

/-- Every line of a script's hunks is a line of one of the two lists. -/
theorem Script.line_mem {i j : ℕ} {xs ys : List α} {hs : List (Hunk α)} (h : Script i j xs ys hs) :
    ∀ hunk ∈ hs, ∀ edit ∈ hunk.edits, edit.line ∈ xs ∨ edit.line ∈ ys := by
  induction h with
  | done => simp
  | @hunk i j xs ys h hs gap _ _ _ ih =>
    intro hunk hm edit he
    rcases List.mem_cons.mp hm with rfl | hm
    · rcases Hunk.line_mem he with ho | hn
      · exact Or.inl (List.mem_append_left _ (List.mem_append_right _ ho))
      · exact Or.inr (List.mem_append_left _ (List.mem_append_right _ hn))
    · rcases ih hunk hm edit he with hx | hy
      · exact Or.inl (List.mem_append_right _ hx)
      · exact Or.inr (List.mem_append_right _ hy)

end Script

/-! ## Printing -/

/-- A line of text, with its terminator where it has one. -/
abbrev Line := List Char

/-- A range of a hunk's header, as `difflib._format_range_unified` prints it. -/
def formatRange (start length : ℕ) : Line :=
  if length = 1 then Nat.toDigits 10 (start + 1)
  else if length = 0 then Nat.toDigits 10 start ++ ",0".toList
  else Nat.toDigits 10 (start + 1) ++ ',' :: Nat.toDigits 10 length

def Hunk.header (h : Hunk Line) : Line :=
  "@@ -".toList ++ formatRange h.oldStart h.old.length ++ " +".toList ++
    formatRange h.newStart h.new.length ++ " @@\n".toList

def Edit.print : Edit Line → Line
  | keep line => ' ' :: line
  | delete line => '-' :: line
  | insert line => '+' :: line

def Hunk.print (h : Hunk Line) : List Line := h.header :: h.edits.map Edit.print

/-- `difflib.unified_diff` without dates, from the hunks of its opcodes. -/
def unifiedDiff (hunks : List (Hunk Line)) (fromFile toFile : Line) : List Line :=
  if hunks.isEmpty then []
  else ("--- ".toList ++ fromFile ++ ['\n']) :: ("+++ ".toList ++ toFile ++ ['\n']) ::
    hunks.flatMap Hunk.print

end UnifiedDiff
