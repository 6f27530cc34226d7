import Eventide.Library.Outcome
import Eventide.Model.Event
import Eventide.Model.PyText
import Mathlib.Data.List.Sort

/-! # Source sections

`rag/code_structure.py`: the sections of a source text between the boundaries of its symbols. -/

namespace Eventide

namespace CodeStructure

/-- `_Symbol`, with byte offsets. -/
inductive Symbol where
  | mk (start stop : ℕ) (heading : String) (children : List Symbol)

namespace Symbol

def start : Symbol → ℕ
  | mk start _ _ _ => start

def stop : Symbol → ℕ
  | mk _ stop _ _ => stop

def heading : Symbol → String
  | mk _ _ heading _ => heading

def children : Symbol → List Symbol
  | mk _ _ _ children => children

end Symbol

/-- A section with its heading. -/
structure Piece where
  start : ℕ
  stop : ℕ
  heading : String
  deriving DecidableEq

/-- A range that is still to be cut. -/
structure Part extends Piece where
  children : List Symbol

/-- What the loop over the children does, from a cursor on. -/
def cutPart (part : Part) (cursor : ℕ) : List Symbol → Except PyError (List Part)
  | [] => .ok (if cursor < part.stop then [⟨⟨cursor, part.stop, part.heading⟩, []⟩] else [])
  | child :: children =>
    if child.start < cursor ∨ part.stop < child.stop ∨ child.stop ≤ child.start then
      .error (.value "Overlapping source symbols")
    else do
      let parts ← cutPart part child.stop children
      return (if cursor < child.start then [⟨⟨cursor, child.start, part.heading⟩, []⟩] else []) ++
        ⟨⟨child.start, child.stop, child.heading⟩, child.children⟩ :: parts

/-! ## The number of symbols that are left -/

mutual

def Symbol.count : Symbol → ℕ
  | .mk _ _ _ children => countAll children + 1

def countAll : List Symbol → ℕ
  | [] => 0
  | symbol :: symbols => symbol.count + countAll symbols

end

def Part.weight (part : Part) : ℕ := 3 * countAll part.children + 1

def weights (parts : List Part) : ℕ := (parts.map Part.weight).sum

theorem Symbol.count_eq (symbol : Symbol) : symbol.count = countAll symbol.children + 1 := by
  cases symbol
  rfl

theorem weights_append (first second : List Part) :
    weights (first ++ second) = weights first + weights second := by
  rw [weights, List.map_append, List.sum_append, weights, weights]

theorem weights_cons (part : Part) (parts : List Part) :
    weights (part :: parts) = part.weight + weights parts := rfl

theorem weights_gap {p : Prop} [Decidable p] (piece : Piece) :
    weights (if p then [⟨piece, []⟩] else []) ≤ 1 := by
  split
  · exact le_refl 1
  · exact Nat.zero_le 1

theorem weights_cutPart {part : Part} {cursor : ℕ} {children : List Symbol} {parts : List Part}
    (h : cutPart part cursor children = .ok parts) :
    weights parts + children.length ≤ 3 * countAll children + 1 := by
  induction children generalizing cursor parts with
  | nil =>
    obtain rfl := Except.ok.inj h
    exact weights_gap _
  | cons child children ih =>
    rw [cutPart] at h
    split at h
    · cases h
    · obtain ⟨rest, hrest, h⟩ := Outcome.bind_eq_ok.mp h
      obtain rfl := Except.ok.inj h
      have hle := ih hrest
      have hgap := weights_gap (p := cursor < child.start) ⟨cursor, child.start, part.heading⟩
      rw [weights_append, weights_cons, Part.weight, List.length_cons, countAll, child.count_eq]
      dsimp only
      omega

theorem weights_cutPart_lt {part : Part} {parts : List Part} (hne : part.children ≠ [])
    (h : cutPart part part.start part.children = .ok parts) : weights parts < part.weight := by
  have hle := weights_cutPart h
  have hpos := List.length_pos_of_ne_nil hne
  rw [Part.weight]
  omega

/-! ## _partition -/

/-- The loop over the ranges that are still to be cut; the first is on top of the stack. -/
def cutAll (pending : List Part) (sections : List Piece) : Except PyError (List Piece) :=
  match pending with
  | [] => .ok sections
  | part :: pending =>
    match _ : cutPart part part.start part.children with
    | .error error => .error error
    | .ok parts =>
      if _ : part.children ≠ [] then cutAll (parts ++ pending) sections
      else cutAll pending
        (sections ++ if part.start < part.stop then [part.toPiece] else [])
termination_by weights pending
decreasing_by
  · rename_i hparts hne
    rw [weights_append, weights_cons]
    exact Nat.add_lt_add_right (weights_cutPart_lt hne hparts) _
  · rw [weights_cons, Part.weight]
    omega

/-- `sorted(...)` of the set of the offsets. -/
def offsets (sections : List Piece) : List ℕ :=
  (sections.flatMap fun s => [s.start, s.stop]).dedup.insertionSort (· ≤ ·)

/-- `characters`. -/
def countCharacters (source : List UInt8) (previous count : ℕ) :
    List ℕ → Except PyError (List (ℕ × ℕ))
  | [] => .ok []
  | offset :: offsets =>
    match decode ((source.take offset).drop previous) with
    | none => .error (.raised "UnicodeDecodeError" "")
    | some text => do
      let rest ← countCharacters source offset (count + text.length) offsets
      return (offset, count + text.length) :: rest

/-- `characters[offset]`. -/
def characterAt (characters : List (ℕ × ℕ)) (offset : ℕ) : Except PyError ℕ :=
  match characters.lookup offset with
  | some count => .ok count
  | none => .error (.raised "KeyError" "")

def inCharacters (characters : List (ℕ × ℕ)) (s : Piece) : Except PyError Piece := do
  let start ← characterAt characters s.start
  let stop ← characterAt characters s.stop
  return { s with start, stop }

/-- `_partition`. -/
def partition (source : List UInt8) (symbols : List Symbol) : Except PyError (List Piece) := do
  let sections ← cutAll [⟨⟨0, source.length, ""⟩, symbols⟩] []
  let characters ← countCharacters source 0 0 (offsets sections)
  sections.mapM (inCharacters characters)

/-- `ValueError`, of which a `UnicodeDecodeError` is one. -/
def isValueError : PyError → Bool
  | .value _ => true
  | .raised name _ => name = "UnicodeDecodeError"
  | _ => false

end CodeStructure

end Eventide
