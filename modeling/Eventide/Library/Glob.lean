import Mathlib.Data.List.Basic
import Mathlib.Tactic.Common

/-! # Shell patterns

Python's `fnmatch` on the code points of a name: `*`, `?`, `[seq]` and `[!seq]`. -/

namespace Glob

/-- What one place of a pattern matches; a range without an end is one code point. -/
inductive Token where
  | star
  | any
  | oneOf (negated : Bool) (ranges : List (ℕ × Option ℕ))
  | literal (code : ℕ)
  deriving DecidableEq, Repr

def starCode : ℕ := 42

def anyCode : ℕ := 63

def openCode : ℕ := 91

def closeCode : ℕ := 93

def notCode : ℕ := 33

def rangeCode : ℕ := 45

/-- The ranges between brackets; a hyphen at either end stands for itself. -/
def ranges : List ℕ → List (ℕ × Option ℕ)
  | [] => []
  | [a] => [(a, none)]
  | [a, b] => [(a, none), (b, none)]
  | a :: b :: c :: rest =>
    if b = rangeCode then (a, some c) :: ranges rest else (a, none) :: ranges (b :: c :: rest)

/-- The token of a bracket. A reversed range is dropped from the text of the class, and a text that
then begins with `!` is taken for a negated one, whose hyphen is no range any more. -/
def classOf (negated : Bool) (body : List ℕ) : Token :=
  let kept := (ranges body).filter fun range => range.2.all (range.1 ≤ ·)
  if negated then .oneOf true kept
  else match kept with
    | (first, stop) :: rest =>
      if first = notCode then
        .oneOf true ((stop.map fun last => [(rangeCode, none), (last, none)]).getD [] ++ rest)
      else .oneOf false kept
    | [] => .oneOf false []

/-- What follows an opening bracket: whether it is negated, what is between the brackets, and what
is behind them. A closing bracket that comes first stands for itself. -/
def bracketed (rest : List ℕ) : Option (Bool × List ℕ × List ℕ) :=
  let negated := rest.head? = some notCode
  let inner := if negated then rest.drop 1 else rest
  let skip := if inner.head? = some closeCode then 1 else 0
  let body := (inner.drop skip).takeWhile (· ≠ closeCode)
  let behind := (inner.drop skip).dropWhile (· ≠ closeCode)
  if behind = [] then none else some (negated, inner.take skip ++ body, behind.drop 1)

/-- The tokens of a pattern, `skip` code points of the last one being left to pass. -/
def tokens : ℕ → List ℕ → List Token
  | _, [] => []
  | skip + 1, _ :: cs => tokens skip cs
  | 0, c :: cs =>
    if c = starCode then .star :: tokens 0 cs
    else if c = anyCode then .any :: tokens 0 cs
    else if c = openCode then
      match bracketed cs with
      | some (negated, body, behind) =>
        classOf negated body :: tokens (cs.length - behind.length) cs
      | none => .literal c :: tokens 0 cs
    else .literal c :: tokens 0 cs

def Token.accepts : Token → ℕ → Bool
  | star, _ => true
  | any, _ => true
  | oneOf negated ranges, c =>
    (ranges.any fun range => range.1 ≤ c && c ≤ range.2.getD range.1) != negated
  | literal code, c => c = code

def matchTokens : List Token → List ℕ → Bool
  | [], name => name.isEmpty
  | .star :: rest, name => name.tails.any fun tail => matchTokens rest tail
  | _ :: _, [] => false
  | token :: rest, c :: name => token.accepts c && matchTokens rest name

/-- `fnmatch.fnmatchcase(name, pattern)`. -/
def fnmatch (pattern name : List ℕ) : Bool := matchTokens (tokens 0 pattern) name

/-- A code point that matches itself only. -/
def plain (c : ℕ) : Prop := c ≠ starCode ∧ c ≠ anyCode ∧ c ≠ openCode

instance (c : ℕ) : Decidable (plain c) := inferInstanceAs (Decidable (_ ∧ _))

theorem tokens_of_plain {pattern : List ℕ} (h : ∀ c ∈ pattern, plain c) :
    tokens 0 pattern = pattern.map .literal := by
  induction pattern with
  | nil => rfl
  | cons c cs ih =>
    obtain ⟨⟨hstar, hany, hopen⟩, hrest⟩ := List.forall_mem_cons.mp h
    rw [tokens, if_neg hstar, if_neg hany, if_neg hopen, ih hrest, List.map_cons]

theorem matchTokens_literals (pattern name : List ℕ) :
    matchTokens (pattern.map .literal) name = decide (name = pattern) := by
  induction pattern generalizing name with
  | nil => cases name <;> simp [matchTokens]
  | cons c cs ih =>
    cases name with
    | nil => simp [matchTokens]
    | cons d name => simp [matchTokens, Token.accepts, ih, Bool.decide_and]

/-- A pattern without wildcards matches one name. -/
theorem fnmatch_of_plain {pattern : List ℕ} (h : ∀ c ∈ pattern, plain c) (name : List ℕ) :
    fnmatch pattern name = decide (name = pattern) := by
  rw [fnmatch, tokens_of_plain h, matchTokens_literals]

example : fnmatch ("[!a-c]*.?".toList.map Char.toNat) ("dx.y".toList.map Char.toNat) = true := by
  decide

end Glob
