import Mathlib.Logic.Relation
import Eventide.Library.Outcome

/-! # Depth-first search for cycles

The search raises on a node that it is still visiting. What it accepts is closed under the
edges it walked and has no cycle. -/

namespace Search

open Outcome

variable {α ε : Type}

/-- Visit a node after everything below it. `path` holds the nodes being visited, so that a
search that is deep enough for every node never runs out of fuel. -/
def visit [DecidableEq α] (next : α → List α) (cycle : ε) : ℕ → List α → List α → α → Except ε (List α)
  | 0, _, _, _ => .error cycle
  | fuel + 1, path, visited, a =>
    if a ∈ path then .error cycle
    else if a ∈ visited then .ok visited
    else ((next a).foldlM (visit next cycle fuel (a :: path)) visited).map (· ++ [a])

/-- Visit every node of a list. -/
def visitAll [DecidableEq α] (next : α → List α) (cycle : ε) (nodes : List α) : Except ε (List α) :=
  nodes.foldlM (visit next cycle (nodes.length + 1) []) []

/-- The edges that a search walks, from the lower node up. -/
def Below (next : α → List α) (b a : α) : Prop := b ∈ next a

variable {next : α → List α} {cycle : ε}

/-- A list of nodes below which nothing goes on for ever. -/
def Grounded (next : α → List α) (visited : List α) : Prop := ∀ a ∈ visited, Acc (Below next) a

section Sound

variable {step : List α → α → Except ε (List α)}
  (hstep : ∀ visited a later, Grounded next visited → step visited a = .ok later →
    Grounded next later ∧ (∀ b ∈ visited, b ∈ later) ∧ a ∈ later)

include hstep

theorem foldlM_grounded {nodes visited later : List α} (hv : Grounded next visited)
    (h : nodes.foldlM step visited = .ok later) :
    Grounded next later ∧ (∀ b ∈ visited, b ∈ later) ∧ ∀ a ∈ nodes, a ∈ later := by
  induction nodes generalizing visited with
  | nil =>
    obtain rfl : visited = later := by simpa using h
    exact ⟨hv, fun _ hb => hb, by simp⟩
  | cons a nodes ih =>
    rw [List.foldlM_cons] at h
    obtain ⟨mid, hm, h⟩ := bind_eq_ok.mp h
    obtain ⟨hmid, hsub, ha⟩ := hstep visited a mid hv hm
    obtain ⟨hl, hsub', hn⟩ := ih hmid h
    refine ⟨hl, fun b hb => hsub' b (hsub b hb), fun b hb => ?_⟩
    rcases List.mem_cons.mp hb with rfl | hb
    · exact hsub' _ ha
    · exact hn b hb

end Sound

theorem visit_grounded [DecidableEq α] {fuel : ℕ} {path visited later : List α} {a : α}
    (hv : Grounded next visited) (h : visit next cycle fuel path visited a = .ok later) :
    Grounded next later ∧ (∀ b ∈ visited, b ∈ later) ∧ a ∈ later := by
  induction fuel generalizing path visited later a with
  | zero => cases h
  | succ fuel ih =>
    rw [visit] at h
    split at h
    · cases h
    · split at h
      · rename_i ha
        obtain rfl := Except.ok.inj h
        exact ⟨hv, fun _ hb => hb, ha⟩
      · obtain ⟨mid, hm, rfl⟩ := map_eq_ok.mp h
        obtain ⟨hg, hsub, hn⟩ := foldlM_grounded (fun _ _ _ hv h => ih hv h) hv hm
        refine ⟨fun b hb => ?_, fun b hb => by simp [hsub b hb], by simp⟩
        rcases List.mem_append.mp hb with hb | hb
        · exact hg b hb
        · obtain rfl := List.mem_singleton.mp hb
          exact Acc.intro b fun c hc => hg c (hn c hc)

/-- An accepted search leaves no node from which edges lead back to it. -/
theorem visitAll_acyclic [DecidableEq α] {nodes visited : List α} (h : visitAll next cycle nodes = .ok visited)
    {a : α} (ha : a ∈ nodes) : ¬ Relation.TransGen (Below next) a a := by
  have hv := foldlM_grounded (fun _ _ _ hv h => visit_grounded hv h) (by simp [Grounded]) h
  have hacc : Acc (Relation.TransGen (Below next)) a := (hv.1 a (hv.2.2 a ha)).transGen
  clear ha
  induction hacc with
  | intro a _ ih => exact fun hcycle => ih a hcycle hcycle

end Search
