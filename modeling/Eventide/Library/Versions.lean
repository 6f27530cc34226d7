import Mathlib.Data.List.Range
import Mathlib.Data.List.Pairwise
import Eventide.Library.Sequence

/-! # Versioned entities in an append-only log

A log keeps every version of every entity. Each entity's revisions count up from one, and a
final version is the last of its entity. -/

namespace Versions

variable {α κ : Type*} [DecidableEq κ] (key : α → κ) (revision : α → ℕ) (Final : α → Prop)
  {xs : List α} {x old : α} {k : κ}

/-- The versions of one entity, in log order. -/
def versions (xs : List α) (k : κ) : List α := xs.filter (key · = k)

def latest? (xs : List α) (k : κ) : Option α := (versions key xs k).getLast?

/-- The laws of a log of versions. -/
structure Versioned (xs : List α) : Prop where
  counted : ∀ k, (versions key xs k).map revision = List.range' 1 (versions key xs k).length
  closed : xs.Pairwise fun a b => key a = key b → ¬ Final a

section Append

theorem versions_concat (h : key x = k) : versions key (xs ++ [x]) k = versions key xs k ++ [x] := by
  simp [versions, h]

theorem versions_concat_of_ne (h : key x ≠ k) :
    versions key (xs ++ [x]) k = versions key xs k := by
  simp [versions, h]

theorem latest?_concat : latest? key (xs ++ [x]) k = if key x = k then some x else latest? key xs k := by
  by_cases h : key x = k
  · simp [latest?, versions_concat key h, h]
  · simp [latest?, versions_concat_of_ne key h, h]

theorem latest?_mem (h : latest? key xs k = some x) : x ∈ xs ∧ key x = k := by
  simpa [versions] using List.mem_of_getLast? h

/-- Every version but the latest has a successor of its entity. -/
theorem latest_or_superseded (ha : x ∈ xs) :
    latest? key xs (key x) = some x ∨ ∃ front back, xs = front ++ x :: back ∧
      ∃ b ∈ back, key b = key x := by
  obtain ⟨front, back, rfl⟩ := List.append_of_mem ha
  by_cases hb : ∃ b ∈ back, key b = key x
  · exact Or.inr ⟨front, back, rfl, hb⟩
  · left
    have hnone : back.filter (key · = key x) = [] := by
      rw [List.filter_eq_nil_iff]
      intro b hm
      simp only [decide_eq_true_eq]
      exact fun he => hb ⟨b, hm, he⟩
    simp [latest?, versions, List.filter_append, hnone]

end Append

namespace Versioned

variable {key revision Final}

theorem nil : Versioned key revision Final [] := ⟨fun _ => rfl, .nil⟩

theorem revision_latest (h : Versioned key revision Final xs) (hl : latest? key xs k = some x) :
    revision x = (versions key xs k).length := by
  obtain ⟨front, hf⟩ : ∃ front, versions key xs k = front ++ [x] := by
    obtain ⟨front, hf⟩ := List.getLast?_eq_some_iff.mp hl
    exact ⟨front, hf⟩
  have hc := h.counted k
  rw [hf, List.map_append, List.length_append, List.length_singleton, List.range'_1_concat] at hc
  have hlast := (List.append_inj' hc rfl).2
  simp only [List.map_cons, List.map_nil, List.cons.injEq, and_true] at hlast
  rw [hf, List.length_append, List.length_singleton, hlast]
  omega

/-- A version that is not the latest is not final. -/
theorem not_final (h : Versioned key revision Final xs) (ha : x ∈ xs)
    (hl : latest? key xs (key x) ≠ some x) : ¬ Final x := by
  rcases latest_or_superseded key ha with hlast | ⟨front, back, rfl, b, hb, he⟩
  · exact absurd hlast hl
  · have hp := (List.pairwise_append.mp h.closed).2.1
    exact List.rel_of_pairwise_cons hp hb he.symm

/-- A final version stays the latest. -/
theorem latest_of_final (h : Versioned key revision Final xs) (ha : x ∈ xs) (hf : Final x) :
    latest? key xs (key x) = some x := by
  by_contra hl
  exact h.not_final ha hl hf

/-- The first version of a new entity. -/
theorem create (h : Versioned key revision Final xs) (hx : revision x = 1)
    (hfresh : ∀ y ∈ xs, key y ≠ key x) : Versioned key revision Final (xs ++ [x]) := by
  constructor
  · intro k
    by_cases hk : key x = k
    · have hnone : versions key xs k = [] := by
        rw [versions, List.filter_eq_nil_iff]
        intro y hy
        simpa [hk] using hfresh y hy
      simp [versions_concat key hk, hnone, hx]
    · rw [versions_concat_of_ne key hk]
      exact h.counted k
  · exact Sequence.pairwise_concat h.closed fun a ha he => absurd he (hfresh a ha)

/-- The next version of an entity whose latest version is not final. -/
theorem update (h : Versioned key revision Final xs) (hold : latest? key xs (key x) = some old)
    (hx : revision x = revision old + 1) (hopen : ¬ Final old) :
    Versioned key revision Final (xs ++ [x]) := by
  constructor
  · intro k
    by_cases hk : key x = k
    · subst hk
      have hlast := h.revision_latest hold
      rw [versions_concat key rfl, List.map_append, List.length_append, h.counted,
        List.length_singleton, List.range'_1_concat, List.map_singleton, hx, hlast, Nat.add_comm]
    · rw [versions_concat_of_ne key hk]
      exact h.counted k
  · refine Sequence.pairwise_concat h.closed fun a ha he => ?_
    by_cases hl : latest? key xs (key a) = some a
    · rw [he, hold] at hl
      obtain rfl := Option.some.inj hl
      exact hopen
    · exact h.not_final ha hl

end Versioned

end Versions
