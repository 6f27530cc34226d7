import Mathlib.Data.List.Basic
import Mathlib.Tactic.Common

/-! # Tilings

A list of items with half-open ranges tiles a range when each range starts where the one before
stops. -/

namespace Tiling

variable {α β : Type} (lo hi : α → ℕ)

/-- The ranges of the items go from one number to another, none of them empty. -/
def Tiles : ℕ → List α → ℕ → Prop
  | first, [], last => first = last
  | first, item :: items, last => lo item = first ∧ lo item < hi item ∧ Tiles (hi item) items last

variable {lo hi} {first middle last : ℕ} {items more : List α}

theorem Tiles.le (h : Tiles lo hi first items last) : first ≤ last := by
  induction items generalizing first with
  | nil => exact Nat.le_of_eq h
  | cons item items ih =>
    obtain ⟨hlo, hne, hrest⟩ := h
    have hle := ih hrest
    omega

theorem Tiles.append (h : Tiles lo hi first items middle) (h' : Tiles lo hi middle more last) :
    Tiles lo hi first (items ++ more) last := by
  induction items generalizing first with
  | nil =>
    obtain rfl := h
    exact h'
  | cons item items ih =>
    obtain ⟨hlo, hne, hrest⟩ := h
    exact ⟨hlo, hne, ih hrest⟩

theorem Tiles.bounds (h : Tiles lo hi first items last) {item : α} (hmem : item ∈ items) :
    first ≤ lo item ∧ lo item < hi item ∧ hi item ≤ last := by
  induction items generalizing first with
  | nil => cases hmem
  | cons head items ih =>
    obtain ⟨hlo, hne, hrest⟩ := h
    have hle := hrest.le
    rcases List.mem_cons.mp hmem with rfl | hmem
    · omega
    · have hbounds := ih hrest hmem
      omega

/-- The ranges are in order. -/
theorem Tiles.pairwise (h : Tiles lo hi first items last) :
    items.Pairwise fun a b => hi a ≤ lo b := by
  induction items generalizing first with
  | nil => exact .nil
  | cons item items ih =>
    exact .cons (fun other hmem => (h.2.2.bounds hmem).1) (ih h.2.2)

/-- The ranges cover the whole range. -/
theorem Tiles.covers (h : Tiles lo hi first items last) {i : ℕ} (hfirst : first ≤ i)
    (hlast : i < last) : ∃ item ∈ items, lo item ≤ i ∧ i < hi item := by
  induction items generalizing first with
  | nil =>
    obtain rfl := h
    omega
  | cons item items ih =>
    obtain ⟨hlo, hne, hrest⟩ := h
    by_cases hi' : i < hi item
    · exact ⟨item, List.mem_cons_self, by omega, hi'⟩
    · obtain ⟨other, hmem, hother⟩ := ih hrest (by omega)
      exact ⟨other, List.mem_cons_of_mem _ hmem, hother⟩

/-- A range that is not empty begins with an item and ends with one. -/
theorem Tiles.ends (h : Tiles lo hi first items last) (hlt : first < last) :
    (∃ item ∈ items, lo item = first) ∧ ∃ item ∈ items, hi item = last := by
  induction items generalizing first with
  | nil =>
    obtain rfl := h
    omega
  | cons item items ih =>
    obtain ⟨hlo, hne, hrest⟩ := h
    refine ⟨⟨item, List.mem_cons_self, hlo⟩, ?_⟩
    by_cases hmore : hi item < last
    · obtain ⟨-, other, hmem, hother⟩ := ih hrest hmore
      exact ⟨other, List.mem_cons_of_mem _ hmem, hother⟩
    · have hle := hrest.le
      exact ⟨item, List.mem_cons_self, by omega⟩

/-- New bounds that grow where the old ones grow tile as well. -/
theorem Tiles.map {lo' hi' : β → ℕ} {items' : List β} {first' last' : ℕ} {r : ℕ → ℕ → Prop}
    (h : Tiles lo hi first items last) (hfirst : r first first') (hlast : r last last')
    (hfun : ∀ a b b', r a b → r a b' → b = b')
    (hlt : ∀ a b a' b', r a b → r a' b' → a < a' → b < b')
    (hitems : List.Forall₂ (fun a b => r (lo a) (lo' b) ∧ r (hi a) (hi' b)) items items') :
    Tiles lo' hi' first' items' last' := by
  induction hitems generalizing first first' with
  | nil =>
    obtain rfl := h
    exact hfun _ _ _ hfirst hlast
  | cons hhead _ ih =>
    obtain ⟨hlo, hne, hrest⟩ := h
    obtain rfl := hlo
    exact ⟨hfun _ _ _ hhead.1 hfirst, hlt _ _ _ _ hhead.1 hhead.2 hne, ih hrest hhead.2⟩

end Tiling
