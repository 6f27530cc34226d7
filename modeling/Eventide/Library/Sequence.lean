import Mathlib.Data.List.Pairwise
import Mathlib.Data.List.Range
import Mathlib.Data.List.Nodup
import Mathlib.Data.List.Forall2

/-! # Append-only sequences -/

namespace Sequence

universe u

variable {α : Type u} {R : α → α → Prop} {xs : List α}

/-- Two members of an ordered list are equal or stand in one of the two orders. -/
theorem pairwise_trichotomy (h : xs.Pairwise R) {a b : α} (ha : a ∈ xs) (hb : b ∈ xs) :
    a = b ∨ R a b ∨ R b a := by
  induction xs with
  | nil => cases ha
  | cons x xs ih =>
    rcases List.mem_cons.mp ha with rfl | ha'
    · rcases List.mem_cons.mp hb with rfl | hb'
      · exact Or.inl rfl
      · exact Or.inr (Or.inl (List.rel_of_pairwise_cons h hb'))
    · rcases List.mem_cons.mp hb with rfl | hb'
      · exact Or.inr (Or.inr (List.rel_of_pairwise_cons h ha'))
      · exact ih h.tail ha' hb'

theorem pairwise_concat (h : xs.Pairwise R) {b : α} (hb : ∀ a ∈ xs, R a b) :
    (xs ++ [b]).Pairwise R :=
  List.pairwise_append.mpr ⟨h, List.pairwise_singleton _ _, by simpa using hb⟩

theorem foldl_max_range' (n k : ℕ) : (List.range' (n + 1) k).foldl max n = n + k := by
  induction k generalizing n with
  | zero => simp
  | succ k ih =>
    rw [List.range'_succ, List.foldl_cons, Nat.max_eq_right (Nat.le_succ n), ih (n + 1)]
    omega

/-- A property that at most one position of an ordered list can have. -/
theorem filter_length_le_one {p : α → Bool} (h : xs.Pairwise fun a b => p a = true → p b = false) :
    (xs.filter p).length ≤ 1 := by
  induction xs with
  | nil => simp
  | cons x xs ih =>
    by_cases hx : p x = true
    · have hn : xs.filter p = [] := by
        rw [List.filter_eq_nil_iff]
        intro b hb
        simp [List.rel_of_pairwise_cons h hb hx]
      simp [hx, hn]
    · simpa [hx] using ih h.tail

/-- Related lists end together. -/
theorem forall₂_concat {β : Type u} {S : α → β → Prop} {ys : List β} {y : β}
    (h : List.Forall₂ S xs (ys ++ [y])) :
    ∃ init x, xs = init ++ [x] ∧ List.Forall₂ S init ys ∧ S x y := by
  induction ys generalizing xs with
  | nil =>
    cases h with
    | cons hxy hnil =>
      cases hnil
      exact ⟨[], _, rfl, .nil, hxy⟩
  | cons z ys ih =>
    cases h with
    | cons hxz hrest =>
      obtain ⟨init, x, rfl, hinit, hxy⟩ := ih hrest
      exact ⟨_ :: init, x, rfl, .cons hxz hinit, hxy⟩

/-- Every item of a list has its partner in a related one. -/
theorem mem_of_forall₂ {β : Type u} {S : α → β → Prop} {ys : List β} (h : List.Forall₂ S xs ys)
    {x : α} (hx : x ∈ xs) : ∃ y ∈ ys, S x y := by
  induction h with
  | nil => simp at hx
  | cons hz _ ih =>
    rcases List.mem_cons.mp hx with rfl | hx
    · exact ⟨_, by simp, hz⟩
    · obtain ⟨w, hw, hs⟩ := ih hx
      exact ⟨w, by simp [hw], hs⟩

/-- Pairing the kept items with their images keeps their order. -/
theorem map_fst_filterMap_sublist {β : Type u} (f : α → Option β) (xs : List α) :
    ((xs.filterMap fun x => (f x).map (x, ·)).map Prod.fst).Sublist xs := by
  induction xs with
  | nil => exact List.Sublist.refl _
  | cons x xs ih =>
    rw [List.filterMap_cons]
    cases f x with
    | none => exact ih.cons x
    | some y => exact ih.cons_cons x

theorem countP_or_le (p q : α → Bool) (xs : List α) :
    xs.countP (fun x => p x || q x) ≤ xs.countP p + xs.countP q := by
  induction xs with
  | nil => simp
  | cons x xs ih =>
    simp only [List.countP_cons]
    cases p x <;> cases q x <;> simp <;> omega

section Cut

variable {f : α → ℕ}

/-- A cut splits an ordered list into what lies below it and what lies above. -/
theorem filter_cut (h : xs.Pairwise fun a b => f a < f b) (c : ℕ) :
    xs.filter (f · ≤ c) ++ xs.filter (c < f ·) = xs := by
  induction xs with
  | nil => rfl
  | cons x xs ih =>
    obtain ⟨hx, ht⟩ := List.pairwise_cons.mp h
    by_cases hc : f x ≤ c
    · simpa [hc, not_lt.mpr hc] using ih ht
    · have hlow : xs.filter (f · ≤ c) = [] := by
        rw [List.filter_eq_nil_iff]
        intro y hy
        have hxy := hx y hy
        simp only [decide_eq_true_eq]
        omega
      have htail := ih ht
      rw [hlow, List.nil_append] at htail
      simp [hc, not_le.mp hc, hlow, htail]

/-- Moving the cut past the next item moves that item below it. -/
theorem filter_cut_next (h : xs.Pairwise fun a b => f a < f b) {c : ℕ} {x : α} {rest : List α}
    (hx : xs.filter (c < f ·) = x :: rest) :
    xs.filter (f · ≤ f x) = xs.filter (f · ≤ c) ++ [x] ∧ xs.filter (f x < f ·) = rest := by
  have hcx : c < f x := by
    have hm : x ∈ xs.filter (c < f ·) := by simp [hx]
    simpa using (List.mem_filter.mp hm).2
  have hsplit := filter_cut h c
  rw [hx] at hsplit
  have hlow : ∀ y ∈ xs.filter (f · ≤ c), f y ≤ f x := by
    intro y hy
    have hyc := (List.mem_filter.mp hy).2
    simp only [decide_eq_true_eq] at hyc
    omega
  rw [← hsplit, List.pairwise_append] at h
  have hhigh : ∀ y ∈ rest, f x < f y := (List.pairwise_cons.mp h.2.1).1
  have hrest : rest.filter (f · ≤ f x) = [] :=
    List.filter_eq_nil_iff.mpr (by simpa using hhigh)
  have hfront : (xs.filter (f · ≤ c)).filter (f x < f ·) = [] :=
    List.filter_eq_nil_iff.mpr (by simpa using hlow)
  constructor
  · conv_lhs => rw [← hsplit]
    rw [List.filter_append, List.filter_eq_self.mpr (by simpa using hlow),
      List.filter_cons_of_pos (by simp), hrest]
  · conv_lhs => rw [← hsplit]
    rw [List.filter_append, hfront, List.filter_cons_of_neg (by simp), List.nil_append,
      List.filter_eq_self.mpr (by simpa using hhigh)]

end Cut

/-- One item of a list has a key that no other item has. -/
theorem filter_key {α κ : Type*} [DecidableEq κ] {f : α → κ} {xs : List α} {x : α}
    (h : (xs.map f).Nodup) (hx : x ∈ xs) : xs.filter (fun y => f y = f x) = [x] := by
  induction xs with
  | nil => simp at hx
  | cons y ys ih =>
    rw [List.map_cons, List.nodup_cons] at h
    rcases List.mem_cons.mp hx with rfl | hx
    · have hnone : ys.filter (fun y => f y = f x) = [] := by
        refine List.filter_eq_nil_iff.mpr fun z hz hkey => h.1 ?_
        exact List.mem_map.mpr ⟨z, hz, by simpa using hkey⟩
      rw [List.filter_cons_of_pos (by simp), hnone]
    · have hne : f y ≠ f x := fun hkey => h.1 (List.mem_map.mpr ⟨x, hx, hkey.symm⟩)
      rw [List.filter_cons_of_neg (by simpa using hne), ih h.2 hx]

theorem nodup_concat {α : Type*} {xs : List α} {x : α} :
    (xs ++ [x]).Nodup ↔ x ∉ xs ∧ xs.Nodup := by
  rw [← List.concat_eq_append, List.nodup_concat]

private theorem flatten_toChunks_go {α : Type*} (n : ℕ) (xs : List α) (front : Array α)
    (done : Array (List α)) : (List.toChunks.go n xs front done).flatten =
      done.toList.flatten ++ front.toList ++ xs := by
  induction xs generalizing front done with
  | nil => simp [List.toChunks.go]
  | cons x xs ih =>
    rw [List.toChunks.go]
    split
    · simp [ih]
    · simp [ih]

/-- Cutting a list in batches leaves nothing out. -/
theorem flatten_toChunks {α : Type*} (n : ℕ) (xs : List α) : (xs.toChunks n).flatten = xs := by
  cases xs with
  | nil => cases n <;> rfl
  | cons x xs =>
    cases n with
    | zero => simp [List.toChunks]
    | succ n =>
      rw [List.toChunks, flatten_toChunks_go]
      · simp
      · exact Nat.succ_ne_zero n

end Sequence
