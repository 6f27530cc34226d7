import Eventide.Model.JsonText
import Mathlib.Data.String.Basic

/-! # Documents up to the order of their keys -/

namespace Eventide.Json

/-- The same document, whatever the order of its keys. -/
def Same (a b : Json) : Prop := a.sortKeys = b.sortKeys

theorem Same.refl (a : Json) : Same a a := rfl

@[simp] theorem isObj_sortKeys (a : Json) : a.sortKeys.isObj = a.isObj := by
  cases a <;> simp [sortKeys, isObj]

theorem sortKeys_eq_bool {a : Json} {v : Bool} : a.sortKeys = bool v ↔ a = bool v := by
  cases a <;> simp [sortKeys]

theorem Same.isObj {a b : Json} (h : Same a b) : a.isObj = b.isObj := by
  rw [← isObj_sortKeys a, h, isObj_sortKeys]

theorem lookup_orderedInsert {key : String} {value : Json} {xs : List (String × Json)}
    (h : key ∉ xs.map Prod.fst) (k : String) :
    (List.orderedInsert (fun a b => a.1 ≤ b.1) (key, value) xs).lookup k =
      if k = key then some value else xs.lookup k := by
  induction xs with
  | nil => simp [Dict.lookup_cons_eq]
  | cons x xs ih =>
    obtain ⟨j, w⟩ := x
    simp only [List.map_cons, List.mem_cons, not_or] at h
    rw [List.orderedInsert_cons]
    split
    · simp [Dict.lookup_cons_eq]
    · rw [Dict.lookup_cons_eq, ih h.2, Dict.lookup_cons_eq]
      by_cases hj : k = j
      · subst hj
        simp [Ne.symm h.1]
      · simp [hj]

theorem lookup_sortFields (xs : List (String × Json)) (seen : List String) (k : String) :
    (sortFields seen xs).lookup k = if k ∈ seen then none else (xs.lookup k).map sortKeys := by
  induction xs generalizing seen k with
  | nil => simp [sortFields]
  | cons x xs ih =>
    obtain ⟨key, value⟩ := x
    rw [sortFields, Dict.lookup_cons_eq]
    by_cases hkey : key ∈ seen
    · rw [if_pos (List.contains_iff_mem.mpr hkey), ih]
      simp only [List.mem_cons]
      by_cases hk : k = key
      · subst hk
        simp [hkey]
      · simp [hk]
    · rw [if_neg (fun h => hkey (List.contains_iff_mem.mp h))]
      have hnot : key ∉ (sortFields (key :: seen) xs).map Prod.fst := by
        intro hm
        obtain ⟨p, hp, hp'⟩ := List.mem_map.mp hm
        have hsome : ((sortFields (key :: seen) xs).lookup key).isSome = true :=
          List.lookup_isSome_iff.mpr ⟨p, hp, by simp [hp']⟩
        rw [ih] at hsome
        simp at hsome
      rw [lookup_orderedInsert hnot, ih]
      simp only [List.mem_cons]
      by_cases hk : k = key
      · subst hk
        simp [hkey]
      · simp [hk]

/-- The keys come once each, in their order. -/
theorem sortFields_pairwise (xs : List (String × Json)) (seen : List String) :
    (sortFields seen xs).Pairwise fun a b => a.1 < b.1 := by
  induction xs generalizing seen with
  | nil => exact .nil
  | cons x xs ih =>
    obtain ⟨key, value⟩ := x
    rw [sortFields]
    split
    · exact ih _
    · have hnot : ∀ p ∈ sortFields (key :: seen) xs, p.1 ≠ key := by
        rintro p hp rfl
        have hsome : ((sortFields (p.1 :: seen) xs).lookup p.1).isSome = true :=
          List.lookup_isSome_iff.mpr ⟨p, hp, by simp⟩
        rw [lookup_sortFields] at hsome
        simp at hsome
      exact insert_pairwise (ih _) hnot
where
  insert_pairwise {key : String} {value : Json} {ys : List (String × Json)}
      (hys : ys.Pairwise fun a b => a.1 < b.1) (hnot : ∀ p ∈ ys, p.1 ≠ key) :
      (List.orderedInsert (fun a b => a.1 ≤ b.1) (key, value) ys).Pairwise
        fun a b => a.1 < b.1 := by
    induction ys with
    | nil => exact List.pairwise_singleton _ _
    | cons y ys ih =>
      rw [List.pairwise_cons] at hys
      rw [List.orderedInsert_cons]
      split
      · rename_i hle
        have hlt : key < y.1 := lt_of_le_of_ne hle (Ne.symm (hnot y List.mem_cons_self))
        refine List.pairwise_cons.mpr ⟨fun p hp => ?_, List.pairwise_cons.mpr hys⟩
        rcases List.mem_cons.mp hp with rfl | hp
        · exact hlt
        · exact hlt.trans (hys.1 p hp)
      · rename_i hle
        refine List.pairwise_cons.mpr ⟨fun p hp => ?_, ih hys.2 fun p hp =>
          hnot p (List.mem_cons_of_mem _ hp)⟩
        rw [List.mem_orderedInsert] at hp
        rcases hp with rfl | hp
        · exact lt_of_not_ge hle
        · exact hys.1 p hp

/-- Fields in the order of their keys are known by their lookups. -/
theorem eq_of_lookup {xs ys : List (String × Json)} (hxs : xs.Pairwise fun a b => a.1 < b.1)
    (hys : ys.Pairwise fun a b => a.1 < b.1) (h : ∀ k, xs.lookup k = ys.lookup k) : xs = ys := by
  have hmem : ∀ {zs : List (String × Json)} {p : String × Json}, p ∈ zs →
      (zs.lookup p.1).isSome = true := fun hp => List.lookup_isSome_iff.mpr ⟨_, hp, by simp⟩
  have hkey : ∀ {zs : List (String × Json)} {k : String}, (zs.lookup k).isSome = true →
      ∃ p ∈ zs, p.1 = k := by
    intro zs k hk
    obtain ⟨p, hp, he⟩ := List.lookup_isSome_iff.mp hk
    exact ⟨p, hp, (by simpa using he : k = p.1).symm⟩
  induction xs generalizing ys with
  | nil =>
    cases ys with
    | nil => rfl
    | cons y ys =>
      have hy := hmem (List.mem_cons_self : y ∈ y :: ys)
      rw [← h] at hy
      cases hy
  | cons x xs ih =>
    cases ys with
    | nil =>
      have hx := hmem (List.mem_cons_self : x ∈ x :: xs)
      rw [h] at hx
      cases hx
    | cons y ys =>
      rw [List.pairwise_cons] at hxs hys
      have hsame : x.1 = y.1 := by
        have hx := hmem (List.mem_cons_self : x ∈ x :: xs)
        rw [h] at hx
        have hy := hmem (List.mem_cons_self : y ∈ y :: ys)
        rw [← h] at hy
        obtain ⟨p, hp, hpx⟩ := hkey hx
        obtain ⟨q, hq, hqy⟩ := hkey hy
        rcases List.mem_cons.mp hp with rfl | hp
        · exact hpx.symm
        · rcases List.mem_cons.mp hq with rfl | hq
          · exact hqy
          · have h1 := hys.1 p hp
            have h2 := hxs.1 q hq
            rw [hpx] at h1
            rw [hqy] at h2
            exact absurd (h1.trans h2) (lt_irrefl _)
      obtain ⟨k, v⟩ := x
      obtain ⟨j, w⟩ := y
      obtain rfl : k = j := hsame
      have hv := h k
      rw [Dict.lookup_cons_eq, Dict.lookup_cons_eq, if_pos rfl, if_pos rfl] at hv
      obtain rfl := Option.some.inj hv
      refine congrArg _ (ih hxs.2 hys.2 fun i => ?_)
      by_cases hi : i = k
      · subst hi
        have hnone : ∀ {zs : List (String × Json)}, (∀ p ∈ zs, i < p.1) → zs.lookup i = none := by
          intro zs hzs
          by_contra hne
          obtain ⟨p, hp, hpi⟩ := hkey (Option.isSome_iff_ne_none.mpr hne)
          exact absurd (hzs p hp) (by rw [hpi]; exact lt_irrefl _)
        rw [hnone hxs.1, hnone hys.1]
      · have hrest := h i
        rwa [Dict.lookup_cons_eq, Dict.lookup_cons_eq, if_neg hi, if_neg hi] at hrest

/-- Dictionaries are the same document where every key has the same on both sides. -/
theorem same_obj {xs ys : List (String × Json)} :
    Same (obj xs) (obj ys) ↔ ∀ k, (xs.lookup k).map sortKeys = (ys.lookup k).map sortKeys := by
  have hlookup : ∀ zs : List (String × Json), ∀ k,
      (sortFields [] zs).lookup k = (zs.lookup k).map sortKeys := by
    intro zs k
    rw [lookup_sortFields, if_neg List.not_mem_nil]
  rw [Same, sortKeys, sortKeys, obj.injEq]
  constructor
  · intro h k
    rw [← hlookup, ← hlookup, h]
  · intro h
    refine eq_of_lookup (sortFields_pairwise _ _) (sortFields_pairwise _ _) fun k => ?_
    rw [hlookup, hlookup, h]

end Eventide.Json
