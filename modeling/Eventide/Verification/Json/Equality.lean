import Eventide.Model.Json
import Mathlib.Data.List.Forall2

/-! # Python equality of JSON values is an equivalence -/

namespace Eventide.Json

theorem numberEq_iff {a b : Json} {q : ℚ} (h : a.number? = some q) :
    numberEq a b = true ↔ b.number? = some q := by
  unfold numberEq
  rw [h]
  cases b.number? with
  | none => simp
  | some r => simpa using eq_comm

theorem pyEq_number {a b : Json} {q : ℚ} (h : a.number? = some q) :
    pyEq a b = true ↔ b.number? = some q := by
  cases a with
  | bool v => rw [pyEq]; exact numberEq_iff h
  | int v => rw [pyEq]; exact numberEq_iff h
  | float v => rw [pyEq]; exact numberEq_iff h
  | null => simp [number?] at h
  | str s => simp [number?] at h
  | arr xs => simp [number?] at h
  | obj xs => simp [number?] at h

theorem pyEqItems_iff {xs ys : List Json} :
    pyEqItems xs ys = true ↔ List.Forall₂ (fun a b => pyEq a b = true) xs ys := by
  induction xs generalizing ys with
  | nil => cases ys <;> simp [pyEqItems]
  | cons x xs ih => cases ys <;> simp [pyEqItems, ih]

theorem pyEqFields_cons {seen : List String} {k : String} {v : Json}
    {xs ys : List (String × Json)} :
    pyEqFields seen ((k, v) :: xs) ys = true ↔
      (k ∉ seen → ∃ w, ys.lookup k = some w ∧ pyEq v w = true) ∧
        pyEqFields (k :: seen) xs ys = true := by
  rw [pyEqFields, Bool.and_eq_true]
  refine and_congr_left fun _ => ?_
  by_cases hk : k ∈ seen
  · simp [hk]
  · cases ys.lookup k <;> simp [hk]

theorem pyEqFields_iff {seen : List String} {xs ys : List (String × Json)} :
    pyEqFields seen xs ys = true ↔ ∀ k, k ∉ seen → ∀ v, xs.lookup k = some v →
      ∃ w, ys.lookup k = some w ∧ pyEq v w = true := by
  induction xs generalizing seen with
  | nil => simp [pyEqFields]
  | cons x xs ih =>
    obtain ⟨j, u⟩ := x
    rw [pyEqFields_cons, ih]
    constructor
    · rintro ⟨hj, ht⟩ k hk v hv
      rw [Dict.lookup_cons_eq] at hv
      split at hv
      · rename_i hkj
        subst hkj
        obtain rfl := Option.some.inj hv
        exact hj hk
      · rename_i hkj
        exact ht k (by simp [hkj, hk]) v hv
    · intro h
      refine ⟨fun hj => h j hj u (by simp), fun k hk v hv => ?_⟩
      simp only [List.mem_cons, not_or] at hk
      exact h k hk.2 v (by simp [Dict.lookup_cons_eq, hk.1, hv])

theorem pyEq_arr {xs : List Json} {b : Json} :
    pyEq (arr xs) b = true ↔
      ∃ ys, b = arr ys ∧ List.Forall₂ (fun x y => pyEq x y = true) xs ys := by
  cases b <;> simp [pyEq, pyEqItems_iff]

theorem eq_obj_of_pyEq {xs : List (String × Json)} {b : Json} (h : pyEq (obj xs) b = true) :
    ∃ ys, b = obj ys := by
  cases b <;> simp_all [pyEq]

/-- Two dictionaries are equal when each key has equal values, or none, on both sides. -/
theorem pyEq_obj {xs ys : List (String × Json)} :
    pyEq (obj xs) (obj ys) = true ↔
      (∀ k, (xs.lookup k).isSome ↔ (ys.lookup k).isSome) ∧
      ∀ k v w, xs.lookup k = some v → ys.lookup k = some w → pyEq v w = true := by
  simp only [pyEq, Bool.and_eq_true, List.all_eq_true, pyEqFields_iff, List.not_mem_nil,
    not_false_eq_true, forall_true_left]
  have hkeys : (∀ y ∈ ys, (xs.lookup y.1).isSome = true) ↔
      ∀ k, (ys.lookup k).isSome = true → (xs.lookup k).isSome = true := by
    constructor
    · intro h k hk
      obtain ⟨y, hy, he⟩ := List.lookup_isSome_iff.mp hk
      obtain rfl : k = y.1 := by simpa using he
      exact h y hy
    · intro h y hy
      exact h y.1 (List.lookup_isSome_iff.mpr ⟨y, hy, by simp⟩)
  rw [hkeys]
  constructor
  · rintro ⟨hys, hxs⟩
    refine ⟨fun k => ⟨fun hk => ?_, hys k⟩, fun k v w hv hw => ?_⟩
    · obtain ⟨v, hv⟩ := Option.isSome_iff_exists.mp hk
      obtain ⟨w, hw, -⟩ := hxs k v hv
      simp [hw]
    · obtain ⟨w', hw', he⟩ := hxs k v hv
      exact Option.some.inj (hw'.symm.trans hw) ▸ he
  · rintro ⟨hk, he⟩
    refine ⟨fun k hy => (hk k).mpr hy, fun k v hv => ?_⟩
    obtain ⟨w, hw⟩ := Option.isSome_iff_exists.mp ((hk k).mp (by simp [hv]))
    exact ⟨w, hw, he k v w hv hw⟩

theorem sizeOf_lookup_lt {xs : List (String × Json)} {k : String} {v : Json}
    (h : xs.lookup k = some v) : sizeOf v < sizeOf (obj xs) := by
  induction xs with
  | nil => simp at h
  | cons x xs ih =>
    obtain ⟨j, u⟩ := x
    rw [Dict.lookup_cons_eq] at h
    split at h
    · obtain rfl := Option.some.inj h
      simp
      omega
    · have hlt := ih h
      simp at hlt ⊢
      omega

/-- Symmetry and transitivity together, by induction on the left value: a dictionary turns a
lookup on the right into one on the left. -/
theorem pyEq_symm_trans (n : ℕ) : ∀ a : Json, sizeOf a < n →
    (∀ b, pyEq a b = true → pyEq b a = true) ∧
      ∀ b c, pyEq a b = true → pyEq b c = true → pyEq a c = true := by
  induction n with
  | zero => intro a h; omega
  | succ n ih =>
    intro a ha
    have hnumber {q : ℚ} (hq : a.number? = some q) :
        (∀ b, pyEq a b = true → pyEq b a = true) ∧
          ∀ b c, pyEq a b = true → pyEq b c = true → pyEq a c = true := by
      refine ⟨fun b hb => (pyEq_number ((pyEq_number hq).mp hb)).mpr hq, fun b c hb hc => ?_⟩
      exact (pyEq_number hq).mpr ((pyEq_number ((pyEq_number hq).mp hb)).mp hc)
    cases a with
    | bool v => exact hnumber rfl
    | int v => exact hnumber rfl
    | float v => exact hnumber rfl
    | null =>
      refine ⟨fun b hb => ?_, fun b c hb hc => ?_⟩
      · cases b <;> simp_all [pyEq]
      · cases b <;> simp_all [pyEq]
    | str s =>
      refine ⟨fun b hb => ?_, fun b c hb hc => ?_⟩
      · cases b <;> simp_all [pyEq]
      · cases b <;> simp_all [pyEq]
    | arr xs =>
      have hitem : ∀ x ∈ xs, sizeOf x < n := by
        intro x hx
        have hlt := List.sizeOf_lt_of_mem hx
        simp at ha
        omega
      clear hnumber ha
      refine ⟨fun b hb => ?_, fun b c hb hc => ?_⟩
      · obtain ⟨ys, rfl, hys⟩ := pyEq_arr.mp hb
        refine pyEq_arr.mpr ⟨xs, rfl, ?_⟩
        clear hb
        induction hys with
        | nil => exact .nil
        | cons hx _ iht =>
          exact .cons ((ih _ (hitem _ (by simp))).1 _ hx)
            (iht fun x hx => hitem x (List.mem_cons_of_mem _ hx))
      · obtain ⟨ys, rfl, hys⟩ := pyEq_arr.mp hb
        obtain ⟨zs, rfl, hzs⟩ := pyEq_arr.mp hc
        refine pyEq_arr.mpr ⟨zs, rfl, ?_⟩
        clear hb hc
        induction hys generalizing zs with
        | nil =>
          cases hzs
          exact .nil
        | cons hx _ iht =>
          cases hzs with
          | cons hy hys =>
            exact .cons ((ih _ (hitem _ (by simp))).2 _ _ hx hy)
              (iht (fun x hx => hitem x (List.mem_cons_of_mem _ hx)) _ hys)
    | obj xs =>
      have hfield : ∀ k v, xs.lookup k = some v → sizeOf v < n := fun k v hv =>
        lt_of_lt_of_le (sizeOf_lookup_lt hv) (Nat.le_of_lt_succ ha)
      refine ⟨fun b hb => ?_, fun b c hb hc => ?_⟩
      · obtain ⟨ys, rfl⟩ := eq_obj_of_pyEq hb
        rw [pyEq_obj] at hb ⊢
        exact ⟨fun k => (hb.1 k).symm, fun k v w hv hw => (ih w (hfield k w hw)).1 v (hb.2 k w v hw hv)⟩
      · obtain ⟨ys, rfl⟩ := eq_obj_of_pyEq hb
        obtain ⟨zs, rfl⟩ := eq_obj_of_pyEq hc
        rw [pyEq_obj] at hb hc ⊢
        refine ⟨fun k => (hb.1 k).trans (hc.1 k), fun k u w hu hw => ?_⟩
        obtain ⟨v, hv⟩ := Option.isSome_iff_exists.mp ((hb.1 k).mp (by simp [hu]))
        exact (ih u (hfield k u hu)).2 v w (hb.2 k u v hu hv) (hc.2 k v w hv hw)

theorem pyEq_symm {a b : Json} (h : pyEq a b = true) : pyEq b a = true :=
  (pyEq_symm_trans (sizeOf a + 1) a (Nat.lt_succ_self _)).1 b h

theorem pyEq_trans {a b c : Json} (h : pyEq a b = true) (k : pyEq b c = true) :
    pyEq a c = true :=
  (pyEq_symm_trans (sizeOf a + 1) a (Nat.lt_succ_self _)).2 b c h k

end Eventide.Json
