import Mathlib.Data.List.Nodup
import Mathlib.Data.List.Basic
import Mathlib.Data.List.Sort
import Mathlib.Algebra.BigOperators.Group.List.Basic
import Mathlib.Algebra.GroupWithZero.Nat
import Mathlib.Algebra.Ring.Int.Defs

/-! # Insertion-ordered dictionaries

A dictionary keeps its keys in the order of their first insertion; writing a key that is
already there changes its value in place. -/

universe u v w

/-- Entries in insertion order, no key twice. -/
@[ext] structure Dict (κ : Type u) (ν : Type v) where
  entries : List (κ × ν)
  nodup : (entries.map Prod.fst).Nodup

namespace Dict

variable {κ : Type u} {ν : Type v} {ω : Type w}

def empty : Dict κ ν := ⟨[], List.nodup_nil⟩

instance : Inhabited (Dict κ ν) := ⟨empty⟩

instance [DecidableEq κ] [DecidableEq ν] : DecidableEq (Dict κ ν) := fun d e =>
  decidable_of_iff (d.entries = e.entries) ⟨Dict.ext, congrArg entries⟩

def keys (d : Dict κ ν) : List κ := d.entries.map Prod.fst

def values (d : Dict κ ν) : List ν := d.entries.map Prod.snd

@[simp] theorem entries_empty : (empty : Dict κ ν).entries = [] := rfl

@[simp] theorem keys_empty : (empty : Dict κ ν).keys = [] := rfl

theorem keys_nodup (d : Dict κ ν) : d.keys.Nodup := d.nodup

section Operations

variable [DecidableEq κ]

def get? (d : Dict κ ν) (k : κ) : Option ν := d.entries.lookup k

def contains (d : Dict κ ν) (k : κ) : Bool := (d.get? k).isSome

/-- The entries after `d[k] = v`. -/
def setEntries (k : κ) (v : ν) : List (κ × ν) → List (κ × ν)
  | [] => [(k, v)]
  | (k', v') :: rest => if k' = k then (k, v) :: rest else (k', v') :: setEntries k v rest

theorem map_fst_setEntries (k : κ) (v : ν) (xs : List (κ × ν)) :
    (setEntries k v xs).map Prod.fst =
      if k ∈ xs.map Prod.fst then xs.map Prod.fst else xs.map Prod.fst ++ [k] := by
  induction xs with
  | nil => simp [setEntries]
  | cons x xs ih =>
    obtain ⟨k', v'⟩ := x
    by_cases h : k' = k
    · simp [setEntries, h]
    · by_cases hm : k ∈ xs.map Prod.fst
      · simp [setEntries, h, ih, hm]
      · have hne : ¬ k = k' := fun e => h e.symm
        simp only [setEntries, h, if_false, List.map_cons, ih, hm, List.mem_cons, hne, or_self,
          List.cons_append]

theorem nodup_setEntries {k : κ} {v : ν} {xs : List (κ × ν)} (h : (xs.map Prod.fst).Nodup) :
    ((setEntries k v xs).map Prod.fst).Nodup := by
  rw [map_fst_setEntries]
  split
  · exact h
  · rename_i hm
    exact h.append (List.nodup_singleton k) (List.disjoint_singleton.mpr hm)

theorem lookup_cons_eq (k j : κ) (v : ν) (xs : List (κ × ν)) :
    ((k, v) :: xs).lookup j = if j = k then some v else xs.lookup j := by
  by_cases h : j = k
  · simp [h]
  · simp [List.lookup_cons, h, beq_false_of_ne h]

theorem lookup_eq_none_of_not_mem {k : κ} {xs : List (κ × ν)} (h : k ∉ xs.map Prod.fst) :
    xs.lookup k = none := by
  rw [List.lookup_eq_none_iff]
  intro p hp
  have hne : k ≠ p.1 := fun he => h (he ▸ List.mem_map_of_mem hp)
  simpa using hne

theorem lookup_map (f : ν → ω) (k : κ) (xs : List (κ × ν)) :
    (xs.map fun p => (p.1, f p.2)).lookup k = (xs.lookup k).map f := by
  induction xs with
  | nil => rfl
  | cons x xs ih =>
    rw [List.map_cons, lookup_cons_eq, ih, lookup_cons_eq]
    split <;> rfl

theorem lookup_setEntries (k j : κ) (v : ν) (xs : List (κ × ν)) :
    (setEntries k v xs).lookup j = if j = k then some v else xs.lookup j := by
  induction xs with
  | nil => simp [setEntries, lookup_cons_eq]
  | cons x xs ih =>
    obtain ⟨k', v'⟩ := x
    by_cases h : k' = k
    · subst h
      by_cases hj : j = k' <;> simp [setEntries, lookup_cons_eq, hj]
    · by_cases hj : j = k'
      · subst hj
        simp [setEntries, h]
      · simp [setEntries, lookup_cons_eq, h, hj, ih]

/-- `d[k] = v`. -/
def set (d : Dict κ ν) (k : κ) (v : ν) : Dict κ ν :=
  ⟨setEntries k v d.entries, nodup_setEntries d.nodup⟩

/-- `d.setdefault(k, v)`. -/
def setDefault (d : Dict κ ν) (k : κ) (v : ν) : Dict κ ν := if d.contains k then d else d.set k v

/-- `d.pop(k, None)`. -/
def erase (d : Dict κ ν) (k : κ) : Dict κ ν :=
  ⟨d.entries.filter (·.1 ≠ k),
    d.nodup.sublist (List.filter_sublist.map Prod.fst)⟩

/-- `{k: v for k, v in d.items() if keep(v)}`. -/
def filterValues (d : Dict κ ν) (keep : ν → Bool) : Dict κ ν :=
  ⟨d.entries.filter fun p => keep p.2, d.nodup.sublist (List.filter_sublist.map Prod.fst)⟩

/-- `d.update(pairs)`. -/
def update (d : Dict κ ν) (pairs : List (κ × ν)) : Dict κ ν :=
  pairs.foldl (fun d p => d.set p.1 p.2) d

/-- A dictionary literal. -/
def ofList (pairs : List (κ × ν)) : Dict κ ν := empty.update pairs

/-- The dictionary that looks a key up in `pairs`, whose first entry of a key counts. -/
def ofLookup (pairs : List (κ × ν)) : Dict κ ν :=
  pairs.foldl (fun d p => d.setDefault p.1 p.2) empty

variable {d : Dict κ ν} {k j : κ} {v : ν}

@[simp] theorem get?_empty : (empty : Dict κ ν).get? k = none := rfl

@[simp] theorem get?_set : (d.set k v).get? j = if j = k then some v else d.get? j :=
  lookup_setEntries k j v d.entries

theorem get?_set_self : (d.set k v).get? k = some v := by simp

theorem get?_set_of_ne (h : j ≠ k) : (d.set k v).get? j = d.get? j := by simp [h]

theorem mem_keys : k ∈ d.keys ↔ (d.get? k).isSome := by
  rw [get?, List.lookup_isSome_iff, keys, List.mem_map]
  constructor
  · rintro ⟨p, hp, rfl⟩
    exact ⟨p, hp, by simp⟩
  · rintro ⟨p, hp, h⟩
    exact ⟨p, hp, (by simpa using h : k = p.1).symm⟩

theorem contains_iff : d.contains k = true ↔ k ∈ d.keys := mem_keys.symm

theorem get?_eq_none : d.get? k = none ↔ k ∉ d.keys := by
  rw [mem_keys]
  cases d.get? k <;> simp

theorem mem_entries : (k, v) ∈ d.entries ↔ d.get? k = some v := by
  obtain ⟨xs, h⟩ := d
  simp only [get?]
  induction xs with
  | nil => simp
  | cons x xs ih =>
    obtain ⟨k', v'⟩ := x
    obtain ⟨hk, ht⟩ := List.nodup_cons.mp h
    by_cases hkk : k = k'
    · subst hkk
      have hn : (k, v) ∉ xs := fun hm => hk (List.mem_map.mpr ⟨(k, v), hm, rfl⟩)
      simp [hn, eq_comm]
    · simp [lookup_cons_eq, hkk, ih ht]

theorem mem_values : v ∈ d.values ↔ ∃ k, d.get? k = some v := by
  simp only [values, List.mem_map, ← mem_entries]
  constructor
  · rintro ⟨⟨k, w⟩, h, rfl⟩
    exact ⟨k, h⟩
  · rintro ⟨k, h⟩
    exact ⟨(k, v), h, rfl⟩

theorem get?_filterValues {keep : ν → Bool} :
    (d.filterValues keep).get? k = some v ↔ d.get? k = some v ∧ keep v = true := by
  rw [← mem_entries, ← mem_entries, filterValues, List.mem_filter]

theorem keys_set : (d.set k v).keys = if k ∈ d.keys then d.keys else d.keys ++ [k] :=
  map_fst_setEntries k v d.entries

theorem mem_keys_set : j ∈ (d.set k v).keys ↔ j = k ∨ j ∈ d.keys := by
  simp only [mem_keys, get?_set]
  by_cases h : j = k <;> simp [h]

@[simp] theorem get?_setDefault :
    (d.setDefault k v).get? j = if j = k then some ((d.get? k).getD v) else d.get? j := by
  unfold setDefault contains
  by_cases hj : j = k
  · subst hj
    cases h : d.get? j with
    | none => simp
    | some w => simp [h]
  · cases h : d.get? k <;> simp [hj]

theorem setDefault_of_mem (h : k ∈ d.keys) : d.setDefault k v = d := by
  rw [setDefault, if_pos (contains_iff.mpr h)]

theorem setDefault_of_not_mem (h : k ∉ d.keys) : d.setDefault k v = d.set k v := by
  rw [setDefault, if_neg (fun hc => h (contains_iff.mp hc))]

theorem keys_setDefault :
    (d.setDefault k v).keys = if k ∈ d.keys then d.keys else d.keys ++ [k] := by
  by_cases h : k ∈ d.keys
  · rw [setDefault_of_mem h, if_pos h]
  · rw [setDefault_of_not_mem h, keys_set]

/-- A new key goes to the end. -/
theorem entries_set_of_not_mem (h : k ∉ d.keys) :
    (d.set k v).entries = d.entries ++ [(k, v)] := by
  obtain ⟨xs, hx⟩ := d
  simp only [set, keys] at h ⊢
  clear hx
  induction xs with
  | nil => rfl
  | cons x xs ih =>
    obtain ⟨k', v'⟩ := x
    simp only [List.map_cons, List.mem_cons, not_or] at h
    simp [setEntries, Ne.symm h.1, ih h.2]

theorem lookup_filter_ne (k j : κ) (xs : List (κ × ν)) :
    (xs.filter (·.1 ≠ k)).lookup j = if j = k then none else xs.lookup j := by
  induction xs with
  | nil => simp
  | cons x xs ih =>
    obtain ⟨k', v'⟩ := x
    by_cases h : k' = k
    · subst h
      rw [List.filter_cons_of_neg (by simp), ih]
      by_cases hj : j = k' <;> simp [lookup_cons_eq, hj]
    · rw [List.filter_cons_of_pos (by simpa using h), lookup_cons_eq, ih, lookup_cons_eq]
      by_cases hj : j = k'
      · subst hj
        simp [h]
      · simp [hj]

/-- An entry and the rest. -/
theorem entries_perm (h : d.get? k = some v) : d.entries.Perm ((k, v) :: (d.erase k).entries) := by
  obtain ⟨xs, hx⟩ := d
  simp only [get?, erase] at h ⊢
  induction xs with
  | nil => simp at h
  | cons x xs ih =>
    obtain ⟨k', v'⟩ := x
    obtain ⟨hk, ht⟩ := List.nodup_cons.mp hx
    rw [lookup_cons_eq] at h
    by_cases hkk : k = k'
    · subst hkk
      obtain rfl : v' = v := by simpa using h
      have hf : xs.filter (·.1 ≠ k) = xs := by
        rw [List.filter_eq_self]
        intro p hp
        have hne : p.1 ≠ k := fun he => hk (List.mem_map.mpr ⟨p, hp, he⟩)
        simpa using hne
      rw [List.filter_cons_of_neg (by simp), hf]
    · rw [if_neg hkk] at h
      rw [List.filter_cons_of_pos (by simpa using Ne.symm hkk)]
      exact ((ih ht h).cons (k', v')).trans (List.Perm.swap _ _ _)

theorem countP_erase (h : d.get? k = some v) (p : ν → Bool) :
    d.values.countP p = (d.erase k).values.countP p + if p v then 1 else 0 := by
  have hp := ((entries_perm h).map Prod.snd).countP_eq p
  simpa [values, List.countP_cons] using hp

theorem length_set (h : k ∉ d.keys) : (d.set k v).entries.length = d.entries.length + 1 := by
  simp [entries_set_of_not_mem h]

theorem countP_set (h : k ∉ d.keys) (p : ν → Bool) :
    (d.set k v).values.countP p = d.values.countP p + if p v then 1 else 0 := by
  simp [values, entries_set_of_not_mem h, List.countP_append, List.countP_singleton]

@[simp] theorem get?_erase : (d.erase k).get? j = if j = k then none else d.get? j :=
  lookup_filter_ne k j d.entries

theorem keys_erase : (d.erase k).keys = d.keys.filter (· ≠ k) := by
  rw [keys, keys, erase, List.filter_map]
  rfl

theorem erase_set : (d.set k v).erase k = d.erase k := by
  obtain ⟨xs, hx⟩ := d
  refine Dict.ext ?_
  simp only [set, erase]
  clear hx
  induction xs with
  | nil => simp [setEntries]
  | cons x xs ih =>
    obtain ⟨k', v'⟩ := x
    by_cases h : k' = k
    · simp [setEntries, h]
    · simpa [setEntries, h] using ih

/-- A sum over the values is one value and the rest. -/
theorem sum_erase (h : d.get? k = some v) (f : ν → ℕ) :
    (d.values.map f).sum = f v + ((d.erase k).values.map f).sum := by
  have hp := ((entries_perm h).map fun p => f p.2).sum_eq
  simpa [values, Function.comp_def] using hp

theorem sum_set (f : ν → ℕ) :
    ((d.set k v).values.map f).sum = f v + ((d.erase k).values.map f).sum := by
  rw [sum_erase get?_set_self f, erase_set]

theorem mem_keys_erase : j ∈ (d.erase k).keys ↔ j ≠ k ∧ j ∈ d.keys := by
  simp only [mem_keys, get?_erase]
  by_cases h : j = k <;> simp [h]

theorem entries_foldl_setDefault {pairs : List (κ × ν)}
    (h : (d.keys ++ pairs.map Prod.fst).Nodup) :
    (pairs.foldl (fun d p => d.setDefault p.1 p.2) d).entries = d.entries ++ pairs := by
  induction pairs generalizing d with
  | nil => simp
  | cons p pairs ih =>
    have hp : p.1 ∉ d.keys := by
      intro hm
      simpa using (List.nodup_append.mp h).2.2 p.1 hm p.1 (by simp)
    have hk : (d.set p.1 p.2).keys = d.keys ++ [p.1] := by rw [keys_set, if_neg hp]
    rw [List.foldl_cons, setDefault_of_not_mem hp, ih (by rw [hk]; simpa using h),
      entries_set_of_not_mem hp]
    simp

/-- Reading a dictionary's own entries back. -/
theorem ofLookup_entries (d : Dict κ ν) : ofLookup d.entries = d :=
  Dict.ext (by rw [ofLookup, entries_foldl_setDefault (by simpa using d.nodup)]; simp)

theorem get?_foldl_setDefault {pairs : List (κ × ν)} :
    (pairs.foldl (fun d p => d.setDefault p.1 p.2) d).get? j = (d.get? j).or (pairs.lookup j) := by
  induction pairs generalizing d with
  | nil => simp
  | cons p pairs ih =>
    rw [List.foldl_cons, ih, get?_setDefault, lookup_cons_eq]
    by_cases hj : j = p.1
    · subst hj
      cases d.get? p.1 <;> simp
    · simp [hj]

theorem get?_ofLookup {pairs : List (κ × ν)} : (ofLookup pairs).get? j = pairs.lookup j := by
  rw [ofLookup, get?_foldl_setDefault, get?_empty, Option.none_or]

/-- A dictionary of the values of a function. -/
theorem entries_eq_map {f : κ → ν} (h : ∀ k v, d.get? k = some v → v = f k) :
    d.entries = d.keys.map fun k => (k, f k) := by
  rw [keys, List.map_map]
  refine (List.map_id _).symm.trans (List.map_congr_left fun p hp => ?_)
  exact Prod.ext rfl (h p.1 p.2 (mem_entries.mp hp))

theorem values_eq_map {f : κ → ν} (h : ∀ k v, d.get? k = some v → v = f k) :
    d.values = d.keys.map f := by
  rw [values, entries_eq_map h, List.map_map]
  rfl

theorem get?_update_of_not_mem {pairs : List (κ × ν)} (h : j ∉ pairs.map Prod.fst) :
    (d.update pairs).get? j = d.get? j := by
  induction pairs generalizing d with
  | nil => rfl
  | cons p pairs ih =>
    simp only [List.map_cons, List.mem_cons, not_or] at h
    exact (ih h.2).trans (get?_set_of_ne h.1)

theorem mem_of_contains_ofList {pairs : List (κ × ν)} {k : κ} (h : (ofList pairs).contains k = true) :
    k ∈ pairs.map Prod.fst := by
  by_contra hk
  have hnone : (ofList pairs).get? k = none := get?_update_of_not_mem hk
  rw [contains, hnone] at h
  cases h

theorem mem_of_get?_update {pairs : List (κ × ν)} (h : (d.update pairs).get? k = some v) :
    (k, v) ∈ pairs ∨ d.get? k = some v := by
  induction pairs generalizing d with
  | nil => exact Or.inr h
  | cons p pairs ih =>
    rcases ih h with hm | hd
    · exact Or.inl (List.mem_cons_of_mem _ hm)
    · rw [get?_set] at hd
      split at hd
      · rename_i hk
        rw [hk, ← Option.some.inj hd]
        exact Or.inl List.mem_cons_self
      · exact Or.inr hd

theorem mem_of_get?_ofList {pairs : List (κ × ν)} (h : (ofList pairs).get? k = some v) :
    (k, v) ∈ pairs :=
  (mem_of_get?_update h).resolve_right (by simp)

theorem update_append (pairs more : List (κ × ν)) :
    d.update (pairs ++ more) = (d.update pairs).update more := by
  simp [update]

@[simp] theorem update_cons (p : κ × ν) (pairs : List (κ × ν)) :
    d.update (p :: pairs) = (d.set p.1 p.2).update pairs := rfl

@[simp] theorem update_nil : d.update [] = d := rfl

/-- Pairs with distinct keys are what a lookup finds first. -/
theorem get?_update {pairs : List (κ × ν)} (h : (pairs.map Prod.fst).Nodup) :
    (d.update pairs).get? j = (pairs.lookup j).or (d.get? j) := by
  induction pairs generalizing d with
  | nil => rfl
  | cons p pairs ih =>
    obtain ⟨hp, ht⟩ := List.nodup_cons.mp h
    rw [update_cons, ih ht, get?_set, lookup_cons_eq]
    by_cases hj : j = p.1
    · subst hj
      simp [lookup_eq_none_of_not_mem hp]
    · simp [hj]

theorem get?_update_entries (e : Dict κ ν) : (d.update e.entries).get? j = (e.get? j).or (d.get? j) :=
  get?_update e.nodup

/-- Dictionaries that share no key, put into one. -/
theorem get?_foldl_update {ι : Type*} {f : ι → Dict κ ν} {is : List ι} {j : κ} {v : ν}
    (hf : ∀ a ∈ is, ∀ b ∈ is, ((f a).get? j).isSome → ((f b).get? j).isSome → a = b) :
    (is.foldl (fun d i => d.update (f i).entries) empty).get? j = some v ↔
      ∃ i ∈ is, (f i).get? j = some v := by
  suffices h : ∀ d : Dict κ ν, (is.foldl (fun d i => d.update (f i).entries) d).get? j = some v ↔
      (∃ i ∈ is, (f i).get? j = some v) ∨ (∀ i ∈ is, (f i).get? j = none) ∧ d.get? j = some v by
    rw [h]
    simp
  induction is with
  | nil => simp
  | cons i is ih =>
    intro d
    have htail := ih (fun a ha b hb => hf a (List.mem_cons_of_mem _ ha) b (List.mem_cons_of_mem _ hb))
      (d.update (f i).entries)
    rw [List.foldl_cons, htail, get?_update_entries]
    simp only [List.mem_cons, exists_eq_or_imp, forall_eq_or_imp]
    cases hi : (f i).get? j with
    | none => simp
    | some w =>
      have hrest : ∀ b ∈ is, (f b).get? j = none ∨ b = i := by
        intro b hb
        cases hb' : (f b).get? j with
        | none => exact Or.inl rfl
        | some u =>
          exact Or.inr (hf b (List.mem_cons_of_mem _ hb) i List.mem_cons_self (by simp [hb'])
            (by simp [hi]))
      simp only [Option.some_or, reduceCtorEq, false_and, or_false]
      constructor
      · rintro (⟨b, hb, hv⟩ | ⟨-, hv⟩)
        · exact Or.inr ⟨b, hb, hv⟩
        · exact Or.inl hv
      · rintro (hv | ⟨b, hb, hv⟩)
        · by_cases hall : ∀ b ∈ is, (f b).get? j = none
          · exact Or.inr ⟨hall, hv⟩
          · push Not at hall
            obtain ⟨b, hb, hne⟩ := hall
            obtain rfl := (hrest b hb).resolve_left hne
            exact Or.inl ⟨b, hb, hi.trans hv⟩
        · exact Or.inl ⟨b, hb, hv⟩

/-- A value that is gathered from the items of its key, in their order. -/
theorem get?_foldl_gather {α : Type*} (key : α → κ) (add : ν → α → ν) (init : ν) (xs : List α)
    (d : Dict κ ν) (j : κ) :
    (xs.foldl (fun d x => d.set (key x) (add ((d.get? (key x)).getD init) x)) d).get? j =
      if (xs.filter (key · = j)) = [] then d.get? j
      else some ((xs.filter (key · = j)).foldl add ((d.get? j).getD init)) := by
  induction xs generalizing d with
  | nil => simp
  | cons x xs ih =>
    rw [List.foldl_cons, ih]
    by_cases hx : key x = j
    · subst hx
      rw [List.filter_cons_of_pos (by simp), if_neg (List.cons_ne_nil _ _), List.foldl_cons,
        get?_set_self, Option.getD_some]
      split
      · rename_i hnil
        rw [hnil, List.foldl_nil]
      · rfl
    · rw [List.filter_cons_of_neg (by simpa using hx), get?_set_of_ne (Ne.symm hx)]

end Operations

section Sorted

variable [LinearOrder κ]

/-- The entries in the order of their keys. -/
def sorted (d : Dict κ ν) : List (κ × ν) := d.entries.insertionSort fun a b => a.1 ≤ b.1

theorem mem_sorted {d : Dict κ ν} {k : κ} {v : ν} : (k, v) ∈ d.sorted ↔ d.get? k = some v := by
  rw [sorted, List.mem_insertionSort, mem_entries]

theorem pairwise_sorted (d : Dict κ ν) : d.sorted.Pairwise fun a b => a.1 < b.1 := by
  have hle : d.sorted.Pairwise fun a b => a.1 ≤ b.1 := by
    have : Std.Total fun a b : κ × ν => a.1 ≤ b.1 := ⟨fun a b => le_total a.1 b.1⟩
    have : IsTrans (κ × ν) fun a b => a.1 ≤ b.1 := ⟨fun _ _ _ hab hbc => hab.trans hbc⟩
    exact List.pairwise_insertionSort _ _
  have hne : d.sorted.Pairwise fun a b => a.1 ≠ b.1 := by
    refine ((List.perm_insertionSort _ d.entries).pairwise_iff ?_).mpr (List.pairwise_map.mp d.nodup)
    exact fun h => h.symm
  exact hle.imp₂ (fun _ _ h hn => lt_of_le_of_ne h hn) hne

/-- Rows that hold the same values in the order of their keys are these entries. -/
theorem sorted_eq {d : Dict κ ν} {rows : List (κ × ν)} (hs : rows.Pairwise fun a b => a.1 < b.1)
    (hm : ∀ k v, (k, v) ∈ rows ↔ d.get? k = some v) : d.sorted = rows := by
  have hnodup {xs : List (κ × ν)} (h : xs.Pairwise fun a b => a.1 < b.1) : xs.Nodup :=
    h.imp fun hab => ne_of_apply_ne Prod.fst hab.ne
  refine List.Perm.eq_of_pairwise ?_ d.pairwise_sorted hs ?_
  · intro a b _ _ hab hba
    exact absurd hab hba.not_gt
  · refine (List.perm_ext_iff_of_nodup (hnodup d.pairwise_sorted) (hnodup hs)).mpr ?_
    rintro ⟨k, v⟩
    rw [mem_sorted, hm]

end Sorted

end Dict
