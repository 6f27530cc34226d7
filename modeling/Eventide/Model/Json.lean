import Mathlib.Data.Rat.Defs
import Eventide.Library.Dict

/-! # JSON values as Python sees them

Every payload of the event log is a `json.loads` value. A dictionary is a list of
fields read by `lookup`, so of two fields with one key the first is the one read. -/

namespace Eventide

/-- A decoded JSON value. Integers and finite floats are kept apart, as `isinstance`
does; they meet again only in `Json.pyEq`. -/
inductive Json where
  | null
  | bool (value : Bool)
  | int (value : ℤ)
  | float (value : ℚ)
  | str (value : String)
  | arr (items : List Json)
  | obj (fields : List (String × Json))
  deriving Inhabited

namespace Json

/-- `value.get(key)` on a dictionary, with `none` for a missing key. -/
def get? : Json → String → Option Json
  | obj fields, key => fields.lookup key
  | _, _ => none

/-- `isinstance(value, Mapping)`. -/
def isObj : Json → Bool
  | obj _ => true
  | _ => false

def str? : Json → Option String
  | str value => some value
  | _ => none

def arr? : Json → Option (List Json)
  | arr items => some items
  | _ => none

def fields : Json → List (String × Json)
  | obj fields => fields
  | _ => []

/-- `bool(value)`. -/
def truthy : Json → Bool
  | null => false
  | bool value => value
  | int value => value != 0
  | float value => value != 0
  | str value => value != ""
  | arr items => !items.isEmpty
  | obj fields => !fields.isEmpty

/-- `bool` is a subclass of `int`, so `True`, `1` and `1.0` are one number to `==`. -/
def number? : Json → Option ℚ
  | bool value => some (if value then 1 else 0)
  | int value => some value
  | float value => some value
  | _ => none

def numberEq (a b : Json) : Bool :=
  match a.number?, b.number? with
  | some p, some q => p == q
  | _, _ => false

mutual

/-- `a == b` in Python: numbers compare by value, dictionaries ignore order. -/
def pyEq : Json → Json → Bool
  | null, b => match b with
    | null => true
    | _ => false
  | str s, b => match b with
    | str t => s == t
    | _ => false
  | arr xs, b => match b with
    | arr ys => pyEqItems xs ys
    | _ => false
  | obj xs, b => match b with
    | obj ys => ys.all (fun y => (xs.lookup y.1).isSome) && pyEqFields [] xs ys
    | _ => false
  | bool v, b => numberEq (bool v) b
  | int v, b => numberEq (int v) b
  | float v, b => numberEq (float v) b

def pyEqItems : List Json → List Json → Bool
  | [], ys => ys.isEmpty
  | x :: xs, ys => match ys with
    | [] => false
    | y :: ys => pyEq x y && pyEqItems xs ys

/-- Every field not shadowed by an earlier one has an equal value on the other side. -/
def pyEqFields (seen : List String) : List (String × Json) → List (String × Json) → Bool
  | [], _ => true
  | (k, v) :: xs, ys =>
    (seen.contains k || match ys.lookup k with
      | some w => pyEq v w
      | none => false) && pyEqFields (k :: seen) xs ys

end

/-- `value.items()`, each key once. -/
def items (value : Json) : List (String × Json) := (Dict.ofLookup value.fields).entries

/-- The fields after `value[key] = item`. -/
def withField (value : Json) (key : String) (item : Json) : Json :=
  obj (Dict.setEntries key item value.fields)

/-- The fields after `value.pop(key, None)`. -/
def withoutField (value : Json) (key : String) : Json :=
  obj (value.fields.filter (·.1 ≠ key))

/-- `{**left, **right}`: the fields of the right dictionary win. -/
def merge (left right : Json) : Json := obj (right.fields ++ left.fields)

@[simp] theorem get?_obj (fields : List (String × Json)) (key : String) :
    (obj fields).get? key = fields.lookup key := rfl

@[simp] theorem fields_obj (fields : List (String × Json)) : (obj fields).fields = fields := rfl

theorem get?_withField (value : Json) (key : String) (item : Json) (j : String) :
    (value.withField key item).get? j = if j = key then some item else value.get? j := by
  unfold withField
  rw [get?_obj, Dict.lookup_setEntries]
  cases value <;> rfl

@[simp] theorem isObj_obj (fields : List (String × Json)) : (obj fields).isObj = true := rfl

theorem numberEq_self {a : Json} {q : ℚ} (h : a.number? = some q) : numberEq a a = true := by
  simp [numberEq, h]

mutual

/-- A value equals its own copy, as a replayed fact does. -/
theorem pyEq_refl : (a : Json) → pyEq a a = true
  | null => rfl
  | str s => by simp [pyEq]
  | bool v => by rw [pyEq]; exact numberEq_self rfl
  | int v => by rw [pyEq]; exact numberEq_self rfl
  | float v => by rw [pyEq]; exact numberEq_self rfl
  | arr xs => by simpa only [pyEq] using pyEqItems_refl xs
  | obj xs => by
    have hf := pyEqFields_refl xs [] [] (by simp)
    simp only [pyEq, List.nil_append, Bool.and_eq_true] at hf ⊢
    refine ⟨List.all_eq_true.mpr fun y hy => ?_, hf⟩
    exact List.lookup_isSome_iff.mpr ⟨y, hy, by simp⟩

theorem pyEqItems_refl : (xs : List Json) → pyEqItems xs xs = true
  | [] => rfl
  | x :: xs => by simp only [pyEqItems, pyEq_refl x, pyEqItems_refl xs, Bool.and_self]

/-- `seen` lists the keys of the fields already walked past. -/
theorem pyEqFields_refl : (xs : List (String × Json)) → (seen : List String) →
    (walked : List (String × Json)) → (∀ k, k ∈ seen ↔ k ∈ walked.map Prod.fst) →
    pyEqFields seen xs (walked ++ xs) = true
  | [], _, _, _ => rfl
  | (k, v) :: xs, seen, walked, h => by
    have ht := pyEqFields_refl xs (k :: seen) (walked ++ [(k, v)]) (by
      intro j
      simp [h, or_comm])
    simp only [pyEqFields, Bool.and_eq_true, Bool.or_eq_true]
    refine ⟨?_, by simpa using ht⟩
    by_cases hk : k ∈ seen
    · exact Or.inl (by simpa using hk)
    · have hw : walked.lookup k = none := by
        rw [List.lookup_eq_none_iff]
        intro p hp
        have hn : k ∉ walked.map Prod.fst := fun hm => hk ((h k).mpr hm)
        simp only [bne_iff_ne, ne_eq]
        rintro rfl
        exact hn (List.mem_map_of_mem hp)
      right
      rw [List.lookup_append, hw]
      simp [pyEq_refl v]

end

end Json

end Eventide
