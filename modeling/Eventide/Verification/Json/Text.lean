import Eventide.Model.JsonText
import Mathlib.Data.List.Forall2

/-! # The length of a JSON text

How the length follows a change of one field or of the items of a list. -/

namespace Eventide.Json

variable {floatText : ℚ → List Char}

theorem one_le_length_escape (c : Char) : 1 ≤ (escape c).length := by
  unfold escape
  split
  case h_8 =>
    split
    · simp [controlText]
    · simp
  all_goals decide

/-- A character that is its own text. -/
def plain (c : Char) : Prop := escape c = [c]

theorem length_dumpsStr_le (text : String) : text.length + 2 ≤ (dumpsStr text).length := by
  have hchars (cs : List Char) : cs.length ≤ (cs.flatMap escape).length := by
    induction cs with
    | nil => simp
    | cons c cs ih =>
      have hc := one_le_length_escape c
      simp only [List.length_cons, List.flatMap_cons, List.length_append]
      omega
  have h := hchars text.toList
  have hquote : quote.length = 1 := rfl
  simp only [dumpsStr, List.length_append, hquote, String.length_toList] at h ⊢
  omega

theorem length_dumpsStr_of_plain {text : String} (h : ∀ c ∈ text.toList, plain c) :
    (dumpsStr text).length = text.length + 2 := by
  have hchars {cs : List Char} (hcs : ∀ c ∈ cs, plain c) : cs.flatMap escape = cs := by
    induction cs with
    | nil => rfl
    | cons c cs ih =>
      obtain ⟨hc, hcs⟩ := List.forall_mem_cons.mp hcs
      rw [List.flatMap_cons, hc, ih hcs, List.singleton_append]
  have hquote : quote.length = 1 := rfl
  simp only [dumpsStr, hchars h, List.length_append, hquote, String.length_toList]
  omega

/-- A text that is checked character by character. -/
theorem plain_of_all {cs : List Char} (h : cs.all (fun c => escape c == [c]) = true) :
    ∀ c ∈ cs, plain c := fun c hc => beq_iff_eq.mp (List.all_eq_true.mp h c hc)

theorem plain_of_isDigit {c : Char} (h : c.isDigit = true) : plain c := by
  have hrange : 48 ≤ c.toNat ∧ c.toNat ≤ 57 := Char.isDigit_iff_toNat.mp h
  unfold plain escape
  split <;> first | omega | (rw [if_neg (by omega)])

theorem plain_of_mem_toString {n : ℕ} {c : Char} (h : c ∈ (toString n).toList) : plain c := by
  refine plain_of_isDigit (Nat.isDigit_of_mem_toDigits (b := 10) (n := n) (by decide) (by decide) ?_)
  simpa [toString, Nat.repr] using h

/-! ## Lists -/

theorem length_dumpsItems_le {xs ys : List Json} (first : Bool)
    (h : List.Forall₂ (fun x y => size floatText x ≤ size floatText y) xs ys) :
    (dumpsItems floatText first xs).length ≤ (dumpsItems floatText first ys).length := by
  induction h generalizing first with
  | nil => exact le_refl _
  | cons hxy _ ih =>
    have := ih false
    unfold size at hxy
    simp only [dumpsItems, List.length_append]
    omega

theorem size_arr_le {xs ys : List Json}
    (h : List.Forall₂ (fun x y => size floatText x ≤ size floatText y) xs ys) :
    size floatText (.arr xs) ≤ size floatText (.arr ys) := by
  have := @length_dumpsItems_le floatText _ _ true h
  simp only [size, dumps, List.length_append]
  omega

/-! ## Dictionaries -/

/-- One field is a part of the text. -/
theorem le_length_dumpsFields {key : String} {value : Json} {fields : List (String × Json)}
    (seen : List String) (hnew : seen.contains key = false) (h : fields.lookup key = some value) :
    (dumpsStr key).length + 2 + size floatText value ≤
      (dumpsFields floatText seen fields).length := by
  induction fields generalizing seen with
  | nil => cases h
  | cons field fields ih =>
    obtain ⟨k, v⟩ := field
    rw [Dict.lookup_cons_eq] at h
    by_cases hk : key = k
    · subst hk
      obtain rfl : v = value := by simpa using h
      have hcolon : ": ".toList.length = 2 := rfl
      simp only [dumpsFields, hnew, Bool.false_eq_true, if_false, List.length_append, size, hcolon]
      omega
    · rw [if_neg hk] at h
      have hnew' : (k :: seen).contains key = false := by simpa [hk] using hnew
      have := ih (k :: seen) hnew' h
      simp only [dumpsFields, List.length_append]
      omega

theorem length_dumpsFields_setEntries {key : String} {value value' : Json}
    {fields : List (String × Json)} (seen : List String) (hnew : seen.contains key = false)
    (h : fields.lookup key = some value) (hsize : size floatText value' ≤ size floatText value) :
    (dumpsFields floatText seen (Dict.setEntries key value' fields)).length ≤
      (dumpsFields floatText seen fields).length := by
  induction fields generalizing seen with
  | nil => cases h
  | cons field fields ih =>
    obtain ⟨k, v⟩ := field
    rw [Dict.lookup_cons_eq] at h
    by_cases hk : key = k
    · subst hk
      obtain rfl : v = value := by simpa using h
      simp only [size] at hsize
      simp only [Dict.setEntries, if_true, dumpsFields, hnew, Bool.false_eq_true, if_false,
        List.length_append]
      omega
    · rw [if_neg hk] at h
      have hnew' : (k :: seen).contains key = false := by simpa [hk] using hnew
      have := ih (k :: seen) hnew' h
      have hk' : ¬ k = key := fun heq => hk heq.symm
      simp only [Dict.setEntries, if_neg hk', dumpsFields, List.length_append]
      omega

/-- A field replaced by one with a shorter text. -/
theorem size_withField_le {message value value' : Json} {key : String}
    (h : message.get? key = some value) (hsize : size floatText value' ≤ size floatText value) :
    size floatText (message.withField key value') ≤ size floatText message := by
  cases message with
  | obj fields =>
    have := @length_dumpsFields_setEntries floatText _ _ _ _ [] rfl h hsize
    simp only [withField, fields_obj, size, dumps, List.length_append]
    omega
  | null | bool | int | float | str | arr => cases h

theorem le_size_of_get? {message value : Json} {key : String} (h : message.get? key = some value) :
    (dumpsStr key).length + 4 + size floatText value ≤ size floatText message := by
  cases message with
  | obj fields =>
    have := @le_length_dumpsFields floatText _ _ _ [] rfl h
    have hopen : "\x7b".toList.length = 1 := rfl
    have hclose : "\x7d".toList.length = 1 := rfl
    simp only [size, dumps, List.length_append, hopen, hclose] at this ⊢
    omega
  | null | bool | int | float | str | arr => cases h

theorem withField_withField (value : Json) (key : String) (x y : Json) :
    (value.withField key x).withField key y = value.withField key y := by
  have hentries (fields : List (String × Json)) :
      Dict.setEntries key y (Dict.setEntries key x fields) = Dict.setEntries key y fields := by
    induction fields with
    | nil => simp [Dict.setEntries]
    | cons field fields ih =>
      by_cases hk : field.1 = key
      · simp [Dict.setEntries, hk]
      · simp [Dict.setEntries, hk, ih]
  simp [withField, hentries]

end Eventide.Json
