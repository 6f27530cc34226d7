import Mathlib.Data.List.Basic
import Mathlib.Data.List.TakeWhile
import Mathlib.Data.String.Basic

/-! # Pointers into nested dictionaries

A pointer writes the keys of a path one after another, a slash before each. A tilde or a slash
inside a key is escaped, so that the keys can be read back. -/

namespace Pointer

def escape : Char → List Char
  | '~' => ['~', '0']
  | '/' => ['~', '1']
  | c => [c]

/-- A key inside a pointer. -/
def token (key : String) : List Char := key.toList.flatMap escape

/-- The pointer of what a key leads to. -/
def child (path : List Char) (key : String) : List Char := path ++ '/' :: token key

def pointer (keys : List String) : List Char := keys.flatMap fun key => '/' :: token key

@[simp] theorem pointer_nil : pointer [] = [] := rfl

@[simp] theorem pointer_cons (key : String) (keys : List String) :
    pointer (key :: keys) = '/' :: token key ++ pointer keys := rfl

theorem pointer_append (keys more : List String) :
    pointer (keys ++ more) = pointer keys ++ pointer more := List.flatMap_append

theorem child_append (path : List Char) (key : String) (keys : List String) :
    child path key ++ pointer keys = path ++ pointer (key :: keys) := by
  simp [child]

/-! ## Reading back -/

theorem escape_cases (c : Char) : escape c = [c] ∧ c ≠ '~' ∧ c ≠ '/' ∨
    c = '~' ∧ escape c = ['~', '0'] ∨ c = '/' ∧ escape c = ['~', '1'] := by
  unfold escape
  split
  · exact Or.inr (Or.inl ⟨rfl, rfl⟩)
  · exact Or.inr (Or.inr ⟨rfl, rfl⟩)
  · rename_i htilde hslash
    exact Or.inl ⟨rfl, fun h => htilde h, fun h => hslash h⟩

theorem slash_not_mem_escape (c : Char) : '/' ∉ escape c := by
  rcases escape_cases c with ⟨h, -, hc⟩ | ⟨-, h⟩ | ⟨-, h⟩
  · rw [h, List.mem_singleton]
    exact fun heq => hc heq.symm
  · rw [h]
    decide
  · rw [h]
    decide

theorem slash_not_mem_token (key : String) : '/' ∉ token key := by
  intro h
  obtain ⟨c, -, hc⟩ := List.mem_flatMap.mp h
  exact slash_not_mem_escape c hc

/-- No escape begins another one. -/
theorem escape_append {c d : Char} {xs ys : List Char} (h : escape c ++ xs = escape d ++ ys) :
    c = d ∧ xs = ys := by
  rcases escape_cases c with ⟨hc, hct, -⟩ | ⟨rfl, hc⟩ | ⟨rfl, hc⟩ <;>
    rcases escape_cases d with ⟨hd, hdt, -⟩ | ⟨rfl, hd⟩ | ⟨rfl, hd⟩ <;>
    simp only [hc, hd, List.cons_append, List.nil_append, List.cons.injEq] at h
  · exact h
  · exact absurd h.1 hct
  · exact absurd h.1 hct
  · exact absurd h.1.symm hdt
  · exact ⟨rfl, h.2.2⟩
  · exact absurd h.2.1 (by decide)
  · exact absurd h.1.symm hdt
  · exact absurd h.2.1 (by decide)
  · exact ⟨rfl, h.2.2⟩

theorem escape_ne_nil (c : Char) : escape c ≠ [] := by
  rcases escape_cases c with ⟨h, -, -⟩ | ⟨-, h⟩ | ⟨-, h⟩ <;> simp [h]

theorem flatMap_escape_injective {xs ys : List Char} (h : xs.flatMap escape = ys.flatMap escape) :
    xs = ys := by
  induction xs generalizing ys with
  | nil =>
    cases ys with
    | nil => rfl
    | cons d ys =>
      rw [List.flatMap_nil, List.flatMap_cons] at h
      exact absurd (List.append_eq_nil_iff.mp h.symm).1 (escape_ne_nil d)
  | cons c xs ih =>
    cases ys with
    | nil =>
      rw [List.flatMap_nil, List.flatMap_cons] at h
      exact absurd (List.append_eq_nil_iff.mp h).1 (escape_ne_nil c)
    | cons d ys =>
      rw [List.flatMap_cons, List.flatMap_cons] at h
      obtain ⟨rfl, htail⟩ := escape_append h
      rw [ih htail]

theorem token_injective {key other : String} (h : token key = token other) : key = other :=
  String.toList_inj.mp (flatMap_escape_injective h)

/-- The rest of a pointer begins with a slash, where it is not at its end. -/
theorem head_pointer (keys : List String) : ∀ c ∈ (pointer keys).head?, c = '/' := by
  cases keys with
  | nil => simp
  | cons key keys => simp

theorem takeWhile_token (key : String) (keys : List String) :
    (token key ++ pointer keys).takeWhile (· ≠ '/') = token key := by
  rw [List.takeWhile_append_of_pos fun c hc => ?_]
  · have hhead := head_pointer keys
    cases hrest : pointer keys with
    | nil => simp
    | cons c rest =>
      rw [hrest] at hhead
      obtain rfl := hhead c rfl
      simp
  · rw [decide_eq_true_eq]
    rintro rfl
    exact slash_not_mem_token key hc

theorem token_append {key other : String} {keys others : List String}
    (h : token key ++ pointer keys = token other ++ pointer others) :
    key = other ∧ pointer keys = pointer others := by
  have htoken := congrArg (List.takeWhile (· ≠ '/')) h
  rw [takeWhile_token, takeWhile_token] at htoken
  obtain rfl := token_injective htoken
  exact ⟨rfl, List.append_cancel_left h⟩

/-- A pointer names one path. -/
theorem pointer_injective {keys others : List String} (h : pointer keys = pointer others) :
    keys = others := by
  induction keys generalizing others with
  | nil =>
    cases others with
    | nil => rfl
    | cons key others => simp at h
  | cons key keys ih =>
    cases others with
    | nil => simp at h
    | cons other others =>
      rw [pointer_cons, pointer_cons, List.cons_append, List.cons_append] at h
      obtain ⟨rfl, hrest⟩ := token_append (List.cons.inj h).2
      rw [ih hrest]

end Pointer
