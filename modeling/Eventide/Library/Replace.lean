import Mathlib.Data.List.Basic
import Mathlib.Data.List.Infix
import Mathlib.Tactic.Common

/-! # Finding and replacing a part of a sequence -/

namespace Text

variable {α : Type}

theorem prefix_append_cases {u xs ys : List α} (h : u <+: xs ++ ys) :
    u <+: xs ∨ ∃ v, u = xs ++ v ∧ v <+: ys := by
  obtain ⟨rest, hrest⟩ := h
  rcases List.append_eq_append_iff.mp hrest with ⟨v, hxs, -⟩ | ⟨v, hu, hys⟩
  · exact .inl ⟨v, hxs.symm⟩
  · exact .inr ⟨v, hu, rest, hys.symm⟩

theorem suffix_append_cases {u xs ys : List α} (h : u <:+ xs ++ ys) :
    u <:+ ys ∨ ∃ v, u = v ++ ys ∧ v <:+ xs := by
  obtain ⟨front, hfront⟩ := h
  rcases List.append_eq_append_iff.mp hfront with ⟨v, hxs, hu⟩ | ⟨v, -, hys⟩
  · exact .inr ⟨v, hu, front, hxs.symm⟩
  · exact .inl ⟨v, hys.symm⟩

variable [DecidableEq α]

/-! ## The first occurrence -/

/-- What stands before and after the first occurrence of `sub`. -/
def partition? (sub : List α) : List α → Option (List α × List α)
  | [] => if sub = [] then some ([], []) else none
  | c :: cs =>
    if sub.isPrefixOf (c :: cs) then some ([], (c :: cs).drop sub.length)
    else (partition? sub cs).map fun p => (c :: p.1, p.2)

/-- `text.replace(sub, new, 1)`. -/
def replaceFirst (sub new text : List α) : List α :=
  match partition? sub text with
  | some (before, after) => before ++ new ++ after
  | none => text

variable {sub new text before after : List α}

theorem partition?_eq_some (h : partition? sub text = some (before, after)) :
    text = before ++ sub ++ after := by
  induction text generalizing before with
  | nil =>
    simp only [partition?] at h
    split at h
    · simp_all
    · cases h
  | cons c cs ih =>
    simp only [partition?] at h
    split at h
    · rename_i hprefix
      obtain ⟨rest, hrest⟩ := List.isPrefixOf_iff_prefix.mp hprefix
      simp only [Option.some.injEq, Prod.mk.injEq] at h
      obtain ⟨rfl, rfl⟩ := h
      simp [← hrest]
    · obtain ⟨⟨front, rest⟩, hp, heq⟩ := Option.map_eq_some_iff.mp h
      obtain ⟨rfl, rfl⟩ := Prod.mk.inj heq
      simp [ih hp]

/-- No occurrence begins earlier. -/
theorem length_le_of_partition? (h : partition? sub text = some (before, after))
    {front rest : List α} (heq : text = front ++ sub ++ rest) : before.length ≤ front.length := by
  induction text generalizing before front with
  | nil =>
    simp only [partition?] at h
    split at h
    · simp_all
    · cases h
  | cons c cs ih =>
    simp only [partition?] at h
    split at h
    · obtain ⟨rfl, -⟩ := Prod.mk.inj (Option.some.inj h)
      exact Nat.zero_le _
    · rename_i hprefix
      obtain ⟨⟨front', rest'⟩, hp, hpair⟩ := Option.map_eq_some_iff.mp h
      obtain ⟨rfl, rfl⟩ := Prod.mk.inj hpair
      cases front with
      | nil =>
        refine absurd (List.isPrefixOf_iff_prefix.mpr ⟨rest, ?_⟩) hprefix
        simpa using heq.symm
      | cons d front =>
        obtain ⟨rfl, hcs⟩ := List.cons.inj heq
        simpa using ih hp hcs

theorem partition?_isSome : (partition? sub text).isSome ↔ sub <:+: text := by
  constructor
  · intro h
    obtain ⟨⟨before, after⟩, hp⟩ := Option.isSome_iff_exists.mp h
    exact ⟨before, after, (partition?_eq_some hp).symm⟩
  · rintro ⟨before, after, rfl⟩
    induction before with
    | nil =>
      cases hsub : sub ++ after with
      | nil =>
        obtain ⟨rfl, rfl⟩ := List.append_eq_nil_iff.mp hsub
        simp [partition?]
      | cons c cs =>
        have hprefix : sub.isPrefixOf (c :: cs) = true :=
          List.isPrefixOf_iff_prefix.mpr ⟨after, hsub⟩
        simp only [List.nil_append, hsub, partition?, hprefix, if_true, Option.isSome_some]
    | cons c before ih =>
      simp only [List.cons_append, partition?]
      split
      · rfl
      · rwa [Option.isSome_map]

theorem exists_partition? (h : sub <:+: text) :
    ∃ before after, partition? sub text = some (before, after) := by
  obtain ⟨⟨before, after⟩, hp⟩ := Option.isSome_iff_exists.mp (partition?_isSome.mpr h)
  exact ⟨before, after, hp⟩

/-! ## Every occurrence -/

/-- The replacement of the occurrences from left to right, `skip` items of the last one being
left to pass. -/
def replaceFrom (sub new : List α) : ℕ → List α → List α
  | _, [] => []
  | skip + 1, _ :: cs => replaceFrom sub new skip cs
  | 0, c :: cs =>
    if sub.isPrefixOf (c :: cs) then new ++ replaceFrom sub new (sub.length - 1) cs
    else c :: replaceFrom sub new 0 cs

/-- `text.replace(sub, new)`, of a `sub` that is not empty. -/
def replaceAll (sub new text : List α) : List α := replaceFrom sub new 0 text

/-- An occurrence of `sub` begins in the first text and ends in the second. -/
def Straddles (sub first second : List α) : Prop :=
  ∃ u v, u ≠ [] ∧ v ≠ [] ∧ sub = u ++ v ∧ u <:+ first ∧ v <+: second

variable {first second : List α}

omit [DecidableEq α] in
theorem Straddles.cons {c : α} (h : Straddles sub first second) :
    Straddles sub (c :: first) second := by
  obtain ⟨u, v, hu, hv, heq, hfirst, hsecond⟩ := h
  exact ⟨u, v, hu, hv, heq, hfirst.trans (List.suffix_cons c first), hsecond⟩

omit [DecidableEq α] in
/-- A word that no part of a text holds is in the text exactly if it straddles the end of a part,
however many of the next ones it takes. -/
theorem infix_flatten_iff {parts : List (List α)} (hne : sub ≠ [])
    (h : ∀ part ∈ parts, ¬ sub <:+: part) : sub <:+: parts.flatten ↔
      ∃ before part after, parts = before ++ part :: after ∧ Straddles sub part after.flatten := by
  induction parts with
  | nil => simp [hne]
  | cons first rest ih =>
    rw [List.forall_mem_cons] at h
    rw [List.flatten_cons, List.infix_append_iff_ne_nil, ih h.2]
    constructor
    · rintro (hfirst | ⟨before, part, after, rfl, hstraddles⟩ | hstraddles)
      · exact absurd hfirst h.1
      · exact ⟨first :: before, part, after, rfl, hstraddles⟩
      · exact ⟨[], first, rest, rfl, hstraddles⟩
    · rintro ⟨before, part, after, heq, hstraddles⟩
      cases before with
      | nil =>
        cases heq
        exact .inr (.inr hstraddles)
      | cons other before =>
        obtain ⟨-, rfl⟩ := List.cons.inj heq
        exact .inr (.inl ⟨before, part, after, rfl, hstraddles⟩)

/-- A replacement goes through the parts of a text that no occurrence straddles. -/
theorem replaceFrom_append (h : ¬ Straddles sub first second) {skip : ℕ}
    (hskip : skip ≤ first.length) : replaceFrom sub new skip (first ++ second) =
      replaceFrom sub new skip first ++ replaceFrom sub new 0 second := by
  induction first generalizing skip with
  | nil =>
    obtain rfl : skip = 0 := by simpa using hskip
    rfl
  | cons c cs ih =>
    have hcs : ¬ Straddles sub cs second := fun hs => h hs.cons
    cases skip with
    | succ skip => exact ih hcs (by simpa using hskip)
    | zero =>
      have hsame : sub.isPrefixOf (c :: cs ++ second) = sub.isPrefixOf (c :: cs) := by
        rw [Bool.eq_iff_iff, List.isPrefixOf_iff_prefix, List.isPrefixOf_iff_prefix]
        refine ⟨fun hp => ?_, fun hp => hp.trans (List.prefix_append _ _)⟩
        rcases prefix_append_cases hp with hp | ⟨v, rfl, hv⟩
        · exact hp
        · by_cases hnil : v = []
          · simp [hnil]
          · exact absurd ⟨c :: cs, v, by simp, hnil, rfl, List.suffix_rfl, hv⟩ h
      rw [List.cons_append] at hsame ⊢
      simp only [replaceFrom, hsame]
      split
      · rename_i hp
        have hle := (List.isPrefixOf_iff_prefix.mp hp).length_le
        rw [ih hcs (by simp only [List.length_cons] at hle; omega), List.append_assoc]
      · rw [ih hcs (Nat.zero_le _), List.cons_append]

theorem replaceAll_append (h : ¬ Straddles sub first second) :
    replaceAll sub new (first ++ second) = replaceAll sub new first ++ replaceAll sub new second :=
  replaceFrom_append h (Nat.zero_le _)

/-! ## A mark between two delimiters

What is put in place of an occurrence begins and ends with a delimiter, so nothing that is free
of delimiters reaches into it. -/

section Mark

variable {opening closing : α} {inner : List α}

/-- `opening inner closing`. -/
def mark (opening : α) (inner : List α) (closing : α) : List α := opening :: inner ++ [closing]

theorem prefix_of_replaceFrom {v : List α} (hopen : opening ∉ v)
    (h : v <+: replaceFrom sub (mark opening inner closing) 0 text) : v <+: text := by
  induction text generalizing v with
  | nil => exact h
  | cons c cs ih =>
    cases v with
    | nil => exact List.nil_prefix
    | cons d v =>
      simp only [replaceFrom] at h
      split at h
      · have hd : d = opening := (List.cons_prefix_cons.mp h).1
        exact absurd (hd ▸ List.mem_cons_self) hopen
      · obtain ⟨rfl, hrest⟩ := List.cons_prefix_cons.mp h
        exact List.cons_prefix_cons.mpr ⟨rfl, ih (fun hm => hopen (List.mem_cons_of_mem _ hm)) hrest⟩

/-- A text whose replacement shows no delimiter is left as it is. -/
theorem replaceFrom_eq_self {u : List α} (hopen : opening ∉ u)
    (h : u = replaceFrom sub (mark opening inner closing) 0 text) : u = text := by
  induction text generalizing u with
  | nil => exact h
  | cons c cs ih =>
    simp only [replaceFrom] at h
    split at h
    · rw [h] at hopen
      simp [mark] at hopen
    · rw [h] at hopen
      rw [h, ih (fun hm => hopen (List.mem_cons_of_mem _ hm)) rfl]

omit [DecidableEq α] in
theorem suffix_of_mark {u : List α} (hclose : closing ∉ u)
    (h : u <:+ mark opening inner closing) : u = [] := by
  rcases suffix_append_cases h with h | ⟨v, rfl, -⟩
  · cases u with
    | nil => rfl
    | cons d u =>
      have hd := h.mem List.mem_cons_self
      rw [List.mem_singleton] at hd
      exact absurd (hd ▸ List.mem_cons_self) hclose
  · simp at hclose

omit [DecidableEq α] in
theorem infix_of_mark {u : List α} (hopen : opening ∉ u) (hclose : closing ∉ u)
    (h : u <:+: mark opening inner closing) : u <:+: inner := by
  rcases List.infix_append_iff_ne_nil.mp h with h | h | ⟨v, w, -, hw, rfl, -, hclosing⟩
  · rcases List.infix_cons_iff.mp h with h | h
    · cases u with
      | nil => exact List.nil_infix
      | cons d u =>
        have hd : d = opening := (List.cons_prefix_cons.mp h).1
        exact absurd (hd ▸ List.mem_cons_self) hopen
    · exact h
  · cases u with
    | nil => exact List.nil_infix
    | cons d u =>
      have hd := h.mem List.mem_cons_self
      rw [List.mem_singleton] at hd
      exact absurd (hd ▸ List.mem_cons_self) hclose
  · cases w with
    | nil => exact absurd rfl hw
    | cons d w =>
      have hd : d = closing := (List.cons_prefix_cons.mp hclosing).1
      exact absurd (List.mem_append_right v (hd ▸ List.mem_cons_self)) hclose

theorem suffix_of_replaceFrom {u : List α} (hopen : opening ∉ u) (hclose : closing ∉ u) {skip : ℕ}
    (h : u <:+ replaceFrom sub (mark opening inner closing) skip text) : u <:+ text := by
  induction text generalizing skip with
  | nil =>
    rw [replaceFrom] at h
    exact h
  | cons c cs ih =>
    cases skip with
    | succ skip => exact (ih h).trans (List.suffix_cons c cs)
    | zero =>
      simp only [replaceFrom] at h
      split at h
      · rcases suffix_append_cases h with h | ⟨v, rfl, hv⟩
        · exact (ih h).trans (List.suffix_cons c cs)
        · rw [List.mem_append, not_or] at hclose
          obtain rfl := suffix_of_mark hclose.1 hv
          exact (ih List.suffix_rfl).trans (List.suffix_cons c cs)
      · rcases List.suffix_cons_iff.mp h with rfl | h
        · rw [replaceFrom_eq_self (fun hm => hopen (List.mem_cons_of_mem _ hm)) rfl]
        · exact (ih h).trans (List.suffix_cons c cs)

/-- A straddling occurrence that the replacements leave was there before them. -/
theorem Straddles.of_replaceAll {other : List α} (hopen : opening ∉ other)
    (hclose : closing ∉ other)
    (h : Straddles other (replaceAll sub (mark opening inner closing) first)
      (replaceAll sub (mark opening inner closing) second)) : Straddles other first second := by
  obtain ⟨u, v, hu, hv, rfl, hfirst, hsecond⟩ := h
  simp only [List.mem_append, not_or] at hopen hclose
  exact ⟨u, v, hu, hv, rfl, suffix_of_replaceFrom hopen.1 hclose.1 hfirst,
    prefix_of_replaceFrom hopen.2 hsecond⟩

/-- What is found after a replacement, and does not fit between the delimiters, was there
before. -/
theorem infix_of_replaceFrom {other : List α} (hopen : opening ∉ other) (hclose : closing ∉ other)
    (hinner : ¬ other <:+: inner) {skip : ℕ}
    (h : other <:+: replaceFrom sub (mark opening inner closing) skip text) : other <:+: text := by
  induction text generalizing skip with
  | nil =>
    rw [replaceFrom] at h
    exact h
  | cons c cs ih =>
    have hcons : cs <:+: c :: cs := (List.suffix_cons c cs).isInfix
    cases skip with
    | succ skip => exact (ih h).trans hcons
    | zero =>
      simp only [replaceFrom] at h
      split at h
      · rcases List.infix_append_iff_ne_nil.mp h with h | h | ⟨v, w, hv, -, rfl, hmark, -⟩
        · exact absurd (infix_of_mark hopen hclose h) hinner
        · exact (ih h).trans hcons
        · rw [List.mem_append, not_or] at hclose
          exact absurd (suffix_of_mark hclose.1 hmark) hv
      · rcases List.infix_cons_iff.mp h with h | h
        · cases other with
          | nil => exact List.nil_infix
          | cons d v =>
            obtain ⟨rfl, hrest⟩ := List.cons_prefix_cons.mp h
            have hprefix := prefix_of_replaceFrom
              (fun hm => hopen (List.mem_cons_of_mem _ hm)) hrest
            exact (List.cons_prefix_cons.mpr ⟨rfl, hprefix⟩).isInfix
        · exact (ih h).trans hcons

/-- What is replaced is found no more. -/
theorem not_infix_replaceFrom (hopen : opening ∉ sub) (hclose : closing ∉ sub)
    (hinner : ¬ sub <:+: inner) {skip : ℕ} :
    ¬ sub <:+: replaceFrom sub (mark opening inner closing) skip text := by
  have hne : sub ≠ [] := by
    rintro rfl
    exact hinner List.nil_infix
  induction text generalizing skip with
  | nil =>
    rw [replaceFrom, List.infix_nil]
    exact hne
  | cons c cs ih =>
    cases skip with
    | succ skip => exact ih
    | zero =>
      simp only [replaceFrom]
      split
      · intro h
        rcases List.infix_append_iff_ne_nil.mp h with h | h | ⟨v, w, hv, -, hsub, hmark, -⟩
        · exact hinner (infix_of_mark hopen hclose h)
        · exact ih h
        · rw [hsub, List.mem_append, not_or] at hclose
          exact hv (suffix_of_mark hclose.1 hmark)
      · rename_i hprefix
        intro h
        rcases List.infix_cons_iff.mp h with h | h
        · cases hsub : sub with
          | nil => exact hne hsub
          | cons d v =>
            rw [hsub] at h hopen
            obtain ⟨rfl, hrest⟩ := List.cons_prefix_cons.mp h
            have hv := prefix_of_replaceFrom (fun hm => hopen (List.mem_cons_of_mem _ hm)) hrest
            refine hprefix (List.isPrefixOf_iff_prefix.mpr ?_)
            rw [hsub]
            exact List.cons_prefix_cons.mpr ⟨rfl, hv⟩
        · exact ih h

end Mark

end Text
