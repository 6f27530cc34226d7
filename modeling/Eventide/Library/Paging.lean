import Mathlib.Data.List.Basic
import Mathlib.Tactic.Common

/-! # Pages of a sequence

A reader follows the offsets that the pages name, with a limit of its choice at each step. -/

namespace Paging

variable {α β ℓ : Type}

/-- What a page shows, and the offset that it names for the next one. -/
structure Page (β : Type) where
  items : List β
  next : Option ℕ
  deriving DecidableEq, Repr

/-- What is read at an offset is a beginning of the rest, item by item, and not an empty one. It
names the offset after it unless that is all. -/
def Pages (whole : List α) (shown : α → List β) (valid : ℓ → Prop)
    (read : ℕ → ℓ → Option (Page β)) : Prop :=
  ∀ offset limit, offset = 0 ∨ offset < whole.length → valid limit →
    ∃ n ≤ whole.length - offset, (offset < whole.length → 0 < n) ∧
      read offset limit = some ⟨((whole.drop offset).take n).flatMap shown,
        if n < whole.length - offset then some (offset + n) else none⟩

/-- What the pages from an offset on show, with these limits; nothing if a page cannot be read, or
one after the last limit is named. -/
def follow (read : ℕ → ℓ → Option (Page β)) : List ℓ → ℕ → Option (List (List β))
  | [], _ => none
  | limit :: limits, offset => do
    let page ← read offset limit
    match page.next with
    | none => some [page.items]
    | some next => (follow read limits next).map (page.items :: ·)

variable {whole : List α} {shown : α → List β} {valid : ℓ → Prop}
  {read : ℕ → ℓ → Option (Page β)}

/-- Following the offsets from one on ends after a page for each item that is left, and one more,
and shows the rest of the sequence. -/
theorem Pages.follow_eq (h : Pages whole shown valid read) {limits : List ℓ} {offset : ℕ}
    (hvalid : ∀ limit ∈ limits, valid limit) (hoffset : offset = 0 ∨ offset < whole.length)
    (henough : whole.length - offset < limits.length) :
    ∃ pages, follow read limits offset = some pages ∧
      pages.flatten = (whole.drop offset).flatMap shown := by
  induction limits generalizing offset with
  | nil => simp at henough
  | cons limit limits ih =>
    obtain ⟨hlimit, hlimits⟩ := List.forall_mem_cons.mp hvalid
    obtain ⟨n, hn, hpos, hread⟩ := h offset limit hoffset hlimit
    rw [follow, hread]
    by_cases hmore : n < whole.length - offset
    · have hless := hpos (by omega)
      rw [List.length_cons] at henough
      obtain ⟨pages, hpages, hflatten⟩ := ih hlimits (.inr (by omega : offset + n < whole.length))
        (by omega)
      refine ⟨((whole.drop offset).take n).flatMap shown :: pages, ?_, ?_⟩
      · simp only [if_pos hmore, hpages, Option.bind_eq_bind, Option.bind_some, Option.map_some]
      · rw [List.flatten_cons, hflatten, ← List.flatMap_append, ← List.drop_drop,
          List.take_append_drop]
    · have hall : (whole.drop offset).take n = whole.drop offset :=
        List.take_of_length_le (by rw [List.length_drop]; omega)
      exact ⟨[(whole.drop offset).flatMap shown], by simp [if_neg hmore, hall], by simp⟩

/-- Following the pages of a sequence from its beginning shows the whole of it. -/
theorem Pages.reconstruct (h : Pages whole shown valid read) {limits : List ℓ}
    (hvalid : ∀ limit ∈ limits, valid limit) (henough : whole.length < limits.length) :
    ∃ pages, follow read limits 0 = some pages ∧ pages.flatten = whole.flatMap shown :=
  h.follow_eq hvalid (.inl rfl) henough

/-- Items that are shown as they are. -/
theorem Pages.reconstruct_self {read : ℕ → ℓ → Option (Page α)}
    (h : Pages whole (fun item => [item]) valid read) {limits : List ℓ}
    (hvalid : ∀ limit ∈ limits, valid limit) (henough : whole.length < limits.length) :
    ∃ pages, follow read limits 0 = some pages ∧ pages.flatten = whole := by
  obtain ⟨pages, hpages, hflatten⟩ := h.reconstruct hvalid henough
  exact ⟨pages, hpages, hflatten.trans (List.flatMap_singleton' whole)⟩

end Paging
