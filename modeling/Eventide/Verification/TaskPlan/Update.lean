import Mathlib.Data.List.Induction
import Eventide.Verification.TaskPlan.Identity

/-! # What one update hands out and what it keeps -/

namespace Eventide.TaskPlan

open Outcome RuntimeStore

/-- A plan whose ids were all minted below a sequence number. -/
structure Minted (previous : List Todo) (sequence : ℕ) : Prop where
  once : (previous.map (·.id)).Nodup
  minted : ∀ old ∈ previous, ∃ n, 0 < n ∧ n < sequence ∧ old.id = mintId n
  pos : 0 < sequence

namespace Minted

variable {previous : List Todo} {sequence : ℕ}

theorem pairs_nodup (h : Minted previous sequence) :
    (((previous.filter (·.id ≠ "")).map fun item => (item.id, item)).map Prod.fst).Nodup := by
  rw [List.map_map]
  exact h.once.sublist (List.filter_sublist.map _)

theorem get?_available (h : Minted previous sequence) {taskId : String} {old : Todo} :
    (availableOf previous).get? taskId = some old ↔ old ∈ previous ∧ old.id = taskId := by
  have hlookup : (availableOf previous).get? taskId =
      (⟨_, h.pairs_nodup⟩ : Dict String Todo).get? taskId := by
    rw [availableOf, Dict.ofList, Dict.get?_update h.pairs_nodup, Dict.get?_empty, Option.or_none]
    rfl
  rw [hlookup, ← Dict.mem_entries]
  simp only [List.mem_map, List.mem_filter, decide_eq_true_eq, Prod.mk.injEq]
  constructor
  · rintro ⟨item, ⟨hm, -⟩, rfl, rfl⟩
    exact ⟨hm, rfl⟩
  · rintro ⟨hm, rfl⟩
    refine ⟨old, ⟨hm, fun he => ?_⟩, rfl, rfl⟩
    obtain ⟨n, -, -, hn⟩ := h.minted old hm
    have hlist := congrArg String.toList (hn.symm.trans he)
    rw [toList_mintId] at hlist
    cases hlist

/-- The visible ids never lie past the stored sequence. -/
theorem claimedSequence_lt (h : Minted previous sequence) :
    claimedSequence previous < sequence := by
  have hfold : ∀ rest : List Todo, (∀ old ∈ rest, old ∈ previous) → ∀ highest < sequence,
      rest.foldl (fun highest item => max highest ((idNumber? item.id).getD 0)) highest <
        sequence := by
    intro rest
    induction rest with
    | nil => exact fun _ _ hlt => hlt
    | cons old rest ih =>
      intro hsub highest hlt
      apply ih fun item hi => hsub item (List.mem_cons_of_mem old hi)
      obtain ⟨n, hpos, hn, hid⟩ := h.minted old (hsub old (by simp))
      change max highest ((idNumber? old.id).getD 0) < sequence
      rw [hid, idNumber?_mintId hpos]
      split
      · exact max_lt hlt hn
      · exact max_lt hlt h.pos
  exact hfold previous (fun _ hm => hm) 0 h.pos

theorem start_eq (h : Minted previous sequence) :
    max sequence (claimedSequence previous + 1) = sequence :=
  max_eq_left h.claimedSequence_lt

theorem mintId_not_mem (h : Minted previous sequence) {n : ℕ} (hn : sequence ≤ n) :
    mintId n ∉ previous.map (·.id) := by
  intro hm
  obtain ⟨old, ho, hid⟩ := List.mem_map.mp hm
  obtain ⟨k, -, hk, hold⟩ := h.minted old ho
  have hkn : k = n := mintId_injective (hold.symm.trans hid)
  omega

end Minted

/-- How an item of an accepted plan comes from the item submitted for it. -/
structure Origin (previous : List Todo) (item : Json) (todo : Todo) : Prop where
  content : ∃ text, item.getNull "content" = .str text ∧ todo.content = strip text
  kept : ∀ old ∈ previous, old.id = todo.id → item.getNull "id" = .str todo.id ∨
    item.getNull "id" = .null ∧ strip old.content = todo.content
  named : ∀ taskId, item.getNull "id" = .str taskId →
    taskId = todo.id ∧ (idNumber? taskId).isSome

/-- The ids of a plan that the one before it did not have. -/
def newIds (previous todos : List Todo) : List String :=
  (todos.map (·.id)).filter (· ∉ previous.map (·.id))

/-- What the loop has built from the items so far. -/
structure Updated (previous : List Todo) (sequence : ℕ) (items : List Json) (st : PlanFold) :
    Prop where
  origins : List.Forall₂ (Origin previous) items st.todos
  once : (st.todos.map (·.id)).Nodup
  distinct : (st.todos.map (·.content)).Nodup
  shaped : ∀ todo ∈ st.todos, todo.Shaped
  fresh : newIds previous st.todos =
    (List.range' sequence (st.sequence - sequence)).map mintId
  le : sequence ≤ st.sequence

theorem step_eq_ok {available : Dict String Todo} {st later : PlanFold} {item : Json}
    (h : PlanFold.step available st item = .ok later) : ∃ todo text,
      item.getNull "content" = .str text ∧ todo.content = strip text ∧
      todo.content ∉ st.todos.map (·.content) ∧ todo.Shaped ∧
      Identified available (st.todos.map (·.id)) item todo.content st.sequence todo.id
        later.sequence ∧ later.todos = st.todos ++ [todo] := by
  simp only [PlanFold.step, itemOf, bind_eq_ok, raiseIf_eq_ok, pure_eq_ok, Except.ok.injEq] at h
  obtain ⟨_, -, _, -, content, hc, status, hstatus, identity, hid, todo, htodo, rfl⟩ := h
  obtain ⟨summary, hsummary, dependsOn, hdep, rfl⟩ := htodo
  obtain ⟨text, htext, hstrip, hne, hshort, hnew⟩ := contentOf_eq_ok.mp hc
  obtain ⟨hclaim, hclaimed⟩ := summaryOf_eq_ok hsummary
  obtain ⟨hlisted, hfew⟩ := dependsOnOf_eq_ok hdep
  refine ⟨_, text, htext, hstrip, hnew, ?_, identityOf_eq_ok hid, rfl⟩
  exact ⟨hstrip ▸ strip_idem text, hne, hshort, hclaim, hclaimed, hfew, hlisted.once,
    hlisted.known⟩

section Fold

variable {previous : List Todo} {sequence : ℕ} {items : List Json} {item : Json}
  {st later : PlanFold}

theorem Identified.origin {claimed : List String} {content taskId : String} {start next : ℕ}
    (hm : Minted previous sequence) (hle : sequence ≤ start)
    (h : Identified (availableOf previous) claimed item content start taskId next) :
    (∀ old ∈ previous, old.id = taskId → item.getNull "id" = .str taskId ∨
      item.getNull "id" = .null ∧ strip old.content = content) ∧
    ∀ named, item.getNull "id" = .str named → named = taskId ∧ (idNumber? named).isSome := by
  cases h with
  | named hid hn ha hc =>
    refine ⟨fun _ _ _ => Or.inl hid, fun named h => ?_⟩
    obtain rfl := Json.str.inj (hid.symm.trans h)
    exact ⟨rfl, hn⟩
  | kept hid ha hc hs =>
    rename_i found
    refine ⟨fun old ho he => Or.inr ⟨hid, ?_⟩, fun named h => ?_⟩
    · have hold := hm.get?_available.mpr ⟨ho, he⟩
      obtain rfl := Option.some.inj (hold.symm.trans ha)
      exact hs
    · rw [hid] at h
      cases h
  | minted hid =>
    refine ⟨fun old ho he => ?_, fun named h => ?_⟩
    · exact absurd (List.mem_map.mpr ⟨old, ho, he⟩) (hm.mintId_not_mem hle)
    · rw [hid] at h
      cases h

/-- An id that an item keeps is free; one that it mints is past all ids. -/
theorem Identified.fresh {todo : Todo} {next : ℕ} (hm : Minted previous sequence)
    (hu : Updated previous sequence items st)
    (h : Identified (availableOf previous) (st.todos.map (·.id)) item todo.content st.sequence
      todo.id next) :
    todo.id ∉ st.todos.map (·.id) ∧ sequence ≤ next ∧ newIds previous (st.todos ++ [todo]) =
      (List.range' sequence (next - sequence)).map mintId := by
  have hnew : newIds previous (st.todos ++ [todo]) = newIds previous st.todos ++
      if todo.id ∈ previous.map (·.id) then [] else [todo.id] := by
    simp only [newIds, List.map_append, List.filter_append, List.map_cons, List.map_nil,
      List.filter_singleton]
    split <;> simp_all
  have hkept : ∀ old, (availableOf previous).get? todo.id = some old →
      todo.id ∈ previous.map (·.id) := by
    intro old ho
    obtain ⟨hold, hid⟩ := hm.get?_available.mp ho
    exact List.mem_map.mpr ⟨old, hold, hid⟩
  generalize hid : todo.id = taskId at h hnew hkept ⊢
  cases h with
  | named _ _ ha hc =>
    obtain ⟨old, ho⟩ := Option.isSome_iff_exists.mp ha
    exact ⟨hc, hu.le, by rw [hnew, if_pos (hkept old ho), List.append_nil, hu.fresh]⟩
  | kept _ ha hc _ =>
    exact ⟨hc, hu.le, by rw [hnew, if_pos (hkept _ ha), List.append_nil, hu.fresh]⟩
  | minted =>
    have hpast := hm.mintId_not_mem hu.le
    refine ⟨fun hmem => ?_, Nat.le_succ_of_le hu.le, ?_⟩
    · have hn : mintId st.sequence ∈ newIds previous st.todos :=
        List.mem_filter.mpr ⟨hmem, by simpa using hpast⟩
      rw [hu.fresh] at hn
      obtain ⟨k, hk, he⟩ := List.mem_map.mp hn
      have hks : k = st.sequence := mintId_injective he
      have hlt := List.mem_range'_1.mp hk
      have hle := hu.le
      omega
    · have hle := hu.le
      rw [hnew, if_neg hpast, hu.fresh, Nat.succ_sub hle, List.range'_concat, List.map_append,
        List.map_singleton]
      congr 3
      omega

theorem Updated.step (hm : Minted previous sequence) (hu : Updated previous sequence items st)
    (h : PlanFold.step (availableOf previous) st item = .ok later) :
    Updated previous sequence (items ++ [item]) later := by
  obtain ⟨todo, text, htext, hcontent, hdistinct, hshaped, hid, htodos⟩ := step_eq_ok h
  obtain ⟨hkept, hnamed⟩ := hid.origin hm hu.le
  obtain ⟨hfree, hle, hfresh⟩ := hid.fresh hm hu
  constructor
  · rw [htodos]
    exact List.rel_append hu.origins (.cons ⟨⟨text, htext, hcontent⟩, hkept, hnamed⟩ .nil)
  · rw [htodos, List.map_append]
    exact Sequence.nodup_concat.mpr ⟨hfree, hu.once⟩
  · rw [htodos, List.map_append]
    exact Sequence.nodup_concat.mpr ⟨hdistinct, hu.distinct⟩
  · intro t ht
    rw [htodos] at ht
    rcases List.mem_append.mp ht with ht | ht
    · exact hu.shaped t ht
    · exact List.mem_singleton.mp ht ▸ hshaped
  · rw [htodos]
    exact hfresh
  · exact hle

theorem Updated.fold (hm : Minted previous sequence)
    (h : items.foldlM (PlanFold.step (availableOf previous)) { sequence } = .ok later) :
    Updated previous sequence items later := by
  induction items using List.reverseRecOn generalizing later with
  | nil =>
    obtain rfl : ({ sequence } : PlanFold) = later := by simpa using h
    exact ⟨.nil, List.nodup_nil, List.nodup_nil, by simp, by simp [newIds], le_refl _⟩
  | append_singleton items item ih =>
    obtain ⟨mid, hmid, h⟩ := foldlM_concat_eq_ok.mp h
    exact (ih hmid).step hm h

end Fold

end Eventide.TaskPlan
