import Eventide.Verification.Memory.Invariant

/-! # What a snapshot selects -/

namespace Eventide.Memory

open Outcome Versions

section Order

theorem snapshotLE_trans (a b c : Record) (hab : snapshotLE a b = true)
    (hbc : snapshotLE b c = true) : snapshotLE a c = true := by
  simp only [snapshotLE, decide_eq_true_eq] at *
  exact hab.trans hbc

theorem snapshotLE_total (a b : Record) : (snapshotLE a b || snapshotLE b a) = true := by
  simp only [snapshotLE, Bool.or_eq_true, decide_eq_true_eq]
  exact le_total _ _

/-- In the order of a snapshot a project's preference comes after every global one. -/
theorem snapshotLE_scope {a b : Record} (h : snapshotLE a b = true) (ha : a.scope ≠ .global) :
    b.scope ≠ .global := by
  simp only [snapshotLE, decide_eq_true_eq] at h
  rcases Prod.Lex.toLex_le_toLex.mp h with hlt | ⟨heq, -⟩
  · simp [ha, Bool.lt_iff] at hlt
  · simpa [ha] using heq.symm

end Order

section Filed

variable {α κ : Type} [DecidableEq κ] {key : α → κ} {xs : List α}

/-- Filing items by a key keeps the last one of each key. -/
theorem get?_foldl_set (xs : List α) (k : κ) :
    (xs.foldl (fun chosen x => chosen.set (key x) x) Dict.empty).get? k = latest? key xs k := by
  induction xs using List.reverseRecOn with
  | nil => rfl
  | append_singleton xs x ih =>
    rw [List.foldl_append, List.foldl_cons, List.foldl_nil, Dict.get?_set, latest?_concat, ih]
    simp only [eq_comm]

end Filed

variable {facts : List Fact} {projectId : Option String} {r p : Record} {ref : Ref}

theorem mem_visible : r ∈ visible facts projectId ↔
    record? facts r.id = some r ∧ scopeMatches r projectId = true ∧ r.status ≠ .revoked := by
  simp [visible, mem_memories]

/-- The active preferences that a snapshot sees, in its order. -/
def sortedActive (facts : List Fact) (projectId : Option String) : List Record :=
  ((visible facts projectId).mergeSort snapshotLE).filter (·.status = .active)

theorem mem_sortedActive : r ∈ sortedActive facts projectId ↔
    record? facts r.id = some r ∧ scopeMatches r projectId = true ∧ r.status = .active := by
  simp only [sortedActive, List.mem_filter, List.mem_mergeSort, mem_visible, decide_eq_true_eq]
  constructor
  · rintro ⟨⟨hl, hs, -⟩, ha⟩
    exact ⟨hl, hs, ha⟩
  · rintro ⟨hl, hs, ha⟩
    exact ⟨⟨hl, hs, by simp [ha]⟩, ha⟩

theorem sortedActive_pairwise :
    (sortedActive facts projectId).Pairwise fun a b => snapshotLE a b = true :=
  (List.pairwise_mergeSort snapshotLE_trans snapshotLE_total _).sublist List.filter_sublist

theorem get?_selected (key : String) :
    (selected facts projectId).get? key = latest? Record.key (sortedActive facts projectId) key :=
  get?_foldl_set _ _

theorem mem_selected (h : r ∈ (selected facts projectId).values) :
    (selected facts projectId).get? r.key = some r := by
  obtain ⟨k, hk⟩ := Dict.mem_values.mp h
  have hlast := hk
  rw [get?_selected] at hlast
  obtain ⟨-, rfl⟩ := latest?_mem _ hlast
  exact hk

theorem selected_active (h : r ∈ (selected facts projectId).values) :
    r ∈ sortedActive facts projectId := by
  have hget := mem_selected h
  rw [get?_selected] at hget
  exact (latest?_mem _ hget).1

/-- Whatever the order puts after another member of the list is the later one of the two. -/
theorem latest?_le {xs : List Record} (hs : xs.Pairwise fun a b => snapshotLE a b = true)
    (hp : p ∈ xs) (hl : latest? Record.key xs p.key = some r) : r = p ∨ snapshotLE p r = true := by
  have hlast := latest_or_superseded Record.key hp
  rcases hlast with hlast | ⟨front, back, rfl, b, hb, he⟩
  · exact Or.inl (Option.some.inj (hl.symm.trans hlast))
  · right
    have hback : (versions Record.key back p.key) ≠ [] :=
      List.ne_nil_of_mem (by simpa [versions] using ⟨hb, he⟩ : b ∈ versions Record.key back p.key)
    have hr : r ∈ back := by
      have hv : versions Record.key (front ++ p :: back) p.key =
          versions Record.key front p.key ++ p :: versions Record.key back p.key := by
        simp [versions]
      rw [latest?, hv, List.getLast?_append, List.getLast?_cons] at hl
      have hmem : r ∈ versions Record.key back p.key := by
        rw [List.getLast?_eq_some_getLast hback] at hl
        simp only [Option.getD_some, Option.some_or, Option.some.injEq] at hl
        exact hl ▸ List.getLast_mem hback
      exact (List.mem_filter.mp hmem).1
    exact List.rel_of_pairwise_cons (List.pairwise_append.mp hs).2.1 hr

/-- Where a key has an active preference of the project, that one is selected. -/
theorem selected_project {projectId : String} (hi : MemoryInvariant facts)
    (hr : r ∈ (selected facts (some projectId)).values) (hp : record? facts p.id = some p)
    (ha : p.status = .active) (hs : p.scope = .project) (hid : p.projectId = some projectId)
    (hk : p.key = r.key) : r = p := by
  have hpm : p ∈ sortedActive facts (some projectId) :=
    mem_sortedActive.mpr ⟨hp, by simp [scopeMatches, hid], ha⟩
  obtain ⟨hrl, hrs, hra⟩ := mem_sortedActive.mp (selected_active hr)
  have hget := mem_selected hr
  rw [get?_selected, ← hk] at hget
  rcases latest?_le sortedActive_pairwise hpm hget with he | hle
  · exact he
  · have hne : r.scope ≠ .global := snapshotLE_scope hle (by simp [hs])
    have hscope : r.scope = .project := by
      cases hsc : r.scope with
      | project => rfl
      | global => exact absurd hsc hne
      | other name => exact absurd hsc (hi.known r (latest?_mem _ hrl).1 name)
    have hproject : r.projectId = some projectId := by simpa [scopeMatches, hne] using hrs
    have hslot : r.slot = p.slot := by simp [Record.slot, hscope, hs, hproject, hid, hk]
    have hids := hi.unique r p hrl hp (by simp [hra]) (by simp [ha]) hslot
    rw [hids, hp] at hrl
    exact (Option.some.inj hrl).symm

theorem selected_keys_nodup : ((selected facts projectId).values.map (·.key)).Nodup := by
  have hkeys : (selected facts projectId).values.map (·.key) = (selected facts projectId).keys := by
    rw [Dict.values, Dict.keys, List.map_map]
    refine List.map_congr_left fun e he => ?_
    have hget := Dict.mem_entries.mp (show (e.1, e.2) ∈ (selected facts projectId).entries from he)
    rw [get?_selected] at hget
    exact (latest?_mem _ hget).2
  rw [hkeys]
  exact (selected facts projectId).keys_nodup

/-- The records that a snapshot refers to. -/
theorem mem_snapshotRefs (h : ref ∈ snapshotRefs facts projectId) :
    ∃ r ∈ (selected facts projectId).values, r.ref = ref := by
  unfold snapshotRefs at h
  split at h
  · obtain ⟨r, hr, rfl⟩ := List.mem_map.mp h
    exact ⟨r, List.mem_mergeSort.mp (List.mem_of_mem_take hr), rfl⟩
  · simp at h

/-- A snapshot has one reference per key. -/
theorem snapshotRefs_keys_nodup : ((snapshotRefs facts projectId).map (·.key)).Nodup := by
  unfold snapshotRefs
  split
  · rw [List.map_map]
    have hperm := List.mergeSort_perm (selected facts projectId).values refLE
    have hsorted : (((selected facts projectId).values.mergeSort refLE).map (·.key)).Nodup :=
      (hperm.map _).nodup_iff.mpr selected_keys_nodup
    exact hsorted.sublist ((List.take_sublist 12 _).map _)
  · simp

/-- A preference has one reference in a snapshot. -/
theorem snapshotRefs_id {a b : Ref} (ha : a ∈ snapshotRefs facts projectId)
    (hb : b ∈ snapshotRefs facts projectId) (h : a.id = b.id) : a = b := by
  obtain ⟨ra, hra, rfl⟩ := mem_snapshotRefs ha
  obtain ⟨rb, hrb, rfl⟩ := mem_snapshotRefs hb
  have hla := (mem_sortedActive.mp (selected_active hra)).1
  have hlb := (mem_sortedActive.mp (selected_active hrb)).1
  have hid : ra.id = rb.id := h
  rw [hid, hlb] at hla
  rw [Option.some.inj hla]

/-- A snapshot refers to revisions that the log holds. -/
theorem snapshotRefs_recorded (h : ref ∈ snapshotRefs facts projectId) :
    ∃ r ∈ recordsOf facts, r.ref = ref := by
  obtain ⟨r, hr, rfl⟩ := mem_snapshotRefs h
  exact ⟨r, (latest?_mem _ (mem_sortedActive.mp (selected_active hr)).1).1, rfl⟩

end Eventide.Memory
