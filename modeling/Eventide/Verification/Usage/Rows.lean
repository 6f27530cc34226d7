import Eventide.Library.Sequence
import Eventide.Verification.Usage.Fold

/-! # The rows of a filed log -/

namespace Eventide

open Outcome

/-- The run and the attempt that a row bills. -/
def UsageCall.key (call : UsageCall) : String × String := (runKey call.runId, call.attemptId)

theorem knownSource_mem {source : Json} {s : String} (h : knownSource source = some s) :
    s = "reported" ∨ s = "estimated" ∨ s = "unknown" := by
  unfold knownSource at h
  split at h
  · split at h
    · rename_i hs
      obtain rfl := Option.some.inj h
      simpa using hs
    · cases h
  · cases h

namespace UsageSnapshot

variable {usage source basis : Json} {snapshot : UsageSnapshot}

theorem source_mem (h : usageSnapshot usage source basis = .ok snapshot) :
    snapshot.source = "reported" ∨ snapshot.source = "estimated" ∨
      snapshot.source = "unknown" := by
  simp only [usageSnapshot, bind_eq_ok, pure_eq_ok, Except.ok.injEq] at h
  obtain ⟨totals, -, -, -, rfl⟩ := h
  split
  · exact Or.inr (Or.inr rfl)
  · cases hs : knownSource source with
    | none => exact Or.inl rfl
    | some s => exact knownSource_mem hs

theorem usage_nodup (h : usageSnapshot usage source basis = .ok snapshot) :
    (snapshot.usage.map Prod.fst).Nodup := by
  simp only [usageSnapshot, bind_eq_ok, pure_eq_ok, Except.ok.injEq] at h
  obtain ⟨totals, -, -, -, rfl⟩ := h
  exact (by decide : tokenFields.Nodup).sublist (Sequence.map_fst_filterMap_sublist _ _)

end UsageSnapshot

/-- A row's counters are keyed once and come with one of three provenances. -/
structure UsageCall.WellFormed (call : UsageCall) : Prop where
  source : call.usageSource = "reported" ∨ call.usageSource = "estimated" ∨
    call.usageSource = "unknown"
  nodup : (call.usage.map Prod.fst).Nodup

theorem attemptRow_eq_ok {attemptId : String} {record : AttemptRecord} {call : UsageCall}
    (h : attemptRow attemptId record = .ok call) :
    call.attemptId = attemptId ∧ call.WellFormed ∧
      ∃ e, record.start.or record.finish = some e ∧ call.runId = e.runId := by
  unfold attemptRow at h
  split at h
  · cases h
  · rename_i e he
    simp only [bind_eq_ok, pure_eq_ok, Except.ok.injEq] at h
    obtain ⟨-, -, -, -, snapshot, hs, rfl⟩ := h
    exact ⟨rfl, ⟨UsageSnapshot.source_mem hs, UsageSnapshot.usage_nodup hs⟩, e, he, rfl⟩

theorem legacyRow_eq_ok {e : LedgerEvent} {call : UsageCall} (h : legacyRow e = .ok call) :
    call.attemptId = "legacy:" ++ e.eventId ∧ call.runId = e.runId ∧ call.WellFormed := by
  simp only [legacyRow, bind_eq_ok, pure_eq_ok, Except.ok.injEq] at h
  obtain ⟨snapshot, hs, rfl⟩ := h
  exact ⟨rfl, rfl, UsageSnapshot.source_mem hs, UsageSnapshot.usage_nodup hs⟩

theorem LedgerEvent.runKey_of_factKey {e : LedgerEvent} {b : Bool} {key : String × String}
    (h : e.factKey? = some (b, key)) : runKey e.runId = key.1 := by
  unfold LedgerEvent.factKey? at h
  split at h
  · obtain ⟨_, -, hkey⟩ := Option.map_eq_some_iff.mp h
    rw [← (Prod.mk.inj hkey).2]
  · obtain ⟨_, -, hkey⟩ := Option.map_eq_some_iff.mp h
    rw [← (Prod.mk.inj hkey).2]
  · cases h

theorem LedgerEvent.legacyKey?_eq_some {runs : List (Option String)} {e : LedgerEvent}
    {key : String × String} : e.legacyKey? runs = some key ↔
      e.isResponse runs = true ∧ e.payload.get? "usage_authority" = none ∧
        key = (runKey e.runId, e.eventId) := by
  simp only [legacyKey?]
  split
  · rename_i h
    simp [h.1, h.2, eq_comm]
  · rename_i h
    simp only [reduceCtorEq, false_iff]
    rintro ⟨hr, hu, -⟩
    exact h ⟨hr, hu⟩

/-- One row for each attempt of a log, computed from its first start and first finish. -/
structure AttemptCalls (events : List LedgerEvent) (calls : List UsageCall) : Prop where
  nodup : (calls.map UsageCall.key).Nodup
  keys : ∀ key, key ∈ calls.map UsageCall.key ↔ ∃ e ∈ events, ∃ b, e.factKey? = some (b, key)
  row : ∀ c ∈ calls, attemptRow c.attemptId (LedgerFold.recordOf events c.key) = .ok c
  run : ∀ c ∈ calls, c.runId ∈ newRuns events

/-- One row for each response of a run without attempt facts. -/
structure LegacyCalls (events : List LedgerEvent) (calls : List UsageCall) : Prop where
  nodup : (calls.map UsageCall.key).Nodup
  keys : ∀ key, key ∈ calls.map UsageCall.key ↔ ∃ e ∈ events,
    e.isResponse (newRuns events) = true ∧ e.payload.get? "usage_authority" = none ∧
      key = (runKey e.runId, "legacy:" ++ e.eventId)
  row : ∀ c ∈ calls, ∃ e ∈ events, e.isResponse (newRuns events) = true ∧ legacyRow e = .ok c
  run : ∀ c ∈ calls, c.runId ∉ newRuns events

namespace LedgerFold

variable {runs : List (Option String)} {events : List LedgerEvent} {st : LedgerFold}

/-- The response that a legacy key bills. -/
def legacyOf (runs : List (Option String)) (events : List LedgerEvent)
    (key : String × String) : LedgerEvent :=
  (events.find? (·.legacyKey? runs = some key)).getD default

theorem legacyOf_spec {key : String × String}
    (h : ∃ e ∈ events, e.legacyKey? runs = some key) :
    legacyOf runs events key ∈ events ∧ (legacyOf runs events key).legacyKey? runs = some key := by
  unfold legacyOf
  cases hf : events.find? (·.legacyKey? runs = some key) with
  | none =>
    obtain ⟨e, he, hk⟩ := h
    simpa [hk] using List.find?_eq_none.mp hf e he
  | some e => exact ⟨List.mem_of_find?_eq_some hf, by simpa using List.find?_some hf⟩

theorem Filed.entries (h : Filed runs events st) :
    st.attempts.entries = st.attempts.keys.map fun key => (key, recordOf events key) :=
  Dict.entries_eq_map fun key record hr => by simpa [recordAt, hr] using h.record key

theorem Filed.values (h : Filed runs events st) :
    st.legacy.values = st.legacy.keys.map (legacyOf runs events) :=
  Dict.values_eq_map fun key e he => by rw [legacyOf, ← h.legacy, he, Option.getD_some]

theorem Filed.legacy_keys (h : Filed runs events st) (key : String × String) :
    key ∈ st.legacy.keys ↔ ∃ e ∈ events, e.legacyKey? runs = some key := by
  rw [Dict.mem_keys, h.legacy, List.find?_isSome]
  simp

theorem Filed.rows_eq_ok (h : Filed runs events st) {rows : List UsageCall} :
    st.rows = .ok rows ↔ ∃ attempts legacy,
      st.attempts.keys.mapM (fun key => attemptRow key.2 (recordOf events key)) = .ok attempts ∧
      st.legacy.keys.mapM (fun key => legacyRow (legacyOf runs events key)) = .ok legacy ∧
      attempts ++ legacy = rows := by
  simp only [LedgerFold.rows, h.entries, h.values, List.mapM_map, bind_eq_ok, pure_eq_ok,
    Except.ok.injEq]
  constructor
  · rintro ⟨attempts, ha, legacy, hl, rfl⟩
    exact ⟨attempts, legacy, ha, hl, rfl⟩
  · rintro ⟨attempts, legacy, ha, hl, rfl⟩
    exact ⟨attempts, ha, legacy, hl, rfl⟩

theorem key_of_attemptRow {key : String × String} {call : UsageCall}
    (h : attemptRow key.2 (recordOf events key) = .ok call) :
    call.key = key ∧ ∃ e ∈ events, call.runId = e.runId ∧ e.isAttempt = true := by
  obtain ⟨hid, -, e, he, hrun⟩ := attemptRow_eq_ok h
  have hfact : ∃ b, events.find? (·.factKey? = some (b, key)) = some e := by
    rcases Option.or_eq_some_iff.mp he with he | ⟨-, he⟩
    · exact ⟨true, he⟩
    · exact ⟨false, he⟩
  obtain ⟨b, hb⟩ := hfact
  have hk := factKey?_of_find hb
  refine ⟨?_, e, List.mem_of_find?_eq_some hb, hrun, LedgerEvent.isAttempt_of_factKey hk⟩
  rw [UsageCall.key, hrun, LedgerEvent.runKey_of_factKey hk, hid]

theorem mem_newRuns {run : Option String} :
    run ∈ newRuns events ↔ ∃ e ∈ events, run = e.runId ∧ e.isAttempt = true := by
  simp only [newRuns, List.mem_map, List.mem_filter]
  constructor
  · rintro ⟨e, ⟨he, ha⟩, rfl⟩
    exact ⟨e, he, rfl, ha⟩
  · rintro ⟨e, he, rfl, ha⟩
    exact ⟨e, ⟨he, ha⟩, rfl⟩

theorem Filed.attemptCalls (h : Filed runs events st) {attempts : List UsageCall}
    (ha : st.attempts.keys.mapM (fun key => attemptRow key.2 (recordOf events key)) =
      .ok attempts) : AttemptCalls events attempts := by
  have hmap : attempts.map UsageCall.key = st.attempts.keys := by
    simpa using map_of_mapM (g := id) (fun key _ call hc => (key_of_attemptRow hc).1) ha
  refine ⟨hmap ▸ st.attempts.keys_nodup, fun key => hmap ▸ h.keys key, fun c hc => ?_,
    fun c hc => ?_⟩
  · obtain ⟨key, -, hrow⟩ := mem_of_mapM ha hc
    obtain rfl := (key_of_attemptRow hrow).1
    exact hrow
  · obtain ⟨key, -, hrow⟩ := mem_of_mapM ha hc
    exact mem_newRuns.mpr (key_of_attemptRow hrow).2

/-- The key of a legacy row, with the id that the row shows. -/
def legacyRowKey (key : String × String) : String × String := (key.1, "legacy:" ++ key.2)

theorem legacyRowKey_injective : Function.Injective legacyRowKey := by
  rintro ⟨run, event⟩ ⟨run', event'⟩ h
  obtain ⟨hr, he⟩ := Prod.mk.inj h
  exact Prod.ext hr ((String.append_right_inj "legacy:").mp he)

theorem key_of_legacyRow {e : LedgerEvent} {key : String × String} {call : UsageCall}
    (hk : e.legacyKey? runs = some key) (h : legacyRow e = .ok call) :
    call.key = legacyRowKey key ∧ call.runId = e.runId := by
  obtain ⟨hid, hrun, -⟩ := legacyRow_eq_ok h
  obtain ⟨-, -, rfl⟩ := LedgerEvent.legacyKey?_eq_some.mp hk
  exact ⟨by rw [UsageCall.key, hid, hrun, legacyRowKey], hrun⟩

theorem Filed.legacyCalls (h : Filed (newRuns events) events st) {legacy : List UsageCall}
    (hl : st.legacy.keys.mapM (fun key => legacyRow (legacyOf (newRuns events) events key)) =
      .ok legacy) : LegacyCalls events legacy := by
  have hspec : ∀ key ∈ st.legacy.keys, _ := fun key hk =>
    legacyOf_spec ((h.legacy_keys key).mp hk)
  have hmap : legacy.map UsageCall.key = st.legacy.keys.map legacyRowKey :=
    map_of_mapM (fun key hk call hc => (key_of_legacyRow (hspec key hk).2 hc).1) hl
  have hrow : ∀ c ∈ legacy, ∃ e ∈ events, e.isResponse (newRuns events) = true ∧
      legacyRow e = .ok c ∧ c.runId = e.runId := by
    intro c hc
    obtain ⟨key, hk, hc⟩ := mem_of_mapM hl hc
    obtain ⟨hm, hkey⟩ := hspec key hk
    exact ⟨_, hm, (LedgerEvent.legacyKey?_eq_some.mp hkey).1, hc, (key_of_legacyRow hkey hc).2⟩
  constructor
  · rw [hmap]
    exact st.legacy.keys_nodup.map legacyRowKey_injective
  · intro key
    simp only [hmap, List.mem_map, h.legacy_keys, LedgerEvent.legacyKey?_eq_some]
    constructor
    · rintro ⟨k, ⟨e, he, hr, hu, rfl⟩, rfl⟩
      exact ⟨e, he, hr, hu, rfl⟩
    · rintro ⟨e, he, hr, hu, rfl⟩
      exact ⟨(runKey e.runId, e.eventId), ⟨e, he, hr, hu, rfl⟩, rfl⟩
  · intro c hc
    obtain ⟨e, he, hr, hc, -⟩ := hrow c hc
    exact ⟨e, he, hr, hc⟩
  · intro c hc
    obtain ⟨e, he, hr, -, hrun⟩ := hrow c hc
    simp only [LedgerEvent.isResponse, Bool.and_eq_true, decide_eq_true_eq] at hr
    exact hrun ▸ hr.2

/-- The rows of a filed log: its attempts, then its legacy responses. -/
theorem Filed.rows_split (h : Filed (newRuns events) events st) {rows : List UsageCall}
    (hr : st.rows = .ok rows) : ∃ attempts legacy, rows = attempts ++ legacy ∧
      AttemptCalls events attempts ∧ LegacyCalls events legacy := by
  obtain ⟨attempts, legacy, ha, hl, rfl⟩ := h.rows_eq_ok.mp hr
  exact ⟨attempts, legacy, rfl, h.attemptCalls ha, h.legacyCalls hl⟩

end LedgerFold

/-- The pair of values that a reader of the ledger tells rows apart by. -/
def UsageCall.identity (call : UsageCall) : Option String × String := (call.runId, call.attemptId)

theorem nodup_identity {calls : List UsageCall} (h : (calls.map UsageCall.key).Nodup) :
    (calls.map UsageCall.identity).Nodup := by
  refine List.Nodup.of_map (fun p => (runKey p.1, p.2)) ?_
  rw [List.map_map]
  exact h

theorem AttemptCalls.wellFormed {events : List LedgerEvent} {calls : List UsageCall}
    (h : AttemptCalls events calls) {c : UsageCall} (hc : c ∈ calls) : c.WellFormed :=
  (attemptRow_eq_ok (h.row c hc)).2.1

theorem LegacyCalls.wellFormed {events : List LedgerEvent} {calls : List UsageCall}
    (h : LegacyCalls events calls) {c : UsageCall} (hc : c ∈ calls) : c.WellFormed := by
  obtain ⟨e, -, -, hrow⟩ := h.row c hc
  exact (legacyRow_eq_ok hrow).2.2

/-- A run bills its attempts or its responses, so that no two rows have one identity. -/
theorem AttemptCalls.nodup_append {events : List LedgerEvent} {attempts legacy : List UsageCall}
    (ha : AttemptCalls events attempts) (hl : LegacyCalls events legacy) :
    ((attempts ++ legacy).map UsageCall.identity).Nodup := by
  rw [List.map_append, List.nodup_append]
  refine ⟨nodup_identity ha.nodup, nodup_identity hl.nodup, fun p hp q hq he => ?_⟩
  obtain ⟨c, hc, rfl⟩ := List.mem_map.mp hp
  obtain ⟨d, hd, rfl⟩ := List.mem_map.mp hq
  exact hl.run d hd ((Prod.mk.inj he).1 ▸ ha.run c hc)

end Eventide
