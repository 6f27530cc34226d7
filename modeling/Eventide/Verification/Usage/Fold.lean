import Mathlib.Data.List.Induction
import Eventide.Model.Usage
import Eventide.Verification.Json.Equality

/-! # What the ledger's loop files

After the loop each attempt holds its first start and its first finish, each legacy key its
first event, and the loop raises exactly on the facts that no order could file. -/

namespace Eventide

open Outcome

namespace LedgerEvent

/-- Where an attempt fact is filed: the start (`true`) or the finish of a run's attempt. -/
def factKey? (e : LedgerEvent) : Option (Bool × String × String) :=
  match e.type with
  | .modelAttemptStarted => (attemptIdOf e.payload).map (true, runKey e.runId, ·)
  | .modelAttemptFinished => (attemptIdOf e.payload).map (false, runKey e.runId, ·)
  | _ => none

/-- The external authority that a response names for its usage. -/
def authority? (runs : List (Option String)) (e : LedgerEvent) : Option Json :=
  if e.isResponse runs then e.payload.get? "usage_authority" else none

/-- Where a response is filed that counts by itself. -/
def legacyKey? (runs : List (Option String)) (e : LedgerEvent) : Option (String × String) :=
  if e.isResponse runs ∧ e.payload.get? "usage_authority" = none
    then some (runKey e.runId, e.eventId) else none

/-- The checks the loop makes on an event alone. -/
def Valid (runs : List (Option String)) (e : LedgerEvent) : Prop :=
  (e.isAttempt = true → e.factKey?.isSome) ∧
  (∀ reference, e.authority? runs = some reference → validAuthority reference = true) ∧
  ∀ key, e.legacyKey? runs = some key → key.2 ≠ ""

variable {runs : List (Option String)} {e : LedgerEvent}

theorem isAttempt_of_factKey {slot : Bool × String × String} (h : e.factKey? = some slot) :
    e.isAttempt = true := by
  unfold factKey? at h
  split at h
  · rename_i ht; simp [isAttempt, ht]
  · rename_i ht; simp [isAttempt, ht]
  · cases h

theorem isResponse_of_attempt (h : e.isAttempt = true) : e.isResponse runs = false := by
  simp only [isAttempt, Bool.or_eq_true, decide_eq_true_eq] at h
  rcases h with h | h <;> simp [isResponse, h]

theorem authority?_of_attempt (h : e.isAttempt = true) : e.authority? runs = none := by
  simp [authority?, isResponse_of_attempt h]

theorem legacyKey?_of_attempt (h : e.isAttempt = true) : e.legacyKey? runs = none := by
  simp [legacyKey?, isResponse_of_attempt h]

end LedgerEvent

namespace AttemptRecord

def slot (record : AttemptRecord) (isStart : Bool) : Option LedgerEvent :=
  if isStart then record.start else record.finish

def fill (record : AttemptRecord) (isStart : Bool) (e : LedgerEvent) : AttemptRecord :=
  if isStart then { record with start := record.start.or (some e) }
  else { record with finish := record.finish.or (some e) }

theorem ext_slot {r r' : AttemptRecord} (h : ∀ b, r.slot b = r'.slot b) : r = r' := by
  obtain ⟨s, f⟩ := r
  obtain ⟨s', f'⟩ := r'
  have hs : s = s' := h true
  have hf : f = f' := h false
  rw [hs, hf]

@[simp] theorem slot_fill (record : AttemptRecord) (b c : Bool) (e : LedgerEvent) :
    (record.fill b e).slot c = if c = b then (record.slot b).or (some e) else record.slot c := by
  cases b <;> cases c <;> rfl

end AttemptRecord

theorem fillSlot_eq_ok {slot : Option LedgerEvent} {e : LedgerEvent} {r : Option LedgerEvent} :
    fillSlot slot e = .ok r ↔
      (∀ p, slot = some p → p.payload.pyEq e.payload = true) ∧ slot.or (some e) = r := by
  cases slot with
  | none => simp [fillSlot]
  | some p => simp [fillSlot, bind_eq_ok]

namespace LedgerFold

variable {runs : List (Option String)} {st st' : LedgerFold} {e : LedgerEvent}

/-- The record of a key, empty where there is none. -/
def recordAt (st : LedgerFold) (key : String × String) : AttemptRecord :=
  (st.attempts.get? key).getD {}

theorem step_attempt {isStart : Bool} {key : String × String}
    (h : e.factKey? = some (isStart, key)) :
    step runs st e = .ok st' ↔
      (∀ p, (st.recordAt key).slot isStart = some p → p.payload.pyEq e.payload = true) ∧
      { st with attempts := st.attempts.set key ((st.recordAt key).fill isStart e) } = st' := by
  unfold LedgerEvent.factKey? at h
  split at h
  · rename_i ht
    obtain ⟨attemptId, hid, hkey⟩ := Option.map_eq_some_iff.mp h
    obtain ⟨rfl, rfl⟩ := Prod.mk.inj hkey
    simp [step, ht, attemptStep, hid, bind_eq_ok, map_eq_ok, fillSlot_eq_ok, recordAt,
      AttemptRecord.slot, AttemptRecord.fill, and_assoc]
  · rename_i ht
    obtain ⟨attemptId, hid, hkey⟩ := Option.map_eq_some_iff.mp h
    obtain ⟨rfl, rfl⟩ := Prod.mk.inj hkey
    simp [step, ht, attemptStep, hid, bind_eq_ok, map_eq_ok, fillSlot_eq_ok, recordAt,
      AttemptRecord.slot, AttemptRecord.fill, and_assoc]
  · cases h

/-- `if reference not in authorities: authorities.append(reference)`. -/
def addReference (authorities : List Json) (reference : Json) : List Json :=
  if authorities.any (·.pyEq reference) then authorities else authorities ++ [reference]

/-- What a step without a filed attempt fact does. -/
theorem step_other (h : e.factKey? = none) :
    step runs st e = .ok st' ↔ e.Valid runs ∧
      { st with
        legacy := match e.legacyKey? runs with
          | some key => st.legacy.setDefault key e
          | none => st.legacy
        authorities := match e.authority? runs with
          | some reference => addReference st.authorities reference
          | none => st.authorities } = st' := by
  by_cases ha : e.isAttempt = true
  · have hv : ¬ e.Valid runs := fun hv => by simpa [h] using hv.1 ha
    have hid : attemptIdOf e.payload = none := by
      have ht := ha
      simp only [LedgerEvent.isAttempt, Bool.or_eq_true, decide_eq_true_eq] at ht
      rcases ht with ht | ht <;> simpa [LedgerEvent.factKey?, ht] using h
    simp only [LedgerEvent.isAttempt, Bool.or_eq_true, decide_eq_true_eq] at ha
    rcases ha with ht | ht <;> simp [step, ht, attemptStep, hid, hv]
  · have hn := ha
    simp only [LedgerEvent.isAttempt, Bool.or_eq_true, decide_eq_true_eq, not_or] at hn
    by_cases hr : e.isResponse runs = true
    · have hstep : step runs st e = st.legacyStep e := by
        simp only [LedgerEvent.isResponse, Bool.and_eq_true, Bool.or_eq_true,
          decide_eq_true_eq] at hr
        rcases hr.1 with ht | ht <;> simp [step, ht, hr.2]
      rw [hstep]
      cases hu : e.payload.get? "usage_authority" with
      | some reference =>
        simp [legacyStep, hu, bind_eq_ok, LedgerEvent.Valid, LedgerEvent.authority?,
          LedgerEvent.legacyKey?, hr, ha, addReference]
        intro hv
        split <;> rfl
      | none =>
        simp [legacyStep, hu, bind_eq_ok, LedgerEvent.Valid, LedgerEvent.authority?,
          LedgerEvent.legacyKey?, hr, ha]
    · have hstep : step runs st e = .ok st := by
        simp only [LedgerEvent.isResponse, Bool.and_eq_true, Bool.or_eq_true, decide_eq_true_eq,
          not_and] at hr
        unfold step
        split
        · exact absurd ‹_› hn.1
        · exact absurd ‹_› hn.2
        · exact if_pos (not_not.mp (hr (Or.inl ‹_›)))
        · exact if_pos (not_not.mp (hr (Or.inr ‹_›)))
        · rfl
      simp [hstep, LedgerEvent.Valid, LedgerEvent.authority?, LedgerEvent.legacyKey?, hr, ha]

/-- The record of a key in a log: its first start and its first finish. -/
def recordOf (events : List LedgerEvent) (key : String × String) : AttemptRecord where
  start := events.find? (·.factKey? = some (true, key))
  finish := events.find? (·.factKey? = some (false, key))

@[simp] theorem slot_recordOf (events : List LedgerEvent) (key : String × String) (b : Bool) :
    (recordOf events key).slot b = events.find? (·.factKey? = some (b, key)) := by
  cases b <;> rfl

/-- The references that a log leaves, in order of first mention. -/
def referencesOf (runs : List (Option String)) (events : List LedgerEvent) : List Json :=
  (events.filterMap (·.authority? runs)).foldl addReference []

/-- What the loop has filed after a log. -/
structure Filed (runs : List (Option String)) (events : List LedgerEvent) (st : LedgerFold) :
    Prop where
  record : ∀ key, st.recordAt key = recordOf events key
  keys : ∀ key, key ∈ st.attempts.keys ↔ ∃ e ∈ events, ∃ b, e.factKey? = some (b, key)
  legacy : ∀ key, st.legacy.get? key = events.find? (·.legacyKey? runs = some key)
  authorities : st.authorities = referencesOf runs events

/-- The facts of a log that can be filed in every order. -/
def Admissible (runs : List (Option String)) (events : List LedgerEvent) : Prop :=
  (∀ e ∈ events, e.Valid runs) ∧
    ∀ a ∈ events, ∀ b ∈ events, a.factKey?.isSome → a.factKey? = b.factKey? →
      a.payload.pyEq b.payload = true

variable {events : List LedgerEvent}

theorem filed_nil : Filed runs [] {} where
  record _ := rfl
  keys key := by simp
  legacy _ := rfl
  authorities := rfl

theorem recordAt_set {attempts : Dict (String × String) AttemptRecord} {key : String × String}
    {record : AttemptRecord} (h : attempts = st.attempts.set key record) (j : String × String) :
    recordAt { st with attempts } j = if j = key then record else st.recordAt j := by
  subst h
  by_cases hj : j = key <;> simp [recordAt, hj]

theorem filed_step (h : Filed runs events st) (hs : step runs st e = .ok st') :
    Filed runs (events ++ [e]) st' := by
  cases hk : e.factKey? with
  | some slot =>
    obtain ⟨isStart, key⟩ := slot
    obtain ⟨-, rfl⟩ := (step_attempt hk).mp hs
    have ha := LedgerEvent.isAttempt_of_factKey hk
    constructor
    · intro j
      refine AttemptRecord.ext_slot fun b => ?_
      rw [recordAt_set rfl, slot_recordOf, List.find?_append, List.find?_singleton, hk]
      by_cases hj : j = key
      · subst hj
        rw [if_pos rfl, AttemptRecord.slot_fill, h.record, slot_recordOf, slot_recordOf]
        by_cases hb : b = isStart
        · simp [hb]
        · simp [hb, Ne.symm hb]
      · simp [hj, Ne.symm hj, h.record]
    · intro j
      rw [Dict.mem_keys_set, h.keys]
      constructor
      · rintro (rfl | ⟨a, ha, b, hb⟩)
        · exact ⟨e, by simp, isStart, hk⟩
        · exact ⟨a, by simp [ha], b, hb⟩
      · rintro ⟨a, ha, b, hb⟩
        rcases List.mem_append.mp ha with ha | ha
        · exact Or.inr ⟨a, ha, b, hb⟩
        · obtain rfl : a = e := by simpa using ha
          rw [hk] at hb
          exact Or.inl (Prod.mk.inj (Option.some.inj hb)).2.symm
    · intro j
      simp [LedgerEvent.legacyKey?_of_attempt ha, h.legacy]
    · simp [referencesOf, LedgerEvent.authority?_of_attempt ha, h.authorities]
  | none =>
    obtain ⟨-, rfl⟩ := (step_other hk).mp hs
    constructor
    · intro j
      refine AttemptRecord.ext_slot fun b => ?_
      have hj : (st.recordAt j).slot b = (recordOf events j).slot b := by rw [h.record]
      rw [slot_recordOf, List.find?_append, List.find?_singleton, hk]
      simpa [recordAt] using hj
    · intro j
      refine (h.keys j).trans ?_
      simp [or_and_right, exists_or, hk]
    · intro j
      cases hl : e.legacyKey? runs with
      | none => simp [hl, h.legacy]
      | some key =>
        simp only [Dict.get?_setDefault, List.find?_append, List.find?_singleton, hl, h.legacy,
          Option.some.injEq, decide_eq_true_eq]
        by_cases hj : j = key
        · subst hj
          cases events.find? (·.legacyKey? runs = some j) <;> simp
        · simp [hj, Ne.symm hj]
    · cases hr : e.authority? runs <;> simp [referencesOf, hr, h.authorities]

theorem factKey?_of_find {slot : Bool × String × String}
    (h : events.find? (·.factKey? = some slot) = some e) : e.factKey? = some slot := by
  simpa using List.find?_some h

theorem valid_of_factKey (h : e.factKey?.isSome) : e.Valid runs := by
  obtain ⟨slot, hk⟩ := Option.isSome_iff_exists.mp h
  have ha := LedgerEvent.isAttempt_of_factKey hk
  refine ⟨fun _ => h, fun reference hr => ?_, fun key hl => ?_⟩
  · rw [LedgerEvent.authority?_of_attempt ha] at hr
    cases hr
  · rw [LedgerEvent.legacyKey?_of_attempt ha] at hl
    cases hl

/-- Equality with the first fact of a slot is equality with all of them. -/
theorem step_ok_iff (h : Filed runs events st) (ha : Admissible runs events) :
    (∃ st', step runs st e = .ok st') ↔ Admissible runs (events ++ [e]) := by
  have hadm : Admissible runs (events ++ [e]) ↔ e.Valid runs ∧
      ∀ a ∈ events, e.factKey?.isSome → a.factKey? = e.factKey? →
        a.payload.pyEq e.payload = true := by
    constructor
    · intro hall
      refine ⟨hall.1 e (by simp), fun a hm hk he => ?_⟩
      exact hall.2 a (by simp [hm]) e (by simp) (he ▸ hk) he
    · rintro ⟨hv, he⟩
      refine ⟨fun a hm => ?_, fun a hm b hb hk hab => ?_⟩
      · rcases List.mem_append.mp hm with hm | hm
        · exact ha.1 a hm
        · exact (List.mem_singleton.mp hm) ▸ hv
      · rcases List.mem_append.mp hm with ham | hm <;>
          rcases List.mem_append.mp hb with hbm | hb
        · exact ha.2 a ham b hbm hk hab
        · obtain rfl := List.mem_singleton.mp hb
          exact he a ham (hab ▸ hk) hab
        · obtain rfl := List.mem_singleton.mp hm
          exact Json.pyEq_symm (he b hbm hk hab.symm)
        · obtain rfl := List.mem_singleton.mp hm
          obtain rfl := List.mem_singleton.mp hb
          exact Json.pyEq_refl _
  rw [hadm]
  cases hk : e.factKey? with
  | none => simp [step_other hk]
  | some slot =>
    obtain ⟨isStart, key⟩ := slot
    simp only [step_attempt hk, exists_and_left, exists_eq', and_true, h.record, slot_recordOf,
      valid_of_factKey (hk ▸ rfl : e.factKey?.isSome), true_and, Option.isSome_some,
      forall_true_left]
    constructor
    · intro hp a hm hak
      cases hf : events.find? (·.factKey? = some (isStart, key)) with
      | none => simpa [hak] using List.find?_eq_none.mp hf a hm
      | some p =>
        have hpk := factKey?_of_find hf
        have hap := ha.2 a hm p (List.mem_of_find?_eq_some hf) (by simp [hak]) (hak.trans hpk.symm)
        exact Json.pyEq_trans hap (hp p hf)
    · intro hall p hf
      exact hall p (List.mem_of_find?_eq_some hf) (factKey?_of_find hf)

theorem foldlM_concat {s : LedgerFold} :
    (events ++ [e]).foldlM (step runs) s = .ok st' ↔
      ∃ st, events.foldlM (step runs) s = .ok st ∧ step runs st e = .ok st' := by
  simp [List.foldlM_append, bind_eq_ok]

theorem fold_filed (h : events.foldlM (step runs) {} = .ok st) : Filed runs events st := by
  induction events using List.reverseRecOn generalizing st with
  | nil =>
    obtain rfl : {} = st := by simpa using h
    exact filed_nil
  | append_singleton events e ih =>
    obtain ⟨s, hs, he⟩ := foldlM_concat.mp h
    exact filed_step (ih hs) he

theorem admissible_of_append (h : Admissible runs (events ++ [e])) : Admissible runs events :=
  ⟨fun a ha => h.1 a (by simp [ha]), fun a ha b hb => h.2 a (by simp [ha]) b (by simp [hb])⟩

/-- The loop raises exactly where the facts are not admissible. -/
theorem fold_ok_iff :
    (∃ st, events.foldlM (step runs) {} = .ok st) ↔ Admissible runs events := by
  induction events using List.reverseRecOn with
  | nil => simp [Admissible]
  | append_singleton events e ih =>
    constructor
    · rintro ⟨st', h⟩
      obtain ⟨st, hs, he⟩ := foldlM_concat.mp h
      exact (step_ok_iff (fold_filed hs) (ih.mp ⟨st, hs⟩)).mp ⟨st', he⟩
    · intro h
      obtain ⟨st, hs⟩ := ih.mpr (admissible_of_append h)
      obtain ⟨st', he⟩ := (step_ok_iff (fold_filed hs) (admissible_of_append h)).mpr h
      exact ⟨st', foldlM_concat.mpr ⟨st, hs, he⟩⟩

end LedgerFold

end Eventide
