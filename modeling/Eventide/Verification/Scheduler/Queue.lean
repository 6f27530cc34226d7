import Eventide.Model.Scheduler
import Eventide.Verification.Store.Log
import Mathlib.Data.List.Find

/-! # What the queue of a log is -/

namespace Eventide

open Outcome RuntimeStore

/-- The run an event of the queue's types belongs to. -/
def Event.queueRun (e : Event) : Option String := if e.isPartial then none else givenRun e.runId

theorem Event.queueRun_eq_some {e : Event} {r : String} :
    e.queueRun = some r ↔ e.isPartial = false ∧ e.runId = some r ∧ r ≠ "" := by
  unfold Event.queueRun
  cases e.isPartial with
  | true => simp
  | false => simp [givenRun_eq_some]

/-- A whole `run.admitted` event of a run. -/
def Event.isAdmission (e : Event) : Bool := e.queueRun.isSome && e.type = .runAdmitted

/-- Admissions of one run are not repeated. -/
def AdmittedOnce (events : List Event) : Prop :=
  events.Pairwise fun a b => a.isAdmission = true → b.isAdmission = true → a.queueRun ≠ b.queueRun

/-- A whole terminal event of the run. -/
def Event.ends (e : Event) (r : String) : Bool := e.queueRun = some r && e.type.isTerminal

/-- The status that the log gives a run: terminal, else started, else queued. -/
def queueStatus (events : List Event) (r : String) : String :=
  match events.find? (·.ends r) with
  | some e => e.type.terminalStatus
  | none => if ∃ e ∈ events, e.queueRun = some r ∧ e.type = .runStarted then "running" else "queued"

/-- The entry of an admission. -/
def queueEntry (events : List Event) (e : Event) : QueueEntry where
  runId := e.queueRun.getD ""
  sessionId := e.sessionId
  projectId := e.payload.get? "project_id"
  status := queueStatus events (e.queueRun.getD "")
  admittedAt := e.ts
  admissionEventId := e.eventId
  intent := e.payload

/-- The admission of a root: its intent names no parent. -/
def Event.isRootAdmission (e : Event) : Bool :=
  e.isAdmission && !(e.payload.get? "parent_run_id").any Json.truthy

namespace QueueFold

/-- The dictionaries of the fold, read off the log. -/
structure Reads (q : QueueFold) (events : List Event) : Prop where
  admissions : q.admissions.entries =
    (events.filter Event.isAdmission).map fun e => (e.queueRun.getD "", e)
  starts : ∀ r, r ∈ q.starts ↔ ∃ e ∈ events, e.queueRun = some r ∧ e.type = .runStarted
  terminals : ∀ r, q.terminals.get? r =
    (events.find? (·.ends r)).map (·.type.terminalStatus)

theorem Reads.status {q : QueueFold} {events : List Event} (h : q.Reads events) (r : String) :
    q.status r = queueStatus events r := by
  unfold QueueFold.status queueStatus
  rw [h.terminals]
  cases events.find? (·.ends r) with
  | some e => rfl
  | none => simp only [Option.map_none, Option.getD_none, h.starts]

theorem Reads.mem_admissions {q : QueueFold} {events : List Event} (h : q.Reads events)
    {r : String} (hr : r ∈ q.admissions.keys) :
    ∃ e ∈ events, e.isAdmission = true ∧ e.queueRun = some r := by
  simp only [Dict.keys, h.admissions, List.map_map, List.mem_map, List.mem_filter,
    Function.comp_apply] at hr
  obtain ⟨e, ⟨he, ha⟩, rfl⟩ := hr
  refine ⟨e, he, ha, ?_⟩
  simp only [Event.isAdmission, Bool.and_eq_true] at ha
  obtain ⟨r, hr⟩ := Option.isSome_iff_exists.mp ha.1
  simp [hr]

/-- One more event of a log that admits each run once. -/
theorem Reads.step {q : QueueFold} {events : List Event} {e : Event} (h : q.Reads events)
    (ho : AdmittedOnce (events ++ [e])) : ∃ q', q.step e = .ok q' ∧ q'.Reads (events ++ [e]) := by
  have hlast : ∀ a ∈ events, a.isAdmission = true → e.isAdmission = true →
      a.queueRun ≠ e.queueRun := fun a ha =>
    (List.pairwise_append.mp ho).2.2 a ha e (by simp)
  unfold QueueFold.step
  cases hq : e.queueRun with
  | none =>
    have hsame : q.Reads (events ++ [e]) := by
      refine ⟨?_, fun r => ?_, fun r => ?_⟩
      · simp [h.admissions, Event.isAdmission, hq]
      · simp [h.starts, hq]
      · simp [h.terminals, List.find?_append, Event.ends, hq]
    refine ⟨q, ?_, hsame⟩
    unfold Event.queueRun at hq
    split
    · rfl
    · rename_i hp
      rw [if_neg hp] at hq
      simp [hq]
  | some r =>
    have hp : ¬ e.isPartial = true := by
      intro hp
      simp [Event.queueRun, hp] at hq
    have hg : givenRun e.runId = some r := by simpa [Event.queueRun, hp] using hq
    rw [if_neg hp, hg]
    by_cases ha : e.type = .runAdmitted
    · have hadm : e.isAdmission = true := by simp [Event.isAdmission, hq, ha]
      have hnew : r ∉ q.admissions.keys := by
        intro hm
        obtain ⟨a, hae, haa, har⟩ := h.mem_admissions hm
        exact hlast a hae haa hadm (har.trans hq.symm)
      have hnone := Dict.get?_eq_none.mpr hnew
      refine ⟨{ q with admissions := q.admissions.setDefault r e }, ?_, ?_, fun j => ?_,
        fun j => ?_⟩
      · simp [ha, hnone, raiseIf_of_not]
      · rw [Dict.setDefault_of_not_mem hnew, Dict.entries_set_of_not_mem hnew, h.admissions]
        simp [hadm, hq]
      · simp [h.starts, ha]
      · simp [h.terminals, List.find?_append, Event.ends, ha, EventType.isTerminal]
    · by_cases hs : e.type = .runStarted
      · refine ⟨{ q with starts := r :: q.starts }, ?_, ?_, fun j => ?_, fun j => ?_⟩
        · simp [hs]
        · simp [h.admissions, Event.isAdmission, ha]
        · simp only [List.mem_cons, h.starts, List.mem_append, List.not_mem_nil, or_false]
          constructor
          · rintro (rfl | ⟨a, hae, hr, ht⟩)
            · exact ⟨e, Or.inr rfl, hq, hs⟩
            · exact ⟨a, Or.inl hae, hr, ht⟩
          · rintro ⟨a, hae | rfl, hr, ht⟩
            · exact Or.inr ⟨a, hae, hr, ht⟩
            · exact Or.inl (Option.some.inj (hr.symm.trans hq))
        · simp [h.terminals, List.find?_append, Event.ends, hs, EventType.isTerminal]
      · by_cases ht : e.type.isTerminal = true
        · refine ⟨{ q with terminals := q.terminals.setDefault r e.type.terminalStatus }, ?_, ?_,
            fun j => ?_, fun j => ?_⟩
          · simp [ha, hs, ht]
          · simp [h.admissions, Event.isAdmission, ha]
          · simp [h.starts, hs]
          · rw [Dict.get?_setDefault, h.terminals, List.find?_append]
            by_cases hj : j = r
            · subst hj
              have he : e.ends j = true := by simp [Event.ends, hq, ht]
              rw [if_pos rfl]
              cases events.find? (·.ends j) <;> simp [he]
            · have he : e.ends j = false := by simp [Event.ends, hq, Ne.symm hj]
              rw [if_neg hj, h.terminals]
              cases events.find? (·.ends j) <;> simp [he]
        · refine ⟨q, by simp [ha, hs, ht], ?_, fun j => ?_, fun j => ?_⟩
          · simp [h.admissions, Event.isAdmission, ha]
          · simp [h.starts, hs]
          · simp [h.terminals, List.find?_append, Event.ends, ht]

theorem foldlM_reads {events : List Event} (h : AdmittedOnce events) :
    ∃ q, events.foldlM QueueFold.step {} = .ok q ∧ q.Reads events := by
  induction events using List.reverseRecOn with
  | nil => exact ⟨{}, rfl, rfl, by simp, by simp⟩
  | append_singleton events e ih =>
    obtain ⟨q, hq, hr⟩ := ih (List.pairwise_append.mp h).1
    obtain ⟨q', hs, hr'⟩ := hr.step h
    refine ⟨q', ?_, hr'⟩
    rw [List.foldlM_append, hq, ok_bind, List.foldlM_cons, hs]
    rfl

end QueueFold

/-- The queue lists the root admissions in log order, each with the status of its run. -/
theorem projectQueue_eq {events : List Event} (h : AdmittedOnce events) :
    projectQueue events =
      .ok ((events.filter Event.isRootAdmission).map (queueEntry events)) := by
  obtain ⟨q, hq, hr⟩ := QueueFold.foldlM_reads h
  unfold projectQueue
  rw [hq]
  simp only [ok_bind, pure_eq_ok, Except.ok.injEq, QueueFold.entries, hr.admissions,
    List.filter_map, List.map_map, List.filter_filter]
  have hf : events.filter Event.isRootAdmission = events.filter fun e =>
      ((fun admission : String × Event =>
        !(admission.2.payload.get? "parent_run_id").any Json.truthy) ∘
          fun e => (e.queueRun.getD "", e)) e && e.isAdmission := by
    refine List.filter_congr fun e _ => ?_
    simp [Event.isRootAdmission, Bool.and_comm]
  rw [hf]
  refine List.map_congr_left fun e _ => ?_
  simp [QueueFold.entry, queueEntry, hr.status]

/-- Facts of other types do not enter the queue. -/
theorem queueStatus_filter {events : List Event} {p : Event → Bool}
    (hp : ∀ e ∈ events, e.isPartial = false → e.type ∈ schedulingFacts → p e = true) (r : String) :
    queueStatus (events.filter p) r = queueStatus events r := by
  have hpass : ∀ e ∈ events, e.queueRun = some r →
      (e.type.isTerminal = true ∨ e.type = .runStarted) → p e = true := by
    intro e he hq hk
    refine hp e he ?_ ?_
    · by_contra hc
      simp [Event.queueRun, hc] at hq
    · rcases hk with hk | hk
      · rcases (EventType.isTerminal_iff _).mp hk with hk | hk | hk <;> simp [hk, schedulingFacts]
      · simp [hk, schedulingFacts]
  have hfind : (events.filter p).find? (·.ends r) = events.find? (·.ends r) := by
    rw [List.find?_filter]
    refine List.find?_congr fun e he => ?_
    by_cases hc : e.ends r = true
    · have hk : e.queueRun = some r ∧ e.type.isTerminal = true := by simpa [Event.ends] using hc
      simp [hc, hpass e he hk.1 (Or.inl hk.2)]
    · simp [hc]
  have hex : (∃ e ∈ events.filter p, e.queueRun = some r ∧ e.type = .runStarted) ↔
      ∃ e ∈ events, e.queueRun = some r ∧ e.type = .runStarted := by
    constructor
    · rintro ⟨e, he, hk⟩
      exact ⟨e, List.mem_of_mem_filter he, hk⟩
    · rintro ⟨e, he, hk⟩
      exact ⟨e, List.mem_filter.mpr ⟨he, hpass e he hk.1 (Or.inr hk.2)⟩, hk⟩
  unfold queueStatus
  rw [hfind]
  simp only [hex]

/-- The admissions of roots, in commit order. -/
def RuntimeStore.rootAdmissions (s : RuntimeStore) : List Event :=
  s.events.filter Event.isRootAdmission

/-- `entries()` lists the root admissions of the log, each with the status of its run. -/
theorem queueEntries_eq {s : RuntimeStore} (h : AdmittedOnce s.events) :
    s.queueEntries = .ok (s.rootAdmissions.map (queueEntry s.events)) := by
  have hfacts : (s.factsByType schedulingFacts).filter Event.isRootAdmission = s.rootAdmissions := by
    rw [factsByType, List.filter_filter, rootAdmissions]
    refine List.filter_congr fun e _ => ?_
    by_cases hr : e.isRootAdmission = true
    · simp only [Event.isRootAdmission, Event.isAdmission, Bool.and_eq_true, decide_eq_true_eq] at hr
      obtain ⟨r, hq⟩ := Option.isSome_iff_exists.mp hr.1.1
      have hp := (Event.queueRun_eq_some.mp hq).1
      simp [Event.isRootAdmission, Event.isAdmission, hr, hp, schedulingFacts]
    · simp [hr]
  have honce : AdmittedOnce (s.factsByType schedulingFacts) := List.Pairwise.filter _ h
  unfold queueEntries
  rw [projectQueue_eq honce, hfacts]
  refine congrArg Except.ok (List.map_congr_left fun e _ => ?_)
  have hs : queueStatus (s.factsByType schedulingFacts) (e.queueRun.getD "") =
      queueStatus s.events (e.queueRun.getD "") :=
    queueStatus_filter (fun e _ hp hk => by simp [hp, hk]) _
  simp only [queueEntry, hs]

end Eventide
