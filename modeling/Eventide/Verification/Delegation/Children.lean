import Eventide.Verification.Delegation.History
import Mathlib.Data.List.Basic

/-! # The workers of a chain -/

namespace Eventide

open Outcome RuntimeStore

namespace Delegation

variable {s t : RuntimeStore} {rows : List Event} {begun : Option (Turn × Run)}

/-- The admitted workers of a run. -/
def children (s : RuntimeStore) (runId : String) : List Event :=
  (workerAdmissions s runId).filter isChild

/-- The admitted workers of a run and of the runs that it continues. -/
def lineage (s : RuntimeStore) (runId : String) : List Event :=
  (s.chain [] runId).flatMap (children s)

/-- The fingerprint of an admission. -/
def fingerprint (e : Event) : Option String := reference e.payload "fingerprint"

theorem isChild_of_mem {runId : String} {e : Event} (h : e ∈ children s runId) :
    e ∈ workerAdmissions s runId := List.mem_of_mem_filter h

/-! ## Admissions that count -/

theorem recognized_eq_some {calls : List String} {payload : Json} {signature callId : String} :
    recognized calls payload = some (signature, callId) ↔
      reference payload "fingerprint" = some signature ∧
      reference payload "parent_call_id" = some callId ∧
      (∃ role, (payload.get? "worker_role").bind Json.str? = some role ∧ role ∈ workerRoles) ∧
      (∃ snapshot, (payload.get? "snapshot_id").bind Json.str? = some snapshot) ∧
      signature.length = 64 ∧ callId ∈ calls := by
  simp only [recognized, Option.bind_eq_bind, Option.bind_eq_some_iff, Option.guard_eq_some']
  constructor
  · rintro ⟨a, ha, b, hb, role, hrole, snapshot, hsnapshot, ⟨⟩, ⟨hlength, hcall, hin⟩, heq⟩
    obtain ⟨rfl, rfl⟩ := Prod.mk.inj (Option.some.inj heq)
    exact ⟨ha, hb, ⟨role, hrole, hin⟩, ⟨snapshot, hsnapshot⟩, hlength, hcall⟩
  · rintro ⟨ha, hb, ⟨role, hrole, hin⟩, ⟨snapshot, hsnapshot⟩, hlength, hcall⟩
    exact ⟨_, ha, _, hb, role, hrole, snapshot, hsnapshot, (), ⟨hlength, hcall, hin⟩, rfl⟩

theorem Counts.fingerprint {runId signature : String} {e : Event} (h : Counts s runId e signature) :
    fingerprint e = some signature := by
  obtain ⟨callId, h⟩ := h
  exact (recognized_eq_some.mp h).1

theorem runEvents_grown (h : Grown s t rows begun) {runId : String} {e : Event}
    (he : e ∈ s.runEvents runId) : e ∈ t.runEvents runId := by
  rw [runEvents, h.events, List.filter_append]
  exact List.mem_append_left _ he

theorem Counts.grown (h : Grown s t rows begun) {runId signature : String} {e : Event}
    (hc : Counts s runId e signature) : Counts t runId e signature := by
  obtain ⟨callId, hc⟩ := hc
  obtain ⟨ha, hb, hrole, hsnapshot, hlength, hcall⟩ := recognized_eq_some.mp hc
  obtain ⟨event, hevent, hid⟩ := List.mem_filterMap.mp hcall
  obtain ⟨hevent, hkind⟩ := List.mem_filter.mp hevent
  refine ⟨callId, recognized_eq_some.mpr ⟨ha, hb, hrole, hsnapshot, hlength, ?_⟩⟩
  exact List.mem_filterMap.mpr
    ⟨event, List.mem_filter.mpr ⟨runEvents_grown h hevent, hkind⟩, hid⟩

/-! ## Growth -/

/-- The rows that are workers of a run. -/
def childRows (rows : List Event) (runId : String) : List Event :=
  (rows.filter fun e => !e.isPartial ∧ e.type = .runAdmitted ∧
    (e.payload.get? "parent_run_id").bind Json.str? = some runId).filter isChild

theorem children_grown (h : Grown s t rows begun) (runId : String) :
    children t runId = children s runId ++ childRows rows runId := by
  rw [children, workerAdmissions, h.events, List.filter_append, List.filter_append]
  rfl

theorem childRows_eq_nil (hrows : ∀ e ∈ rows, isChild e = false) (runId : String) :
    childRows rows runId = [] := by
  apply List.filter_eq_nil_iff.mpr
  intro e he
  rw [hrows e (List.mem_of_mem_filter he)]
  exact Bool.false_ne_true

theorem lineage_of_not_known {runId : String} (h : ∀ run ∈ s.runs, run.id ≠ runId) :
    lineage s runId = [] := by
  rw [lineage]
  by_cases hempty : runId = ""
  · rw [chain_seen (.inl hempty)]
    rfl
  · have hnone : s.getRunIdentity runId = none := by
      apply Option.eq_none_iff_forall_ne_some.mpr
      intro identity hidentity
      obtain ⟨run, hrun, hid⟩ := mem_of_getRunIdentity hidentity
      exact h run hrun hid
    rw [chain_missing (not_or.mpr ⟨hempty, List.not_mem_nil⟩) hnone]
    rfl

/-! ## The admission of a worker -/

theorem get?_merge (left right : Json) (key : String) :
    (left.merge right).get? key = (right.fields.lookup key).or (left.fields.lookup key) := by
  rw [Json.merge, Json.get?_obj, List.lookup_append]

theorem get?_withoutField {value : Json} {key other : String} (h : other ≠ key) :
    (value.withoutField key).get? other = value.get? other := by
  rw [Json.withoutField, Json.get?_obj, Dict.lookup_filter_ne, if_neg h]
  cases value <;> rfl

/-- The fields of an intent that the admission sets. -/
theorem get?_childIntent (intent : Json) (place : Place) (runId : String) (child : Child)
    (callId : Json) :
    (childIntent intent place runId child callId).get? "parent_run_id" = some (.str runId) ∧
    (childIntent intent place runId child callId).get? "worker_role" =
      some (.str child.task.role) ∧
    (childIntent intent place runId child callId).get? "snapshot_id" =
      some (.str child.snapshot.identity) ∧
    (childIntent intent place runId child callId).get? "delegation" =
      some (.obj [("fingerprint", .str child.signature), ("parent_call_id", callId)]) := by
  refine ⟨?_, ?_, ?_, ?_⟩
  all_goals
    rw [childIntent, get?_withoutField (by decide), get?_withoutField (by decide), get?_merge]
    rfl

/-- The rows of the admission of a worker. -/
structure Admits (runId : String) (child : Child) (callId : Json) (rows : List Event)
    (e : Event) : Prop where
  only : ∀ other, childRows rows other = if other = runId then [e] else []
  fingerprint : fingerprint e = some child.signature
  call : reference e.payload "parent_call_id" = callId.str?
  role : (e.payload.get? "worker_role").bind Json.str? = some child.task.role
  snapshot : (e.payload.get? "snapshot_id").bind Json.str? = some child.snapshot.identity
  mem : e ∈ rows
  quiet : ∀ row ∈ rows, row.type.isTerminal = false ∧ row.type ≠ .toolPrepared

theorem admits_of_records {semantic : Json → Json} {intent : Json} {place : Place}
    {runId sid : String} {child : Child} {callId : Json} {r : Option String}
    (h : List.Forall₂ (fun e (fact : Fact) => e.Records sid fact r false) rows
      (childFacts semantic intent place runId child callId)) :
    ∃ e, Admits runId child callId rows e := by
  obtain ⟨e, others, he, hothers, rfl⟩ := List.forall₂_cons_right_iff.mp h
  obtain ⟨m, last, hm, hlast, rfl⟩ := List.forall₂_cons_right_iff.mp hothers
  obtain ⟨c, none, hc, hnone, rfl⟩ := List.forall₂_cons_right_iff.mp hlast
  obtain rfl := List.forall₂_nil_right_iff.mp hnone
  obtain ⟨hparent, hrole, hsnapshot, hdelegation⟩ :=
    get?_childIntent intent place runId child callId
  have hpayload := he.payload_eq
  dsimp only at hpayload
  refine ⟨e, fun other => ?_, ?_, ?_, ?_, ?_, List.mem_cons_self, ?_⟩
  · have hm' : m.type = .messageUser := hm.type_eq
    have hc' : c.type = .workspaceCheckpoint := hc.type_eq
    have hchild : isChild e = true := by
      simp only [isChild, he.type_eq, he.isPartial_eq, hpayload, hdelegation]
      rfl
    have hown : (e.payload.get? "parent_run_id").bind Json.str? = some runId := by
      rw [hpayload, hparent]
      rfl
    have htype : e.type = .runAdmitted := he.type_eq
    have hrows : childRows [e, m, c] other = childRows [e] other := by
      simp only [childRows, List.filter_cons, hm', hc', reduceCtorEq, false_and, and_false,
        decide_false, Bool.false_eq_true, if_false, List.filter_nil]
    rw [hrows]
    by_cases hother : other = runId
    · subst hother
      simp [childRows, htype, he.isPartial_eq, hown, hchild]
    · simp [childRows, hown, hother, Ne.symm hother]
  · rw [fingerprint, reference, hpayload, hdelegation]
    rfl
  · rw [reference, hpayload, hdelegation]
    rfl
  · rw [hpayload, hrole]
    rfl
  · rw [hpayload, hsnapshot]
    rfl
  · intro row hrow
    simp only [List.mem_cons, List.not_mem_nil, or_false] at hrow
    rcases hrow with rfl | rfl | rfl
    · rw [he.type_eq]
      exact ⟨rfl, fun h => nomatch h⟩
    · rw [hm.type_eq]
      exact ⟨rfl, fun h => nomatch h⟩
    · rw [hc.type_eq]
      exact ⟨rfl, fun h => nomatch h⟩

theorem childFacts_open (semantic : Json → Json) (intent : Json) (place : Place) (runId : String)
    (child : Child) (callId : Json) :
    ∀ fact ∈ childFacts semantic intent place runId child callId,
      fact.type.isTerminal = false := by
  intro fact hfact
  simp only [childFacts, List.mem_cons, List.not_mem_nil, or_false] at hfact
  rcases hfact with rfl | rfl | rfl
  · rfl
  · rfl
  · rfl

theorem archive_sameLog (s : RuntimeStore) (sid title : String) : SameLog s (archive s sid title) :=
  ⟨rfl, rfl, rfl⟩

/-- The loop body leaves the tables it shares with the log alone, or admits the worker. -/
theorem admitChild_cases (semantic : Json → Json) (s : RuntimeStore) (env : Env) (runId : String)
    (intent : Json) (place : Place) (child : Child) (prepared : Json) :
    (∃ error t, admitChild semantic s env runId intent place child prepared = (.error error, t) ∧
      SameLog s t) ∨
    ∃ turnId t turn run rows callId e,
      admitChild semantic s env runId intent place child prepared = (.ok turnId, t) ∧
      Grown s t rows (some (turn, run)) ∧ turn.continuationOf = none ∧
      (s.LogInvariant → t.LogInvariant) ∧ prepared.get? "call_id" = some callId ∧
      Admits runId child callId rows e := by
  have hsession := createSession_sameLog s env place.childSession place.workspaceId
    place.workingDirectory
  rw [admitChild]
  split
  · rename_i error s' hcreate
    rw [hcreate] at hsession
    exact .inl ⟨error, s', rfl, hsession⟩
  · rename_i s' hcreate
    rw [hcreate] at hsession
    have hsame := hsession.trans (archive_sameLog s' place.childSession
      ("Worker: " ++ child.task.role))
    dsimp only
    cases hcall : prepared.require "call_id" with
    | error error => exact .inl ⟨error, _, rfl, hsame⟩
    | ok callId =>
      dsimp only
      generalize archive s' place.childSession ("Worker: " ++ child.task.role) = s'' at hsame ⊢
      have heffect : Effect ⟨fun _ _ => True, fun _ => True⟩ s''
          (s''.admitRun env place.childId place.childSession
            (childFacts semantic intent place runId child callId)).2 :=
        admitRun_effect trivial fun _ _ _ _ _ _ _ _ _ => trivial
      cases hadmission : s''.admitRun env place.childId place.childSession
          (childFacts semantic intent place runId child callId) with
      | mk result t =>
        cases result with
        | error error =>
          have herror := admitRun_error (congrArg Prod.fst hadmission)
          rw [hadmission] at herror
          exact .inl ⟨error, t, rfl, hsame.trans herror⟩
        | ok turnId =>
          rw [hadmission] at heffect
          obtain ⟨turn, run, rows, hgrown, -, hc, hrecords⟩ := admitRun_grown hadmission
          obtain ⟨e, he⟩ := admits_of_records (hrecords (childFacts_open _ _ _ _ _ _))
          refine .inr ⟨turnId, t, turn, run, rows, callId, e, rfl, hsame.trans_grown hgrown, hc,
            fun hlog => hlog.effect (hsame.effect.trans heffect), ?_, he⟩
          rw [Json.require] at hcall
          split at hcall
          · rename_i value hvalue
            rw [hvalue, Except.ok.inj hcall]
          · cases hcall

end Delegation

end Eventide
