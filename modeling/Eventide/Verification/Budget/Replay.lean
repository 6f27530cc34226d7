import Mathlib.Logic.Relation
import Eventide.Verification.Store.Log
import Eventide.Verification.Budget.Operations

/-! # The ledger can always rebuild what its operations decided -/

namespace Eventide

open Outcome RuntimeStore

theorem Committed.nonterminal {st held rebuilt : BudgetState}
    {additions : List (EventType × Json)} (h : Committed st held rebuilt additions) :
    ∀ a ∈ additions, a.1.isTerminal = false := by
  have hm : ∀ (kind : EventType) (fact : Option Json), kind.isTerminal = false →
      ∀ a ∈ modelRow kind fact, a.1.isTerminal = false := by
    intro kind fact hk a ha
    obtain ⟨f, -, rfl⟩ := List.mem_map.mp ha
    exact hk
  cases h with
  | replay => simp
  | configured p hp => simp [EventType.isTerminal]
  | reserved r started hn =>
    rintro a (_ | ⟨_, ha⟩)
    · rfl
    · exact hm _ _ rfl a ha
  | settled p item finished hi hs hn hp =>
    rintro a (_ | ⟨_, ha⟩)
    · rfl
    · exact hm _ _ rfl a ha
  | resolved p item hi hn ha => simp [EventType.isTerminal]

theorem Committed.limits_eq {st held rebuilt : BudgetState} {additions : List (EventType × Json)}
    (h : Committed st held rebuilt additions) : rebuilt.limits = held.limits := by
  cases h <;> rfl

theorem Committed.reservations_eq {st held rebuilt : BudgetState}
    {additions : List (EventType × Json)} (h : Committed st held rebuilt additions) :
    rebuilt.reservations = held.reservations := by
  cases h <;> rfl

/-- What an accepted call did to the store. -/
structure Performed (s : RuntimeStore) (now : Instant) (call : LedgerCall) (reply : LedgerReply)
    (st held rebuilt : BudgetState) (additions : List (EventType × Json)) (rows : List Event)
    (t : RuntimeStore) : Prop where
  decided : ∃ choose, call.prepare s now = .ok choose ∧
    choose (s.factsByType call.types) = .ok ((reply, held), additions)
  projected : budgetProjection (s.factsByType call.types) = .ok st
  log : t = { s with events := s.events ++ rows }
  adds : List.Forall₂ (Adds call.sessionId call.runId call.author) rows additions
  committed : Committed st held rebuilt additions
  state : t.budgetState = .ok rebuilt
  recorded : call.Recorded rebuilt
  subject : reply.subject = call.subject
  requests : rebuilt.requests = match call.missedRequest with
    | some p => held.requests.setDefault p.requestId p
    | none => held.requests
  session : (s.getSession call.sessionId).isSome

namespace LedgerCall

variable {s t : RuntimeStore} {context : Context} {call : LedgerCall} {reply : LedgerReply}
  {st held : BudgetState}

theorem budgetFacts_types (call : LedgerCall) : ∀ kind ∈ budgetFacts, kind ∈ call.types := by
  intro kind hk
  cases call <;> simp [types, hk]

theorem perform_ok (hst : s.budgetState = .ok st) (hr : st.Resolved)
    (h : call.perform s context = (.ok (reply, held), t)) :
    ∃ rebuilt additions rows,
      Performed s context.now call reply st held rebuilt additions rows t := by
  unfold perform at h
  cases hp : call.prepare s context.now with
  | error e =>
    rw [hp] at h
    cases (Prod.mk.inj h).1
  | ok choose =>
    rw [hp] at h
    have hproj : budgetProjection (s.factsByType call.types) = .ok st :=
      (s.budgetProjection_factsByType call.budgetFacts_types).trans hst
    obtain ⟨additions, rows, hc, ht, hadds⟩ := transactFacts_ok h (fun additions hc => by
      obtain ⟨_, hcom, -⟩ := accepted hproj hp hc
      exact hcom.nonterminal)
    obtain ⟨rebuilt, hcom, hrec, hsub, hreq⟩ := accepted hproj hp hc
    have hwhole : ∀ e ∈ rows, e.isPartial = false := by
      intro e he
      obtain ⟨a, -, ha⟩ := Sequence.mem_of_forall₂ hadds he
      exact ha.isPartial_eq
    refine ⟨rebuilt, additions, rows, ⟨choose, hp, hc⟩, hproj, ht, hadds, hcom, ?_, hrec, hsub,
      hreq, transactFacts_session h⟩
    rw [ht, budgetState_append hst hwhole, BudgetState.foldlM_adds hadds, hcom.foldlM hr]

theorem perform_error {error : PyError} (h : call.perform s context = (.error error, t)) :
    t = s := by
  unfold perform at h
  cases hp : call.prepare s context.now with
  | error e =>
    rw [hp] at h
    exact (Prod.mk.inj h).2.symm
  | ok choose =>
    rw [hp] at h
    exact transactFacts_error h

/-- A call on record answers again and writes nothing. -/
theorem perform_again (context : Context) (hst : s.budgetState = .ok st) (hs : (s.getSession call.sessionId).isSome)
    (h : call.Recorded st) : ∃ reply, call.perform s context = (.ok (reply, st), s) ∧
      reply.subject = call.subject := by
  have hproj : budgetProjection (s.factsByType call.types) = .ok st :=
    (s.budgetProjection_factsByType call.budgetFacts_types).trans hst
  obtain ⟨choose, reply, hp, hc, hsub⟩ := replays s context.now hproj h
  refine ⟨reply, ?_, hsub⟩
  rw [perform, hp]
  exact transactFacts_nothing hs hc

end LedgerCall

/-- A transaction of another writer: it may append to the log, but no fact of the ledger, and
it removes no session. -/
structure Foreign (s t : RuntimeStore) : Prop where
  log : s.events <+: t.events
  facts : t.factsByType budgetFacts = s.factsByType budgetFacts
  sessions : ∀ sid, (s.getSession sid).isSome → (t.getSession sid).isSome

/-- A step of the system: a call of the ledger, accepted or not, or a foreign transaction. -/
inductive BudgetStep (s : RuntimeStore) : RuntimeStore → Prop
  | foreign {t : RuntimeStore} : Foreign s t → BudgetStep s t
  | call (context : LedgerCall.Context) (call : LedgerCall) :
      BudgetStep s (call.perform s context).2

/-- Any number of steps, in any order. -/
def BudgetRun : RuntimeStore → RuntimeStore → Prop := Relation.ReflTransGen BudgetStep

/-- The stores that a run builds from one without budget facts. -/
def BudgetReachable (t : RuntimeStore) : Prop :=
  ∃ s : RuntimeStore, s.factsByType budgetFacts = [] ∧ BudgetRun s t

/-- The ledger of a store can be rebuilt. -/
def Rebuilds (s : RuntimeStore) (st : BudgetState) : Prop := s.budgetState = .ok st ∧ st.Resolved

theorem BudgetStep.rebuilds {s t : RuntimeStore} {st : BudgetState} (k : BudgetStep s t)
    (h : Rebuilds s st) : ∃ later, Rebuilds t later ∧ st.Extends later ∧
      ∀ sid, (s.getSession sid).isSome → (t.getSession sid).isSome := by
  cases k with
  | foreign hf =>
    refine ⟨st, ⟨?_, h.2⟩, .refl st, hf.sessions⟩
    rw [budgetState, hf.facts]
    exact h.1
  | call context call =>
    generalize hp : call.perform s context = p
    obtain ⟨result, t⟩ := p
    cases result with
    | error e =>
      obtain rfl := LedgerCall.perform_error hp
      exact ⟨st, h, .refl st, fun _ hs => hs⟩
    | ok result =>
      obtain ⟨reply, held⟩ := result
      obtain ⟨rebuilt, additions, rows, hperf⟩ := LedgerCall.perform_ok h.1 h.2 hp
      refine ⟨rebuilt, ⟨hperf.state, hperf.committed.resolved_rebuilt h.2⟩,
        hperf.committed.extends_, fun sid hs => ?_⟩
      rw [hperf.log]
      exact hs

theorem BudgetRun.rebuilds {s t : RuntimeStore} {st : BudgetState} (k : BudgetRun s t)
    (h : Rebuilds s st) : ∃ later, Rebuilds t later ∧ st.Extends later ∧
      ∀ sid, (s.getSession sid).isSome → (t.getSession sid).isSome := by
  induction k with
  | refl => exact ⟨st, h, .refl st, fun _ hs => hs⟩
  | tail _ hstep ih =>
    obtain ⟨mid, hm, he, hs⟩ := ih
    obtain ⟨later, hl, he', hs'⟩ := hstep.rebuilds hm
    exact ⟨later, hl, he.trans he', fun sid h => hs' sid (hs sid h)⟩

theorem BudgetReachable.rebuilds {s : RuntimeStore} (h : BudgetReachable s) :
    ∃ st, Rebuilds s st := by
  obtain ⟨origin, hempty, hrun⟩ := h
  have hstart : Rebuilds origin {} := by
    refine ⟨?_, fun p hp => by simp [BudgetState.seen] at hp⟩
    rw [budgetState, hempty]
    rfl
  obtain ⟨st, hs, -⟩ := hrun.rebuilds hstart
  exact ⟨st, hs⟩

/-- Replay safety, with the requests that a new configuration leaves out of the state it holds. -/
theorem budgetLedger_replaySafe {s : RuntimeStore} (h : BudgetReachable s) :
    (∃ st, s.budgetState = .ok st) ∧
    ∀ (context : LedgerCall.Context) (call : LedgerCall) (t : RuntimeStore),
      (∀ error, call.perform s context = (.error error, t) → t = s) ∧
      ∀ reply held, call.perform s context = (.ok (reply, held), t) →
        (∃ rebuilt, t.budgetState = .ok rebuilt ∧ rebuilt.limits = held.limits ∧
          rebuilt.reservations = held.reservations ∧
          rebuilt.requests = match call.missedRequest with
            | some p => held.requests.setDefault p.requestId p
            | none => held.requests) ∧
        reply.subject = call.subject ∧
        ∀ u, BudgetRun t u → ∀ context' : LedgerCall.Context, ∃ again st,
          call.perform u context' = (.ok (again, st), u) ∧ again.subject = call.subject := by
  obtain ⟨st, hst, hr⟩ := h.rebuilds
  refine ⟨⟨st, hst⟩, fun context call t => ⟨fun error he => LedgerCall.perform_error he, ?_⟩⟩
  intro reply held hp
  obtain ⟨rebuilt, additions, rows, hperf⟩ := LedgerCall.perform_ok hst hr hp
  refine ⟨⟨rebuilt, hperf.state, hperf.committed.limits_eq, hperf.committed.reservations_eq,
    hperf.requests⟩, hperf.subject, fun u hu context' => ?_⟩
  have hrebuilt : Rebuilds t rebuilt := ⟨hperf.state, hperf.committed.resolved_rebuilt hr⟩
  obtain ⟨later, hl, he, hs⟩ := hu.rebuilds hrebuilt
  have hsession : (t.getSession call.sessionId).isSome := by
    rw [hperf.log]
    exact hperf.session
  obtain ⟨again, ha, hsub⟩ := LedgerCall.perform_again context' hl.1
    (hs _ hsession) (hperf.recorded.mono he)
  exact ⟨again, later, ha, hsub⟩

/-- A store with one session. -/
def sessionStore : RuntimeStore where
  sessions := [{ id := "s", workspaceId := "w", createdAt := 0 }]

def ledgerContext : LedgerCall.Context where
  env := plainEnv 'a'
  now := ⟨0, by decide, by decide⟩

def configureRun : LedgerCall := .configure {
  sessionId := "s"
  scope := ⟨.run, "r", by decide, by decide⟩
  tokenLimit := .int 10
  requestId := "q" }

theorem sessionStore_reachable : BudgetReachable sessionStore := ⟨_, rfl, .refl⟩

/-- A store with one run, in the session of `configureRun`. -/
def ledgerStore : RuntimeStore := StoreCall.after {} [(plainEnv 'a', .createRun "r" "s" none)]

def reserveAttempt : LedgerCall := .reserve {
  sessionId := "s"
  runId := "r"
  attemptId := "attempt"
  context := ⟨⟨some "p", "r", none⟩, by decide⟩
  inputEstimate := .int 4
  outputEstimate := .int 2
  estimateMethod := "scripted" }

def settleAttempt : LedgerCall := .settle {
  sessionId := "s"
  attemptId := "attempt"
  usage := some (Dict.ofList [("input_tokens", .int 3), ("output_tokens", .int 1),
    ("cache_read_input_tokens", .int 1)]) }

/-- An attempt that no longer fits the limit of the run. -/
def reserveLarge : LedgerCall := .reserve {
  sessionId := "s"
  runId := "r"
  attemptId := "large"
  context := ⟨⟨some "p", "r", none⟩, by decide⟩
  inputEstimate := .int 7
  outputEstimate := .int 0
  estimateMethod := "scripted" }

def contextOf (name : Char) : LedgerCall.Context := { ledgerContext with env := plainEnv name }

/-! The ledger of the run: a limit, an attempt within it, its settlement, and one too many. -/

def limitedStore : RuntimeStore := (configureRun.perform ledgerStore (contextOf 'b')).2

def reservedStore : RuntimeStore := (reserveAttempt.perform limitedStore (contextOf 'c')).2

def settledStore : RuntimeStore := (settleAttempt.perform reservedStore (contextOf 'd')).2

def refusedStore : RuntimeStore := (reserveLarge.perform settledStore (contextOf 'e')).2

theorem reservedStore_reachable : BudgetReachable reservedStore :=
  ⟨ledgerStore, rfl, (Relation.ReflTransGen.single (.call _ configureRun)).tail
    (.call _ reserveAttempt)⟩

/-- A settlement that is sent again, after another attempt was refused. -/
theorem budgetLedger_replaySafe_settled :
    ∃ reply held rebuilt again st,
      settleAttempt.perform reservedStore (contextOf 'd') = (.ok (reply, held), settledStore) ∧
      settledStore.budgetState = .ok rebuilt ∧ rebuilt.limits = held.limits ∧
      rebuilt.reservations = held.reservations ∧
      settleAttempt.perform refusedStore (contextOf 'f') = (.ok (again, st), refusedStore) ∧
      again.subject = reply.subject := by
  obtain ⟨⟨reply, held⟩, hp⟩ :
      ∃ answer, settleAttempt.perform reservedStore (contextOf 'd') = (.ok answer, settledStore) :=
    eq_ok_of_isSome (by decide +kernel)
  obtain ⟨-, hcalls⟩ := budgetLedger_replaySafe reservedStore_reachable
  obtain ⟨⟨rebuilt, hst, hlimits, hreservations, -⟩, hsubject, hagain⟩ :=
    (hcalls (contextOf 'd') settleAttempt settledStore).2 reply held hp
  obtain ⟨again, st, ha, hsub⟩ := hagain refusedStore (.single (.call _ reserveLarge)) (contextOf 'f')
  exact ⟨reply, held, rebuilt, again, st, hp, hst, hlimits, hreservations, ha,
    hsub.trans hsubject.symm⟩

/-- The request of a new configuration is not in the state that `configure` holds. -/
theorem budgetLedger_requests_false :
    ¬ ∀ (s t : RuntimeStore) (context : LedgerCall.Context) (call : LedgerCall)
      (reply : LedgerReply) (held : BudgetState), BudgetReachable s →
      call.perform s context = (.ok (reply, held), t) →
      ∃ rebuilt, t.budgetState = .ok rebuilt ∧ rebuilt.limits = held.limits ∧
        rebuilt.requests = held.requests ∧ rebuilt.reservations = held.reservations := by
  intro h
  obtain ⟨rebuilt, hst, -, hreq, -⟩ :=
    h sessionStore _ ledgerContext configureRun _ _ sessionStore_reachable rfl
  have hkeys : ∃ st, (configureRun.perform sessionStore ledgerContext).2.budgetState = .ok st ∧
      st.requests.keys = ["q"] := ⟨_, rfl, rfl⟩
  obtain ⟨st, hst', hk⟩ := hkeys
  obtain rfl : st = rebuilt := Except.ok.inj (hst'.symm.trans hst)
  rw [hreq] at hk
  exact absurd hk (by decide)

end Eventide
