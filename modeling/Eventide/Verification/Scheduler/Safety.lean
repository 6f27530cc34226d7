import Eventide.Verification.Scheduler.Steps
import Eventide.Model.StoreCalls

/-! # Scheduler safety

The log and the scheduler move in any order: the methods of the scheduler, the admission of
a ticketed run, the start of a leased one, terminal facts, and writes of others. -/

namespace Eventide

open Outcome RuntimeStore RuntimeScheduler

/-- The store and the scheduler that reads it. -/
structure Scheduling where
  store : RuntimeStore
  scheduler : RuntimeScheduler

inductive SchedulerCall where
  | reserve (runId sessionId : String) (startable : Bool)
  | admitRun (env : Env) (runId sessionId : String) (facts : List Fact)
      (continuationOf : Option String)
  | commit (ticket : AdmissionTicket)
  | releaseTicket (ticket : AdmissionTicket)
  | claim (claimExecution : QueueEntry → Except PyError Bool)
  | start (env : Env) (sessionId runId : String) (fact : Fact)
  | finish (env : Env) (sessionId runId : String) (fact : Fact)
  | releaseRoot (lease : RootLease)
  | other (env : Env) (call : StoreCall)

/-- A method that raises leaves the scheduler as it was. -/
def keep {α : Type} (q : RuntimeScheduler) : Except PyError (α × RuntimeScheduler) → RuntimeScheduler
  | .ok (_, q') => q'
  | .error _ => q

namespace SchedulerCall

def perform (j : Scheduling) : SchedulerCall → Scheduling
  | reserve r sid startable =>
    { j with scheduler := keep j.scheduler (j.scheduler.reserveAdmission j.store r sid startable) }
  | admitRun env r sid facts c => { j with store := (j.store.admitRun env r sid facts c).2 }
  | commit t => { j with scheduler := keep j.scheduler (j.scheduler.commitAdmission j.store t) }
  | releaseTicket t => { j with scheduler := keep j.scheduler (j.scheduler.releaseTicket j.store t) }
  | claim claimExecution =>
    { j with scheduler := keep j.scheduler (j.scheduler.claimNext j.store claimExecution) }
  | start env sid r fact | finish env sid r fact =>
    { j with store := (j.store.appendFact env sid fact (some r)).2 }
  | releaseRoot l => { j with scheduler := keep j.scheduler (j.scheduler.releaseRoot j.store l) }
  | other env call => { j with store := (call.perform j.store env).2 }

/-- The writes of others: no root is admitted or started by them, and a child is admitted
with its first event. -/
def otherPromise : Promise where
  event s e :=
    e.isRootAdmission = false ∧
    (e.isAdmission = true → ∀ r, e.queueRun = some r → s.runEvents r = []) ∧
    (e.type = .runStarted → ∀ r, e.queueRun = some r → ∀ a ∈ s.rootAdmissions, a.queueRun ≠ some r)
  run _ := True

/-- An admission of a ticket's run holds one `run.admitted` fact, its first, and starts
nothing; only a leased run is started. -/
def Allowed (j : Scheduling) : SchedulerCall → Prop
  | admitRun _ r sid facts _ =>
    (∃ t ∈ j.scheduler.tickets.values, t.runId = r ∧ t.sessionId = sid) ∧
      ∃ intent rest, facts = intent :: rest ∧ intent.type = .runAdmitted ∧
        ∀ fact ∈ rest, fact.type ≠ .runAdmitted ∧ fact.type ≠ .runStarted
  | start _ _ r fact => fact.type = .runStarted ∧ ∃ l ∈ j.scheduler.roots.values, l.runId = r
  | finish _ _ _ fact => fact.type.isTerminal = true
  | other _ call => call.Writes otherPromise j.store
  | reserve _ _ _ | commit _ | releaseTicket _ | claim _ | releaseRoot _ => True

end SchedulerCall

/-- A scheduler starts over a log without unfinished roots: recovery has parked them. -/
structure Recovered (s : RuntimeStore) : Prop where
  log : s.LogInvariant
  once : AdmittedOnce s.events
  finished : ∀ e ∈ s.rootAdmissions, ∀ r, e.queueRun = some r → ¬ Unfinished s.events r

inductive Scheduling.Reachable : Scheduling → Prop
  | start (s : RuntimeStore) (limits : SchedulingLimits) (activeModels waitingModels : ℕ) :
      Recovered s → Reachable ⟨s, { limits, activeModels, waitingModels }⟩
  | call {j : Scheduling} (c : SchedulerCall) : Reachable j → c.Allowed j → Reachable (c.perform j)

theorem Recovered.invariant {s : RuntimeStore} (h : Recovered s) (limits : SchedulingLimits)
    (activeModels waitingModels : ℕ) :
    SchedulerInvariant s { limits, activeModels, waitingModels } where
  log := h.log
  once := h.once
  ticket_key := by simp
  root_key := by simp
  disjoint := by simp
  ticketed := by simp
  leased := by simp
  started e he r hq hu _ := absurd hu (h.finished e he r hq)
  exclusive := by
    rintro sid r r' (⟨t, ht, -⟩ | ⟨l, hl, -⟩ | ⟨e, he, hq, -, hu⟩)
    · simp at ht
    · simp at hl
    · exact absurd hu (h.finished e he r hq)
  active := Nat.zero_le _
  waiting := by
    have hzero : s.rootAdmissions.countP
        (waits s { limits, activeModels, waitingModels }) = 0 := by
      rw [List.countP_eq_zero]
      intro e he hw
      obtain ⟨-, -, r, hq⟩ := mem_rootAdmissions he
      simp only [waits, hq, Option.getD_some, Bool.and_eq_true, decide_eq_true_eq,
        queueStatus_eq_queued] at hw
      exact h.finished e he r hq hw.1.1
    rw [hzero]
    exact Nat.zero_le _

theorem keep_invariant {α : Type} {s : RuntimeStore} {q : RuntimeScheduler}
    (h : SchedulerInvariant s q) {result : Except PyError (α × RuntimeScheduler)}
    (hok : ∀ a q', result = .ok (a, q') → SchedulerInvariant s q') :
    SchedulerInvariant s (keep q result) := by
  cases result with
  | ok p => exact hok p.1 p.2 rfl
  | error e => exact h

/-- An admission writes what its ticket stands for. -/
theorem SchedulerInvariant.admitRun {s : RuntimeStore} {q : RuntimeScheduler}
    (h : SchedulerInvariant s q) (env : Env) {r sid : String} {facts : List Fact}
    {c : Option String} (ht : ∃ t ∈ q.tickets.values, t.runId = r ∧ t.sessionId = sid)
    (hf : ∃ intent rest, facts = intent :: rest ∧ intent.type = .runAdmitted ∧
      ∀ fact ∈ rest, fact.type ≠ .runAdmitted ∧ fact.type ≠ .runStarted) :
    SchedulerInvariant (s.admitRun env r sid facts c).2 q := by
  obtain ⟨t, htm, rfl, rfl⟩ := ht
  obtain ⟨intent, rest, rfl, hi, hrest⟩ := hf
  obtain ⟨k, hk⟩ := Dict.mem_values.mp htm
  obtain rfl := h.ticket_key k t hk
  refine h.effect (admitRun_effect trivial fun done fact more hd u e hfirst _ he => ?_)
  have hrun : ∀ j, e.queueRun = some j → j = t.runId := fun j hj =>
    Option.some.inj ((Event.queueRun_eq_some.mp hj).2.1.symm.trans he.runId_eq)
  cases done with
  | nil =>
    obtain ⟨rfl, -⟩ := List.cons.inj hd
    obtain ⟨hevents, hfresh⟩ := hfirst rfl
    have hkind := he.type_eq.trans hi
    refine ⟨fun _ j hj => ?_, fun _ j hj => ?_, fun hs => by simp [hkind] at hs⟩
    · obtain rfl := hrun j hj
      have hne := (Event.queueRun_eq_some.mp hj).2.2
      have hnil : s.runEvents t.runId = [] := by
        simp only [runEvents, List.filter_eq_nil_iff, decide_eq_true_eq]
        intro a ha har
        obtain ⟨run, hm, hid, -⟩ := h.log.owned a ha t.runId (givenRun_eq_some.mpr ⟨har, hne⟩)
        exact hfresh run hm hid
      simpa only [runEvents, hevents] using hnil
    · obtain rfl := hrun j hj
      exact ⟨t, hk, he.sessionId_eq.symm⟩
  | cons d done =>
    obtain ⟨-, rfl⟩ := List.cons.inj hd
    obtain ⟨hna, hns⟩ := hrest fact (by simp)
    rw [← he.type_eq] at hna hns
    refine ⟨fun ha => ?_, fun ha => ?_, fun hs => absurd hs hns⟩
    · simp [Event.isAdmission, hna] at ha
    · simp [Event.isRootAdmission, Event.isAdmission, hna] at ha

/-- An appended fact that admits nothing, and starts its run only when that is leased. -/
theorem SchedulerInvariant.appendFact {s : RuntimeStore} {q : RuntimeScheduler}
    (h : SchedulerInvariant s q) (env : Env) {sid r : String} {fact : Fact}
    (hk : fact.type ≠ .runAdmitted) (hs : fact.type = .runStarted → r ∈ q.roots.keys) :
    SchedulerInvariant (s.appendFact env sid fact (some r)).2 q := by
  refine h.effect (appendFact_effect fun e he => ?_)
  rw [← he.type_eq] at hk hs
  refine ⟨fun ha => ?_, fun ha => ?_, fun hst j hj => Or.inl ?_⟩
  · simp [Event.isAdmission, hk] at ha
  · simp [Event.isRootAdmission, Event.isAdmission, hk] at ha
  · obtain rfl : j = r :=
      Option.some.inj ((Event.queueRun_eq_some.mp hj).2.1.symm.trans he.runId_eq)
    exact hs hst

theorem SchedulerCall.perform_invariant {j : Scheduling} {c : SchedulerCall}
    (h : SchedulerInvariant j.store j.scheduler) (ha : c.Allowed j) :
    SchedulerInvariant (c.perform j).store (c.perform j).scheduler := by
  cases c with
  | reserve r sid startable => exact keep_invariant h fun _ _ => h.reserveAdmission
  | admitRun env r sid facts c => exact h.admitRun env ha.1 ha.2
  | commit t => exact keep_invariant h fun _ _ => h.commitAdmission
  | releaseTicket t => exact keep_invariant h fun _ _ => h.releaseTicket
  | claim claimExecution => exact keep_invariant h fun _ _ => h.claimNext
  | start env sid r fact =>
    obtain ⟨hk, l, hl, rfl⟩ := ha
    obtain ⟨j, hj⟩ := Dict.mem_values.mp hl
    refine h.appendFact env (by simp [hk]) fun _ => ?_
    rw [h.root_key j l hj, Dict.mem_keys, hj]
    rfl
  | finish env sid r fact =>
    have hk : fact.type.isTerminal = true := ha
    refine h.appendFact env ?_ fun hs => ?_
    · intro hs
      simp [hs, EventType.isTerminal] at hk
    · simp [hs, EventType.isTerminal] at hk
  | releaseRoot l => exact keep_invariant h fun _ _ => h.releaseRoot
  | other env call =>
    refine h.effect ((StoreCall.perform_effect env ha).mono ?_ fun _ _ => trivial)
    rintro s e ⟨hroot, hfresh, hstart⟩
    exact ⟨hfresh, fun hr => by simp [hroot] at hr, fun hs r hq => Or.inr (hstart hs r hq)⟩

theorem Scheduling.Reachable.invariant {j : Scheduling} (h : j.Reachable) :
    SchedulerInvariant j.store j.scheduler := by
  induction h with
  | start s limits activeModels waitingModels hs =>
    exact hs.invariant limits activeModels waitingModels
  | call c _ ha ih => exact c.perform_invariant ih ha

/-! ## What the scheduler promises -/

/-- A ticket, a lease or an unfinished root admission ties the run to the session. -/
def Occupies (j : Scheduling) (sid r : String) : Prop :=
  (∃ t ∈ j.scheduler.tickets.values, t.sessionId = sid ∧ t.runId = r) ∨
  (∃ l ∈ j.scheduler.roots.values, l.sessionId = sid ∧ l.runId = r) ∨
  ∃ e ∈ j.store.rootAdmissions, e.sessionId = sid ∧ e.queueRun = some r ∧
    Unfinished j.store.events r

/-- A queued root, neither ticketed nor leased, whose session nothing occupies. -/
def Claimable (j : Scheduling) (e : Event) : Prop :=
  queueStatus j.store.events (e.queueRun.getD "") = "queued" ∧
  (∀ t ∈ j.scheduler.tickets.values, e.queueRun ≠ some t.runId ∧ t.sessionId ≠ e.sessionId) ∧
  (∀ l ∈ j.scheduler.roots.values, e.queueRun ≠ some l.runId ∧ l.sessionId ≠ e.sessionId) ∧
  ∀ a ∈ j.store.rootAdmissions, a.sessionId = e.sessionId →
    queueStatus j.store.events (a.queueRun.getD "") ≠ "running"

structure SchedulerSafe (j : Scheduling) : Prop where
  bounded : ∃ counts, j.scheduler.counts j.store = .ok counts ∧
    counts.activeRoots ≤ j.scheduler.limits.activeRoots ∧
    counts.waitingRoots ≤ j.scheduler.limits.waitingRoots
  exclusive : ∀ sid r r', Occupies j sid r → Occupies j sid r' → r = r'
  apart : ∀ t ∈ j.scheduler.tickets.values, ∀ l ∈ j.scheduler.roots.values, t.runId ≠ l.runId
  leased_once : (j.scheduler.roots.values.map (·.runId)).Nodup
  oldest : ∀ claimExecution lease q',
    j.scheduler.claimNext j.store claimExecution = .ok (some lease, q') →
    ∃ older e newer, j.store.rootAdmissions = older ++ e :: newer ∧
      e.queueRun = some lease.runId ∧ e.sessionId = lease.sessionId ∧
      (Claimable j e ∧ claimExecution (queueEntry j.store.events e) = .ok true) ∧
      ∀ a ∈ older, Claimable j a → claimExecution (queueEntry j.store.events a) = .ok false

theorem SchedulerInvariant.eligible_iff {s : RuntimeStore} {q : RuntimeScheduler}
    (h : SchedulerInvariant s q) {e : Event} (he : e ∈ s.rootAdmissions) :
    Eligible q (busySessions s q) (queueEntry s.events e) ↔ Claimable ⟨s, q⟩ e := by
  obtain ⟨-, -, r, hr⟩ := mem_rootAdmissions he
  have hown : q.owns r = false ↔ (∀ t ∈ q.tickets.values, t.runId ≠ r) ∧
      ∀ l ∈ q.roots.values, l.runId ≠ r := by
    rw [← Bool.not_eq_true, owns_iff, not_or]
    refine and_congr ?_ ?_
    · refine ⟨fun hk t ht htr => ?_, fun hk hm => ?_⟩
      · obtain ⟨k, hk'⟩ := Dict.mem_values.mp ht
        exact hk (Dict.mem_keys.mpr (by rw [← htr, h.ticket_key k t hk', hk']; rfl))
      · obtain ⟨t, ht⟩ := Option.isSome_iff_exists.mp (Dict.mem_keys.mp hm)
        exact hk t (Dict.mem_values.mpr ⟨r, ht⟩) (h.ticket_key r t ht)
    · refine ⟨fun hk l hl hlr => ?_, fun hk hm => ?_⟩
      · obtain ⟨k, hk'⟩ := Dict.mem_values.mp hl
        exact hk (Dict.mem_keys.mpr (by rw [← hlr, h.root_key k l hk', hk']; rfl))
      · obtain ⟨l, hl⟩ := Option.isSome_iff_exists.mp (Dict.mem_keys.mp hm)
        exact hk l (Dict.mem_values.mpr ⟨r, hl⟩) (h.root_key r l hl)
  have hbusy : e.sessionId ∉ busySessions s q ↔
      (∀ a ∈ s.rootAdmissions, a.sessionId = e.sessionId →
        queueStatus s.events (a.queueRun.getD "") ≠ "running") ∧
      (∀ l ∈ q.roots.values, l.sessionId ≠ e.sessionId) ∧
      ∀ t ∈ q.tickets.values, t.sessionId ≠ e.sessionId := by
    simp only [busySessions, List.mem_append, List.mem_map, List.mem_filter, decide_eq_true_eq,
      not_or, not_exists, not_and, and_assoc]
    refine and_congr ⟨fun hb a ha hs hst => ?_, fun hb entry hm hst hs => ?_⟩ Iff.rfl
    · exact hb (queueEntry s.events a) ⟨a, ha, rfl⟩ hst hs
    · obtain ⟨a, ha, rfl⟩ := hm
      exact hb a ha hs hst
  unfold Eligible Claimable
  have hid : (queueEntry s.events e).runId = r := by simp [queueEntry, hr]
  rw [hid, hown, show (queueEntry s.events e).sessionId = e.sessionId from rfl, hbusy, hr]
  simp only [queueEntry, hr, Option.getD_some, ne_eq, Option.some.injEq]
  constructor
  · rintro ⟨hst, ⟨ht, hl⟩, ha, hls, hts⟩
    exact ⟨hst, fun t htm => ⟨fun hrt => ht t htm hrt.symm, hts t htm⟩,
      fun l hlm => ⟨fun hrl => hl l hlm hrl.symm, hls l hlm⟩, ha⟩
  · rintro ⟨hst, ht, hl, ha⟩
    exact ⟨hst, ⟨fun t htm hrt => (ht t htm).1 hrt.symm, fun l hlm hrl => (hl l hlm).1 hrl.symm⟩,
      ha, fun l hlm => (hl l hlm).2, fun t htm => (ht t htm).2⟩

theorem schedulerSafe {j : Scheduling} (h : j.Reachable) : SchedulerSafe j := by
  have hi := h.invariant
  have hocc : ∀ sid r, Occupies j sid r → Holds j.store j.scheduler sid r := by
    rintro sid r (⟨t, ht, hs, rfl⟩ | ⟨l, hl, hs, rfl⟩ | ⟨e, he, hs, hq, hu⟩)
    · obtain ⟨k, hk⟩ := Dict.mem_values.mp ht
      exact Or.inl ⟨t, by rw [hi.ticket_key k t hk, hk], hs⟩
    · obtain ⟨k, hk⟩ := Dict.mem_values.mp hl
      exact Or.inr (Or.inl ⟨l, by rw [hi.root_key k l hk, hk], hs⟩)
    · exact Or.inr (Or.inr ⟨e, he, hq, hs, hu⟩)
  refine ⟨⟨_, hi.counts, hi.active, hi.waiting⟩, ?_, ?_, ?_, ?_⟩
  · exact fun sid r r' hr hr' => hi.exclusive sid r r' (hocc sid r hr) (hocc sid r' hr')
  · intro t ht l hl hrun
    obtain ⟨k, hk⟩ := Dict.mem_values.mp ht
    obtain ⟨k', hk'⟩ := Dict.mem_values.mp hl
    refine hi.disjoint k (Dict.mem_keys.mpr (by simp [hk])) (Dict.mem_keys.mpr ?_)
    rw [← hi.ticket_key k t hk, hrun, hi.root_key k' l hk', hk']
    rfl
  · have hkeys : j.scheduler.roots.values.map (·.runId) = j.scheduler.roots.keys := by
      simp only [Dict.values, Dict.keys, List.map_map]
      refine List.map_congr_left fun p hp => ?_
      exact hi.root_key p.1 p.2 (Dict.mem_entries.mp hp)
    rw [hkeys]
    exact Dict.keys_nodup _
  · intro claimExecution lease q' hok
    obtain ⟨older, e, newer, hadm, hq, hs, hel, hc, ho, -, -⟩ := hi.claimNext_eq hok
    have hmem : ∀ a, a ∈ older ++ e :: newer → a ∈ j.store.rootAdmissions := fun a ha => hadm ▸ ha
    refine ⟨older, e, newer, hadm, hq, hs, ⟨(hi.eligible_iff (hmem e (by simp))).mp hel, hc⟩, ?_⟩
    exact fun a ha hcl => ho a ha ((hi.eligible_iff (hmem a (by simp [ha]))).mpr hcl)

/-- Two sessions without pending work. -/
def idleScheduling : Scheduling where
  store := StoreCall.after {} [(plainEnv 'a', .createRun "earlier" "main" none),
    (plainEnv 'b', .createRun "other" "side" none)]
  scheduler := {}

def rootFacts : List Fact := [{ type := .runAdmitted, payload := Json.obj [] }]

/-- A root is started in one session while a root of the other waits for its lane. -/
def twoRoots : List SchedulerCall :=
  [.reserve "root" "main" true,
   .admitRun (plainEnv 'c') "root" "main" rootFacts none,
   .commit { object := 0, runId := "root", sessionId := "main", lane := .active },
   .start (plainEnv 'd') "main" "root" { type := .runStarted, payload := Json.obj [] },
   .reserve "next" "side" false,
   .admitRun (plainEnv 'e') "next" "side" rootFacts none,
   .commit { object := 2, runId := "next", sessionId := "side", lane := .waiting }]

def waitingScheduling : Scheduling := twoRoots.foldl (fun j c => c.perform j) idleScheduling

theorem waitingScheduling_reachable : waitingScheduling.Reachable := by
  have hrec : Recovered idleScheduling.store :=
    ⟨logInvariant_after "" _, List.Pairwise.nil, fun e he => by cases he⟩
  have hfirst : ∀ fact ∈ ([] : List Fact), fact.type ≠ .runAdmitted ∧ fact.type ≠ .runStarted :=
    fun _ hfact => absurd hfact List.not_mem_nil
  have h0 : idleScheduling.Reachable := .start _ {} 0 0 hrec
  have h1 := h0.call (.reserve "root" "main" true) trivial
  have h2 := h1.call (.admitRun (plainEnv 'c') "root" "main" rootFacts none)
    ⟨by decide, _, [], rfl, rfl, hfirst⟩
  have h3 := h2.call
    (.commit { object := 0, runId := "root", sessionId := "main", lane := .active }) trivial
  have h4 := h3.call (.start (plainEnv 'd') "main" "root"
    { type := .runStarted, payload := Json.obj [] }) ⟨rfl, by decide⟩
  have h5 := h4.call (.reserve "next" "side" false) trivial
  have h6 := h5.call (.admitRun (plainEnv 'e') "next" "side" rootFacts none)
    ⟨by decide +kernel, _, [], rfl, rfl, hfirst⟩
  exact h6.call
    (.commit { object := 2, runId := "next", sessionId := "side", lane := .waiting }) trivial

/-- The waiting root is claimed while the other one runs, and the limits still hold. -/
theorem schedulerSafe_twoRoots : ∃ lease q',
    waitingScheduling.scheduler.claimNext waitingScheduling.store (fun _ => .ok true) =
      .ok (some lease, q') ∧ lease.runId = "next" ∧ q'.roots.keys = ["root", "next"] ∧
    SchedulerSafe waitingScheduling ∧ SchedulerSafe ⟨waitingScheduling.store, q'⟩ := by
  have hclaim : (waitingScheduling.scheduler.claimNext waitingScheduling.store
      (fun _ => .ok true)).toOption.map (fun p => (p.1.map (·.runId), p.2.roots.keys)) =
        some (some "next", ["root", "next"]) := by
    decide +kernel
  have hclaimed := schedulerSafe (waitingScheduling_reachable.call (.claim fun _ => .ok true) trivial)
  obtain ⟨⟨claimed, q'⟩, hcall, hfields⟩ := Option.map_eq_some_iff.mp hclaim
  obtain ⟨hlease, hkeys⟩ := Prod.mk.inj hfields
  obtain ⟨lease, rfl, hrun⟩ := Option.map_eq_some_iff.mp hlease
  have hok := eq_ok_of_toOption hcall
  rw [SchedulerCall.perform, hok] at hclaimed
  exact ⟨lease, q', hok, hrun, hkeys, schedulerSafe waitingScheduling_reachable, hclaimed⟩

end Eventide
