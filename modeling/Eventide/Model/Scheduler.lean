import Eventide.Model.Store

/-! # The run queue and RuntimeScheduler -/

namespace Eventide

open Outcome

/-- `SCHEDULING_FACTS`. -/
def schedulingFacts : List EventType :=
  [.runAdmitted, .runStarted, .runCompleted, .runFailed, .runInterrupted]

structure QueueEntry where
  runId : String
  sessionId : String
  projectId : Option Json
  status : String
  admittedAt : ℤ
  admissionEventId : String
  intent : Json

/-- The dictionaries and the set of the loop in `project_queue`. -/
structure QueueFold where
  admissions : Dict String Event := Dict.empty
  starts : List String := []
  terminals : Dict String String := Dict.empty

namespace QueueFold

def step (q : QueueFold) (e : Event) : Except PyError QueueFold :=
  if e.isPartial then .ok q
  else
    match RuntimeStore.givenRun e.runId with
    | none => .ok q
    | some runId =>
      if e.type = .runAdmitted then do
        raiseIf ((q.admissions.get? runId).any fun prior =>
            prior.sessionId ≠ e.sessionId ∨ !prior.payload.pyEq e.payload)
          (.value "Conflicting Run admission facts")
        return { q with admissions := q.admissions.setDefault runId e }
      else if e.type = .runStarted then .ok { q with starts := runId :: q.starts }
      else if e.type.isTerminal then
        .ok { q with terminals := q.terminals.setDefault runId e.type.terminalStatus }
      else .ok q

/-- The status the queue gives a run. -/
def status (q : QueueFold) (runId : String) : String :=
  (q.terminals.get? runId).getD (if runId ∈ q.starts then "running" else "queued")

def entry (q : QueueFold) (admission : String × Event) : QueueEntry where
  runId := admission.1
  sessionId := admission.2.sessionId
  projectId := admission.2.payload.get? "project_id"
  status := q.status admission.1
  admittedAt := admission.2.ts
  admissionEventId := admission.2.eventId
  intent := admission.2.payload

/-- Only roots belong to the queue: their intent names no parent run. -/
def entries (q : QueueFold) : List QueueEntry :=
  (q.admissions.entries.filter fun admission =>
    !(admission.2.payload.get? "parent_run_id").any Json.truthy).map q.entry

end QueueFold

/-- `project_queue`. -/
def projectQueue (events : List Event) : Except PyError (List QueueEntry) := do
  let q ← events.foldlM QueueFold.step {}
  return q.entries

/-! ## Tickets and leases -/

/-- `SchedulingLimits`, with the checks of `__post_init__`. -/
structure SchedulingLimits where
  activeRoots : ℕ := 4
  modelRequests : ℕ := 2
  waitingRoots : ℕ := 20
  activeRoots_pos : 0 < activeRoots := by decide
  modelRequests_pos : 0 < modelRequests := by decide

inductive Lane where
  | active | waiting
  deriving DecidableEq

/-- Tickets and leases are compared by `is`, so each carries the identity of its object. -/
structure AdmissionTicket where
  object : ℕ
  runId : String
  sessionId : String
  lane : Lane
  deriving DecidableEq

structure RootLease where
  object : ℕ
  runId : String
  sessionId : String
  deriving DecidableEq

structure Counts where
  activeRoots : ℕ
  waitingRoots : ℕ
  preparingAdmissions : ℕ
  activeModels : ℕ
  waitingModels : ℕ

/-- The transient state of the scheduler; `objects` numbers the objects it has made. -/
structure RuntimeScheduler where
  limits : SchedulingLimits := {}
  tickets : Dict String AdmissionTicket := Dict.empty
  roots : Dict String RootLease := Dict.empty
  activeModels : ℕ := 0
  waitingModels : ℕ := 0
  objects : ℕ := 0

/-- `RuntimeScheduler.entries`. -/
def RuntimeStore.queueEntries (s : RuntimeStore) : Except PyError (List QueueEntry) :=
  projectQueue (s.factsByType schedulingFacts)

namespace RuntimeScheduler

/-- `run_id in self._tickets or run_id in self._roots`. -/
def owns (q : RuntimeScheduler) (runId : String) : Bool :=
  q.tickets.contains runId || q.roots.contains runId

/-- A ticket or a lease holds the session. -/
def holdsSession (q : RuntimeScheduler) (sessionId : String) : Bool :=
  q.tickets.values.any (·.sessionId = sessionId) || q.roots.values.any (·.sessionId = sessionId)

/-! The assignments to `self._tickets` and `self._roots`; each new object is numbered. -/

def addTicket (q : RuntimeScheduler) (ticket : AdmissionTicket) : RuntimeScheduler :=
  { q with tickets := q.tickets.set ticket.runId ticket, objects := q.objects + 1 }

def popTicket (q : RuntimeScheduler) (runId : String) : RuntimeScheduler :=
  { q with tickets := q.tickets.erase runId }

def addRoot (q : RuntimeScheduler) (lease : RootLease) : RuntimeScheduler :=
  { q with roots := q.roots.set lease.runId lease, objects := q.objects + 1 }

def popRoot (q : RuntimeScheduler) (runId : String) : RuntimeScheduler :=
  { q with roots := q.roots.erase runId }

def counts (q : RuntimeScheduler) (s : RuntimeStore) : Except PyError Counts := do
  let entries ← s.queueEntries
  return {
    activeRoots := q.roots.entries.length + q.tickets.values.countP (·.lane = .active) +
      entries.countP fun entry => entry.status = "running" && !q.owns entry.runId
    waitingRoots := q.tickets.values.countP (·.lane = .waiting) +
      entries.countP fun entry => entry.status = "queued" && !q.owns entry.runId
    preparingAdmissions := q.tickets.entries.length
    activeModels := q.activeModels
    waitingModels := q.waitingModels }

/-- The lane a reservation takes, if any capacity remains. -/
def chooseLane (q : RuntimeScheduler) (counts : Counts) (startable : Bool) : Except PyError Lane :=
  if startable ∧ counts.activeRoots < q.limits.activeRoots then .ok .active
  else if q.limits.waitingRoots ≤ counts.waitingRoots then .error .queueFull
  else .ok .waiting

def reserveAdmission (q : RuntimeScheduler) (s : RuntimeStore) (runId sessionId : String)
    (startable : Bool) : Except PyError (AdmissionTicket × RuntimeScheduler) := do
  raiseIf (runId = "" ∨ sessionId = "" ∨ (s.getSession sessionId).isNone)
    (.value "A Run identity and existing Session are required")
  raiseIf (q.owns runId ∨ (s.getRunIdentity runId).isSome) (.value "Run identity already used")
  raiseIf (q.holdsSession sessionId) (.value "Session is busy with pending work")
  let entries ← s.queueEntries
  raiseIf (entries.any fun entry =>
      entry.sessionId = sessionId ∧ (entry.status = "queued" ∨ entry.status = "running"))
    (.value "Session is busy with pending work")
  let counts ← q.counts s
  let lane ← q.chooseLane counts startable
  let ticket : AdmissionTicket := { object := q.objects, runId, sessionId, lane }
  return (ticket, q.addTicket ticket)

def commitAdmission (q : RuntimeScheduler) (s : RuntimeStore) (ticket : AdmissionTicket) :
    Except PyError (Option RootLease × RuntimeScheduler) := do
  raiseIf (q.tickets.get? ticket.runId ≠ some ticket)
    (.value "Admission ticket is not owned by this scheduler")
  let entries ← s.queueEntries
  let entry := entries.find? (·.runId = ticket.runId)
  raiseIf (¬ entry.any fun entry => entry.sessionId = ticket.sessionId ∧ entry.status = "queued")
    (.value "Matching unstarted root admission is required")
  match ticket.lane with
  | .waiting => return (none, q.popTicket ticket.runId)
  | .active =>
    let lease : RootLease :=
      { object := q.objects, runId := ticket.runId, sessionId := ticket.sessionId }
    return (some lease, (q.addRoot lease).popTicket ticket.runId)

def releaseTicket (q : RuntimeScheduler) (s : RuntimeStore) (ticket : AdmissionTicket) :
    Except PyError (Bool × RuntimeScheduler) :=
  if q.tickets.get? ticket.runId ≠ some ticket then .ok (false, q)
  else do
    raiseIf ((s.getRunIdentity ticket.runId).isSome ∧ ¬ s.runIsTerminal ticket.runId)
      (.value "Durable admission must be committed or terminated before release")
    return (true, q.popTicket ticket.runId)

/-- The loop of `claim_next`; the callback may raise. -/
def firstClaim (q : RuntimeScheduler) (busySessions : List String)
    (claimExecution : QueueEntry → Except PyError Bool) :
    List QueueEntry → Except PyError (Option QueueEntry)
  | [] => .ok none
  | entry :: entries => do
    if entry.status ≠ "queued" ∨ q.owns entry.runId ∨ entry.sessionId ∈ busySessions then
      q.firstClaim busySessions claimExecution entries
    else
      let claimed ← claimExecution entry
      if claimed then return some entry
      else q.firstClaim busySessions claimExecution entries

def claimNext (q : RuntimeScheduler) (s : RuntimeStore)
    (claimExecution : QueueEntry → Except PyError Bool) :
    Except PyError (Option RootLease × RuntimeScheduler) := do
  let counts ← q.counts s
  if q.limits.activeRoots ≤ counts.activeRoots then return (none, q)
  else
    let entries ← s.queueEntries
    let busySessions := (entries.filter (·.status = "running")).map (·.sessionId) ++
      q.roots.values.map (·.sessionId) ++ q.tickets.values.map (·.sessionId)
    let claimed ← q.firstClaim busySessions claimExecution entries
    match claimed with
    | none => return (none, q)
    | some entry =>
      let lease : RootLease :=
        { object := q.objects, runId := entry.runId, sessionId := entry.sessionId }
      return (some lease, q.addRoot lease)

def releaseRoot (q : RuntimeScheduler) (s : RuntimeStore) (lease : RootLease) :
    Except PyError (Bool × RuntimeScheduler) :=
  if q.roots.get? lease.runId ≠ some lease then .ok (false, q)
  else do
    raiseIf (¬ s.runIsTerminal lease.runId)
      (.value "Root must reach a terminal fact before releasing its lease")
    return (true, q.popRoot lease.runId)

end RuntimeScheduler

end Eventide
