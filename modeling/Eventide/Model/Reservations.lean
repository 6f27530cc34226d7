import Eventide.Library.Stretch
import Eventide.Model.Scheduler
import Eventide.Model.StoreCalls

/-! # Execution reservations

`_admissions` and `_admission_done` of `host.py`, with the coroutines that write them. The
coroutines share one event loop, so each step is what one of them does from one await to the
next; which steps follow each other is left open. -/

namespace Eventide

open Outcome RuntimeStore Stretch

namespace Reservations

/-! ## The state -/

/-- `_Admission`; its `asyncio.Event` is known by the number of the object. -/
structure Admission where
  sessionId : String
  done : ℕ

/-- A future of `RunDispatch._ready`. -/
inductive Ready where
  | pending | result | cancelled
  deriving DecidableEq

/-- Where a coroutine of `_prepare_run` stands. With a Workspace it prepares a source run under
the lock of the Workspace, without one a run in a copy under the lock of the Session. -/
inductive Phase where
  | starting
  | locking (workspaceId : Option String)
  | preparing (workspaceId : Option String)
  deriving DecidableEq

/-- The reservation has been made. -/
def Phase.reserved : Phase → Bool
  | preparing _ => true
  | _ => false

/-- An admission on its way. An owned writer takes no ticket. -/
structure Preparation where
  runId : String
  sessionId : String
  ticket : Option AdmissionTicket
  phase : Phase

/-- The control runs, each with a controller of its own. -/
inductive Controller where
  | delivery | evaluation | index | worktree | history | experiment
  deriving DecidableEq

/-- What starts a task: `start_admitted_run`, a controller, or the parent of the run. -/
inductive Starter where
  | host
  | controller (kind : Controller)
  | parent
  deriving DecidableEq

/-- A task of a run; one that the dispatcher holds back is not yet running. -/
structure Execution where
  runId : String
  starter : Starter
  running : Bool
  deriving DecidableEq

/-- Where a call of `_workspace_execution` stands. -/
inductive Place where
  | acquiring
  | waiting (done : ℕ)
  | inside
  | raised (error : PyError)

structure Entry where
  key : String
  runId : Option String
  place : Place

/-- The part of `RuntimeHost` and its dispatcher that reservations use, and the coroutines.
`clean` is `_clean` of an error and `pyStr` the text of a value that is no string. The events
that are set and the admissions that left `_admission_done` are kept to speak about them. -/
structure Host where
  store : RuntimeStore
  clean : PyError → String
  pyStr : Json → String
  scheduler : RuntimeScheduler
  admissions : Dict String String := .empty
  admissionDone : Dict String Admission := .empty
  leases : Dict String RootLease := .empty
  ready : Dict String Ready := .empty
  pending : Dict String Controller := .empty
  runTasks : List String := []
  sessionLocks : List String := []
  closed : Bool := false
  preparations : List Preparation := []
  executions : List Execution := []
  entries : Dict ℕ Entry := .empty
  objects : ℕ := 0
  happened : List ℕ := []
  removed : List Admission := []

/-- A host whose process has just opened the database. -/
def Host.opened (store : RuntimeStore) (clean : PyError → String) (pyStr : Json → String)
    (limits : SchedulingLimits) : Host where
  store := store
  clean := clean
  pyStr := pyStr
  scheduler := { limits }

/-- The stretches of the host. -/
abbrev Code := Stretch PyError Host

/-! ## Runs -/

/-- `_admitted_intent`. -/
def admittedIntent (s : RuntimeStore) (runId : String) : Option Json :=
  ((s.runEvents runId).find? (·.type = .runAdmitted)).map (·.payload)

/-- `session_is_control`. -/
def sessionIsControl (s : RuntimeStore) (sessionId : String) : Bool :=
  (s.sessionEvents sessionId).any fun e => e.type = .controlSession ∨
    e.type = .runStarted ∧ ((e.payload.get? "source").bind Json.str?).any
      fun source => source = "delivery" ∨ source = "verification"

/-- The `source` of the intents of a controller. -/
def Controller.source : Controller → String
  | delivery => "delivery"
  | evaluation => "evaluation"
  | index => "index"
  | worktree => "worktree_control"
  | history => "history_import"
  | experiment => "python_experiment"

/-- The controllers with a list of their own of the runs that are still to start. -/
def Controller.lists : Controller → Bool
  | index | worktree | history => true
  | _ => false

/-- `is_index_run` and its siblings, by the source of the intent. -/
def isControlledBy (s : RuntimeStore) (kind : Controller) (runId : String) : Bool :=
  ((admittedIntent s runId).bind (·.get? "source")).bind Json.str? = some kind.source

/-- An interpolated value. -/
def text (pyStr : Json → String) (value : Json) : String := value.str?.getD (pyStr value)

/-- The kinds whose key names the run. -/
def runKinds : List String :=
  ["evaluation", "index", "worktree_control", "history_import", "python_experiment"]

/-- `_execution_key`. -/
def executionKey (pyStr : Json → String) (runId : String) (intent : Json) :
    Except PyError String :=
  match (intent.get? "execution_binding").getD (.obj []) with
  | .obj fields =>
    let binding := Json.obj fields
    let kind := ((binding.get? "kind").bind Json.str?).getD ""
    if kind = "delivery" then
      (binding.require "delivery_id").map fun id => "delivery_operation:" ++ text pyStr id
    else if kind ∈ runKinds then .ok (kind ++ "_run:" ++ runId)
    else if kind = "sandbox" then
      (binding.require "sandbox_id").map fun id => "sandbox:" ++ text pyStr id
    else if kind = "snapshot" then .ok ("snapshot_run:" ++ runId)
    else if kind = "worktree" then (binding.require "execution_workspace_id").map (text pyStr)
    else (intent.require "workspace_id").map (text pyStr)
  | _ => .error (.raised "AttributeError" "object has no attribute 'get'")

/-! ## Locks -/

namespace Host

/-- `_workspace_locks[key].locked()`. -/
def workspaceLocked (h : Host) (key : String) : Bool :=
  (h.entries.values.any fun x => x.key = key && match x.place with
    | .inside => true
    | _ => false) ||
    h.preparations.any fun p => p.phase = .preparing (some key)

/-- `_session_locks[session_id].locked()`. -/
def sessionLocked (h : Host) (sessionId : String) : Bool :=
  h.sessionLocks.contains sessionId ||
    h.preparations.any fun p => p.phase = .preparing none && p.sessionId = sessionId

/-- `session_busy`. -/
def sessionBusy (h : Host) (sessionId : String) : Bool :=
  h.sessionLocked sessionId || h.admissionDone.values.any (·.sessionId = sessionId)

/-- `workspace_busy`. -/
def workspaceBusy (h : Host) (key : String) : Bool :=
  h.admissions.contains key || h.workspaceLocked key

/-! ## Reservations -/

/-- `self._admission_done[run_id] = _Admission(session_id, asyncio.Event())`. -/
def addAdmission (runId sessionId : String) (h : Host) : Host :=
  { h with
    admissionDone := h.admissionDone.set runId ⟨sessionId, h.objects⟩
    objects := h.objects + 1
    removed := (h.admissionDone.get? runId).toList ++ h.removed }

/-- `self._admissions[key] = run_id`. -/
def claim (runId key : String) (h : Host) : Host :=
  { h with admissions := h.admissions.set key runId }

/-- `_release_execution_claims`. -/
def releaseExecutionClaims (runId : String) (h : Host) : Host :=
  { h with admissions := h.admissions.filterValues (· ≠ runId) }

/-- `done = self._admission_done.pop(run_id, None)`, with `done.done.set()`. -/
def popAdmission (runId : String) (h : Host) : Host :=
  match h.admissionDone.get? runId with
  | none => h
  | some admission =>
    { h with
      admissionDone := h.admissionDone.erase runId
      happened := admission.done :: h.happened
      removed := admission :: h.removed }

/-- `_release_admission`. -/
def releaseAdmission (runId : String) (h : Host) : Host :=
  (h.releaseExecutionClaims runId).popAdmission runId

end Host

def interruption (clean : PyError → String) : PyError → Fact
  | .cancelled =>
    { type := .runInterrupted
      payload := .obj [("error", .str "Run cancelled before execution; session parked"),
        ("reason", .str "cancelled")] }
  | error =>
    { type := .runFailed
      payload := .obj [("error", .str (clean error)), ("reason", .str "admission_failed")] }

/-- `append_event`. -/
def appendEvent (env : Env) (runId : String) (fact : Fact) : Code := fun h =>
  match h.store.getRunIdentity runId with
  | none => (.error (.value "Run not found"), h)
  | some (run, _) =>
    match h.store.appendFact env run.sessionId fact (some runId) with
    | (.ok _, s) => (.ok (), { h with store := s })
    | (.error e, s) => (.error e, { h with store := s })

/-- `_finish_admitted`. -/
def finishAdmitted (env : Env) (runId : String) (error : PyError) : Code := fun h =>
  if (h.store.getRunIdentity runId).isSome ∧ ¬ h.store.runIsTerminal runId ∧
      (admittedIntent h.store runId).isSome then
    appendEvent env runId (interruption h.clean error) h
  else (.ok (), h)

/-- The handler that ends an admission. -/
def abandon (env : Env) (runId : String) (error : PyError) : Code :=
  (finishAdmitted env runId error).andThen (write (Host.releaseAdmission runId))

/-! ## Dispatch -/

namespace Host

/-- The tests of `_claim`. -/
def claimable (h : Host) (entry : QueueEntry) : Except PyError Bool :=
  if h.ready.get? entry.runId ≠ some .pending then .ok false
  else do
    let key ← executionKey h.pyStr entry.runId entry.intent
    return !(h.workspaceBusy key || h.sessionLocked entry.sessionId)

/-- The key that `_claim` took for the run of the lease. -/
def claimedKey (h : Host) (lease : RootLease) : Except PyError String := do
  let entries ← h.store.queueEntries
  match entries.find? (·.runId = lease.runId) with
  | some entry => executionKey h.pyStr entry.runId entry.intent
  | none => .error (.key lease.runId)

/-- The writes of `_claim`, `claim_next` and the loop for one lease. -/
def grant (h : Host) (scheduler : RuntimeScheduler) (lease : RootLease) (key : String) : Host :=
  { h with
    scheduler
    admissions := h.admissions.set key lease.runId
    leases := h.leases.set lease.runId lease
    ready := h.ready.set lease.runId .result }

/-- The futures that wait for a lease. -/
def waitingFutures (h : Host) : ℕ := h.ready.values.countP (· = .pending)

end Host

/-- The loop of `dispatch`; each round sets a future, so their number bounds the rounds. -/
def dispatchLoop : ℕ → Code
  | 0 => write id
  | rounds + 1 => fun h =>
    match h.scheduler.claimNext h.store h.claimable with
    | .error e => (.error e, h)
    | .ok (none, q) => (.ok (), { h with scheduler := q })
    | .ok (some lease, q) =>
      match h.claimedKey lease with
      | .error e => (.error e, h)
      | .ok key => dispatchLoop rounds (h.grant q lease key)

/-- `RunDispatch.dispatch`. -/
def dispatch : Code := fun h =>
  if h.closed then (.ok (), h) else dispatchLoop (h.waitingFutures + 1) h

/-- `RunDispatch.admitted`. -/
def admitted (ticket : AdmissionTicket) : Code := fun h =>
  match h.scheduler.commitAdmission h.store ticket with
  | .error e => (.error e, h)
  | .ok (some lease, q) =>
    (.ok (), { h with scheduler := q, leases := h.leases.set ticket.runId lease })
  | .ok (none, q) => (.ok (), { h with scheduler := q }.releaseExecutionClaims ticket.runId)

/-- `lease = self._leases.pop(run_id, None)`, with `release_root`. -/
def releaseLease (runId : String) : Code := fun h =>
  match h.leases.get? runId with
  | none => (.ok (), h)
  | some lease =>
    match h.scheduler.releaseRoot h.store lease with
    | .error e => (.error e, { h with leases := h.leases.erase runId })
    | .ok (_, q) => (.ok (), { h with scheduler := q, leases := h.leases.erase runId })

/-- `RunDispatch.finished`. A future that is cancelled resumes nothing. -/
def finished (runId : String) : Code :=
  (write fun h => { h with ready := h.ready.erase runId }).andThen
    ((releaseLease runId).andThen dispatch)

def raiseWhen (fault : Option PyError) : Code := fun h =>
  (match fault with
    | some error => .error error
    | none => .ok (), h)

/-- The rest of `RunDispatch.start`, which makes the future; the task may fail to be made. -/
def dispatchStart (runId : String) (starter : Starter) (fault : Option PyError) : Code :=
  (write fun h => { h with ready := h.ready.set runId .pending }).andThen
    ((raiseWhen fault).andThen
      ((write fun h => { h with executions := ⟨runId, starter, false⟩ :: h.executions }).andThen
        fun h =>
          if h.leases.contains runId then (.ok (), { h with ready := h.ready.set runId .result })
          else dispatch h))

/-! ## Admission -/

def releaseTicket (ticket : AdmissionTicket) : Code := fun h =>
  match h.scheduler.releaseTicket h.store ticket with
  | .error e => (.error e, h)
  | .ok (_, q) => (.ok (), { h with scheduler := q })

def admitRun (env : Env) (runId sessionId : String) (facts : List Fact)
    (continuationOf : Option String) : Code := fun h =>
  match h.store.admitRun env runId sessionId facts continuationOf with
  | (.ok _, s) => (.ok (), { h with store := s })
  | (.error e, s) => (.error e, { h with store := s })

/-- The `try` that holds a ticket, in `_reserve_run` and in the controllers. The handler of a
controller takes the run off its list. -/
def owning (env : Env) (ticket : AdmissionTicket) (body : Code) : Code :=
  ((body.andThen (admitted ticket)).rescue fun error =>
    (write fun h => { h with pending := h.pending.erase ticket.runId }).andThen
      ((abandon env ticket.runId error).andThen (releaseTicket ticket))).ensure dispatch

/-- The end of `start_owned_writer`, which makes the task itself. -/
def writing (env : Env) (runId : String) (fault : Option PyError) (body : Code) : Code :=
  body.andThen (((raiseWhen fault).rescue fun error => abandon env runId error).andThen
    (write fun h => { h with
      executions := ⟨runId, .parent, true⟩ :: h.executions
      runTasks := runId :: h.runTasks }))

/-- The coroutine around `_prepare_run`, from the await that `body` follows. -/
def Preparation.resume (p : Preparation) (env : Env) (fault : Option PyError) (body : Code) :
    Code :=
  match p.ticket with
  | some ticket => owning env ticket body
  | none => writing env p.runId fault body

/-- The fact that admits a run. -/
def admission (intent : Json) : Fact where
  type := .runAdmitted
  payload := intent

/-- `_prepare_run` from its last await; `mark_attachments_used` may fail. -/
def Preparation.commit (p : Preparation) (env : ℕ → Env) (intent : Json) (facts : List Fact)
    (continuationOf : Option String) (fault : Option PyError) : Code :=
  ((admitRun (env 0) p.runId p.sessionId (admission intent :: facts) continuationOf).andThen
    (raiseWhen fault)).rescue (abandon (env 1) p.runId)

/-- `_prepare_run` where it raises. -/
def Preparation.raises (p : Preparation) (env : Env) (error : PyError) : Code :=
  if p.phase.reserved then (raiseWhen (some error)).rescue (abandon env p.runId)
  else raiseWhen (some error)

/-- The admission of a control run. -/
def Preparation.control (p : Preparation) (env : Env) (kind : Controller) (intent : Json)
    (facts : List Fact) : Code :=
  (admitRun env p.runId p.sessionId (admission intent :: facts) none).andThen
    ((write fun h => if kind.lists then { h with pending := h.pending.set p.runId kind } else h).andThen
      ((write (Host.addAdmission p.runId p.sessionId)).andThen fun h =>
        match executionKey h.pyStr p.runId intent with
        | .error e => (.error e, h)
        | .ok key => (.ok (), h.claim p.runId key)))

namespace Host

def preparation? (h : Host) (runId : String) : Option Preparation :=
  h.preparations.find? (·.runId = runId)

/-- The coroutine of the preparation runs. -/
def unsuspend (h : Host) (p : Preparation) : Host :=
  { h with preparations := h.preparations.filter (·.runId ≠ p.runId) }

/-- The coroutine of the preparation awaits again. -/
def suspend (h : Host) (p : Preparation) (phase : Phase) : Host :=
  { h with preparations := { p with phase } :: h.preparations.filter (·.runId ≠ p.runId) }

/-- `_reserve_run`, and the controllers, up to the first await. A writer draws its run id with
`uuid4` and nobody knows it before it is admitted, so nobody else asks for it. -/
def reserve (h : Host) (runId sessionId : String) : Host :=
  if h.sessionBusy sessionId ∨ h.preparations.any fun p => p.runId = runId && p.ticket.isNone then h
  else
    match h.scheduler.reserveAdmission h.store runId sessionId true with
    | .error _ => h
    | .ok (ticket, q) =>
      { h with
        scheduler := q
        preparations := ⟨runId, sessionId, some ticket, .starting⟩ :: h.preparations }

/-- `uuid4` draws an id that nothing has. -/
def fresh (h : Host) (runId : String) : Bool :=
  runId ≠ "" && (h.store.getRunIdentity runId).isNone && !h.scheduler.owns runId &&
    !h.admissionDone.contains runId && (h.preparation? runId).isNone

/-- `start_owned_writer` up to the first await. -/
def write (h : Host) (runId sessionId : String) : Host :=
  if h.fresh runId then
    { h with preparations := ⟨runId, sessionId, none, .starting⟩ :: h.preparations }
  else h

/-- The checks of `_prepare_run` that read reservations. -/
def refusal (h : Host) (p : Preparation) (workspaceId : Option String) : Except PyError Unit := do
  raiseIf h.closed (.runtime "Host is closed")
  raiseIf (h.admissionDone.contains p.runId ∨ (h.store.getRunIdentity p.runId).isSome)
    (.value "Run identity already used")
  raiseIf (h.sessionBusy p.sessionId) (.value "Session is busy")
  raiseIf (workspaceId.any h.workspaceBusy) (.value "Workspace is busy")

def locked (h : Host) (p : Preparation) (workspaceId : Option String) : Bool :=
  workspaceId.elim (h.sessionLocked p.sessionId) h.workspaceLocked

/-- The key of the first claim. -/
def firstKey (p : Preparation) (workspaceId : Option String) : String :=
  workspaceId.getD ("snapshot_run:" ++ p.runId)

/-- Whether a run may be started. -/
def startable (h : Host) (runId : String) : Starter → Bool
  | .host =>
    ((h.store.getRunIdentity runId).any fun run => !sessionIsControl h.store run.1.sessionId) &&
      (admittedIntent h.store runId).isSome && !h.store.runIsTerminal runId &&
      !h.runTasks.contains runId && h.admissionDone.contains runId && !h.closed
  | .controller kind =>
    (h.store.getRunIdentity runId).isSome && isControlledBy h.store kind runId &&
      !h.store.runIsTerminal runId && !h.closed &&
      if kind.lists then h.pending.get? runId = some kind
      else !h.runTasks.contains runId && h.admissionDone.contains runId
  | .parent => false

end Host

/-! ## Steps -/

/-- A controller with a list takes the run off it. -/
def Host.unlist (runId : String) (starter : Starter) (h : Host) : Host :=
  match starter with
  | .controller kind => if kind.lists then { h with pending := h.pending.erase runId } else h
  | _ => h

/-- `start_admitted_run` and `start` of the controllers. -/
def startRun (env : Env) (runId : String) (starter : Starter) (fault : Option PyError) : Code :=
  (write (Host.unlist runId starter)).andThen
    (((dispatchStart runId starter fault).rescue fun error =>
        (abandon env runId error).andThen (finished runId)).andThen
      (write fun h => { h with runTasks := runId :: h.runTasks }))

/-- The admission and the task of a read-only worker. -/
def startWorker (env : Env) (runId sessionId : String) (intent : Json) (facts : List Fact) : Code :=
  (admitRun env runId sessionId (admission intent :: facts) none).andThen (write fun h => { h with
    executions := ⟨runId, .parent, true⟩ :: h.executions
    runTasks := runId :: h.runTasks })

def finishError (env : Env) (runId : String) : Option PyError → Code
  | some error => finishAdmitted env runId error
  | none => write id

/-- The callback of `_track_run_task`. -/
def taskDone (env : Env) (x : Execution) (error : Option PyError) : Code :=
  (finishError env x.runId error).andThen
    ((write fun h => { h.releaseAdmission x.runId with runTasks := h.runTasks.erase x.runId }).andThen
      (finished x.runId))

/-- The end of `_admit`. -/
def admitEnds (env : Env) (x : Execution) (error : Option PyError) : Code :=
  (finishError env x.runId error).ensure
    (write fun h => { h.releaseAdmission x.runId with runTasks := h.runTasks.erase x.runId })

/-- `cancel_run`, with the cancellation of a task that still waits for its lease. -/
def cancelRun (env : Env) (runId : String) : Code := fun h =>
  if h.runTasks.contains runId then
    if h.ready.get? runId = some .pending then
      (.ok (), { h with ready := h.ready.set runId .cancelled })
    else (.ok (), h)
  else if (admittedIntent h.store runId).isSome ∧ h.admissionDone.contains runId ∧
      ¬ h.store.runIsTerminal runId then
    ((abandon env runId .cancelled).andThen (finished runId)) h
  else (.error (.value ("Run is not active: " ++ runId)), h)

/-- The loop of `close`. -/
def closeRuns (env : ℕ → Env) : Code := fun h =>
  (each (fun run : String × ℕ => (abandon (env run.2) run.1 .cancelled).andThen (finished run.1))
    h.admissionDone.keys.zipIdx) h

namespace Host

/-- `_workspace_execution` once it has the lock. -/
def place (h : Host) (x : Entry) : Place :=
  match h.admissions.get? x.key with
  | none => .inside
  | some reserved =>
    if x.runId = some reserved then .inside
    else
      match h.admissionDone.get? reserved with
      | some admission => .waiting admission.done
      | none => .raised (.key reserved)

def move (h : Host) (n : ℕ) (x : Entry) (place : Place) : Host :=
  { h with entries := h.entries.set n { x with place } }

/-- The runs of the events that a call adds, where they admit a run. -/
def admits (before after : RuntimeStore) : List (Option String) :=
  ((after.events.drop before.events.length).filter (·.type = .runAdmitted)).map (·.runId)

/-- A write of the rest of the program, which admits no run that is being prepared. -/
def perform (h : Host) (env : Env) (call : StoreCall) : Host :=
  let store := (call.perform h.store env).2
  if h.preparations.any fun p => (admits h.store store).contains (some p.runId) then h else { h with store }

end Host

/-- A step of the host. An `env` numbers the calls of the Store in one step. -/
inductive Action where
  | reserve (runId sessionId : String)
  | write (runId sessionId : String)
  /-- A preparation goes on to its lock. -/
  | check (runId : String) (workspaceId : Option String) (env : ℕ → Env) (fault : Option PyError)
  /-- It gets the lock and reserves. -/
  | lock (runId : String)
  /-- A run in a copy claims a further key, which must be free in some places. -/
  | claim (runId key : String) (free : Bool) (env : ℕ → Env)
  | commit (runId : String) (env : ℕ → Env) (intent : Json) (facts : List Fact)
      (continuationOf : Option String) (fault : Option PyError)
  | control (runId : String) (env : ℕ → Env) (kind : Controller) (intent : Json)
      (facts : List Fact)
  /-- A check or an await of a preparation raises. -/
  | fail (runId : String) (env : ℕ → Env) (error : PyError)
  | start (runId : String) (env : Env) (starter : Starter) (fault : Option PyError)
  | worker (runId sessionId : String) (env : Env) (intent : Json) (facts : List Fact)
  /-- A task finds its future set. -/
  | wake (x : Execution)
  | admitEnds (x : Execution) (env : Env) (error : Option PyError)
  /-- A delivery takes its run off `_run_tasks`. -/
  | disown (x : Execution)
  | taskDone (x : Execution) (env : Env) (error : Option PyError)
  | cancel (runId : String) (env : Env)
  | close
  | closeRuns (env : ℕ → Env)
  /-- The calls of `_workspace_execution`. -/
  | request (n : ℕ) (key : String) (runId : Option String)
  | acquire (n : ℕ)
  | resume (n : ℕ)
  | leave (n : ℕ)
  | giveUp (n : ℕ)
  /-- The locks of `_session_execution`. -/
  | lockSession (sessionId : String)
  | unlockSession (sessionId : String)
  | other (env : Env) (call : StoreCall)
  /-- The process ends and another one opens the database. -/
  | restart

namespace Host

/-- A step of the coroutine that prepares the run, if there is one. -/
def withPreparation (h : Host) (runId : String) (f : Preparation → Host) : Host :=
  (h.preparation? runId).elim h f

/-- A step of a coroutine in `_workspace_execution`. -/
def withEntry (h : Host) (n : ℕ) (f : Entry → Host) : Host := (h.entries.get? n).elim h f

def act (h : Host) : Action → Host
  | .reserve runId sessionId => h.reserve runId sessionId
  | .write runId sessionId => h.write runId sessionId
  | .check runId workspaceId env fault => h.withPreparation runId fun p =>
    if p.phase = .starting then
      match h.refusal p workspaceId with
      | .ok () => h.suspend p (.locking workspaceId)
      | .error e => (p.resume (env 2) fault (p.raises (env 1) e) (h.unsuspend p)).2
    else h
  | .lock runId => h.withPreparation runId fun p =>
    match p.phase with
    | .locking workspaceId =>
      if h.locked p workspaceId then h
      else (((h.addAdmission runId p.sessionId).claim runId (firstKey p workspaceId)).suspend p
        (.preparing workspaceId))
    | _ => h
  | .claim runId key free env => h.withPreparation runId fun p =>
    if p.phase = .preparing none then
      if free ∧ h.workspaceBusy key then
        (p.resume (env 2) none (p.raises (env 1) (.value "Execution worktree is busy"))
          (h.unsuspend p)).2
      else h.claim runId key
    else h
  | .commit runId env intent facts continuationOf fault => h.withPreparation runId fun p =>
    if p.phase.reserved then
      (p.resume (env 2) fault (p.commit env intent facts continuationOf fault) (h.unsuspend p)).2
    else h
  | .control runId env kind intent facts => h.withPreparation runId fun p =>
    if p.phase = .starting ∧ p.ticket.isSome ∧ sessionIsControl h.store p.sessionId ∧
        (intent.get? "source").bind Json.str? = some kind.source then
      (p.resume (env 2) none (p.control (env 0) kind intent facts) (h.unsuspend p)).2
    else h
  | .fail runId env error => h.withPreparation runId fun p =>
    (p.resume (env 2) none (p.raises (env 1) error) (h.unsuspend p)).2
  | .start runId env starter fault =>
    if h.startable runId starter then (startRun env runId starter fault h).2 else h
  | .worker runId sessionId env intent facts =>
    if h.fresh runId then (startWorker env runId sessionId intent facts h).2 else h
  | .wake x =>
    if x ∈ h.executions ∧ h.ready.get? x.runId = some .result then
      { h with executions := { x with running := true } :: h.executions.erase x }
    else h
  | .admitEnds x env error =>
    if x ∈ h.executions ∧ x.running ∧ x.starter = .host then
      (Reservations.admitEnds env x error h).2
    else h
  | .disown x =>
    if x ∈ h.executions ∧ x.running ∧ x.starter = .controller .delivery then
      { h with runTasks := h.runTasks.erase x.runId }
    else h
  | .taskDone x env error =>
    if x ∈ h.executions then
      (Reservations.taskDone env x error { h with executions := h.executions.erase x }).2
    else h
  | .cancel runId env => (cancelRun env runId h).2
  | .close => { h with closed := true }
  | .closeRuns env =>
    -- `gather` has waited for the tasks, so a preparation is at most at its start.
    if h.closed ∧ h.preparations.all fun p => p.phase = .starting then
      (Reservations.closeRuns env h).2
    else h
  | .request n key runId =>
    if h.entries.contains n then h
    else { h with entries := h.entries.set n ⟨key, runId, .acquiring⟩ }
  | .acquire n => h.withEntry n fun x =>
    match x.place with
    | .acquiring => if h.workspaceLocked x.key then h else h.move n x (h.place x)
    | _ => h
  | .resume n => h.withEntry n fun x =>
    match x.place with
    | .waiting done => if done ∈ h.happened then h.move n x .acquiring else h
    | _ => h
  | .leave n => h.withEntry n fun x =>
    match x.place with
    | .inside => (dispatch { h with entries := h.entries.erase n }).2
    | _ => h
  | .giveUp n => h.withEntry n fun x =>
    match x.place with
    | .acquiring | .waiting _ => { h with entries := h.entries.erase n }
    | _ => h
  | .lockSession sessionId =>
    if h.sessionLocked sessionId then h
    else { h with sessionLocks := sessionId :: h.sessionLocks }
  | .unlockSession sessionId =>
    (dispatch { h with sessionLocks := h.sessionLocks.erase sessionId }).2
  | .other env call => h.perform env call
  | .restart => opened h.store h.clean h.pyStr h.scheduler.limits

/-- The host after some steps. -/
def after (clean : PyError → String) (pyStr : Json → String) (limits : SchedulingLimits)
    (stateRoot : String) (actions : List Action) : Host :=
  runCalls act (opened { stateRoot } clean pyStr limits) actions

end Host

end Reservations

end Eventide
