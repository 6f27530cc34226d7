import Eventide.Model.Delivery
import Eventide.Model.StoreCalls

/-! # The delivery controllers

`WebDeliveryController.admit` and `_execute`, `DeliveryController.execute`, `_verify` and
`run_repair`, cut where they await. Between two moves of one task the others may run; what a
task does while it owns a Workspace or the project's Git is one move, and those locks are left
out: they only take interleavings away. -/

namespace Eventide

open Outcome

namespace Delivery

/-! ## Tasks -/

/-- Where the loop of `run_repair` is. -/
inductive RepairStage where
  | ready (number : ℕ) (previous : String)
  | writing (number : ℕ) (previous : String)
  | written (number : ℕ) (previous workerRunId : String)
  | candidate (number : ℕ) (workerRunId : String)
  | verifying (number : ℕ) (workerRunId : String) (patch : Patch) (receipt : Receipt)
  | judged (number : ℕ) (workerRunId : String) (verified : Verified)
  | passed
  deriving DecidableEq

inductive Stage where
  /-- A Web operation in the queue. -/
  | admitted
  /-- In `execute`, before its first load. -/
  | called
  /-- At `_workspace_execution("delivery:…")`. -/
  | waiting
  | locked (value : Option Loaded)
  | checked (value : Loaded)
  | verifying (value : Loaded) (patch : Patch) (receipt : Receipt)
  | repairing (value : Loaded) (stage : RepairStage)
  /-- The source has the patch, the fact is not written yet. -/
  | adopted (result : Applied)
  | finished
  deriving DecidableEq

/-- The task is inside the block of the delivery lock. -/
def Stage.inside : Stage → Bool
  | admitted | called | waiting => false
  | locked _ | checked _ | verifying _ _ _ | repairing _ _ | adopted _ | finished => true

/-- A task that runs an operation; `control` is the run of a Web operation. -/
structure Operation where
  request : Request
  control : Option String := none
  session : Option String := none
  runId : Option String := none
  stage : Stage
  deriving DecidableEq

def Operation.deliveryId (op : Operation) : String := op.request.deliveryId

structure Host (Tree : Type) where
  world : String → Tree
  log : List Event := []
  runs : List String := []
  artifacts : Dict (String × String) Patch := Dict.empty
  tasks : Dict ℕ Operation := Dict.empty
  locks : Dict String ℕ := Dict.empty

/-- Nothing to do for the task here. -/
def notHere {α : Type} : Except PyError α := .error (.runtime "The operation is not at this point")

namespace Host

variable {Tree : Type}

def emit (s : Host Tree) (runId : String) (fact : Fact) : Host Tree :=
  { s with log := s.log ++ [⟨runId, fact⟩] }

def setStage (s : Host Tree) (task : ℕ) (op : Operation) (stage : Stage) : Host Tree :=
  { s with tasks := s.tasks.set task { op with stage } }

/-- The task ends and leaves the block of the lock, if it is in it. -/
def release (s : Host Tree) (task : ℕ) (op : Operation) : Host Tree :=
  { s with
    tasks := s.tasks.erase task
    locks := if op.stage.inside then s.locks.erase op.deliveryId else s.locks }

/-- The terminal fact of the task's run, if it has a run. -/
def endRun (s : Host Tree) (op : Operation) (status : RunEnd) : Host Tree :=
  match op.runId with
  | some runId => s.emit runId (.runEnded status)
  | none => s

end Host

/-! ## Arguments and results -/

def goalOk (goal : Option String) : Bool :=
  goal.any fun goal => RuntimeStore.strip goal ≠ "" && goal.length ≤ 20000

def checksOk (checks : List String) : Bool :=
  1 ≤ checks.length && checks.length ≤ 4 &&
    checks.all fun check => RuntimeStore.strip check ≠ "" && check.length ≤ 2000

/-- `[A-Za-z0-9_-]{1,128}`. -/
def validRunId (runId : String) : Bool :=
  1 ≤ runId.length && runId.length ≤ 128 &&
    runId.toList.all fun c => c.isAlphanum || c = '_' || c = '-'

/-- `[a-z0-9][a-z0-9-]{0,47}`. -/
def validWorktreeName (name : String) : Bool :=
  1 ≤ name.length && name.length ≤ 48 &&
    name.toList.all (fun c => c.isLower || c.isDigit || c = '-') && name.toList.head? ≠ some '-'

/-- What a repair, once started, allows. -/
def repairGate (action : Action) (value : Loaded) : Except PyError Unit :=
  if value.repair.isSome then do
    raiseIf (action = .run ∨ action = .repair)
      (.value "Delivery repair already started; no unbounded replay")
    raiseIf (action = .verify)
      (.value "Delivery acceptance conditions are frozen; repair owns verification")
    raiseIf (action = .apply ∧ ¬ value.repairResult.any fun result => result.reason = .passed)
      (.value "Delivery repair has no passing final result")
  else .ok ()

/-- The checks run in order and stop at one whose outcome is unknown. -/
def checksRan (checks : List String) (results : List CheckResult) : Bool :=
  results.length ≤ checks.length && (results.dropLast.all fun result => !result.outcomeUnknown) &&
    (results.length = checks.length || results.getLast?.any CheckResult.outcomeUnknown)

def checksPassed (results : List CheckResult) : Bool :=
  results.all fun result => !result.isError && result.exitCode = some 0

/-- The arguments of the Web's `admit`; `uuid` names the delivery of a new `prepare`. -/
structure WebCall where
  projectId : String
  workspaceId : String
  runId : String
  action : Action
  deliveryId : Option String := none
  name : Option String := none
  goal : Option String := none
  checks : List String := []
  maxRounds : ℕ := 3
  patchSha256 : Option String := none
  uuid : String := ""

namespace WebCall

/-- `if delivery_id:`. -/
def named (c : WebCall) : Option String := c.deliveryId.filter (· ≠ "")

def request (c : WebCall) : Request where
  action := c.action
  deliveryId := c.named.getD c.uuid
  target := c.workspaceId
  name := c.name
  goal := c.goal
  checks := c.checks
  maxRounds := c.maxRounds

def owner (c : WebCall) : String :=
  match c.named with
  | some deliveryId => "deliveries_" ++ deliveryId
  | none => "delivery_prepare_" ++ c.projectId

def binding (c : WebCall) : Binding where
  operation := c.action
  deliveryId := c.request.deliveryId
  workspaceId := c.workspaceId

def accepted (c : WebCall) : Accepted := { c.request with patchSha256 := c.patchSha256 }

/-- The checks of `admit` on its arguments. -/
def checkArguments (c : WebCall) : Except PyError Unit := do
  raiseIf (c.action ≠ .prepare ∧ c.action ≠ .repair ∧ c.action ≠ .apply)
    (.value "Unsupported Web delivery operation")
  raiseIf (¬ validRunId c.runId) (.value "Invalid operation identity")
  raiseIf (c.action = .prepare ∧ ¬ c.name.any validWorktreeName)
    (.value "Worktree name must be 1-48 lowercase letters, digits or hyphens")
  raiseIf (c.action ≠ .prepare ∧ c.named = none) (.value "Delivery identity required")
  raiseIf (c.action = .repair ∧ ¬ goalOk c.goal)
    (.value "Repair goal must contain 1-20000 characters")
  raiseIf (c.action = .repair ∧ ¬ checksOk c.checks)
    (.value "Provide 1-4 explicit acceptance commands")
  raiseIf (c.action = .repair ∧ ¬ (1 ≤ c.maxRounds ∧ c.maxRounds ≤ 3))
    (.value "Repair permits 1-3 candidate verifications")

/-- The checks of `admit` on the delivery as it is. -/
def checkDelivery (c : WebCall) (value : Loaded) : Except PyError Unit := do
  raiseIf (value.prepared.workspaceId ≠ c.workspaceId)
    (.value "Delivery belongs to another project")
  raiseIf value.applied (.value "Delivery already applied")
  raiseIf (c.action = .repair ∧ value.repair.isSome) (.value "Delivery repair already started")
  raiseIf (c.action = .apply ∧ ¬ value.verification.any fun verified =>
      verified.status = .passed ∧ some verified.patchSha256 = c.patchSha256)
    (.value "Passing patch changed; review the latest evidence")

end WebCall

namespace Host

variable {Tree : Type}

/-! ## The Web controller -/

def checkNamedDelivery (s : Host Tree) (c : WebCall) : Except PyError Unit :=
  match c.named with
  | some deliveryId => load s.log deliveryId >>= c.checkDelivery
  | none => .ok ()

/-- `WebDeliveryController.admit`. -/
def admitWeb (s : Host Tree) (task : ℕ) (c : WebCall) : Except PyError (Host Tree) := do
  c.checkArguments
  raiseIf (∃ op ∈ s.tasks.values, op.session = some c.owner) (.value "Delivery operation is busy")
  s.checkNamedDelivery c
  raiseIf (c.runId ∈ s.runs) (.value "Run identity already used")
  raiseIf (s.tasks.contains task) (.runtime "A task has one operation")
  let op : Operation := {
    request := c.request, control := some c.runId, session := some c.owner
    runId := some c.runId, stage := .admitted }
  return {
    (s.emit c.runId (.runAdmitted c.binding)).emit c.runId (.operationAccepted c.accepted) with
    runs := c.runId :: s.runs, tasks := s.tasks.set task op }

/-- `operation(run_id)["accepted"]`. -/
def operationOf (s : Host Tree) (runId : String) : Except PyError Accepted :=
  ((runEvents s.log runId).findSome? Fact.accepted?).elim
    (.error (.value "Delivery operation not found")) .ok

def checkReviewed (s : Host Tree) (accepted : Accepted) : Except PyError Unit :=
  if accepted.action = .apply then do
    let value ← load s.log accepted.deliveryId
    raiseIf (¬ value.verification.any fun verified =>
        some verified.patchSha256 = accepted.patchSha256)
      (.value "Reviewed patch changed before adoption")
  else .ok ()

/-- `WebDeliveryController._execute` up to its call of `execute`. -/
def startWeb (s : Host Tree) (task : ℕ) (op : Operation) : Except PyError (Host Tree) :=
  match op.stage, op.control with
  | .admitted, some runId => do
    let accepted ← s.operationOf runId
    s.checkReviewed accepted
    return s.setStage task { op with request := accepted.toRequest } .called
  | _, _ => notHere

/-! ## `DeliveryController.execute` -/

/-- A call of the Python API. -/
def call (s : Host Tree) (task : ℕ) (request : Request) : Except PyError (Host Tree) := do
  raiseIf (s.tasks.contains task) (.runtime "A task has one operation")
  return { s with tasks := s.tasks.set task { request, stage := .called } }

def checkControl (s : Host Tree) (op : Operation) : Except PyError Unit :=
  match op.control with
  | none => .ok ()
  | some runId =>
    raiseIf (¬ (((runEvents s.log runId).findSome? Fact.binding?).any fun binding =>
          binding.operation = op.request.action ∧ binding.deliveryId = op.deliveryId) ∨
        runIsTerminal s.log runId)
      (.value "Invalid delivery control owner")

/-- `prepare` has no delivery to load. -/
def loadOpen (s : Host Tree) (op : Operation) : Except PyError (Option Loaded) :=
  if op.request.action = .prepare then .ok none
  else do
    let value ← load s.log op.deliveryId
    raiseIf value.applied (.value "Delivery was already applied")
    return some value

/-- From the call to the delivery lock. -/
def enter (s : Host Tree) (task : ℕ) (op : Operation) : Except PyError (Host Tree) :=
  match op.stage with
  | .called => do
    s.checkControl op
    let _ ← s.loadOpen op
    return s.setStage task op .waiting
  | _ => notHere

/-- The run of the operation: the Web's own, or a new one. -/
def ownRun (s : Host Tree) (op : Operation) (value : Option Loaded) (fresh : String) :
    Except PyError (String × List String) :=
  match op.control with
  | some runId => do
    raiseIf (value.any fun value => value.prepared.workspaceId ≠ op.request.target)
      (.value "Delivery control Workspace mismatch")
    return (runId, s.runs)
  | none => do
    raiseIf (fresh ∈ s.runs) (.integrity "runs.run_id")
    return (fresh, fresh :: s.runs)

/-- The lock is taken and the delivery loaded again under it. -/
def acquire (s : Host Tree) (task : ℕ) (op : Operation) (fresh : String) :
    Except PyError (Host Tree) :=
  match op.stage with
  | .waiting => do
    raiseIf (s.locks.contains op.deliveryId) (.runtime "The delivery is locked")
    let value ← s.loadOpen op
    let (runId, runs) ← s.ownRun op value fresh
    let s := { s with runs, locks := s.locks.set op.deliveryId task }
    let s := s.emit runId (.runStarted op.deliveryId op.request.action)
    let s := s.emit runId (.requested op.deliveryId op.request.action)
    return s.setStage task { op with runId := some runId } (.locked value)
  | _ => notHere

/-- `prepare`: the worktree is at `checkout`. -/
def prepare (git : Git Tree) (s : Host Tree) (task : ℕ) (op : Operation) (checkout : String) :
    Except PyError (Host Tree) :=
  match op.stage, op.runId, op.request.name with
  | .locked none, some runId, some name => do
    let receipt ← captureDelivery git s.world op.request.target checkout op.request.protectedPatterns
    let prepared : Prepared :=
      { deliveryId := op.deliveryId, workspaceId := op.request.target, name, receipt }
    return (s.emit runId (.prepared prepared)).setStage task op .finished
  | _, _, _ => notHere

def verifySource (git : Git Tree) (s : Host Tree) (task : ℕ) (op : Operation) :
    Except PyError (Host Tree) :=
  match op.stage with
  | .locked (some value) => do
    verifySourceUnchanged git s.world value.prepared.workspaceId value.prepared.receipt
    repairGate op.request.action value
    return s.setStage task op (.checked value)
  | _ => notHere

/-- The writer of a `run` returns. -/
def worker (s : Host Tree) (task : ℕ) (op : Operation) (workerRunId : String) :
    Except PyError (Host Tree) :=
  match op.stage, op.runId, op.request.action with
  | .checked _, some runId, .run => do
    raiseIf (¬ goalOk op.request.goal) (.value "Worker goal must contain 1-20000 characters")
    return (s.emit runId (.workerFinished op.deliveryId workerRunId)).setStage task op .finished
  | _, _, _ => notHere

/-! ### `_verify` -/

/-- `build_patch` of the delivery's checkout. -/
def candidate (git : Git Tree) (s : Host Tree) (value : Loaded) (receipt : Receipt) :
    Except PyError (Patch × Receipt) :=
  buildPatch git s.world value.prepared.workspaceId receipt.checkout receipt

/-- The patch that the checks will judge. -/
def build (git : Git Tree) (s : Host Tree) (task : ℕ) (op : Operation) :
    Except PyError (Host Tree) :=
  match op.stage with
  | .checked value => do
    raiseIf (op.request.action ≠ .verify) (.runtime "The operation is not at this point")
    raiseIf (¬ checksOk op.request.checks)
      (.value "Verification requires 1-4 explicit commands, at most 2000 characters each")
    let (patch, receipt) ← s.candidate git value value.prepared.receipt
    return s.setStage task op (.verifying value patch receipt)
  | .repairing value (.candidate number workerRunId) => do
    let (patch, receipt) ← s.candidate git value value.prepared.receipt
    return s.setStage task op (.repairing value (.verifying number workerRunId patch receipt))
  | _ => notHere

def saveArtifact (s : Host Tree) (deliveryId hash : String) (patch : Patch) :
    Except PyError (Dict (String × String) Patch) := do
  raiseIf (¬ validPatchHash hash) (.value "Invalid patch identity")
  raiseIf ((s.artifacts.get? (deliveryId, hash)).any fun saved => saved ≠ patch)
    (.value "Existing delivery artifact does not match its identity")
  return s.artifacts.set (deliveryId, hash) patch

/-- `_verify` from its last check to its fact. -/
def verdict (git : Git Tree) (s : Host Tree) (op : Operation) (value : Loaded) (patch : Patch)
    (receipt : Receipt) (results : List CheckResult) :
    Except PyError (Verified × Dict (String × String) Patch) := do
  raiseIf (¬ checksRan op.request.checks results) (.runtime "The operation is not at this point")
  let (afterPatch, afterReceipt) ← s.candidate git value receipt
  raiseIf (afterReceipt.checkoutCheckpoint ≠ receipt.checkoutCheckpoint ∨ afterPatch ≠ patch)
    (.value "Checkout changed during independent verification")
  let artifacts ← s.saveArtifact op.deliveryId (git.sha256 patch) patch
  return ({
    deliveryId := op.deliveryId, status := if checksPassed results then .passed else .failed
    receipt, patchSha256 := git.sha256 patch, checks := results }, artifacts)

/-- The commit of a `delivery.verified`, in a `verify` or in a round of a repair. -/
def verified (git : Git Tree) (s : Host Tree) (task : ℕ) (op : Operation)
    (results : List CheckResult) : Except PyError (Host Tree) :=
  match op.stage, op.runId with
  | .verifying value patch receipt, some runId => do
    let (verified, artifacts) ← s.verdict git op value patch receipt results
    return ({ s with artifacts }.emit runId (.verified verified)).setStage task op .finished
  | .repairing value (.verifying number workerRunId patch receipt), some runId => do
    let (verified, artifacts) ← s.verdict git op value patch receipt results
    return ({ s with artifacts }.emit runId (.verified verified)).setStage task op
      (.repairing value (.judged number workerRunId verified))
  | _, _ => notHere

/-! ### `run_repair` -/

def repairStart (git : Git Tree) (s : Host Tree) (task : ℕ) (op : Operation) :
    Except PyError (Host Tree) :=
  match op.stage, op.runId with
  | .checked value, some runId => do
    raiseIf (op.request.action ≠ .repair) (.runtime "The operation is not at this point")
    raiseIf (¬ goalOk op.request.goal) (.value "Repair goal must contain 1-20000 characters")
    raiseIf (¬ (1 ≤ op.request.maxRounds ∧ op.request.maxRounds ≤ 3))
      (.value "Repair permits 1-3 candidate verifications")
    raiseIf (¬ checksOk op.request.checks)
      (.value "Repair requires 1-4 bounded acceptance commands")
    let (initial, _) ← s.candidate git value value.prepared.receipt
    let contract : Contract := {
      deliveryId := op.deliveryId, controlRunId := runId, checks := op.request.checks
      maxRounds := op.request.maxRounds, initialPatchSha256 := git.sha256 initial }
    return (s.emit runId (.repairStarted contract)).setStage task op
      (.repairing value (.ready 1 (git.sha256 initial)))
  | _, _ => notHere

/-- A round of `execute_rounds`, up to the call of the writer. -/
def roundStart (s : Host Tree) (task : ℕ) (op : Operation) : Except PyError (Host Tree) :=
  match op.stage, op.runId with
  | .repairing value (.ready number previous), some runId => do
    raiseIf (op.request.maxRounds < number) (.runtime "The operation is not at this point")
    return (s.emit runId (.roundStarted op.deliveryId number)).setStage task op
      (.repairing value (.writing number previous))
  | _, _ => notHere

def roundWritten (s : Host Tree) (task : ℕ) (op : Operation) (workerRunId : String) :
    Except PyError (Host Tree) :=
  match op.stage, op.runId with
  | .repairing value (.writing number previous), some runId =>
    .ok ((s.emit runId (.workerFinished op.deliveryId workerRunId)).setStage task op
      (.repairing value (.written number previous workerRunId)))
  | _, _ => notHere

/-- A round without a new patch ends the repair instead. -/
def roundCandidate (git : Git Tree) (s : Host Tree) (task : ℕ) (op : Operation) :
    Except PyError (Host Tree) :=
  match op.stage with
  | .repairing value (.written number previous workerRunId) => do
    let (patch, _) ← s.candidate git value value.prepared.receipt
    raiseIf (git.sha256 patch = previous) (.runtime "The operation is not at this point")
    return s.setStage task op (.repairing value (.candidate number workerRunId))
  | _ => notHere

def roundFinish (s : Host Tree) (task : ℕ) (op : Operation) : Except PyError (Host Tree) :=
  match op.stage, op.runId with
  | .repairing value (.judged number workerRunId verified), some runId =>
    let round : Round := {
      deliveryId := op.deliveryId, round := number, workerRunId
      patchSha256 := verified.patchSha256, status := verified.status, checks := verified.checks }
    .ok ((s.emit runId (.roundFinished round)).setStage task op (.repairing value
      (if verified.status = .passed then .passed else .ready (number + 1) verified.patchSha256)))
  | _, _ => notHere

/-- The `finally` of `run_repair`: a limit, a stop or an exception may end it anywhere, but
only a passed round gives the reason `passed`. -/
def repairFinish (s : Host Tree) (task : ℕ) (op : Operation) (reason : RepairReason) :
    Except PyError (Host Tree) :=
  match op.stage, op.runId with
  | .repairing _ stage, some runId => do
    raiseIf (reason = .passed ∧ stage ≠ .passed) (.runtime "The operation is not at this point")
    let result : RepairResult := {
      deliveryId := op.deliveryId, controlRunId := runId, reason
      verifiedCandidates := ((deliveryFacts s.log op.deliveryId).filterMap Fact.round?).length }
    return (s.emit runId (.repairFinished result)).setStage task op .finished
  | _, _ => notHere

/-! ### `apply` -/

/-- The verified patch and its receipt. -/
def applyInput (s : Host Tree) (op : Operation) (value : Loaded) :
    Except PyError (Patch × Receipt) := do
  let verified ← (value.verification.filter fun verified => verified.status = .passed).elim
    (.error (.value "Delivery has no passing independent verification")) .ok
  let hash ← verified.receipt.patchSha256.elim (.error (.key "patch_sha256")) .ok
  raiseIf (¬ validPatchHash hash) (.value "Invalid patch identity")
  let patch ← (s.artifacts.get? (op.deliveryId, hash)).elim
    (.error (.raised "FileNotFoundError" hash)) .ok
  return (patch, verified.receipt)

/-- What follows `apply_delivery`: its result waits for the fact, an exception ends the run. -/
def adopt (s : Host Tree) (task : ℕ) (op : Operation) :
    Except PyError Applied × (String → Tree) → Host Tree
  | (.ok result, world) => { s with world }.setStage task op (.adopted result)
  | (.error _, world) => ({ s with world }.endRun op .failed).release task op

def applyPatch (git : Git Tree) (s : Host Tree) (task : ℕ) (op : Operation) :
    Except PyError (Host Tree) :=
  match op.stage with
  | .checked value => do
    raiseIf (op.request.action ≠ .apply) (.runtime "The operation is not at this point")
    let (patch, receipt) ← s.applyInput op value
    return s.adopt task op (applyDelivery git s.world value.prepared.workspaceId patch receipt)
  | _ => notHere

/-- The `finally` that writes `delivery.applied`. -/
def emitApplied (s : Host Tree) (task : ℕ) (op : Operation) : Except PyError (Host Tree) :=
  match op.stage, op.runId with
  | .adopted result, some runId =>
    .ok ((s.emit runId (.applied op.deliveryId result)).setStage task op .finished)
  | _, _ => notHere

/-! ### The end of an operation -/

def finish (s : Host Tree) (task : ℕ) (op : Operation) : Except PyError (Host Tree) :=
  match op.stage with
  | .finished => .ok ((s.endRun op .completed).release task op)
  | _ => notHere

/-- An exception or a cancellation; a started repair and an adopted patch write their facts
first. -/
def fail (s : Host Tree) (task : ℕ) (op : Operation) (status : RunEnd) :
    Except PyError (Host Tree) :=
  match op.stage with
  | .repairing _ _ | .adopted _ => notHere
  | _ => .ok ((s.endRun op status).release task op)

/-- The host dies; the next one closes the runs that were left open. -/
def restart (s : Host Tree) : Host Tree :=
  { s with
    log := s.log ++ (s.tasks.values.filterMap Operation.runId).map fun runId =>
      ⟨runId, .runEnded .interrupted⟩
    tasks := Dict.empty
    locks := Dict.empty }

end Host

/-! ## Moves -/

inductive Move (Tree : Type) where
  | admitWeb (task : ℕ) (c : WebCall)
  | startWeb (task : ℕ)
  | call (task : ℕ) (request : Request)
  | enter (task : ℕ)
  | acquire (task : ℕ) (fresh : String)
  | prepare (task : ℕ) (checkout : String)
  | verifySource (task : ℕ)
  | worker (task : ℕ) (workerRunId : String)
  | build (task : ℕ)
  | verified (task : ℕ) (results : List CheckResult)
  | repairStart (task : ℕ)
  | roundStart (task : ℕ)
  | roundWritten (task : ℕ) (workerRunId : String)
  | roundCandidate (task : ℕ)
  | roundFinish (task : ℕ)
  | repairFinish (task : ℕ) (reason : RepairReason)
  | applyPatch (task : ℕ)
  | emitApplied (task : ℕ)
  | finish (task : ℕ)
  | fail (task : ℕ) (status : RunEnd)
  /-- Writers, users and other programs change files at any time. -/
  | edit (path : String) (tree : Tree)
  | restart

variable {Tree : Type}

/-- The task goes on from where it is. -/
def Host.resume (s : Host Tree) (task : ℕ) (go : Operation → Except PyError (Host Tree)) :
    Except PyError (Host Tree) :=
  match s.tasks.get? task with
  | some op => go op
  | none => notHere

def Move.perform (git : Git Tree) (s : Host Tree) : Move Tree → Except PyError (Host Tree)
  | admitWeb task c => s.admitWeb task c
  | call task request => s.call task request
  | startWeb task => s.resume task (s.startWeb task)
  | enter task => s.resume task (s.enter task)
  | acquire task fresh => s.resume task (s.acquire task · fresh)
  | prepare task checkout => s.resume task (s.prepare git task · checkout)
  | verifySource task => s.resume task (s.verifySource git task)
  | worker task workerRunId => s.resume task (s.worker task · workerRunId)
  | build task => s.resume task (s.build git task)
  | verified task results => s.resume task (s.verified git task · results)
  | repairStart task => s.resume task (s.repairStart git task)
  | roundStart task => s.resume task (s.roundStart task)
  | roundWritten task workerRunId => s.resume task (s.roundWritten task · workerRunId)
  | roundCandidate task => s.resume task (s.roundCandidate git task)
  | roundFinish task => s.resume task (s.roundFinish task)
  | repairFinish task reason => s.resume task (s.repairFinish task · reason)
  | applyPatch task => s.resume task (s.applyPatch git task)
  | emitApplied task => s.resume task (s.emitApplied task)
  | finish task => s.resume task (s.finish task)
  | fail task status => s.resume task (s.fail task · status)
  | edit path tree => .ok { s with world := Function.update s.world path tree }
  | restart => .ok s.restart

/-- A host reached from an empty log by moves that `allowed` admits. -/
inductive Reachable (git : Git Tree) (allowed : Host Tree → Move Tree → Prop) : Host Tree → Prop
  | start (world : String → Tree) : Reachable git allowed { world }
  | move {s s' : Host Tree} (m : Move Tree) (hs : Reachable git allowed s) (ha : allowed s m)
      (h : m.perform git s = .ok s') : Reachable git allowed s'

end Delivery

end Eventide
