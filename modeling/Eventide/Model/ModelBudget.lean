import Eventide.Model.Budget
import Eventide.Model.JsonText
import Eventide.Model.RunViews

/-! # ModelBudgetController

The one way from a model request to the ledger: the context of the run that pays, the limits
of a delivery, the reservation with its start fact and the settlement with its finish fact. -/

namespace Eventide

open Outcome

namespace EventType

/-- `type LIKE 'delivery.%'`. -/
def isDelivery : EventType → Bool
  | deliveryPrepared | deliveryVerified | deliveryApplied | deliveryRepairStarted
  | deliveryRepairFinished | deliveryRoundStarted | deliveryRoundFinished => true
  | other name => (name.toList.take 9).map Char.toLower = "delivery.".toList
  | _ => false

end EventType

namespace RuntimeStore

/-- `delivery_facts`. -/
def deliveryFacts (s : RuntimeStore) (deliveryId : String) : List Event :=
  s.events.filter fun e => !e.isPartial && e.type.isDelivery &&
    (e.payload.getNull "delivery_id").pyEq (.str deliveryId)

/-- The payloads of the admissions and the starts of a run. -/
def intents (s : RuntimeStore) (runId : String) : List Json :=
  ((s.runEvents runId).filter fun e => e.type = .runAdmitted ∨ e.type = .runStarted).map
    (·.payload)

end RuntimeStore

/-! ## The context of a run -/

/-- `BudgetContext(...)`, with its checks. -/
def BudgetContext.make (record : ContextRecord) : Except PyError BudgetContext :=
  if h : record.projectId.all validText = true ∧ validText record.rootRunId = true ∧
      record.deliveryId.all validText = true then .ok { record with valid := h }
  else if !record.projectId.all validText then .error (.value "Invalid project identity")
  else if !validText record.rootRunId then .error (.value "Invalid root Run identity")
  else .error (.value "Invalid delivery identity")

/-- `[a-z0-9]` of a delivery identity, `delivery_[a-f0-9]{16}`. -/
def isDeliveryIdentity (text : String) : Bool :=
  text.toList.take 9 = "delivery_".toList && (text.toList.drop 9).length = 16 &&
    (text.toList.drop 9).all fun c => c.isDigit || ('a' ≤ c && c ≤ 'f')

/-- A text that the names of a set were collected from. -/
def textsOf (field : String) (values : List Json) : Except PyError (List String) :=
  values.mapM fun value => value.str?.elim (.error (.type field)) .ok

namespace RuntimeStore

/-- `is_delivery_control_run`. -/
def isDeliveryControlRun (s : RuntimeStore) (runId : String) : Except PyError Bool :=
  match s.getRunIdentity runId with
  | none => .ok false
  | some (run, _) =>
    let intent := (((s.runEvents runId).find? (·.type = .runAdmitted)).map (·.payload)).getD
      (.obj [])
    match s.getSession run.sessionId with
    | none => .ok false
    | some session =>
      if !(intent.getNull "source").pyEq (.str "delivery") then .ok false
      else do
        let workspace ← s.getWorkspace session.workspaceId
        let binding := (intent.get? "execution_binding").getD (.obj [])
        let control := Json.obj [("kind", .str "delivery"), ("project_id", .str workspace.projectId)]
        return (binding.getNull "kind").pyEq (.str "delivery") &&
          ["prepare", "repair", "apply"].any (fun operation =>
            (binding.getNull "operation").pyEq (.str operation)) &&
          ((binding.getNull "delivery_id").str?.any isDeliveryIdentity) &&
          (binding.getNull "workspace_id").pyEq (.str workspace.workspaceId) &&
          (intent.getNull "workspace_id").pyEq (.str workspace.workspaceId) &&
          (intent.getNull "project_id").pyEq (.str workspace.projectId) &&
          (s.sessionEvents run.sessionId).any fun e =>
            e.type = .controlSession && e.payload.pyEq control

/-- The session and the workspace of a run that may pay. -/
def budgetOwner (s : RuntimeStore) (runId : String) : Except PyError WorkspaceRecord :=
  match (s.getRunIdentity runId).bind fun p => s.getSession p.1.sessionId with
  | none => .error (.value "Missing budget owner")
  | some session => s.getWorkspace session.workspaceId

/-- The parents that the admissions of a run name. -/
def parentsNamed (intents : List Json) : Except PyError (List String) := do
  let parents ← textsOf "parent_run_id"
    ((intents.map (·.getNull "parent_run_id")).filter (·.truthy))
  return parents.dedup

/-- The deliveries that the admissions of a run write for. -/
def deliveriesNamed (intents : List Json) : Except PyError (List String) := do
  let ids ← textsOf "writer_delivery_id"
    ((intents.map fun intent =>
      ((intent.get? "execution_config").getD (.obj [])).getNull "writer_delivery_id").filter
        (·.truthy))
  return ids.dedup

/-- A run that writes for a delivery owns its checkout, or is its repair. -/
def checkDeliveryOwner (s : RuntimeStore) (workspace : WorkspaceRecord) (runId : String)
    (intents : List Json) (deliveryId : String) : Except PyError Unit :=
  match (s.deliveryFacts deliveryId).filter (·.type = .deliveryPrepared) with
  | [prepared] => do
    let workspaceId ← prepared.payload.readField Json.str? "workspace_id"
    let source ← s.getWorkspace workspaceId
    raiseIf (source.projectId ≠ workspace.projectId) (.value "Delivery project identity mismatch")
    let receipt ← prepared.payload.require "receipt"
    let checkout ← receipt.require "checkout"
    let control ← s.isDeliveryControlRun runId
    raiseIf (¬ checkout.pyEq (.str workspace.path) ∧ (control = false ∨
        ¬ (intents.any fun intent =>
          (((intent.get? "execution_binding").getD (.obj [])).getNull "operation").pyEq
            (.str "repair")) ∨ source.workspaceId ≠ workspace.workspaceId))
      (.value "Run does not own the delivery checkout")
  | _ => .error (.value "Missing delivery budget owner")

/-- The delivery that the root run writes for. -/
def deliveryOwned (s : RuntimeStore) (workspace : WorkspaceRecord) (runId : String)
    (intents : List Json) : Except PyError (Option String) := do
  let ids ← deliveriesNamed intents
  raiseIf (1 < ids.length) (.value "Conflicting delivery identity")
  match ids.head? with
  | none => return none
  | some deliveryId =>
    s.checkDeliveryOwner workspace runId intents deliveryId
    return some deliveryId

/-- `while True`, up the parents of a run. Each round visits a new run of the store. -/
def contextOf (s : RuntimeStore) : ℕ → List String → Option String → String →
    Except PyError BudgetContext
  | 0, _, _, _ => .error (.value "Cyclic parent Run identity")
  | fuel + 1, visited, projectId, ancestor => do
    raiseIf (ancestor ∈ visited) (.value "Cyclic parent Run identity")
    let workspace ← s.budgetOwner ancestor
    let intents := s.intents ancestor
    raiseIf (intents = []) (.value "Run has no admitted budget owner")
    raiseIf (intents.any fun intent =>
        !((intent.get? "project_id").getD (.str workspace.projectId)).pyEq
          (.str workspace.projectId))
      (.value "Admitted project identity mismatch")
    raiseIf (projectId.any (· ≠ workspace.projectId)) (.value "Child Run changed project ownership")
    let parents ← parentsNamed intents
    raiseIf (1 < parents.length) (.value "Conflicting parent Run identity")
    match parents.head? with
    | some parent => s.contextOf fuel (ancestor :: visited) (some workspace.projectId) parent
    | none =>
      let deliveryId ← s.deliveryOwned workspace ancestor intents
      BudgetContext.make
        { projectId := some workspace.projectId, rootRunId := ancestor, deliveryId }

/-- `context`. -/
def budgetContext (s : RuntimeStore) (runId : String) : Except PyError (String × BudgetContext) :=
  match s.getRunIdentity runId with
  | none => .error (.value "Run not found")
  | some (run, _) =>
    (if isServiceProbeRun s runId (s.sessionEvents run.sessionId) then
      BudgetContext.make { projectId := none, rootRunId := runId }
    else s.contextOf (s.runs.length + 2) [] none runId).map (run.sessionId, ·)

/-! ## Delivery limits -/

/-- `MODEL_FACTS`. -/
def modelFacts : List EventType := [.modelAttemptStarted, .modelAttemptFinished]

/-- The attempts whose reservation names the delivery. -/
def deliveryAttempts (s : RuntimeStore) (deliveryId : String) : Except PyError (List String) := do
  let reservations ← (s.factsByType [.budgetReserved]).mapM fun e => Reservation.ofJson e.payload
  return (reservations.filter (·.context.deliveryId = some deliveryId)).map (·.attemptId)

/-- `delivery_usage`. -/
def deliveryUsage (s : RuntimeStore) (deliveryId : String) : Except PyError UsageLedger := do
  let attempts ← s.deliveryAttempts deliveryId
  let facts := (s.factsByType modelFacts).filter fun e =>
    attempts.any fun id => (e.payload.getNull "attempt_id").pyEq (.str id)
  buildUsageLedger (facts.map fun e => { toEvent := e })

end RuntimeStore

def isEmbedding (kind : Json) : Bool := kind.pyEq (.str "embedding")

/-- The tokens that the attempts of a ledger report. -/
def UsageLedger.reportedTokens (ledger : UsageLedger) : ℕ :=
  (ledger.reportedTotals.get? "input_tokens").getD 0 +
    (ledger.reportedTotals.get? "output_tokens").getD 0

def UsageLedger.modelAttempts (ledger : UsageLedger) : ℕ :=
  ledger.calls.countP fun call => !isEmbedding call.kind

/-- A number that is compared. -/
def Json.readNumber (value : Json) (name : String) : Except PyError ℚ :=
  value.readField Json.number? name

namespace RuntimeStore

/-- The status of the run that owns a delivery's repair lets it go on. -/
def ownerRuns (s : RuntimeStore) (started : Json) : Except PyError Bool := do
  let runId ← started.readField Json.str? "control_run_id"
  let owner ← s.getRunSummary runId
  return owner.any fun owner => ["running", "queued"].any fun status =>
    ((owner.get? "status").getD .null).pyEq (.str status)

/-- `delivery_limit_reason`, of a delivery whose repair has started. -/
def startedLimitReason (s : RuntimeStore) (clock : ℚ) (deliveryId : String) (started kind : Json)
    (admission : Bool) : Except PyError (Option String) := do
  if admission && (s.deliveryFacts deliveryId).any (·.type = .deliveryRepairFinished) then
    return some "delivery_closed"
  let runs ← s.ownerRuns started
  if admission && !runs then return some "delivery_owner_stopped"
  let deadline ← started.readNumber "deadline"
  if deadline ≤ clock then return some "delivery_time_limit"
  let ledger ← s.deliveryUsage deliveryId
  let limits ← started.require "limits"
  let observedTokens ← limits.readNumber "observed_tokens"
  if observedTokens ≤ ledger.reportedTokens then return some "delivery_token_limit"
  let modelAttempts ← limits.readNumber "model_attempts"
  if admission && !isEmbedding kind && decide (modelAttempts ≤ ledger.modelAttempts) then
    return some "delivery_step_limit"
  return none

/-- The payload of the first `delivery.repair_started`. -/
def repairStarted (s : RuntimeStore) (deliveryId : String) : Option Json :=
  ((s.deliveryFacts deliveryId).find? (·.type = .deliveryRepairStarted)).map (·.payload)

/-- `delivery_limit_reason`. -/
def deliveryLimitReason (s : RuntimeStore) (clock : ℚ) (deliveryId : String)
    (kind : Json := .str "agent") (admission : Bool := true) : Except PyError (Option String) :=
  match s.repairStarted deliveryId with
  | none => .ok none
  | some started => s.startedLimitReason clock deliveryId started kind admission

/-- `enforce_delivery_request`. -/
def enforceDeliveryRequest (s : RuntimeStore) (clock : ℚ) (deliveryId : Option String)
    (kind : Json) : Except PyError Unit :=
  match deliveryId with
  | none => .ok ()
  | some deliveryId => do
    let reason ← s.deliveryLimitReason clock deliveryId kind
    match reason with
    | none => return ()
    | some reason => throw <| .budgetExceeded [.obj [
        ("scope", .obj [("kind", .str "delivery"), ("identity", .str deliveryId)]),
        ("reason", .str reason)]]

end RuntimeStore

/-! ## Requests -/

structure ModelRequest where
  system : String
  messages : Json
  tools : Json
  model : String
  maxTokens : ℤ := 8000
  generation : Json := .obj []
  phase : Option String := none

/-- What is measured of a request: the text of its floats, and `measure_input_composition`. -/
structure Measure where
  floatText : ℚ → List Char
  inputComposition : ModelRequest → Json

/-- `len(text.encode("utf-8"))`. -/
def utf8Bytes (text : List Char) : ℕ := (text.map Char.utf8Size).sum

/-- The input estimate of `estimate_request`. -/
def ModelRequest.inputEstimate (request : ModelRequest) (measure : Measure) : ℕ :=
  utf8Bytes <| Json.dumps measure.floatText <| .obj [("system", .str request.system),
    ("messages", request.messages), ("tools", request.tools)]

def LedgerReply.asReceipt : LedgerReply → Except PyError Receipt
  | .receipt value => .ok value
  | .bucket _ => .error (.type "ReservationReceipt")

/-- What a reservation takes from outside, with the clock that the delivery's limits read. -/
structure BeginContext extends LedgerCall.Context where
  clock : ℚ
  measure : Measure

/-- What a settlement takes from outside. `estimate_cost` decides on the committed facts and
adds estimates alone. -/
structure FinishContext extends LedgerCall.Context where
  costs : Env
  estimateCost : List Event → Except PyError (List Json)

namespace RuntimeStore

/-- The arguments of the reservation of `begin`, past the limits of its delivery. -/
def beginArgs (s : RuntimeStore) (context : BeginContext) (runId : String)
    (request : ModelRequest) (identity : Json) : Except PyError ReserveArgs := do
  let (sessionId, owner) ← s.budgetContext runId
  let kind ← identity.require "kind"
  s.enforceDeliveryRequest context.clock owner.deliveryId kind
  let attemptId ← identity.readField Json.str? "attempt_id"
  return {
    sessionId, runId, attemptId, context := owner
    inputEstimate := Json.ofNat (request.inputEstimate context.measure)
    outputEstimate := .int request.maxTokens
    estimateMethod := "serialized_utf8_bytes_v1"
    attemptStarted := some (identity.merge
      (.obj [("input_composition", context.measure.inputComposition request)])) }

/-- The arguments of the reservation of `begin_embedding`. -/
def beginEmbeddingArgs (s : RuntimeStore) (context : BeginContext) (runId : String)
    (texts : List String) (identity : Json) : Except PyError ReserveArgs := do
  raiseIf (!isEmbedding (identity.getNull "kind") ||
      !(identity.getNull "usage_basis").pyEq (.str "input_only"))
    (.value "Embedding attempts must declare their input-only usage basis")
  raiseIf (texts = []) (.value "Embedding input must be a non-empty list of strings")
  let (sessionId, owner) ← s.budgetContext runId
  s.enforceDeliveryRequest context.clock owner.deliveryId (.str "embedding")
  let attemptId ← identity.readField Json.str? "attempt_id"
  return {
    sessionId, runId, attemptId, context := owner
    inputEstimate := Json.ofNat <| utf8Bytes <| Json.dumps context.measure.floatText <|
      .obj [("input", .arr (texts.map .str))]
    outputEstimate := .int 0
    estimateMethod := "embedding_serialized_utf8_bytes_v1"
    usageBasis := "input_only"
    attemptStarted := some (identity.merge (.obj [("input_composition", .null)])) }

def reserveWith (s : RuntimeStore) (context : BeginContext) (args : Except PyError ReserveArgs) :
    Except PyError Receipt × RuntimeStore :=
  match args with
  | .error error => (.error error, s)
  | .ok args =>
    match (LedgerCall.reserve args).perform s context.toContext with
    | (.ok (.receipt receipt, _), t) => (.ok receipt, t)
    | (.ok (.bucket _, _), _) => (.error (.type "ReservationReceipt"), s)
    | (.error error, t) => (.error error, t)

/-- `begin`. -/
def beginAttempt (s : RuntimeStore) (context : BeginContext) (runId : String)
    (request : ModelRequest) (identity : Json) : Except PyError Receipt × RuntimeStore :=
  s.reserveWith context (s.beginArgs context runId request identity)

/-- `begin_embedding`. -/
def beginEmbedding (s : RuntimeStore) (context : BeginContext) (runId : String)
    (texts : List String) (identity : Json) : Except PyError Receipt × RuntimeStore :=
  s.reserveWith context (s.beginEmbeddingArgs context runId texts identity)

/-- `identity.get("usage")`, as `settle` takes it. -/
def usageOf (identity : Json) : Except PyError (Option (Dict String Json)) :=
  match identity.getNull "usage" with
  | .obj fields => .ok (some (Dict.ofLookup fields))
  | usage => if usage.truthy then .error (.type "usage") else .ok none

/-- The arguments of the settlement of `finish`. -/
def finishArgs (s : RuntimeStore) (runId : String) (identity : Json) :
    Except PyError SettleArgs := do
  let (run, _) ← (s.getRunIdentity runId).elim (.error (.value "Run not found")) .ok
  let attemptId ← identity.readField Json.str? "attempt_id"
  let usage ← usageOf identity
  return {
    sessionId := run.sessionId, attemptId, usage
    source := if (identity.getNull "usage").truthy then "reported" else "unknown"
    runId := some runId, attemptFinished := some identity }

/-- `estimate_cost`, a transaction of its own after the settlement. -/
def estimateCost (s : RuntimeStore) (context : FinishContext) (sessionId : String) :
    Except PyError Unit × RuntimeStore :=
  s.transactFacts context.costs sessionId
    [.budgetReserved, .budgetSettled, .priceRegistered, .costEstimated] fun events => do
      let estimates ← context.estimateCost events
      return ((), estimates.map fun estimate => (.costEstimated, estimate))

/-- `finish`. -/
def finishAttempt (s : RuntimeStore) (context : FinishContext) (runId : String) (identity : Json) :
    Except PyError Receipt × RuntimeStore :=
  match s.finishArgs runId identity with
  | .error error => (.error error, s)
  | .ok args =>
    match (LedgerCall.settle args).perform s context.toContext with
    | (.error error, t) => (.error error, t)
    | (.ok reply, t) =>
      (t.estimateCost context args.sessionId).map (· >>= fun _ => reply.1.asReceipt) id

end RuntimeStore

end Eventide
