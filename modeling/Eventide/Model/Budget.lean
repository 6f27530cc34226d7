import Eventide.Model.BudgetFacts

/-! # BudgetLedger

Every operation is one `transact_facts`: it rebuilds the state of the ledger from the committed
facts, decides on it, and appends what it decides. A decision is returned together with the
state that the operation holds in memory after its own update. -/

namespace Eventide

open Outcome RuntimeStore

/-- `BUDGET_FACTS`. -/
def budgetFacts : List EventType := [.budgetConfigured, .budgetReserved, .budgetSettled, .budgetResolved]

structure BudgetItem where
  reservation : Reservation
  settlement : Option Settlement := none
  resolution : Option Resolution := none
  deriving Inhabited

/-- `_change_key`. -/
inductive Change where
  | settled (payload : Settlement)
  | resolved (payload : Resolution)

def Change.same : Change → Change → Bool
  | settled p, settled q => p.same q
  | resolved p, resolved q => p = q
  | _, _ => false

/-- What `_projection` returns. -/
structure BudgetState where
  limits : Dict ScopeRecord (Option ℕ) := Dict.empty
  requests : Dict String Configured := Dict.empty
  reservations : Dict String BudgetItem := Dict.empty
  seenChanges : List Change := []

namespace BudgetState

def seen (st : BudgetState) (change : Change) : Bool := st.seenChanges.any (·.same change)

def applyConfigured (st : BudgetState) (p : Configured) : Except PyError BudgetState :=
  match st.requests.get? p.requestId with
  | some prior => do
    raiseIf (prior ≠ p) (.value "Conflicting budget configuration replay")
    return st
  | none => .ok { st with
      requests := st.requests.set p.requestId p
      limits := st.limits.set p.scope p.tokenLimit }

def applyReserved (st : BudgetState) (r : Reservation) : Except PyError BudgetState :=
  match st.reservations.get? r.attemptId with
  | some prior => do
    raiseIf (prior.reservation ≠ r) (.value "Conflicting budget reservation replay")
    return st
  | none => .ok { st with
      reservations := st.reservations.set r.attemptId { reservation := r } }

def applySettled (st : BudgetState) (p : Settlement) : Except PyError BudgetState :=
  if st.seen (.settled p) then .ok st
  else match st.reservations.get? p.attemptId with
    | none => .error (.value "Settlement has no reservation")
    | some item => do
      raiseIf (item.settlement.any fun prior =>
          !prior.same p && (prior.actualTokens.isSome || p.actualTokens.isNone))
        (.value "Conflicting budget settlement replay")
      return { st with
        seenChanges := st.seenChanges ++ [.settled p]
        reservations := st.reservations.set p.attemptId { item with settlement := some p } }

def applyResolved (st : BudgetState) (p : Resolution) : Except PyError BudgetState :=
  if st.seen (.resolved p) then .ok st
  else match st.reservations.get? p.attemptId with
    | none => .error (.value "Settlement has no reservation")
    | some item => do
      raiseIf (item.resolution.any (· ≠ p)) (.value "Conflicting budget settlement replay")
      return { st with
        seenChanges := st.seenChanges ++ [.resolved p]
        reservations := st.reservations.set p.attemptId { item with resolution := some p } }

def step (st : BudgetState) (event : Event) : Except PyError BudgetState :=
  match event.type with
  | .budgetConfigured => Configured.ofJson event.payload >>= st.applyConfigured
  | .budgetReserved => Reservation.ofJson event.payload >>= st.applyReserved
  | .budgetSettled => Settlement.ofJson event.payload >>= st.applySettled
  | .budgetResolved => Resolution.ofJson event.payload >>= st.applyResolved
  | _ => .ok st

end BudgetState

/-- `_projection`. -/
def budgetProjection (events : List Event) : Except PyError BudgetState :=
  events.foldlM BudgetState.step {}

/-! ## Amounts -/

structure Amount where
  held : ℕ
  actual : Option ℕ
  status : String

/-- What a partial report has already counted. -/
def Settlement.observed (p : Settlement) : ℕ :=
  if p.usageSource = "reported" then
    (p.usage.get? "input_tokens").getD 0 + (p.usage.get? "output_tokens").getD 0
  else 0

/-- `_amount`. -/
def BudgetItem.amount (item : BudgetItem) : Amount :=
  match item.resolution with
  | some resolution => ⟨0, some resolution.actualTokens, "manually_resolved"⟩
  | none => match item.settlement.bind (·.actualTokens) with
    | some actual => ⟨0, some actual, "settled"⟩
    | none =>
      ⟨max item.reservation.reservedTokens ((item.settlement.map (·.observed)).getD 0), none,
        "unsettled"⟩

structure Bucket where
  scope : ScopeRecord
  tokenLimit : Option ℕ
  actualTokens : ℕ
  reservedTokens : ℕ
  committedTokens : ℕ
  unsettledAttempts : ℕ
  remainingTokens : Option ℕ
  warning : Bool
  blocked : Bool

def BudgetItem.inScope (scope : ScopeRecord) (item : BudgetItem) : Bool :=
  scope ∈ item.reservation.scopes

/-- `_bucket`. -/
def BudgetState.bucket (st : BudgetState) (scope : ScopeRecord) : Bucket :=
  let amounts := (st.reservations.values.filter (BudgetItem.inScope scope)).map BudgetItem.amount
  let actual := (amounts.map fun a => a.actual.getD 0).sum
  let held := (amounts.map (·.held)).sum
  let limit := (st.limits.get? scope).join
  let committed := actual + held
  { scope, tokenLimit := limit, actualTokens := actual, reservedTokens := held
    committedTokens := committed
    unsettledAttempts := amounts.countP (·.actual.isNone)
    remainingTokens := limit.map (· - committed)
    warning := limit.any fun limit => 4 * limit ≤ 5 * committed
    blocked := limit.any (· ≤ committed) }

def Bucket.fields (b : Bucket) : List (String × Json) :=
  [("kind", .str b.scope.kind), ("identity", .str b.scope.identity),
    ("token_limit", Json.ofOption Json.ofNat b.tokenLimit),
    ("actual_tokens", Json.ofNat b.actualTokens),
    ("reserved_tokens", Json.ofNat b.reservedTokens),
    ("committed_tokens", Json.ofNat b.committedTokens),
    ("unsettled_attempts", Json.ofNat b.unsettledAttempts),
    ("remaining_tokens", Json.ofOption Json.ofNat b.remainingTokens),
    ("warning", .bool b.warning), ("blocked", .bool b.blocked)]

/-- `ReservationReceipt`. -/
structure Receipt where
  attemptId : String
  runId : String
  status : String
  reservedTokens : ℕ
  actualTokens : Option ℕ
  usageSource : String
  buckets : List Bucket
  warnings : List Bucket

/-- `_receipt`, for the item that `state["reservations"][attempt_id]` finds. -/
def BudgetState.receipt (st : BudgetState) (attemptId : String) (item : BudgetItem) : Receipt :=
  let amount := item.amount
  let buckets := item.reservation.scopes.map st.bucket
  { attemptId, runId := item.reservation.runId, status := amount.status
    reservedTokens := item.reservation.reservedTokens, actualTokens := amount.actual
    usageSource := (item.settlement.map (·.usageSource)).getD "unknown"
    buckets, warnings := buckets.filter (·.warning) }

/-! ## Operations -/

/-- What an operation returns, and the state it held when it returned. -/
structure Decision (α : Type) where
  reply : α
  state : BudgetState
  additions : List (EventType × Json)

structure ConfigureArgs where
  sessionId : String
  scope : BudgetScope
  tokenLimit : Json
  requestId : String

/-- `token_limit`, which `None` lifts. -/
def limitOf : Json → Except PyError (Option ℕ)
  | .null => .ok none
  | value => (checkCount value "token_limit").map some

/-- The payload of `configure`, with its checks. -/
def ConfigureArgs.payload (args : ConfigureArgs) : Except PyError Configured := do
  let tokenLimit ← limitOf args.tokenLimit
  let requestId ← checkText args.requestId "request identity"
  return { requestId, scope := args.scope.record, tokenLimit }

def decideConfigure (payload : Configured) (events : List Event) :
    Except PyError (Decision Bucket) := do
  let st ← budgetProjection events
  match st.requests.get? payload.requestId with
  | some prior => do
    raiseIf (prior ≠ payload)
      (.value "Budget request identity was reused with different content")
    return ⟨st.bucket payload.scope, st, []⟩
  | none =>
    let st' := { st with limits := st.limits.set payload.scope payload.tokenLimit }
    return ⟨st'.bucket payload.scope, st', [(.budgetConfigured, payload.toJson)]⟩

/-- `is_service_probe_run`, over the facts given. -/
def isServiceProbeRun (s : RuntimeStore) (runId : String) (events : List Event) : Bool :=
  match s.getRunIdentity runId with
  | none => false
  | some (run, continuationOf) =>
    let controls := (events.filter fun e =>
      e.sessionId = run.sessionId ∧ e.type = .controlSession).map (·.payload)
    let runs := events.filter (·.runId = some runId)
    let starts := (runs.filter (·.type = .runStarted)).map (·.payload)
    !continuationOf.any (· ≠ "") &&
    (match controls with
      | [control] => (control.getNull "kind").pyEq (.str "connection_probe")
      | _ => false) &&
    (match starts with
      | [start] => (start.getNull "source").pyEq (.str "connection_probe") &&
        (start.getNull "billing_scope").pyEq (.str "service") &&
        (start.getNull "project_id").pyEq .null
      | _ => false) &&
    !runs.any (·.type = .runAdmitted) &&
    !runs.any fun e => (e.payload.getNull "parent_run_id").truthy ||
      (e.payload.getNull "delivery_id").truthy ||
      ((e.payload.getNull "execution_config").getNull "writer_delivery_id").truthy

/-- The parent that an admission or a start names for its run. -/
def parentsStep (parents : Dict String String) (e : Event) :
    Except PyError (Dict String String) :=
  match givenRun e.runId with
  | none => .ok parents
  | some r =>
    let parent := e.payload.getNull "parent_run_id"
    if (e.type = .runAdmitted ∨ e.type = .runStarted) ∧ parent.truthy then
      match parent with
      | .str parent => do
        raiseIf ((parents.get? r).any (· ≠ parent)) (.value "Conflicting parent Run identity")
        return parents.set r parent
      | _ => .error (.type "parent_run_id")
    else .ok parents

/-- The dictionary `parents` of `_validate_context`. -/
def parentsOf (events : List Event) : Except PyError (Dict String String) :=
  events.foldlM parentsStep Dict.empty

/-- `while ancestor in parents`. Each round visits a new key of `parents`. -/
def ancestorOf (s : RuntimeStore) (parents : Dict String String) :
    ℕ → List String → String → Except PyError String
  | 0, _, _ => .error (.value "Cyclic parent Run identity")
  | fuel + 1, visited, ancestor =>
    match parents.get? ancestor with
    | none => .ok ancestor
    | some parent => do
      raiseIf (ancestor ∈ visited) (.value "Cyclic parent Run identity")
      raiseIf ((s.getRunIdentity parent).isNone) (.value "Missing parent Run")
      ancestorOf s parents fuel (ancestor :: visited) parent

/-- `_validate_context`. -/
def validateContext (s : RuntimeStore) (sessionId runId : String) (context : ContextRecord)
    (events : List Event) (st : BudgetState) : Except PyError Unit := do
  raiseIf (¬ (s.getRunIdentity runId).any fun p => p.1.sessionId = sessionId)
    (.value "Run/session identity mismatch")
  raiseIf (context.projectId.isNone ∧ (context.rootRunId ≠ runId ∨ context.deliveryId.isSome ∨
      !isServiceProbeRun s runId events))
    (.value "Only a standalone connection probe can omit project ownership")
  let parents ← parentsOf events
  let ancestor ← ancestorOf s parents (parents.keys.length + 1) [] runId
  raiseIf (ancestor ≠ context.rootRunId) (.value "Budget root must be the actual root Run")
  raiseIf (∃ item ∈ st.reservations.values,
      item.reservation.context.rootRunId = context.rootRunId ∧
        item.reservation.context ≠ context)
    (.value "A Run family cannot change budget ownership")

/-- A `datetime` argument, as the instant it names. -/
structure Timestamp where
  micros : ℤ
  aware : Bool := true

/-- A reading of the clock, of a year that `%Y` writes with four digits. -/
structure Instant where
  micros : ℤ
  valid : validText (utcDay micros) = true ∧ validDay (utcDay micros) = true

/-- `utc_time`. -/
def utcTime (at? : Option Timestamp) (now : Instant) : Except PyError ℤ :=
  match at? with
  | none => .ok now.micros
  | some t => do
    raiseIf (!t.aware) (.value "An explicit UTC offset is required")
    return t.micros

structure ReserveArgs where
  sessionId : String
  runId : String
  attemptId : String
  context : BudgetContext
  inputEstimate : Json
  outputEstimate : Json
  estimateMethod : String
  at? : Option Timestamp := none
  attemptStarted : Option Json := none
  usageBasis : String := "input_output"

/-- `attempt.get("usage_basis", "input_output") != basis`. -/
def otherBasis (attempt : Json) (basis : String) : Bool :=
  !((attempt.get? "usage_basis").getD (.str "input_output")).pyEq (.str basis)

/-- The checks of `reserve`, and its payload but for the time. -/
def ReserveArgs.request (args : ReserveArgs) : Except PyError Reservation := do
  let attemptId ← checkText args.attemptId "attempt identity"
  raiseIf (args.attemptStarted.any fun started =>
      !(started.getNull "attempt_id").pyEq (.str attemptId))
    (.value "Model attempt identity mismatch")
  let _ ← usageTotalFields (.str args.usageBasis)
  raiseIf (args.usageBasis = "input_only" ∧ (!args.outputEstimate.pyEq (.int 0) ∨
      ¬ args.attemptStarted.any fun started => (started.getNull "kind").pyEq (.str "embedding")))
    (.value "Input-only reservations require an embedding attempt without output")
  raiseIf (args.attemptStarted.any fun started => otherBasis started args.usageBasis)
    (.value "Model attempt usage basis mismatch")
  let runId ← checkText args.runId "Run identity"
  let inputEstimate ← checkCount args.inputEstimate "input estimate"
  let outputEstimate ← checkCount args.outputEstimate "output estimate"
  let estimateMethod ← checkText args.estimateMethod "estimate method"
  return {
    attemptId, runId, sessionId := args.sessionId, context := args.context.toContextRecord
    inputEstimate, outputEstimate, estimateMethod
    reservedTokens := inputEstimate + outputEstimate
    reservedAt := "", scopes := []
    usageBasis := if args.usageBasis = "input_output" then none else some args.usageBasis }

/-- The payload of `reserve`. -/
def ReserveArgs.payload (args : ReserveArgs) (now : Instant) : Except PyError Reservation := do
  let micros ← utcTime args.at? now
  let request ← args.request
  let scopes ← request.context.scopes request.runId micros
  return { request with reservedAt := isoformat micros, scopes }

/-- The fields of a replayed reservation that must not change besides its basis. -/
def Reservation.sameRequest (a b : Reservation) : Bool :=
  a.attemptId = b.attemptId && a.runId = b.runId && a.sessionId = b.sessionId &&
    a.context = b.context && a.inputEstimate = b.inputEstimate &&
    a.outputEstimate = b.outputEstimate && a.estimateMethod = b.estimateMethod &&
    a.reservedTokens = b.reservedTokens

/-- The scopes whose limit a new reservation would pass. -/
def BudgetState.violations (st : BudgetState) (r : Reservation) : List Bucket :=
  (r.scopes.map st.bucket).filter fun b =>
    b.tokenLimit.any fun limit => limit < b.committedTokens + r.reservedTokens ∨ b.blocked

def Bucket.violation (b : Bucket) (requested : ℕ) : Json :=
  .obj (b.fields ++ [("requested_tokens", Json.ofNat requested)])

def decideReserve (s : RuntimeStore) (args : ReserveArgs) (payload : Reservation)
    (events : List Event) : Except PyError (Decision Receipt) := do
  let st ← budgetProjection events
  match st.reservations.get? payload.attemptId with
  | some item => do
    raiseIf (item.reservation.basis ≠ args.usageBasis)
      (.value "Attempt identity was reused with different usage basis")
    -- Time is assigned at first reservation, not by a replay.
    raiseIf (!item.reservation.sameRequest payload)
      (.value "Attempt identity was reused with different content")
    raiseIf (args.at?.isSome ∧ item.reservation.reservedAt ≠ payload.reservedAt)
      (.value "Attempt identity was reused with a different timestamp")
    return ⟨st.receipt payload.attemptId item, st, []⟩
  | none => do
    validateContext s payload.sessionId payload.runId payload.context events st
    let violations := st.violations payload
    raiseIf (violations ≠ [])
      (.budgetExceeded (violations.map (·.violation payload.reservedTokens)))
    let item : BudgetItem := { reservation := payload }
    let st' := { st with reservations := st.reservations.set payload.attemptId item }
    return ⟨st'.receipt payload.attemptId item, st', (.budgetReserved, payload.toJson) ::
      match args.attemptStarted with
      | some started => [(.modelAttemptStarted, started)]
      | none => []⟩

/-- `_owned`. -/
def BudgetState.owned (st : BudgetState) (sessionId attemptId : String) :
    Except PyError BudgetItem :=
  match st.reservations.get? attemptId with
  | none => .error (.value "Unknown attempt reservation")
  | some item => do
    raiseIf (item.reservation.sessionId ≠ sessionId) (.value "Attempt/session identity mismatch")
    return item

structure SettleArgs where
  sessionId : String
  attemptId : String
  usage : Option (Dict String Json)
  source : String := "reported"
  runId : Option String := none
  attemptFinished : Option Json := none

/-- `dict(usage or {})`, once every counter is checked. -/
def checkCounters (usage : Dict String Json) : Except PyError (Dict String ℕ) := do
  let counters ← usage.entries.mapM fun p => do
    let key ← checkText p.1 "usage category"
    let n ← checkCount p.2 p.1
    return (key, n)
  return Dict.ofLookup counters

/-- The counters of `settle`, with its checks. -/
def SettleArgs.observed (args : SettleArgs) : Except PyError (Dict String ℕ) := do
  raiseIf (args.attemptFinished.any fun finished =>
      args.runId.isNone || !(finished.getNull "attempt_id").pyEq (.str args.attemptId))
    (.value "Model attempt identity mismatch")
  raiseIf (args.source ∉ ["reported", "estimated", "unknown"]) (.value "Unknown usage source")
  let observed := args.usage.getD Dict.empty
  raiseIf (args.source = "unknown" ∧ observed.entries ≠ [])
    (.value "Unknown usage cannot contain counters")
  let counters ← checkCounters observed
  let _ ← checkText args.attemptId "attempt identity"
  return counters

/-- The payload of `settle` for a reservation's basis. -/
def SettleArgs.payload (args : SettleArgs) (observed : Dict String ℕ) (basis : String) :
    Except PyError Settlement := do
  let snapshot ← usageSnapshot (countersJson observed) (.str args.source) (.str basis)
  let totals ← usageTotalFields (.str basis)
  return {
    attemptId := args.attemptId
    usage := observed
    usageSource := if observed.entries = [] then "unknown" else args.source
    actualTokens := if snapshot.complete then
      some (totals.map fun key => (observed.get? key).getD 0).sum else none }

def decideSettle (args : SettleArgs) (observed : Dict String ℕ) (events : List Event) :
    Except PyError (Decision Receipt) := do
  let st ← budgetProjection events
  let item ← st.owned args.sessionId args.attemptId
  raiseIf (args.runId.any (· ≠ item.reservation.runId))
    (.value "Attempt/Run identity mismatch")
  let basis := item.reservation.basis
  raiseIf (args.attemptFinished.any fun finished => otherBasis finished basis ||
      (basis = "input_only" && !(finished.getNull "kind").pyEq (.str "embedding")))
    (.value "Model attempt usage basis mismatch")
  let payload ← args.payload observed basis
  if st.seen (.settled payload) then return ⟨st.receipt args.attemptId item, st, []⟩
  else do
    raiseIf (item.resolution.isSome ∨ item.settlement.any fun prior =>
        prior.actualTokens.isSome || payload.actualTokens.isNone)
      (.value "Conflicting attempt settlement")
    let item' := { item with settlement := some payload }
    let st' := { st with reservations := st.reservations.set args.attemptId item' }
    return ⟨st'.receipt args.attemptId item', st', (.budgetSettled, payload.toJson) ::
      match args.attemptFinished with
      | some finished => [(.modelAttemptFinished, finished)]
      | none => []⟩

structure ResolveArgs where
  sessionId : String
  attemptId : String
  actualTokens : Json
  reason : String
  requestId : String

/-- The payload of `resolve_unknown`, with its checks. -/
def ResolveArgs.payload (args : ResolveArgs) : Except PyError Resolution := do
  let attemptId ← checkText args.attemptId "attempt identity"
  let actualTokens ← checkCount args.actualTokens "actual_tokens"
  let reason ← checkText args.reason "resolution reason"
  let requestId ← checkText args.requestId "resolution request identity"
  return { attemptId, actualTokens, reason, requestId }

def decideResolve (args : ResolveArgs) (payload : Resolution) (events : List Event) :
    Except PyError (Decision Receipt) := do
  let st ← budgetProjection events
  let item ← st.owned args.sessionId args.attemptId
  if item.resolution = some payload then return ⟨st.receipt args.attemptId item, st, []⟩
  else do
    raiseIf (item.resolution.isSome ∨ item.amount.actual.isSome)
      (.value "Attempt is already settled")
    raiseIf (∃ other ∈ st.reservations.values,
        other.resolution.any (·.requestId = args.requestId))
      (.value "Resolution request identity was reused")
    let item' := { item with resolution := some payload }
    let st' := { st with reservations := st.reservations.set args.attemptId item' }
    return ⟨st'.receipt args.attemptId item', st', [(.budgetResolved, payload.toJson)]⟩

/-- A call of the ledger. -/
inductive LedgerCall where
  | configure (args : ConfigureArgs)
  | reserve (args : ReserveArgs)
  | settle (args : SettleArgs)
  | resolveUnknown (args : ResolveArgs)

inductive LedgerReply where
  | bucket (bucket : Bucket)
  | receipt (receipt : Receipt)

def Decision.pack {α : Type} (wrap : α → LedgerReply) (d : Decision α) :
    (LedgerReply × BudgetState) × List (EventType × Json) :=
  ((wrap d.reply, d.state), d.additions)

namespace LedgerCall

/-- What an operation takes from outside: the store's environment and its own clock. -/
structure Context where
  env : Env
  now : Instant

def sessionId : LedgerCall → String
  | configure args => args.sessionId
  | reserve args => args.sessionId
  | settle args => args.sessionId
  | resolveUnknown args => args.sessionId

/-- The fact types that the operation reads. -/
def types : LedgerCall → List EventType
  | reserve _ => budgetFacts ++ [.runAdmitted, .runStarted, .controlSession]
  | _ => budgetFacts

def author : LedgerCall → String
  | configure _ | resolveUnknown _ => "user"
  | _ => "runtime"

/-- The run that the appended facts name. -/
def runId : LedgerCall → Option String
  | reserve args => if args.attemptStarted.isSome then some args.runId else none
  | settle args => args.runId
  | _ => none

/-- The argument checks, which return the callback of the transaction. -/
def prepare (s : RuntimeStore) (now : Instant) : LedgerCall → Except PyError
    (List Event → Except PyError ((LedgerReply × BudgetState) × List (EventType × Json)))
  | configure args => do
    let payload ← args.payload
    return fun events => (decideConfigure payload events).map (·.pack .bucket)
  | reserve args => do
    let payload ← args.payload now
    return fun events => (decideReserve s args payload events).map (·.pack .receipt)
  | settle args => do
    let observed ← args.observed
    return fun events => (decideSettle args observed events).map (·.pack .receipt)
  | resolveUnknown args => do
    let payload ← args.payload
    return fun events => (decideResolve args payload events).map (·.pack .receipt)

/-- Run the operation. -/
def perform (s : RuntimeStore) (context : Context) (call : LedgerCall) :
    Except PyError (LedgerReply × BudgetState) × RuntimeStore :=
  match call.prepare s context.now with
  | .error error => (.error error, s)
  | .ok choose =>
    s.transactFacts context.env call.sessionId call.types choose call.author call.runId

end LedgerCall

end Eventide
