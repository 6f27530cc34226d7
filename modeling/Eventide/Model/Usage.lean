import Mathlib.Data.Prod.Lex
import Mathlib.Order.WithBot
import Mathlib.Data.String.Basic
import Mathlib.Data.List.Sort
import Eventide.Library.Outcome
import Eventide.Model.Event

/-! # The usage ledger

`build_usage_ledger` folds the facts of model attempts into one row an attempt, and takes the
response events of runs without attempt facts as legacy calls. -/

namespace Eventide

open Outcome

/-- An event as the ledger reads it: a row of the log joined with its session's workspace. -/
structure LedgerEvent extends Event where
  workspaceId : Option String := none
  deriving Inhabited

/-- `TOKEN_FIELDS`. -/
def tokenFields : List String :=
  ["input_tokens", "output_tokens", "cache_read_input_tokens", "cache_creation_input_tokens",
    "cache_miss_input_tokens", "uncached_input_tokens", "reasoning_tokens"]

/-- `usage_total_fields`. -/
def usageTotalFields (basis : Json) : Except PyError (List String) :=
  if basis.pyEq (.str "input_only") then .ok ["input_tokens"]
  else if basis.pyEq (.str "input_output") then .ok ["input_tokens", "output_tokens"]
  else .error (.value "Unknown Token usage basis")

namespace Json

/-- `_count`: a non-negative integer that is no boolean. -/
def count? : Json → Option ℕ
  | int value => if 0 ≤ value then some value.toNat else none
  | _ => none

/-- `value.get(key)`, `None` for a missing key. -/
def getNull (value : Json) (key : String) : Json := (value.get? key).getD .null

/-- `key in value`, for a dictionary. -/
def hasKey (value : Json) (key : String) : Bool := (value.get? key).isSome

/-- `set(value) == keys`. -/
def hasExactly (value : Json) (keys : List String) : Bool :=
  value.isObj && keys.all value.hasKey && value.fields.all (·.1 ∈ keys)

end Json

/-- `normalize_usage`. -/
def normalizeUsage (usage : Json) : List (String × ℕ) :=
  tokenFields.filterMap fun key => ((usage.get? key).bind Json.count?).map (key, ·)

structure UsageSnapshot where
  usage : List (String × ℕ)
  source : String
  complete : Bool

/-- A usage source that the ledger knows. -/
def knownSource : Json → Option String
  | .str s => if s ∈ ["reported", "estimated", "unknown"] then some s else none
  | _ => none

/-- `usage_snapshot`. -/
def usageSnapshot (usage source : Json) (basis : Json := .str "input_output") :
    Except PyError UsageSnapshot := do
  let counters := normalizeUsage usage
  let totals ← usageTotalFields basis
  raiseIf (basis.pyEq (.str "input_only") ∧
      counters.any fun c => c.1 = "output_tokens" ∨ c.1 = "reasoning_tokens")
    (.value "Input-only usage cannot contain output counters")
  let provenance := if counters.isEmpty then "unknown" else (knownSource source).getD "reported"
  return {
    usage := counters
    source := provenance
    complete := provenance = "reported" && totals.all fun key => (counters.lookup key).isSome }

/-- `COMPONENTS`. -/
def compositionComponents : List String :=
  ["instructions", "history", "tool_catalog", "skills", "retrieval", "tool_results", "envelope"]

/-- `validate_input_composition`. -/
def validateInputComposition (value : Json) : Option Json := do
  guard (value.hasExactly ["method", "unit", "total_characters", "components"])
  guard ((value.getNull "method").pyEq (.str "serialized_unicode_characters_v1"))
  guard ((value.getNull "unit").pyEq (.str "characters"))
  let counts := value.getNull "components"
  guard (counts.hasExactly compositionComponents)
  let total ← (value.getNull "total_characters").count?
  let numbers ← compositionComponents.mapM fun key => (counts.getNull key).count?
  guard (numbers.sum = total)
  return Json.obj [("method", .str "serialized_unicode_characters_v1"),
    ("unit", .str "characters"), ("total_characters", .int total),
    ("components", Json.obj (compositionComponents.map fun key => (key, counts.getNull key)))]

/-- A row of the ledger. -/
structure UsageCall where
  workspaceId : Option String
  sessionId : String
  runId : Option String
  requestId : Json
  attemptId : String
  attempt : Option ℕ
  kind : Json
  phase : Option Json
  model : Json
  status : Json
  requestObserved : Bool
  inputComposition : Option Json
  startedAt : ℤ
  finishedAt : Option ℤ
  provider : Option String
  stopReason : Option String
  durationMs : Option Json
  usage : List (String × ℕ)
  usageSource : String
  usageComplete : Bool
  usageBasis : Json

/-- The number fields of `_request_metadata`: a finite non-negative number. -/
def durationOf (payload : Json) : Option Json :=
  match payload.get? "duration_ms" with
  | some (.int v) => if 0 ≤ v then some (.int v) else none
  | some (.float v) => if 0 ≤ v then some (.float v) else none
  | _ => none

def stringOf (payload : Json) (key : String) : Option String := (payload.get? key).bind Json.str?

/-- The start and finish facts of one attempt. -/
structure AttemptRecord where
  start : Option LedgerEvent := none
  finish : Option LedgerEvent := none

/-- `if start and finish:`, the checks of `_attempt_row` on a pair of facts. -/
def AttemptRecord.checkPair (record : AttemptRecord) : Except PyError Unit :=
  match record.start, record.finish with
  | some start, some finish => do
    raiseIf (["request_id", "attempt"].any fun field =>
        !(start.payload.getNull field).pyEq (finish.payload.getNull field))
      (.value "Conflicting model attempt identity")
    raiseIf (!((start.payload.get? "usage_basis").getD (.str "input_output")).pyEq
        ((finish.payload.get? "usage_basis").getD (.str "input_output")))
      (.value "Conflicting model attempt usage basis")
  | _, _ => .ok ()

/-- `_attempt_row`. -/
def attemptRow (attemptId : String) (record : AttemptRecord) : Except PyError UsageCall :=
  match record.start.or record.finish with
  | none => .error (.raised "AssertionError" "")
  | some event => do
    let empty := Json.obj []
    let started := (record.start.map (·.payload)).getD empty
    let finished := (record.finish.map (·.payload)).getD empty
    let payload := started.merge finished
    record.checkPair
    let basis := (payload.get? "usage_basis").getD (.str "input_output")
    raiseIf (basis.pyEq (.str "input_only") ∧
        !(payload.getNull "kind").pyEq (.str "embedding"))
      (.value "Input-only usage requires an embedding attempt")
    let snapshot ← usageSnapshot
      (if record.finish.isSome then payload.getNull "usage" else .null)
      (payload.getNull "usage_source") basis
    return {
      workspaceId := event.workspaceId
      sessionId := event.sessionId
      runId := event.runId
      requestId := payload.getNull "request_id"
      attemptId
      attempt := (payload.getNull "attempt").count?
      kind := (payload.get? "kind").getD (.str "agent")
      phase := payload.get? "phase"
      model := payload.getNull "model"
      status := if record.finish.isSome then (payload.get? "status").getD (.str "unknown")
        else .str "unknown"
      requestObserved := record.start.isSome
      inputComposition := validateInputComposition (started.getNull "input_composition")
      startedAt := event.ts
      finishedAt := record.finish.map (·.ts)
      provider := stringOf payload "provider"
      stopReason := if record.finish.isSome then stringOf payload "stop_reason" else none
      durationMs := if record.finish.isSome then durationOf payload else none
      usage := snapshot.usage
      usageSource := snapshot.source
      usageComplete := snapshot.complete
      usageBasis := basis }

/-- `_legacy_row`. -/
def legacyRow (event : LedgerEvent) : Except PyError UsageCall := do
  let payload := event.payload
  let snapshot ← usageSnapshot (payload.getNull "usage") .null
  return {
    workspaceId := event.workspaceId
    sessionId := event.sessionId
    runId := event.runId
    requestId := .null
    attemptId := "legacy:" ++ event.eventId
    attempt := none
    kind := .str (if event.type = .contextSummaryGenerated then "context_summary" else "agent")
    phase := none
    model := payload.getNull "model"
    status := .str "completed"
    requestObserved := false
    inputComposition := none
    startedAt := event.ts
    finishedAt := some event.ts
    provider := stringOf payload "provider"
    stopReason := stringOf payload "stop_reason"
    durationMs := durationOf payload
    usage := snapshot.usage
    usageSource := snapshot.source
    -- Historical calls lack evidence for hidden retries and missing requests.
    usageComplete := false
    usageBasis := .str "input_output" }

/-- `str(run_id)`. -/
def runKey (runId : Option String) : String := runId.getD "None"

/-- The checks on an external usage authority. -/
def validAuthority (reference : Json) : Bool :=
  reference.hasExactly ["kind", "run_id", "case_id", "case_index"] &&
  (reference.getNull "kind").pyEq (.str "evaluation") &&
  (match reference.getNull "run_id" with
    | .str s => s ≠ ""
    | _ => false) &&
  (match reference.getNull "case_id" with
    | .str s => s ≠ ""
    | _ => false) &&
  match reference.getNull "case_index" with
  | .int n => 1 ≤ n
  | _ => false

/-- The dictionaries and the list of the loop. -/
structure LedgerFold where
  attempts : Dict (String × String) AttemptRecord := Dict.empty
  legacy : Dict (String × String) LedgerEvent := Dict.empty
  authorities : List Json := []

/-- `record.setdefault(slot, event)`, unless the slot holds a different payload. -/
def fillSlot (slot : Option LedgerEvent) (event : LedgerEvent) :
    Except PyError (Option LedgerEvent) :=
  match slot with
  | none => .ok (some event)
  | some previous => do
    raiseIf (!previous.payload.pyEq event.payload) (.value "Conflicting model attempt facts")
    return slot

/-- `payload["attempt_id"]`, a non-empty string. -/
def attemptIdOf (payload : Json) : Option String :=
  match payload.get? "attempt_id" with
  | some (.str s) => if s = "" then none else some s
  | _ => none

namespace LedgerFold

def attemptStep (st : LedgerFold) (event : LedgerEvent) : Except PyError LedgerFold :=
  match attemptIdOf event.payload with
  | none => .error (.value "Model attempt requires a non-empty attempt_id")
  | some attemptId => do
    let key := (runKey event.runId, attemptId)
    let record := (st.attempts.get? key).getD {}
    let record' ←
      if event.type = .modelAttemptStarted then
        (fillSlot record.start event).map ({ record with start := · })
      else (fillSlot record.finish event).map ({ record with finish := · })
    return { st with attempts := st.attempts.set key record' }

def legacyStep (st : LedgerFold) (event : LedgerEvent) : Except PyError LedgerFold :=
  match event.payload.get? "usage_authority" with
  | some reference => do
    raiseIf (!validAuthority reference) (.value "Invalid external usage authority")
    return if st.authorities.any (·.pyEq reference) then st
      else { st with authorities := st.authorities ++ [reference] }
  | none => do
    raiseIf (event.eventId = "") (.value "Legacy usage requires an event_id")
    return { st with legacy := st.legacy.setDefault (runKey event.runId, event.eventId) event }

def step (newRuns : List (Option String)) (st : LedgerFold) (event : LedgerEvent) :
    Except PyError LedgerFold :=
  match event.type with
  | .modelAttemptStarted | .modelAttemptFinished => st.attemptStep event
  | .modelResponse | .contextSummaryGenerated =>
    if event.runId ∈ newRuns then .ok st else st.legacyStep event
  | _ => .ok st

end LedgerFold

/-- The events the ledger reads at all. -/
def canonicalEvents (events : List LedgerEvent) : List LedgerEvent :=
  events.filter fun e => !e.isPartial && e.payload.isObj

def LedgerEvent.isAttempt (e : LedgerEvent) : Bool :=
  e.type = .modelAttemptStarted || e.type = .modelAttemptFinished

/-- A response of a run without attempt facts. -/
def LedgerEvent.isResponse (runs : List (Option String)) (e : LedgerEvent) : Bool :=
  (e.type = .modelResponse || e.type = .contextSummaryGenerated) && e.runId ∉ runs

/-- The runs with at least one attempt fact. -/
def newRuns (canonical : List LedgerEvent) : List (Option String) :=
  (canonical.filter LedgerEvent.isAttempt).map (·.runId)

/-- The sort key of a row. -/
def UsageCall.sortKey (call : UsageCall) : ℤ ×ₗ WithBot String ×ₗ String :=
  toLex (call.startedAt, toLex ((call.runId : WithBot String), call.attemptId))

/-- `calls.sort(...)`: Python cannot order `None` and a string. -/
def sortCalls (calls : List UsageCall) : Except PyError (List UsageCall) := do
  raiseIf (∃ a ∈ calls, ∃ b ∈ calls, a.startedAt = b.startedAt ∧ a.runId = none ∧ b.runId ≠ none)
    (.type "'<' not supported between instances of 'NoneType' and 'str'")
  return calls.insertionSort fun a b => a.sortKey ≤ b.sortKey

/-- `target[key] = target.get(key, 0) + count` for every counter of a row. -/
def addCounters (totals : Dict String ℕ) (usage : List (String × ℕ)) : Dict String ℕ :=
  usage.foldl (fun totals c => totals.set c.1 ((totals.get? c.1).getD 0 + c.2)) totals

/-- The totals of the rows with one provenance. -/
def totalsOf (calls : List UsageCall) : Dict String ℕ :=
  (calls.map (·.usage)).foldl addCounters Dict.empty

structure UsageLedger where
  calls : List UsageCall
  reportedTotals : Dict String ℕ
  estimatedTotals : Dict String ℕ
  attemptCount : ℕ
  unknownAttempts : ℕ
  incompleteAttempts : ℕ
  complete : Bool
  authorityReferences : List Json

/-- The rows of a fold, attempts first. -/
def LedgerFold.rows (st : LedgerFold) : Except PyError (List UsageCall) := do
  let attempts ← st.attempts.entries.mapM fun p => attemptRow p.1.2 p.2
  let legacy ← st.legacy.values.mapM legacyRow
  return attempts ++ legacy

/-- The dictionary that `build_usage_ledger` returns for its sorted rows. -/
def ledgerOf (authorities : List Json) (calls : List UsageCall) : UsageLedger where
  calls
  reportedTotals := totalsOf (calls.filter (·.usageSource = "reported"))
  estimatedTotals := totalsOf (calls.filter fun call =>
    call.usageSource ≠ "reported" ∧ call.usageSource ≠ "unknown")
  attemptCount := calls.length
  unknownAttempts := calls.countP (·.usageSource = "unknown")
  incompleteAttempts := calls.countP (!·.usageComplete)
  complete := authorities.isEmpty && calls.all (·.usageComplete)
  authorityReferences := authorities

/-- `build_usage_ledger`. -/
def buildUsageLedger (events : List LedgerEvent)
    (callFilter : UsageCall → Except PyError Bool := fun _ => .ok true) :
    Except PyError UsageLedger := do
  let canonical := canonicalEvents events
  let st ← canonical.foldlM (LedgerFold.step (newRuns canonical)) {}
  let rows ← st.rows
  let kept ← select callFilter rows
  let calls ← sortCalls kept
  return ledgerOf st.authorities calls

end Eventide
