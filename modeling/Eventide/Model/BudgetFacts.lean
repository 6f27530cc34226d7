import Eventide.Model.StoreCalls
import Eventide.Model.Usage

/-! # The facts of the budget ledger

Each payload is a record; `toJson` is the dictionary that the ledger appends, and `ofJson`
reads it back. Only the ledger writes these facts. -/

namespace Eventide

open Outcome RuntimeStore

/-- `not value.strip() or len(value) > 256`, negated. -/
def validText (value : String) : Bool := strip value ≠ "" && value.length ≤ 256

/-- `_text`. -/
def checkText (value name : String) : Except PyError String := do
  raiseIf (!validText value) (.value s!"Invalid {name}")
  return value

/-- `_count`, of `budgets.py`. -/
def checkCount (value : Json) (name : String) : Except PyError ℕ :=
  match value.count? with
  | some n => .ok n
  | none => .error (.value s!"{name} must be a nonnegative integer")

/-! ## Days -/

def pad (width : ℕ) (n : ℕ) : String :=
  String.ofList (List.replicate (width - (toString n).length) '0') ++ toString n

/-- The civil date, with the day count from 1970-01-01 in eras of 400 years. -/
def civilDate (days : ℤ) : ℤ × ℕ × ℕ :=
  let z := days + 719468
  let era := z / 146097
  let doe := z % 146097
  let yoe := (doe - doe / 1460 + doe / 36524 - doe / 146096) / 365
  let doy := doe - (365 * yoe + yoe / 4 - yoe / 100)
  let mp := (5 * doy + 2) / 153
  let day := doy - (153 * mp + 2) / 5 + 1
  let month := if mp < 10 then mp + 3 else mp - 9
  (yoe + era * 400 + (if month ≤ 2 then 1 else 0), month.toNat, day.toNat)

def microsPerDay : ℤ := 86400000000

/-- `strftime("%Y-%m-%d")` of an instant in microseconds; `%Y` does not pad. -/
def utcDay (micros : ℤ) : String :=
  let (year, month, day) := civilDate (micros / microsPerDay)
  s!"{year}-{pad 2 month}-{pad 2 day}"

/-- `isoformat()` of an instant in UTC. -/
def isoformat (micros : ℤ) : String :=
  let (year, month, day) := civilDate (micros / microsPerDay)
  let time := (micros % microsPerDay).toNat
  let fraction := time % 1000000
  let seconds := time / 1000000
  pad 4 year.toNat ++ "-" ++ pad 2 month ++ "-" ++ pad 2 day ++ "T" ++
    pad 2 (seconds / 3600) ++ ":" ++ pad 2 (seconds / 60 % 60) ++ ":" ++ pad 2 (seconds % 60) ++
    (if fraction = 0 then "" else "." ++ pad 6 fraction) ++ "+00:00"

def daysInMonth (year month : ℕ) : ℕ :=
  if month = 2 then
    if year % 4 = 0 ∧ (year % 100 ≠ 0 ∨ year % 400 = 0) then 29 else 28
  else if month ∈ [4, 6, 9, 11] then 30 else 31

/-- The dates that `strptime` accepts and `strftime` writes back unchanged. -/
def validDay (identity : String) : Bool :=
  match identity.toList with
  | [y1, y2, y3, y4, '-', m1, m2, '-', d1, d2] =>
    let digits := [y1, y2, y3, y4, m1, m2, d1, d2]
    let number (cs : List Char) := cs.foldl (fun n c => 10 * n + (c.toNat - '0'.toNat)) 0
    let year := number [y1, y2, y3, y4]
    let month := number [m1, m2]
    let day := number [d1, d2]
    digits.all Char.isDigit && 1000 ≤ year && 1 ≤ month && month ≤ 12 &&
      1 ≤ day && day ≤ daysInMonth year month
  | _ => false

/-! ## Scopes and contexts -/

inductive ScopeKind where
  | run | delivery | project | day
  deriving DecidableEq

def ScopeKind.text : ScopeKind → String
  | run => "run"
  | delivery => "delivery"
  | project => "project"
  | day => "day"

/-- A scope as a dictionary, which is also the key of its bucket. -/
structure ScopeRecord where
  kind : String
  identity : String
  deriving DecidableEq, Inhabited

/-- `BudgetScope.__post_init__`. -/
def scopeRecord (kind : ScopeKind) (identity : String) : Except PyError ScopeRecord := do
  let _ ← checkText identity "scope identity"
  raiseIf (kind = .day ∧ !validDay identity)
    (.value "Day budget identity must be a UTC YYYY-MM-DD date")
  return { kind := kind.text, identity }

/-- `BudgetScope`, which exists only past its checks. -/
structure BudgetScope where
  kind : ScopeKind
  identity : String
  valid : validText identity = true ∧ (kind = .day → validDay identity = true)

/-- `asdict(scope)`. -/
def BudgetScope.record (scope : BudgetScope) : ScopeRecord where
  kind := scope.kind.text
  identity := scope.identity

structure ContextRecord where
  projectId : Option String
  rootRunId : String
  deliveryId : Option String := none
  deriving DecidableEq, Inhabited

/-- `BudgetContext`. -/
structure BudgetContext extends ContextRecord where
  valid : projectId.all validText = true ∧ validText rootRunId = true ∧
    deliveryId.all validText = true

/-- The scope that `if identity is not None:` appends. -/
def optionalScope (kind : ScopeKind) : Option String → Except PyError (List ScopeRecord)
  | some identity => (scopeRecord kind identity).map ([·])
  | none => .ok []

/-- `BudgetContext.scopes`. -/
def ContextRecord.scopes (context : ContextRecord) (runId : String) (micros : ℤ) :
    Except PyError (List ScopeRecord) := do
  let root ← scopeRecord .run context.rootRunId
  let own ← optionalScope .run (if runId ≠ context.rootRunId then some runId else none)
  let delivery ← optionalScope .delivery context.deliveryId
  let project ← optionalScope .project context.projectId
  let day ← scopeRecord .day (utcDay micros)
  return root :: own ++ delivery ++ project ++ [day]

/-! ## Payloads -/

structure Configured where
  requestId : String
  scope : ScopeRecord
  tokenLimit : Option ℕ
  deriving DecidableEq, Inhabited

structure Reservation where
  attemptId : String
  runId : String
  sessionId : String
  context : ContextRecord
  inputEstimate : ℕ
  outputEstimate : ℕ
  estimateMethod : String
  reservedTokens : ℕ
  reservedAt : String
  scopes : List ScopeRecord
  /-- Absent for `"input_output"`. -/
  usageBasis : Option String
  deriving DecidableEq, Inhabited

structure Settlement where
  attemptId : String
  usage : Dict String ℕ
  usageSource : String
  actualTokens : Option ℕ
  deriving Inhabited

structure Resolution where
  attemptId : String
  actualTokens : ℕ
  reason : String
  requestId : String
  deriving DecidableEq, Inhabited

/-- `reservation.get("usage_basis", "input_output")`. -/
def Reservation.basis (r : Reservation) : String := r.usageBasis.getD "input_output"

/-- Equality of dictionaries, which ignores their order. -/
def sameCounters (a b : Dict String ℕ) : Bool :=
  a.keys.all (fun k => a.get? k = b.get? k) && b.keys.all fun k => a.get? k = b.get? k

/-- `==` on settlement payloads, and equality of their sorted JSON texts. -/
def Settlement.same (a b : Settlement) : Bool :=
  a.attemptId = b.attemptId && sameCounters a.usage b.usage && a.usageSource = b.usageSource &&
    a.actualTokens = b.actualTokens

namespace Json

def ofOption {α : Type} (encode : α → Json) : Option α → Json
  | some a => encode a
  | none => null

def ofNat (n : ℕ) : Json := int n

/-- `payload[name]`, of the type that the writer gave it. -/
def readField {α : Type} (decode : Json → Option α) (payload : Json) (name : String) :
    Except PyError α := do
  let value ← payload.require name
  match decode value with
  | some a => .ok a
  | none => .error (.type name)

def option? {α : Type} (decode : Json → Option α) : Json → Option (Option α)
  | null => some none
  | value => (decode value).map some

end Json

/-- `dict(usage)` of checked counters. -/
def counters? (value : Json) : Option (Dict String ℕ) :=
  (value.fields.mapM fun (p : String × Json) => p.2.count?.map fun n => (p.1, n)).map
    Dict.ofLookup

def countersJson (usage : Dict String ℕ) : Json :=
  .obj (usage.entries.map fun p => (p.1, Json.ofNat p.2))

def ScopeRecord.toJson (scope : ScopeRecord) : Json :=
  .obj [("kind", .str scope.kind), ("identity", .str scope.identity)]

def ScopeRecord.ofJson? (value : Json) : Option ScopeRecord := do
  let kind ← (value.get? "kind").bind Json.str?
  let identity ← (value.get? "identity").bind Json.str?
  return { kind, identity }

def ContextRecord.toJson (context : ContextRecord) : Json :=
  .obj [("project_id", Json.ofOption .str context.projectId),
    ("root_run_id", .str context.rootRunId),
    ("delivery_id", Json.ofOption .str context.deliveryId)]

def ContextRecord.ofJson? (value : Json) : Option ContextRecord := do
  let projectId ← (value.get? "project_id").bind (Json.option? Json.str?)
  let rootRunId ← (value.get? "root_run_id").bind Json.str?
  let deliveryId ← (value.get? "delivery_id").bind (Json.option? Json.str?)
  return { projectId, rootRunId, deliveryId }

def Configured.toJson (p : Configured) : Json :=
  .obj [("request_id", .str p.requestId), ("scope", p.scope.toJson),
    ("token_limit", Json.ofOption Json.ofNat p.tokenLimit)]

def Configured.ofJson (payload : Json) : Except PyError Configured := do
  let requestId ← payload.readField Json.str? "request_id"
  let scope ← payload.readField ScopeRecord.ofJson? "scope"
  let tokenLimit ← payload.readField (Json.option? Json.count?) "token_limit"
  return { requestId, scope, tokenLimit }

def Reservation.toJson (r : Reservation) : Json :=
  .obj ([("attempt_id", .str r.attemptId), ("run_id", .str r.runId),
    ("session_id", .str r.sessionId), ("context", r.context.toJson),
    ("input_estimate", Json.ofNat r.inputEstimate),
    ("output_estimate", Json.ofNat r.outputEstimate),
    ("estimate_method", .str r.estimateMethod),
    ("reserved_tokens", Json.ofNat r.reservedTokens), ("reserved_at", .str r.reservedAt),
    ("scopes", .arr (r.scopes.map ScopeRecord.toJson))] ++
    match r.usageBasis with
    | some basis => [("usage_basis", .str basis)]
    | none => [])

def Reservation.ofJson (payload : Json) : Except PyError Reservation := do
  let attemptId ← payload.readField Json.str? "attempt_id"
  let runId ← payload.readField Json.str? "run_id"
  let sessionId ← payload.readField Json.str? "session_id"
  let context ← payload.readField ContextRecord.ofJson? "context"
  let inputEstimate ← payload.readField Json.count? "input_estimate"
  let outputEstimate ← payload.readField Json.count? "output_estimate"
  let estimateMethod ← payload.readField Json.str? "estimate_method"
  let reservedTokens ← payload.readField Json.count? "reserved_tokens"
  let reservedAt ← payload.readField Json.str? "reserved_at"
  let scopes ← payload.readField
    (fun v => v.arr?.bind fun items => items.mapM ScopeRecord.ofJson?) "scopes"
  return {
    attemptId, runId, sessionId, context, inputEstimate, outputEstimate, estimateMethod
    reservedTokens, reservedAt, scopes, usageBasis := (payload.get? "usage_basis").bind Json.str? }

def Settlement.toJson (p : Settlement) : Json :=
  .obj [("attempt_id", .str p.attemptId), ("usage", countersJson p.usage),
    ("usage_source", .str p.usageSource),
    ("actual_tokens", Json.ofOption Json.ofNat p.actualTokens)]

def Settlement.ofJson (payload : Json) : Except PyError Settlement := do
  let attemptId ← payload.readField Json.str? "attempt_id"
  let usage ← payload.readField counters? "usage"
  let usageSource ← payload.readField Json.str? "usage_source"
  let actualTokens ← payload.readField (Json.option? Json.count?) "actual_tokens"
  return { attemptId, usage, usageSource, actualTokens }

def Resolution.toJson (p : Resolution) : Json :=
  .obj [("attempt_id", .str p.attemptId), ("actual_tokens", Json.ofNat p.actualTokens),
    ("reason", .str p.reason), ("request_id", .str p.requestId)]

def Resolution.ofJson (payload : Json) : Except PyError Resolution := do
  let attemptId ← payload.readField Json.str? "attempt_id"
  let actualTokens ← payload.readField Json.count? "actual_tokens"
  let reason ← payload.readField Json.str? "reason"
  let requestId ← payload.readField Json.str? "request_id"
  return { attemptId, actualTokens, reason, requestId }

end Eventide
