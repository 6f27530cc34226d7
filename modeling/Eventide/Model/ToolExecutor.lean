import Eventide.Library.Interaction
import Eventide.Model.Store

/-! # Tool calls

A call is looked up, validated against its contract, judged by the policy, approved where the
policy asks, and only then executed. What the executor cannot decide itself (the policy, the
approval, the handlers, the clock, the store) is a question to its environment. -/

namespace Eventide

open Interaction

structure ToolCall where
  id : String
  name : String
  arguments : Json

inductive PolicyDecision where
  | allow | ask | deny
  deriving DecidableEq

structure PolicyResult where
  decision : PolicyDecision
  reason : String

structure ToolResult where
  callId : String
  name : String
  content : String
  isError : Bool := false
  metadata : Json := .obj []

/-- Outcome of a command, with bounded output and explicit process status. -/
structure CommandResult where
  exitCode : Option ℤ
  stdout : String := ""
  stderr : String := ""
  timedOut : Bool := false
  durationMs : ℚ := 0
  stdoutBytes : ℕ := 0
  stderrBytes : ℕ := 0
  stdoutOmittedBytes : ℕ := 0
  stderrOmittedBytes : ℕ := 0

namespace CommandResult

def isError (r : CommandResult) : Bool := r.timedOut || r.exitCode ≠ some 0

def exitText (r : CommandResult) : String := r.exitCode.elim "None" toString

def render (r : CommandResult) : String :=
  let status := if r.timedOut then "Command timed out"
    else if r.isError then "Command failed" else "Command finished"
  let parts := [status ++ " (exit_code=" ++ r.exitText ++ ")."] ++
    (if r.stdout = "" then [] else ["stdout:\n" ++ r.stdout]) ++
    (if r.stderr = "" then [] else ["stderr:\n" ++ r.stderr]) ++
    (if r.stdout = "" ∧ r.stderr = "" then ["(no output)"] else [])
  "\n".intercalate parts

def exitJson (r : CommandResult) : Json := r.exitCode.elim .null .int

def metadata (r : CommandResult) : Json := .obj [
  ("exit_code", r.exitJson), ("timed_out", .bool r.timedOut), ("duration_ms", .float r.durationMs),
  ("truncated", .bool (0 < r.stdoutOmittedBytes || 0 < r.stderrOmittedBytes)),
  ("stdout_bytes", .int r.stdoutBytes), ("stderr_bytes", .int r.stderrBytes),
  ("stdout_omitted_bytes", .int r.stdoutOmittedBytes),
  ("stderr_omitted_bytes", .int r.stderrOmittedBytes)]

end CommandResult

/-- What a handler returns: `str(output)`, or a command's result. -/
inductive Output where
  | text (text : String)
  | command (result : CommandResult)

/-- A function of the handler table, and whether it is a coroutine function. -/
structure Handler where
  object : String
  coroutine : Bool
  deriving DecidableEq

/-! ## Exceptions -/

inductive Raised where
  | cancelled
  /-- `_UnknownToolOutcome`. -/
  | unknownOutcome (message : String)
  /-- `_RunTokenBudgetExceeded`. -/
  | tokenBudget (message : String)
  | budgetExceeded (message : String) (violations : Json)
  /-- Any other exception; `timeout` says that it is a `TimeoutError`. -/
  | error (type message : String) (timeout outcomeUnknown : Bool)

namespace Raised

def typeName : Raised → String
  | cancelled => "CancelledError"
  | unknownOutcome _ => "_UnknownToolOutcome"
  | tokenBudget _ => "_RunTokenBudgetExceeded"
  | budgetExceeded _ _ => "BudgetExceeded"
  | error type _ _ _ => type

/-- `str(exc)`. -/
def message : Raised → String
  | cancelled => ""
  | unknownOutcome m | tokenBudget m | budgetExceeded m _ | error _ m _ _ => m

def isTimeout : Raised → Bool
  | error _ _ timeout _ => timeout
  | _ => false

/-- `getattr(exc, "outcome_unknown", False)`. -/
def outcomeUnknown : Raised → Bool
  | error _ _ _ unknown => unknown
  | _ => false

def valueError (message : String) : Raised := .error "ValueError" message false false

def runtimeError (message : String) : Raised := .error "RuntimeError" message false false

end Raised

/-! ## Questions -/

structure ModelResponse where
  text : String := ""
  toolCalls : List ToolCall := []
  stopReason : String := "end_turn"
  usage : Json := .obj []
  providerItems : List Json := []
  stateProvider : String := "openai_responses"

inductive Ask where
  /-- `append_fact`. -/
  | commit (fact : Fact)
  /-- The event goes to the sink, whose own exceptions are suppressed. -/
  | deliver
  | clock
  | evaluate (name : String) (arguments : Json) (cwd : String) (trustedReadonly : Bool)
  | approve (approvalId : String) (call : ToolCall) (reason : String)
  /-- A shell command is run for a call. -/
  | command (callId : String) (command : Json) (cwd : String)
  /-- A handler is called with the arguments of a call. -/
  | handler (callId name : String) (arguments : Json)
  /-- Whether the run was cancelled while the call was executing. -/
  | interrupted
  | checkpoint
  | failureLoop
  | tokenBudget
  /-- The task that the plan has active. -/
  | plan
  /-- The messages of a request are built, and the provider answers it. -/
  | context (forceCompact : Bool)
  | complete (tools : List Json)
  | setUp
  | closeManager
  | unknownOutcome
  /-- The type of the last event of the run. -/
  | lastEvent
  /-- Whether the run was admitted and has no terminal event. -/
  | unfinished

/-- What answers a question when nothing is raised. -/
@[reducible] def Ask.Result : Ask → Type
  | commit _ | deliver | setUp | closeManager | tokenBudget => Unit
  | clock => ℕ
  | evaluate _ _ _ _ => PolicyResult
  | approve _ _ _ | interrupted | unknownOutcome | unfinished => Bool
  | command _ _ _ | handler _ _ _ => Output
  | checkpoint => Json
  | failureLoop => Option Json
  | plan => Option String
  | lastEvent => Option EventType
  | context _ => Json
  | complete _ => ModelResponse

abbrev Task := Program Ask Ask.Result Raised

abbrev History := List (Exchange Ask Ask.Result Raised)

def Task.call (q : Ask) : Task q.Result := Program.call q

/-- The facts that a run has committed. -/
def History.facts (h : History) : List Fact :=
  h.filterMap fun
    | ⟨.commit fact, .ok _⟩ => some fact
    | _ => none

/-- `_emit`: only a cancellation gets out of the sink. -/
def emit (fact : Fact) : Task Unit := do
  Task.call (.commit fact)
  let sent ← (Task.call .deliver).attempt
  match sent with
  | .error .cancelled => throw .cancelled
  | _ => pure ()

/-! ## Contracts -/

/-- `ToolArgumentsError` and `ToolContractError`. -/
inductive ContractFailure where
  | arguments (message : String)
  | contract (message : String)

def ContractFailure.message : ContractFailure → String
  | arguments m | contract m => m

def ContractFailure.code : ContractFailure → String
  | arguments _ => "invalid_arguments"
  | contract _ => "invalid_tool_contract"

structure ToolContract where
  name : String
  validate : Json → Except ContractFailure Json

/-- What the schema libraries do: the schema of a built-in tool's arguments, and the contract
of a schema or why it has none. -/
structure Schemas where
  builtin : String → Option Json
  compile : String → Json → Except String ToolContract

/-- The Skill tools keep the narrower enumeration of names that they were given. -/
def keepSkillNames (tool schema : Json) : Json :=
  match ((((tool.get? "input_schema").bind (·.get? "properties")).bind (·.get? "name")).bind
      (·.get? "enum")) with
  | some (.arr names) =>
    let properties := (schema.get? "properties").getD (.obj [])
    let name := (properties.get? "name").getD (.obj [])
    schema.withField "properties" (properties.withField "name" (name.withField "enum" (.arr names)))
  | _ => schema

def toolName (tool : Json) : Option String := (tool.get? "name").bind Json.str?

def productionTool (schemas : Schemas) (tool : Json) : Json :=
  match (toolName tool).bind fun name => (schemas.builtin name).map fun schema => (name, schema) with
  | some (name, schema) =>
    tool.withField "input_schema"
      (if name ∈ ["load_skill", "read_skill_resource", "run_skill_script"] then
        keepSkillNames tool schema
      else schema)
  | none => tool

def productionToolCatalog (schemas : Schemas) (tools : List Json) : List Json :=
  tools.map (productionTool schemas)

/-- One turn of the loop of `contract_catalog`. -/
def addContract (schemas : Schemas) (contracts : Dict String (Except String ToolContract))
    (tool : Json) : Except Raised (Dict String (Except String ToolContract)) :=
  match (toolName tool).filter (· ≠ "") with
  | none => .error (.error "ToolContractError" "Tool name must be non-empty text" false false)
  | some name =>
    if contracts.contains name then
      .ok (contracts.set name (.error "Duplicate tool name in catalog"))
    else
      .ok (contracts.set name (schemas.compile name ((tool.get? "input_schema").getD .null)))

def contractCatalog (schemas : Schemas) (tools : List Json) :
    Except Raised (Dict String (Except String ToolContract)) :=
  (productionToolCatalog schemas tools).foldlM (addContract schemas) Dict.empty

/-! ## ToolExecutor -/

structure ToolExecutor where
  handlers : Dict String Handler
  readonlyTools : List String
  contracts : Dict String (Except String ToolContract)

/-- The tools that are given the working directory. -/
def cwdTools : List String :=
  ["bash", "read_file", "write_file", "edit_file", "glob", "search_text"]

def ToolCall.refused (call : ToolCall) (content code : String) : ToolResult where
  callId := call.id
  name := call.name
  content := content
  isError := true
  metadata := .obj [("code", .str code)]

/-- The approval handler of a `ToolContext`. -/
abbrev ApprovalHandler := String → ToolCall → String → Task Bool

def approvalIdentity (callId : String) (milliseconds : ℕ) : String :=
  "approval_" ++ callId ++ "_" ++ toString milliseconds

/-- The policy, and the approval where it asks; a result refuses the call. -/
def authorize (x : ToolExecutor) (approve : Option ApprovalHandler) (cwd : String)
    (call : ToolCall) (arguments : Json) : Task (Option ToolResult) := do
  let policy ← Task.call
    (.evaluate call.name arguments cwd (decide (call.name ∈ x.readonlyTools)))
  match policy.decision with
  | .deny => pure (some (call.refused ("Permission denied: " ++ policy.reason) "permission_denied"))
  | .allow => pure none
  | .ask =>
    match approve with
    | none =>
      pure (some (call.refused ("Permission denied: " ++ policy.reason) "permission_denied"))
    | some approve => do
      let now ← Task.call .clock
      let approved ← approve (approvalIdentity call.id now)
        { call with arguments } policy.reason
      pure (if approved then none
        else some (call.refused "Permission denied by user or approval timeout"
          "permission_denied"))

/-- The call of the handler, or of the command executor for `bash`. -/
def dispatchCall (call : ToolCall) (arguments : Json) (cwd : String) : Task Output :=
  if call.name = "bash" then
    match arguments.get? "command" with
    | some command => Task.call (.command call.id command cwd)
    | none => throw (.error "KeyError" "'command'" false false)
  else Task.call (.handler call.id call.name arguments)

/-- `arguments["cwd"] = context.cwd`, for the tools that take it. -/
def withCwd (name : String) (arguments : Json) (cwd : String) : Json :=
  if name ∈ cwdTools then arguments.withField "cwd" (.str cwd) else arguments

def outputResult (call : ToolCall) : Output → ToolResult
  | .command r => {
      callId := call.id, name := call.name, content := r.render, isError := r.isError
      metadata := if r.isError then
          r.metadata.withField "code" (.str (if r.timedOut then "timeout" else "execution_failed"))
        else r.metadata }
  | .text text =>
    let failed := text.startsWith "Error:"
    { callId := call.id, name := call.name, content := text, isError := failed
      metadata := if failed then .obj [("code", .str "execution_failed")] else .obj [] }

def exceptionMetadata (e : Raised) : Json :=
  let metadata := Json.obj [
    ("code", .str (if e.isTimeout then "timeout" else "execution_failed")),
    ("exception_type", .str e.typeName)]
  if e.outcomeUnknown then
    (metadata.withField "outcome_unknown" (.bool true)).withField "code" (.str "outcome_unknown")
  else metadata

/-- The result of an exception that the executor catches. -/
def exceptionResult (call : ToolCall) (e : Raised) : ToolResult :=
  match e with
  | .budgetExceeded message violations => {
      callId := call.id, name := call.name, content := message, isError := true
      metadata := .obj [("code", .str "budget_exceeded"), ("violations", violations)] }
  | e => {
      callId := call.id, name := call.name
      content := "Error: " ++ e.typeName ++ ": " ++ e.message, isError := true
      metadata := exceptionMetadata e }

/-- The `try` of `execute`; a cancellation is no `Exception`. -/
def runTool (call : ToolCall) (arguments : Json) (cwd : String) : Task ToolResult := do
  let outcome ← (dispatchCall call (withCwd call.name arguments cwd) cwd).attempt
  match outcome with
  | .ok output => pure (outputResult call output)
  | .error .cancelled => throw .cancelled
  | .error e => pure (exceptionResult call e)

/-- The arguments a call may go on with, or the result that refuses it. -/
def ToolExecutor.validated (x : ToolExecutor) (call : ToolCall) : Except ToolResult Json :=
  if x.handlers.contains call.name then
    match x.contracts.get? call.name with
    | none =>
      .error (call.refused "Error: invalid tool contract: No input contract was registered"
        "invalid_tool_contract")
    | some (.error reason) =>
      .error (call.refused ("Error: invalid tool contract: " ++ reason) "invalid_tool_contract")
    | some (.ok contract) =>
      match contract.validate call.arguments with
      | .ok arguments => .ok arguments
      | .error failure => .error (call.refused ("Error: " ++ failure.message) failure.code)
  else .error (call.refused ("Unknown tool: " ++ call.name) "unknown_tool")

def ToolExecutor.execute (x : ToolExecutor) (approve : Option ApprovalHandler) (cwd : String)
    (call : ToolCall) : Task ToolResult :=
  match x.validated call with
  | .error refused => pure refused
  | .ok arguments => do
    let refused ← authorize x approve cwd call arguments
    match refused with
    | some result => pure result
    | none => runTool call arguments cwd

end Eventide
