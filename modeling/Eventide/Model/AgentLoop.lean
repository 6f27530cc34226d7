import Eventide.Model.ToolExecutor

/-! # The agent loop

`RuntimeHost._execute`: the tools of a run, the loop over model responses and their batches of
calls, and the terminal fact. Facts that handlers, the context builder and the model attempts
write themselves are not among those of the loop. -/

namespace Eventide

open Interaction

namespace AgentLoop

/-! ## The tools of a run -/

inductive RunMode where
  | auto | plan | agent
  deriving DecidableEq

/-- `PLAN_READONLY_TOOLS`. -/
def planReadonlyTools : List String :=
  ["read_file", "glob", "search_text", "compact", "read_tool_result", "todo_write", "load_skill",
    "read_skill_resource", "search_knowledge", "delegate_readonly"]

/-- `tool.get("name") in names`. -/
def named (names : List String) (tool : Json) : Bool := (toolName tool).any (· ∈ names)

def filterToolCatalog (tools : List Json) (mode : RunMode) : List Json :=
  if mode = .plan then tools.filter (named planReadonlyTools) else tools

def shouldAutoApprove (mode : RunMode) : Bool := mode = .agent

/-- Where the tools of a run come from. -/
structure ToolSources where
  mode : RunMode
  sandbox : Bool := false
  readonlyProfile : Bool := false
  /-- `self.tools` and `self.handlers`. -/
  tools : List Json
  handlers : Dict String Handler
  /-- `TOOLS` and `HANDLERS`. -/
  builtinTools : List Json
  builtinHandlers : Dict String Handler
  readToolResult : Json × Handler
  todoWrite : Json × Handler
  skills : Bool
  skillTools : List Json
  skillHandlers : List (String × Handler)
  ragTools : List Json
  ragHandlers : List (String × Handler)
  mcpTools : List Json
  mcpHandlers : List (String × Handler)
  mcpReadonly : List String
  workerTools : List Json
  delegateReadonly : Handler
  sandboxHandlers : List (String × Handler)

namespace ToolSources

def readToolResultEntry (s : ToolSources) : String × Handler :=
  ("read_tool_result", s.readToolResult.2)

def todoWriteEntry (s : ToolSources) : String × Handler := ("todo_write", s.todoWrite.2)

def sourceTable (s : ToolSources) : List Json × Dict String Handler :=
  (filterToolCatalog (s.tools ++ [s.readToolResult.1, s.todoWrite.1] ++ s.skillTools ++ s.ragTools ++
      s.mcpTools ++ s.workerTools) s.mode,
    s.handlers.update ([s.readToolResultEntry, s.todoWriteEntry] ++
      (if s.skills then s.skillHandlers else []) ++ s.ragHandlers ++ s.mcpHandlers ++
      (if s.workerTools = [] then [] else [("delegate_readonly", s.delegateReadonly)])))

def sandboxNames : List String :=
  ["bash", "read_file", "glob", "write_file", "edit_file", "compact", "read_tool_result",
    "todo_write"]

/-- The sandbox says what its shell is. -/
def sandboxTool (tool : Json) : Json :=
  if toolName tool = some "bash" then
    tool.withField "description"
      (.str "Run an offline command inside the isolated Docker task copy.")
  else tool

def sandboxTable (s : ToolSources) : List Json × Dict String Handler :=
  (filterToolCatalog (((s.builtinTools ++ [s.readToolResult.1, s.todoWrite.1]).filter
      (named sandboxNames)).map sandboxTool) s.mode,
    Dict.ofList ((s.builtinHandlers.entries.filter fun p => p.1 ∈ ["bash", "compact"]) ++
      s.sandboxHandlers ++ [s.readToolResultEntry, s.todoWriteEntry]))

def readonlyNames : List String :=
  ["read_file", "glob", "search_text", "compact", "read_tool_result"]

def readonlyTable (s : ToolSources) : List Json × Dict String Handler :=
  ((s.builtinTools ++ [s.readToolResult.1]).filter (named readonlyNames),
    Dict.ofList ((s.builtinHandlers.update [s.readToolResultEntry]).entries.filter fun p =>
      p.1 ∈ readonlyNames))

/-- The later of the three branches that applies overwrites the earlier ones. -/
def table (s : ToolSources) : List Json × Dict String Handler :=
  if s.readonlyProfile then s.readonlyTable
  else if s.sandbox then s.sandboxTable
  else s.sourceTable

/-- A worker with a read-only profile runs in plan mode. -/
def runMode (s : ToolSources) : RunMode := if s.readonlyProfile then .plan else s.mode

/-- In plan mode only the names of the catalog can be executed. -/
def runHandlers (s : ToolSources) : Dict String Handler :=
  if s.runMode = .plan then
    Dict.ofList (s.table.2.entries.filter fun p => p.1 ∈ s.table.1.filterMap toolName)
  else s.table.2

def readonlyTools (s : ToolSources) : List String :=
  ["read_tool_result", "todo_write"] ++
    (if s.workerTools = [] then [] else ["delegate_readonly"]) ++
    (if s.ragTools = [] then [] else ["search_knowledge"]) ++ s.mcpReadonly ++
    (if s.skills then ["load_skill", "read_skill_resource"] else [])

/-- `runtime_readonly_tools`. -/
def runtimeReadonlyTools (s : ToolSources) : List String :=
  ["read_file", "glob", "search_text", "compact", "read_tool_result", "todo_write",
    "search_knowledge"] ++
    (if s.workerTools = [] then [] else ["delegate_readonly"]) ++
    (if s.skills then ["load_skill", "read_skill_resource"] else [])

def executor (s : ToolSources) (schemas : Schemas) : Except Raised ToolExecutor := do
  let tools := productionToolCatalog schemas s.table.1
  let contracts ← contractCatalog schemas tools
  return { handlers := s.runHandlers, readonlyTools := s.readonlyTools, contracts }

end ToolSources

/-! ## A run -/

/-- `TRUNCATION_REASONS`. -/
def truncationReasons : List String := ["max_tokens", "length", "max_output_tokens", "incomplete"]

/-- What `_execute` has before it starts. The opening facts pair what an interrupted run left,
or hold the user's message. -/
structure RunConfig where
  sources : ToolSources
  schemas : Schemas
  /-- `_clean` and `_semantic`. -/
  clean : Json → Json
  semantic : Json → Json
  cleanText : String → String
  digest : Json → String
  workingRoot : String
  started : Json
  opening : List Fact
  /-- The Workspace or sandbox that an unknown outcome names. -/
  unknownScope : Json
  snapshotExecution : Bool := false
  approvalHandler : Bool
  jsonOutput : Bool := false
  finalizing : Bool := false
  maxSteps : ℕ
  taskMaxSteps : ℕ := 0
  parseJson : String → Option Json

namespace RunConfig

def mode (c : RunConfig) : RunMode := c.sources.runMode

end RunConfig

/-- The local variables of the loop. -/
structure LoopState where
  steps : ℕ := 0
  finalizing : Bool := false
  forceCompact : Bool := false
  parameterRepairUsed : Bool := false
  activeTask : Option String := none
  activeSince : ℕ := 1
  /-- The ids in the `model.response` facts of the run. -/
  priorIds : List Json := []

inductive ParkKind where
  | stepBudget | repeatedToolFailure | taskStepBudget | unknownToolOutcome | tokenBudget
  deriving DecidableEq

def ParkKind.text : ParkKind → String
  | stepBudget => "step_budget"
  | repeatedToolFailure => "repeated_tool_failure"
  | taskStepBudget => "task_step_budget"
  | unknownToolOutcome => "unknown_tool_outcome"
  | tokenBudget => "token_budget"

/-- How the loop over the steps ends. -/
inductive LoopEnd where
  | answered (output : String)
  | parked (kind : ParkKind) (message : String)

variable (c : RunConfig)

/-! ### Approval -/

def approvalRequired (approvalId : String) (call : ToolCall) (reason : String) : Fact where
  type := .approvalRequired
  payload := .obj [("approval_id", .str approvalId), ("tool", .str call.name),
    ("arguments", c.clean call.arguments), ("reason", .str reason)]

def approvalAuto (approvalId : String) : Fact where
  type := .approvalResolved
  payload := .obj [("approval_id", .str approvalId), ("approved", .bool true), ("auto", .bool true)]

def approvalResolved (approvalId : String) (approved : Bool) : Fact where
  type := .approvalResolved
  payload := .obj [("approval_id", .str approvalId), ("approved", .bool approved)]
  author := if c.approvalHandler then "user" else "runtime"

/-- The handler, given the approval timeout. -/
def askUser (approvalId : String) (call : ToolCall) (reason : String) : Task Bool :=
  if c.approvalHandler then do
    let answer ← (Task.call (.approve approvalId call reason)).attempt
    match answer with
    | .ok approved => pure approved
    | .error e => if e.isTimeout then pure false else throw e
  else pure false

def approve : ApprovalHandler := fun approvalId call reason => do
  emit (approvalRequired c approvalId call reason)
  if shouldAutoApprove c.mode then do
    emit (approvalAuto approvalId)
    pure true
  else do
    let approved ← askUser c approvalId call reason
    emit (approvalResolved c approvalId approved)
    pure approved

/-! ### One call -/

/-- MCP and unknown tools are never read-only. -/
def readonlyCall (call : ToolCall) : Bool := call.name ∈ c.sources.runtimeReadonlyTools

def preparedFact (call : ToolCall) : Fact where
  type := .toolPrepared
  payload := .obj [("call_id", .str call.id), ("name", .str call.name),
    ("arguments", c.semantic call.arguments),
    ("readonly", .bool (readonlyCall c call))]

/-- `_failure_evidence`. -/
def failureEvidence (metadata : Json) : Bool :=
  let code := (metadata.get? "code").getD .null
  !((metadata.get? "outcome_unknown").any Json.truthy) &&
    (Json.pyEq code (.str "timeout") ||
      Json.pyEq code (.str "execution_failed") &&
        ((match metadata.get? "exit_code" with
          | some (.int n) => n ≠ 0
          | _ => false) ||
        (match metadata.get? "exception_type" with
          | some (.str name) => name ≠ ""
          | _ => false)))

def failureFingerprint (call : ToolCall) (result : ToolResult) : Option String :=
  if result.isError && failureEvidence result.metadata then
    let field := fun key => (result.metadata.get? key).getD .null
    some (c.digest (.obj [("name", .str call.name), ("arguments", call.arguments),
      ("content", .str result.content), ("code", field "code"), ("exit_code", field "exit_code"),
      ("timed_out", field "timed_out"), ("exception_type", field "exception_type")]))
  else none

def completedFact (call : ToolCall) (result : ToolResult) : Fact where
  type := .toolCompleted
  payload := .obj ([("call_id", .str call.id), ("name", .str call.name),
      ("content", c.semantic (.str result.content)), ("is_error", .bool result.isError),
      ("metadata", c.semantic result.metadata)] ++
    ((failureFingerprint c call result).elim [] fun mark => [("failure_fingerprint", .str mark)]))

def unknownFact (call : ToolCall) (content : String) : Fact where
  type := .toolOutcomeUnknown
  payload := (Json.obj [("call_id", .str call.id), ("name", .str call.name),
    ("readonly", .bool c.snapshotExecution)]).merge
      (c.unknownScope.merge (.obj [("error", c.semantic (.str content))]))

def ToolResult.unknown (result : ToolResult) : Bool :=
  (result.metadata.get? "outcome_unknown").any Json.truthy

/-- `result.metadata.get("code") == code`. -/
def ToolResult.hasCode (result : ToolResult) (code : String) : Bool :=
  (result.metadata.get? "code").any fun value => Json.pyEq value (.str code)

/-- The result that a cancelled run still waited for. -/
def settleCancelled (call : ToolCall) : Except Raised ToolResult → Task ToolResult
  | .error e => throw e
  | .ok settled => do
    emit (if ToolResult.unknown settled then unknownFact c call settled.content
      else completedFact c call settled)
    throw .cancelled

/-- The execution of a prepared call; it is shielded from the cancellation of the run. -/
def executeCall (x : ToolExecutor) (call : ToolCall) : Task ToolResult := do
  let result ← (x.execute (some (approve c)) c.workingRoot call).attempt
  let stopped : Bool ← Task.call .interrupted
  if stopped then settleCancelled c call result
  else
    match result with
    | .ok result => pure result
    | .error e => throw e

def checkpointFact (checkpoint : Json) : Fact where
  type := .workspaceCheckpoint
  payload := .obj [("checkpoint", checkpoint)]

def emitCheckpoint : Task Unit := do
  let checkpoint ← Task.call .checkpoint
  emit (checkpointFact checkpoint)

def abandonedFact (call : ToolCall) (content reason : String) : Fact where
  type := .toolAbandoned
  payload := .obj [("call_id", .str call.id), ("name", .str call.name), ("is_error", .bool true),
    ("content", .str content), ("reason", .str reason), ("dispatched", .bool false)]

def abandonCalls (content reason : String) : List ToolCall → Task Unit
  | [] => pure ()
  | call :: calls => do
    emit (abandonedFact call content reason)
    abandonCalls content reason calls

/-- A call that may have changed the workspace is followed by a checkpoint. -/
def checkpointAfter (call : ToolCall) : Task Unit :=
  if readonlyCall c call then pure () else emitCheckpoint

/-- Successful reads never scan again: a proposed stop needs the proof of a fresh checkpoint. -/
def confirmFailureLoop (readonly : Bool) (candidate : Option Json) : Task (Option Json) :=
  if candidate.isSome && readonly then do
    emitCheckpoint
    Task.call .failureLoop
  else pure candidate

def findFailureLoop (readonly : Bool) (fingerprint : Option String) : Task (Option Json) :=
  if fingerprint.isNone then pure none
  else do
    let candidate ← Task.call .failureLoop
    confirmFailureLoop readonly candidate

/-- What a batch adds to the loop, or why the run parks. -/
inductive BatchEnd where
  | done (invalidArguments forceCompact : Bool)
  | park (message : String)

def repeatedFailure (call : ToolCall) : String :=
  "Tool " ++ call.name ++ " failed identically three times without source " ++
    "progress; session parked for an explicit decision"

/-- After a result: its fact, its checkpoint, and whether the failures repeat. -/
def recordResult (call : ToolCall) (result : ToolResult) : Task (Option Json) :=
  if ToolResult.unknown result then do
    emit (unknownFact c call result.content)
    throw (.unknownOutcome result.content)
  else do
    emit (completedFact c call result)
    if ToolResult.hasCode result "budget_exceeded" then
      throw (.budgetExceeded result.content ((result.metadata.get? "violations").getD (.arr [])))
    else do
      checkpointAfter c call
      findFailureLoop (readonlyCall c call) (failureFingerprint c call result)

def failureLoopFact (candidate : Json) : Fact where
  type := .toolFailureLoopDetected
  payload := candidate

def runBatch (x : ToolExecutor) (invalid force : Bool) : List ToolCall → Task BatchEnd
  | [] => pure (.done invalid force)
  | call :: calls => do
    emit (preparedFact c call)
    let result ← executeCall c x call
    let candidate ← recordResult c call result
    match candidate with
    | some candidate => do
      emit (failureLoopFact candidate)
      abandonCalls "Tool not dispatched: repeated failure without source progress"
        "repeated_tool_failure" calls
      pure (.park (c.cleanText (repeatedFailure call)))
    | none =>
      runBatch x (invalid || ToolResult.hasCode result "invalid_arguments")
        (force || (call.name = "compact" && !result.isError)) calls

/-! ### One step -/

def ToolCall.block (call : ToolCall) : Json := .obj [
  ("type", .str "tool_use"), ("id", .str call.id), ("name", .str call.name),
  ("input", call.arguments)]

def ModelResponse.contentBlocks (r : ModelResponse) : List Json :=
  (if r.providerItems = [] then [] else [.obj [("type", .str "provider_state"),
    ("provider", .str r.stateProvider), ("items", .arr r.providerItems)]]) ++
  (if r.text = "" then [] else [.obj [("type", .str "text"), ("text", .str r.text)]]) ++
  r.toolCalls.map ToolCall.block

/-- `b["id"]` of the `tool_use` blocks. -/
def blockIds (content : Json) : List Json :=
  (content.arr?.getD []).filterMap fun block =>
    if (block.get? "type").any (Json.pyEq · (.str "tool_use")) then block.get? "id" else none

def phase (st : LoopState) : String :=
  if st.finalizing then "finalization" else if c.jsonOutput then "tools" else "agent"

def responseContent (r : ModelResponse) : Json :=
  c.semantic (.arr (ModelResponse.contentBlocks r))

def responseFact (st : LoopState) (r : ModelResponse) : Fact where
  type := .modelResponse
  role := "assistant"
  author := "model"
  payload := .obj ([("step", .int st.steps), ("text", c.semantic (.str r.text)),
      ("message", .obj [("role", .str "assistant"), ("content", responseContent c r)]),
      ("stop_reason", .str r.stopReason), ("tool_calls", .int r.toolCalls.length),
      ("usage", r.usage), ("phase", .str (phase c st))] ++
    (if c.jsonOutput && !st.finalizing && r.toolCalls = [] && r.stopReason ∉ truncationReasons then
      [("draft_for", .str "json_object")] else []))

def duplicateIds (st : LoopState) (r : ModelResponse) : Bool :=
  !(r.toolCalls.map ToolCall.id).Nodup || r.toolCalls.any fun call =>
    st.priorIds.any (Json.pyEq · (.str call.id))

/-- The final answer of a JSON run must be one object. -/
def checkFinal (st : LoopState) (r : ModelResponse) : Task Unit :=
  if st.finalizing then
    match c.parseJson r.text with
    | some (.obj _) => pure ()
    | _ => throw (.valueError "Final model response violates response_format=json_object")
  else pure ()

/-- Where a step goes. -/
inductive StepEnd where
  | again (st : LoopState)
  | ended (e : LoopEnd)

def afterBatch (st : LoopState) : BatchEnd → Task StepEnd
  | .park message => pure (.ended (.parked .repeatedToolFailure message))
  | .done invalid force =>
    if invalid && st.parameterRepairUsed then
      throw (.runtimeError "Tool argument repair failed; no further automatic repair")
    else pure (.again { st with
      forceCompact := force, parameterRepairUsed := st.parameterRepairUsed || invalid })

/-- The text of the response, where `_semantic` leaves a string. -/
def responseText (r : ModelResponse) : String := ((c.semantic (.str r.text)).str?).getD ""

def handleResponse (x : ToolExecutor) (st : LoopState) (r : ModelResponse) : Task StepEnd := do
  if duplicateIds st r then throw (.valueError "Duplicate tool call IDs in model response")
  else do
    emit (responseFact c st r)
    let st := { st with priorIds := st.priorIds ++ blockIds (responseContent c r) }
    if r.stopReason ∈ truncationReasons then do
      abandonCalls "Tool not dispatched: model response was incomplete" "response_truncated"
        r.toolCalls
      throw (.runtimeError ("Model output truncated (" ++ r.stopReason ++ ")"))
    else if st.finalizing && r.toolCalls ≠ [] then do
      abandonCalls "Tool not dispatched: JSON finalization has no tools"
        "finalization_tools_disabled" r.toolCalls
      throw (.runtimeError "JSON finalization cannot invoke tools")
    else if r.toolCalls = [] then
      if c.jsonOutput && !st.finalizing then pure (.again { st with finalizing := true })
      else do
        checkFinal c st r
        pure (.ended (.answered (responseText c r)))
    else do
      let batch ← runBatch c x false false r.toolCalls
      afterBatch st batch

def requestFact (st : LoopState) (messages : Json) : Fact where
  type := .modelRequest
  payload := .obj [("step", .int st.steps), ("context_hash", .str (c.digest messages)),
    ("phase", .str (phase c st))]

/-- The tools that the model is shown. -/
def requestTools (st : LoopState) : List Json :=
  if st.finalizing then [] else productionToolCatalog c.schemas c.sources.table.1

/-- The task that is active, and since which step. -/
def trackTask (st : LoopState) (current : Option String) : LoopState :=
  if current = st.activeTask then st
  else { st with activeTask := current, activeSince := st.steps }

/-- The active task has used up its steps. -/
def taskOver (st : LoopState) : Option String :=
  if c.taskMaxSteps ≠ 0 ∧ c.taskMaxSteps < st.steps + 1 - st.activeSince then
    st.activeTask.filter (· ≠ "")
  else none

def taskBudgetMessage (task : String) : String :=
  "Task " ++ task ++ " reached its step budget (" ++ toString c.taskMaxSteps ++ "); session parked"

def requestModel (st : LoopState) : Task ModelResponse := do
  let messages ← Task.call (.context st.forceCompact)
  emit (requestFact c st messages)
  Task.call .tokenBudget
  Task.call (.complete (requestTools c st))

def runStep (x : ToolExecutor) (st : LoopState) : Task StepEnd := do
  Task.call .tokenBudget
  let current ← Task.call .plan
  let st := trackTask st current
  match taskOver c st with
  | some task =>
    pure (.ended (.parked .taskStepBudget (c.cleanText (taskBudgetMessage c task))))
  | none => do
    let response ← requestModel c st
    handleResponse c x { st with forceCompact := false } response

/-- `for steps in range(1, max_steps + 1)`, with the steps that remain. -/
def runSteps (x : ToolExecutor) (st : LoopState) : ℕ → Task LoopEnd
  | 0 => pure (.parked .stepBudget
      (c.cleanText ("Maximum agent steps exceeded (" ++ toString c.maxSteps ++ ")")))
  | remaining + 1 => do
    let outcome ← runStep c x { st with steps := st.steps + 1 }
    match outcome with
    | .again st => runSteps x st remaining
    | .ended e => pure e

/-! ### The whole run -/

def startedFact : Fact where
  type := .runStarted
  payload := c.started

def emitAll : List Fact → Task Unit
  | [] => pure ()
  | fact :: facts => do
    emit fact
    emitAll facts

/-- `_execute` up to its loop; the set-up before and after the facts may raise. -/
def prologue : Task ToolExecutor := do
  Task.call .setUp
  emit (startedFact c)
  emitAll c.opening
  emitCheckpoint
  Task.call .setUp
  match c.sources.executor c.schemas with
  | .ok x => pure x
  | .error e => throw e

/-- `status`, `error`, `output` and `park_kind` of the terminal fact. -/
structure Terminal where
  status : EventType
  output : String := ""
  error : Option String := none
  reason : Option ParkKind := none

/-- The park checkpoint, unless the last event of the run is one. -/
def parkCheckpoint : Task Unit := do
  let last : Option EventType ← Task.call .lastEvent
  if last = some .workspaceCheckpoint then pure () else emitCheckpoint

def conclude : LoopEnd → Task Terminal
  | .parked kind message => do
    parkCheckpoint
    pure { status := .runInterrupted, error := some message, reason := some kind }
  | .answered output => do
    Task.call .setUp
    pure { status := .runCompleted, output }

def interruptedFact (unknown : Bool) : Fact where
  type := .runInterrupted
  payload := .obj [
    ("error", .str (if unknown then "Run cancelled; tool outcome unknown, execution blocked"
      else "Run cancelled; session parked")),
    ("reason", .str (if unknown then "unknown_tool_outcome" else "cancelled"))]

/-- The `except` clauses of `_execute`. -/
def recover : Raised → Task Terminal
  | .unknownOutcome message =>
    pure { status := .runInterrupted, error := some message, reason := some .unknownToolOutcome }
  | .tokenBudget message | .budgetExceeded message _ => do
    emitCheckpoint
    pure { status := .runInterrupted, error := some message, reason := some .tokenBudget }
  | .cancelled => do
    -- Only another cancellation is suppressed here.
    let saved ← parkCheckpoint.attempt
    match saved with
    | .ok () | .error .cancelled => do
      let unknown : Bool ← Task.call .unknownOutcome
      emit (interruptedFact unknown)
      throw .cancelled
    | .error e => throw e
  | e => pure {
      status := .runFailed, error := some (c.cleanText (e.typeName ++ ": " ++ e.message)) }

def closeFailedFact (e : Raised) : Fact where
  type := .other "mcp.close_failed"
  payload := .obj [("error", .str (c.cleanText ("MCP close failed: " ++ e.message)))]

/-- `finally`: only a cancellation gets out. -/
def closeManager : Task Unit := do
  let closed ← (Task.call .closeManager).attempt
  match closed with
  | .ok () => pure ()
  | .error .cancelled => throw .cancelled
  | .error e => do
    let told ← (emit (closeFailedFact c e)).attempt
    match told with
    | .error .cancelled => throw .cancelled
    | _ => pure ()

/-- The counters, the duration and the usage of a terminal are left out. -/
def terminalFact (t : Terminal) : Fact where
  type := t.status
  payload := .obj [("output", .str t.output), ("error", t.error.elim .null .str),
    ("reason", t.reason.elim .null fun kind => .str kind.text)]

/-- The body of the `try`. -/
def loop : Task Terminal := do
  let x ← prologue c
  let finish ← runSteps c x { finalizing := c.finalizing } c.maxSteps
  conclude finish

/-- `RuntimeHost._execute`. -/
def execute : Task Unit := do
  let outcome ← ((loop c).handle (recover c)).attempt
  closeManager c
  match outcome with
  | .ok terminal => emit (terminalFact terminal)
  | .error e => throw e

/-- `_finish_admitted`: a run that was admitted and has no terminal gets one. -/
def finishedFact (e : Raised) : Fact :=
  match e with
  | .cancelled => {
      type := .runInterrupted
      payload := .obj [("error", .str "Run cancelled before execution; session parked"),
        ("reason", .str "cancelled")] }
  | e => {
      type := .runFailed
      payload := .obj [("error", .str (c.cleanText (e.typeName ++ ": " ++ e.message))),
        ("reason", .str "admission_failed")] }

/-- The task of a run, with the callback that ends it. -/
def runTask : Task Unit := do
  let outcome ← (execute c).attempt
  match outcome with
  | .ok () => pure ()
  | .error e => do
    let live : Bool ← Task.call .unfinished
    if live then Task.call (.commit (finishedFact c e)) else pure ()

end AgentLoop

end Eventide
