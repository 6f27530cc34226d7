import Eventide.Library.Interaction
import Eventide.Model.ModelBudget
import Eventide.Model.PyText

/-! # Model calls

`RuntimeHost._complete_with_retry` and `_complete_request`: every await and every call of the
store, the memory or the provider is a question. Previews of a stream are not durable and are
left out. What a provider answers is text of Python, and no fact is written that holds a surrogate. -/

namespace Eventide.ModelCalls

open Interaction Interaction.Program

/-- A value that a provider sends. -/
inductive PyJson where
  | null
  | bool (value : Bool)
  | int (value : ℤ)
  | float (value : ℚ)
  | str (text : PyStr)
  | arr (items : List PyJson)
  | obj (fields : List (PyStr × PyJson))

structure ToolCall where
  id : PyStr
  name : PyStr
  arguments : PyJson

structure ModelResponse where
  text : PyStr := []
  toolCalls : List ToolCall := []
  stopReason : PyStr := .ofString "end_turn"
  usage : Dict PyStr ℕ := Dict.empty
  providerItems : List PyJson := []
  stateProvider : PyStr := .ofString "openai_responses"

/-- The usage with its names as a fact holds them. -/
def ModelResponse.reported? (response : ModelResponse) : Option (Dict String ℕ) :=
  (response.usage.entries.mapM fun (p : PyStr × ℕ) => p.1.string?.map fun name => (name, p.2)).map
    Dict.ofLookup

/-- The exceptions that `_complete_with_retry` tells apart. -/
inductive CallError where
  /-- `asyncio.TimeoutError`. -/
  | timeout
  /-- `asyncio.CancelledError`, which is no `Exception`. -/
  | cancelled
  | provider (message : PyStr) (retryable : Bool := false)
  | python (error : PyError)

/-- A provider's error with a message of the source. -/
def providerError (message : String) : CallError := .provider (.ofString message)

inductive StreamEvent where
  | textDelta (text : PyStr)
  | responseCompleted (response : Option ModelResponse)
  | unknown (kind : String)

inductive Ask where
  /-- `__aenter__` of the model slot. -/
  | slot
  /-- `uuid.uuid4().hex`. -/
  | uuid
  | clock
  /-- `_admitted_intent`. -/
  | admitted
  /-- `memory.context`: the prompt and the ids of its references. -/
  | memory
  | begin (request : ModelRequest) (identity : Json)
  /-- `get_run` and `append_fact` of `_emit`, with no payload where a text of it has no UTF-8. -/
  | emit (kind : EventType) (payload : Option Json)
  /-- `sink.emit`. -/
  | deliver
  /-- The memory of the request again, with its `memory.injected`. -/
  | inject (allowed : List String) (requestId attemptId : String)
  /-- Whether `_provider()` streams. -/
  | provider
  | complete (request : ModelRequest)
  /-- The events of the stream, and the exception that cuts it off. -/
  | stream (request : ModelRequest)
  /-- `finish`, with no identity where a text of it has no UTF-8. -/
  | finish (identity : Option Json)
  | sleep (quarters : ℕ)

abbrev Ask.Reply : Ask → Type
  | slot | emit _ _ | deliver | sleep _ => Unit
  | uuid | inject _ _ _ => String
  | clock => ℚ
  | admitted => Option Json
  | memory => String × List String
  | begin _ _ | finish _ => Receipt
  | provider => Bool
  | complete _ => ModelResponse
  | stream _ => List StreamEvent × Option CallError

abbrev Call (α : Type) := Program Ask Ask.Reply CallError α

/-- The arguments of `_complete_with_retry`, and what it reads of its host. -/
structure CallConfig where
  runId : String
  request : ModelRequest
  sink : Bool := false
  kind : String := "agent"
  maxAttempts : Json := .int 3
  evaluationOrigin : Option Json := none
  memoryBaseSystem : Option String := none
  /-- `is_evaluation_run`. -/
  evaluationRun : Bool := false
  memoryEnabled : Bool := false
  /-- `settings.provider`. -/
  providerName : String
  /-- The provider has a callable `stream`; it stays while a run is active. -/
  streams : Bool := false
  /-- `f"{settings.model_timeout:g}"`. -/
  timeoutText : String := ""
  /-- `_clean`. -/
  clean : PyStr → PyStr := id

/-- A question of the call. -/
def ask (q : Ask) : Call q.Reply := call q

def value {α : Type} (message : String) : Call α := throw (.python (.value message))

def ofExcept {α : Type} : Except CallError α → Call α
  | .ok value => pure value
  | .error error => throw error

/-! ## `_complete_request` -/

/-- The loop over the stream, with the response completed so far. -/
def readStream : List StreamEvent → Option ModelResponse → Except CallError (Option ModelResponse)
  | [], completed => .ok completed
  | _ :: _, some _ =>
    .error (providerError "Model stream emitted data after its terminal response")
  | .textDelta _ :: events, none => readStream events none
  | .responseCompleted (some response) :: events, none => readStream events (some response)
  | .responseCompleted none :: _, none =>
    .error (providerError "Invalid duplicate or missing stream terminal")
  | .unknown _ :: _, none => .error (providerError "Unknown model stream event")

/-- What the `try` around the stream leaves. -/
def streamOutcome (events : List StreamEvent) (stop : Option CallError) :
    Except CallError ModelResponse := do
  let completed ← readStream events none
  match stop, completed with
  | some error, _ => .error error
  | none, some response => .ok response
  | none, none => .error (providerError "Model stream ended without a complete response")

/-- `except ProviderError`: what was observed cannot be asked again. -/
def sealed (events : List StreamEvent) : CallError → CallError
  | .provider message retryable => .provider message (retryable && events.isEmpty)
  | error => error

variable (c : CallConfig)

/-- The memory that is eligible at dispatch. -/
def dispatchRequest (request : ModelRequest) (allowed : List String) (requestId attemptId : String) :
    Call ModelRequest :=
  match c.memoryBaseSystem with
  | some base =>
    if c.memoryEnabled then do
      let prompt ← ask (.inject allowed requestId attemptId)
      return { request with system := base ++ prompt }
    else return request
  | none => return request

/-- `_complete_request`. -/
def completeRequest (request : ModelRequest) (allowed : List String)
    (requestId attemptId : String) : Call ModelResponse := do
  let request ← dispatchRequest c request allowed requestId attemptId
  let streams ← ask .provider
  if streams ∧ c.kind = "agent" then do
    let (events, stop) ← ask (.stream request)
    ofExcept ((streamOutcome events stop).mapError (sealed events))
  else ask (.complete request)

/-! ## `_complete_with_retry` -/

/-- `suppress(Exception)`. -/
def suppress (p : Call Unit) : Call Unit := do
  match ← p.attempt with
  | .error .cancelled => throw .cancelled
  | _ => return ()

/-- `_notify_model_attempt`, and the sink of `_emit`. -/
def notify : Call Unit := if c.sink then suppress (ask .deliver) else pure ()

/-- `_emit`. -/
def emit (kind : EventType) (payload : Option Json) : Call Unit := do
  ask (.emit kind payload)
  notify c

/-- `budget.warning`, when a receipt has any. -/
def warn (attemptId : String) (receipt : Receipt) : Call Unit :=
  if receipt.warnings = [] then pure ()
  else emit c (.other "budget.warning") (some (.obj [("attempt_id", .str attemptId),
    ("budgets", .arr (receipt.warnings.map fun bucket => .obj bucket.fields))]))

/-- The fields that the start and the finish of an attempt share. -/
def identity (requestId attemptId callKind : String) (attempt : ℕ) : Json :=
  .obj ([("request_id", .str requestId), ("attempt_id", .str attemptId),
    ("attempt", Json.ofNat attempt), ("kind", .str callKind), ("model", .str c.request.model),
    ("generation", c.request.generation), ("max_output_tokens", .int c.request.maxTokens),
    ("provider", .str c.providerName)] ++
    ((c.request.phase.filter (· ≠ "")).toList.map fun phase => ("phase", .str phase)) ++
    (c.evaluationOrigin.toList.map fun origin => ("evaluation_origin", origin)))

/-- The request of an attempt, with the memory of this moment. -/
def attemptRequest : Call (ModelRequest × List String) :=
  match c.memoryBaseSystem with
  | some base => do
    let (prompt, refs) ← ask .memory
    return ({ c.request with system := base ++ prompt }, refs)
  | none => return (c.request, [])

/-- The reservation, whose refusal is reported. -/
def reserve (request : ModelRequest) (requestId : String) (identity : Json) : Call Receipt := do
  match ← (ask (.begin request identity)).attempt with
  | .ok receipt => return receipt
  | .error (.python (.budgetExceeded violations)) => do
    emit c (.other "budget.blocked")
      (some (.obj [("request_id", .str requestId), ("violations", .arr violations)]))
    throw (.python (.budgetExceeded violations))
  | .error error => throw error

/-- The body of the inner `try`. -/
def send (request : ModelRequest) (refs : List String) (requestId attemptId : String)
    (receipt : Receipt) : Call ModelResponse := do
  notify c
  warn c attemptId receipt
  completeRequest c request refs requestId attemptId

/-- `(time.perf_counter() - started) * 1000`. -/
def durationMs (started stopped : ℚ) : Json := .float ((stopped - started) * 1000)

/-- The finish fact of an attempt without a response. -/
def failedIdentity (identity : Json) (exc : CallError) (started stopped : ℚ) : Json :=
  identity.merge (.obj [("status", .str (match exc with
      | .cancelled => "cancelled"
      | _ => "failed")),
    ("usage_source", .str "unknown"), ("duration_ms", durationMs started stopped)])

/-- The finish fact of an attempt with a response. -/
def completedIdentity (identity : Json) (response : ModelResponse) (started stopped : ℚ) :
    Option Json := do
  let usage ← response.reported?
  let stopReason ← response.stopReason.string?
  return identity.merge (.obj [("status", .str "completed"), ("usage", countersJson usage),
    ("usage_source", .str (if response.usage.entries = [] then "unknown" else "reported")),
    ("stop_reason", .str stopReason), ("duration_ms", durationMs started stopped)])

/-- `kind == "agent" and callable(getattr(self._provider(), "stream", None))`. -/
def streaming : Call Bool := if c.kind = "agent" then ask .provider else pure false

/-- What follows a timeout or a provider's error: the next attempt, or the exception. -/
def retry (identity : Json) (limit attempt : ℕ) (transient : Bool) (message : PyStr)
    (raised : CallError) : Call Unit := do
  let streaming ← streaming c
  emit c .modelRetry (message.string?.map fun error => identity.merge (.obj [
    ("retryable", .bool (transient && !streaming && decide (attempt < limit))),
    ("error", .str error)]))
  if (transient && !streaming) = false ∨ attempt = limit then throw raised else return ()

/-- `except BaseException as exc`. -/
def settleFailed (identity : Json) (limit attempt : ℕ) (started : ℚ) (exc : CallError) :
    Call Unit := do
  let stopped ← ask .clock
  let _ ← ask (.finish (some (failedIdentity identity exc started stopped)))
  match exc with
  | .timeout =>
    let message := s!"Model request timed out ({c.timeoutText}s)"
    retry c identity limit attempt true (.ofString message) (.python (.runtime message))
  | .provider message retryable =>
    retry c identity limit attempt retryable (c.clean message) (.provider message retryable)
  | _ => throw exc

/-- The `else` of the inner `try`. -/
def settleCompleted (identity : Json) (attemptId : String) (started : ℚ)
    (response : ModelResponse) : Call Unit := do
  let stopped ← ask .clock
  let settled ← ask (.finish (completedIdentity identity response started stopped))
  notify c
  warn c attemptId settled

/-- One round of the loop, up to the sleep: the response, or `none` to try again. -/
def oneAttempt (requestId callKind : String) (limit attempt : ℕ) :
    Call (Option ModelResponse) := do
  ask .slot
  let hex ← ask .uuid
  let attemptId := "attempt_" ++ hex
  let started ← ask .clock
  let identity := identity c requestId attemptId callKind attempt
  let (request, refs) ← attemptRequest c
  let receipt ← reserve c request requestId identity
  match ← (send c request refs requestId attemptId receipt).attempt with
  | .error exc => do
    settleFailed c identity limit attempt started exc
    return none
  | .ok response => do
    settleCompleted c identity attemptId started response
    return some response

/-- `for attempt in range(1, max_attempts + 1)`. -/
def attempts (requestId callKind : String) (limit : ℕ) : ℕ → ℕ → Call ModelResponse
  | 0, _ => throw (.python (.runtime "Model attempts exhausted"))
  | left + 1, attempt => do
    match ← oneAttempt c requestId callKind limit attempt with
    | some response => return response
    | none => do
      ask (.sleep (2 ^ (attempt - 1)))
      attempts requestId callKind limit left (attempt + 1)

def attemptLimit : Json → Except CallError ℕ
  | .int n =>
    if 1 ≤ n ∧ n ≤ 3 then .ok n.toNat else .error (.python (.value "Invalid model attempt limit"))
  | _ => .error (.python (.value "Invalid model attempt limit"))

/-- `"worker" if kind == "agent" and admitted.get("parent_run_id") else kind`. -/
def callKind (admitted : Option Json) : String :=
  if c.kind = "agent" ∧ ((admitted.getD (.obj [])).getNull "parent_run_id").truthy then "worker"
  else c.kind

def checkOrigin : Call Unit :=
  if c.evaluationOrigin.isSome ∧ c.evaluationRun = false then
    value "Evaluation origin requires a trusted control Run"
  else pure ()

/-- `_complete_with_retry`, outside an evaluation bridge. -/
def completeWithRetry : Call ModelResponse := do
  checkOrigin c
  let limit ← ofExcept (attemptLimit c.maxAttempts)
  let hex ← ask .uuid
  let admitted ← ask .admitted
  attempts c ("request_" ++ hex) (callKind c admitted) limit limit 1

end Eventide.ModelCalls
