import Eventide.Model.Projections
import Eventide.Model.ToolExecutor
import Eventide.Model.Usage

/-! # Provider streams

Each adapter reads a response in two ways: `complete` parses the whole of it, `stream` puts it
together from the events of the provider. -/

namespace Eventide

open Outcome

/-- `normalize_provider_usage`. -/
def normalizeProviderUsage (provider : String) (usage : Json) : Dict String ℕ :=
  let number (value : Json) (key : String) : Option ℕ := (value.get? key).bind Json.count?
  let put (result : Dict String ℕ) (key : String) (count : Option ℕ) : Dict String ℕ :=
    count.elim result (result.set key)
  let total (inputs outputs : String) : Dict String ℕ :=
    put (put .empty "input_tokens" (number usage inputs)) "output_tokens" (number usage outputs)
  -- OpenAI's total input includes the cached tokens.
  let detailed (result : Dict String ℕ) (inputs outputs : String) : Dict String ℕ :=
    let cached := (number (usage.getNull (inputs ++ "_tokens_details")) "cached_tokens").or
      (number usage "prompt_cache_hit_tokens")
    let result := put result "cache_read_input_tokens" cached
    let result := put result "cache_miss_input_tokens" (number usage "prompt_cache_miss_tokens")
    put result "reasoning_tokens"
      (number (usage.getNull (outputs ++ "_tokens_details")) "reasoning_tokens")
  if provider = "openai_compatible" then
    detailed (total "prompt_tokens" "completion_tokens") "prompt" "completion"
  else if provider = "openai_responses" then
    detailed (total "input_tokens" "output_tokens") "input" "output"
  else if provider = "anthropic" then
    let result := total "input_tokens" "output_tokens"
    let reads := number usage "cache_read_input_tokens"
    let writes := number usage "cache_creation_input_tokens"
    let result := put (put result "cache_read_input_tokens" reads)
      "cache_creation_input_tokens" writes
    -- The base input counter excludes both cache buckets.
    match result.get? "input_tokens" with
    | some input =>
      if reads.isSome || writes.isSome then
        (result.set "uncached_input_tokens" input).set "input_tokens"
          (input + (reads.getD 0 + writes.getD 0))
      else result
    | none => result
  else Dict.ofList (normalizeUsage usage)

/-- A dictionary of counters. -/
def countersOf (usage : Dict String ℕ) : Json :=
  .obj (usage.entries.map fun (key, count) => (key, .int count))

def Json.isNull : Json → Bool
  | null => true
  | _ => false

namespace Providers

def maxStreamBytes : ℕ := 8 * 1024 * 1024

def maxStreamItems : ℕ := 128

def maxStreamEvents : ℕ := 65536

/-- What the adapters take from Python. -/
structure Standard where
  /-- `str(value)`, for a value that is no string. -/
  pyStr : Json → String
  /-- `json.dumps(value, ensure_ascii=False)`. -/
  dumps : Json → String
  /-- `json.loads(text)`, with `none` for a `JSONDecodeError`. -/
  loads : String → Option Json
  /-- The items of `dict(value)`, for a value that is no dictionary. -/
  dictItems : Json → Except PyError (List (String × Json))
  /-- `str(exc)`, of an exception that is no `ProviderError`. -/
  errorText : PyError → String

def Standard.str (std : Standard) (value : Json) : String := value.str?.getD (std.pyStr value)

structure ProviderError where
  message : String
  retryable : Bool := false

def failed (message : String) : PyError := .raised "ProviderError" message

/-- `stream_error`, of an exception after the stream has started. -/
def streamError (std : Standard) : PyError → ProviderError
  | .raised name message =>
    if name = "ProviderError" then { message } else { message := std.errorText (.raised name message) }
  | e => { message := std.errorText e }

/-- `field(value, name, default)`. -/
def field (value : Json) (name : String) (default : Json) : Json := (value.get? name).getD default

structure StreamLimit where
  size : ℕ := 0
  events : ℕ := 0

def StreamLimit.event (limit : StreamLimit) : Except PyError StreamLimit :=
  if limit.events + 1 > maxStreamEvents then
    .error (failed "Model stream exceeded the event count limit")
  else .ok { limit with events := limit.events + 1 }

def StreamLimit.add (limit : StreamLimit) (value : String) : Except PyError StreamLimit :=
  if limit.size + value.utf8ByteSize > maxStreamBytes then
    .error (failed "Model stream exceeded the response byte limit")
  else .ok { limit with size := limit.size + value.utf8ByteSize }

variable (std : Standard)

/-- `parse_arguments`. -/
def parseArguments (value : String) : Json :=
  match std.loads (if value = "" then "{}" else value) with
  | some (.obj fields) => .obj fields
  | _ => .obj [("_invalid_json", .str value)]

/-- What has been yielded, and how the stream ended. -/
structure Streamed where
  sent : List String
  result : Except ProviderError ModelResponse

/-! ### Anthropic -/

namespace Anthropic

structure Parsed where
  texts : List String := []
  calls : List ToolCall := []
  state : List Json := []

/-- The items of `dict(value)`. -/
def dictOf (value : Json) : Except PyError (List (String × Json)) :=
  match value with
  | .obj _ => .ok value.items
  | _ => std.dictItems value

def parseBlock (parsed : Parsed) (block : Json) : Except PyError Parsed := do
  let kind := field block "type" (.str "")
  if kind.pyEq (.str "text") then
    return { parsed with texts := parsed.texts ++ [std.str (field block "text" (.str ""))] }
  else if kind.pyEq (.str "tool_use") then do
    let input ← dictOf std (field block "input" (.obj []))
    let call : ToolCall := ⟨std.str (field block "id" (.str "")),
      std.str (field block "name" (.str "")), .obj input⟩
    return { parsed with calls := parsed.calls ++ [call] }
  else
    match kind.hashError? with
    | some e => .error e
    | none =>
      if kind.pyEq (.str "thinking") || kind.pyEq (.str "redacted_thinking") then
        return { parsed with state := parsed.state ++ [block] }
      else return parsed

/-- `parse_message`. -/
def parseMessage (response : Json) : Except PyError ModelResponse := do
  let content := field response "content" (.arr [])
  let blocks ← if content.truthy then content.iterate else .ok []
  let parsed ← blocks.foldlM (parseBlock std) {}
  return {
    text := "\n".intercalate parsed.texts
    toolCalls := parsed.calls
    stopReason := std.str (field response "stop_reason" (.str "end_turn"))
    usage := countersOf (normalizeProviderUsage "anthropic" (field response "usage" .null))
    providerItems := parsed.state
    stateProvider := "anthropic" }

inductive Kind where
  | messageStart | ping | blockStart | blockDelta | blockStop | messageDelta | messageStop | error
  | other
  deriving DecidableEq

def Kind.ofText (text : String) : Kind :=
  if text = "message_start" then .messageStart
  else if text = "ping" then .ping
  else if text = "content_block_start" then .blockStart
  else if text = "content_block_delta" then .blockDelta
  else if text = "content_block_stop" then .blockStop
  else if text = "message_delta" then .messageDelta
  else if text = "message_stop" then .messageStop
  else if text = "error" then .error
  else .other

/-- `field(event, "type", "")`. -/
def kind (event : Json) : Kind := ((event.get? "type").bind Json.str?).elim .other Kind.ofText

/-- The local variables of `stream`. -/
structure State where
  messageStarted : Bool := false
  messageStopped : Bool := false
  stopReason : Option String := none
  limit : StreamLimit := {}
  blocks : Dict ℕ Json := .empty
  openBlocks : List ℕ := []
  jsonParts : Dict ℕ (List String) := .empty
  usage : Dict String Json := .empty
  sent : List String := []

/-- The items of `value or {}`. -/
def itemsOr (value : Json) : Except PyError (List (String × Json)) :=
  if value.truthy then dictOf std value else .ok []

def startMessage (st : State) (event : Json) : Except PyError State :=
  if st.messageStarted then .error (failed "Model stream repeated message_start")
  else do
    let items ← itemsOr std (field (field event "message" .null) "usage" .null)
    return { st with
      messageStarted := true
      usage := (st.usage.update items).erase "output_tokens" }

def startBlock (st : State) (event : Json) : Except PyError State :=
  match field event "index" .null with
  | .int n =>
    if 0 ≤ n ∧ n < maxStreamItems then
      if st.blocks.contains n.toNat then .error (failed "Model stream repeated a content block")
      else
        let block := field event "content_block" .null
        if block.isObj then do
          let limit ← st.limit.add (std.dumps block)
          let visible := block.fieldIs "type" "text" && (block.get? "text").any Json.truthy
          return { st with
            limit
            blocks := st.blocks.set n.toNat block
            openBlocks := st.openBlocks ++ [n.toNat]
            sent := st.sent ++ if visible then [std.str (field block "text" .null)] else [] }
        else .error (failed "Invalid model stream content block")
    else .error (failed "Invalid model stream content block index")
  | _ => .error (failed "Invalid model stream content block index")

/-- The open block of an index, `index not in open_blocks` being refused. -/
def openIndex (st : State) (event : Json) (message : String) : Except PyError ℕ :=
  let index := field event "index" .null
  match index.hashError? with
  | some e => .error e
  | none =>
    match st.openBlocks.find? fun i : ℕ => index.pyEq (.int i) with
    | some i => .ok i
    | none => .error (failed message)

/-- `keys`: the key that a delta appends to, and the type of its block. -/
def deltaKeys : List (String × String × String) :=
  [("text_delta", "text", "text"), ("thinking_delta", "thinking", "thinking"),
    ("signature_delta", "signature", "thinking")]

/-- `block[key] = str(block.get(key, "")) + part`. -/
def appendPart (block : Json) (key part : String) : Json :=
  block.withField key (.str (std.str (field block key (.str "")) ++ part))

def addDelta (st : State) (event : Json) : Except PyError State := do
  let index ← openIndex st event "Model stream delta has no open content block"
  let block := (st.blocks.get? index).getD .null
  let delta := field event "delta" .null
  let deltaKind := field delta "type" .null
  if deltaKind.pyEq (.str "input_json_delta") then
    if block.fieldIs "type" "tool_use" then do
      let part := std.str (field delta "partial_json" (.str ""))
      let limit ← st.limit.add part
      let parts := (st.jsonParts.get? index).getD []
      return { st with limit, jsonParts := st.jsonParts.set index (parts ++ [part]) }
    else .error (failed "Tool JSON delta mismatched its content block")
  else
    match deltaKind.hashError? with
    | some e => .error e
    | none =>
      match deltaKind.str?.bind fun name => deltaKeys.lookup name with
      | none => return st
      | some (key, expected) =>
        if block.fieldIs "type" expected then do
          let part := std.str (field delta key (.str ""))
          let limit ← st.limit.add part
          let visible := key = "text" && part ≠ ""
          return { st with
            limit
            blocks := st.blocks.set index (appendPart std block key part)
            sent := st.sent ++ if visible then [part] else [] }
        else .error (failed "Model stream delta mismatched its content block")

def stopBlock (st : State) (event : Json) : Except PyError State := do
  let index ← openIndex st event "Model stream stopped an unknown content block"
  let block := (st.blocks.get? index).getD .null
  return { st with
    openBlocks := st.openBlocks.erase index
    blocks := match st.jsonParts.get? index with
      | some parts =>
        st.blocks.set index (block.withField "input" (parseArguments std (String.join parts)))
      | none => st.blocks }

def addMessageDelta (st : State) (event : Json) : Except PyError State := do
  let reason := field (field event "delta" .null) "stop_reason" .null
  let values := field event "usage" .null
  let items ← if values.truthy then
      match values with
      | .obj _ => .ok (values.items.filter fun entry => !entry.2.isNull)
      | _ => .error Json.attributeError
    else .ok []
  return { st with
    stopReason := if reason.isNull then st.stopReason else some (std.str reason)
    usage := st.usage.update items }

def stopMessage (st : State) : Except PyError State :=
  if st.openBlocks ≠ [] ∨ st.stopReason = none then
    .error (failed "Model stream stopped before completing its content")
  else .ok { st with messageStopped := true }

/-- The body of the loop. -/
def step (st : State) (event : Json) : Except PyError State := do
  let limit ← st.limit.event
  let st := { st with limit }
  match kind event with
  | .messageStart => startMessage std st event
  | .ping => return st
  | kind =>
    if !st.messageStarted then
      .error (failed "Model stream event arrived before message_start")
    else
      match kind with
      | .blockStart => startBlock std st event
      | .blockDelta => addDelta std st event
      | .blockStop => stopBlock std st event
      | .messageDelta => addMessageDelta std st event
      | .messageStop => stopMessage st
      | .error => .error (failed "Model message stream failed")
      | _ => return st

/-- The events up to `message_stop`, and what the transport raises after the last one. -/
def read (ends : Option PyError) : List Json → State → State × Option PyError
  | [], st => (st, ends)
  | event :: events, st =>
    match step std st event with
    | .error e => (st, some e)
    | .ok st' => if st'.messageStopped then (st', none) else read ends events st'

/-- The message that has been put together. -/
def State.message (st : State) : Json := .obj [
  ("content", .arr (st.blocks.sorted.map Prod.snd)),
  ("usage", .obj st.usage.entries), ("stop_reason", st.stopReason.elim .null .str)]

/-- `AnthropicProvider.stream`, of the events that the provider sends and of what closing its stream
raises, which takes the place of an earlier exception. -/
def stream (events : List Json) (ends closes : Option PyError) : Streamed :=
  let (st, error) := read std ends events {}
  { sent := st.sent
    result := Except.mapError (streamError std) <|
      match closes.or error with
      | some e => .error e
      | none =>
        if st.messageStopped then parseMessage std st.message
        else .error (failed "Model stream ended without message_stop") }

end Anthropic

/-! ### Chat completions -/

namespace Chat

/-- What has come of a call. -/
structure CallParts where
  id : String := ""
  name : String := ""
  arguments : String := ""
  deriving DecidableEq

/-- The local variables of `stream`. -/
structure State where
  limit : StreamLimit := {}
  textParts : List String := []
  reasoning : List String := []
  calls : Dict ℕ CallParts := .empty
  finishReason : Option String := none
  usage : Dict String ℕ := .empty
  sent : List String := []

/-- `if isinstance(value, str): target[key] += limit.add(value)`. -/
def addPart (limit : StreamLimit) (target : String) (value : Json) :
    Except PyError (StreamLimit × String) :=
  match value with
  | .str part => do
    let limit ← limit.add part
    return (limit, target ++ part)
  | _ => .ok (limit, target)

/-- The body of the loop over the calls of a choice. -/
def addCall (st : State) (call : Json) : Except PyError State :=
  match field call "index" .null with
  | .int n =>
    if 0 ≤ n ∧ n < maxStreamItems then do
      let target := (st.calls.get? n.toNat).getD {}
      let function := field call "function" .null
      let (limit, id) ← addPart st.limit target.id (field call "id" .null)
      let (limit, name) ← addPart limit target.name (field function "name" .null)
      let (limit, arguments) ← addPart limit target.arguments (field function "arguments" .null)
      return { st with limit, calls := st.calls.set n.toNat { id, name, arguments } }
    else .error (failed "Invalid model stream tool index")
  | _ => .error (failed "Invalid model stream tool index")

/-- `field(choice, "index", 0) != 0`; strings and lists have a method of this name. -/
def isExpected (choice : Json) : Bool :=
  match choice with
  | .str _ | .arr _ => false
  | _ => (field choice "index" (.int 0)).pyEq (.int 0)

/-- `value or []`, of what is iterated. -/
def iterateOr (value : Json) : Except PyError (List Json) :=
  if value.truthy then value.iterate else .ok []

def addText (st : State) (visible : Json) : Except PyError State :=
  match visible with
  | .str text =>
    if text = "" then .ok st
    else do
      let limit ← st.limit.add text
      return { st with limit, textParts := st.textParts ++ [text], sent := st.sent ++ [text] }
  | _ => .ok st

def addThought (st : State) (thought : Json) : Except PyError State :=
  match thought with
  | .str text => do
    let limit ← st.limit.add text
    return { st with limit, reasoning := st.reasoning ++ [text] }
  | _ => .ok st

/-- The body of the loop over the choices of a chunk, as far as the text that it yields. -/
def enterChoice (st : State) (choice : Json) : Except PyError State :=
  if st.finishReason.isSome then
    .error (failed "Model stream returned data after its terminal choice")
  else if !isExpected choice then .error (failed "Model stream returned an unexpected choice")
  else addText st (field (field choice "delta" .null) "content" .null)

def addChoice (st : State) (choice : Json) : Except PyError State := do
  let st ← enterChoice st choice
  let delta := field choice "delta" .null
  let st ← addThought st (field delta "reasoning_content" .null)
  let calls ← iterateOr (field delta "tool_calls" (.arr []))
  let st ← calls.foldlM addCall st
  let reason := field choice "finish_reason" .null
  return { st with
    finishReason := if reason.isNull then st.finishReason else some (std.str reason) }

/-- The body of the loop over the chunks, up to the choices. -/
def enterChunk (st : State) (chunk : Json) : Except PyError (State × List Json) := do
  let limit ← st.limit.event
  let reported := field chunk "usage" .null
  let usage := if reported.isNull then st.usage
    else normalizeProviderUsage "openai_compatible" reported
  let choices ← iterateOr (field chunk "choices" (.arr []))
  return ({ st with limit, usage }, choices)

def addChunk (st : State) (chunk : Json) : Except PyError State := do
  let (st, choices) ← enterChunk st chunk
  choices.foldlM (addChoice std) st

/-- What has been yielded when one of the choices raises. -/
def yielded : List Json → State → List String
  | [], st => st.sent
  | choice :: choices, st =>
    match addChoice std st choice with
    | .ok st' => yielded choices st'
    | .error _ => (enterChoice st choice).toOption.elim st.sent State.sent

/-- What has been yielded when the chunk raises. -/
def yieldedBy (st : State) (chunk : Json) : List String :=
  match enterChunk st chunk with
  | .ok (st', choices) => yielded std choices st'
  | .error _ => st.sent

def finishCall (parts : CallParts) : Except PyError ToolCall :=
  if parts.id = "" ∨ parts.name = "" then
    .error (failed "Model stream returned an incomplete tool identity")
  else .ok ⟨parts.id, parts.name, parseArguments std parts.arguments⟩

/-- The response that has been put together. -/
def finish (st : State) : Except PyError ModelResponse :=
  match st.finishReason with
  | none => .error (failed "Model stream ended without a finish reason")
  | some reason => do
    let calls ← (st.calls.sorted.map Prod.snd).mapM (finishCall std)
    return {
      text := String.join st.textParts
      toolCalls := calls
      stopReason := reason
      usage := countersOf st.usage
      providerItems := if st.reasoning = [] then []
        else [.obj [("reasoning_content", .str (String.join st.reasoning))]]
      stateProvider := "openai_compatible" }

def read (ends : Option PyError) : List Json → State → State × Option PyError
  | [], st => (st, ends)
  | chunk :: chunks, st =>
    match addChunk std st chunk with
    | .error e => ({ st with sent := yieldedBy std st chunk }, some e)
    | .ok st' => read ends chunks st'

/-- `OpenAICompatibleProvider.stream`, of the chunks that the provider sends and of what closing its
stream raises. -/
def stream (chunks : List Json) (ends closes : Option PyError) : Streamed :=
  let (st, error) := read std ends chunks {}
  { sent := st.sent
    result := Except.mapError (streamError std) <|
      match closes.or error with
      | some e => .error e
      | none => finish std st }

/-- `getattr(value, name)`. -/
def getAttribute (value : Json) (name : String) : Except PyError Json :=
  match value.get? name with
  | some item => .ok item
  | none => .error (.raised "AttributeError" name)

/-- An attribute that the SDK declares as a string. -/
def textAttribute (value : Json) (name : String) : Except PyError String := do
  match ← getAttribute value name with
  | .str text => .ok text
  | _ => .error (.type "not a string")

/-- `value or default`, of an attribute that the SDK declares as a string or `None`. -/
def textOr (value : Json) (default : String) : Except PyError String :=
  match value with
  | .null => .ok default
  | .str text => .ok (if text = "" then default else text)
  | _ => .error (.type "not a string")

def parseCall (call : Json) : Except PyError ToolCall := do
  let function ← getAttribute call "function"
  let arguments ← textOr (← getAttribute function "arguments") "{}"
  let id ← textAttribute call "id"
  let name ← textAttribute function "name"
  return ⟨id, name, parseArguments std arguments⟩

/-- What `OpenAICompatibleProvider.complete` makes of the response. -/
def parseCompletion (response : Json) : Except PyError ModelResponse := do
  let choice ← match ← getAttribute response "choices" with
    | .arr (choice :: _) => .ok choice
    | .arr [] => .error (.raised "IndexError" "list index out of range")
    | _ => .error (.type "not a list")
  let message ← getAttribute choice "message"
  let calls ← (← iterateOr (← getAttribute message "tool_calls")).mapM (parseCall std)
  let text ← textOr (← getAttribute message "content") ""
  let reason ← textOr (← getAttribute choice "finish_reason") "stop"
  return {
    text
    toolCalls := calls
    stopReason := reason
    usage := countersOf (normalizeProviderUsage "openai_compatible" (field response "usage" .null))
    providerItems := match message.get? "reasoning_content" with
      | some (.str reasoning) => [.obj [("reasoning_content", .str reasoning)]]
      | _ => []
    stateProvider := "openai_compatible" }

end Chat

end Providers

end Eventide
