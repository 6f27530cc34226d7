import Eventide.Model.Event

/-! # MessagesProjection

The conversation that a log stands for: its messages in order, and after an assistant message
with tool calls one user message that holds their results. -/

namespace Eventide

namespace Json

def attributeError : PyError := .raised "AttributeError" "object has no attribute 'get'"

/-- `value.get(key)`; only a dictionary has the method. -/
def getAttr (value : Json) (key : String) : Except PyError (Option Json) :=
  if value.isObj then .ok (value.get? key) else .error attributeError

/-- The items of `for item in value`. -/
def iterate : Json → Except PyError (List Json)
  | arr items => .ok items
  | obj fields => .ok ((Dict.ofLookup fields).keys.map str)
  | str text => .ok (text.toList.map fun c => str (String.singleton c))
  | _ => .error (.type "object is not iterable")

/-- What `hash(value)` raises. -/
def hashError? : Json → Option PyError
  | arr _ => some (.type "unhashable type: 'list'")
  | obj _ => some (.type "unhashable type: 'dict'")
  | _ => none

/-- `value in members`, for the members of a set. -/
def inSet (members : List Json) (value : Json) : Bool := members.any (pyEq · value)

/-- `value.get(key) == text`. -/
def fieldIs (value : Json) (key text : String) : Bool :=
  (value.get? key).any (pyEq · (str text))

end Json

/-- The types whose payload may hold a message. -/
def EventType.holdsMessage : EventType → Bool
  | messageUser | messageImported | modelResponse => true
  | _ => false

/-- The types that pair a tool call. -/
def EventType.pairsCall : EventType → Bool
  | toolCompleted | toolAbandoned => true
  | _ => false

structure MessagesProjection where
  messages : List Json := []
  pending : List Json := []
  results : List Json := []

namespace MessagesProjection

/-- `{b["id"] for b in content if b.get("type") == "tool_use"}`, one block at a time. -/
def addToolUse (ids : List Json) (block : Json) : Except PyError (List Json) :=
  if block.isObj then
    if block.fieldIs "type" "tool_use" then
      match block.get? "id" with
      | none => .error (.key "id")
      | some callId =>
        match callId.hashError? with
        | some e => .error e
        | none => .ok (if Json.inSet ids callId then ids else ids ++ [callId])
    else .ok ids
  else .error Json.attributeError

def toolUses (content : List Json) : Except PyError (List Json) := content.foldlM addToolUse []

/-- The list of an assistant message's content. -/
def assistantContent (message : Json) : Except PyError (Option (List Json)) :=
  if message.isObj then
    match message.get? "role" with
    | none => .error (.key "role")
    | some role =>
      .ok (if Json.pyEq role (.str "assistant") then (message.get? "content").bind Json.arr?
        else none)
  else .error Json.attributeError

def addMessage (st : MessagesProjection) (message : Json) : Except PyError MessagesProjection := do
  let content ← assistantContent message
  match content with
  | none => .ok { st with messages := st.messages ++ [message] }
  | some content => do
    let pending ← toolUses content
    return { st with messages := st.messages ++ [message], pending }

variable (resultContent : Option (Event → Json))

def resultText (e : Event) : Json :=
  match resultContent, e.type with
  | some content, .toolCompleted => content e
  | _, _ => (e.payload.get? "content").getD (.str "Tool abandoned after interruption")

def resultBlock (e : Event) (callId : Json) : Json := .obj [
  ("type", .str "tool_result"), ("tool_use_id", callId), ("content", resultText resultContent e),
  ("is_error", (e.payload.get? "is_error").getD (.bool true))]

def resultMessage (results : List Json) : Json :=
  .obj [("role", .str "user"), ("content", .arr results)]

/-- A result; the last one of a batch closes its message. -/
def addResult (st : MessagesProjection) (e : Event) (callId : Json) : MessagesProjection :=
  let pending := st.pending.filter fun other => !Json.pyEq other callId
  let results := st.results ++ [resultBlock resultContent e callId]
  if pending.isEmpty then
    { messages := st.messages ++ [resultMessage results], pending := [], results := [] }
  else { st with pending, results }

def pairCall (st : MessagesProjection) (e : Event) : Except PyError MessagesProjection := do
  let callId ← e.payload.require "call_id"
  match callId.hashError? with
  | some error => .error error
  | none => .ok (if Json.inSet st.pending callId then addResult resultContent st e callId else st)

/-- `payload.get("message")`, where it is truthy. -/
def message? (e : Event) : Option Json := (e.payload.get? "message").filter Json.truthy

def step (st : MessagesProjection) (e : Event) : Except PyError MessagesProjection :=
  if e.isPartial then .ok st
  else if e.type.holdsMessage then
    match message? e with
    | some message => addMessage st message
    | none => .ok st
  else if e.type.pairsCall then pairCall resultContent st e
  else .ok st

def run (events : List Event) (st : MessagesProjection) : Except PyError MessagesProjection :=
  events.foldlM (step resultContent) st

def finish (st : MessagesProjection) : Except PyError (List Json) :=
  if st.pending.isEmpty then .ok st.messages
  else .error (.value "Incomplete tool history; Continue must resolve pending calls")

/-- `MessagesProjection.project`. -/
def project (events : List Event) : Except PyError (List Json) := do
  let st ← run resultContent events {}
  finish st

/-- Whether the event is the result of a pending call. -/
def pairs (st : MessagesProjection) (e : Event) : Bool :=
  !e.isPartial && e.type.pairsCall && (e.payload.get? "call_id").any (Json.inSet st.pending)

/-- The completed calls whose content a projection asks for. -/
def shownEvents (events : List Event) : List Event :=
  (events.zipIdx.filter fun (e, i) => e.type = .toolCompleted &&
    match run resultContent (events.take i) {} with
    | .ok st => pairs st e
    | .error _ => false).map Prod.fst

end MessagesProjection

end Eventide
