import Eventide.Model.JsonText
import Eventide.Model.ModelBudget
import Eventide.Model.Usage

/-! # The composition of a request

`measure_input_composition` counts the serialized characters of a request by what they are. -/

namespace Eventide

/-- `COMPONENTS`. -/
inductive Component where
  | instructions
  | history
  | toolCatalog
  | skills
  | retrieval
  | toolResults
  | envelope
  deriving DecidableEq, Repr

namespace Component

def name : Component → String
  | instructions => "instructions"
  | history => "history"
  | toolCatalog => "tool_catalog"
  | skills => "skills"
  | retrieval => "retrieval"
  | toolResults => "tool_results"
  | envelope => "envelope"

def all : List Component :=
  [instructions, history, toolCatalog, skills, retrieval, toolResults, envelope]

end Component

namespace InputComposition

/-- `_SKILL_TOOLS`. -/
def skillTools : List String := ["load_skill", "read_skill_resource"]

/-- The index of the message that made a call, and the name of its tool; `None` for an id that is
used again or has no name. -/
abbrev Calls := Dict String (Option (ℕ × String))

def isBlock (block : Json) (type : String) : Bool :=
  block.isObj && (block.getNull "type").pyEq (.str type)

/-- One block of an assistant message. -/
def noteCall (index : ℕ) (calls : Calls) (block : Json) : Calls :=
  if isBlock block "tool_use" then
    match block.getNull "id" with
    | .str callId =>
      if callId = "" then calls
      else calls.set callId <| match block.getNull "name" with
        | .str name => if !calls.contains callId && name ≠ "" then some (index, name) else none
        | _ => none
    | _ => calls
  else calls

/-- The first loop. -/
def toolCalls (messages : List Json) : Calls :=
  messages.zipIdx.foldl (fun calls (message, index) =>
    match message.getNull "content" with
    | .arr blocks =>
      if (message.getNull "role").pyEq (.str "assistant") then blocks.foldl (noteCall index) calls
      else calls
    | _ => calls) Dict.empty

/-- The component of a block. -/
def componentOf (calls : Calls) (index : ℕ) (message block : Json) : Component :=
  if isBlock block "tool_result" then
    let call := match block.getNull "tool_use_id" with
      | .str callId => (calls.get? callId).join
      | _ => none
    match call with
    | some (start, name) =>
      if (message.getNull "role").pyEq (.str "user") && start < index then
        if name ∈ skillTools then .skills
        else if name = "search_knowledge" then .retrieval
        else .toolResults
      else .toolResults
    | none => .toolResults
  else .history

/-- The values of a message that are measured, each with its component. -/
def messageCharges (calls : Calls) (message : Json) (index : ℕ) : List (Component × Json) :=
  ((message.items.filter fun field => field.1 ∉ ["role", "content"]).map fun field =>
    (.history, field.2)) ++
  match message.get? "content" with
  | none => []
  | some (.arr blocks) => blocks.map fun block => (componentOf calls index message block, block)
  | some content => [(.history, content)]

/-- The values that `_size` is taken of, but for the whole. -/
def charges (request : ModelRequest) : List (Component × Json) :=
  let messages := (request.messages.arr?).getD []
  (.instructions, .str request.system) :: (.toolCatalog, request.tools) ::
    messages.zipIdx.flatMap fun (message, index) =>
      messageCharges (toolCalls messages) message index

variable (floatText : ℚ → List Char)

/-- What is added to a component. -/
def charged (request : ModelRequest) (component : Component) : ℕ :=
  (((charges request).filter (·.1 = component)).map fun charge => charge.2.size floatText).sum

/-- The request as one value. -/
def whole (request : ModelRequest) : Json :=
  .obj [("system", .str request.system), ("messages", request.messages), ("tools", request.tools)]

/-- `components`. -/
def components (request : ModelRequest) (component : Component) : ℤ :=
  match component with
  | .envelope => (whole request).size floatText -
      (Component.all.map fun component => (charged floatText request component : ℤ)).sum
  | component => charged floatText request component

end InputComposition

open InputComposition

/-- `measure_input_composition`. -/
def measureInputComposition (floatText : ℚ → List Char) (request : ModelRequest) : Json :=
  .obj [("method", .str "serialized_unicode_characters_v1"), ("unit", .str "characters"),
    ("total_characters", .int ((whole request).size floatText)),
    ("components", .obj (Component.all.map fun component =>
      (component.name, .int (components floatText request component))))]

end Eventide
