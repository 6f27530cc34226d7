import Eventide.Model.Projections
import Eventide.Model.Store
import Mathlib.Data.List.Sort

/-! # What an interrupted history leaves open

`_recovery_facts` and the runs that commit them. -/

namespace Eventide

namespace SessionHistory

/-- The unpaired calls by their ids, and the approvals that are not resolved. -/
structure OpenHistory where
  pending : Dict String Json := .empty
  approvals : List String := []

/-- `pending[block["id"]] = block`, of a `tool_use` block. -/
def addBlock (pending : Dict String Json) (block : Json) : Except PyError (Dict String Json) :=
  if block.isObj then
    if block.fieldIs "type" "tool_use" then do
      let id ← block.require "id"
      match id with
      | .str id => .ok (pending.set id block)
      | _ => .error (.type "unhashable type")
    else .ok pending
  else .error Json.attributeError

/-- `payload.get("message", {}).get("content", [])`. -/
def messageContent (payload : Json) : Except PyError (List Json) := do
  let content ← ((payload.get? "message").getD (.obj [])).getAttr "content"
  (content.getD (.arr [])).iterate

/-- An id of a set of ids. -/
def memberId (payload : Json) (key : String) : Except PyError (Option String) := do
  let id ← payload.require key
  match id.hashError? with
  | some e => .error e
  | none => .ok id.str?

def openStep (st : OpenHistory) (e : Event) : Except PyError OpenHistory :=
  if e.isPartial then .ok st
  else
    match e.type with
    | .modelResponse => do
      let blocks ← messageContent e.payload
      let pending ← blocks.foldlM addBlock st.pending
      return { st with pending }
    | .toolCompleted | .toolAbandoned => do
      let id ← memberId e.payload "call_id"
      return { st with pending := id.elim st.pending st.pending.erase }
    | .approvalRequired => do
      let id ← memberId e.payload "approval_id"
      return { st with approvals := id.elim st.approvals fun id => st.approvals.insert id }
    | .approvalResolved => do
      let id ← memberId e.payload "approval_id"
      return { st with approvals := st.approvals.filter (some · ≠ id) }
    | _ => .ok st

def abandonedFact (content : String) (block : Json) : Except PyError Fact := do
  let id ← block.require "id"
  let name ← block.require "name"
  return {
    type := .toolAbandoned
    payload := .obj [("call_id", id), ("name", name), ("is_error", .bool true),
      ("content", .str content)] }

def closedApproval (identity : String) : Fact where
  type := .approvalResolved
  payload := .obj [("approval_id", .str identity), ("approved", .bool false),
    ("reason", .str "Source run interrupted")]

/-- `_recovery_facts`, of the events of the session. -/
def recoveryFacts (events : List Event) (content : String) : Except PyError (List Fact) := do
  let st ← events.foldlM openStep {}
  let facts ← st.pending.values.mapM (abandonedFact content)
  return facts ++ (st.approvals.insertionSort (· ≤ ·)).map closedApproval

/-- The content of the calls that a Continue pairs. -/
def continueContent : String := "Abandoned after interruption; not replayed."

/-- The content of the calls that `abandon_interruption` pairs. -/
def abandonContent : String :=
  "Recovery abandoned by user; tool outcome was not assumed or replayed."

/-- The facts of the run of `abandon_interruption`, one after the other. -/
def abandonFacts (started duration : Json) (source : String) (facts : List Fact) : List Fact :=
  [{ type := .runStarted, payload := started, author := "user" }] ++ facts ++
    [{ type := .recoveryAbandoned, payload := .obj [("source_run_id", .str source)],
       author := "user" },
     { type := .runCompleted
       payload := .obj [("output", .str ""), ("error", .null), ("steps", .int 0),
         ("tool_calls", .int 0), ("duration_ms", duration), ("usage", .obj [])] }]

end SessionHistory

end Eventide
