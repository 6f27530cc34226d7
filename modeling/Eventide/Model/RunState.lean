import Eventide.Model.Event

/-! # RuntimeStateProjection

The state of a run is a dictionary whose values a terminal payload may overwrite, so its
fields are untyped here as they are in the source. -/

namespace Eventide

namespace Json

/-- The integers of Python, booleans included. -/
def int? : Json → Option ℤ
  | bool value => some (if value then 1 else 0)
  | int value => some value
  | _ => none

/-- `a + b`; sums of floats are exact here. -/
def add (a b : Json) : Except PyError Json :=
  match a.int?, b.int? with
  | some m, some n => .ok (.int (m + n))
  | _, _ =>
    match a.number?, b.number? with
    | some p, some q => .ok (.float (p + q))
    | _, _ =>
      match a, b with
      | .str s, .str t => .ok (.str (s ++ t))
      | .arr xs, .arr ys => .ok (.arr (xs ++ ys))
      | _, _ => .error (.type "unsupported operand type(s) for +")

/-- `container[key] = value`. -/
def setItem (container key value : Json) : Except PyError Json :=
  match container, key with
  | .obj _, .str k => .ok (container.withField k value)
  | _, _ => .error (.type "object does not support item assignment")

/-- `container.pop(key, None)`. -/
def popItem (container key : Json) : Except PyError Json :=
  match container, key with
  | .obj _, .str k => .ok (container.withoutField k)
  | _, _ => .error (.type "unhashable type")

end Json

/-- The `state` dictionary of the fold and its `terminal` flag. -/
structure RunState where
  fields : Dict String Json
  terminal : Bool := false

namespace RunState

def initial : RunState where
  fields := Dict.ofList [
    ("status", .str "running"), ("output", .str ""), ("steps", .int 0), ("tool_calls", .int 0),
    ("duration_ms", .int 0), ("usage", Json.obj []), ("error", .null),
    ("pending_approvals", Json.obj []), ("tools", Json.obj []), ("checkpoint", .null),
    ("reason", .null), ("gap_files", .null)]

/-- `state[key]`. -/
def field (st : RunState) (key : String) : Json := (st.fields.get? key).getD .null

def set (st : RunState) (key : String) (value : Json) : RunState :=
  { st with fields := st.fields.set key value }

/-- `if not terminal: state["status"] = status`. -/
def withStatus (st : RunState) (status : String) : RunState :=
  if st.terminal then st else st.set "status" (.str status)

/-- The parent fields of an admitted or started child run. -/
def withParent (st : RunState) (payload : Json) : RunState :=
  if (payload.get? "parent_run_id").any Json.truthy then
    let given := ["parent_run_id", "worker_role", "snapshot_id"].filterMap fun key =>
      (payload.get? key).map fun value => (key, value)
    { st with fields := st.fields.update given }
  else st

/-- `for key, value in payload.get("usage", {}).items()`. -/
def addUsage (st : RunState) (payload : Json) : Except PyError RunState :=
  match payload.get? "usage" with
  | none => .ok st
  | some (.obj fields) => do
    let usage ← (Json.obj fields).items.foldlM
      (fun usage p => do
        let total ← Json.add ((usage.get? p.1).getD (.int 0)) p.2
        usage.setItem (.str p.1) total)
      (st.field "usage")
    return st.set "usage" usage
  | some _ => .error (.raised "AttributeError" "object has no attribute 'items'")

/-- `state["tools"][payload["call_id"]] = {**payload, "status": status}`. -/
def setTool (st : RunState) (payload : Json) (status : String) : Except PyError RunState := do
  let callId ← payload.require "call_id"
  let tools ← (st.field "tools").setItem callId
    (payload.merge (Json.obj [("status", .str status)]))
  return st.set "tools" tools

/-- The first terminal event settles the status; its payload may fill known fields. -/
def settle (st : RunState) (e : Event) : RunState :=
  if st.terminal then st
  else
    let known := st.fields.update (e.payload.items.filter fun p => st.fields.contains p.1)
    { fields := (known.set "status" (.str e.type.terminalStatus)).set "completed_at" (.int e.ts)
      terminal := true }

def step (st : RunState) (e : Event) : Except PyError RunState :=
  if e.isPartial then .ok st
  else
    let payload := e.payload
    match e.type with
    | .runAdmitted => .ok ((st.withParent payload).withStatus "queued")
    | .runStarted => .ok ((st.withParent payload).withStatus "running")
    | .modelResponse =>
      (st.set "steps" ((payload.get? "step").getD (st.field "steps"))).addUsage payload
    | .contextCompacted | .contextSummaryGenerated | .workerCompleted => st.addUsage payload
    | .workspaceCheckpoint => .ok (st.set "checkpoint" ((payload.get? "checkpoint").getD .null))
    | .toolPrepared => do
      let calls ← Json.add (st.field "tool_calls") (.int 1)
      (st.set "tool_calls" calls).setTool payload "prepared"
    | .toolCompleted => st.setTool payload "completed"
    | .toolAbandoned => st.setTool payload "abandoned"
    | .approvalRequired => do
      let approvalId ← payload.require "approval_id"
      let pending ← (st.field "pending_approvals").setItem approvalId payload
      return (st.set "pending_approvals" pending).withStatus "waiting_for_user"
    | .approvalResolved => do
      let approvalId ← payload.require "approval_id"
      let pending ← (st.field "pending_approvals").popItem approvalId
      return (st.set "pending_approvals" pending).withStatus "running"
    | .runCompleted | .runFailed | .runInterrupted => .ok (st.settle e)
    | _ => .ok st

/-- `RuntimeStateProjection.project`. -/
def project (events : List Event) : Except PyError (Dict String Json) := do
  let st ← events.foldlM step initial
  return st.fields

end RunState

end Eventide
