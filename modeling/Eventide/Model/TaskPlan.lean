import Eventide.Library.Search
import Eventide.Model.StoreCalls
import Eventide.Model.Usage

/-! # Task plans

`plan_update` validates a submitted plan against the one before it and gives every item an
identity. A plan of the past was itself returned by `plan_update`, so it is a list of records;
a submitted plan is any JSON value. -/

namespace Eventide

open Outcome RuntimeStore

namespace TaskPlan

def maxTodos : ℕ := 20

def maxContentChars : ℕ := 200

def maxSummaryChars : ℕ := 300

/-- `STATUSES`. -/
inductive Status where
  | pending | in_progress | completed | blocked
  deriving DecidableEq

def Status.text : Status → String
  | pending => "pending"
  | in_progress => "in_progress"
  | completed => "completed"
  | blocked => "blocked"

def Status.ofText? (text : String) : Option Status :=
  [pending, in_progress, completed, blocked].find? (·.text = text)

/-- `int(task_id[1:])`, where `ID_PATTERN` matches the whole of `task_id`. -/
def idNumber? (taskId : String) : Option ℕ :=
  match taskId.toList with
  | 't' :: d :: ds =>
    if '1' ≤ d ∧ d ≤ '9' ∧ ds.length ≤ 3 ∧ ds.all Char.isDigit then
      some (Nat.ofDigitChars 10 (d :: ds) 0)
    else none
  | _ => none

/-- `f"t{sequence}"`. -/
def mintId (sequence : ℕ) : String := "t" ++ toString sequence

/-- An item of an accepted plan. The last two keys are absent where they are `none`. -/
structure Todo where
  id : String
  content : String
  status : Status
  summary : Option String
  dependsOn : Option (List String)
  deriving DecidableEq

/-- `ITEM_KEYS`. -/
def itemKeys : List String := ["id", "content", "status", "summary", "depends_on"]

/-- The item as the dictionary that `_item` returns. -/
def Todo.toJson (todo : Todo) : Json :=
  .obj ([("id", .str todo.id), ("content", .str todo.content), ("status", .str todo.status.text)] ++
    (todo.summary.toList.map fun summary => ("summary", .str summary)) ++
    todo.dependsOn.toList.map fun dependencies => ("depends_on", .arr (dependencies.map .str)))

/-- `todo.get("depends_on", [])`. -/
def Todo.dependencies (todo : Todo) : List String := todo.dependsOn.getD []

/-- `available`: the previous items by id. -/
def availableOf (previous : List Todo) : Dict String Todo :=
  Dict.ofList ((previous.filter (·.id ≠ "")).map fun item => (item.id, item))

/-- `_claimed_sequence`. -/
def claimedSequence (previous : List Todo) : ℕ :=
  previous.foldl (fun highest item => max highest ((idNumber? item.id).getD 0)) 0

section Item

variable (index : ℕ) (item : Json)

/-- The checks on `content`. -/
def contentOf (seen : List String) : Except PyError String :=
  match item.getNull "content" with
  | .str content => do
    let content := strip content
    raiseIf (content = "") (.value s!"todo {index} content must be non-empty text")
    raiseIf (maxContentChars < content.length)
      (.value s!"todo {index} content cannot exceed {maxContentChars} characters")
    raiseIf (content ∈ seen) (.value s!"todo {index} duplicates another item")
    return content
  | _ => .error (.value s!"todo {index} content must be non-empty text")

def statusOf : Except PyError Status :=
  match (item.getNull "status").str?.bind Status.ofText? with
  | some status => .ok status
  | none => .error (.value s!"todo {index} has unsupported status")

/-- The identity of an item, and the sequence after it. -/
def identityOf (available : Dict String Todo) (claimed : List String) (sequence : ℕ)
    (content : String) : Except PyError (String × ℕ) :=
  match item.getNull "id" with
  | .null =>
    -- Reuse an unclaimed previous identity when the plan was rewritten verbatim.
    match available.entries.find? fun p => p.1 ∉ claimed ∧ strip p.2.content = content with
    | some p => .ok (p.1, sequence)
    | none => .ok (mintId sequence, sequence + 1)
  | .str taskId => do
    raiseIf ((idNumber? taskId).isNone) (.value s!"todo {index} has an invalid task id")
    raiseIf ((available.get? taskId).isNone)
      (.value s!"todo {index} references unknown task id {taskId}")
    raiseIf (taskId ∈ claimed) (.value s!"todo {index} reuses task id {taskId}")
    return (taskId, sequence)
  | _ => .error (.value s!"todo {index} has an invalid task id")

/-- The completion claim before it is stripped. -/
def claimOf (status : Status) (prior : Option Todo) : Except PyError (Option String) :=
  match status, item.getNull "summary" with
  | .completed, .str summary => do
    raiseIf (strip summary = "") (.value s!"todo {index} must summarize what it completed")
    return some summary
  | .completed, .null =>
    -- The plan is a full snapshot; keep the earlier claim rather than lose it.
    match (prior.filter (·.status = .completed)).bind (·.summary) with
    | some summary => do
      raiseIf (strip summary = "") (.value s!"todo {index} must summarize what it completed")
      return some summary
    | none => .error (.value s!"todo {index} must summarize what it completed")
  | .completed, _ => .error (.value s!"todo {index} must summarize what it completed")
  | .blocked, .str summary => .ok (some summary)
  | .blocked, .null => .ok none
  | .blocked, _ => .error (.value s!"todo {index} summary must be text")
  | _, .null => .ok none
  | _, _ => .error (.value s!"todo {index} may only summarize a completed or blocked item")

def summaryOf (status : Status) (prior : Option Todo) : Except PyError (Option String) := do
  let claim ← claimOf index item status prior
  let summary := claim.map strip
  raiseIf (summary.any fun text => maxSummaryChars < text.length)
    (.value s!"todo {index} summary cannot exceed {maxSummaryChars} characters")
  return summary.filter (· ≠ "")

/-- One dependency, checked against the ones before it. -/
def dependencyStep (taskId : String) (seen : List String) :
    Json → Except PyError (List String)
  | .str dependency => do
    raiseIf ((idNumber? dependency).isNone) (.value s!"todo {index} has an invalid dependency id")
    raiseIf (dependency = taskId) (.value s!"todo {index} cannot depend on itself")
    raiseIf (dependency ∈ seen)
      (.value s!"todo {index} has duplicate dependency {dependency}")
    return seen ++ [dependency]
  | _ => .error (.value s!"todo {index} has an invalid dependency id")

def dependenciesOf (taskId : String) : Json → Except PyError (List String)
  | .arr items => do
    raiseIf (maxTodos < items.length)
      (.value s!"todo {index} cannot have more than {maxTodos} dependencies")
    items.foldlM (dependencyStep index taskId) []
  | _ => .error (.value s!"todo {index} depends_on must be an array")

/-- Preserve or replace the prerequisite references. -/
def dependsOnOf (taskId : String) (prior : Option Todo) :
    Except PyError (Option (List String)) :=
  match item.get? "depends_on", prior.bind (·.dependsOn) with
  | some value, _ => (dependenciesOf index taskId value).map some
  | none, some kept => (dependenciesOf index taskId (.arr (kept.map .str))).map some
  | none, none => .ok none

/-- `_item`. -/
def itemOf (taskId content : String) (status : Status) (available : Dict String Todo) :
    Except PyError Todo := do
  let prior := available.get? taskId
  let summary ← summaryOf index item status prior
  let dependsOn ← dependsOnOf index item taskId prior
  return { id := taskId, content, status, summary, dependsOn }

end Item

/-- The locals of the loop. The ids and contents of `todos` are `claimed` and
`seen_content`. -/
structure PlanFold where
  todos : List Todo := []
  sequence : ℕ

namespace PlanFold

variable (available : Dict String Todo)

/-- One round of the loop. -/
def step (st : PlanFold) (item : Json) : Except PyError PlanFold := do
  let index := st.todos.length + 1
  raiseIf (!item.isObj || !item.fields.all (·.1 ∈ itemKeys))
    (.value (s!"todo {index} must contain only id, content, status and summary, " ++
      "plus optional depends_on"))
  raiseIf (!item.hasKey "content" || !item.hasKey "status")
    (.value s!"todo {index} must contain content and status")
  let content ← contentOf index item (st.todos.map (·.content))
  let status ← statusOf index item
  let identity ← identityOf index item available (st.todos.map (·.id)) st.sequence content
  let todo ← itemOf index item identity.1 content status available
  return { todos := st.todos ++ [todo], sequence := identity.2 }

end PlanFold

/-- The dependencies of a task, by id. -/
def dependenciesById (todos : List Todo) (taskId : String) : List String :=
  ((todos.find? (·.id = taskId)).map (·.dependencies)).getD []

def statusById (todos : List Todo) (taskId : String) : Option Status :=
  (todos.find? (·.id = taskId)).map (·.status)

/-- The dependencies of a started task that are not completed. -/
def Todo.unmet (todos : List Todo) (todo : Todo) : List String :=
  if todo.status = .in_progress ∨ todo.status = .completed then
    todo.dependencies.filter fun dependency => statusById todos dependency ≠ some .completed
  else []

/-- `_validate_dependencies`. -/
def validateDependencies (todos : List Todo) : Except PyError Unit := do
  todos.forM fun todo => todo.dependencies.forM fun dependency =>
    raiseIf (dependency ∉ todos.map (·.id))
      (.value s!"task {todo.id} references unknown dependency {dependency}")
  let _ ← Search.visitAll (dependenciesById todos)
    (PyError.value "task dependencies cannot contain a cycle") (todos.map (·.id))
  todos.forM fun todo =>
    raiseIf (todo.unmet todos ≠ []) (.value (s!"task {todo.id} requires completed dependencies: " ++
      String.intercalate ", " (todo.unmet todos)))

/-- `plan_update`. -/
def planUpdate (value : Json) (previous : Option (List Todo)) (nextTaskSeq : Option ℕ) :
    Except PyError (List Todo × ℕ) :=
  match value with
  | .arr items => do
    raiseIf (maxTodos < items.length) (.value s!"todos cannot contain more than {maxTodos} items")
    let previous := previous.getD []
    let st ← items.foldlM (PlanFold.step (availableOf previous))
      { sequence := max (nextTaskSeq.getD 0) (claimedSequence previous + 1) }
    raiseIf (1 < st.todos.countP (·.status = .in_progress))
      (.value "only one todo may be in_progress")
    validateDependencies st.todos
    return (st.todos, st.sequence)
  | _ => .error (.value "todos must be an array")

end TaskPlan

end Eventide
