import Eventide.Model.Store
import Mathlib.Data.List.Sort

/-! # Projects and their Workspaces

The calls that create and remove the rows of `workspaces`, `projects` and `workspace_projects`,
and the schema migration that first binds old Workspaces. -/

namespace Eventide

open Outcome

namespace RuntimeStore

/-! ## Removal -/

/-- `list_project_workspaces`: the Workspaces that join with their binding and its project. -/
def listProjectWorkspaces (s : RuntimeStore) (projectId : String) : Except PyError (List String) := do
  raiseIf (¬ ∃ p ∈ s.projects, p.projectId = projectId)
    (.value s!"Project not found: {projectId}")
  return (s.workspaces.map (·.workspaceId)).filter fun workspaceId =>
    ((s.getWorkspace workspaceId).toOption.map (·.projectId)) = some projectId

/-- `workspace_has_execution_history`. -/
def workspaceHasExecutionHistory (s : RuntimeStore) (workspaceId : String) : Bool :=
  s.events.any fun e => !e.isPartial && e.type = .runAdmitted &&
    (((e.payload.get? "execution_binding").bind (·.get? "execution_workspace_id")).bind Json.str?) =
      some workspaceId

/-- A source leaves only after its copies. -/
def checkCopies (s : RuntimeStore) (record : WorkspaceRecord) : Except PyError Unit :=
  if record.kind = .source then do
    let workspaces ← s.listProjectWorkspaces record.projectId
    raiseIf (1 < workspaces.length)
      (.value "Project source has execution copies; removal would orphan them")
  else .ok ()

/-- `DELETE FROM projects`, refused while a binding names the project. -/
def deleteProject (s : RuntimeStore) (projectId : String) : Except PyError RuntimeStore := do
  raiseIf (∃ b ∈ s.workspaceProjects, b.projectId = projectId) (.integrity "FOREIGN KEY")
  return { s with projects := s.projects.filter (·.projectId ≠ projectId) }

/-- `DELETE FROM workspaces`, refused while another row names the Workspace. -/
def deleteWorkspace (s : RuntimeStore) (workspaceId : String) : Except PyError RuntimeStore := do
  raiseIf ((∃ row ∈ s.sessions, row.workspaceId = workspaceId) ∨
      (∃ p ∈ s.projects, p.sourceWorkspaceId = workspaceId) ∨
      ∃ b ∈ s.workspaceProjects, b.workspaceId = workspaceId) (.integrity "FOREIGN KEY")
  return { s with workspaces := s.workspaces.filter (·.workspaceId ≠ workspaceId) }

/-- The deletions of `remove_workspace`. -/
def deleteBound (s : RuntimeStore) (record : WorkspaceRecord) : Except PyError RuntimeStore := do
  let unbound := { s with workspaceProjects :=
    s.workspaceProjects.filter (·.workspaceId ≠ record.workspaceId) }
  let s' ← if record.kind = .source then unbound.deleteProject record.projectId else .ok unbound
  s'.deleteWorkspace record.workspaceId

/-! ## Callbacks -/

/-- A callback of the two calls: it appends facts in the same transaction, and may raise. -/
structure Callback (α : Type) where
  facts : α → List (String × Fact)
  fault : Option PyError := none

def Callback.appendAll (env : Env) : ℕ → List (String × Fact) → RuntimeStore →
    Except PyError RuntimeStore
  | _, [], s => .ok s
  | k, (sessionId, fact) :: facts, s => do
    let (_, s') ← s.appendFactLocked (env.tick k) sessionId fact none
    appendAll env (k + 1) facts s'

/-- `if on_registered: on_registered(record)`. -/
def Callback.run {α : Type} (callback : Option (Callback α)) (env : Env) (value : α)
    (s : RuntimeStore) : Except PyError RuntimeStore :=
  match callback with
  | none => .ok s
  | some callback => do
    let s' ← appendAll env 3 (callback.facts value) s
    callback.fault.elim (.ok s') .error

/-- The body of `remove_workspace`. -/
def removeWorkspaceLocked (s : RuntimeStore) (env : Env) (workspaceId : String)
    (onRemoved : Option (Callback Unit)) : Except PyError (Unit × RuntimeStore) := do
  let record ← s.getWorkspace workspaceId
  raiseIf ((∃ row ∈ s.sessions, row.workspaceId = workspaceId) ∨
      s.workspaceHasExecutionHistory workspaceId = true)
    (.value "Workspace has sessions; removal would orphan history")
  s.checkCopies record
  let s' ← s.deleteBound record
  let s'' ← Callback.run onRemoved env () s'
  return ((), s'')

def removeWorkspace (s : RuntimeStore) (env : Env) (workspaceId : String)
    (onRemoved : Option (Callback Unit) := none) : Except PyError Unit × RuntimeStore :=
  transaction s (s.removeWorkspaceLocked env workspaceId onRemoved)

/-- `register_workspace`, with a callback that appends facts. -/
def registerWorkspaceWith (s : RuntimeStore) (env : Env) (path : String) (gitRoot : Option String)
    (onRegistered : Option (Callback WorkspaceRecord)) : Except PyError Unit × RuntimeStore :=
  transaction s do
    let (record, s') ← s.registerWorkspaceLocked env path gitRoot fun _ => .ok ()
    let s'' ← Callback.run onRegistered env record s'
    return ((), s'')

/-! ## Schema version 4 -/

/-- The order of `ORDER BY created_at, workspace_id`. -/
def olderWorkspace (a b : Workspace) : Bool :=
  a.createdAt < b.createdAt || (a.createdAt = b.createdAt && a.workspaceId ≤ b.workspaceId)

/-- One row of the loop; what the row takes from outside is named by its id. -/
def bindOld (env : String → Env) (s : RuntimeStore) (row : Workspace) :
    Except PyError RuntimeStore := do
  let (source, common) ← (env row.workspaceId).projectSource row.path row.gitRoot
  s.bindProject (env row.workspaceId) row source common

/-- The step of `_initialize` to version 4. -/
def migrateProjects (s : RuntimeStore) (env : String → Env) : Except PyError RuntimeStore :=
  (s.workspaces.insertionSort fun a b => olderWorkspace a b).foldlM (bindOld env) s

end RuntimeStore

/-! ## Calls -/

inductive ProjectCall where
  | register (path : String) (gitRoot : Option String)
      (onRegistered : Option (RuntimeStore.Callback WorkspaceRecord))
  | remove (workspaceId : String) (onRemoved : Option (RuntimeStore.Callback Unit))

namespace ProjectCall

def perform (s : RuntimeStore) (env : Env) : ProjectCall → Except PyError Unit × RuntimeStore
  | register path gitRoot onRegistered => s.registerWorkspaceWith env path gitRoot onRegistered
  | remove workspaceId onRemoved => s.removeWorkspace env workspaceId onRemoved

/-- The state of a database after a sequence of calls. -/
def after (s : RuntimeStore) (calls : List (Env × ProjectCall)) : RuntimeStore :=
  runCalls (fun s c => (c.2.perform s c.1).2) s calls

end ProjectCall

end Eventide
