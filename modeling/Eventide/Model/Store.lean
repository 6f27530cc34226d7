import Eventide.Library.Outcome
import Eventide.Model.Event

/-! # RuntimeStore

The tables of the SQLite database are lists in rowid order. A statement either commits its
row or raises, and every public method runs its statements in one transaction. -/

namespace Eventide

open Outcome

structure Workspace where
  workspaceId : String
  name : String
  path : String
  gitRoot : Option String
  createdAt : ℤ

structure Session where
  id : String
  workspaceId : String
  createdAt : ℤ
  title : Option String := none
  archived : Bool := false
  workingDirectory : String := "."

structure Project where
  projectId : String
  sourceWorkspaceId : String
  name : String
  gitCommonDir : Option String
  createdAt : ℤ

inductive BindingKind where
  | source | worktree
  deriving DecidableEq

/-- A row of `workspace_projects`. -/
structure ProjectBinding where
  workspaceId : String
  projectId : String
  kind : BindingKind

structure Turn where
  id : String
  sessionId : String
  continuationOf : Option String
  createdAt : ℤ

structure Run where
  id : String
  sessionId : String
  turnId : String
  startedAt : ℤ

/-- A row of `context_checkpoints`. -/
structure ContextCheckpoint where
  id : ℕ
  sessionId : String
  coveredSeq : ℕ
  sourceDigest : String
  summary : String
  policyVersion : ℕ
  provider : String
  model : String

structure ProviderConfig where
  provider : String
  baseUrl : Option String
  model : String
  apiKeyCiphertext : Option String
  updatedAt : ℤ

structure WorkspaceRecord extends Workspace where
  projectId : String
  sourceWorkspaceId : String
  kind : BindingKind

structure RuntimeStore where
  stateRoot : String := ""
  workspaces : List Workspace := []
  projects : List Project := []
  workspaceProjects : List ProjectBinding := []
  sessions : List Session := []
  turns : List Turn := []
  runs : List Run := []
  events : List Event := []
  checkpoints : List ContextCheckpoint := []
  providerConfig : Option ProviderConfig := none

/-- What one statement takes from outside: `uuid4().hex`, `time.time()`, and any error of
its own (a value `json.dumps` rejects, a full disk). -/
structure Tick where
  uuid : String
  now : ℤ
  fault : Option PyError := none
  deriving Inhabited

/-- What one call takes from outside; its statements use the ticks in order. -/
structure Env where
  tick : ℕ → Tick
  digest : Json → String
  projectSource : String → Option String → Except PyError (String × Option String)

/-- What is left to a second transaction of a call, after one of `n` statements. -/
def Env.shift (env : Env) (n : ℕ) : Env := { env with tick := fun k => env.tick (n + k) }

/-- A fact as `admit_run` receives it. -/
structure Fact where
  type : EventType
  payload : Json
  role : String := "system"
  author : String := "runtime"

/-- `uuid.uuid4().hex[:16]`. -/
def shortHex (uuid : String) : String := String.ofList (uuid.toList.take 16)

/-- `Path.name`. -/
def pathName (path : String) : String :=
  String.ofList (path.toList.reverse.takeWhile (· != '/')).reverse

def Tick.check (tick : Tick) : Except PyError Unit :=
  match tick.fault with
  | some error => .error error
  | none => .ok ()

namespace RuntimeStore

/-! ## Reads -/

def getSession (s : RuntimeStore) (sessionId : String) : Option Session :=
  s.sessions.find? (·.id = sessionId)

def getRunRow (s : RuntimeStore) (runId : String) : Option Run :=
  s.runs.find? (·.id = runId)

/-- `get_run_identity`: the run with its turn's `continuation_of`. -/
def getRunIdentity (s : RuntimeStore) (runId : String) : Option (Run × Option String) := do
  let run ← s.getRunRow runId
  let turn ← s.turns.find? (·.id = run.turnId)
  return (run, turn.continuationOf)

def sessionEvents (s : RuntimeStore) (sessionId : String) : List Event :=
  s.events.filter (·.sessionId = sessionId)

/-- `run_events(run_id)`, whose bound `session_seq > 0` every row meets. -/
def runEvents (s : RuntimeStore) (runId : String) : List Event :=
  s.events.filter (·.runId = some runId)

/-- The first terminal row of the run. -/
def terminalOf (s : RuntimeStore) (runId : String) : Option Event :=
  s.events.find? fun e => e.runId = some runId ∧ e.type.isTerminal

def runIsTerminal (s : RuntimeStore) (runId : String) : Bool := (s.terminalOf runId).isSome

def factsByType (s : RuntimeStore) (types : List EventType) : List Event :=
  s.events.filter fun e => !e.isPartial ∧ e.type ∈ types

/-- `COALESCE(MAX(session_seq), 0)`. -/
def lastSeq (s : RuntimeStore) (sessionId : String) : ℕ :=
  ((s.sessionEvents sessionId).map (·.sessionSeq)).foldl max 0

/-! ## Statements -/

/-- `INSERT INTO runtime_events`, under the constraints of its table. -/
def insertEvent (s : RuntimeStore) (tick : Tick) (event : Event) :
    Except PyError RuntimeStore := do
  tick.check
  raiseIf (∃ e ∈ s.events, e.eventId = event.eventId) (.integrity "runtime_events.event_id")
  raiseIf (¬ ∃ row ∈ s.sessions, row.id = event.sessionId) (.integrity "FOREIGN KEY")
  raiseIf (¬ event.turnId.all (fun t => s.turns.any (·.id = t))) (.integrity "FOREIGN KEY")
  raiseIf (¬ event.runId.all (fun r => s.runs.any (·.id = r))) (.integrity "FOREIGN KEY")
  raiseIf (∃ e ∈ s.events, e.sessionId = event.sessionId ∧ e.sessionSeq = event.sessionSeq)
    (.integrity "runtime_events.session_id, runtime_events.session_seq")
  raiseIf (event.type.isTerminal ∧ event.runId.isSome ∧
      ∃ e ∈ s.events, e.runId = event.runId ∧ e.type.isTerminal)
    (.integrity "one_terminal")
  return { s with events := s.events ++ [event] }

def insertTurn (s : RuntimeStore) (tick : Tick) (turn : Turn) : Except PyError RuntimeStore := do
  tick.check
  raiseIf (∃ t ∈ s.turns, t.id = turn.id) (.integrity "turns.id")
  raiseIf (¬ ∃ row ∈ s.sessions, row.id = turn.sessionId) (.integrity "FOREIGN KEY")
  raiseIf (turn.continuationOf.isSome ∧ ∃ t ∈ s.turns, t.continuationOf = turn.continuationOf)
    (.integrity "turns.continuation_of")
  raiseIf (¬ turn.continuationOf.all (fun r => s.runs.any (·.id = r)))
    (.integrity "FOREIGN KEY")
  return { s with turns := s.turns ++ [turn] }

def insertRun (s : RuntimeStore) (tick : Tick) (run : Run) : Except PyError RuntimeStore := do
  tick.check
  raiseIf (∃ r ∈ s.runs, r.id = run.id) (.integrity "runs.id")
  raiseIf (¬ ∃ row ∈ s.sessions, row.id = run.sessionId) (.integrity "FOREIGN KEY")
  raiseIf (¬ ∃ t ∈ s.turns, t.id = run.turnId) (.integrity "FOREIGN KEY")
  return { s with runs := s.runs ++ [run] }

/-- The run id that `if run_id:` lets through: neither `None` nor the empty string. -/
def givenRun : Option String → Option String
  | some r => if r = "" then none else some r
  | none => none

/-- `_append_fact_locked`. -/
def appendFactLocked (s : RuntimeStore) (tick : Tick) (sessionId : String) (fact : Fact)
    (runId : Option String) (isPartial : Bool := false) :
    Except PyError (Event × RuntimeStore) := do
  raiseIf (isPartial ∧ fact.type.isTerminal) (.value "Terminal facts cannot be partial")
  let event (turnId : Option String) : Event :=
    { eventId := tick.uuid, sessionId, sessionSeq := s.lastSeq sessionId + 1, turnId, runId,
      ts := tick.now, type := fact.type, role := fact.role, author := fact.author,
      payload := fact.payload, isPartial }
  match givenRun runId with
  | none =>
    let s' ← s.insertEvent tick (event none)
    return (event none, s')
  | some r =>
    match s.getRunRow r with
    | none => .error (.value "Run/session identity mismatch")
    | some run =>
      raiseIf (run.sessionId ≠ sessionId) (.value "Run/session identity mismatch")
      match s.terminalOf r with
      | some terminal =>
        raiseIf (¬ fact.type.isTerminal) (.value "Run already terminated")
        return (terminal, s)
      | none =>
        let s' ← s.insertEvent tick (event (some run.turnId))
        return (event (some run.turnId), s')

/-- The `for` loops over facts; `k` counts the ticks already used. -/
def appendFacts (env : Env) (sessionId : String) (runId : Option String) :
    ℕ → List Fact → RuntimeStore → Except PyError RuntimeStore
  | _, [], s => .ok s
  | k, fact :: facts, s => do
    let (_, s') ← s.appendFactLocked (env.tick k) sessionId fact runId
    appendFacts env sessionId runId (k + 1) facts s'

/-- `_create_run_locked`. -/
def createRunLocked (s : RuntimeStore) (env : Env) (runId sessionId : String)
    (continuationOf : Option String) : Except PyError (String × RuntimeStore) := do
  let turnId := "turn_" ++ shortHex (env.tick 0).uuid
  let s' ← s.insertTurn (env.tick 0)
    { id := turnId, sessionId, continuationOf, createdAt := (env.tick 0).now }
  let s'' ← s'.insertRun (env.tick 1)
    { id := runId, sessionId, turnId, startedAt := (env.tick 1).now }
  return (turnId, s'')

/-! ## Workspaces and sessions -/

/-- `get_workspace`: the row joined with its binding and its project. -/
def getWorkspace (s : RuntimeStore) (workspaceId : String) : Except PyError WorkspaceRecord :=
  let record : Option WorkspaceRecord := do
    let row ← s.workspaces.find? (·.workspaceId = workspaceId)
    let binding ← s.workspaceProjects.find? (·.workspaceId = workspaceId)
    let project ← s.projects.find? (·.projectId = binding.projectId)
    return { row with
      projectId := binding.projectId, sourceWorkspaceId := project.sourceWorkspaceId,
      kind := binding.kind }
  match record with
  | some record => .ok record
  | none => .error (.value s!"Workspace not found: {workspaceId}")

def insertWorkspace (s : RuntimeStore) (row : Workspace) : Except PyError RuntimeStore := do
  raiseIf (∃ w ∈ s.workspaces, w.workspaceId = row.workspaceId)
    (.integrity "workspaces.workspace_id")
  raiseIf (∃ w ∈ s.workspaces, w.path = row.path) (.integrity "workspaces.path")
  return { s with workspaces := s.workspaces ++ [row] }

def insertProject (s : RuntimeStore) (row : Project) : Except PyError RuntimeStore := do
  raiseIf (∃ p ∈ s.projects, p.projectId = row.projectId) (.integrity "projects.project_id")
  raiseIf (∃ p ∈ s.projects, p.sourceWorkspaceId = row.sourceWorkspaceId)
    (.integrity "projects.source_workspace_id")
  raiseIf (row.gitCommonDir.isSome ∧ ∃ p ∈ s.projects, p.gitCommonDir = row.gitCommonDir)
    (.integrity "projects.git_common_dir")
  return { s with projects := s.projects ++ [row] }

/-- `INSERT OR IGNORE INTO workspace_projects`. -/
def insertBinding (s : RuntimeStore) (row : ProjectBinding) : RuntimeStore :=
  if ∃ b ∈ s.workspaceProjects, b.workspaceId = row.workspaceId then s
  else { s with workspaceProjects := s.workspaceProjects ++ [row] }

/-- The workspace row of a project source, inserted when the path is new. -/
def sourceRow (s : RuntimeStore) (tick : Tick) (source : String) (common : Option String) :
    Except PyError (Workspace × RuntimeStore) := do
  match s.workspaces.find? (·.path = source) with
  | some row => return (row, s)
  | none =>
    tick.check
    let row : Workspace :=
      { workspaceId := "ws_" ++ shortHex tick.uuid, name := pathName source, path := source,
        gitRoot := if common.any (· ≠ "") then some source else none, createdAt := tick.now }
    let s' ← s.insertWorkspace row
    return (row, s')

/-- The project whose binding names the source workspace, created when there is none. -/
def sourceProject (s : RuntimeStore) (tick : Tick) (row : Workspace) (common : Option String) :
    Except PyError (Project × RuntimeStore) := do
  let bound : Option Project := do
    let binding ← s.workspaceProjects.find? (·.workspaceId = row.workspaceId)
    s.projects.find? (·.projectId = binding.projectId)
  match bound with
  | none =>
    tick.check
    let project : Project :=
      { projectId := "project_" ++ shortHex tick.uuid, sourceWorkspaceId := row.workspaceId,
        name := row.name, gitCommonDir := common, createdAt := row.createdAt }
    let s' ← s.insertProject project
    raiseIf (∃ b ∈ s'.workspaceProjects, b.workspaceId = row.workspaceId)
      (.integrity "workspace_projects.workspace_id")
    return (project, { s' with workspaceProjects := s'.workspaceProjects ++
      [{ workspaceId := row.workspaceId, projectId := project.projectId, kind := .source }] })
  | some project =>
    if project.gitCommonDir.isNone ∧ common.isSome then
      raiseIf (∃ p ∈ s.projects, p.gitCommonDir = common) (.integrity "projects.git_common_dir")
      return (project, { s with projects := s.projects.map fun p =>
        if p.projectId = project.projectId then { p with gitCommonDir := common } else p })
    else do
      raiseIf (project.gitCommonDir ≠ common)
        (.value "Project source identity changed; existing binding is immutable")
      return (project, s)

/-- The project that shares the Git directory, else the one of the source path. -/
def owningProject (s : RuntimeStore) (env : Env) (source : String) (common : Option String) :
    Except PyError (Project × RuntimeStore) :=
  let known := if common.any (· ≠ "") then s.projects.find? (·.gitCommonDir = common) else none
  match known with
  | some project => .ok (project, s)
  | none => do
    let (origin, s') ← s.sourceRow (env.tick 1) source common
    s'.sourceProject (env.tick 2) origin common

/-- `_bind_project`. -/
def bindProject (s : RuntimeStore) (env : Env) (row : Workspace) (source : String)
    (common : Option String) : Except PyError RuntimeStore :=
  if ∃ b ∈ s.workspaceProjects, b.workspaceId = row.workspaceId then .ok s
  else do
    let (project, s') ← s.owningProject env source common
    let kind : BindingKind :=
      if row.workspaceId = project.sourceWorkspaceId then .source else .worktree
    return s'.insertBinding
      { workspaceId := row.workspaceId, projectId := project.projectId, kind }

/-- The body of `register_workspace`; `path` is already resolved. -/
def registerWorkspaceLocked (s : RuntimeStore) (env : Env) (path : String)
    (gitRoot : Option String) (onRegistered : WorkspaceRecord → Except PyError Unit) :
    Except PyError (WorkspaceRecord × RuntimeStore) := do
  match s.workspaces.find? (·.path = path) with
  | some existing =>
    let record ← s.getWorkspace existing.workspaceId
    onRegistered record
    return (record, s)
  | none =>
    let (source, common) ← env.projectSource path gitRoot
    (env.tick 0).check
    let row : Workspace :=
      { workspaceId := "ws_" ++ shortHex (env.tick 0).uuid, name := pathName path, path,
        gitRoot, createdAt := (env.tick 0).now }
    -- INSERT OR IGNORE: a clash leaves the table as it is and the read below fails.
    let s' := match s.insertWorkspace row with
      | .ok s' => s'
      | .error _ => s
    match s'.workspaces.find? (·.path = path) with
    | none => .error (.type "'NoneType' object is not iterable")
    | some row =>
      let s'' ← s'.bindProject env row source common
      let record ← s''.getWorkspace row.workspaceId
      onRegistered record
      return (record, s'')

def registerWorkspace (s : RuntimeStore) (env : Env) (path : String) (gitRoot : Option String)
    (onRegistered : WorkspaceRecord → Except PyError Unit := fun _ => .ok ()) :
    Except PyError WorkspaceRecord × RuntimeStore :=
  transaction s (s.registerWorkspaceLocked env path gitRoot onRegistered)

/-- The receipt that commits together with a write. -/
def mutationReceipt (identity : String) (response : Json) : Fact :=
  { type := .httpMutationCompleted, author := "user"
    payload := .obj [("identity", .str identity), ("result", response)] }

/-- The insertion at the end of `create_session`, with its facts when a mutation is given. -/
def insertSession (s : RuntimeStore) (env : Env) (sessionId workspaceId : String)
    (workingDirectory : Option String) (mutation : Option (String × String)) :
    Except PyError (Unit × RuntimeStore) := do
  let _ ← s.getWorkspace workspaceId
  (env.tick 3).check
  let directory := match workingDirectory with
    | some d => if d = "" then "." else d
    | none => "."
  let s' := { s with sessions := s.sessions ++
    [{ id := sessionId, workspaceId, createdAt := (env.tick 3).now,
       workingDirectory := directory }] }
  match mutation with
  | none => return ((), s')
  | some (owner, identity) =>
    let created := Json.obj [("target_session_id", .str sessionId),
      ("workspace_id", .str workspaceId), ("working_directory", .str directory)]
    let (_, s1) ← s'.appendFactLocked (env.tick 4) owner
      { type := .sessionCreated, payload := created, author := "user" } none
    let (_, s2) ← s1.appendFactLocked (env.tick 5) owner
      (mutationReceipt identity (.obj [("session_id", .str sessionId)])) none
    return ((), s2)

/-- `create_session`. A missing workspace is registered by a nested `with connection:`
that commits on its own, so an error after it leaves the workspace behind. -/
def createSession (s : RuntimeStore) (env : Env) (sessionId : String)
    (workspaceId : Option String := none) (workingDirectory : Option String := none)
    (mutation : Option (String × String) := none) : Except PyError Unit × RuntimeStore :=
  match s.getSession sessionId with
  | some existing => transaction s do
    raiseIf (mutation.isSome) (.value "Session creation identity already exists")
    raiseIf (workspaceId.any (fun w => w ≠ "" ∧ existing.workspaceId ≠ w))
      (.value "Session is bound to a different workspace")
    raiseIf (workingDirectory.any (fun d => existing.workingDirectory ≠ d))
      (.value "Session is bound to a different working directory")
    return ((), s)
  | none =>
    match workspaceId with
    | some w => transaction s (s.insertSession env sessionId w workingDirectory mutation)
    | none =>
      if mutation.isSome then
        (.error (.value "Atomic Session creation requires a Workspace"), s)
      else
        match s.registerWorkspace env s.stateRoot none with
        | (.error e, s') => (.error e, s')
        | (.ok record, s') =>
          transaction s' (s'.insertSession env sessionId record.workspaceId workingDirectory none)

end RuntimeStore

end Eventide
