import Eventide.Model.Store

/-! # The write paths of RuntimeStore

Each public method below is one transaction, except `createRun`, which first makes sure
of its session in a transaction of its own. -/

namespace Eventide

open Outcome

namespace RuntimeStore

/-- `create_run`. `createSession` has used the first six ticks. -/
def createRun (s : RuntimeStore) (env : Env) (runId sessionId : String)
    (continuationOf : Option String := none) : Except PyError String × RuntimeStore :=
  match s.createSession env sessionId with
  | (.error e, s') => (.error e, s')
  | (.ok (), s') =>
    transaction s' (s'.createRunLocked (env.shift 6) runId sessionId continuationOf)

/-- `admit_run`: the run's identity and all its facts commit together. -/
def admitRun (s : RuntimeStore) (env : Env) (runId sessionId : String) (facts : List Fact)
    (continuationOf : Option String := none) : Except PyError String × RuntimeStore :=
  if (s.getSession sessionId).isNone then
    (.error (.value s!"Session not found: {sessionId}"), s)
  else
    transaction s do
      let (turnId, s') ← s.createRunLocked env runId sessionId continuationOf
      let s'' ← appendFacts env sessionId (some runId) 2 facts s'
      return (turnId, s'')

/-- `append_fact`. -/
def appendFact (s : RuntimeStore) (env : Env) (sessionId : String) (fact : Fact)
    (runId : Option String := none) (isPartial : Bool := false) :
    Except PyError Event × RuntimeStore :=
  transaction s (s.appendFactLocked (env.tick 0) sessionId fact runId isPartial)

/-- `transact_facts`: read, decide and append in one transaction. The callback `choose`
is the source's `decide`. -/
def transactFacts {α : Type} (s : RuntimeStore) (env : Env) (sessionId : String)
    (types : List EventType)
    (choose : List Event → Except PyError (α × List (EventType × Json)))
    (author : String := "runtime") (runId : Option String := none) :
    Except PyError α × RuntimeStore :=
  transaction s do
    raiseIf ((s.getSession sessionId).isNone) (.value s!"Session not found: {sessionId}")
    let (result, additions) ← choose (s.factsByType types)
    let s' ← appendFacts env sessionId runId 0
      (additions.map fun a => { type := a.1, payload := a.2, author }) s
    return (result, s')

/-- `commit_configuration`. `providerUpdate` is `none` to leave the saved row alone and
`some none` to delete it. -/
def commitConfiguration (s : RuntimeStore) (env : Env) (owner : String)
    (facts : List (EventType × Json)) (result : RuntimeStore → Except PyError Json)
    (mutationId : Option String := none)
    (providerUpdate : Option (Option ProviderConfig) := none) :
    Except PyError Json × RuntimeStore :=
  transaction s do
    let s1 := match providerUpdate with
      | some record =>
        { s with providerConfig := record.map ({ · with updatedAt := (env.tick 0).now }) }
      | none => s
    let s2 ← appendFacts env owner none 1
      (facts.map fun f => { type := f.1, payload := f.2, author := "user" }) s1
    let response ← result s2
    if mutationId.any (· ≠ "") then do
      let (_, s3) ← s2.appendFactLocked (env.tick (1 + facts.length)) owner
        (mutationReceipt (mutationId.getD "") response) none
      return (response, s3)
    else return (response, s2)

/-- `session_metadata_hash`. -/
def sessionMetadataHash (env : Env) (row : Session) : String :=
  env.digest (.obj [("id", .str row.id), ("workspace_id", .str row.workspaceId),
    ("created_at", .int row.createdAt), ("working_directory", .str row.workingDirectory),
    ("title", row.title.elim .null .str), ("archived", .int (if row.archived then 1 else 0))])

/-- `str.strip` with no argument. -/
def isSpace (c : Char) : Bool :=
  c.toNat ∈ [0x20, 0x85, 0xa0, 0x1680, 0x2028, 0x2029, 0x202f, 0x205f, 0x3000] ∨
    (0x09 ≤ c.toNat ∧ c.toNat ≤ 0x0d) ∨ (0x1c ≤ c.toNat ∧ c.toNat ≤ 0x1f) ∨
    (0x2000 ≤ c.toNat ∧ c.toNat ≤ 0x200a)

def strip (text : String) : String :=
  String.ofList ((text.toList.dropWhile isSpace).reverse.dropWhile isSpace).reverse

/-- `title.replace("\n", " ").strip()`. -/
def cleanTitle (title : String) : String :=
  strip (String.ofList (title.toList.map fun c => if c = '\n' then ' ' else c))

/-- A session row leaves the table only when no other row refers to it. -/
def deleteSession (s : RuntimeStore) (sessionId : String) : Except PyError RuntimeStore := do
  raiseIf ((∃ e ∈ s.events, e.sessionId = sessionId) ∨ ∃ r ∈ s.runs, r.sessionId = sessionId)
    (.value "Session has history; archive it instead of deleting")
  raiseIf ((∃ t ∈ s.turns, t.sessionId = sessionId) ∨
      ∃ c ∈ s.checkpoints, c.sessionId = sessionId) (.integrity "FOREIGN KEY")
  return { s with sessions := s.sessions.filter (·.id ≠ sessionId) }

/-- The update of `commit_session_metadata` and the fact that reports it. -/
def editSession (s : RuntimeStore) (record : Session) (delete : Bool) (title : Option String)
    (archived : Option Bool) : Except PyError ((EventType × Json) × RuntimeStore) :=
  if delete then do
    let s' ← s.deleteSession record.id
    return ((.sessionDeleted, .obj []), s')
  else do
    raiseIf (title.isNone ∧ archived.isNone) (.value "No session changes supplied")
    let cleaned := match title with
      | some t => some (cleanTitle t)
      | none => record.title
    raiseIf (title.isSome ∧ cleaned = some "") (.value "Session title cannot be empty")
    let marked := archived.getD record.archived
    let metadata := Json.obj [("title", cleaned.elim .null .str), ("archived", .bool marked)]
    return ((.sessionMetadataChanged, metadata), { s with sessions := s.sessions.map fun row =>
      if row.id = record.id then { row with title := cleaned, archived := marked } else row })

/-- `commit_session_metadata`. -/
def commitSessionMetadata (s : RuntimeStore) (env : Env) (owner sessionId expectedHash : String)
    (mutationId : String) (result : RuntimeStore → Except PyError Json)
    (delete : Bool := false) (title : Option String := none) (archived : Option Bool := none) :
    Except PyError Json × RuntimeStore :=
  transaction s do
    match s.getSession sessionId with
    | none => .error (.value "Session not found")
    | some record =>
      raiseIf (sessionMetadataHash env record ≠ expectedHash)
        (.value "Session metadata changed; refresh before editing")
      let ((kind, metadata), s1) ← s.editSession record delete title archived
      let payload := Json.obj [("target_session_id", .str sessionId),
        ("created_at", .int record.createdAt), ("workspace_id", .str record.workspaceId),
        ("metadata", metadata)]
      let (_, s2) ← s1.appendFactLocked (env.tick 0) owner
        { type := kind, payload, author := "user" } none
      let response ← result s2
      let (_, s3) ← s2.appendFactLocked (env.tick 1) owner
        (mutationReceipt mutationId response) none
      return (response, s3)

end RuntimeStore

/-- One call of a write path, with its arguments and what it takes from outside. -/
inductive StoreCall where
  | createRun (runId sessionId : String) (continuationOf : Option String)
  | admitRun (runId sessionId : String) (facts : List Fact) (continuationOf : Option String)
  | appendFact (sessionId : String) (fact : Fact) (runId : Option String) (isPartial : Bool)
  | transactFacts (sessionId : String) (types : List EventType)
      (choose : List Event → Except PyError (Json × List (EventType × Json)))
      (author : String) (runId : Option String)
  | commitConfiguration (owner : String) (facts : List (EventType × Json))
      (result : RuntimeStore → Except PyError Json) (mutationId : Option String)
      (providerUpdate : Option (Option ProviderConfig))
  | commitSessionMetadata (owner sessionId expectedHash mutationId : String)
      (result : RuntimeStore → Except PyError Json) (delete : Bool) (title : Option String)
      (archived : Option Bool)

/-- The run that a call creates, with the run that it continues. -/
def StoreCall.creates : StoreCall → Option (String × Option String)
  | createRun runId _ continuationOf => some (runId, continuationOf)
  | admitRun runId _ _ continuationOf => some (runId, continuationOf)
  | _ => none

/-- What a call returns to its caller. -/
inductive Returned where
  | turn (turnId : String)
  | event (event : Event)
  | value (result : Json)

namespace StoreCall

/-- Run the call; the new store is the old one whenever the call's transaction raised. -/
def perform (s : RuntimeStore) (env : Env) : StoreCall → Except PyError Returned × RuntimeStore
  | createRun r sid c => (s.createRun env r sid c).map (·.map .turn) id
  | admitRun r sid facts c => (s.admitRun env r sid facts c).map (·.map .turn) id
  | appendFact sid fact r p => (s.appendFact env sid fact r p).map (·.map .event) id
  | transactFacts sid types choose author r =>
    (s.transactFacts env sid types choose author r).map (·.map .value) id
  | commitConfiguration owner facts result m p =>
    (s.commitConfiguration env owner facts result m p).map (·.map .value) id
  | commitSessionMetadata owner sid h m result d t a =>
    (s.commitSessionMetadata env owner sid h m result d t a).map (·.map .value) id

/-- The state of a database after a sequence of calls. -/
def after (s : RuntimeStore) (calls : List (Env × StoreCall)) : RuntimeStore :=
  runCalls (fun s c => (c.2.perform s c.1).2) s calls

end StoreCall

end Eventide
