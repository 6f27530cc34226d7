import Eventide.Model.RunState
import Eventide.Model.Store

/-! # Run reads of RuntimeStore -/

namespace Eventide

namespace Json

/-- The integer that text starts with, `0` when it starts with none. -/
def leadingInt (text : List Char) : ℤ :=
  let digits (cs : List Char) : ℤ :=
    ((cs.takeWhile Char.isDigit).foldl (fun n c => 10 * n + (c.toNat - '0'.toNat)) 0 : ℕ)
  match text.dropWhile fun c => c.toNat = 0x20 ∨ (0x09 ≤ c.toNat ∧ c.toNat ≤ 0x0d) with
  | '-' :: cs => -digits cs
  | '+' :: cs => digits cs
  | cs => digits cs

/-- SQLite's `CAST(json_extract(...) AS INTEGER)`; `none` is `NULL`. -/
def castInteger : Option Json → Option ℤ
  | some (.bool v) => some (if v then 1 else 0)
  | some (.int v) => some v
  | some (.float v) => some (if 0 ≤ v then v.floor else v.ceil)
  | some (.str v) => some (leadingInt v.toList)
  | some (.arr _) | some (.obj _) => some 0
  | some .null | none => none

end Json

namespace RuntimeStore

/-- `SELECT r.*, t.continuation_of` as a dictionary. -/
def runRow (row : Run × Option String) : Dict String Json :=
  Dict.ofList [("id", .str row.1.id), ("session_id", .str row.1.sessionId),
    ("turn_id", .str row.1.turnId), ("started_at", .int row.1.startedAt),
    ("continuation_of", row.2.elim .null .str)]

/-- The fields of `keys` that the state has. -/
def pick (state : Dict String Json) (keys : List String) : List (String × Json) :=
  keys.filterMap fun key => (state.get? key).map fun value => (key, value)

/-- `get_run`. -/
def getRun (s : RuntimeStore) (runId : String) : Except PyError (Option (Dict String Json)) :=
  match s.getRunIdentity runId with
  | none => .ok none
  | some row => do
    let state ← RunState.project (s.runEvents runId)
    return some ((runRow row).update state.entries)

/-- The types `get_run_summary` selects. -/
def summaryTypes : List EventType :=
  [.runAdmitted, .runStarted, .approvalRequired, .approvalResolved, .runCompleted, .runFailed,
    .runInterrupted]

/-- `MAX(column)`. -/
def sqlMax (column : List ℤ) : Option ℤ := column.max?

/-- `get_run_summary`. -/
def getRunSummary (s : RuntimeStore) (runId : String) :
    Except PyError (Option (Dict String Json)) :=
  match s.getRunIdentity runId with
  | none => .ok none
  | some row => do
    let events := s.runEvents runId
    let steps := sqlMax (events.filterMap fun e =>
      if e.type = .modelResponse then Json.castInteger (e.payload.get? "step") else none)
    let last := match sqlMax (events.map (·.ts)) with
      | some ts => if ts = 0 then row.1.startedAt else ts
      | none => row.1.startedAt
    let state ← RunState.project (events.filter (·.type ∈ summaryTypes))
    return some <| (runRow row).update <|
      pick state ["status", "output", "duration_ms", "error", "pending_approvals", "reason",
        "usage"] ++
      [("steps", .int (steps.getD 0)),
       ("tool_calls", .int (events.countP (·.type = .toolPrepared))),
       ("last_activity_at", .int last)] ++
      pick state ["parent_run_id", "worker_role", "snapshot_id", "completed_at"]

/-- The types `list_runs` selects. -/
def listTypes : List EventType :=
  [.approvalRequired, .approvalResolved, .runCompleted, .runFailed, .runInterrupted]

/-- The runs whose rowid is below that of `before`, a run of the same session. -/
def olderRuns (s : RuntimeStore) (sessionId : String) : Option String → List Run
  | none => s.runs
  | some before =>
    if s.runs.any fun r => r.id = before ∧ r.sessionId = sessionId then
      s.runs.takeWhile (·.id ≠ before)
    else []

/-- `JOIN turns t ON r.turn_id=t.id`. -/
def joinTurn (s : RuntimeStore) (run : Run) : Option (Run × Option String) :=
  (s.turns.find? (·.id = run.turnId)).map fun turn => (run, turn.continuationOf)

/-- The rows of the page, oldest first: the last `limit` of the session's older runs. -/
def runPage (s : RuntimeStore) (sessionId : String) (limit : Option ℕ) (before : Option String) :
    List (Run × Option String) :=
  let rows := ((s.olderRuns sessionId before).filter (·.sessionId = sessionId)).filterMap s.joinTurn
  rows.drop (rows.length - limit.getD rows.length)

/-- One record of `list_runs`. -/
def listRecord (s : RuntimeStore) (row : Run × Option String) :
    Except PyError (Dict String Json) := do
  let events := s.runEvents row.1.id
  let state ← RunState.project (events.filter (·.type ∈ listTypes))
  let lastSeq := (events.map fun e => (e.sessionSeq : ℤ)).max?
  return (runRow row).update <|
    pick state ["status", "output", "duration_ms", "error", "pending_approvals", "reason",
      "usage", "gap_files", "completed_at"] ++
    [("event_count", .int events.length),
     ("checkpoint_count", .int (events.countP (·.type = .workspaceCheckpoint))),
     ("approval_count", .int (events.countP (·.type = .approvalRequired))),
     ("last_seq", .int (lastSeq.getD 0))]

/-- `list_runs`. -/
def listRuns (s : RuntimeStore) (sessionId : String) (limit : Option ℤ := none)
    (before : Option String := none) : Except PyError (List (Dict String Json)) := do
  Outcome.raiseIf (limit.any (· < 1)) (.value "Run page limit must be positive")
  (s.runPage sessionId (limit.map Int.toNat) before).mapM s.listRecord

end RuntimeStore

end Eventide
