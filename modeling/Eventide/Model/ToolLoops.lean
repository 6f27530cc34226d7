import Eventide.Model.AgentLoop
import Eventide.Model.Continuation
import Mathlib.Data.List.DropRight

/-! # Repeated failures

`tool_loops.py`: the last outcomes of a run and of the runs that it continues, and whether they
repeat one failure without progress. -/

namespace Eventide

open RuntimeStore

namespace ToolLoops

/-- `FAILURE_WINDOW`. -/
def failureWindow : ℕ := 3

/-- `_RESULTS`. -/
def results : List EventType := [.toolCompleted, .toolOutcomeUnknown]

def isResult (event : Event) : Bool := event.type ∈ results && !event.isPartial

/-- The loop of `_history`, with the run before it at the end; none where a run is missing. -/
def collect (s : RuntimeStore) (seen : List String) (count : ℕ) (runId : String) :
    Option (List (List Event)) :=
  if _ : runId = "" ∨ runId ∈ seen then some []
  else
    match _ : s.getRunIdentity runId with
    | none => none
    | some identity =>
      let events := s.runEvents runId
      if failureWindow ≤ count + events.countP isResult then some [events]
      else (collect s (runId :: seen) (count + events.countP isResult)
        (identity.2.getD "")).map (events :: ·)
termination_by (s.runs.filter fun run => run.id ∉ seen).length
decreasing_by
  rename_i hseen hrun _
  exact unseen_lt (fun h => hseen (.inr h)) (mem_of_getRunIdentity hrun)

/-- `_history`. -/
def history (s : RuntimeStore) (runId : String) : List Event :=
  (collect s [] 0 runId).elim [] fun chunks => chunks.reverse.flatten

/-- An outcome of the window. -/
structure Outcome where
  runId : Option String
  callId : Json
  name : Json
  signature : Json
  checkpoint : Option Json

/-- `signature`, with `None` as null. -/
def signature (event : Event) : Json :=
  if event.type = .toolCompleted ∧
      (event.payload.get? "is_error").any (· matches .bool true) = true ∧
      AgentLoop.failureEvidence ((event.payload.get? "metadata").getD (.obj [])) = true then
    (event.payload.get? "failure_fingerprint").getD .null
  else .null

/-- The checkpoint of an event, where it is available. -/
def available (event : Event) : Option Json :=
  match event.payload.get? "checkpoint" with
  | some (.obj fields) =>
    if fields = [] ∨ ((Json.obj fields).get? "available").any (· matches .bool false) then none
    else some (.obj fields)
  | _ => none

/-- An outcome as it is recorded. -/
def outcome (event : Event) (checkpoint : Option Json) : Outcome where
  runId := event.runId
  callId := (event.payload.get? "call_id").getD .null
  name := (event.payload.get? "name").getD .null
  signature := signature event
  checkpoint := checkpoint

/-- The local variables of the loop; `pending` is the last item of the window, or nothing. -/
structure Window where
  checkpoint : Option Json := none
  window : List Outcome := []
  pending : Bool := false

/-- The last item of the window, which `pending` is, gets a checkpoint. -/
def renew (checkpoint : Option Json) (window : List Outcome) : List Outcome :=
  window.modifyLast ({ · with checkpoint })

/-- The body of the loop. -/
def observe (w : Window) (event : Event) : Window :=
  if event.isPartial then w
  else if event.type = .workspaceCheckpoint then
    { w with
      checkpoint := available event
      window := if w.pending then renew (available event) w.window else w.window }
  else if event.type = .toolPrepared then { w with pending := false }
  else if event.type ∈ results then
    { w with
      window := (w.window ++ [outcome event w.checkpoint]).rtake failureWindow
      pending := true }
  else w

structure Candidate where
  threshold : ℕ
  matchingFailureWindow : ℕ
  tool : Json
  failureFingerprint : Json
  checkpointHash : String
  continuedFailureChain : Bool
  calls : List (Option String × Json)

/-- `a == b`, of two checkpoints. -/
def sameCheckpoint : Option Json → Option Json → Bool
  | none, none => true
  | some a, some b => a.pyEq b
  | _, _ => false

/-- What follows the loop. -/
def judge (digest : Json → String) (runId : String) (window : List Outcome) : Option Candidate :=
  if window.length ≠ failureWindow then none
  else
    match window.getLast? with
    | none => none
    | some last =>
      match last.checkpoint with
      | none => none
      | some checkpoint =>
        if !last.signature.truthy ∨ ∃ item ∈ window, !item.signature.pyEq last.signature ∨
            !sameCheckpoint item.checkpoint last.checkpoint then none
        else some {
          threshold := failureWindow
          matchingFailureWindow := window.length
          tool := last.name
          failureFingerprint := last.signature
          checkpointHash := digest checkpoint
          continuedFailureChain := window.any fun item => item.runId ≠ some runId
          calls := window.map fun item => (item.runId, item.callId) }

/-- `failure_loop_candidate`, of a history. -/
def candidate (digest : Json → String) (runId : String) (events : List Event) : Option Candidate :=
  judge digest runId (events.foldl observe {}).window

/-- `failure_loop_candidate`. -/
def failureLoopCandidate (digest : Json → String) (s : RuntimeStore) (runId : String) :
    Option Candidate :=
  candidate digest runId (history s runId)

end ToolLoops

end Eventide
