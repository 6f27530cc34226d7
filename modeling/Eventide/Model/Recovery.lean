import Eventide.Model.AgentLoop

/-! # Restarts

`_recover_interrupted_runs`: what the Host adds to a run that it died inside. -/

namespace Eventide

namespace Recovery

/-- The tools that a sandbox runs. -/
def sandboxTools : List String := ["bash", "read_file", "glob", "write_file", "edit_file"]

def callId (fact : Fact) : Json := (fact.payload.get? "call_id").getD .null

/-- `settled`. -/
def settled (facts : List Fact) : List Json :=
  (facts.filter fun fact => fact.type ∈ [.toolCompleted, .toolOutcomeUnknown]).map callId

/-- A call of the sandbox that has no outcome. -/
def unsettled (facts : List Fact) (fact : Fact) : Bool :=
  fact.type = .toolPrepared &&
    (((fact.payload.get? "name").bind Json.str?).any (· ∈ sandboxTools) &&
      (settled facts).all fun id => !id.pyEq (callId fact))

def stoppedFact (sandboxId : String) (prepared : Fact) : Fact where
  type := .toolOutcomeUnknown
  payload := .obj [("call_id", callId prepared),
    ("name", (prepared.payload.get? "name").getD .null), ("readonly", .bool false),
    ("workspace_id", .str ("sandbox:" ++ sandboxId)), ("sandbox_id", .str sandboxId),
    ("error", .str "Host stopped before sandbox container cleanup was confirmed")]

def checkpointFact (checkpoint : Json) : Fact where
  type := .workspaceCheckpoint
  payload := .obj [("checkpoint", checkpoint)]

/-- What `_crash_gap_evidence` found: the files that changed, or a checkpoint where none did. -/
abbrev Evidence := List String × Option Json

def evidenceFacts : Option Evidence → List Fact
  | some ([], some checkpoint) => [checkpointFact checkpoint]
  | _ => []

/-- `queued`: the run was admitted and has not started. -/
def queued (facts : List Fact) : Bool :=
  !facts.any (·.type = .runStarted) && facts.any (·.type = .runAdmitted)

/-- The fact that closes a run; a queued one says so, before the files. -/
def interruptedFact (queued : Bool) (evidence : Option Evidence) : Fact where
  type := .runInterrupted
  payload := .obj ([("error", .str "Host stopped before terminal fact")] ++
    (if queued then [("reason", .str "host_stopped_before_dispatch")] else []) ++
    match evidence with
    | some (file :: files, _) => [("gap_files", .arr ((file :: files).map .str))]
    | _ => [])

/-- The evidence that is asked for: there is none for a queued run, which keeps the checkpoint that
it was admitted with. -/
def evidenceFor (facts : List Fact) (evidence : Option Evidence) : Option Evidence :=
  if queued facts then none else evidence

/-- The facts that a restart adds to a run of the sandbox, or of no sandbox. -/
def recoveryFacts (sandbox : Option String) (evidence : Option Evidence) (facts : List Fact) :
    List Fact :=
  (sandbox.elim [] fun id => (facts.filter (unsettled facts)).map (stoppedFact id)) ++
    evidenceFacts (evidenceFor facts evidence) ++
      [interruptedFact (queued facts) (evidenceFor facts evidence)]

end Recovery

end Eventide
