import Eventide.Model.AgentLoop
import Mathlib.Tactic.Common

/-! # Footprints of the loop

What the parts of a run ask. Most of them neither execute a tool nor write a fact about one;
what is proved of a run has to look at the others only. -/

namespace Eventide

open Interaction Program

/-- The questions that execute a tool. -/
def Ask.executes : Ask → Bool
  | .command _ _ _ | .handler _ _ _ => true
  | _ => false

/-- The facts that a batch of calls is read from. -/
def EventType.ofBatch : EventType → Bool
  | .modelResponse | .toolPrepared | .toolCompleted | .toolAbandoned | .toolOutcomeUnknown => true
  | _ => false

/-- The questions that neither execute a tool nor commit a fact of a batch. -/
def Ask.inert : Ask → Bool
  | .command _ _ _ | .handler _ _ _ => false
  | .commit fact => !fact.type.ofBatch
  | _ => true

theorem Ask.executes_of_inert {q : Ask} (h : q.inert = true) : q.executes = false := by
  cases q <;> first | rfl | cases h

abbrev Quiet {α : Type} (p : Task α) : Prop := p.Uses fun q => q.executes = false

abbrev Inert {α : Type} (p : Task α) : Prop := p.Uses fun q => q.inert = true

theorem Inert.quiet {α : Type} {p : Task α} (hp : Inert p) : Quiet p :=
  hp.mono fun _ => Ask.executes_of_inert

theorem quiet_emit (fact : Fact) : Quiet (emit fact) := by
  refine Uses.bind (uses_call rfl) fun _ => Uses.bind (Uses.attempt (uses_call rfl)) fun sent => ?_
  match sent with
  | .ok _ => exact uses_pure _
  | .error e => cases e <;> trivial

theorem inert_emit {fact : Fact} (h : fact.type.ofBatch = false) : Inert (emit fact) := by
  have hcommit : Ask.inert (.commit fact) = true := by simp [Ask.inert, h]
  refine Uses.bind (uses_call hcommit) fun _ =>
    Uses.bind (Uses.attempt (uses_call rfl)) fun sent => ?_
  match sent with
  | .ok _ => exact uses_pure _
  | .error e => cases e <;> trivial

/-- What an emitted fact leaves, and what its failures leave. -/
theorem safe_emit {P : History → Exchange Ask Ask.Result Raised → Prop} {h : History} {fact : Fact}
    {post : History → Except Raised Unit → Prop}
    (hcommit : ∀ answer, P h ⟨.commit fact, answer⟩)
    (hdeliver : ∀ sent, P (h ++ [⟨.commit fact, .ok ()⟩]) ⟨.deliver, sent⟩)
    (hlost : ∀ e, post (h ++ [⟨.commit fact, .error e⟩]) (.error e))
    (hok : ∀ sent, post (h ++ [⟨.commit fact, .ok ()⟩, ⟨.deliver, sent⟩]) (.ok ()))
    (hcancel : post (h ++ [⟨.commit fact, .ok ()⟩, ⟨.deliver, .error .cancelled⟩])
      (.error .cancelled)) :
    (emit fact).Safe P h post := by
  unfold emit
  rw [safe_bind]
  refine safe_call.mpr fun answer => ⟨hcommit answer, ?_⟩
  cases answer with
  | error e => exact hlost e
  | ok value =>
    dsimp only
    rw [safe_bind, safe_attempt]
    refine safe_call.mpr fun sent => ⟨hdeliver sent, ?_⟩
    rw [List.append_assoc, List.singleton_append]
    cases sent with
    | ok => exact hok _
    | error e =>
      cases e
      case cancelled => exact hcancel
      all_goals exact hok _

namespace AgentLoop

variable {c : RunConfig}

theorem inert_emitCheckpoint : Inert emitCheckpoint :=
  Uses.bind (uses_call rfl) fun _ => inert_emit rfl

theorem inert_askUser (approvalId : String) (call : ToolCall) (reason : String) :
    Inert (askUser c approvalId call reason) := by
  unfold askUser
  split
  · refine Uses.bind (Uses.attempt (uses_call rfl)) fun answer => ?_
    match answer with
    | .ok approved => exact uses_pure _
    | .error e =>
      dsimp only
      split <;> trivial
  · exact uses_pure _

theorem inert_approve (approvalId : String) (call : ToolCall) (reason : String) :
    Inert (approve c approvalId call reason) := by
  refine Uses.bind (inert_emit rfl) fun _ => ?_
  split
  · exact Uses.bind (inert_emit rfl) fun _ => uses_pure _
  · exact Uses.bind (inert_askUser _ _ _) fun _ => Uses.bind (inert_emit rfl) fun _ => uses_pure _

theorem inert_checkpointAfter (call : ToolCall) : Inert (checkpointAfter c call) := by
  unfold checkpointAfter
  split
  · exact uses_pure _
  · exact inert_emitCheckpoint

theorem inert_confirmFailureLoop (readonly : Bool) (candidate : Option Json) :
    Inert (confirmFailureLoop readonly candidate) := by
  unfold confirmFailureLoop
  split
  · exact Uses.bind inert_emitCheckpoint fun _ => uses_call rfl
  · exact uses_pure _

theorem inert_findFailureLoop (readonly : Bool) (fingerprint : Option String) :
    Inert (findFailureLoop readonly fingerprint) := by
  unfold findFailureLoop
  split
  · exact uses_pure _
  · exact Uses.bind (uses_call rfl) fun _ => inert_confirmFailureLoop _ _

theorem inert_afterBatch (st : LoopState) (batch : BatchEnd) : Inert (afterBatch st batch) := by
  cases batch with
  | park message => exact uses_pure _
  | done invalid force =>
    simp only [afterBatch]
    split
    · exact uses_throw _
    · exact uses_pure _

theorem inert_checkFinal (st : LoopState) (r : ModelResponse) : Inert (checkFinal c st r) := by
  unfold checkFinal
  split
  · split
    · exact uses_pure _
    · exact uses_throw _
  · exact uses_pure _

theorem inert_requestModel (st : LoopState) : Inert (requestModel c st) :=
  Uses.bind (uses_call rfl) fun _ => Uses.bind (inert_emit rfl) fun _ =>
    Uses.bind (uses_call rfl) fun _ => uses_call rfl

theorem inert_parkCheckpoint : Inert parkCheckpoint := by
  refine Uses.bind (uses_call rfl) fun last => ?_
  split
  · exact uses_pure _
  · exact inert_emitCheckpoint

theorem inert_conclude (finish : LoopEnd) : Inert (conclude finish) := by
  cases finish with
  | parked kind message => exact Uses.bind inert_parkCheckpoint fun _ => uses_pure _
  | answered output => exact Uses.bind (uses_call rfl) fun _ => uses_pure _

theorem inert_recover (e : Raised) : Inert (recover c e) := by
  cases e with
  | cancelled =>
    refine Uses.bind (Uses.attempt inert_parkCheckpoint) fun saved => ?_
    have hend : Inert (do
        let unknown : Bool ← Task.call .unknownOutcome
        emit (interruptedFact unknown)
        throw .cancelled : Task Terminal) :=
      Uses.bind (uses_call rfl) fun _ => Uses.bind (inert_emit rfl) fun _ => uses_throw _
    match saved with
    | .ok () => exact hend
    | .error e => cases e <;> first | exact hend | exact uses_throw _
  | tokenBudget message => exact Uses.bind inert_emitCheckpoint fun _ => uses_pure _
  | budgetExceeded message _ => exact Uses.bind inert_emitCheckpoint fun _ => uses_pure _
  | unknownOutcome message => exact uses_pure _
  | error => exact uses_pure _

theorem inert_closeManager : Inert (closeManager c) := by
  refine Uses.bind (Uses.attempt (uses_call rfl)) fun closed => ?_
  cases closed with
  | ok => exact uses_pure _
  | error e =>
    cases e
    case cancelled => exact uses_throw _
    all_goals
      refine Uses.bind (Uses.attempt (inert_emit rfl)) fun told => ?_
      cases told with
      | ok => exact uses_pure _
      | error e => cases e <;> trivial

end AgentLoop

end Eventide
