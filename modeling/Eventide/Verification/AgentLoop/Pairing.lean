import Eventide.Model.Projections
import Eventide.Verification.AgentLoop.Gate

/-! # Calls and their answers

No model response is committed while a call of an earlier one is unanswered, and the calls of a
response are answered in their order, each once. A run that completes, or parks where it may be
continued at once, leaves none unanswered. -/

namespace Eventide

open Interaction Program

/-! ## Batches -/

/-- The facts that say something, call a tool or answer a call. -/
def pairKinds : List EventType :=
  [.messageUser, .messageImported, .modelResponse, .toolCompleted, .toolAbandoned]

/-- The reasons of an interruption between two batches. -/
def settledReasons : List String := ["step_budget", "repeated_tool_failure", "task_step_budget"]

/-- The fact ends a run between two batches. -/
def Fact.Settles (fact : Fact) : Prop :=
  fact.type = .runCompleted ∨ fact.type = .runInterrupted ∧
    ∃ reason ∈ settledReasons, fact.payload.get? "reason" = some (.str reason)

/-- The facts of an approval. -/
def approvalKinds : List EventType := [.approvalRequired, .approvalResolved]

/-- The fact names the approval that it is about. -/
def Fact.identified (fact : Fact) : Bool :=
  fact.type ∉ approvalKinds || ((fact.payload.get? "approval_id").bind Json.str?).isSome

/-- The fact holds a message of the user. -/
def Fact.SaysUser (fact : Fact) : Prop :=
  fact.type = .messageUser ∧ ∀ message, fact.payload.get? "message" = some message →
    MessagesProjection.assistantContent message = .ok none

/-- The calls that are left unanswered by a log, which starts with those of another. -/
inductive Batches (responds : Fact → List String → Prop) (start : List String) :
    List Fact → List String → Prop
  | nil : Batches responds start [] start
  | other {facts : List Fact} {pending : List String} {fact : Fact}
      (h : Batches responds start facts pending) (hkind : fact.type ∉ pairKinds)
      (hid : fact.identified = true) (hsettles : fact.Settles → pending = []) :
      Batches responds start (facts ++ [fact]) pending
  | said {facts : List Fact} {fact : Fact} (h : Batches responds start facts [])
      (huser : fact.SaysUser) : Batches responds start (facts ++ [fact]) []
  | response {facts : List Fact} {fact : Fact} {ids : List String}
      (h : Batches responds start facts []) (hkind : fact.type = .modelResponse)
      (hids : responds fact ids) : Batches responds start (facts ++ [fact]) ids
  | answered {facts : List Fact} {fact : Fact} {id : String} {pending : List String}
      (h : Batches responds start facts (id :: pending)) (hkind : fact.type.pairsCall = true)
      (hid : fact.payload.get? "call_id" = some (.str id)) :
      Batches responds start (facts ++ [fact]) pending

namespace Batches

variable {responds responds' : Fact → List String → Prop} {start mid last : List String}
  {facts more : List Fact}

theorem mono (h : Batches responds start facts last)
    (hr : ∀ fact ids, responds fact ids → responds' fact ids) :
    Batches responds' start facts last := by
  induction h with
  | nil => exact .nil
  | other _ hkind hid hsettles ih => exact .other ih hkind hid hsettles
  | said _ huser ih => exact .said ih huser
  | response _ hkind hids ih => exact .response ih hkind (hr _ _ hids)
  | answered _ hkind hid ih => exact .answered ih hkind hid

/-- One log after another. -/
theorem append (h : Batches responds start facts mid) (h' : Batches responds mid more last) :
    Batches responds start (facts ++ more) last := by
  induction h' with
  | nil => exact (List.append_nil facts).symm ▸ h
  | other _ hkind hid hsettles ih => exact List.append_assoc _ _ _ ▸ .other ih hkind hid hsettles
  | said _ huser ih => exact List.append_assoc _ _ _ ▸ .said ih huser
  | response _ hkind hids ih => exact List.append_assoc _ _ _ ▸ .response ih hkind hids
  | answered _ hkind hid ih => exact List.append_assoc _ _ _ ▸ .answered ih hkind hid

/-- Every part of a log has its own unanswered calls. -/
theorem split (h : Batches responds start (facts ++ more) last) :
    ∃ mid, Batches responds start facts mid ∧ Batches responds mid more last := by
  induction more using List.reverseRecOn generalizing last with
  | nil => exact ⟨last, List.append_nil facts ▸ h, .nil⟩
  | append_singleton more fact ih =>
    rw [← List.append_assoc] at h
    generalize hlog : facts ++ more ++ [fact] = log at h
    have hparts {xs : List Fact} {x : Fact} (heq : facts ++ more ++ [fact] = xs ++ [x]) :
        xs = facts ++ more ∧ x = fact := by
      obtain ⟨hinit, hlast⟩ := List.append_inj' heq rfl
      exact ⟨hinit.symm, (List.cons.inj hlast).1.symm⟩
    cases h with
    | nil => simp at hlog
    | other h hkind hid hsettles =>
      obtain ⟨rfl, rfl⟩ := hparts hlog
      obtain ⟨mid, hfirst, hrest⟩ := ih h
      exact ⟨mid, hfirst, .other hrest hkind hid hsettles⟩
    | said h huser =>
      obtain ⟨rfl, rfl⟩ := hparts hlog
      obtain ⟨mid, hfirst, hrest⟩ := ih h
      exact ⟨mid, hfirst, .said hrest huser⟩
    | response h hkind hids =>
      obtain ⟨rfl, rfl⟩ := hparts hlog
      obtain ⟨mid, hfirst, hrest⟩ := ih h
      exact ⟨mid, hfirst, .response hrest hkind hids⟩
    | answered h hkind hid =>
      obtain ⟨rfl, rfl⟩ := hparts hlog
      obtain ⟨mid, hfirst, hrest⟩ := ih h
      exact ⟨mid, hfirst, .answered hrest hkind hid⟩

theorem other_of_kind {pending : List String} {fact : Fact} (h : Batches responds start facts pending)
    (hkind : fact.type ∉ pairKinds ++ [.runCompleted, .runInterrupted])
    (hid : fact.identified = true) : Batches responds start (facts ++ [fact]) pending := by
  rw [List.mem_append, not_or] at hkind
  refine .other h hkind.1 hid fun hsettles => ?_
  rcases hsettles with hc | ⟨hi, -⟩
  · rw [hc] at hkind
    exact absurd (by decide) hkind.2
  · rw [hi] at hkind
    exact absurd (by decide) hkind.2

end Batches

/-! ## What commits none of these facts -/

/-- The questions that commit no fact about calls, messages or the end of a run. -/
def Ask.unpaired : Ask → Bool
  | .commit fact => fact.type ∉ pairKinds ++ [.runCompleted, .runInterrupted] && fact.identified
  | _ => true

abbrev Unpaired {α : Type} (p : Task α) : Prop := p.Uses fun q => q.unpaired = true

theorem unpaired_emit {fact : Fact} (h : fact.type ∉ pairKinds ++ [.runCompleted, .runInterrupted])
    (hid : fact.identified = true) : Unpaired (emit fact) := by
  have hcommit : Ask.unpaired (.commit fact) = true := by simp [Ask.unpaired, h, hid]
  refine Uses.bind (uses_call hcommit) fun _ =>
    Uses.bind (Uses.attempt (uses_call rfl)) fun sent => ?_
  cases sent with
  | ok => exact uses_pure _
  | error e => cases e <;> trivial

namespace AgentLoop

variable {c : RunConfig}

theorem unpaired_emitCheckpoint : Unpaired emitCheckpoint :=
  Uses.bind (uses_call rfl) fun checkpoint => unpaired_emit
    (show EventType.workspaceCheckpoint ∉ _ by decide) rfl

theorem unpaired_approve (approvalId : String) (call : ToolCall) (reason : String) :
    Unpaired (approve c approvalId call reason) := by
  have hresolved : EventType.approvalResolved ∉ pairKinds ++ [.runCompleted, .runInterrupted] := by
    decide
  refine Uses.bind (unpaired_emit (show EventType.approvalRequired ∉ _ by decide) rfl) fun _ => ?_
  split
  · exact Uses.bind (unpaired_emit hresolved rfl) fun _ => uses_pure _
  · refine Uses.bind ?_ fun _ => Uses.bind (unpaired_emit hresolved rfl) fun _ => uses_pure _
    unfold askUser
    split
    · refine Uses.bind (Uses.attempt (uses_call rfl)) fun answer => ?_
      cases answer with
      | ok approved => exact uses_pure _
      | error e =>
        dsimp only
        split
        · exact uses_pure _
        · exact uses_throw _
    · exact uses_pure _

theorem unpaired_execute (x : ToolExecutor) (call : ToolCall) :
    Unpaired (x.execute (some (approve c)) c.workingRoot call) := by
  unfold ToolExecutor.execute
  split
  · exact uses_pure _
  · refine Uses.bind (Uses.bind (uses_call rfl) fun policy => ?_) fun refused => ?_
    · split
      · exact uses_pure _
      · exact uses_pure _
      · exact Uses.bind (uses_call rfl) fun _ =>
          Uses.bind (unpaired_approve _ _ _) fun _ => uses_pure _
    · split
      · exact uses_pure _
      · refine Uses.bind (Uses.attempt ?_) fun outcome => ?_
        · unfold dispatchCall
          split
          · split
            · exact uses_call rfl
            · exact uses_throw _
          · exact uses_call rfl
        · cases outcome with
          | ok output => exact uses_pure _
          | error e => cases e <;> trivial

theorem unpaired_checkpointAfter (call : ToolCall) : Unpaired (checkpointAfter c call) := by
  unfold checkpointAfter
  split
  · exact uses_pure _
  · exact unpaired_emitCheckpoint

theorem unpaired_findFailureLoop (readonly : Bool) (fingerprint : Option String) :
    Unpaired (findFailureLoop readonly fingerprint) := by
  unfold findFailureLoop
  split
  · exact uses_pure _
  · refine Uses.bind (uses_call rfl) fun candidate => ?_
    unfold confirmFailureLoop
    split
    · exact Uses.bind unpaired_emitCheckpoint fun _ => uses_call rfl
    · exact uses_pure _

theorem unpaired_parkCheckpoint : Unpaired parkCheckpoint := by
  refine Uses.bind (uses_call rfl) fun last => ?_
  split
  · exact uses_pure _
  · exact unpaired_emitCheckpoint

theorem unpaired_closeManager : Unpaired (closeManager c) := by
  refine Uses.bind (Uses.attempt (uses_call rfl)) fun closed => ?_
  cases closed with
  | ok => exact uses_pure _
  | error e =>
    have hfailed (e : Raised) : Unpaired (emit (closeFailedFact c e)) :=
      unpaired_emit (show EventType.other "mcp.close_failed" ∉ _ by decide) rfl
    cases e
    case cancelled => exact uses_throw _
    all_goals
      refine Uses.bind (Uses.attempt (hfailed _)) fun told => ?_
      cases told with
      | ok => exact uses_pure _
      | error e => cases e <;> trivial

/-! ## Histories -/

/-- The fact holds a response of the model, with these calls. -/
def Responds (c : RunConfig) (h : History) (fact : Fact) (ids : List String) : Prop :=
  ∃ st tools r, ⟨.complete tools, .ok r⟩ ∈ h ∧ fact = responseFact c st r ∧
    ids = r.toolCalls.map ToolCall.id ∧ ids.Nodup

/-- The calls that a history leaves unanswered. -/
def Leaves (c : RunConfig) (start : List String) (h : History) (pending : List String) : Prop :=
  Batches (Responds c h) start h.facts pending

/-- An exchange that goes on as the batches ask for. -/
def Continues (c : RunConfig) (start : List String) (before : History)
    (exchange : Exchange Ask Ask.Result Raised) : Prop :=
  ∀ pending, Leaves c start before pending → ∃ pending', Leaves c start (before ++ [exchange]) pending'

variable {start : List String} {h : History} {pending : List String} {α : Type}

theorem Leaves.grows (hl : Leaves c start h pending) (more : History) :
    Batches (Responds c (h ++ more)) start h.facts pending :=
  hl.mono fun _ _ ⟨st, tools, r, hr, hrest⟩ => ⟨st, tools, r, List.mem_append_left _ hr, hrest⟩

/-- An exchange that commits nothing. -/
theorem Leaves.asked {exchange : Exchange Ask Ask.Result Raised} (hl : Leaves c start h pending)
    (hnone : History.facts [exchange] = []) : Leaves c start (h ++ [exchange]) pending := by
  have hfacts : History.facts (h ++ [exchange]) = h.facts := by
    rw [History.facts, List.filterMap_append, ← History.facts, ← History.facts, hnone,
      List.append_nil]
  rw [Leaves, hfacts]
  exact hl.grows _

theorem Leaves.committed {fact : Fact} {u : Unit} {pending' : List String}
    (hb : ∀ responds, Batches responds start h.facts pending →
      Batches responds start (h.facts ++ [fact]) pending') (hl : Leaves c start h pending) :
    Leaves c start (h ++ [⟨.commit fact, .ok u⟩]) pending' := by
  have hfacts : History.facts (h ++ [⟨.commit fact, .ok u⟩]) = h.facts ++ [fact] :=
    List.filterMap_append
  rw [Leaves, hfacts]
  exact hb _ (hl.grows _)

theorem continues_asked {exchange : Exchange Ask Ask.Result Raised}
    (hnone : History.facts [exchange] = []) : Continues c start h exchange :=
  fun pending hl => ⟨pending, hl.asked hnone⟩

theorem Leaves.unpaired {q : Ask} {answer : Except Raised q.Result} (hl : Leaves c start h pending)
    (hq : q.unpaired = true) : Leaves c start (h ++ [⟨q, answer⟩]) pending := by
  cases q with
  | commit fact =>
    cases answer with
    | ok u =>
      rw [Ask.unpaired, Bool.and_eq_true, decide_eq_true_eq] at hq
      exact hl.committed fun _ hb => hb.other_of_kind hq.1 hq.2
    | error e => exact hl.asked rfl
  | _ => exact hl.asked rfl

/-- What commits none of these facts leaves the same calls. -/
theorem safe_unpaired {p : Task α} (hp : Unpaired p) (hl : Leaves c start h pending) :
    p.Safe (Continues c start) h fun h' _ => Leaves c start h' pending := by
  refine (hp.safe fun h q answer hq pending hl => ⟨pending, hl.unpaired hq⟩).mono fun h' r hr => ?_
  obtain ⟨asked, rfl, hasked⟩ := hr
  clear hp
  induction asked using List.reverseRecOn with
  | nil => exact (List.append_nil h).symm ▸ hl
  | append_singleton asked exchange ih =>
    rw [← List.append_assoc]
    exact (ih fun e he => hasked e (List.mem_append_left _ he)).unpaired
      (hasked exchange (List.mem_append_right _ List.mem_cons_self))

/-- Whatever has been raised, some calls are left. -/
def Left (c : RunConfig) (start : List String) (h : History) : Prop :=
  ∃ pending, Leaves c start h pending

/-- A fact that is emitted, or lost. -/
theorem safe_emit_leaves {fact : Fact} {pending' : List String} (hl : Leaves c start h pending)
    (hb : Batches (Responds c h) start (h.facts ++ [fact]) pending') :
    (emit fact).Safe (Continues c start) h fun h' r =>
      match r with
      | .ok _ => Leaves c start h' pending'
      | .error _ => Left c start h' := by
  have hcommitted (u : Unit) : Leaves c start (h ++ [⟨.commit fact, .ok u⟩]) pending' := by
    have hfacts : History.facts (h ++ [⟨.commit fact, .ok u⟩]) = h.facts ++ [fact] :=
      List.filterMap_append
    rw [Leaves, hfacts]
    exact hb.mono fun _ _ ⟨st, tools, r, hr, hrest⟩ =>
      ⟨st, tools, r, List.mem_append_left _ hr, hrest⟩
  have hdelivered (sent : Except Raised Unit) :
      Leaves c start (h ++ [⟨.commit fact, .ok ()⟩, ⟨.deliver, sent⟩]) pending' := by
    have happend : h ++ [⟨.commit fact, .ok ()⟩, ⟨.deliver, sent⟩] =
        (h ++ [⟨.commit fact, .ok ()⟩]) ++ [(⟨.deliver, sent⟩ : Exchange Ask Ask.Result Raised)] :=
      by simp
    rw [happend]
    exact (hcommitted ()).asked rfl
  refine safe_emit (fun answer _ _ => ?_) (fun sent => continues_asked rfl)
    (fun e => ⟨pending, hl.asked rfl⟩) hdelivered ⟨pending', hdelivered _⟩
  cases answer with
  | ok u => exact ⟨pending', hcommitted u⟩
  | error e => exact ⟨pending, hl.asked rfl⟩

/-! ## A batch -/

/-- Calls that are answered one after the other without being executed. -/
theorem safe_abandonCalls (content reason : String) {calls : List ToolCall}
    (hl : Leaves c start h (calls.map ToolCall.id)) :
    (abandonCalls content reason calls).Safe (Continues c start) h fun h' r =>
      match r with
      | .ok _ => Leaves c start h' []
      | .error _ => Left c start h' := by
  induction calls generalizing h with
  | nil => exact hl
  | cons call calls ih =>
    refine (safe_emit_leaves hl (.answered hl rfl rfl)).bind (fun h' _ hl' => ?_)
      fun h' e hleft => hleft
    exact ih hl'

/-- A cancelled run still records what the call that it waited for came to. -/
theorem safe_settleCancelled_leaves {call : ToolCall} {ids : List String}
    (hl : Leaves c start h (call.id :: ids)) (result : Except Raised ToolResult) :
    (settleCancelled c call result).Safe (Continues c start) h fun h' r =>
      Left c start h' ∧ ∀ value, r ≠ .ok value := by
  cases result with
  | error e => exact ⟨⟨_, hl⟩, fun _ => nofun⟩
  | ok settled =>
    simp only [settleCancelled]
    split
    · have hunknown : (unknownFact c call settled.content).type ∉
          pairKinds ++ [.runCompleted, .runInterrupted] :=
        show EventType.toolOutcomeUnknown ∉ _ by decide
      refine (safe_unpaired (unpaired_emit hunknown rfl) hl).bind (fun h' _ hl' => ?_) fun h' _ hl' => ?_
      · exact ⟨⟨_, hl'⟩, fun _ => nofun⟩
      · exact ⟨⟨_, hl'⟩, fun _ => nofun⟩
    · refine (safe_emit_leaves hl (.answered hl rfl rfl)).bind (fun h' _ hl' => ?_) fun h' e hleft => ?_
      · exact ⟨⟨_, hl'⟩, fun _ => nofun⟩
      · exact ⟨hleft, fun _ => nofun⟩

theorem safe_executeCall_leaves {call : ToolCall} {ids : List String} (x : ToolExecutor)
    (hl : Leaves c start h (call.id :: ids)) :
    (executeCall c x call).Safe (Continues c start) h fun h' r =>
      match r with
      | .ok _ => Leaves c start h' (call.id :: ids)
      | .error _ => Left c start h' := by
  have hexecute : (x.execute (some (approve c)) c.workingRoot call).attempt.Safe
      (Continues c start) h fun h' _ => Leaves c start h' (call.id :: ids) :=
    safe_attempt.mpr (safe_unpaired (unpaired_execute x call) hl)
  refine hexecute.bind (fun h₁ result hl₁ => ?_) fun h' _ hl' => ⟨call.id :: ids, hl'⟩
  have hstopped : (Task.call .interrupted).Safe (Continues c start) h₁
      fun h' _ => Leaves c start h' (call.id :: ids) := safe_unpaired (uses_call rfl) hl₁
  refine hstopped.bind (fun h₂ stopped hl₂ => ?_) fun h' _ hl' => ⟨call.id :: ids, hl'⟩
  split
  · refine (safe_settleCancelled_leaves hl₂ result).mono fun h' r hr => ?_
    cases r with
    | ok value => exact absurd rfl (hr.2 value)
    | error e => exact hr.1
  · cases result with
    | ok value => exact hl₂
    | error e => exact ⟨_, hl₂⟩

/-- The outcome of a call, after which the next one is in turn. -/
theorem safe_recordResult_leaves {call : ToolCall} {ids : List String} (result : ToolResult)
    (hl : Leaves c start h (call.id :: ids)) :
    (recordResult c call result).Safe (Continues c start) h fun h' r =>
      match r with
      | .ok _ => Leaves c start h' ids
      | .error _ => Left c start h' := by
  unfold recordResult
  split
  · have hunknown : (unknownFact c call result.content).type ∉
        pairKinds ++ [.runCompleted, .runInterrupted] :=
      show EventType.toolOutcomeUnknown ∉ _ by decide
    refine (safe_unpaired (unpaired_emit hunknown rfl) hl).bind (fun h' _ hl' => ?_) fun h' _ hl' => ?_
    · exact ⟨_, hl'⟩
    · exact ⟨_, hl'⟩
  · refine (safe_emit_leaves hl (.answered hl rfl rfl)).bind (fun h₁ _ hl₁ => ?_) fun _ _ hleft => hleft
    split
    · exact ⟨_, hl₁⟩
    · have hrest : Unpaired (do
          checkpointAfter c call
          findFailureLoop (readonlyCall c call) (failureFingerprint c call result)) :=
        Uses.bind (unpaired_checkpointAfter _) fun _ => unpaired_findFailureLoop _ _
      refine (safe_unpaired hrest hl₁).mono fun h' r hl' => ?_
      cases r with
      | ok value => exact hl'
      | error e => exact ⟨_, hl'⟩

/-- A batch that ends by itself leaves no call unanswered; the induction is over those that
remain. -/
theorem safe_runBatch_leaves (x : ToolExecutor) {calls : List ToolCall} (invalid force : Bool)
    (hl : Leaves c start h (calls.map ToolCall.id)) :
    (runBatch c x invalid force calls).Safe (Continues c start) h fun h' r =>
      match r with
      | .ok _ => Leaves c start h' []
      | .error _ => Left c start h' := by
  induction calls generalizing h invalid force with
  | nil => exact hl
  | cons call calls ih =>
    have hprepared : (preparedFact c call).type ∉ pairKinds ++ [.runCompleted, .runInterrupted] :=
      show EventType.toolPrepared ∉ _ by decide
    refine (safe_unpaired (unpaired_emit hprepared rfl) hl).bind (fun h₁ _ hl₁ => ?_)
      fun _ _ hl' => ⟨_, hl'⟩
    refine (safe_executeCall_leaves x hl₁).bind (fun h₂ result hl₂ => ?_) fun _ _ hleft => hleft
    refine (safe_recordResult_leaves result hl₂).bind (fun h₃ candidate hl₃ => ?_)
      fun _ _ hleft => hleft
    cases candidate with
    | none => exact ih _ _ hl₃
    | some candidate =>
      have hloop : (failureLoopFact candidate).type ∉ pairKinds ++ [.runCompleted, .runInterrupted] :=
        show EventType.toolFailureLoopDetected ∉ _ by decide
      refine (safe_unpaired (unpaired_emit hloop rfl) hl₃).bind (fun h₄ _ hl₄ => ?_)
        fun _ _ hl' => ⟨_, hl'⟩
      exact (safe_abandonCalls _ _ hl₄).bind (fun _ _ hl₅ => hl₅) fun _ _ hleft => hleft

/-! ## The loop -/

/-- What a part of the loop leaves: no call where it goes on. -/
def Settled (c : RunConfig) (start : List String) (h : History) : Except Raised α → Prop
  | .ok _ => Leaves c start h []
  | .error _ => Left c start h

theorem safe_unpaired_settled {p : Task α} (hp : Unpaired p) (hl : Leaves c start h []) :
    p.Safe (Continues c start) h fun h' r => Settled c start h' r := by
  refine (safe_unpaired hp hl).mono fun h' r hl' => ?_
  cases r with
  | ok value => exact hl'
  | error e => exact ⟨_, hl'⟩

theorem unpaired_afterBatch (st : LoopState) (batch : BatchEnd) : Unpaired (afterBatch st batch) := by
  cases batch with
  | park message => exact uses_pure _
  | done invalid force =>
    simp only [afterBatch]
    split
    · exact uses_throw _
    · exact uses_pure _

theorem unpaired_checkFinal (st : LoopState) (r : ModelResponse) : Unpaired (checkFinal c st r) := by
  unfold checkFinal
  split
  · split
    · exact uses_pure _
    · exact uses_throw _
  · exact uses_pure _

/-- A response and the batch of its calls. -/
theorem safe_handleResponse_leaves (x : ToolExecutor) (st : LoopState) {r : ModelResponse}
    {tools : List Json} (hr : ⟨.complete tools, .ok r⟩ ∈ h) (hl : Leaves c start h []) :
    (handleResponse c x st r).Safe (Continues c start) h fun h' r => Settled c start h' r := by
  unfold handleResponse
  split
  · exact ⟨_, hl⟩
  · rename_i hunique
    have hnodup : (r.toolCalls.map ToolCall.id).Nodup := by
      by_contra hn
      simp [duplicateIds, hn] at hunique
    have hresponds : Responds c h (responseFact c st r) (r.toolCalls.map ToolCall.id) :=
      ⟨st, tools, r, hr, rfl, rfl, hnodup⟩
    refine (safe_emit_leaves hl (.response hl rfl hresponds)).bind (fun h₁ _ hl₁ => ?_)
      fun _ _ hleft => hleft
    dsimp only
    split
    · exact (safe_abandonCalls _ _ hl₁).bind (fun _ _ hl₂ => ⟨_, hl₂⟩) fun _ _ hleft => hleft
    split
    · exact (safe_abandonCalls _ _ hl₁).bind (fun _ _ hl₂ => ⟨_, hl₂⟩) fun _ _ hleft => hleft
    split
    · rename_i hnone
      rw [hnone, List.map_nil] at hl₁
      split
      · exact hl₁
      · exact (safe_unpaired_settled (unpaired_checkFinal st r) hl₁).bind (fun _ _ hl₂ => hl₂)
          fun _ _ hleft => hleft
    · refine (safe_runBatch_leaves x false false hl₁).bind (fun h₂ batch hl₂ => ?_)
        fun _ _ hleft => hleft
      exact safe_unpaired_settled (unpaired_afterBatch _ _) hl₂

theorem safe_runStep_leaves (x : ToolExecutor) (st : LoopState) (hl : Leaves c start h []) :
    (runStep c x st).Safe (Continues c start) h fun h' r => Settled c start h' r := by
  refine (safe_unpaired_settled (uses_call rfl) hl).bind (fun h₁ _ hl₁ => ?_) fun _ _ hleft => hleft
  refine (safe_unpaired_settled (uses_call rfl) hl₁).bind (fun h₂ current hl₂ => ?_)
    fun _ _ hleft => hleft
  dsimp only
  split
  · exact hl₂
  · have hrequest (h : History) (hl : Leaves c start h []) (st : LoopState) :
        (requestModel c st).Safe (Continues c start) h fun h' r =>
          match r with
          | .ok r => Leaves c start h' [] ∧ ∃ tools, ⟨.complete tools, .ok r⟩ ∈ h'
          | .error _ => Left c start h' := by
      refine (safe_unpaired_settled (uses_call rfl) hl).bind (fun h₁ _ hl₁ => ?_)
        fun _ _ hleft => hleft
      refine (safe_unpaired_settled (unpaired_emit (show EventType.modelRequest ∉ _ by decide) rfl)
        hl₁).bind (fun h₂ _ hl₂ => ?_) fun _ _ hleft => hleft
      refine (safe_unpaired_settled (uses_call rfl) hl₂).bind (fun h₃ _ hl₃ => ?_)
        fun _ _ hleft => hleft
      refine safe_call.mpr fun answer => ⟨continues_asked rfl, ?_⟩
      cases answer with
      | ok r => exact ⟨hl₃.asked rfl, _, List.mem_append_right _ List.mem_cons_self⟩
      | error e => exact ⟨_, hl₃.asked rfl⟩
    refine (hrequest h₂ hl₂ _).bind (fun h₃ response hr => ?_) fun _ _ hleft => hleft
    obtain ⟨hl₃, tools, hmem⟩ := hr
    exact safe_handleResponse_leaves x _ hmem hl₃

theorem safe_runSteps_leaves (x : ToolExecutor) (remaining : ℕ) (st : LoopState)
    (hl : Leaves c start h []) :
    (runSteps c x st remaining).Safe (Continues c start) h fun h' r => Settled c start h' r := by
  induction remaining generalizing h st with
  | zero => exact hl
  | succ remaining ih =>
    refine (safe_runStep_leaves x _ hl).bind (fun h' outcome hl' => ?_) fun _ _ hleft => hleft
    cases outcome with
    | again st => exact ih st hl'
    | ended finish => exact hl'

/-! ## The whole run -/

/-- Facts that continue a log by themselves. -/
theorem safe_emitAll_leaves {facts : List Fact} {last : List String}
    (hb : Batches (fun _ _ => False) pending facts last) (hl : Leaves c start h pending) :
    (emitAll facts).Safe (Continues c start) h fun h' r =>
      match r with
      | .ok _ => Leaves c start h' last
      | .error _ => Left c start h' := by
  induction facts generalizing h pending with
  | nil =>
    generalize hnil : ([] : List Fact) = log at hb
    cases hb with
    | nil => exact hl
    | other | said | response | answered => simp at hnil
  | cons fact facts ih =>
    rw [← List.singleton_append] at hb
    obtain ⟨mid, hfirst, hrest⟩ := hb.split
    have hnext := hl.append (hfirst.mono fun _ _ hfalse => hfalse.elim)
    exact (safe_emit_leaves hl hnext).bind (fun h' _ hl' => ih hrest hl') fun _ _ hleft => hleft

theorem safe_prologue_leaves (hopening : Batches (fun _ _ => False) pending c.opening [])
    (hl : Leaves c start h pending) :
    (prologue c).Safe (Continues c start) h fun h' r => Settled c start h' r := by
  have hstarted : (startedFact c).type ∉ pairKinds ++ [.runCompleted, .runInterrupted] :=
    show EventType.runStarted ∉ _ by decide
  refine (safe_unpaired (uses_call rfl) hl).bind (fun h₁ _ hl₁ => ?_) fun _ _ hl' => ⟨_, hl'⟩
  refine (safe_unpaired (unpaired_emit hstarted rfl) hl₁).bind (fun h₂ _ hl₂ => ?_)
    fun _ _ hl' => ⟨_, hl'⟩
  refine (safe_emitAll_leaves hopening hl₂).bind (fun h₃ _ hl₃ => ?_) fun _ _ hleft => hleft
  refine (safe_unpaired_settled unpaired_emitCheckpoint hl₃).bind (fun h₄ _ hl₄ => ?_)
    fun _ _ hleft => hleft
  refine (safe_unpaired_settled (uses_call rfl) hl₄).bind (fun h₅ _ hl₅ => ?_)
    fun _ _ hleft => hleft
  split
  · exact hl₅
  · exact ⟨_, hl₅⟩

/-- The terminal fact may follow what is left. -/
def Ends (c : RunConfig) (start : List String) (h : History) : Except Raised Terminal → Prop
  | .ok terminal => terminal.status ∉ pairKinds ∧ (terminalFact terminal).identified = true ∧
      ∃ pending, Leaves c start h pending ∧ (Fact.Settles (terminalFact terminal) → pending = [])
  | .error _ => Left c start h

theorem safe_conclude_leaves (finish : LoopEnd) (hl : Leaves c start h []) :
    (conclude finish).Safe (Continues c start) h fun h' r => Ends c start h' r := by
  cases finish with
  | parked kind message =>
    refine (safe_unpaired_settled unpaired_parkCheckpoint hl).bind (fun h' _ hl' => ?_)
      fun _ _ hleft => hleft
    exact ⟨show EventType.runInterrupted ∉ _ by decide, rfl, [], hl', fun _ => rfl⟩
  | answered output =>
    refine (safe_unpaired_settled (uses_call rfl) hl).bind (fun h' _ hl' => ?_)
      fun _ _ hleft => hleft
    exact ⟨show EventType.runCompleted ∉ _ by decide, rfl, [], hl', fun _ => rfl⟩

/-- An interruption for another reason settles nothing. -/
theorem not_settles_of_reason {fact : Fact} {reason : String} (hkind : fact.type = .runInterrupted)
    (hreason : fact.payload.get? "reason" = some (.str reason)) (hnot : reason ∉ settledReasons) :
    ¬ fact.Settles := by
  rintro (hc | ⟨-, other, hother, heq⟩)
  · rw [hkind] at hc
    cases hc
  · rw [hreason] at heq
    obtain rfl : reason = other := by simpa using heq
    exact hnot hother

theorem not_settles_of_failed {fact : Fact} (hkind : fact.type = .runFailed) : ¬ fact.Settles := by
  rintro (hc | ⟨hi, -⟩)
  · rw [hkind] at hc
    cases hc
  · rw [hkind] at hi
    cases hi

theorem not_settles_interruptedFact (unknown : Bool) : ¬ Fact.Settles (interruptedFact unknown) := by
  cases unknown with
  | true => exact not_settles_of_reason rfl rfl (by decide)
  | false => exact not_settles_of_reason rfl rfl (by decide)

theorem not_settles_parked (message : String) (kind : ParkKind) (h : kind.text ∉ settledReasons) :
    ¬ Fact.Settles (terminalFact
      { status := .runInterrupted, error := some message, reason := some kind }) :=
  not_settles_of_reason rfl rfl h

/-- The end of a run that was cancelled. -/
theorem safe_interrupt_leaves (hl : Leaves c start h pending) :
    (do
      let unknown : Bool ← Task.call .unknownOutcome
      emit (interruptedFact unknown)
      throw .cancelled : Task Terminal).Safe (Continues c start) h
      fun h' r => Ends c start h' r := by
  have hasked : (Task.call .unknownOutcome).Safe (Continues c start) h
      fun h' _ => Leaves c start h' pending := safe_unpaired (uses_call rfl) hl
  refine hasked.bind (fun h₁ unknown hl₁ => ?_) fun _ _ hl' => ⟨_, hl'⟩
  have hkind : (interruptedFact unknown).type ∉ pairKinds :=
    show EventType.runInterrupted ∉ _ by decide
  refine (safe_emit_leaves hl₁ (.other hl₁ hkind rfl fun hs =>
    absurd hs (not_settles_interruptedFact unknown))).bind (fun _ _ hl₂ => ?_) fun _ _ hleft => hleft
  exact ⟨_, hl₂⟩

theorem safe_recover_leaves (e : Raised) (hl : Leaves c start h pending) :
    (recover c e).Safe (Continues c start) h fun h' r => Ends c start h' r := by
  have hinterrupted : EventType.runInterrupted ∉ pairKinds := by decide
  have hbudget (message : String) : (do
      emitCheckpoint
      pure { status := .runInterrupted, error := some message, reason := some .tokenBudget } :
        Task Terminal).Safe (Continues c start) h fun h' r => Ends c start h' r := by
    refine (safe_unpaired unpaired_emitCheckpoint hl).bind (fun h' _ hl' => ?_)
      fun _ _ hl' => ⟨_, hl'⟩
    exact ⟨hinterrupted, rfl, pending, hl', fun hs =>
      absurd hs (not_settles_parked message .tokenBudget (by decide))⟩
  cases e with
  | unknownOutcome message =>
    exact ⟨hinterrupted, rfl, pending, hl, fun hs =>
      absurd hs (not_settles_parked message .unknownToolOutcome (by decide))⟩
  | tokenBudget message => exact hbudget message
  | budgetExceeded message violations => exact hbudget message
  | cancelled =>
    have hsaved : parkCheckpoint.attempt.Safe (Continues c start) h
        fun h' _ => Leaves c start h' pending :=
      safe_attempt.mpr (safe_unpaired unpaired_parkCheckpoint hl)
    refine hsaved.bind (fun h₁ saved hl₁ => ?_) fun _ _ hl' => ⟨_, hl'⟩
    cases saved with
    | ok => exact safe_interrupt_leaves hl₁
    | error e =>
      cases e with
      | cancelled => exact safe_interrupt_leaves hl₁
      | _ => exact ⟨_, hl₁⟩
  | error type message timeout unknown =>
    exact ⟨show EventType.runFailed ∉ _ by decide, rfl, pending, hl, fun hs =>
      absurd hs (not_settles_of_failed rfl)⟩

theorem safe_execute_leaves (hopening : Batches (fun _ _ => False) pending c.opening [])
    (hl : Leaves c start h pending) :
    (execute c).Safe (Continues c start) h fun h' _ => Left c start h' := by
  have hloop : (loop c).Safe (Continues c start) h fun h' r => Ends c start h' r := by
    refine (safe_prologue_leaves hopening hl).bind (fun h₁ x hl₁ => ?_) fun _ _ hleft => hleft
    refine (safe_runSteps_leaves x _ _ hl₁).bind (fun h₂ finish hl₂ => ?_) fun _ _ hleft => hleft
    exact safe_conclude_leaves finish hl₂
  have hrun : ((loop c).handle (recover c)).attempt.Safe (Continues c start) h fun h' r =>
      match r with
      | .ok outcome => Ends c start h' outcome
      | .error _ => Left c start h' := by
    refine safe_attempt.mpr (safe_handle.mpr (hloop.mono fun h₁ r hr => ?_))
    cases r with
    | ok terminal => exact hr
    | error e =>
      obtain ⟨pending, hl₁⟩ := hr
      exact safe_recover_leaves e hl₁
  refine hrun.bind (fun h₁ outcome hends => ?_) fun _ _ hleft => hleft
  cases outcome with
  | error e =>
    obtain ⟨pending, hl₁⟩ := hends
    exact (safe_unpaired unpaired_closeManager hl₁).bind (fun _ _ hl₂ => ⟨_, hl₂⟩)
      fun _ _ hl' => ⟨_, hl'⟩
  | ok terminal =>
    obtain ⟨hkind, hid, pending, hl₁, hsettles⟩ := hends
    refine (safe_unpaired unpaired_closeManager hl₁).bind (fun h₂ _ hl₂ => ?_)
      fun _ _ hl' => ⟨_, hl'⟩
    refine (safe_emit_leaves hl₂ (.other hl₂ hkind hid hsettles)).mono fun h' r hr => ?_
    cases r with
    | ok value => exact ⟨_, hr⟩
    | error e => exact hr

theorem safe_runTask_leaves (hopening : Batches (fun _ _ => False) pending c.opening [])
    (hl : Leaves c start h pending) :
    (runTask c).Safe (Continues c start) h fun _ _ => True := by
  have hexecute : (execute c).attempt.Safe (Continues c start) h fun h' _ => Left c start h' :=
    safe_attempt.mpr (safe_execute_leaves hopening hl)
  refine hexecute.bind (fun h₁ outcome hleft => ?_) fun _ _ _ => trivial
  cases outcome with
  | ok => trivial
  | error e =>
    obtain ⟨pending, hl₁⟩ := hleft
    have hlive : (Task.call .unfinished).Safe (Continues c start) h₁
        fun h' _ => Leaves c start h' pending := safe_unpaired (uses_call rfl) hl₁
    refine hlive.bind (fun h₂ live hl₂ => ?_) fun _ _ _ => trivial
    have hfinished : (finishedFact c e).type ∉ pairKinds ∧ (finishedFact c e).identified = true ∧
        ¬ Fact.Settles (finishedFact c e) := by
      cases e with
      | cancelled => exact ⟨show EventType.runInterrupted ∉ _ by decide, rfl,
          not_settles_of_reason rfl rfl (by decide)⟩
      | _ => exact ⟨show EventType.runFailed ∉ _ by decide, rfl, not_settles_of_failed rfl⟩
    split
    · refine safe_call.mpr fun answer => ⟨fun pending hl => ?_, trivial⟩
      cases answer with
      | ok u => exact ⟨pending, hl.committed fun _ hb =>
          .other hb hfinished.1 hfinished.2.1 fun hs => absurd hs hfinished.2.2⟩
      | error e => exact ⟨pending, hl.asked rfl⟩
    · trivial

/-- What continues the batches leaves some calls. -/
theorem left_of_continues {start : List String} {asked : History}
    (h : ∀ before exchange after, asked = before ++ exchange :: after →
      Continues c start before exchange) : Left c start asked := by
  induction asked using List.reverseRecOn with
  | nil => exact ⟨start, .nil⟩
  | append_singleton asked exchange ih =>
    obtain ⟨pending, hl⟩ := ih fun before other after heq =>
      h before other (after ++ [exchange]) (by rw [heq]; simp)
    exact h asked exchange [] rfl pending hl

theorem left_of_reaches {start : List String}
    (hopening : Batches (fun _ _ => False) start c.opening []) {asked : History} {p : Task Unit}
    (hr : Reaches (runTask c) asked p) : Left c start asked := by
  have hsafe := safe_runTask_leaves (h := []) hopening (.nil : Leaves c start [] start)
  refine left_of_continues fun before exchange after heq => ?_
  have hcontinues := (hsafe.reaches hr).1 before exchange after heq
  simpa using hcontinues

/-- However far a run gets and whatever its environment does, its log is one of batches: a response
is committed only when all calls before it are answered, the calls of a response are answered in
their order and each once, and a completed run, or one that is parked between two steps, leaves no
call unanswered. -/
theorem toolPairing {start : List String}
    (hopening : Batches (fun _ _ => False) start c.opening []) {asked : History} {p : Task Unit}
    (hr : Reaches (runTask c) asked p) :
    ∃ pending, Batches (Responds c asked) start asked.facts pending :=
  left_of_reaches hopening hr

theorem toolPairing_sample : ∃ pending,
    Batches (Responds gateSample ((runTask gateSample).runWith gateAnswers 40).1) []
      (History.facts ((runTask gateSample).runWith gateAnswers 40).1) pending :=
  toolPairing .nil (reaches_runWith gateAnswers 40 (runTask gateSample))

end AgentLoop

end Eventide
