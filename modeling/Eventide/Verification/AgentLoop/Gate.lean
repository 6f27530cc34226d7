import Eventide.Library.Outcome
import Eventide.Verification.AgentLoop.Footprint

/-! # The execution gate

Whatever the model sends and whatever order the loop takes, a tool is executed only after the
lookup, the validation, the policy and the approval of its call, and with the arguments that
they saw. -/

namespace Eventide

open Interaction Program

namespace AgentLoop

variable (c : RunConfig)

/-! ## The statement -/

/-- An approval of a call, as the log has it: asked for, then granted. -/
structure Approved (approvalId : String) (call : ToolCall) (reason : String) (asked : History) :
    Prop where
  facts : ∃ granted ∈ [approvalAuto approvalId, approvalResolved c approvalId true],
    asked.facts = [approvalRequired c approvalId call reason, granted]
  /-- Outside agent mode it is the handler that granted it, for this very call. -/
  handler : c.mode ≠ .agent → ⟨.approve approvalId call reason, .ok true⟩ ∈ asked

/-- What the policy decided for the arguments, and the approval where it asks. -/
inductive Authorized (call : ToolCall) (arguments : Json) (trusted : Bool) : History → Prop
  | allowed {policy : PolicyResult} (h : policy.decision = .allow) :
      Authorized call arguments trusted
        [⟨.evaluate call.name arguments c.workingRoot trusted, .ok policy⟩]
  | approved {policy : PolicyResult} {now : ℕ} {asked : History} (h : policy.decision = .ask)
      (approval : Approved c (approvalIdentity call.id now) { call with arguments } policy.reason
        asked) :
      Authorized call arguments trusted
        (⟨.evaluate call.name arguments c.workingRoot trusted, .ok policy⟩ ::
          ⟨.clock, .ok now⟩ :: asked)

/-- What is behind the execution of a call with validated arguments. -/
structure Gate (before : History) (call : ToolCall) (arguments : Json) : Prop where
  sent : ∃ tools r, ⟨.complete tools, .ok r⟩ ∈ before ∧ call ∈ r.toolCalls
  handled : c.sources.runHandlers.contains call.name = true
  readonly : c.sources.mode = .plan ∨ c.sources.readonlyProfile = true →
    call.name ∈ planReadonlyTools
  valid : ∃ x contract, c.sources.executor c.schemas = .ok x ∧
    x.contracts.get? call.name = some (.ok contract) ∧
    contract.validate call.arguments = .ok arguments
  /-- The last exchanges before the execution are those of the authorization. The policy is told
  whether the run trusts the tool to be read-only. -/
  authorized : ∃ earlier asked, before = earlier ++ asked ∧
    Authorized c call arguments (decide (call.name ∈ c.sources.readonlyTools)) asked

/-- The gate of every exchange of a run. -/
def Gated (before : History) (exchange : Exchange Ask Ask.Result Raised) : Prop :=
  match exchange.1 with
  | .command callId command cwd => ∃ call arguments, Gate c before call arguments ∧
      call.id = callId ∧ call.name = "bash" ∧ arguments.get? "command" = some command ∧
      cwd = c.workingRoot
  | .handler callId name executed => ∃ call arguments, Gate c before call arguments ∧
      call.id = callId ∧ call.name = name ∧ executed = withCwd name arguments c.workingRoot
  | _ => True

variable {c} {h : History} {α : Type}

theorem safe_quiet {p : Task α} (hp : Quiet p) : p.Safe (Gated c) h fun _ _ => True := by
  refine (hp.safe fun h q answer hq => ?_).mono fun _ _ _ => trivial
  cases q <;> trivial

theorem safe_inert {p : Task α} (hp : Inert p) : p.Safe (Gated c) h fun _ _ => True :=
  safe_quiet hp.quiet

/-! ## What executes no tool -/

theorem quiet_abandonCalls (content reason : String) (calls : List ToolCall) :
    Quiet (abandonCalls content reason calls) := by
  induction calls with
  | nil => exact uses_pure _
  | cons call calls ih => exact Uses.bind (quiet_emit _) fun _ => ih

theorem quiet_emitAll (facts : List Fact) : Quiet (emitAll facts) := by
  induction facts with
  | nil => exact uses_pure _
  | cons fact facts ih => exact Uses.bind (quiet_emit _) fun _ => ih

theorem quiet_settleCancelled (call : ToolCall) (result : Except Raised ToolResult) :
    Quiet (settleCancelled c call result) := by
  cases result with
  | error e => exact uses_throw _
  | ok settled => exact Uses.bind (quiet_emit _) fun _ => uses_throw _

theorem quiet_recordResult (call : ToolCall) (result : ToolResult) :
    Quiet (recordResult c call result) := by
  unfold recordResult
  split
  · exact Uses.bind (quiet_emit _) fun _ => uses_throw _
  · refine Uses.bind (quiet_emit _) fun _ => ?_
    split
    · exact uses_throw _
    · exact Uses.bind (inert_checkpointAfter _).quiet fun _ => (inert_findFailureLoop _ _).quiet

/-! ## One call -/

theorem safe_emit_gated (fact : Fact) :
    (emit fact).Safe (Gated c) h fun h' r =>
      r = .ok () → ∃ sent, h' = h ++ [⟨.commit fact, .ok ()⟩, ⟨.deliver, sent⟩] :=
  safe_emit (fun _ => trivial) (fun _ => trivial) (fun _ => nofun) (fun sent _ => ⟨sent, rfl⟩) nofun

theorem safe_askUser (approvalId : String) (call : ToolCall) (reason : String) :
    (askUser c approvalId call reason).Safe (Gated c) h fun h' r =>
      r = .ok true → h' = h ++ [⟨.approve approvalId call reason, .ok true⟩] := by
  unfold askUser
  split
  · rw [safe_bind, safe_attempt]
    refine safe_call.mpr fun answer => ⟨trivial, ?_⟩
    match answer with
    | .ok approved =>
      intro hr
      rw [Except.ok.inj hr]
    | .error e =>
      dsimp only
      split
      · exact nofun
      · exact nofun
  · exact nofun

/-- The approval that was granted is in the log, in order. -/
theorem safe_approve (approvalId : String) (call : ToolCall) (reason : String) :
    (approve c approvalId call reason).Safe (Gated c) h fun h' r =>
      r = .ok true → ∃ asked, h' = h ++ asked ∧ Approved c approvalId call reason asked := by
  refine (safe_emit_gated _).bind (fun h₁ _ hrequired => ?_) fun _ _ _ => nofun
  obtain ⟨sent, rfl⟩ := hrequired rfl
  split
  case isTrue hauto =>
    refine (safe_emit_gated _).bind (fun h₂ _ hresolved => ?_) fun _ _ _ => nofun
    obtain ⟨sent', rfl⟩ := hresolved rfl
    refine fun _ => ⟨_, List.append_assoc _ _ _, ⟨_, List.mem_cons_self, rfl⟩, fun hmode => ?_⟩
    exact absurd (of_decide_eq_true hauto) hmode
  case isFalse hauto =>
    refine (safe_askUser _ _ _).bind (fun h₂ approved hasked => ?_) fun _ _ _ => nofun
    refine (safe_emit_gated _).bind (fun h₃ _ hresolved => ?_) fun _ _ _ => nofun
    obtain ⟨sent', rfl⟩ := hresolved rfl
    intro hr
    obtain rfl : approved = true := Except.ok.inj hr
    obtain rfl := hasked rfl
    refine ⟨_, (List.append_assoc _ _ _).trans (List.append_assoc _ _ _), ⟨_, by simp, rfl⟩, ?_⟩
    simp

/-- The policy, and the approval where it asks. -/
theorem safe_authorize (x : ToolExecutor) (call : ToolCall) (arguments : Json) :
    (authorize x (some (approve c)) c.workingRoot call arguments).Safe (Gated c) h fun h' r =>
      r = .ok none → ∃ asked, h' = h ++ asked ∧
        Authorized c call arguments (decide (call.name ∈ x.readonlyTools)) asked := by
  unfold authorize
  rw [safe_bind]
  refine safe_call.mpr fun answer => ⟨trivial, ?_⟩
  match answer with
  | .error e => exact nofun
  | .ok policy =>
    dsimp only
    split
    case h_1 hdeny => exact nofun
    case h_2 hallow => exact fun _ => ⟨_, rfl, .allowed hallow⟩
    case h_3 hask =>
      rw [safe_bind]
      refine safe_call.mpr fun answer => ⟨trivial, ?_⟩
      match answer with
      | .error e => exact nofun
      | .ok now =>
        refine (safe_approve _ _ _).bind (fun h' approved happroved => ?_) fun _ _ _ => nofun
        intro hr
        have hyes : approved = true := by
          cases approved
          · cases hr
          · rfl
        obtain ⟨asked, rfl, hasked⟩ := happroved (by rw [hyes])
        exact ⟨_, by simp, .approved hask hasked⟩

theorem get?_withCwd {name : String} {arguments : Json} {key : String} (cwd : String)
    (h : key ≠ "cwd") : (withCwd name arguments cwd).get? key = arguments.get? key := by
  unfold withCwd
  split
  · rw [Json.get?_withField, if_neg h]
  · rfl

theorem ToolExecutor.validated_eq_ok {x : ToolExecutor} {call : ToolCall} {arguments : Json}
    (h : x.validated call = .ok arguments) :
    x.handlers.contains call.name = true ∧ ∃ contract,
      x.contracts.get? call.name = some (.ok contract) ∧
      contract.validate call.arguments = .ok arguments := by
  unfold ToolExecutor.validated at h
  split at h
  case isFalse => cases h
  case isTrue hname =>
    refine ⟨hname, ?_⟩
    split at h
    · cases h
    · cases h
    · rename_i contract hcontract
      refine ⟨contract, hcontract, ?_⟩
      split at h
      · rename_i valid hvalid
        rw [hvalid, Except.ok.inj h]
      · cases h

theorem executor_eq_ok {s : ToolSources} {schemas : Schemas} {x : ToolExecutor}
    (h : s.executor schemas = .ok x) :
    x.handlers = s.runHandlers ∧ x.readonlyTools = s.readonlyTools := by
  obtain ⟨contracts, -, hx⟩ := Outcome.bind_eq_ok.mp h
  cases hx
  exact ⟨rfl, rfl⟩

theorem mem_of_named {names : List String} {tools : List Json} {name : String}
    (hall : ∀ tool ∈ tools, named names tool = true) (h : name ∈ tools.filterMap toolName) :
    name ∈ names := by
  obtain ⟨tool, htool, hname⟩ := List.mem_filterMap.mp h
  have hin := hall tool htool
  rw [named, hname] at hin
  exact of_decide_eq_true hin

theorem named_of_plan {s : ToolSources} (hplan : s.runMode = .plan) {tool : Json}
    (h : tool ∈ s.table.1) : named planReadonlyTools tool = true := by
  have hsub : ∀ name ∈ ToolSources.readonlyNames, name ∈ planReadonlyTools := by decide
  unfold ToolSources.table at h
  split at h
  case isTrue =>
    obtain ⟨name, hname, hin⟩ := (Option.any_eq_true _ _).mp (List.mem_filter.mp h).2
    exact (Option.any_eq_true _ _).mpr ⟨name, hname, by simpa using hsub name (by simpa using hin)⟩
  case isFalse hprofile =>
    have hmode : s.mode = .plan := by simpa [ToolSources.runMode, hprofile] using hplan
    have hfilter {tools : List Json} (ht : tool ∈ filterToolCatalog tools s.mode) :
        named planReadonlyTools tool = true := by
      rw [filterToolCatalog, if_pos hmode] at ht
      exact (List.mem_filter.mp ht).2
    split at h
    · exact hfilter h
    · exact hfilter h

/-- The tables of a run in plan mode hold only the tools that plan mode allows. -/
theorem mem_planReadonlyTools {s : ToolSources} {name : String}
    (hmode : s.mode = .plan ∨ s.readonlyProfile = true)
    (hname : s.runHandlers.contains name = true) : name ∈ planReadonlyTools := by
  have hplan : s.runMode = .plan := by
    unfold ToolSources.runMode
    split
    · rfl
    · exact hmode.resolve_right (by assumption)
  rw [ToolSources.runHandlers, if_pos hplan] at hname
  have hvisible : name ∈ s.table.1.filterMap toolName := by
    obtain ⟨p, hp, rfl⟩ := List.mem_map.mp (Dict.mem_of_contains_ofList hname)
    simpa using (List.mem_filter.mp hp).2
  exact mem_of_named (fun tool => named_of_plan hplan) hvisible

/-- The tool is run behind the gate. -/
theorem safe_runTool {call : ToolCall} {arguments : Json} (hgate : Gate c h call arguments) :
    (runTool call arguments c.workingRoot).Safe (Gated c) h fun _ _ => True := by
  unfold runTool
  refine Safe.seq (safe_attempt.mpr ?_) fun h' outcome _ => ?_
  · unfold dispatchCall
    split
    case isTrue hbash =>
      split
      · rename_i command hcommand
        rw [get?_withCwd _ (by decide)] at hcommand
        exact safe_call.mpr fun _ => ⟨⟨call, arguments, hgate, rfl, hbash, hcommand, rfl⟩, trivial⟩
      · trivial
    case isFalse =>
      exact safe_call.mpr fun _ => ⟨⟨call, arguments, hgate, rfl, rfl, rfl⟩, trivial⟩
  · cases outcome with
    | ok output => trivial
    | error e => cases e <;> trivial

/-- What the batches of a response have to know. -/
structure Offered (c : RunConfig) (h : History) (x : ToolExecutor) (call : ToolCall) : Prop where
  executor : c.sources.executor c.schemas = .ok x
  sent : ∃ tools r, ⟨.complete tools, .ok r⟩ ∈ h ∧ call ∈ r.toolCalls

theorem Offered.grows {h' : History} {x : ToolExecutor} {call : ToolCall} (ho : Offered c h x call)
    (hh : h <+: h') : Offered c h' x call := by
  obtain ⟨tools, r, hr, hcall⟩ := ho.sent
  exact ⟨ho.executor, tools, r, hh.subset hr, hcall⟩

theorem safe_toolExecute {x : ToolExecutor} {call : ToolCall} (ho : Offered c h x call) :
    (x.execute (some (approve c)) c.workingRoot call).Safe (Gated c) h fun _ _ => True := by
  unfold ToolExecutor.execute
  split
  · trivial
  · rename_i arguments hvalid
    refine (safe_authorize x call arguments).grows.bind (fun h' refused hr => ?_)
      fun _ _ _ => trivial
    cases refused with
    | some result => trivial
    | none =>
      obtain ⟨hgrows, hauthorized⟩ := hr
      obtain ⟨asked, rfl, hasked⟩ := hauthorized rfl
      obtain ⟨hname, contract, hcontract, harguments⟩ := ToolExecutor.validated_eq_ok hvalid
      obtain ⟨hhandlers, hreadonly⟩ := executor_eq_ok ho.executor
      rw [hreadonly] at hasked
      have hhandled : c.sources.runHandlers.contains call.name = true := hhandlers ▸ hname
      exact safe_runTool {
        sent := (ho.grows hgrows).sent
        handled := hhandled
        readonly := fun hmode => mem_planReadonlyTools hmode hhandled
        valid := ⟨x, contract, ho.executor, hcontract, harguments⟩
        authorized := ⟨h, asked, rfl, hasked⟩ }

theorem safe_executeCall {x : ToolExecutor} {call : ToolCall} (ho : Offered c h x call) :
    (executeCall c x call).Safe (Gated c) h fun _ _ => True := by
  refine Safe.seq (safe_attempt.mpr (safe_toolExecute ho)) fun h₁ result _ => ?_
  refine Safe.seq (safe_quiet (uses_call rfl)) fun h₂ stopped _ => ?_
  split
  · exact (safe_quiet (quiet_settleCancelled call result))
  · cases result <;> trivial

/-! ## The loop -/

/-- Every call of a batch passes the gate; the induction is over the calls that remain. -/
theorem safe_runBatch {x : ToolExecutor} {calls : List ToolCall} (invalid force : Bool)
    (ho : ∀ call ∈ calls, Offered c h x call) :
    (runBatch c x invalid force calls).Safe (Gated c) h fun _ _ => True := by
  induction calls generalizing h invalid force with
  | nil => trivial
  | cons call calls ih =>
    obtain ⟨hcall, hcalls⟩ := List.forall_mem_cons.mp ho
    refine Safe.seq (safe_quiet (quiet_emit _)) fun h₁ _ hg₁ => ?_
    refine Safe.seq (safe_executeCall (hcall.grows hg₁)) fun h₂ result hg₂ => ?_
    refine Safe.seq (safe_quiet (quiet_recordResult _ _)) fun h₃ candidate hg₃ => ?_
    cases candidate with
    | some candidate =>
      exact safe_quiet (Uses.bind (quiet_emit _) fun _ =>
        Uses.bind (quiet_abandonCalls _ _ _) fun _ => uses_pure _)
    | none =>
      exact ih _ _ fun call hin => (hcalls call hin).grows (hg₁.trans (hg₂.trans hg₃))

theorem safe_handleResponse {x : ToolExecutor} {r : ModelResponse} {tools : List Json}
    (st : LoopState) (hx : c.sources.executor c.schemas = .ok x) (hr : ⟨.complete tools, .ok r⟩ ∈ h) :
    (handleResponse c x st r).Safe (Gated c) h fun _ _ => True := by
  unfold handleResponse
  split
  · trivial
  · refine Safe.seq (safe_quiet (quiet_emit _)) fun h₁ _ hg => ?_
    dsimp only
    split
    · exact safe_quiet (Uses.bind (quiet_abandonCalls _ _ _) fun _ => uses_throw _)
    split
    · exact safe_quiet (Uses.bind (quiet_abandonCalls _ _ _) fun _ => uses_throw _)
    split
    · split
      · trivial
      · exact safe_quiet (Uses.bind (inert_checkFinal _ _).quiet fun _ => uses_pure _)
    · refine Safe.seq (safe_runBatch _ _ fun call hcall => ?_) fun h₂ batch _ =>
        safe_inert (inert_afterBatch _ _)
      exact { executor := hx, sent := ⟨tools, r, hg.subset hr, hcall⟩ }

/-- The response that a step handles is in the history. -/
theorem safe_requestModel (st : LoopState) :
    (requestModel c st).Safe (Gated c) h fun h' r =>
      ∀ response, r = .ok response → ∃ tools, ⟨.complete tools, .ok response⟩ ∈ h' := by
  refine (safe_quiet (uses_call rfl)).bind (fun h₁ messages _ => ?_) fun _ _ _ => nofun
  refine (safe_quiet (quiet_emit _)).bind (fun h₂ _ _ => ?_) fun _ _ _ => nofun
  refine (safe_quiet (uses_call rfl)).bind (fun h₃ _ _ => ?_) fun _ _ _ => nofun
  refine safe_call.mpr fun answer => ⟨trivial, fun response hr => ⟨requestTools c st, ?_⟩⟩
  rw [hr]
  exact List.mem_append_right _ List.mem_cons_self

theorem safe_runStep {x : ToolExecutor} (st : LoopState)
    (hx : c.sources.executor c.schemas = .ok x) :
    (runStep c x st).Safe (Gated c) h fun _ _ => True := by
  refine Safe.seq (safe_quiet (uses_call rfl)) fun h₁ _ _ => ?_
  refine Safe.seq (safe_quiet (uses_call rfl)) fun h₂ current _ => ?_
  dsimp only
  split
  · trivial
  · refine (safe_requestModel _).bind (fun h₃ response hr => ?_) fun _ _ _ => trivial
    obtain ⟨tools, hin⟩ := hr response rfl
    exact safe_handleResponse _ hx hin

theorem safe_runSteps {x : ToolExecutor} (hx : c.sources.executor c.schemas = .ok x)
    (remaining : ℕ) (st : LoopState) :
    (runSteps c x st remaining).Safe (Gated c) h fun _ _ => True := by
  induction remaining generalizing h st with
  | zero => trivial
  | succ remaining ih =>
    refine Safe.seq (safe_runStep _ hx) fun h' outcome _ => ?_
    cases outcome with
    | again st => exact ih st
    | ended finish => trivial

/-- The executor of a run is the one of its tables. -/
theorem safe_prologue : (prologue c).Safe (Gated c) h fun _ r =>
    ∀ x, r = .ok x → c.sources.executor c.schemas = .ok x := by
  refine (safe_quiet (uses_call rfl)).bind (fun h₁ _ _ => ?_) fun _ _ _ => nofun
  refine (safe_quiet (quiet_emit _)).bind (fun h₂ _ _ => ?_) fun _ _ _ => nofun
  refine (safe_quiet (quiet_emitAll _)).bind (fun h₃ _ _ => ?_) fun _ _ _ => nofun
  refine (safe_inert inert_emitCheckpoint).bind (fun h₄ _ _ => ?_) fun _ _ _ => nofun
  refine (safe_quiet (uses_call rfl)).bind (fun h₅ _ _ => ?_) fun _ _ _ => nofun
  split
  · rename_i x hx
    intro y hy
    rw [hx, Except.ok.inj hy]
  · exact nofun

theorem safe_loop : (loop c).Safe (Gated c) h fun _ _ => True := by
  refine safe_prologue.bind (fun h₁ x hx => ?_) fun _ _ _ => trivial
  refine Safe.seq (safe_runSteps (hx x rfl) _ _) fun h₂ finish _ => ?_
  exact safe_inert (inert_conclude finish)

theorem safe_execute : (execute c).Safe (Gated c) h fun _ _ => True := by
  refine Safe.seq (safe_attempt.mpr (safe_handle.mpr (safe_loop.mono fun h₁ r _ => ?_)))
    fun h₂ outcome _ => ?_
  · cases r with
    | ok terminal => trivial
    | error e => exact safe_inert (inert_recover e)
  · refine Safe.seq (safe_inert inert_closeManager) fun h₃ _ _ => ?_
    cases outcome with
    | ok terminal => exact (safe_quiet (quiet_emit _))
    | error e => trivial

theorem safe_runTask : (runTask c).Safe (Gated c) h fun _ _ => True := by
  refine Safe.seq (safe_attempt.mpr safe_execute) fun h₁ outcome _ => ?_
  cases outcome with
  | ok _ => trivial
  | error e =>
    refine Safe.seq (safe_quiet (uses_call rfl)) fun h₂ live _ => safe_quiet ?_
    split
    · exact uses_call rfl
    · exact uses_pure _

/-- In every history of a run, whatever the environment answers, a tool is executed only
behind the gate. -/
theorem execution_gate (c : RunConfig) {before after : History}
    {exchange : Exchange Ask Ask.Result Raised} {p : Task Unit}
    (hr : Reaches (runTask c) (before ++ exchange :: after) p) : Gated c before exchange :=
  Safe.always safe_runTask hr

/-- A run in agent mode whose policy asks about the one tool that the model calls. -/
def gateSample : RunConfig where
  sources := {
    mode := .agent, tools := [.obj [("name", .str "read_file")]]
    handlers := Dict.ofList [("read_file", ⟨"read_file", false⟩)]
    builtinTools := [], builtinHandlers := Dict.empty
    readToolResult := (.obj [("name", .str "read_tool_result")], ⟨"read_tool_result", false⟩)
    todoWrite := (.obj [("name", .str "todo_write")], ⟨"todo_write", false⟩)
    skills := false, skillTools := [], skillHandlers := [], ragTools := [], ragHandlers := []
    mcpTools := [], mcpHandlers := [], mcpReadonly := [], workerTools := []
    delegateReadonly := ⟨"delegate_readonly", true⟩, sandboxHandlers := [] }
  schemas := { builtin := fun _ => none, compile := fun name _ => .ok ⟨name, .ok⟩ }
  clean := id
  semantic := id
  cleanText := id
  digest := fun _ => ""
  workingRoot := "/work"
  started := .obj []
  opening := []
  unknownScope := .obj []
  approvalHandler := false
  maxSteps := 2
  parseJson := fun _ => none

/-- An environment in which every question has its plainest answer. -/
def gateAnswers : (q : Ask) → Except Raised q.Result
  | .commit _ | .deliver | .setUp | .closeManager | .tokenBudget => .ok ()
  | .clock => .ok 5
  | .evaluate _ _ _ _ => .ok ⟨.ask, "risky"⟩
  | .approve _ _ _ | .interrupted | .unknownOutcome | .unfinished => .ok false
  | .command _ _ _ | .handler _ _ _ => .ok (.text "done")
  | .checkpoint | .context _ => .ok .null
  | .failureLoop | .plan | .lastEvent => .ok none
  | .complete _ => .ok {
      toolCalls := [⟨"call_1", "read_file", .obj [("path", .str "a.py")]⟩]
      stopReason := "tool_use" }

theorem execution_gate_sample :
    ∃ q, ((runTask gateSample).runWith gateAnswers 24).2.question? = some q ∧
      q.executes = true ∧
      Gated gateSample ((runTask gateSample).runWith gateAnswers 24).1 ⟨q, gateAnswers q⟩ := by
  have hnext : (((runTask gateSample).runWith gateAnswers 24).2.question?.map Ask.executes) =
      some true := by decide +kernel
  obtain ⟨q, hq, hexecutes⟩ := Option.map_eq_some_iff.mp hnext
  obtain ⟨rest, hr⟩ := reaches_question hq
  exact ⟨q, hq, hexecutes, execution_gate gateSample hr⟩

end AgentLoop

end Eventide
