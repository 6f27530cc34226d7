import Eventide.Model.Recovery
import Eventide.Verification.AgentLoop.Footprint

/-! # The pace of a run

The outcomes of a run come one by one: each follows the preparation of its call, with no other call
between them, and the first of them follows a checkpoint. -/

namespace Eventide

open Interaction Program
open Recovery (callId)

/-! ## Facts in turn -/

def toolKinds : List EventType := [.toolPrepared, .toolCompleted, .toolOutcomeUnknown]

def outcomeKinds : List EventType := [.toolCompleted, .toolOutcomeUnknown]

/-- The last fact of a call. -/
def lastTool (facts : List Fact) : Option Fact :=
  (facts.filter fun fact => fact.type ∈ toolKinds).getLast?

/-- A preparation that is not followed by its outcome. -/
def Prepared (facts : List Fact) (id : Json) : Prop :=
  ∃ p, lastTool facts = some p ∧ p.type = .toolPrepared ∧ callId p = id

/-- No call waits for its outcome. -/
def Idle (facts : List Fact) : Prop :=
  ∀ last, lastTool facts = some last → last.type ≠ .toolPrepared

/-- A list of facts in which calls are prepared and settled in turn. -/
inductive InTurn : List Fact → Prop
  | nil : InTurn []
  | other {facts : List Fact} {fact : Fact} (h : InTurn facts) (hkind : fact.type ∉ toolKinds) :
      InTurn (facts ++ [fact])
  | prepared {facts : List Fact} {fact : Fact} (h : InTurn facts) (hkind : fact.type = .toolPrepared)
      (hidle : Idle facts) : InTurn (facts ++ [fact])
  | outcome {facts : List Fact} {fact : Fact} (h : InTurn facts) (hkind : fact.type ∈ outcomeKinds)
      (hprepared : Prepared facts (callId fact)) : InTurn (facts ++ [fact])

/-- A checkpoint is on record. -/
def Checked (facts : List Fact) : Prop := ∃ fact ∈ facts, fact.type = .workspaceCheckpoint

/-- A list of facts in which a checkpoint comes before every fact of a call. -/
def Timely (facts : List Fact) : Prop :=
  ∀ before fact after, facts = before ++ fact :: after → fact.type ∈ toolKinds → Checked before

theorem Checked.append {facts : List Fact} (h : Checked facts) (more : List Fact) :
    Checked (facts ++ more) := by
  obtain ⟨fact, hfact, hkind⟩ := h
  exact ⟨fact, List.mem_append_left _ hfact, hkind⟩

theorem Timely.concat {facts : List Fact} {fact : Fact} (h : Timely facts)
    (hfact : fact.type ∈ toolKinds → Checked facts) : Timely (facts ++ [fact]) := by
  intro before other after heq hkind
  rcases List.eq_nil_or_concat after with rfl | ⟨after, last, rfl⟩
  · obtain ⟨rfl, hlast⟩ := List.append_inj' heq rfl
    obtain rfl := (List.cons.inj hlast).1
    exact hfact hkind
  · rw [List.concat_eq_append, ← List.cons_append, ← List.append_assoc] at heq
    exact h before other after (List.append_inj' heq rfl).1 hkind

theorem InTurn.concat {facts : List Fact} {fact : Fact} (h : InTurn facts)
    (hprepared : fact.type = .toolPrepared → Idle facts)
    (houtcome : fact.type ∈ outcomeKinds → Prepared facts (callId fact)) :
    InTurn (facts ++ [fact]) := by
  by_cases hkind : fact.type ∈ toolKinds
  · rcases List.mem_cons.mp hkind with hp | ho
    · exact .prepared h hp (hprepared hp)
    · exact .outcome h ho (houtcome ho)
  · exact .other h hkind

theorem lastTool_other {facts : List Fact} {fact : Fact} (h : fact.type ∉ toolKinds) :
    lastTool (facts ++ [fact]) = lastTool facts := by
  simp [lastTool, List.filter_append, h]

theorem lastTool_tool {facts : List Fact} {fact : Fact} (h : fact.type ∈ toolKinds) :
    lastTool (facts ++ [fact]) = some fact := by
  simp [lastTool, List.filter_append, h]

theorem lastTool_append {facts more : List Fact} (h : ∀ fact ∈ more, fact.type ∉ toolKinds) :
    lastTool (facts ++ more) = lastTool facts := by
  have hnone : more.filter (fun fact => fact.type ∈ toolKinds) = [] := by
    apply List.filter_eq_nil_iff.mpr
    intro fact hfact
    simpa using h fact hfact
  rw [lastTool, List.filter_append, hnone, List.append_nil, lastTool]

/-! ## What a run may commit -/

/-- A fact may be committed next. -/
structure MayCommit (facts : List Fact) (fact : Fact) : Prop where
  prepared : fact.type = .toolPrepared → Idle facts
  outcome : fact.type ∈ outcomeKinds → Prepared facts (callId fact)
  timely : fact.type ∈ toolKinds → Checked facts

/-- What is asked keeps the pace. -/
def Paced (before : History) (exchange : Exchange Ask Ask.Result Raised) : Prop :=
  match exchange.1 with
  | .commit fact => MayCommit before.facts fact
  | _ => True

/-- The questions that commit no fact of a call. -/
def Ask.aside : Ask → Bool
  | .commit fact => fact.type ∉ toolKinds
  | _ => true

abbrev Aside {α : Type} (p : Task α) : Prop := p.Uses fun q => q.aside = true

theorem ofBatch_of_mem {kind : EventType} (h : kind ∈ toolKinds) : kind.ofBatch = true := by
  simp only [toolKinds, List.mem_cons, List.not_mem_nil, or_false] at h
  rcases h with rfl | rfl | rfl <;> rfl

theorem Inert.aside {α : Type} {p : Task α} (hp : Inert p) : Aside p := by
  refine hp.mono fun q hq => ?_
  cases q with
  | commit fact =>
    refine decide_eq_true fun hkind => ?_
    simp only [Ask.inert, ofBatch_of_mem hkind, Bool.not_true] at hq
    cases hq
  | _ => rfl

theorem aside_emit {fact : Fact} (h : fact.type ∉ toolKinds) : Aside (emit fact) := by
  have hcommit : Ask.aside (.commit fact) = true := decide_eq_true h
  refine Uses.bind (uses_call hcommit) fun _ =>
    Uses.bind (Uses.attempt (uses_call rfl)) fun sent => ?_
  match sent with
  | .ok _ => exact uses_pure _
  | .error e => cases e <;> trivial

theorem History.facts_append (h h' : History) : History.facts (h ++ h') = h.facts ++ h'.facts :=
  List.filterMap_append

/-- What an aside leaves as it was. -/
structure Beside (h h' : History) : Prop where
  last : lastTool h'.facts = lastTool h.facts
  checked : Checked h.facts → Checked h'.facts

theorem safe_aside {α : Type} {p : Task α} {h : History} (hp : Aside p) :
    p.Safe Paced h fun h' _ => Beside h h' := by
  refine (hp.safe fun h q answer hq => ?_).mono fun h' r hr => ?_
  · cases q with
    | commit fact =>
      have hkind : fact.type ∉ toolKinds := of_decide_eq_true hq
      refine ⟨fun heq => ?_, fun hmem => ?_, fun hmem => absurd hmem hkind⟩
      · rw [heq] at hkind
        exact absurd (by decide) hkind
      · exact absurd (List.mem_cons_of_mem _ hmem) hkind
    | _ => trivial
  · obtain ⟨asked, rfl, hasked⟩ := hr
    constructor
    · rw [History.facts_append]
      apply lastTool_append
      intro fact hfact
      obtain ⟨exchange, hexchange, hsome⟩ := List.mem_filterMap.mp hfact
      have haside := hasked exchange hexchange
      obtain ⟨q, answer⟩ := exchange
      cases q with
      | commit committed =>
        cases answer with
        | ok value =>
          obtain rfl : committed = fact := Option.some.inj hsome
          exact of_decide_eq_true haside
        | error e => cases hsome
      | _ => cases hsome
    · intro hchecked
      rw [History.facts_append]
      exact hchecked.append _

theorem Beside.idle {h h' : History} (hb : Beside h h') (hi : Idle h.facts) : Idle h'.facts := by
  intro last hlast
  exact hi last (hb.last ▸ hlast)

theorem Beside.prepared {h h' : History} (hb : Beside h h') {id : Json}
    (hp : Prepared h.facts id) : Prepared h'.facts id := by
  obtain ⟨p, hlast, hkind⟩ := hp
  exact ⟨p, hb.last.trans hlast, hkind⟩

/-- An emitted fact is committed where nothing is raised. -/
theorem safe_emit_paced {h : History} {fact : Fact} (hmay : MayCommit h.facts fact) :
    (emit fact).Safe Paced h fun h' r => r = .ok () →
      ∃ sent, h' = h ++ [⟨.commit fact, .ok ()⟩, ⟨.deliver, sent⟩] :=
  safe_emit (fun _ => hmay) (fun _ => trivial) (fun _ => nofun) (fun sent _ => ⟨sent, rfl⟩) nofun

theorem facts_emitted (h : History) (fact : Fact) (sent : Except Raised Unit) :
    History.facts (h ++ [⟨.commit fact, .ok ()⟩, ⟨.deliver, sent⟩]) = h.facts ++ [fact] :=
  History.facts_append _ _

/-! ## The loop -/

namespace AgentLoop

variable {c : RunConfig} {h : History}

/-- What the Host opens a run with, and what it names in an unknown outcome. -/
structure HostConfig (c : RunConfig) : Prop where
  opening : ∀ fact ∈ c.opening, fact.type ∈ [.toolAbandoned, .approvalResolved, .messageUser]
  scope : ∀ field ∈ c.unknownScope.fields,
    field.1 ∈ ["workspace_id", "sandbox_id", "snapshot_id"]

theorem HostConfig.opening_aside (hc : HostConfig c) : ∀ fact ∈ c.opening,
    fact.type ∉ toolKinds := by
  have hkinds : ∀ kind ∈ [EventType.toolAbandoned, .approvalResolved, .messageUser],
      kind ∉ toolKinds := by decide
  exact fun fact hfact => hkinds _ (hc.opening fact hfact)

theorem HostConfig.callId_unknown (hc : HostConfig c) (call : ToolCall) (content : String) :
    callId (unknownFact c call content) = .str call.id := by
  have hscope : c.unknownScope.fields.lookup "call_id" = none := by
    apply List.lookup_eq_none_iff.mpr
    intro field hfield
    have hkey := hc.scope field hfield
    by_contra hne
    have heq : "call_id" = field.1 := by simpa using hne
    rw [← heq] at hkey
    exact absurd hkey (by decide)
  simp [callId, unknownFact, Json.merge, List.lookup_append, hscope, List.lookup_cons]

/-- Between two calls: a checkpoint is on record, and no call waits for its outcome. -/
structure Between (h : History) : Prop where
  checked : Checked h.facts
  idle : Idle h.facts

/-- A call waits for its outcome. -/
structure Waiting (id : Json) (h : History) : Prop where
  checked : Checked h.facts
  prepared : Prepared h.facts id

theorem Between.beside {h' : History} (hb : Between h) (hbeside : Beside h h') : Between h' :=
  ⟨hbeside.checked hb.checked, hbeside.idle hb.idle⟩

theorem Waiting.beside {id : Json} {h' : History} (hw : Waiting id h) (hbeside : Beside h h') :
    Waiting id h' :=
  ⟨hbeside.checked hw.checked, hbeside.prepared hw.prepared⟩

/-- The preparation of a call. -/
theorem safe_prepare (hb : Between h) (call : ToolCall) :
    (emit (preparedFact c call)).Safe Paced h fun h' r => r = .ok () →
      Waiting (.str call.id) h' := by
  refine (safe_emit_paced ⟨fun _ => hb.idle, fun hkind => ?_, fun _ => hb.checked⟩).mono fun h' r hr hok => ?_
  · exact absurd hkind (show EventType.toolPrepared ∉ outcomeKinds by decide)
  · obtain ⟨sent, rfl⟩ := hr hok
    refine ⟨?_, ?_⟩
    · rw [facts_emitted]
      exact hb.checked.append _
    · rw [facts_emitted]
      have hkind : (preparedFact c call).type ∈ toolKinds := List.mem_cons_self
      exact ⟨_, lastTool_tool hkind, rfl, rfl⟩

/-- The outcome of a call. -/
theorem safe_settle {fact : Fact} (hw : Waiting (callId fact) h) (hkind : fact.type ∈ outcomeKinds) :
    (emit fact).Safe Paced h fun h' r => r = .ok () → Between h' := by
  have hne : fact.type ≠ .toolPrepared := by
    intro heq
    rw [heq] at hkind
    exact absurd hkind (by decide)
  refine (safe_emit_paced ⟨fun heq => absurd heq hne, fun _ => hw.prepared, fun _ => hw.checked⟩).mono
    fun h' r hr hok => ?_
  obtain ⟨sent, rfl⟩ := hr hok
  refine ⟨?_, ?_⟩
  · rw [facts_emitted]
    exact hw.checked.append _
  · rw [facts_emitted]
    intro last hlast
    rw [lastTool_tool (List.mem_cons_of_mem _ hkind)] at hlast
    exact Option.some.inj hlast ▸ hne

theorem aside_abandonCalls (content reason : String) (calls : List ToolCall) :
    Aside (abandonCalls content reason calls) := by
  induction calls with
  | nil => exact uses_pure _
  | cons call calls ih =>
    exact Uses.bind (aside_emit (show EventType.toolAbandoned ∉ toolKinds by decide)) fun _ => ih

theorem aside_emitAll {facts : List Fact} (hkinds : ∀ fact ∈ facts, fact.type ∉ toolKinds) :
    Aside (emitAll facts) := by
  induction facts with
  | nil => exact uses_pure _
  | cons fact facts ih =>
    obtain ⟨hfact, hfacts⟩ := List.forall_mem_cons.mp hkinds
    exact Uses.bind (aside_emit hfact) fun _ => ih hfacts

theorem aside_authorize (x : ToolExecutor) (call : ToolCall) (arguments : Json) :
    Aside (authorize x (some (approve c)) c.workingRoot call arguments) := by
  refine Uses.bind (uses_call rfl) fun policy => ?_
  split
  · exact uses_pure _
  · exact uses_pure _
  · exact Uses.bind (uses_call rfl) fun _ =>
      Uses.bind (inert_approve _ _ _).aside fun _ => uses_pure _

theorem aside_runTool (call : ToolCall) (arguments : Json) :
    Aside (runTool call arguments c.workingRoot) := by
  refine Uses.bind (Uses.attempt ?_) fun outcome => ?_
  · unfold dispatchCall
    split
    · split
      · exact uses_call rfl
      · exact uses_throw _
    · exact uses_call rfl
  · cases outcome with
    | ok output => exact uses_pure _
    | error e => cases e <;> trivial

/-- A tool writes no fact of a call. -/
theorem aside_toolExecute (x : ToolExecutor) (call : ToolCall) :
    Aside (x.execute (some (approve c)) c.workingRoot call) := by
  unfold ToolExecutor.execute
  split
  · exact uses_pure _
  · refine Uses.bind (aside_authorize x call _) fun refused => ?_
    split
    · exact uses_pure _
    · exact aside_runTool call _

theorem safe_unknown (hc : HostConfig c) {call : ToolCall} (content : String)
    (hw : Waiting (.str call.id) h) :
    (emit (unknownFact c call content)).Safe Paced h fun h' r => r = .ok () → Between h' := by
  have hkind : (unknownFact c call content).type ∈ outcomeKinds :=
    List.mem_cons_of_mem _ List.mem_cons_self
  refine safe_settle ?_ hkind
  rw [hc.callId_unknown]
  exact hw

theorem safe_completed {call : ToolCall} (result : ToolResult) (hw : Waiting (.str call.id) h) :
    (emit (completedFact c call result)).Safe Paced h fun h' r => r = .ok () → Between h' :=
  have hkind : (completedFact c call result).type ∈ outcomeKinds := List.mem_cons_self
  have hwait : Waiting (callId (completedFact c call result)) h := hw
  safe_settle hwait hkind

theorem safe_settleCancelled (hc : HostConfig c) {call : ToolCall} (hw : Waiting (.str call.id) h)
    (result : Except Raised ToolResult) :
    (settleCancelled c call result).Safe Paced h fun _ r => ∀ value, r ≠ .ok value := by
  cases result with
  | error e => exact fun _ => nofun
  | ok settled =>
    simp only [settleCancelled]
    split
    · refine (safe_unknown hc settled.content hw).bind (fun _ _ _ => ?_) fun _ _ _ => ?_
      · exact fun _ => nofun
      · exact fun _ => nofun
    · refine (safe_completed settled hw).bind (fun _ _ _ => ?_) fun _ _ _ => ?_
      · exact fun _ => nofun
      · exact fun _ => nofun

theorem safe_executeCall_paced (hc : HostConfig c) {call : ToolCall} (x : ToolExecutor)
    (hw : Waiting (.str call.id) h) :
    (executeCall c x call).Safe Paced h fun h' r => ∀ value, r = .ok value →
      Waiting (.str call.id) h' := by
  have hexecute : (x.execute (some (approve c)) c.workingRoot call).attempt.Safe Paced h
      fun h' _ => Waiting (.str call.id) h' :=
    safe_attempt.mpr ((safe_aside (aside_toolExecute x call)).mono fun h' r hb => hw.beside hb)
  refine hexecute.bind (fun h₁ result hw₁ => ?_) ?_
  · refine (safe_aside (uses_call rfl)).bind (fun h₂ stopped hb => ?_) fun _ _ _ => fun _ => nofun
    have hw₂ := hw₁.beside hb
    split
    · exact (safe_settleCancelled hc hw₂ result).mono fun _ r hr value hok => absurd hok (hr value)
    · cases result with
      | ok value => exact fun _ _ => hw₂
      | error e => exact fun _ => nofun
  · exact fun _ _ _ _ => nofun

theorem safe_recordResult (hc : HostConfig c) {call : ToolCall} (result : ToolResult)
    (hw : Waiting (.str call.id) h) :
    (recordResult c call result).Safe Paced h fun h' r => ∀ value, r = .ok value → Between h' := by
  unfold recordResult
  split
  · exact (safe_unknown hc result.content hw).bind
      (fun _ _ _ => safe_throw.mpr fun _ => nofun) fun _ _ _ _ => nofun
  · refine (safe_completed result hw).bind (fun h₁ _ hb => ?_) fun _ _ _ _ => nofun
    split
    · exact fun _ => nofun
    · have haside : Aside (do
          checkpointAfter c call
          findFailureLoop (readonlyCall c call) (failureFingerprint c call result)) :=
        Uses.bind (inert_checkpointAfter _).aside fun _ => (inert_findFailureLoop _ _).aside
      exact (safe_aside haside).mono fun h' r hbeside _ _ => (hb rfl).beside hbeside

/-- The calls of a batch are prepared and settled in turn; the induction is over those that
remain. -/
theorem safe_runBatch_paced (hc : HostConfig c) (x : ToolExecutor) {calls : List ToolCall} (invalid force : Bool)
    (hb : Between h) :
    (runBatch c x invalid force calls).Safe Paced h fun h' r => ∀ value, r = .ok value →
      Between h' := by
  induction calls generalizing h invalid force with
  | nil => exact fun _ _ => hb
  | cons call calls ih =>
    refine (safe_prepare hb call).bind (fun h₁ _ hw => ?_) fun _ _ _ => fun _ => nofun
    refine (safe_executeCall_paced hc x (hw rfl)).bind (fun h₂ result hw => ?_)
      fun _ _ _ => fun _ => nofun
    refine (safe_recordResult hc result (hw result rfl)).bind (fun h₃ candidate hb => ?_)
      fun _ _ _ => fun _ => nofun
    have hb₃ := hb candidate rfl
    cases candidate with
    | some candidate =>
      have haside : Aside (do
          emit (failureLoopFact candidate)
          abandonCalls "Tool not dispatched: repeated failure without source progress"
            "repeated_tool_failure" calls
          pure (.park (c.cleanText (repeatedFailure call))) : Task BatchEnd) :=
        Uses.bind (aside_emit (show EventType.toolFailureLoopDetected ∉ toolKinds by decide)) fun _ =>
          Uses.bind (aside_abandonCalls _ _ _) fun _ => uses_pure _
      exact (safe_aside haside).mono fun h' r hbeside _ _ => hb₃.beside hbeside
    | none => exact ih _ _ hb₃

theorem safe_handleResponse_paced (hc : HostConfig c) (x : ToolExecutor) (st : LoopState)
    (r : ModelResponse) (hb : Between h) :
    (handleResponse c x st r).Safe Paced h fun h' outcome => ∀ value, outcome = .ok value →
      Between h' := by
  have hresponse : (responseFact c st r).type ∉ toolKinds :=
    show EventType.modelResponse ∉ toolKinds by decide
  unfold handleResponse
  split
  · exact fun _ => nofun
  · refine (safe_aside (aside_emit hresponse)).bind (fun h₁ _ hbeside => ?_) fun _ _ _ _ => nofun
    have hb₁ := hb.beside hbeside
    dsimp only
    split
    · refine (safe_aside (aside_abandonCalls _ _ _)).bind (fun _ _ _ => ?_) fun _ _ _ _ => nofun
      exact fun _ => nofun
    split
    · refine (safe_aside (aside_abandonCalls _ _ _)).bind (fun _ _ _ => ?_) fun _ _ _ _ => nofun
      exact fun _ => nofun
    split
    · split
      · exact fun _ _ => hb₁
      · refine (safe_aside (inert_checkFinal _ _).aside).bind (fun h₂ _ hbeside => ?_)
          fun _ _ _ _ => nofun
        exact fun _ _ => hb₁.beside hbeside
    · refine (safe_runBatch_paced hc x false false hb₁).bind (fun h₂ batch hb₂ => ?_)
        fun _ _ _ _ => nofun
      exact (safe_aside (inert_afterBatch _ _).aside).mono fun h' r hbeside _ _ =>
        (hb₂ batch rfl).beside hbeside

theorem safe_runStep_paced (hc : HostConfig c) (x : ToolExecutor) (st : LoopState)
    (hb : Between h) :
    (runStep c x st).Safe Paced h fun h' r => ∀ value, r = .ok value → Between h' := by
  refine (safe_aside (uses_call rfl)).bind (fun h₁ _ hbeside₁ => ?_) fun _ _ _ _ => nofun
  refine (safe_aside (uses_call rfl)).bind (fun h₂ current hbeside₂ => ?_) fun _ _ _ _ => nofun
  have hb₂ := (hb.beside hbeside₁).beside hbeside₂
  dsimp only
  split
  · exact fun _ _ => hb₂
  · refine (safe_aside (inert_requestModel _).aside).bind (fun h₃ response hbeside => ?_)
      fun _ _ _ _ => nofun
    exact safe_handleResponse_paced hc x _ response (hb₂.beside hbeside)

theorem safe_runSteps_paced (hc : HostConfig c) (x : ToolExecutor) (remaining : ℕ)
    (st : LoopState) (hb : Between h) :
    (runSteps c x st remaining).Safe Paced h fun h' r => ∀ value, r = .ok value → Between h' := by
  induction remaining generalizing h st with
  | zero => exact fun _ _ => hb
  | succ remaining ih =>
    refine (safe_runStep_paced hc x _ hb).bind (fun h' outcome hb' => ?_) fun _ _ _ _ => nofun
    cases outcome with
    | again st => exact ih st (hb' _ rfl)
    | ended finish => exact fun _ _ => hb' _ rfl

/-- The loop starts after a checkpoint. -/
theorem safe_emitCheckpoint (hidle : Idle h.facts) :
    emitCheckpoint.Safe Paced h fun h' r => ∀ value, r = .ok value → Between h' := by
  unfold emitCheckpoint
  refine (safe_aside (uses_call rfl)).bind (fun h₁ checkpoint hbeside => ?_) fun _ _ _ _ => nofun
  have hkind : (checkpointFact checkpoint).type ∉ toolKinds :=
    show EventType.workspaceCheckpoint ∉ toolKinds by decide
  have hmay : MayCommit (History.facts h₁) (checkpointFact checkpoint) :=
    ⟨nofun, fun hmem => absurd (List.mem_cons_of_mem _ hmem) hkind, fun hmem => absurd hmem hkind⟩
  refine (safe_emit_paced hmay).mono fun h' r hr value hok => ?_
  obtain ⟨sent, rfl⟩ := hr hok
  refine ⟨?_, ?_⟩
  · rw [facts_emitted]
    exact ⟨_, List.mem_append_right _ (List.mem_singleton_self _), rfl⟩
  · rw [facts_emitted]
    intro last hlast
    rw [lastTool_other hkind] at hlast
    exact hbeside.idle hidle last hlast

theorem safe_prologue_paced (hc : HostConfig c) (hidle : Idle h.facts) :
    (prologue c).Safe Paced h fun h' r => ∀ value, r = .ok value → Between h' := by
  have hstarted : (startedFact c).type ∉ toolKinds :=
    show EventType.runStarted ∉ toolKinds by decide
  refine (safe_aside (uses_call rfl)).bind (fun h₁ _ hb₁ => ?_) fun _ _ _ _ => nofun
  refine (safe_aside (aside_emit hstarted)).bind (fun h₂ _ hb₂ => ?_) fun _ _ _ _ => nofun
  refine (safe_aside (aside_emitAll hc.opening_aside)).bind (fun h₃ _ hb₃ => ?_)
    fun _ _ _ _ => nofun
  have hidle₃ := hb₃.idle (hb₂.idle (hb₁.idle hidle))
  refine (safe_emitCheckpoint hidle₃).bind (fun h₄ _ hb₄ => ?_) fun _ _ _ _ => nofun
  refine (safe_aside (uses_call rfl)).bind (fun h₅ _ hb₅ => ?_) fun _ _ _ _ => nofun
  split
  · exact fun _ _ => (hb₄ _ rfl).beside hb₅
  · exact fun _ => nofun

theorem safe_paced {α : Type} {p : Task α} (hp : Aside p) : p.Safe Paced h fun _ _ => True :=
  (safe_aside hp).mono fun _ _ _ => trivial

/-- The fact that ends a run is of no call. -/
def Ended (outcome : Except Raised Terminal) : Prop :=
  ∀ terminal, outcome = .ok terminal → terminal.status ∉ toolKinds

theorem error_ended {error : Raised} : Ended (.error error) := fun _ heq => nomatch heq

theorem interrupted_ended {error : Option String} {reason : Option ParkKind} :
    Ended (.ok { status := .runInterrupted, error, reason }) := by
  intro terminal heq
  rw [← Except.ok.inj heq]
  exact show EventType.runInterrupted ∉ toolKinds by decide

theorem safe_conclude (finish : LoopEnd) :
    (conclude finish).Safe Paced h fun _ r => Ended r := by
  cases finish with
  | parked kind message =>
    refine (safe_paced inert_parkCheckpoint.aside).bind (fun _ _ _ => ?_) fun _ _ _ => error_ended
    exact interrupted_ended
  | answered output =>
    refine (safe_paced (uses_call rfl)).bind (fun _ _ _ => ?_) fun _ _ _ => error_ended
    intro terminal heq
    rw [← Except.ok.inj heq]
    exact show EventType.runCompleted ∉ toolKinds by decide

theorem safe_recover (e : Raised) : (recover c e).Safe Paced h fun _ r => Ended r := by
  cases e with
  | unknownOutcome message => exact interrupted_ended
  | tokenBudget message =>
    refine (safe_paced inert_emitCheckpoint.aside).bind (fun _ _ _ => ?_) fun _ _ _ => error_ended
    exact interrupted_ended
  | budgetExceeded message violations =>
    refine (safe_paced inert_emitCheckpoint.aside).bind (fun _ _ _ => ?_) fun _ _ _ => error_ended
    exact interrupted_ended
  | cancelled =>
    refine (safe_paced (Uses.attempt inert_parkCheckpoint.aside)).bind (fun h₁ saved _ => ?_)
      fun _ _ _ => error_ended
    have hunknown (unknown : Bool) : (interruptedFact unknown).type ∉ toolKinds :=
      show EventType.runInterrupted ∉ toolKinds by decide
    have hend : (do
        let unknown : Bool ← Task.call .unknownOutcome
        emit (interruptedFact unknown)
        throw .cancelled : Task Terminal).Safe Paced h₁ fun _ r => Ended r := by
      refine (safe_paced (uses_call rfl)).bind (fun _ unknown _ => ?_) fun _ _ _ => error_ended
      refine (safe_paced (aside_emit (hunknown unknown))).bind (fun _ _ _ => ?_)
        fun _ _ _ => error_ended
      exact error_ended
    match saved with
    | .ok () => exact hend
    | .error e => cases e <;> first | exact hend | exact error_ended
  | error type message timeout unknown =>
    intro terminal heq
    rw [← Except.ok.inj heq]
    exact show EventType.runFailed ∉ toolKinds by decide

theorem safe_loop_paced (hc : HostConfig c) (hidle : Idle h.facts) :
    (loop c).Safe Paced h fun _ r => Ended r := by
  refine (safe_prologue_paced hc hidle).bind (fun h₁ x hb => ?_) fun _ _ _ => error_ended
  refine (safe_runSteps_paced hc x _ _ (hb x rfl)).bind (fun h₂ finish _ => ?_)
    fun _ _ _ => error_ended
  exact safe_conclude finish

theorem safe_execute_paced (hc : HostConfig c) (hidle : Idle h.facts) :
    (execute c).Safe Paced h fun _ _ => True := by
  have hrun : ((loop c).handle (recover c)).attempt.Safe Paced h
      fun _ r => ∀ outcome, r = .ok outcome → Ended outcome := by
    refine safe_attempt.mpr (safe_handle.mpr ((safe_loop_paced hc hidle).mono fun h₁ r hr => ?_))
    cases r with
    | ok terminal =>
      intro outcome heq
      rw [← Except.ok.inj heq]
      exact hr
    | error e =>
      refine (safe_recover e).mono fun h₂ outcome hended outcome' heq => ?_
      rw [← Except.ok.inj heq]
      exact hended
  refine hrun.bind (fun h₂ outcome hended => ?_) fun _ _ _ => trivial
  refine Safe.seq (safe_paced inert_closeManager.aside) fun h₃ _ _ => ?_
  cases outcome with
  | ok terminal => exact safe_paced (aside_emit (hended _ rfl terminal rfl))
  | error e => trivial

theorem finishedFact_aside (e : Raised) : (finishedFact c e).type ∉ toolKinds := by
  cases e with
  | cancelled => exact show EventType.runInterrupted ∉ toolKinds by decide
  | _ => exact show EventType.runFailed ∉ toolKinds by decide

theorem safe_runTask_paced (hc : HostConfig c) (hidle : Idle h.facts) :
    (runTask c).Safe Paced h fun _ _ => True := by
  refine Safe.seq (safe_attempt.mpr (safe_execute_paced hc hidle)) fun h₁ outcome _ => ?_
  cases outcome with
  | ok _ => trivial
  | error e =>
    refine Safe.seq (safe_paced (uses_call rfl)) fun h₂ live _ => safe_paced ?_
    split
    · exact uses_call (decide_eq_true (finishedFact_aside e))
    · exact uses_pure _

/-- What keeps the pace commits its calls in turn, after a checkpoint. -/
theorem inTurn_of_paced {asked : History}
    (h : ∀ before exchange after, asked = before ++ exchange :: after → Paced before exchange) :
    InTurn asked.facts ∧ Timely asked.facts := by
  induction asked using List.reverseRecOn with
  | nil =>
    refine ⟨.nil, fun before fact after heq _ => ?_⟩
    cases before <;> cases heq
  | append_singleton asked exchange ih =>
    obtain ⟨hturn, htimely⟩ := ih fun before other after heq =>
      h before other (after ++ [exchange]) (by rw [heq]; simp)
    have hpaced := h asked exchange [] rfl
    obtain ⟨q, answer⟩ := exchange
    have hnone (hfacts : History.facts [⟨q, answer⟩] = []) :
        InTurn (History.facts (asked ++ [⟨q, answer⟩])) ∧
          Timely (History.facts (asked ++ [⟨q, answer⟩])) := by
      rw [History.facts_append, hfacts, List.append_nil]
      exact ⟨hturn, htimely⟩
    cases q with
    | commit fact =>
      cases answer with
      | ok value =>
        have hmay : MayCommit (History.facts asked) fact := hpaced
        rw [History.facts_append]
        exact ⟨hturn.concat hmay.prepared hmay.outcome, htimely.concat hmay.timely⟩
      | error e => exact hnone rfl
    | _ => exact hnone rfl

/-- However far a run gets, its calls are prepared and settled in turn, after a checkpoint. -/
theorem runTask_inTurn (hc : HostConfig c) {asked : History} {p : Task Unit}
    (hr : Reaches (runTask c) asked p) : InTurn asked.facts ∧ Timely asked.facts := by
  have hidle : Idle (History.facts []) := nofun
  refine inTurn_of_paced fun before exchange after heq => ?_
  have hpaced := ((safe_runTask_paced hc hidle).reaches hr).1 before exchange after heq
  simpa using hpaced

end AgentLoop

end Eventide
