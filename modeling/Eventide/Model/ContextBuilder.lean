import Eventide.Model.JsonText
import Eventide.Model.Projections
import Eventide.Model.StoreCalls
import Eventide.Model.ToolExecutor

/-! # ContextBuilder

The messages of a model request: the projection of the log, after a summary where one covers
its completed turns, with old tool results folded where they do not fit. -/

namespace Eventide.ContextBuilder

open RuntimeStore

def keepRecentToolResults : ℕ := 3

/-- What the builder takes from Python and from its caller. -/
structure Rendering where
  floatText : ℚ → List Char
  /-- `str(value)`, for a value that is no string. -/
  pyStr : Json → String
  /-- `f"{type(exc).__name__}: {exc}"`. -/
  errorText : PyError → String

namespace Rendering

variable (text : Rendering)

def str (value : Json) : String := (value.str?).getD (text.pyStr value)

end Rendering

/-! ## Sizes -/

/-- `request_size`. -/
def requestSize (text : Rendering) (system : String) (messages : List Json) (tools : List Json) :
    ℕ :=
  Json.size text.floatText (.obj [("system", .str system), ("messages", .arr messages),
    ("tools", .arr tools)])

/-! ## Task plans -/

def emptyPlan : Json := .obj [("todos", .arr [])]

/-- The arguments of a plan update that repeat the plan. -/
def planArguments (block : Json) : Option Json :=
  if block.fieldIs "type" "tool_use" && block.fieldIs "name" "todo_write" then
    (block.get? "input").filter fun arguments =>
      arguments.isObj && (arguments.get? "todos").any Json.truthy
  else none

def elideBlock (block : Json) : Json :=
  if (planArguments block).isSome then block.withField "input" emptyPlan else block

/-- The list of an assistant message's content. -/
def assistantBlocks (message : Json) : Option (List Json) :=
  if message.fieldIs "role" "assistant" then (message.get? "content").bind Json.arr? else none

def elideMessage (message : Json) : Json :=
  match assistantBlocks message with
  | some blocks =>
    if blocks.any fun block => (planArguments block).isSome then
      message.withField "content" (.arr (blocks.map elideBlock))
    else message
  | none => message

/-- The plan updates of the messages. -/
def planUpdates (messages : List Json) : List Json :=
  messages.flatMap fun message => ((assistantBlocks message).getD []).filterMap planArguments

/-- What a request leaves out, as the `context.trimmed` fact has it. -/
structure Trimmed where
  previewedCallIds : List String := []
  previewOmittedChars : ℕ := 0
  elidedPlanUpdates : ℕ := 0
  planOmittedChars : ℕ := 0
  foldedCallIds : List String := []
  omittedChars : ℕ := 0
  summarySkipped : Option String := none

/-- `_elide_task_plan_updates`. -/
def elideTaskPlanUpdates (text : Rendering) (messages : List Json) : List Json × Trimmed :=
  let updates := planUpdates messages
  (messages.map elideMessage, {
    elidedPlanUpdates := updates.length
    planOmittedChars := (updates.map fun arguments =>
      Json.size text.floatText arguments - Json.size text.floatText emptyPlan).sum })

/-! ## Tool results -/

/-- `isinstance(block, dict) and block.get("type") == "tool_result"`. -/
def isToolResult (block : Json) : Bool := block.isObj && block.fieldIs "type" "tool_result"

def contentBlocks (message : Json) : List Json := ((message.get? "content").bind Json.arr?).getD []

/-- `_tool_result_blocks`. -/
def toolResultBlocks (message : Json) : List Json := (contentBlocks message).filter isToolResult

def foldedPlaceholder (name : String) (omitted : ℕ) : String :=
  "[" ++ name ++ " output folded to fit the context budget: " ++ toString omitted ++
    " characters omitted]"

def callIdOf (text : Rendering) (block : Json) : String :=
  text.str ((block.get? "tool_use_id").getD (.str ""))

/-- The placeholder of a result, where it is shorter. -/
def placeholder? (text : Rendering) (names : Dict String String) (block : Json) : Option String :=
  if isToolResult block then
    match block.get? "content" with
    | some (.str content) =>
      let placeholder := foldedPlaceholder
        ((names.get? (callIdOf text block)).getD "tool") content.length
      if content.length ≤ placeholder.length then none else some placeholder
    | _ => none
  else none

/-- A block of the messages, by its place. -/
structure Slot where
  index : ℕ
  position : ℕ
  block : Json

/-- The indices of the messages with tool results. -/
def groups (messages : List Json) : List ℕ :=
  (List.range messages.length).filter fun index =>
    (messages[index]?).any fun message => !(toolResultBlocks message).isEmpty

/-- `groups` without the newest ones, which stay verbatim. -/
def olderGroups (messages : List Json) : List ℕ :=
  (groups messages).take ((groups messages).length - keepRecentToolResults)

/-- The blocks of the older groups, oldest first. -/
def slots (messages : List Json) : List Slot :=
  (olderGroups messages).flatMap fun index =>
    ((contentBlocks ((messages[index]?).getD .null)).zipIdx).map fun (block, position) =>
      { index, position, block }

def setBlock (position : ℕ) (block message : Json) : Json :=
  message.withField "content" (.arr ((contentBlocks message).set position block))

/-- `working[index] = {**original, "content": blocks}`. -/
def putBlock (working : List Json) (slot : Slot) (placeholder : String) : List Json :=
  working.modify slot.index
    (setBlock slot.position (slot.block.withField "content" (.str placeholder)))

/-- What the folding has done so far. -/
structure Folded where
  working : List Json
  callIds : List String := []
  omittedChars : ℕ := 0

def contentLength (block : Json) : ℕ := (((block.get? "content").bind Json.str?).getD "").length

/-- One block of the loop. -/
def foldSlot (text : Rendering) (names : Dict String String) (folded : Folded) (slot : Slot) :
    Option Folded :=
  (placeholder? text names slot.block).map fun placeholder => {
    working := putBlock folded.working slot placeholder
    callIds := folded.callIds ++ [callIdOf text slot.block]
    omittedChars := folded.omittedChars + (contentLength slot.block - placeholder.length) }

/-- The loop over the blocks; it stops as soon as the request fits. -/
def foldSlots (text : Rendering) (size : List Json → ℕ) (budget : ℕ) (names : Dict String String)
    (folded : Folded) : List Slot → Folded
  | [] => folded
  | slot :: slots =>
    match foldSlot text names folded slot with
    | none => foldSlots text size budget names folded slots
    | some next =>
      if size next.working ≤ budget then next
      else foldSlots text size budget names next slots

/-- `_fold_tool_results`. -/
def foldToolResults (text : Rendering) (messages : List Json) (budget : ℕ)
    (names : Dict String String) (size : List Json → ℕ) : Folded :=
  foldSlots text size budget names { working := messages } (slots messages)

/-! ## The projected history -/

def inlineResultChars : ℕ := 12000

def previewHeadChars : ℕ := 8000

def previewTailChars : ℕ := 2000

def previewMarker (text : Rendering) (e : Event) (length omitted : ℕ) : String :=
  "\n\n[Tool output preview: " ++ toString length ++ " characters total; " ++ toString omitted ++
    " omitted. Use read_tool_result with run_id=\"" ++ (e.runId.getD "") ++ "\", call_id=\"" ++
    text.str ((e.payload.get? "call_id").getD (.str "")) ++
    "\", offset and limit to read any page.]\n\n"

/-- `preview`: the content that the model is shown, and how much of it is left out. -/
def preview (text : Rendering) (e : Event) : String × ℕ :=
  match (e.payload.get? "content").getD (.str "") with
  | .str content =>
    if content.length ≤ inlineResultChars then (content, 0)
    else
      let omitted := content.length - previewHeadChars - previewTailChars
      (String.ofList (content.toList.take previewHeadChars) ++
        previewMarker text e content.length omitted ++
        String.ofList (content.toList.drop (content.length - previewTailChars)), omitted)
  | other => (text.pyStr other, 0)

/-- `tool_result_content` of every projection of the builder. -/
def shownContent (text : Rendering) (e : Event) : Json := .str (preview text e).1

/-- `_summary_history`. -/
def summaryHistory (text : Rendering) (events : List Event) : Except PyError (List Json) :=
  (MessagesProjection.project (some (shownContent text)) events).map (List.map elideMessage)

/-- What a call of `build` is given, and what it reads from the store. -/
structure BuildInput where
  text : Rendering
  /-- `digest`, of the events of the log and of a history. -/
  digestEvents : List Event → String
  digestHistory : List Json → String
  sessionId : String
  events : List Event
  checkpoints : List ContextCheckpoint
  providerName : String
  model : String
  budget : ℕ
  force : Bool := false
  system : String := ""
  tools : List Json := []

namespace BuildInput

variable (b : BuildInput)

def size (messages : List Json) : ℕ := requestSize b.text b.system messages b.tools

def upTo (coveredSeq : ℕ) : List Event := b.events.filter (·.sessionSeq ≤ coveredSeq)

def since (coveredSeq : ℕ) : List Event := b.events.filter (coveredSeq < ·.sessionSeq)

def validCheckpoint (candidate : ContextCheckpoint) : Bool :=
  (b.upTo candidate.coveredSeq).getLast?.any (fun e => e.type.isTerminal && !e.isPartial) &&
    candidate.policyVersion = 1 && candidate.provider = b.providerName &&
    candidate.model = b.model && b.digestEvents (b.upTo candidate.coveredSeq) = candidate.sourceDigest

/-- The newest checkpoint whose prefix is still the one it was made from. -/
def checkpoint : Option ContextCheckpoint := b.checkpoints.find? b.validCheckpoint

/-- The results that a projection shows in part. -/
def previewed (tail : List Event) : Trimmed :=
  let events := MessagesProjection.shownEvents (some (shownContent b.text)) tail
  let shown := events.map fun e =>
    (b.text.str ((e.payload.get? "call_id").getD (.str "")), (preview b.text e).2)
  let cut := shown.filter fun p => p.2 ≠ 0
  { previewedCallIds := cut.map Prod.fst, previewOmittedChars := (cut.map Prod.snd).sum }

def summaryMessage (summary : String) : Json :=
  .obj [("role", .str "user"), ("content", .str ("[Prior context]\n" ++ summary))]

/-- `materialize`; a checkpoint is the end of what it covers and its summary. -/
def materialize (cp : Option (ℕ × String)) : Except PyError (List Json × Trimmed) := do
  let tail := cp.elim b.events fun cp => b.since cp.1
  let messages ← MessagesProjection.project (some (shownContent b.text)) tail
  let (elided, trimmed) := elideTaskPlanUpdates b.text messages
  let shown := b.previewed tail
  return ((cp.elim [] fun cp => [summaryMessage cp.2]) ++ elided, { trimmed with
    previewedCallIds := shown.previewedCallIds, previewOmittedChars := shown.previewOmittedChars })

end BuildInput

/-! ## The summary -/

/-- The payload of a `context.summary_claimed` fact, with the session that holds it. -/
structure SummaryClaim where
  sessionId : String
  provider : String
  model : String
  coveredSeq : ℕ
  prefixHash : String
  attemptedAt : ℚ

def summaryMinIntervalSeconds : ℚ := 60

def summaryMinNewCharacters : ℕ := 4000

/-- The decision of `_claim_summary` after an earlier claim of the same session and model. -/
def afterClaim (b : BuildInput) (attemptedAt : ℚ) (covered : List Event) (boundary : ℕ)
    (previous : SummaryClaim) : Except PyError (Option String) :=
  if boundary ≤ previous.coveredSeq then .ok (some "newer_completed_prefix_already_claimed")
  else if attemptedAt - previous.attemptedAt < summaryMinIntervalSeconds then
    .ok (some "summary_cooldown")
  else do
    let added ← summaryHistory b.text (covered.filter (previous.coveredSeq < ·.sessionSeq))
    if Json.size b.text.floatText (.arr added) - 2 < summaryMinNewCharacters then
      return some "insufficient_completed_content"
    else return none

/-- `_claim_summary`: why there is no claim, or the claim that is committed. -/
def claimSummary (b : BuildInput) (claims : List SummaryClaim) (attemptedAt : ℚ)
    (covered : List Event) (boundary : ℕ) (history : List Json) :
    Except PyError (String ⊕ SummaryClaim) := do
  let prefixHash := b.digestHistory history
  let claims := claims.filter fun claim => claim.sessionId = b.sessionId &&
    claim.provider = b.providerName && claim.model = b.model
  if claims.any (·.prefixHash = prefixHash) then return .inl "same_completed_prefix"
  else do
    let refused ← match claims.getLast? with
      | some previous => afterClaim b attemptedAt covered boundary previous
      | none => .ok none
    match refused with
    | some reason => return .inl reason
    | none => return .inr {
        sessionId := b.sessionId, provider := b.providerName, model := b.model
        coveredSeq := boundary, prefixHash, attemptedAt }

/-- What stops a build. -/
inductive BuildError where
  | contextOverflow (message : String)
  | budgetExceeded (message : String) (violations : Json)
  | cancelled
  | raised (e : PyError)

def truncatedSummaryReasons : List String :=
  ["max_tokens", "length", "max_output_tokens", "incomplete"]

def redactedChars : ℕ := 4000

/-- `redact` of a text, with its default bound. -/
def redactText (text : String) : String :=
  if text.length ≤ redactedChars then text
  else String.ofList (text.toList.take redactedChars) ++ "… [" ++
    toString (text.length - redactedChars) ++ " chars truncated]"

/-- `normalize` of a text. -/
def normalizeText (secrets : List String) (text : String) : String :=
  (secrets.filter (· ≠ "")).foldl (fun text secret => text.replace secret "[REDACTED]") text

/-- The summary of a response, or why it has none. -/
def summaryOf (secrets : List String) (r : ModelResponse) : Except PyError String :=
  let summary := strip (normalizeText secrets (redactText r.text))
  if summary = "" || !r.toolCalls.isEmpty then .error (.value "Invalid context summary")
  else if r.stopReason ∈ truncatedSummaryReasons then
    .error (.value ("Context summary truncated (" ++ r.stopReason ++ ")"))
  else .ok summary

structure Pending where
  coveredSeq : ℕ
  sourceDigest : String
  usage : Json
  summary : String

/-- Where a build stands before it folds. -/
structure Draft where
  current : List Json
  trimmed : Trimmed
  pending : Option Pending := none
  adopted : Bool := false
  failure : Option String := none
  skipped : Option String := none

/-- The messages after a summary, adopted where they are fewer characters. -/
def adoptSummary (b : BuildInput) (covered : List Event) (boundary : ℕ) (draft : Draft)
    (r : ModelResponse) (summary : String) : Except PyError Draft := do
  let (candidate, trimmed) ← b.materialize (some (boundary, summary))
  let draft := { draft with pending := some {
    coveredSeq := boundary, sourceDigest := b.digestEvents covered, usage := r.usage, summary } }
  if b.size candidate < b.size draft.current then
    return { draft with current := candidate, trimmed, adopted := true }
  else return draft

def summaryFailure (text : String) : String := "summarizing completed turns failed (" ++ text ++ ")"

/-- The `try` around the completion: only a refused budget and a cancellation get out. -/
def trySummary (b : BuildInput) (secrets : List String) (covered : List Event) (boundary : ℕ)
    (draft : Draft) : Except Raised ModelResponse → Except BuildError Draft
  | .error .cancelled => .error .cancelled
  | .error (.budgetExceeded message violations) => .error (.budgetExceeded message violations)
  | .error e => .ok { draft with failure := some (summaryFailure (e.typeName ++ ": " ++ e.message)) }
  | .ok r =>
    match (do
      let summary ← summaryOf secrets r
      adoptSummary b covered boundary draft r summary) with
    | .ok draft => .ok draft
    | .error e => .ok { draft with failure := some (summaryFailure (b.text.errorText e)) }

/-- The end of the last closed turn. -/
def boundary (events : List Event) : ℕ :=
  ((events.filter (·.type.isTerminal)).map (·.sessionSeq)).foldl max 0

/-- What a call of `build` reads after its first look at the log: the claims so far, the clock,
the answer of the provider, and the secrets it keeps out of a summary. -/
structure SummaryInput where
  claims : List SummaryClaim
  attemptedAt : ℚ
  answer : Except Raised ModelResponse
  secrets : List String

/-- The summary of the closed turns, with the claim that was committed for it. -/
def summarize (b : BuildInput) (s : SummaryInput) (draft : Draft) :
    Option SummaryClaim × Except BuildError Draft :=
  let boundary := boundary b.events
  if boundary ≠ 0 && b.checkpoint.all (·.coveredSeq < boundary) then
    let covered := b.upTo boundary
    match (do
      let history ← summaryHistory b.text covered
      claimSummary b s.claims s.attemptedAt covered boundary history) with
    | .error e => (none, .error (.raised e))
    | .ok (.inl reason) => (none, .ok { draft with skipped := some reason })
    | .ok (.inr claim) => (some claim, trySummary b s.secrets covered boundary draft s.answer)
  else (none, .ok draft)

/-! ## build -/

/-- `names`: what each completed call was called. -/
def toolNames (b : BuildInput) : Dict String String :=
  Dict.ofList ((b.events.filter (·.type = .toolCompleted)).map fun e =>
    (b.text.str ((e.payload.get? "call_id").getD .null),
      b.text.str ((e.payload.get? "name").getD (.str "tool"))))

def foldDraft (b : BuildInput) (draft : Draft) : Draft :=
  if b.size draft.current ≤ b.budget then draft
  else
    let folded := foldToolResults b.text draft.current b.budget (toolNames b) b.size
    { draft with current := folded.working, trimmed := { draft.trimmed with
        foldedCallIds := folded.callIds, omittedChars := folded.omittedChars } }

def overflowReason (draft : Draft) : String :=
  match draft.failure, draft.skipped, draft.pending with
  | some failure, _, _ => failure
  | none, some reason, _ => "summary throttled (" ++ reason ++ ")"
  | none, none, some _ =>
    "completed turns were summarized but the active turn still exceeds the budget"
  | none, none, none =>
    "active turn exceeds the budget and no completed turn is available to compact"

/-- `_describe_context`. -/
def describeContext (b : BuildInput) (messages : List Json) : String :=
  let results := messages.filter fun message => !(toolResultBlocks message).isEmpty
  toString (b.size messages) ++ " characters against a " ++ toString b.budget ++
    " character budget (" ++ toString (b.size []) ++ " fixed system/tool characters, " ++
    toString messages.length ++ " messages, " ++ toString results.length ++
    " tool-result messages totalling " ++
    toString ((results.map (Json.size b.text.floatText)).sum) ++ " characters)"

def overflowMessage (b : BuildInput) (draft : Draft) : String :=
  "context_overflow: " ++ overflowReason draft ++
    "; older tool results were folded but the context is still over budget: " ++
    describeContext b draft.current

structure Built where
  messages : List Json
  /-- The payload of `context.compacted`. -/
  compacted : Option Json := none
  trimmed : Trimmed

/-- What a call of `build` commits and returns. -/
structure BuildResult where
  claimed : Option SummaryClaim := none
  saved : Option Pending := none
  outcome : Except BuildError Built

def compactedPayload (force : Bool) (draft : Draft) : Option Pending → Option Json
  | some pending => some (.obj [("covered_seq", .int pending.coveredSeq),
      ("source_digest", .str pending.sourceDigest), ("policy_version", .int 1),
      ("usage", pending.usage)])
  | none =>
    if force then some (.obj [("covered_seq", .int 0), ("reason", .str
      (draft.skipped.elim "No completed prefix to compact" ("Summary skipped: " ++ ·)))])
    else none

/-- The last part of `build`; the checkpoint is saved after the final check. -/
def finishBuild (b : BuildInput) (draft : Draft) : BuildResult :=
  let draft := foldDraft b draft
  if b.size draft.current ≤ b.budget then
    let saved := if draft.adopted then draft.pending else none
    { saved, outcome := .ok {
        messages := draft.current
        compacted := compactedPayload b.force draft saved
        trimmed := { draft.trimmed with summarySkipped := draft.skipped } } }
  else { outcome := .error (.contextOverflow (overflowMessage b draft)) }

/-- `ContextBuilder.build`. -/
def build (b : BuildInput) (s : SummaryInput) : BuildResult :=
  match b.materialize (b.checkpoint.map fun cp => (cp.coveredSeq, cp.summary)) with
  | .error e => { outcome := .error (.raised e) }
  | .ok (messages, trimmed) =>
    if !b.force && b.size messages ≤ b.budget then { outcome := .ok { messages, trimmed } }
    else
      match summarize b s { current := messages, trimmed } with
      | (claimed, .error e) => { claimed, outcome := .error e }
      | (claimed, .ok draft) => { finishBuild b draft with claimed }

end Eventide.ContextBuilder
