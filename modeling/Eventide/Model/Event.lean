import Eventide.Model.Json

/-! # Runtime events -/

namespace Eventide

/-- The event types that some modelled function tells apart; every other name of the
log is `other`. -/
inductive EventType where
  | runAdmitted | runStarted | runCompleted | runFailed | runInterrupted
  | messageUser | messageImported
  | modelRequest | modelResponse | modelRetry | modelAttemptStarted | modelAttemptFinished
  | toolPrepared | toolCompleted | toolAbandoned | toolOutcomeUnknown
  | toolFailureLoopDetected
  | approvalRequired | approvalResolved
  | workspaceCheckpoint
  | contextSummaryRequested | contextSummaryGenerated | contextSummaryClaimed
  | contextCompacted | contextTrimmed
  | taskPlanUpdated | workerStarted | workerCompleted | recoveryAbandoned
  | budgetConfigured | budgetReserved | budgetSettled | budgetResolved
  | costEstimated | priceRegistered
  | controlSession | sessionCreated | sessionDeleted | sessionMetadataChanged
  | httpMutationStarted | httpMutationCompleted | httpMutationFailed
  | deliveryPrepared | deliveryVerified | deliveryApplied | deliveryRepairStarted
  | deliveryRepairFinished | deliveryRoundStarted | deliveryRoundFinished
  | memoryRecord | memorySuggestion | memorySettings | memoryObserved
  | memorySnapshot | memoryInjected
  | skillsSnapshot | generationConfigured
  | other (name : String)
  deriving DecidableEq, Inhabited

namespace EventType

/-- `TERMINALS`. -/
def isTerminal : EventType → Bool
  | runCompleted | runFailed | runInterrupted => true
  | _ => false

/-- `kind.removeprefix("run.")`, for the terminal kinds. -/
def terminalStatus : EventType → String
  | runCompleted => "completed"
  | runFailed => "failed"
  | runInterrupted => "interrupted"
  | _ => ""

end EventType

/-- A decoded row of `runtime_events`. Clock readings are integers: only their order
and equality are ever read. -/
structure Event where
  eventId : String
  sessionId : String
  sessionSeq : ℕ
  turnId : Option String
  runId : Option String
  ts : ℤ
  type : EventType
  role : String
  author : String
  payload : Json
  isPartial : Bool := false
  schemaVersion : ℕ := 1
  deriving Inhabited

/-- The exceptions that reach a caller, with the message where the source writes one. -/
inductive PyError where
  | value (message : String)
  | lookup (message : String)
  | integrity (constraint : String)
  | key (name : String)
  | type (message : String)
  | runtime (message : String)
  | queueFull
  | budgetExceeded (violations : List Json)
  | cancelled
  | raised (name message : String)
  deriving Inhabited

/-- `payload[name]`. -/
def Json.require (payload : Json) (name : String) : Except PyError Json :=
  match payload.get? name with
  | some value => .ok value
  | none => .error (.key name)

theorem EventType.isTerminal_iff (kind : EventType) :
    kind.isTerminal = true ↔
      kind = .runCompleted ∨ kind = .runFailed ∨ kind = .runInterrupted := by
  cases kind <;> simp [EventType.isTerminal]

end Eventide
