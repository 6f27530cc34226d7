import Mathlib.Logic.Function.Basic
import Eventide.Library.Dict
import Eventide.Library.Outcome
import Eventide.Model.Event

/-! # Deliveries

One captured checkout is prepared, written, verified, repaired and at last applied to its
source. Operations of the Web and of the Python API run as tasks of one host; the log, the
file system and the delivery locks are what they share. -/

namespace Eventide

open Outcome

namespace Delivery

inductive Action where
  | prepare | run | verify | apply | repair
  deriving DecidableEq

abbrev Patch := List UInt8

/-- `_checkpoint`. -/
structure Checkpoint where
  head : String
  staged : String
  unstaged : String
  untracked : List (String × String)
  deriving DecidableEq

structure FileMeta where
  sha256 : String
  mode : String
  size : ℕ
  deriving DecidableEq

abbrev Manifest := List (String × FileMeta)

/-- The dictionary `capture_delivery` returns; `build_patch` writes the last two fields. -/
structure Receipt where
  source : String
  checkout : String
  gitCommonDir : String
  baseCommit : String
  sourceBranch : String
  checkoutBranch : String
  sourceCheckpoint : Checkpoint
  checkpoint : Checkpoint
  protectedPatterns : List String
  protectedManifest : Manifest
  checkoutCheckpoint : Option Checkpoint := none
  patchSha256 : Option String := none
  deriving DecidableEq

/-! ## Patches of a checkout -/

/-- Git and the scans of a checkout, as functions of the content found under its path. -/
structure Git (Tree : Type) where
  common : Tree → String
  branch : Tree → String
  files : Tree → Except PyError Manifest
  checkpoint : Tree → Except PyError Checkpoint
  dirty : Tree → Bool
  isAncestor : Tree → String → Bool
  isProtected : List String → String → Bool
  /-- The diff against a commit of the index made from the two manifests. -/
  diff : Tree → String → Manifest → Manifest → Except PyError Patch
  /-- The paths of a commit's tree with a patch applied, and those the patch changes. -/
  patched : Tree → String → Patch → Except PyError (List String × List String)
  applyPatch : Tree → Patch → Except PyError Tree
  sha256 : Patch → String

section Patches

variable {Tree : Type} (git : Git Tree) (world : String → Tree)

def maxPatchBytes : ℕ := 10 * 1024 * 1024

def protectedManifest (manifest : Manifest) (patterns : List String) : Manifest :=
  manifest.filter fun file => git.isProtected patterns file.1

def verifySourceUnchanged (source : String) (receipt : Receipt) : Except PyError Unit := do
  raiseIf (receipt.baseCommit ≠ receipt.sourceCheckpoint.head)
    (.value "Delivery base does not match its source evidence")
  raiseIf (source ≠ receipt.source ∨ git.common (world source) ≠ receipt.gitCommonDir ∨
      git.branch (world source) ≠ receipt.sourceBranch)
    (.value "Source identity changed since delivery capture")
  let _ ← git.files (world source)
  let current ← git.checkpoint (world source)
  raiseIf (current ≠ receipt.sourceCheckpoint ∨ git.dirty (world source))
    (.value "Source Workspace changed since delivery capture")

/-- `_verify_checkout`. -/
def verifyCheckout (checkout : String) (receipt : Receipt) : Except PyError Manifest := do
  raiseIf (checkout ≠ receipt.checkout ∨ git.common (world checkout) ≠ receipt.gitCommonDir ∨
      git.branch (world checkout) ≠ receipt.checkoutBranch)
    (.value "Checkout identity changed since delivery capture")
  raiseIf (¬ git.isAncestor (world checkout) receipt.baseCommit) (.value "Git delivery refused: ")
  let files ← git.files (world checkout)
  raiseIf (protectedManifest git files receipt.protectedPatterns ≠ receipt.protectedManifest)
    (.value "Protected tests or configuration changed")
  return files

def captureDelivery (source checkout : String) (patterns : List String) :
    Except PyError Receipt := do
  raiseIf (source = checkout ∨ git.common (world source) ≠ git.common (world checkout))
    (.value "Delivery requires a separate checkout of the same repository")
  raiseIf (git.dirty (world source)) (.value "Source Workspace must be clean before delivery")
  let sourceFiles ← git.files (world source)
  let sourceCheckpoint ← git.checkpoint (world source)
  let checkoutFiles ← git.files (world checkout)
  let checkpoint ← git.checkpoint (world checkout)
  raiseIf (checkpoint.head ≠ sourceCheckpoint.head)
    (.value "Checkout must start at the source HEAD")
  let guarded := protectedManifest git sourceFiles patterns
  raiseIf (guarded ≠ protectedManifest git checkoutFiles patterns)
    (.value "Protected tests or configuration already changed")
  let receipt : Receipt := {
    source, checkout, gitCommonDir := git.common (world source)
    baseCommit := sourceCheckpoint.head, sourceBranch := git.branch (world source)
    checkoutBranch := git.branch (world checkout), sourceCheckpoint, checkpoint
    protectedPatterns := patterns, protectedManifest := guarded }
  verifySourceUnchanged git world source receipt
  return receipt

/-- The receipt is a dictionary that the caller goes on using with its two new entries. -/
def buildPatch (source checkout : String) (receipt : Receipt) :
    Except PyError (Patch × Receipt) := do
  verifySourceUnchanged git world source receipt
  let files ← verifyCheckout git world checkout receipt
  let sourceFiles ← git.files (world source)
  let before ← git.checkpoint (world checkout)
  let patch ← git.diff (world checkout) receipt.baseCommit sourceFiles files
  raiseIf (maxPatchBytes < patch.length) (.value "Delivery patch exceeds its byte limit")
  return (patch, { receipt with
    checkoutCheckpoint := some before, patchSha256 := some (git.sha256 patch) })

/-- What `apply_delivery` returns. -/
structure Applied where
  patchSha256 : String
  checkpoint : Checkpoint
  deriving DecidableEq

/-- `apply_delivery` up to the `git apply` that changes the source. -/
def applyChecked (source : String) (patch : Patch) (receipt : Receipt) : Except PyError Tree := do
  raiseIf (maxPatchBytes < patch.length) (.value "Delivery patch exceeds its byte limit")
  raiseIf (receipt.patchSha256 ≠ some (git.sha256 patch))
    (.value "Delivery patch does not match its receipt")
  verifySourceUnchanged git world source receipt
  let _ ← verifyCheckout git world receipt.checkout receipt
  let current ← git.checkpoint (world receipt.checkout)
  raiseIf (some current ≠ receipt.checkoutCheckpoint)
    (.value "Checkout changed after its patch was built")
  raiseIf (patch = []) (.value "Delivery patch has no changes")
  let built ← buildPatch git world source receipt.checkout receipt
  raiseIf (built.1 ≠ patch) (.value "Delivery patch does not match the current checkout")
  let (names, changed) ← git.patched (world source) receipt.baseCommit patch
  raiseIf (∃ name ∈ names, git.isProtected receipt.protectedPatterns name ∧
      name ∉ receipt.protectedManifest.map Prod.fst)
    (.value "Delivery patch adds protected tests or configuration")
  raiseIf (∃ name ∈ changed, git.isProtected receipt.protectedPatterns name)
    (.value "Delivery patch changes protected tests or configuration")
  git.applyPatch (world source) patch

/-- `apply_delivery` with the files it leaves; the last checkpoint may raise after the patch. -/
def applyDelivery (source : String) (patch : Patch) (receipt : Receipt) :
    Except PyError Applied × (String → Tree) :=
  match applyChecked git world source patch receipt with
  | .error e => (.error e, world)
  | .ok tree =>
    ((git.checkpoint tree).map fun checkpoint => ⟨git.sha256 patch, checkpoint⟩,
      Function.update world source tree)

end Patches

/-! ## The facts of a delivery -/

/-- What is asked of `execute`; a workspace is known by its path. -/
structure Request where
  action : Action
  deliveryId : String
  target : String
  name : Option String := none
  goal : Option String := none
  checks : List String := []
  maxRounds : ℕ := 3
  protectedPatterns : List String := []
  deriving DecidableEq

/-- The payload of `delivery.operation_accepted`. -/
structure Accepted extends Request where
  patchSha256 : Option String
  deriving DecidableEq

/-- The execution binding of a `run.admitted` intent. -/
structure Binding where
  operation : Action
  deliveryId : String
  workspaceId : String
  deriving DecidableEq

structure Prepared where
  deliveryId : String
  workspaceId : String
  name : String
  receipt : Receipt
  deriving DecidableEq

structure CheckResult where
  callId : String
  content : String
  isError : Bool
  exitCode : Option ℤ
  outcomeUnknown : Bool
  deriving DecidableEq

inductive VerifiedStatus where
  | passed | failed
  deriving DecidableEq

structure Verified where
  deliveryId : String
  status : VerifiedStatus
  receipt : Receipt
  patchSha256 : String
  checks : List CheckResult
  deriving DecidableEq

/-- The payload of `delivery.repair_started`. -/
structure Contract where
  deliveryId : String
  controlRunId : String
  checks : List String
  maxRounds : ℕ
  initialPatchSha256 : String
  deriving DecidableEq

structure Round where
  deliveryId : String
  round : ℕ
  workerRunId : String
  patchSha256 : String
  status : VerifiedStatus
  checks : List CheckResult
  deriving DecidableEq

inductive RepairReason where
  | passed | unknownToolOutcome | writerStopped | noSourceProgress | repeatedAcceptanceFailure
  | roundLimit | deliveryClosed | deliveryOwnerStopped | deliveryTimeLimit | deliveryTokenLimit
  | deliveryStepLimit | repairFailed | cancelled
  deriving DecidableEq

structure RepairResult where
  deliveryId : String
  controlRunId : String
  reason : RepairReason
  verifiedCandidates : ℕ
  deriving DecidableEq

inductive RunEnd where
  | completed | failed | interrupted
  deriving DecidableEq

inductive Fact where
  | runAdmitted (binding : Binding)
  | runStarted (deliveryId : String) (action : Action)
  | runEnded (status : RunEnd)
  | operationAccepted (accepted : Accepted)
  | requested (deliveryId : String) (action : Action)
  | prepared (prepared : Prepared)
  | workerFinished (deliveryId workerRunId : String)
  | verified (verified : Verified)
  | repairStarted (contract : Contract)
  | roundStarted (deliveryId : String) (round : ℕ)
  | roundFinished (round : Round)
  | repairFinished (result : RepairResult)
  | applied (deliveryId : String) (result : Applied)
  deriving DecidableEq

structure Event where
  runId : String
  fact : Fact
  deriving DecidableEq

namespace Fact

/-- The `delivery_id` of a fact whose type starts with `delivery.`. -/
def deliveryId? : Fact → Option String
  | runAdmitted _ | runStarted _ _ | runEnded _ => none
  | operationAccepted a => some a.deliveryId
  | requested d _ | workerFinished d _ | roundStarted d _ | applied d _ => some d
  | prepared p => some p.deliveryId
  | verified v => some v.deliveryId
  | repairStarted c => some c.deliveryId
  | roundFinished r => some r.deliveryId
  | repairFinished f => some f.deliveryId

def accepted? : Fact → Option Accepted
  | operationAccepted a => some a
  | _ => none

def binding? : Fact → Option Binding
  | runAdmitted b => some b
  | _ => none

def prepared? : Fact → Option Prepared
  | prepared p => some p
  | _ => none

def verified? : Fact → Option Verified
  | verified v => some v
  | _ => none

def repairStarted? : Fact → Option Contract
  | repairStarted c => some c
  | _ => none

def repairFinished? : Fact → Option RepairResult
  | repairFinished f => some f
  | _ => none

def round? : Fact → Option Round
  | roundFinished r => some r
  | _ => none

def applied? : Fact → Option Applied
  | applied _ result => some result
  | _ => none

def isEnd : Fact → Bool
  | runEnded _ => true
  | _ => false

end Fact

/-- `delivery_facts`. -/
def deliveryFacts (log : List Event) (deliveryId : String) : List Fact :=
  (log.map Event.fact).filter fun fact => fact.deliveryId? = some deliveryId

def runEvents (log : List Event) (runId : String) : List Fact :=
  (log.filter fun event => event.runId = runId).map Event.fact

def runIsTerminal (log : List Event) (runId : String) : Bool := (runEvents log runId).any Fact.isEnd

/-! ## Loading a delivery -/

inductive RepairStatus where
  | passed | stopped | running | interrupted
  deriving DecidableEq

/-- The dictionary that `load` returns. -/
structure Loaded where
  prepared : Prepared
  repair : Option Contract
  repairResult : Option RepairResult
  repairStatus : Option RepairStatus
  rounds : List Round
  verification : Option Verified
  applied : Bool
  deriving DecidableEq

def isHex (c : Char) : Bool := c.isDigit || ('a' ≤ c && c ≤ 'f')

/-- `delivery_[a-f0-9]{16}`. -/
def validDeliveryId (deliveryId : String) : Bool :=
  deliveryId.toList.take 9 = "delivery_".toList && (deliveryId.toList.drop 9).length = 16 &&
    (deliveryId.toList.drop 9).all isHex

/-- `[a-f0-9]{64}`. -/
def validPatchHash (hash : String) : Bool := hash.length = 64 && hash.toList.all isHex

/-- The status `load` gives a repair: its owner run is alive while it has no terminal fact. -/
def repairStatus (log : List Event) (contract : Contract) : Option RepairResult → RepairStatus
  | some finished => if finished.reason = .passed then .passed else .stopped
  | none =>
    if runEvents log contract.controlRunId ≠ [] ∧ ¬ runIsTerminal log contract.controlRunId then
      .running
    else .interrupted

def load (log : List Event) (deliveryId : String) : Except PyError Loaded := do
  raiseIf (¬ validDeliveryId deliveryId) (.value "Invalid delivery identity")
  let facts := deliveryFacts log deliveryId
  let prepared ← (facts.findSome? Fact.prepared?).elim (.error (.value "Delivery not found")) .ok
  let verified := facts.reverse.findSome? Fact.verified?
  let repair := facts.findSome? Fact.repairStarted?
  let finished := facts.reverse.findSome? Fact.repairFinished?
  return {
    prepared, repair, repairResult := finished
    repairStatus := repair.map fun contract => repairStatus log contract finished
    rounds := facts.filterMap Fact.round?
    verification := verified
    applied := facts.any fun fact => fact.applied?.isSome }

end Delivery

end Eventide
