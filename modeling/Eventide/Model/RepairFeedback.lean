import Eventide.Library.BinarySearch
import Eventide.Model.JsonText
import Eventide.Model.PyText
import Eventide.Model.Usage

/-! # The feedback of a repair round

The JSON that `execute_rounds` gives the next writer: every check of the round, with as much of
the output of the failed ones as fits. -/

namespace Eventide.RepairFeedback

/-! ## JSON texts with any characters -/

/-- A character inside a string of JSON. -/
def escape : PyChar → PyStr
  | .scalar c => PyStr.ofChars (Json.escape c)
  | .surrogate code => [.surrogate code]

/-- `json.dumps(text, ensure_ascii=False)`. -/
def dumpsStr (text : PyStr) : PyStr :=
  PyStr.ofString "\"" ++ text.flatMap escape ++ PyStr.ofString "\""

/-- The texts of the items of an array or an object, between its brackets. -/
def joined : List PyStr → PyStr
  | [] => []
  | [item] => item
  | item :: items => item ++ PyStr.ofString ", " ++ joined items

def objectText (fields : List (String × PyStr)) : PyStr :=
  PyStr.ofString "\x7b" ++
    joined (fields.map fun field =>
      PyStr.ofChars (Json.dumpsStr field.1) ++ PyStr.ofString ": " ++ field.2) ++
    PyStr.ofString "\x7d"

def arrayText (items : List PyStr) : PyStr :=
  PyStr.ofString "[" ++ joined items ++ PyStr.ofString "]"

/-! ## The checks -/

/-- One of `verification["checks"]`. -/
structure CheckResult where
  callId : Json
  isError : Bool
  metadata : Json
  content : PyStr

/-- `check["is_error"] or check["metadata"].get("exit_code") != 0`. -/
def CheckResult.failed (check : CheckResult) : Bool :=
  check.isError || !(check.metadata.getNull "exit_code").pyEq (.int 0)

/-- One of `feedback_checks`. -/
structure FeedbackCheck where
  checkIndex : ℕ
  result : CheckResult
  contentHead : PyStr
  contentTail : PyStr
  omittedChars : ℕ

/-- A check before any of its output is there. -/
def bare (checkIndex : ℕ) (result : CheckResult) : FeedbackCheck where
  checkIndex
  result
  contentHead := []
  contentTail := []
  omittedChars := result.content.length

/-- What a round tells beside its checks. -/
structure Round where
  number : ℕ
  runId : String
  patchSha256 : Json

section Text

variable (floatText : ℚ → List Char)

def jsonText (value : Json) : PyStr := PyStr.ofChars (Json.dumps floatText value)

def FeedbackCheck.text (check : FeedbackCheck) : PyStr :=
  objectText [("check_index", jsonText floatText (.int check.checkIndex)),
    ("call_id", jsonText floatText check.result.callId),
    ("status", jsonText floatText (.str (if check.result.failed then "failed" else "passed"))),
    ("is_error", jsonText floatText (.bool check.result.isError)),
    ("metadata", jsonText floatText check.result.metadata),
    ("content_head", dumpsStr check.contentHead), ("content_tail", dumpsStr check.contentTail),
    ("omitted_chars", jsonText floatText (.int check.omittedChars))]

/-- `json.dumps(feedback_value, ensure_ascii=False)`. -/
def feedbackText (round : Round) (checks : List FeedbackCheck) : PyStr :=
  objectText [("round", jsonText floatText (.int round.number)),
    ("run_id", jsonText floatText (.str round.runId)),
    ("patch_sha256", jsonText floatText round.patchSha256),
    ("checks", arrayText (checks.map (FeedbackCheck.text floatText)))]

end Text

def maxFeedback : ℕ := 12000

/-! ## Fitting the output -/

/-- `parts`: the head and the tail of which `kept` characters are left. -/
def parts (content : PyStr) (kept : ℕ) : PyStr × PyStr :=
  (content.take ((kept + 1) / 2), content.drop (content.length - kept / 2))

/-- `sum(len(json.dumps(part, ensure_ascii=False)) - 2 for part in parts)`. -/
def partsSize (parts : PyStr × PyStr) : ℕ :=
  ((dumpsStr parts.1).length - 2) + ((dumpsStr parts.2).length - 2)

/-- `size <= allowance`. -/
def fits (content : PyStr) (allowance : ℤ) (kept : ℕ) : Bool :=
  partsSize (parts content kept) ≤ allowance

/-- The search for the number of characters that are kept. -/
def keptChars (content : PyStr) (allowance : ℤ) : ℕ :=
  BinarySearch.greatest (fits content allowance) 0 (min (content.length : ℤ) allowance).toNat

/-- A failed check with its share of the output. -/
def FeedbackCheck.fill (check : FeedbackCheck) (allowance : ℤ) : FeedbackCheck :=
  let content := check.result.content
  let kept := keptChars content allowance
  { check with
    contentHead := (parts content kept).1
    contentTail := (parts content kept).2
    omittedChars := content.length - kept }

variable (floatText : ℚ → List Char) (round : Round)

/-- What is left of the limit. -/
def remaining (checks : List FeedbackCheck) : ℤ :=
  maxFeedback - (feedbackText floatText round checks).length

/-- The loop over the failed checks, `filled` being behind it. Each check comes with the allowance
that it was given. -/
def fillChecks (filled : List (FeedbackCheck × Option ℤ)) :
    List FeedbackCheck → List (FeedbackCheck × Option ℤ)
  | [] => filled
  | check :: checks =>
    if check.result.failed then
      let allowance := remaining floatText round (filled.map Prod.fst ++ check :: checks) /
        ((checks.filter fun other => other.result.failed).length + 1 : ℕ)
      fillChecks (filled ++ [(check.fill allowance, some allowance)]) checks
    else fillChecks (filled ++ [(check, none)]) checks

/-- `feedback_checks`, before the loop. -/
def bareChecks (results : List CheckResult) : List FeedbackCheck :=
  results.zipIdx.map fun (result, index) => bare (index + 1) result

/-- `feedback_checks`, with the allowances. -/
def feedbackChecks (results : List CheckResult) : List (FeedbackCheck × Option ℤ) :=
  fillChecks floatText round [] (bareChecks results)

/-- `feedback`. -/
def feedback (results : List CheckResult) : PyStr :=
  feedbackText floatText round ((feedbackChecks floatText round results).map Prod.fst)

end Eventide.RepairFeedback
