import Eventide.Library.Text
import Eventide.Model.Filesystem
import Eventide.Model.Store
import Eventide.Model.Usage

/-! # Pages of stored texts

`read_tool_result` over the event log, and `resource_text` over the files of a skill. -/

namespace Eventide

open Text (slice)

namespace ToolResults

def pageMaxChars : ℕ := 12000

/-- The acceptance evidence that a run may read. The identity of a delivery and the hash of a
patch are drawn by the program, in hexadecimal digits. -/
structure Acceptance where
  sessionId : String
  runId : String
  callIds : List String
  readerRunId : String
  deliveryId : String
  round : ℕ
  patchSha256 : String
  oneLine : '\n' ∉ deliveryId.toList ++ patchSha256.toList

/-- `origin`, of a result that is read as evidence. -/
def Acceptance.origin (a : Acceptance) : String :=
  s!"[Acceptance evidence: delivery={a.deliveryId}; round={a.round}; patch={a.patchSha256}]\n"

/-- The reply with a page of `content`. -/
def resultReply (origin : String) (content : PyStr) (offset limit : ℕ) : PyStr :=
  let total := content.length
  let start := min offset total
  let stop := min (start + limit) total
  let hint := if stop < total then s!"; next offset {stop}" else "; end of result"
  PyStr.ofString (origin ++ s!"[Tool result {start}:{stop} of {total}{hint}]\n") ++
    slice content start stop

/-- The content that `get_tool_result` returns; `pyStr` is the text of a content that is none. -/
def getToolResult (s : RuntimeStore) (pyStr : Json → String) (sessionId runId callId : String) :
    Option String :=
  (s.events.find? fun e => e.sessionId = sessionId && e.runId = some runId &&
    e.type = .toolCompleted && (e.payload.getNull "call_id").pyEq (.str callId)).map fun e =>
      match (e.payload.get? "content").getD (.str "") with
      | .str content => content
      | content => pyStr content

/-- `result`, with its `origin`: that of the session, or one that the evidence allows. -/
def findResult (s : RuntimeStore) (pyStr : Json → String) (sessionId : String)
    (acceptance : Option Acceptance) (currentRunId : Option String) (runId callId : String) :
    Option (String × String) :=
  match getToolResult s pyStr sessionId runId callId with
  | some content => some ("", content)
  | none => do
    let a ← acceptance.filter fun a =>
      currentRunId = some a.readerRunId ∧ runId = a.runId ∧ callId ∈ a.callIds
    let content ← getToolResult s pyStr a.sessionId runId callId
    return (a.origin, content)

/-- `read_tool_result`. -/
def readToolResult (s : RuntimeStore) (pyStr : Json → String) (sessionId : String)
    (acceptance : Option Acceptance) (currentRunId : Option String) (runId callId : String)
    (offset limit : Json) : PyStr :=
  match offset, limit with
  | .int offset, limit =>
    if offset < 0 then PyStr.ofString "Error: offset must be a non-negative integer"
    else match limit with
    | .int limit =>
      if limit < 1 ∨ pageMaxChars < limit then
        PyStr.ofString s!"Error: limit must be between 1 and {pageMaxChars}"
      else
        match findResult s pyStr sessionId acceptance currentRunId runId callId with
        | some (origin, content) =>
          resultReply origin (PyStr.ofString content) offset.toNat limit.toNat
        | none => PyStr.ofString "Error: tool result not found in this session"
    | _ => PyStr.ofString s!"Error: limit must be between 1 and {pageMaxChars}"
  | _, _ => PyStr.ofString "Error: offset must be a non-negative integer"

end ToolResults

namespace SkillPackages

/-- `resource_text`, of a path that `resource_path` accepts. -/
def resourceText (resources : List (String × List UInt8)) (path : String) (offset limit : Json) :
    Except PyError (List Char) :=
  match offset, limit with
  | .int offset, .int limit =>
    if offset < 0 ∨ limit < 1 ∨ 12000 < limit then
      .error (.value "Resource offset must be nonnegative and limit must be 1-12000")
    else
      match resources.find? fun resource => resource.1 = path with
      | none => .error (.value s!"Skill resource not found: {path}")
      | some (_, content) =>
        match decode content with
        | none => .error (.value "Binary Skill resources cannot be displayed as text")
        | some text =>
          let page := slice text offset.toNat (offset + limit).toNat
          let next := offset.toNat + page.length
          if next < text.length then
            .ok (page ++ s!"\n\n[Next character offset: {next}; total: {text.length}]".toList)
          else .ok page
  | _, _ => .error (.value "Resource offset must be nonnegative and limit must be 1-12000")

end SkillPackages

end Eventide
