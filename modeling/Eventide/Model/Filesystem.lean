import Eventide.Library.Replace
import Eventide.Model.Chunker
import Eventide.Model.PyText
import Eventide.Model.SandboxDiff

/-! # File tools

`tools/filesystem.py`, over the bytes of the file that a path leads to. -/

namespace Eventide

open Chunker (normalizeNewlines)

namespace Filesystem

/-- What a file tool raises or refuses. The texts of the codec errors are left to Python. -/
inductive FileError where
  | notFound (path : String)
  | decode
  | encode
  | limit
  deriving DecidableEq, Repr

/-- `file_path.read_text(encoding="utf-8")`: every line ending is read as a newline. -/
def readText (raw : List UInt8) : Except FileError (List Char) :=
  match decode raw with
  | some text => .ok (normalizeNewlines text)
  | none => .error .decode

/-- `file_path.write_text(content, encoding="utf-8")`: the file is truncated when it is opened,
before the content is encoded. -/
def writeText (content : PyStr) : Except FileError Unit × List UInt8 :=
  match encode content with
  | some raw => (.ok (), raw)
  | none => (.error .encode, [])

/-- `run_edit`: its reply and the bytes of the file after it. -/
def runEdit (path : String) (oldText newText : PyStr) (raw : List UInt8) :
    Except FileError String × List UInt8 :=
  match readText raw with
  | .error error => (.error error, raw)
  | .ok text =>
    if oldText <:+: PyStr.ofChars text then
      let written := writeText (Text.replaceFirst oldText newText (PyStr.ofChars text))
      (written.1.map fun _ => s!"Edited {path}", written.2)
    else (.error (.notFound path), raw)

/-! ## Reading by pages -/

def readPageChars : ℕ := 10000

/-- `text.splitlines()`. -/
def lines : List Char → List (List Char)
  | [] => []
  | '\r' :: '\n' :: cs => [] :: lines cs
  | c :: cs =>
    if Sandbox.isLineBreak c then [] :: lines cs
    else match lines cs with
      | [] => [[c]]
      | line :: rest => (c :: line) :: rest

/-- `[f"{number}: {line}" for …]`, from a zero-based line on. -/
def numbered (start : ℕ) (lines : List (List Char)) : List (List Char) :=
  (lines.zipIdx (start + 1)).map fun (line, number) => s!"{number}: ".toList ++ line

/-- The loop of `_page`. -/
def keepLines (budget : ℕ) (kept : List (List Char)) (used : ℕ) :
    List (List Char) → List (List Char)
  | [] => kept
  | line :: lines =>
    if kept ≠ [] ∧ budget < used + (line.length + 1) then kept
    else keepLines budget (kept ++ [line]) (used + (line.length + 1)) lines

/-- `remaining[:limit]`. -/
def sliceTo (limit : ℤ) (remaining : List (List Char)) : List (List Char) :=
  if 0 ≤ limit then remaining.take limit.toNat
  else remaining.take (remaining.length + limit).toNat

/-- `page`, of `run_read`: `remaining[: int(limit)]`, or what `_page` keeps. -/
def hostPage (limit : Option ℤ) (remaining : List (List Char)) : List (List Char) :=
  match limit with
  | some limit => sliceTo limit remaining
  | none => keepLines readPageChars [] 0 remaining

/-- `run_read`, of the text that it has read. -/
def readReply (path : String) (limit : Option ℤ) (offset : ℤ) (text : List Char) : List Char :=
  let lines := lines text
  let total := lines.length
  let start := offset.toNat
  if 0 < total ∧ total ≤ start then
    s!"[{path} — {total} lines total; offset {start} is past the end]".toList
  else
    let remaining := numbered start (lines.drop start)
    let page := hostPage limit remaining
    let cut := remaining.length - page.length
    let body := ['\n'].intercalate page
    if cut = 0 ∧ start = 0 then body
    else
      let stop := start + page.length
      let shown := if page = [] then "no lines returned" else s!"showing lines {start + 1}-{stop}"
      let hint := if cut = 0 then "end of file" else s!"continue with offset={stop}"
      let header := s!"[{path} — {total} lines total; {shown}; {hint}]".toList
      let footer := if cut = 0 then [] else s!"... ({cut} more lines)".toList
      ['\n'].intercalate ([header, body, footer].filter (· ≠ []))

/-- `run_read`. -/
def runRead (path : String) (limit : Option ℤ) (offset : ℤ) (raw : List UInt8) :
    Except FileError (List Char) :=
  (readText raw).map (readReply path limit offset)

end Filesystem

namespace SandboxFiles

open Filesystem (FileError)

def maxFile : ℕ := 1048576

def maxTotal : ℕ := 10485760

/-- `scan` and `read_at`, of a file beside others that have `others` bytes. -/
def readAt (others : ℕ) (raw : List UInt8) : Except FileError (List UInt8) :=
  if maxFile < raw.length ∨ maxTotal < others + raw.length then .error .limit else .ok raw

/-- The bytes that `write_file` and `edit_file` write. -/
def writeRaw (others : ℕ) (content : PyStr) : Except FileError (List UInt8) :=
  match encode content with
  | some raw =>
    if maxFile < raw.length ∨ maxTotal < others + raw.length then .error .limit else .ok raw
  | none => .error .encode

/-- `edit_file` of the container: its reply and the bytes of the file after it. -/
def editFile (others : ℕ) (path : String) (oldText newText : PyStr) (raw : List UInt8) :
    Except FileError String × List UInt8 :=
  match readAt others raw with
  | .error error => (.error error, raw)
  | .ok raw =>
    match decode raw with
    | none => (.error .decode, raw)
    | some text =>
      if oldText <:+: PyStr.ofChars text then
        match writeRaw others (Text.replaceFirst oldText newText (PyStr.ofChars text)) with
        | .ok written => (.ok s!"Edited {path}", written)
        | .error error => (.error error, raw)
      else (.error (.notFound path), raw)

/-- The loop of `read_page`. -/
def keepPage (limit : Option ℤ) (page : List (List Char)) (used : ℕ) :
    List (List Char) → List (List Char)
  | [] => page
  | line :: lines =>
    if limit.any fun limit => limit ≤ (page.length : ℤ) then page
    else if limit = none ∧ page ≠ [] ∧ 10000 < used + line.length + 1 then page
    else keepPage limit (page ++ [line]) (used + line.length + 1) lines

/-- `read_page` of the container. -/
def readPage (text : List Char) (path : String) (offset : ℤ) (limit : Option ℤ) : List Char :=
  let lines := Filesystem.lines text
  let total := lines.length
  let start := offset.toNat
  if 0 < total ∧ total ≤ start then
    s!"[{path} — {total} lines total; offset {start} is past the end]".toList
  else
    let remaining := Filesystem.numbered start (lines.drop start)
    let page := keepPage limit [] 0 remaining
    let cut := remaining.length - page.length
    let body := ['\n'].intercalate page
    if cut = 0 ∧ start = 0 then body
    else
      let stop := start + page.length
      let shown := if page = [] then "no lines returned" else s!"showing lines {start + 1}-{stop}"
      let hint := if cut = 0 then "end of file" else s!"continue with offset={stop}"
      let header := s!"[{path} — {total} lines total; {shown}; {hint}]".toList
      let footer := if cut = 0 then [] else s!"... ({cut} more lines)".toList
      ['\n'].intercalate ([header, body, footer].filter (· ≠ []))

/-- `read_file` of the container. -/
def readFile (others : ℕ) (path : String) (limit : Option ℤ) (offset : ℤ) (raw : List UInt8) :
    Except FileError (List Char) :=
  match readAt others raw with
  | .error error => .error error
  | .ok raw =>
    match decode raw with
    | none => .error .decode
    | some text => .ok (readPage text path offset limit)

end SandboxFiles

end Eventide
