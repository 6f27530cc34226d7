import Eventide.Library.Text
import Eventide.Model.StoreCalls

/-! # Chunks of a document

`rag/chunker.py` without source parsers: sections of a Markdown text by its headings, any other
text as one section, and windows over each section. -/

namespace Eventide.Chunker

open Text

def minChunkChars : ℕ := 600

def maxChunkChars : ℕ := 800

def overlapChars : ℕ := 100

structure Chunk where
  file : String
  startLine : ℕ
  endLine : ℕ
  heading : String
  text : List Char

/-- `not text.strip()`. -/
def isBlank (text : List Char) : Bool := text.all RuntimeStore.isSpace

/-! ## Lines -/

/-- The places after a newline that are at least `offset` into the text, which starts there. -/
def startsFrom (offset : ℕ) : List Char → List ℕ
  | [] => []
  | c :: cs => if c = '\n' then (offset + 1) :: startsFrom (offset + 1) cs
    else startsFrom (offset + 1) cs

/-- `_line_starts`. -/
def lineStarts (text : List Char) : List ℕ := 0 :: startsFrom 0 text

/-- `_line_number`. -/
def lineNumber (starts : List ℕ) (offset : ℕ) : ℕ := bisectRight starts offset

/-! ## Windows -/

/-- `_preferred_end`. -/
def preferredEnd (text : List Char) (start : ℕ) : ℕ :=
  let limit := min (start + maxChunkChars) text.length
  if limit = text.length then limit
  else
    let minimum := min (start + minChunkChars) limit
    match rfind ['\n', '\n'] text minimum limit with
    | some blank => blank + 2
    | none =>
      match rfind ['\n'] text minimum limit with
      | some newline => newline + 1
      | none => limit

/-- `_overlap_start`. -/
def overlapStart (text : List Char) (start stop : ℕ) : ℕ :=
  let desired := max (start + 1) (stop - overlapChars)
  let candidate := match rfind ['\n'] text start desired with
    | some newline => newline + 1
    | none => desired
  min (if candidate ≤ start then desired else candidate) stop

/-- `end` of the window at a cursor. -/
def windowEnd (text : List Char) (sectionEnd cursor : ℕ) : ℕ :=
  cursor + preferredEnd (slice text cursor sectionEnd) 0

/-- The cursor after a window. -/
def nextCursor (text : List Char) (sectionEnd cursor : ℕ) : ℕ :=
  let stop := windowEnd text sectionEnd cursor
  let next := cursor + overlapStart (slice text cursor sectionEnd) 0 (stop - cursor)
  if next ≤ cursor then stop else next

theorem preferredEnd_pos {text : List Char} (h : 0 < text.length) : 0 < preferredEnd text 0 := by
  unfold preferredEnd
  dsimp only
  split
  · simp only [maxChunkChars]
    omega
  · split
    · omega
    · split
      · omega
      · simp only [maxChunkChars]
        omega

theorem lt_nextCursor {text : List Char} {sectionEnd cursor : ℕ}
    (h : cursor < min sectionEnd text.length) : cursor < nextCursor text sectionEnd cursor := by
  have hlocal : 0 < (slice text cursor sectionEnd).length := by
    rw [length_slice]
    omega
  have hend := preferredEnd_pos hlocal
  unfold nextCursor windowEnd
  dsimp only
  split
  · omega
  · omega

/-- The windows of a section from a cursor on. The source takes every section inside the text;
the bound by its length is what makes the walk end for any other. -/
def windows (text : List Char) (sectionEnd cursor : ℕ) : List (ℕ × ℕ) :=
  if cursor < min sectionEnd text.length then
    let stop := windowEnd text sectionEnd cursor
    -- A blank window ends the section.
    if isBlank (slice text cursor stop) then []
    else if sectionEnd ≤ stop then [(cursor, stop)]
    else (cursor, stop) :: windows text sectionEnd (nextCursor text sectionEnd cursor)
  else []
termination_by sectionEnd - cursor
decreasing_by
  have := @lt_nextCursor text sectionEnd cursor (by assumption)
  omega

/-- The chunk of a window. -/
def chunkOf (file : String) (text : List Char) (starts : List ℕ) (heading : String)
    (window : ℕ × ℕ) : Chunk where
  file := file
  startLine := lineNumber starts window.1
  endLine := lineNumber starts (max window.1 (window.2 - 1))
  heading := heading
  text := slice text window.1 window.2

/-! ## Markdown -/

structure Section where
  start : ℕ
  stop : ℕ
  heading : String

/-- Where `str.splitlines` breaks: after every line end, and not inside `\r\n`. -/
def endsLine (c : Char) (rest : List Char) : Bool :=
  c.toNat ∈ [0x0a, 0x0b, 0x0c, 0x0d, 0x1c, 0x1d, 0x1e, 0x85, 0x2028, 0x2029] ∧
    ¬ (c = '\r' ∧ rest.head? = some '\n')

/-- `line.rstrip("\r\n")`. -/
def bareLine (line : List Char) : List Char :=
  (line.reverse.dropWhile fun c => c = '\r' || c = '\n').reverse

def isTab (c : Char) : Bool := c = ' ' || c = '\t'

/-- The marker of `_FENCE`. -/
def fenceMarker? (bare : List Char) : Option Char :=
  match bare.dropWhile isTab with
  | a :: b :: c :: _ =>
    if a.toNat ∈ [0x60, 0x7e] ∧ b = a ∧ c = a then some a else none
  | _ => none

/-- `[ \t]*#*[ \t]*$`. -/
def closesHeading (rest : List Char) : Bool :=
  ((rest.dropWhile isTab).dropWhile (· = '#')).all isTab

/-- The shortest nonempty part that the rest closes. -/
def headingTitle : List Char → List Char
  | [] => []
  | c :: cs => if closesHeading cs then [c] else c :: headingTitle cs

/-- The level and the title of `_HEADING`. The blanks after the marks give one back where nothing
else is left for the title. -/
def heading? (bare : List Char) : Option (ℕ × List Char) :=
  let level := (bare.takeWhile (· = '#')).length
  let rest := bare.dropWhile (· = '#')
  let blanks := rest.takeWhile isTab
  let title := rest.dropWhile isTab
  if level = 0 ∨ 3 < level ∨ blanks = [] then none
  else if title ≠ [] then some (level, headingTitle title)
  else if 1 < blanks.length then some (level, [blanks.getLastD ' '])
  else none

/-- The local variables of `_markdown_sections`. -/
structure Outline where
  sections : List Section := []
  headings : List String := ["", "", ""]
  sectionStart : ℕ := 0
  sectionHeading : String := ""
  offset : ℕ := 0
  fence : Option Char := none

def nextFence (fence : Option Char) (bare : List Char) : Option Char :=
  match fenceMarker? bare with
  | none => fence
  | some marker =>
    if fence.isNone then some marker else if fence = some marker then none else fence

/-- The headings after one of a level. -/
def setHeading (headings : List String) (level : ℕ) (title : String) : List String :=
  (headings.take (level - 1) ++ [title]) ++ List.replicate (headings.length - level) ""

/-- The section that ends at the offset, unless it is blank. -/
def closeSection (text : List Char) (outline : Outline) : List Section :=
  if outline.sectionStart < outline.offset ∧
      ¬ isBlank (slice text outline.sectionStart outline.offset) = true then
    outline.sections ++
      [{ start := outline.sectionStart, stop := outline.offset, heading := outline.sectionHeading }]
  else outline.sections

/-- One line of the loop. -/
def addLine (text : List Char) (outline : Outline) (line : List Char) : Outline :=
  let bare := bareLine line
  let fence := nextFence outline.fence bare
  let found := if fence.isSome then none else heading? bare
  match found with
  | none => { outline with fence, offset := outline.offset + line.length }
  | some (level, title) =>
    let headings := setHeading outline.headings level
      (RuntimeStore.strip (String.ofList title))
    { sections := closeSection text outline
      headings
      sectionStart := outline.offset
      sectionHeading := " > ".intercalate (headings.filter (· ≠ ""))
      offset := outline.offset + line.length
      fence }

/-- `_markdown_sections`. -/
def markdownSections (text : List Char) : List Section :=
  closeSection text ((splitLines endsLine text).foldl (addLine text) {})

/-! ## chunk_document -/

/-- `text.replace("\r\n", "\n").replace("\r", "\n")`. -/
def normalizeNewlines : List Char → List Char
  | [] => []
  | [c] => [if c = '\r' then '\n' else c]
  | c :: d :: cs =>
    if c = '\r' then
      '\n' :: (if d = '\n' then normalizeNewlines cs else normalizeNewlines (d :: cs))
    else c :: normalizeNewlines (d :: cs)

/-- `PurePosixPath(file).as_posix()`. -/
def asPosix (file : String) : String :=
  let parts := ((file.toList.splitOn '/').map String.ofList).filter fun part =>
    part ≠ "" && part ≠ "."
  let root := if file.startsWith "//" && !file.startsWith "///" then "//"
    else if file.startsWith "/" then "/" else ""
  let path := root ++ "/".intercalate parts
  if path = "" then "." else path

/-- `PurePosixPath(path).suffix`. -/
def suffix (path : String) : List Char :=
  let name := (pathName path).toList
  let tail := name.reverse.takeWhile (· ≠ '.')
  if tail.length + 1 < name.length ∧ tail ≠ [] then '.' :: tail.reverse else []

/-- `PurePosixPath(relative).suffix.lower() == ".md"`. -/
def isMarkdown (path : String) : Bool := (suffix path).map Char.toLower = ".md".toList

def wholeText (text : List Char) : List Section := [{ start := 0, stop := text.length, heading := "" }]

/-- The sections of a normalized text; no source parser is asked. -/
def sections (path : String) (text : List Char) : List Section :=
  if isMarkdown path then markdownSections text else wholeText text

/-- `chunk_document` without `code_structure`. -/
def chunkDocument (file : String) (text : List Char) : List Chunk :=
  let normalized := normalizeNewlines text
  if isBlank normalized then []
  else
    let path := asPosix file
    let starts := lineStarts normalized
    (sections path normalized).flatMap fun part =>
      (windows normalized part.stop part.start).map (chunkOf path normalized starts part.heading)

end Eventide.Chunker
