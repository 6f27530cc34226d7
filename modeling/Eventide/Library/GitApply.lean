import Eventide.Library.Reading
import Eventide.Library.UnifiedDiff

/-! # Applying a patch

The reading of a patch by `git apply`: lines end at a newline character and nowhere else, a
`diff --git` header owns the `---` and `+++` lines up to its first hunk, and every hunk goes
where its header says. -/

namespace GitApply

open UnifiedDiff
open Reading (number? number?_toDigits strip? strip?_append)

/-! ## Lines -/

/-- The lines of a text, each with its newline where it has one. -/
def lines : List Char → List Line
  | [] => []
  | c :: cs =>
    if c = '\n' then [c] :: lines cs
    else match lines cs with
      | [] => [[c]]
      | line :: rest => (c :: line) :: rest

/-- A line with its newline. -/
def Terminated (line : Line) : Prop := ∃ front, line = front ++ ['\n'] ∧ '\n' ∉ front

section Lines

variable {text : List Char} {line : Line} {front : List Char} {ls : List Line}

theorem lines_front (hf : '\n' ∉ front) :
    lines (front ++ '\n' :: text) = (front ++ ['\n']) :: lines text := by
  induction front with
  | nil => simp [lines]
  | cons c cs ih =>
    simp only [List.mem_cons, not_or] at hf
    rw [List.cons_append, lines, if_neg (Ne.symm hf.1), ih hf.2]
    rfl

/-- Joining lines that end at their newlines loses none of them. -/
theorem lines_flatten (h : ∀ line ∈ ls, Terminated line) : lines ls.flatten = ls := by
  induction ls with
  | nil => rfl
  | cons line ls ih =>
    obtain ⟨front, rfl, hf⟩ := h line (by simp)
    rw [List.flatten_cons, List.append_assoc, List.singleton_append, lines_front hf,
      ih fun l hl => h l (by simp [hl])]

end Lines

/-- The content of a file: a text, or bytes that no text has. -/
inductive Content where
  | text (chars : List Char)
  | binary (bytes : List UInt8)
  deriving DecidableEq

abbrev Name := List Char

abbrev Tree := Name → Option Content

def Tree.set (tree : Tree) (name : Name) (content : Option Content) : Tree :=
  fun other => if other = name then content else tree other

/-! ## Reading a patch -/

/-- What a patch does to one file: `old` is `none` for a new file, `new` for a deleted one. -/
structure FilePatch where
  old : Option Name
  new : Option Name
  hunks : List (Hunk Line) := []

/-- Where the reader stands. -/
inductive Current where
  /-- Before any file. -/
  | top
  /-- After `diff --git`; `created` tells a new file from a deleted one. -/
  | header (name : Name) (created : Option Bool)
  /-- After `---`. -/
  | minus (owner : Option (Name × Option Bool)) (old : Option Name)
  /-- After `+++`: a hunk must follow. -/
  | names (file : FilePatch)
  /-- Inside a hunk, with the old and the new lines that its header still promises. -/
  | body (file : FilePatch) (hunk : Hunk Line) (oldLeft newLeft : ℕ)

structure Reader where
  files : List FilePatch := []
  current : Current := .top

/-- A name without its first directory. -/
def stripComponent (token : List Char) : Name := (token.dropWhile (· ≠ '/')).drop 1

/-- The name after `---` or `+++`, with `none` for `/dev/null`. -/
def fileName (rest : List Char) : Option Name :=
  let token := rest.takeWhile fun c => c ≠ '\t' ∧ c ≠ '\n'
  if token = "/dev/null".toList then none else some (stripComponent token)

/-- The name that both halves of a `diff --git` line share. -/
def headerName? (rest : List Char) : Option Name :=
  let first := stripComponent (rest.takeWhile (· ≠ ' '))
  let second := stripComponent ((rest.dropWhile (· ≠ ' ')).takeWhile (· ≠ '\n'))
  if first = second then some first else none

/-- `start` or `start,length`. -/
def range? (cs : List Char) : Option ((ℕ × ℕ) × List Char) :=
  match number? cs with
  | none => none
  | some (start, rest) =>
    match rest with
    | ',' :: rest => (number? rest).map fun p => ((start, p.1), p.2)
    | rest => some ((start, 1), rest)

/-- The index before the first line of a range; an empty range names the line before it. -/
def startIndex (range : ℕ × ℕ) : ℕ := if range.2 = 0 then range.1 else range.1 - 1

/-- The two ranges of a hunk's header. -/
def hunkHeader? (line : Line) : Option ((ℕ × ℕ) × (ℕ × ℕ)) := do
  let rest ← strip? "@@ -".toList line
  let (old, rest) ← range? rest
  let rest ← strip? " +".toList rest
  let (new, rest) ← range? rest
  let _ ← strip? " @@".toList rest
  return (old, new)

/-- Without the newline that the next line takes back. -/
def Edit.unterminated : Edit Line → Edit Line
  | .keep line => .keep line.dropLast
  | .delete line => .delete line.dropLast
  | .insert line => .insert line.dropLast

/-- `\ No newline at end of file`: the line before it has no newline. -/
def unterminateLast (h : Hunk Line) : Option (Hunk Line) :=
  h.edits.getLast?.map fun edit => { h with edits := h.edits.dropLast ++ [Edit.unterminated edit] }

/-- A file begins: with `diff --git`, or with `---` of a patch without such a header. -/
def openFile (files : List FilePatch) (line : Line) : Option Reader :=
  match strip? "diff --git ".toList line with
  | some rest => (headerName? rest).map fun name => { files, current := .header name none }
  | none => (strip? "--- ".toList line).map fun rest =>
    { files, current := .minus none (fileName rest) }

/-- The hunk with one more line. -/
def Hunk.push (h : Hunk Line) (edit : Edit Line) : Hunk Line :=
  { h with edits := h.edits ++ [edit] }

def openHunk (files : List FilePatch) (file : FilePatch) (line : Line) : Option Reader :=
  (hunkHeader? line).map fun (old, new) =>
    let h := { oldStart := startIndex old, newStart := startIndex new, edits := [] }
    { files, current := .body file h old.2 new.2 }

/-- The names that a header allows on its `---` and `+++` lines. -/
def ownedNames (name : Name) (created : Option Bool) : Option Name × Option Name :=
  (if created = some true then none else some name,
    if created = some false then none else some name)

/-- The names of a file must be those of its header, or agree with one another. -/
def agreed (owner : Option (Name × Option Bool)) (old new : Option Name) : Bool :=
  match owner with
  | some (name, created) => (old, new) = ownedNames name created
  | none => (old.isSome ∨ new.isSome) ∧ (old = none ∨ new = none ∨ old = new)

/-- The file of a header without hunks: an empty file that is new or deleted. -/
def bareFile (name : Name) (created : Option Bool) : Option FilePatch :=
  created.map fun _ => { old := (ownedNames name created).1, new := (ownedNames name created).2 }

/-- A line of a hunk: the hunk with it, and the lines that are left. -/
def bodyLine (h : Hunk Line) (oldLeft newLeft : ℕ) : Line → Option (Hunk Line × ℕ × ℕ)
  | ' ' :: text =>
    if 0 < oldLeft ∧ 0 < newLeft then some (Hunk.push h (.keep text), oldLeft - 1, newLeft - 1)
    else none
  | '-' :: text =>
    if 0 < oldLeft then some (Hunk.push h (.delete text), oldLeft - 1, newLeft) else none
  | '+' :: text =>
    if 0 < newLeft then some (Hunk.push h (.insert text), oldLeft, newLeft - 1) else none
  | _ => none

/-- The file with a hunk that is complete. -/
def FilePatch.add (file : FilePatch) (h : Hunk Line) : FilePatch :=
  { file with hunks := file.hunks ++ [h] }

def Reader.step (reader : Reader) (line : Line) : Option Reader :=
  match reader.current with
  | .top => openFile reader.files line
  | .header name created =>
    match strip? "--- ".toList line with
    | some rest =>
      some { reader with current := .minus (some (name, created)) (fileName rest) }
    | none =>
      match created with
      | none =>
        if "new file mode ".toList <+: line then
          some { reader with current := .header name (some true) }
        else if "deleted file mode ".toList <+: line then
          some { reader with current := .header name (some false) }
        else none
      | some _ => (bareFile name created).bind fun file => openFile (reader.files ++ [file]) line
  | .minus owner old =>
    (strip? "+++ ".toList line).bind fun rest =>
      if agreed owner old (fileName rest) then
        some { reader with current := .names { old, new := fileName rest } }
      else none
  | .names file => openHunk reader.files file line
  | .body file h oldLeft newLeft =>
    if line.head? = some '\\' then
      (unterminateLast h).map fun h => { reader with current := .body file h oldLeft newLeft }
    else if oldLeft = 0 ∧ newLeft = 0 then
      if "@@ ".toList <+: line then openHunk reader.files (file.add h) line
      else openFile (reader.files ++ [file.add h]) line
    else (bodyLine h oldLeft newLeft line).map fun (h, oldLeft, newLeft) =>
      { reader with current := .body file h oldLeft newLeft }

/-- The end of the patch. -/
def Reader.finish (reader : Reader) : Option (List FilePatch) :=
  match reader.current with
  | .top => some reader.files
  | .header name created => (bareFile name created).map (reader.files ++ [·])
  | .minus _ _ | .names _ => none
  | .body file h oldLeft newLeft =>
    if oldLeft = 0 ∧ newLeft = 0 then some (reader.files ++ [file.add h]) else none

def read (patch : List Char) : Option (List FilePatch) :=
  ((lines patch).foldlM Reader.step {}).bind Reader.finish

/-! ## Applying it -/

/-- A new file must not be there, a deleted one must end up empty. -/
def FilePatch.apply (file : FilePatch) (tree : Tree) : Option Tree :=
  match file.old, file.new with
  | none, some name =>
    if tree name = none then
      (applyHunks 0 [] file.hunks).map fun ls => tree.set name (some (.text ls.flatten))
    else none
  | some name, new =>
    match tree name with
    | some (.text chars) =>
      (applyHunks 0 (lines chars) file.hunks).bind fun ls =>
        if new = some name then some (tree.set name (some (.text ls.flatten)))
        else if new = none ∧ ls.flatten = [] then some (tree.set name none)
        else none
    | _ => none
  | none, none => none

/-- `git apply`. -/
def apply (patch : List Char) (tree : Tree) : Option Tree :=
  (read patch).bind fun files => files.foldlM (fun tree file => file.apply tree) tree

/-! ## Reading what was printed -/

/-- A printed range is read as its length and its start. -/
theorem range?_formatRange (start length : ℕ) (rest : List Char)
    (hr : ∃ c cs, rest = c :: cs ∧ c.isDigit = false ∧ c ≠ ',') :
    ∃ first, range? (formatRange start length ++ rest) = some ((first, length), rest) ∧
      startIndex (first, length) = start := by
  obtain ⟨c, cs, rfl, hd, hcomma⟩ := hr
  have hhead : ∀ d, (c :: cs).head? = some d → d.isDigit = false := by
    intro d he
    obtain rfl : c = d := by simpa using he
    exact hd
  have hcommaHead : ∀ tail : List Char, ∀ d, (',' :: tail).head? = some d → d.isDigit = false := by
    intro tail d he
    obtain rfl : ',' = d := by simpa using he
    decide
  by_cases h1 : length = 1
  · refine ⟨start + 1, ?_, by simp [startIndex, h1]⟩
    rw [formatRange, if_pos h1, range?, number?_toDigits _ hhead]
    simp [hcomma, h1]
  · by_cases h0 : length = 0
    · refine ⟨start, ?_, by simp [startIndex, h0]⟩
      have hzero : number? ('0' :: c :: cs) = some (0, c :: cs) := number?_toDigits 0 hhead
      have hcons : ",0".toList ++ c :: cs = ',' :: '0' :: c :: cs := rfl
      rw [formatRange, if_neg h1, if_pos h0, List.append_assoc, range?, hcons,
        number?_toDigits _ (hcommaHead _)]
      simp [hzero, h0]
    · refine ⟨start + 1, ?_, by simp [startIndex, h0]⟩
      rw [formatRange, if_neg h1, if_neg h0, List.append_assoc, range?, List.cons_append,
        number?_toDigits _ (hcommaHead _)]
      simp [number?_toDigits length hhead]

/-- A printed header is read as the hunk's own. -/
theorem hunkHeader?_header (h : Hunk Line) : ∃ old new, hunkHeader? h.header = some (old, new) ∧
    startIndex old = h.oldStart ∧ old.2 = h.old.length ∧ startIndex new = h.newStart ∧
    new.2 = h.new.length := by
  obtain ⟨first, hfirst, hstart⟩ := range?_formatRange h.oldStart h.old.length
    (" +".toList ++ (formatRange h.newStart h.new.length ++ " @@\n".toList))
    ⟨' ', _, rfl, by decide, by decide⟩
  obtain ⟨second, hsecond, hnext⟩ := range?_formatRange h.newStart h.new.length " @@\n".toList
    ⟨' ', _, rfl, by decide, by decide⟩
  refine ⟨(first, h.old.length), (second, h.new.length), ?_, hstart, rfl, hnext, rfl⟩
  have hend : strip? " @@".toList " @@\n".toList = some ['\n'] := by decide
  unfold hunkHeader? Hunk.header
  simp only [List.append_assoc, strip?_append, hfirst, hsecond, hend, Option.bind_eq_bind,
    Option.bind_some, Option.pure_def]

end GitApply
