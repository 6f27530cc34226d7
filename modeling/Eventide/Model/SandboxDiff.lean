import Mathlib.Data.String.Basic
import Eventide.Library.GitApply
import Eventide.Library.Outcome
import Eventide.Model.StoreCalls

/-! # Exporting a sandbox as a patch -/

namespace Eventide

open Outcome RuntimeStore UnifiedDiff GitApply

namespace Sandbox

def maxSandboxEntries : ℕ := 50000

def maxSnapshotFiles : ℕ := 2000

def maxSnapshotBytes : ℕ := 10 * 1024 * 1024

def maxSourceBytes : ℕ := 1024 * 1024

def maxPatchBytes : ℕ := 2 * 1024 * 1024

def utf8Length (chars : List Char) : ℕ := (chars.map Char.utf8Size).sum

/-- `len(raw)`. -/
def byteLength : Content → ℕ
  | .text chars => utf8Length chars
  | .binary bytes => bytes.length

/-! ## Scanning a tree -/

/-- What a directory holds, in the order of `sorted(os.listdir(directory))`. -/
inductive Node where
  | directory (entries : List (String × Node))
  | file (raw : Content) (links : ℕ)
  | other

/-- `part.lower()`, as an ASCII text compares with it: the Kelvin sign is the one character outside
ASCII that becomes a letter of it. -/
def lowerPart (part : String) : String :=
  String.ofList (part.toList.map fun c => if c.toNat = 0x212A then 'k' else c.toLower)

/-- `_excluded`, for one part of a path. -/
def excludedPart (part : String) : Bool :=
  let name := lowerPart part
  name ∈ [".git", ".eventide", ".nexus", ".ssh", ".aws", "mcp.json", "secret.key",
      "credentials.json", "credentials", "id_rsa", "id_ed25519"] ∨
    name = ".env" ∨ ".env.".toList <+: name.toList ∨
    [".pem", ".key", ".p12", ".pfx", ".keystore"].any fun ending => ending.toList <:+ name.toList

/-- The counters of a scan and the files that it has read. -/
structure Scan where
  entries : ℕ := 0
  total : ℕ := 0
  files : Dict String Content := Dict.empty

/-- `relative.as_posix()`. -/
def posix (parts : List String) : String := "/".intercalate parts

/-- The checks on a name, before its entry is looked at. -/
def Scan.enter (scan : Scan) (relative : List String) (name : String) : Except PyError Scan := do
  raiseIf (maxSandboxEntries < scan.entries + 1) (.value "Sandbox exceeds its entry limit")
  raiseIf (name.toList.any (fun c => c = '\\' ∨ c.toNat < 32) ∨ relative.any excludedPart)
    (.value "Sandbox contains a protected or unsupported path")
  return { scan with entries := scan.entries + 1 }

/-- A regular file with one link. -/
def Scan.addFile (scan : Scan) (relative : List String) (raw : Content) : Except PyError Scan := do
  raiseIf (maxSnapshotFiles ≤ scan.files.entries.length) (.value "Sandbox exceeds its file limit")
  raiseIf (maxSourceBytes < byteLength raw ∨ maxSnapshotBytes < scan.total + byteLength raw)
    (.value "Sandbox exceeds its byte limit")
  return { scan with
    total := scan.total + byteLength raw, files := scan.files.set (posix relative) raw }

mutual

/-- `visit`. -/
def visit (path : List String) : List (String × Node) → Scan → Except PyError Scan
  | [], scan => .ok scan
  | (name, node) :: rest, scan =>
    (scan.enter (path ++ [name]) name).bind fun scan =>
      (visitNode (path ++ [name]) node scan).bind fun scan => visit path rest scan

def visitNode (relative : List String) : Node → Scan → Except PyError Scan
  | .directory entries, scan => visit relative entries scan
  | .file raw links, scan =>
    if links = 1 then scan.addFile relative raw
    else .error (.value "Sandbox contains an unsafe resource or hardlink")
  | .other, _ => .error (.value "Sandbox contains an unsafe resource or hardlink")

end

/-- A directory opened without following links, with its device and its inode. -/
structure Root where
  identity : ℕ × ℕ
  entries : List (String × Node)

/-- `_scan_tree`. -/
def scanTree (root : Root) (expectedIdentity : Option (ℕ × ℕ) := none) :
    Except PyError (Dict String Content) := do
  raiseIf (expectedIdentity.any (root.identity ≠ ·)) (.value "Sandbox directory identity changed")
  let scan ← visit [] root.entries {}
  return scan.files

/-! ## The lines of a text -/

/-- Where `str.splitlines` ends a line. -/
def isLineBreak (c : Char) : Bool :=
  c.toNat ∈ [0x0a, 0x0b, 0x0c, 0x0d, 0x1c, 0x1d, 0x1e, 0x85, 0x2028, 0x2029]

/-- `text.splitlines(keepends=True)`. -/
def splitlines : List Char → List Line
  | [] => []
  | '\r' :: '\n' :: cs => ['\r', '\n'] :: splitlines cs
  | c :: cs =>
    if isLineBreak c then [c] :: splitlines cs
    else match splitlines cs with
      | [] => [[c]]
      | line :: rest => (c :: line) :: rest

/-! ## The patch -/

/-- `raw.decode("utf-8")`, of a content without a zero byte. -/
def decodeText : Content → Except PyError (List Char)
  | .text chars =>
    if '\x00' ∈ chars then
      .error (.value "Sandbox patch export supports UTF-8 text files only")
    else .ok chars
  | .binary _ => .error (.value "Sandbox patch export supports UTF-8 text files only")

/-- `files.get(name, b"")`. -/
def contentOf (files : Dict String Content) (name : String) : Content :=
  (files.get? name).getD (.text [])

/-- `sorted(baseline.keys() | current.keys())`. -/
def allNames (baseline current : Dict String Content) : List String :=
  (baseline.keys ++ current.keys.filter (· ∉ baseline.keys)).mergeSort (· ≤ ·)

/-- The file is the same on both sides, and is there on both or on neither. -/
def unchanged (baseline current : Dict String Content) (name : String) : Bool :=
  contentOf baseline name = contentOf current name ∧
    (baseline.contains name = current.contains name)

def changedNames (baseline current : Dict String Content) : List String :=
  (allNames baseline current).filter fun name => !unchanged baseline current name

/-- `diff --git a/name b/name`. -/
def gitLine (name : List Char) : Line :=
  "diff --git ".toList ++ ("a/".toList ++ name ++ " b/".toList ++ name ++ ['\n'])

/-- The lines of the header of an empty file. -/
def bareHeader (name : String) (created : Bool) : List Line :=
  [gitLine name.toList,
    (if created then "new file mode".toList else "deleted file mode".toList) ++ " 100644\n".toList]

/-- A line of the diff, and the line after it that says it has no newline. -/
def exportLine (line : Line) : List Line :=
  if line.getLast? = some '\n' then [line]
  else [line ++ ['\n'], "\\ No newline at end of file\n".toList]

section Diff

variable (differ : List Line → List Line → List (Hunk Line)) (baseline current : Dict String Content)

/-- The chunks that one changed file adds, in the lines that they consist of. -/
def fileChunks (name : String) : Except PyError (List (List Line)) := do
  let old ← decodeText (contentOf baseline name)
  let new ← decodeText (contentOf current name)
  raiseIf (name.toList.any fun c => isSpace c ∨ c = '"')
    (.value "Sandbox patch export does not support quoted filenames")
  if old = [] ∧ new = [] then return [bareHeader name (current.contains name)]
  else
    let fromFile := if baseline.contains name then "a/".toList ++ name.toList else "/dev/null".toList
    let toFile := if current.contains name then "b/".toList ++ name.toList else "/dev/null".toList
    return (unifiedDiff (differ (splitlines old) (splitlines new)) fromFile toFile).map exportLine

/-- `chunks` and `size`. -/
structure Export where
  chunks : List (List Line) := []
  size : ℕ := 0

def Export.push (st : Export) (chunk : List Line) : Except PyError Export := do
  let size := st.size + utf8Length chunk.flatten
  raiseIf (maxPatchBytes < size) (.value "Sandbox patch exceeds its export byte limit")
  return { chunks := st.chunks ++ [chunk], size }

/-- One turn of the loop over the names. -/
def Export.addFile (st : Export) (name : String) : Except PyError Export :=
  if unchanged baseline current name then .ok st
  else do
    let chunks ← fileChunks differ baseline current name
    chunks.foldlM Export.push st

/-- The body of `diff`, once both trees are scanned: `"".join(chunks)`. -/
def exportPatch : Except PyError (List Char) :=
  ((allNames baseline current).foldlM (Export.addFile differ baseline current) {}).map fun st =>
    st.chunks.flatten.flatten

end Diff

/-- `binding["manifest"]` with the digests of its files. -/
abbrev Manifest := Dict String String

/-- `{name: sha256} == {name: metadata["sha256"]}`. -/
def matchesManifest (sha256 : Content → String) (baseline : Dict String Content)
    (manifest : Manifest) : Bool :=
  baseline.keys.all (fun name => (baseline.get? name).map sha256 = manifest.get? name) ∧
    manifest.keys.all (· ∈ baseline.keys)

/-- `SandboxWorkspaces.diff`, once the binding has been checked: `content` and `baseline` are the
directories of the sandbox. -/
def diff (differ : List Line → List Line → List (Hunk Line)) (sha256 : Content → String)
    (content baseline : Root) (filesystemIdentity : ℕ × ℕ) (manifest : Manifest) :
    Except PyError (List Char) := do
  let current ← scanTree content (some filesystemIdentity)
  let original ← scanTree baseline
  raiseIf (¬ matchesManifest sha256 original manifest)
    (.value "Sandbox baseline no longer matches the source manifest")
  exportPatch differ original current

end Sandbox

end Eventide
