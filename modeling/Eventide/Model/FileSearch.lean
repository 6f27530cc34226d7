import Eventide.Library.Glob
import Eventide.Library.Outcome
import Eventide.Library.Text
import Eventide.Model.Filesystem
import Mathlib.Data.List.Sort

/-! # Searching files

`_search_paths` over a directory tree with symbolic links, and `run_search_text` over the files
that it finds. -/

namespace Eventide

namespace FileSearch

def searchFileBytes : ℕ := 1048576

def searchScanBytes : ℕ := 10 * searchFileBytes

def searchScanFiles : ℕ := 2000

/-! ## A directory tree -/

/-- What a name of a directory stands for. -/
inductive Entry (L : Type) where
  | file (raw : List UInt8)
  | directory (entries : List (PyStr × Entry L))
  | symlink (link : L)
  | other

abbrev Entries (L : Type) := List (PyStr × Entry L)

variable {L : Type}

mutual

/-- No directory has a name twice. -/
def Entry.Distinct : Entry L → Prop
  | .directory entries => DistinctEntries entries
  | _ => True

def DistinctEntries : Entries L → Prop
  | [] => True
  | (name, entry) :: entries =>
    (∀ other ∈ entries, other.1 ≠ name) ∧ entry.Distinct ∧ DistinctEntries entries

end

/-- A base directory, and what its links resolve to. -/
structure Tree (L : Type) where
  base : Entries L
  resolve : L → Option (Entry L)
  distinct : DistinctEntries base
  distinct_resolve : ∀ link entry, resolve link = some entry → entry.Distinct

/-- The entry behind a link, or the entry itself. -/
def Tree.follow (tree : Tree L) : Entry L → Option (Entry L)
  | .symlink link => tree.resolve link
  | entry => some entry

/-- `base.joinpath(*parts)`, as `is_file` and `is_dir` see it. -/
def Tree.resolveFrom (tree : Tree L) : Entry L → List PyStr → Option (Entry L)
  | entry, [] => some entry
  | .directory entries, name :: parts =>
    ((entries.lookup name).bind tree.follow).bind fun entry => tree.resolveFrom entry parts
  | _, _ :: _ => none

/-! ## Patterns -/

def codes (text : PyStr) : List ℕ := text.map PyChar.code

/-- `fnmatchcase(name, part)`. -/
def fnmatchcase (name part : PyStr) : Bool := Glob.fnmatch (codes part) (codes name)

/-- `any(char in part for char in "*?[")`. -/
def wild (part : PyStr) : Bool := (codes part).any fun c => !decide (Glob.plain c)

/-- `name.startswith(".")`. -/
def hidden (name : PyStr) : Bool := name.head? = some (.scalar '.')

def anyDepth : PyStr := PyStr.ofString "**"

/-- `matches` of `_search_paths`, on what is left of the pattern and of the path. -/
def hostMatches : List PyStr → List PyStr → Bool
  | [], relative => relative.isEmpty
  | part :: parts, [] => if part = anyDepth then hostMatches parts [] else false
  | part :: parts, name :: relative =>
    if part = anyDepth then
      hostMatches parts (name :: relative) ||
        (!hidden name && hostMatches (part :: parts) relative)
    else (!hidden name || hidden part) && fnmatchcase name part && hostMatches parts relative
termination_by parts relative => parts.length + relative.length

/-! ## _search_paths -/

/-- The parts before the first one with a wildcard. -/
def literalPrefix (parts : List PyStr) : List PyStr := parts.takeWhile fun part => !wild part

/-- A directory that is still to be scanned. -/
structure Pending (L : Type) where
  path : List PyStr
  entries : Entries L

/-- `entries`, sorted for the walk. -/
def sorted (entries : Entries L) : Entries L :=
  entries.insertionSort fun a b => codes b.1 ≤ codes a.1

variable (parts : List PyStr) in
/-- One entry of a directory. -/
def visitEntry (path : List PyStr) (state : List (Pending L) × List (List PyStr))
    (entry : PyStr × Entry L) : List (Pending L) × List (List PyStr) :=
  let (name, entry) := entry
  match entry with
  | .symlink _ => state
  | .directory entries =>
    if hidden name && !parts.any hidden then state
    else (⟨path ++ [name], entries⟩ :: state.1, state.2)
  | .file _ =>
    if hidden name && !parts.any hidden then state
    else if hostMatches parts (path ++ [name]) then (state.1, state.2 ++ [path ++ [name]])
    else state
  | .other => state

mutual

/-- The entries in a tree. -/
def Entry.count : Entry L → ℕ
  | .directory entries => countEntries entries + 1
  | _ => 1

def countEntries : Entries L → ℕ
  | [] => 0
  | (_, entry) :: entries => entry.count + countEntries entries

end

def countPending (pending : List (Pending L)) : ℕ :=
  (pending.map fun directory => countEntries directory.entries + 1).sum

theorem countEntries_eq (entries : Entries L) :
    countEntries entries = (entries.map fun entry => entry.2.count).sum := by
  induction entries with
  | nil => rfl
  | cons entry entries ih => rw [countEntries, ih, List.map_cons, List.sum_cons]

theorem countEntries_sorted (entries : Entries L) :
    countEntries (sorted entries) = countEntries entries := by
  rw [countEntries_eq, countEntries_eq]
  exact ((List.perm_insertionSort _ entries).map _).sum_eq

theorem countPending_visitEntry (parts path : List PyStr)
    (state : List (Pending L) × List (List PyStr)) (entry : PyStr × Entry L) :
    countPending (visitEntry parts path state entry).1 ≤ countPending state.1 + entry.2.count := by
  obtain ⟨name, entry⟩ := entry
  cases entry with
  | directory entries =>
    simp only [visitEntry]
    split
    · exact Nat.le_add_right _ _
    · simp only [countPending, List.map_cons, List.sum_cons, Entry.count]
      omega
  | file raw =>
    simp only [visitEntry]
    split_ifs <;> exact Nat.le_add_right _ _
  | symlink link => exact Nat.le_add_right _ _
  | other => exact Nat.le_add_right _ _

theorem countPending_foldl (parts path : List PyStr) (entries : Entries L)
    (state : List (Pending L) × List (List PyStr)) :
    countPending (entries.foldl (visitEntry parts path) state).1 ≤
      countPending state.1 + countEntries entries := by
  induction entries generalizing state with
  | nil => exact Nat.le_add_right _ _
  | cons entry entries ih =>
    have hrest := ih (visitEntry parts path state entry)
    have hfirst := countPending_visitEntry parts path state entry
    rw [countEntries]
    exact hrest.trans (by omega)

/-- The loop over the pending directories, the last one first: what is found, and whether the scan
is exhausted. -/
def walk (parts : List PyStr) : List (Pending L) → ℕ → List (List PyStr) →
    List (List PyStr) × Bool
  | [], _, found => (found, false)
  | directory :: pending, visited, found =>
    let room := searchScanFiles - visited
    let state := (sorted (directory.entries.take room)).foldl
      (visitEntry parts directory.path) (pending, found)
    if room < directory.entries.length then (state.2, true)
    else walk parts state.1 (visited + directory.entries.length) state.2
termination_by pending => countPending pending
decreasing_by
  rename_i hroom
  have hall : directory.entries.take (searchScanFiles - visited) = directory.entries :=
    List.take_of_length_le (by omega)
  have hle := countPending_foldl parts directory.path (sorted directory.entries) (pending, found)
  rw [countEntries_sorted] at hle
  rw [hall]
  simp only [countPending, List.map_cons, List.sum_cons] at hle ⊢
  omega

/-- `sorted(found)`. -/
def sortPaths (found : List (List PyStr)) : List (List PyStr) :=
  found.insertionSort fun a b => a.map codes ≤ b.map codes

/-- `_search_paths`, for the parts of a pattern. -/
def searchPaths (tree : Tree L) (parts : List PyStr) : List (List PyStr) × Bool :=
  let start := literalPrefix parts
  match tree.resolveFrom (.directory tree.base) start with
  | some (.file _) => ([start], false)
  | some (.directory entries) =>
    let result := walk parts [⟨start, entries⟩] 0 []
    (sortPaths result.1, result.2)
  | _ => ([], false)

/-! ## run_search_text -/

/-- The lines of the page so far, and how many lines matched. -/
structure Hits where
  page : List PyStr
  matched : ℕ
  usedChars : ℕ
  more : Bool
  deriving DecidableEq, Repr

/-- The counters of `run_search_text`. -/
structure SearchState where
  hits : Hits
  scanned : ℕ
  usedBytes : ℕ
  skipped : ℕ
  exhausted : Bool
  deriving DecidableEq, Repr

/-- The item of a line that contains `query`. -/
def item? (query relative : PyStr) (number : ℕ) (line : PyStr) : Option PyStr :=
  (Text.partition? query line).map fun found =>
    let position := found.1.length
    relative ++ PyStr.ofString s!":{number}: " ++
      Text.slice line (position - 60) (position + max query.length 180)

/-- A line that matches. -/
def Hits.add (offset limit : ℕ) (hits : Hits) (item : PyStr) : Hits :=
  let found := hits.matched + 1
  if found ≤ offset then { hits with matched := found }
  else if limit ≤ hits.page.length ∨ 9000 < hits.usedChars + item.length + 1 then
    { hits with matched := found, more := true }
  else
    { page := hits.page ++ [item], matched := found,
      usedChars := hits.usedChars + (item.length + 1), more := hits.more }

/-- The loop over the lines of a file. -/
def searchLines (query relative : PyStr) (offset limit : ℕ) (number : ℕ) (hits : Hits) :
    List (List Char) → Hits
  | [] => hits
  | line :: lines =>
    match item? query relative number (PyStr.ofChars line) with
    | none => searchLines query relative offset limit (number + 1) hits lines
    | some item =>
      let hits := hits.add offset limit item
      if hits.more then hits
      else searchLines query relative offset limit (number + 1) hits lines

/-- The loop over the files that were found, each with the bytes behind its path. -/
def searchFiles (query : PyStr) (offset limit : ℕ) (state : SearchState) :
    List (PyStr × List UInt8) → SearchState
  | [] => state
  | (relative, source) :: files =>
    if searchScanFiles ≤ state.scanned ∨ searchScanBytes ≤ state.usedBytes then
      { state with exhausted := true }
    else
      let raw := source.take (min searchFileBytes (searchScanBytes - state.usedBytes) + 1)
      let state := { state with
        scanned := state.scanned + 1, usedBytes := state.usedBytes + raw.length }
      if searchFileBytes < raw.length then
        searchFiles query offset limit { state with skipped := state.skipped + 1 } files
      else if searchScanBytes < state.usedBytes then { state with exhausted := true }
      else
        match decode raw with
        | none => searchFiles query offset limit { state with skipped := state.skipped + 1 } files
        | some text =>
          if '\x00' ∈ text then
            searchFiles query offset limit { state with skipped := state.skipped + 1 } files
          else
            let hits := searchLines query relative offset limit 1 state.hits (Filesystem.lines text)
            if hits.more then { state with hits := hits }
            else searchFiles query offset limit { state with hits := hits } files

/-- The state before the first file. -/
def SearchState.start (exhausted : Bool) : SearchState :=
  { hits := ⟨[], 0, 0, false⟩, scanned := 0, usedBytes := 0, skipped := 0, exhausted := exhausted }

/-- What `run_search_text` replies. -/
def searchReply (query : PyStr) (files : List (PyStr × List UInt8)) (enumerated : Bool)
    (offset limit : ℕ) : PyStr :=
  let state := searchFiles query offset limit (.start !enumerated) files
  let page := state.hits.page
  let status :=
    if state.hits.more then s!"next offset={offset + page.length}"
    else if state.exhausted then "scan limit reached; narrow pattern (remaining files unsearched)"
    else "end of matches"
  let incomplete := if state.exhausted then "True" else "False"
  let header := s!"[Literal search; {page.length} matching lines; {status}; " ++
    s!"enumeration incomplete={incomplete}; " ++
    s!"scanned {state.scanned} files; skipped {state.skipped} non-UTF8/binary/oversized files]"
  PyStr.ofString (header ++ "\n") ++
    if page = [] then PyStr.ofString "(no matches in searched text)"
    else (PyStr.ofString "\n").intercalate page

/-- The files at these paths, by their relative names. -/
def foundFiles (tree : Tree L) (paths : List (List PyStr)) : List (PyStr × List UInt8) :=
  paths.filterMap fun path =>
    match tree.resolveFrom (.directory tree.base) path with
    | some (.file raw) => some ((PyStr.ofString "/").intercalate path, raw)
    | _ => none

/-- `run_search_text`, for the parts of a pattern that is resolved already. -/
def runSearchText (tree : Tree L) (query : PyStr) (parts : List PyStr) (offset limit : ℕ) : PyStr :=
  let found := searchPaths tree parts
  searchReply query (foundFiles tree found.1) (!found.2) offset limit

end FileSearch

namespace SandboxFiles

open FileSearch (anyDepth hidden fnmatchcase)

/-- `matches` of the container. -/
def matchesPath : List PyStr → List PyStr → Bool
  | path, [] => path.isEmpty
  | [], part :: parts => if part = anyDepth then matchesPath [] parts else false
  | name :: path, part :: parts =>
    if part = anyDepth then
      matchesPath (name :: path) parts || (!hidden name && matchesPath path (part :: parts))
    else (!hidden name || hidden part) && fnmatchcase name part && matchesPath path parts
termination_by path parts => path.length + parts.length

end SandboxFiles

end Eventide
