import Eventide.Library.Dict
import Eventide.Library.Table
import Eventide.Model.Chunker
import Eventide.Model.Event
import Mathlib.Data.List.Sort

/-! # The knowledge index

`rag/index.py`: the tables of an index, the scan of a workspace, and a build. -/

namespace Eventide

open Outcome (raiseIf)

/-! ## Paths -/

/-- A path as `os.fsdecode` gives it: code points, with a lone surrogate for each byte that is not
part of a character. -/
abbrev FsPath := List ℕ

namespace FsPath

def ofString (path : String) : FsPath := path.toList.map Char.toNat

/-- A string with a lone surrogate has no UTF-8 encoding. -/
def encodable (path : FsPath) : Bool := path.all fun code => code < 0xd800 || 0xdfff < code

/-- `PurePosixPath(path).root`. -/
def root (path : FsPath) : FsPath :=
  match path.takeWhile (· = 0x2f) with
  | [] => []
  | [_, _] => ofString "//"
  | _ => ofString "/"

/-- The names of a path. -/
def names (path : FsPath) : List FsPath :=
  (path.splitOn 0x2f).filter fun name => name ≠ [] ∧ name ≠ ofString "."

/-- `PurePosixPath(path).parts`. -/
def parts (path : FsPath) : List FsPath :=
  if path.root = [] then path.names else path.root :: path.names

/-- `PurePosixPath(path).as_posix()`. -/
def asPosix (path : FsPath) : FsPath :=
  let posix := path.root ++ List.intercalate (ofString "/") path.names
  if posix = [] then ofString "." else posix

end FsPath

namespace KnowledgeIndex

def maxSourceBytes : ℕ := 1024 * 1024

/-! ## Tables -/

structure FileRow where
  path : FsPath
  mtimeNs : ℕ
  size : ℕ
  contentHash : String
  deriving DecidableEq

structure ChunkRow where
  file : FsPath
  ordinal : ℕ
  startLine : ℕ
  endLine : ℕ
  heading : String
  text : List Char
  vec : Option (List UInt8)
  deriving DecidableEq

/-- `UNIQUE(file, ordinal)`. -/
def ChunkRow.key (row : ChunkRow) : FsPath × ℕ := (row.file, row.ordinal)

/-- The rows of `meta`, except for the generation. -/
structure IndexMeta where
  embeddingProvider : Option String := none
  embeddingModel : Option String := none
  embeddingBaseUrl : Option String := none
  embeddingAlgorithm : Option String := none
  embeddingDimension : Option ℕ := none
  embeddingFingerprint : Option String := none
  chunkingProfile : Option String := none
  chunkingFingerprint : Option String := none
  deriving DecidableEq

/-- An index file: its paths are text, and the key of a chunk names a file that is there. -/
structure Index where
  files : Table FileRow.path
  chunks : Table ChunkRow.key
  encodable : ∀ row ∈ files.rows, row.path.encodable = true
  owned : ∀ chunk ∈ chunks.rows, chunk.file ∈ files.keys
  version : ℕ
  generation : ℕ
  metaRows : IndexMeta

namespace Index

/-- A new file. -/
def fresh : Index where
  files := Table.empty
  chunks := Table.empty
  encodable := by simp [Table.empty]
  owned := by simp [Table.empty]
  version := 0
  generation := 0
  metaRows := {}

/-- `DELETE FROM files WHERE ...`, with the chunks that refer to the files. -/
def deleteFiles (index : Index) (p : FsPath → Bool) : Index :=
  { index with
    files := index.files.delete fun row => p row.path
    chunks := index.chunks.delete fun row => p row.file
    encodable := fun row hrow => index.encodable row (List.mem_of_mem_filter hrow)
    owned := by
      intro chunk hchunk
      obtain ⟨hin, hkept⟩ := List.mem_filter.mp hchunk
      obtain ⟨row, hrow, hpath⟩ := List.mem_map.mp (index.owned chunk hin)
      refine List.mem_map.mpr ⟨row, List.mem_filter.mpr ⟨hrow, ?_⟩, hpath⟩
      simpa only [hpath] using hkept }

/-- `INSERT INTO files`. -/
def insertFile (index : Index) (row : FileRow) : Except PyError Index :=
  if htext : row.path.encodable = true then
    match h : index.files.insert (PyError.integrity "files.path") row with
    | .error error => .error error
    | .ok files => .ok { index with
        files
        encodable := by
          intro other hother
          rw [(Table.insert_eq_ok.mp h).2, List.mem_append, List.mem_singleton] at hother
          rcases hother with hother | rfl
          · exact index.encodable other hother
          · exact htext
        owned := by
          intro chunk hchunk
          have hrows := (Table.insert_eq_ok.mp h).2
          simp only [Table.keys, hrows, List.map_append, List.mem_append]
          exact .inl (index.owned chunk hchunk) }
  else .error (.raised "UnicodeEncodeError" "surrogates not allowed")

/-- `INSERT INTO chunks`. -/
def insertChunk (index : Index) (row : ChunkRow) : Except PyError Index :=
  if hfile : row.file ∈ index.files.keys then
    match h : index.chunks.insert (PyError.integrity "chunks.file, chunks.ordinal") row with
    | .error error => .error error
    | .ok chunks => .ok { index with
        chunks
        owned := by
          intro chunk hchunk
          rw [(Table.insert_eq_ok.mp h).2, List.mem_append, List.mem_singleton] at hchunk
          rcases hchunk with hchunk | rfl
          · exact index.owned chunk hchunk
          · exact hfile }
  else .error (.integrity "FOREIGN KEY")

/-- `UPDATE chunks SET vec = ? WHERE file = ? AND ordinal = ?`. -/
def setVector (index : Index) (key : FsPath × ℕ) (blob : List UInt8) : Index :=
  { index with
    chunks := index.chunks.modify
      (fun row => if row.key = key then { row with vec := some blob } else row)
      fun row => by
        split
        · rfl
        · rfl
    owned := by
      intro chunk hchunk
      obtain ⟨row, hrow, rfl⟩ := List.mem_map.mp hchunk
      split
      · exact index.owned row hrow
      · exact index.owned row hrow }

/-- `_ensure_schema`. -/
def ensureSchema (index : Index) : Except PyError Index :=
  if index.version = 0 then .ok { index with version := 1 }
  else if index.version = 1 ∨ index.version = 2 then .ok index
  else .error (.value s!"Unsupported knowledge index version: {index.version}")

end Index

/-! ## The scan -/

/-- What opening a path of the workspace finds. -/
inductive Reading where
  /-- Through a link, no regular file, or another one after it was opened. -/
  | redirected
  /-- An `OSError` or a `RuntimeError`. -/
  | unreadable
  | opened (mtimeNs size : ℕ) (stream : ByteArray)

/-- The workspace while one scan looks at it. -/
structure Workspace where
  /-- Whether `_validate_workspace` finds the directory that the index was opened with. -/
  present : Bool
  /-- `git ls-files --cached --others --exclude-standard`. -/
  listing : Except PyError (List FsPath)
  read : FsPath → Reading

structure Document where
  chunks : List Chunker.Chunk
  structured : Bool := false
  fallbackReason : Option String := none

/-- `hashlib.sha256`, and `chunk_document` with the source parsers on or off. -/
structure Platform where
  sha256 : ByteArray → String
  chunkDocument : Bool → FsPath → List Char → Document

structure SourceFile where
  path : FsPath
  mtimeNs : ℕ
  size : ℕ
  contentHash : String
  chunks : List Chunker.Chunk

structure Scan where
  sources : List SourceFile := []
  skipped : ℕ := 0
  signature : List (FsPath × String) := []
  structuredFiles : ℕ := 0
  structureFallbacks : Dict String ℕ := Dict.empty

/-- `_git_paths`. -/
def gitPaths (w : Workspace) : Except PyError (List FsPath) :=
  w.listing.map fun paths => paths.insertionSort (· ≤ ·)

/-- A text file to index, or the mark of a file to skip. -/
inductive Finding where
  | skip (mark : String)
  | text (contentHash : String) (mtimeNs size : ℕ) (text : List Char)

/-- Whether `_scan` passes over a path without a mark. -/
def ignored (relative : FsPath) : Bool :=
  match relative.parts with
  | [] => true
  | first :: _ => first ∈ [FsPath.ofString ".git", FsPath.ofString ".eventide"]

/-- The name of a listed path that `_scan` does not open. -/
def misnamed (raw relative : FsPath) : Bool :=
  relative ≠ raw ∨ relative.root ≠ [] ∨ FsPath.ofString ".." ∈ relative.parts ∨ 0x5c ∈ raw

/-- What `_scan` makes of an opened file. -/
def inspect (p : Platform) (mtimeNs size : ℕ) (stream : ByteArray) : Finding :=
  let body := if size ≤ maxSourceBytes then stream.extract 0 (maxSourceBytes + 1) else .empty
  if maxSourceBytes < size ∨ maxSourceBytes < body.size then
    let size := max size body.size
    .skip s!"large:{mtimeNs}:{size}"
  else
    let contentHash := p.sha256 body
    if 0 ∈ body.data then .skip s!"binary:{contentHash}"
    else
      match body.utf8Decode? with
      | none => .skip s!"non-utf8:{contentHash}"
      | some text => .text contentHash mtimeNs size text.toList

/-- What `_scan` finds at a listed path. -/
def find (p : Platform) (w : Workspace) (raw : FsPath) : Finding :=
  if misnamed raw raw.asPosix then .skip "skipped"
  else
    match w.read raw with
    | .redirected => .skip "skipped"
    | .unreadable => .skip "unreadable"
    | .opened mtimeNs size stream => inspect p mtimeNs size stream

/-- One path of the loop. -/
def addPath (p : Platform) (w : Workspace) (includeChunks codeStructure : Bool) (scan : Scan)
    (raw : FsPath) : Scan :=
  let relative := raw.asPosix
  if ignored relative then scan
  else
    match find p w raw with
    | .skip mark =>
      { scan with skipped := scan.skipped + 1, signature := scan.signature ++ [(relative, mark)] }
    | .text contentHash mtimeNs size text =>
      let document := if includeChunks then p.chunkDocument codeStructure relative text
        else { chunks := [] }
      { scan with
        signature := scan.signature ++ [(relative, contentHash)]
        structuredFiles := scan.structuredFiles + if document.structured then 1 else 0
        structureFallbacks := match document.fallbackReason with
          | none | some "" => scan.structureFallbacks
          | some reason =>
            scan.structureFallbacks.set reason ((scan.structureFallbacks.get? reason).getD 0 + 1)
        sources := scan.sources ++
          [{ path := relative, mtimeNs, size, contentHash, chunks := document.chunks }] }

def workspaceMoved : PyError :=
  .value "Knowledge index Workspace path changed; reopen the Workspace"

/-- `_scan`. -/
def scan (p : Platform) (w : Workspace) (includeChunks codeStructure : Bool) :
    Except PyError Scan := do
  raiseIf (w.present = false) workspaceMoved
  let paths ← gitPaths w
  return paths.foldl (addPath p w includeChunks codeStructure) {}

/-! ## Embeddings -/

structure EmbeddingProfile where
  provider : String
  model : String
  baseUrl : String
  algorithmVersion : String
  dimension : Option ℕ
  deriving DecidableEq

/-- An embedding provider over the floats of type `V`. -/
structure Embedder (V : Type) where
  embed : List (List Char) → Except PyError (List (List V))
  isFinite : V → Bool
  /-- `vector_to_blob`. -/
  toBlob : List V → List UInt8

/-- Where a chunk stands, and its text. -/
abbrev Passage := (FsPath × ℕ) × List Char

def passages (sources : List SourceFile) : List Passage :=
  sources.flatMap fun source =>
    source.chunks.zipIdx.map fun (chunk, ordinal) => ((source.path, ordinal), chunk.text)

/-- The local variables `encoded` and `dimension`. -/
abbrev Encoded := Dict (FsPath × ℕ) (List UInt8) × Option ℕ

/-- One vector of a response. -/
def encodeVector {V : Type} (e : Embedder V) (encoded : Encoded)
    (item : (FsPath × ℕ) × List V) : Except PyError Encoded := do
  raiseIf (item.2 = [] ∨ ∃ value ∈ item.2, e.isFinite value = false)
    (PyError.runtime "Embedding response contains an invalid vector")
  raiseIf (encoded.2.any (· ≠ item.2.length) = true)
    (PyError.runtime "Embedding dimension changed during build")
  return (encoded.1.set item.1 (e.toBlob item.2), some item.2.length)

/-- One request to the provider. -/
def encodeBatch {V : Type} (e : Embedder V) (encoded : Encoded) (batch : List Passage) :
    Except PyError Encoded := do
  let vectors ← e.embed (batch.map Prod.snd)
  raiseIf (vectors.length ≠ batch.length)
    (PyError.runtime "Embedding response count does not match the request")
  ((batch.map Prod.fst).zip vectors).foldlM (encodeVector e) encoded

/-- `_embed_chunks`. -/
def embedChunks {V : Type} (e : Embedder V) (sources : List SourceFile) : Except PyError Encoded :=
  ((passages sources).toChunks 128).foldlM (encodeBatch e) (Dict.empty, none)

/-! ## The configuration of an index -/

/-- `EmbeddingProfile.fingerprint`, and the identities of `chunker.py`. -/
structure Fingerprints where
  profile : EmbeddingProfile → String
  chunkingIdentity : Bool → String
  chunking : String → String

structure BuildInput (V : Type) where
  force : Bool
  codeStructure : Bool
  profile : Option EmbeddingProfile
  embedder : Embedder V
  /-- What `check_cancelled` raises at its calls, in order. -/
  cancelled : ℕ → Option PyError
  /-- The workspace at the first scan and at the one inside the transaction. -/
  scanned : Workspace
  verified : Workspace
  /-- `chunking_identity` inside the transaction. -/
  chunkingIdentity : String
  /-- Whether the path of the index leads to another file, before and inside the transaction. -/
  moved : Bool
  movedAgain : Bool

/-- What a build reads before it scans. -/
structure Reads where
  version : ℕ
  generation : ℕ
  metaRows : IndexMeta
  existing : Dict FsPath String
  chunkTotal : ℕ
  nullTotal : ℕ

def Index.reads (index : Index) : Reads where
  version := index.version
  generation := index.generation
  metaRows := index.metaRows
  existing := ⟨index.files.rows.map fun row => (row.path, row.contentHash), by
    rw [List.map_map]
    exact index.files.nodup⟩
  chunkTotal := index.chunks.rows.length
  nullTotal := index.chunks.rows.countP (·.vec.isNone)

variable {V : Type}

/-- `_validated_embedding_profile`. -/
def validatedEmbeddingProfile (f : Fingerprints) (rows : IndexMeta) :
    Except PyError EmbeddingProfile :=
  match rows.embeddingProvider, rows.embeddingModel, rows.embeddingBaseUrl,
      rows.embeddingAlgorithm, rows.embeddingDimension, rows.embeddingFingerprint with
  | some provider, some model, some baseUrl, some algorithmVersion, some dimension,
      some fingerprint => do
    let profile : EmbeddingProfile :=
      { provider, model, baseUrl, algorithmVersion, dimension := some dimension }
    raiseIf (f.profile profile ≠ fingerprint)
      (PyError.value "Knowledge index embedding fingerprint is invalid; rebuild --force")
    return profile
  | _, _, _, _, _, _ =>
    .error (.value "Knowledge index embedding metadata is incomplete; rebuild --force")

/-- Whether the stored chunking fingerprint is not that of the stored profile. -/
def Reads.badChunking (f : Fingerprints) (r : Reads) : Bool :=
  match r.metaRows.chunkingProfile, r.metaRows.chunkingFingerprint with
  | none, none => false
  | some profile, some fingerprint => f.chunking profile ≠ fingerprint
  | _, _ => true

/-- Whether the index was chunked otherwise. -/
def Reads.otherChunking (r : Reads) (codeStructure : Bool) (digest : String) : Bool :=
  match r.metaRows.chunkingFingerprint with
  | some stored => stored ≠ digest
  | none => codeStructure

def Reads.storedFields (r : Reads) : List (Option String) :=
  [r.metaRows.embeddingProvider, r.metaRows.embeddingModel, r.metaRows.embeddingBaseUrl,
    r.metaRows.embeddingAlgorithm]

def EmbeddingProfile.fields (profile : EmbeddingProfile) : List (Option String) :=
  [some profile.provider, some profile.model, some profile.baseUrl, some profile.algorithmVersion]

/-- The check of the stored profile in an index of version 2. -/
def checkProfile (f : Fingerprints) (r : Reads) : Except PyError Unit :=
  if r.version = 2 then (validatedEmbeddingProfile f r.metaRows).map fun _ => () else .ok ()

/-- The checks before a scan, for a build that is not forced. -/
def checkStored (f : Fingerprints) (codeStructure : Bool) (profile : EmbeddingProfile)
    (r : Reads) : Except PyError Unit := do
  raiseIf (r.badChunking f = true)
    (PyError.value "Knowledge index chunking fingerprint is invalid; rebuild --force")
  raiseIf (r.existing.entries ≠ [] ∧
      r.otherChunking codeStructure (f.chunking (f.chunkingIdentity codeStructure)) = true)
    (PyError.value "Chunking configuration changed; rebuild with --force")
  checkProfile f r
  raiseIf (r.version = 1 ∧ 0 < r.nullTotal ∧ r.nullTotal < r.chunkTotal)
    (PyError.value "Knowledge index has mixed vector state; rebuild with --force")
  raiseIf (r.version = 1 ∧ r.nullTotal ≠ r.chunkTotal ∧ r.chunkTotal ≠ 0)
    (PyError.value "Knowledge index v1 has unexpected vectors; rebuild with --force")
  raiseIf (r.version = 2 ∧ r.nullTotal ≠ 0)
    (PyError.value "Knowledge index has missing vectors; rebuild with --force")
  raiseIf (r.version = 2 ∧ r.storedFields ≠ profile.fields)
    (PyError.value "Embedding configuration changed; rebuild with --force")
  raiseIf (r.version = 2 ∧ profile.dimension.isSome = true ∧
      r.metaRows.embeddingDimension ≠ profile.dimension)
    (PyError.value "Embedding configuration changed; rebuild with --force")

/-! ## A build -/

/-- `a or b`, of two numbers that may be `None`. -/
def orElse (a b : Option ℕ) : Option ℕ :=
  match a with
  | some (n + 1) => some (n + 1)
  | _ => b

/-- The sources that a build writes. -/
def changedSources (force : Bool) (r : Reads) (sources : List SourceFile) : List SourceFile :=
  sources.filter fun source => force || (r.existing.get? source.path != some source.contentHash)

/-- Whether a build embeds every source. -/
def fullEmbedding (force : Bool) (r : Reads) : Bool := force || r.version = 1

/-- The sources that a build embeds. -/
def embeddingSources (force : Bool) (r : Reads) (sources : List SourceFile) : List SourceFile :=
  if fullEmbedding force r then sources else changedSources force r sources

/-- The dimension of the vectors of a build. -/
def resolveDimension (force : Bool) (profile : EmbeddingProfile) (r : Reads)
    (observed : Option ℕ) : Except PyError ℕ := do
  let stored := r.metaRows.embeddingDimension
  match orElse observed (orElse profile.dimension stored) with
  | none => .error (.value "Cannot determine embedding dimension from an empty corpus")
  | some dimension => do
    raiseIf (profile.dimension.isSome = true ∧ profile.dimension ≠ some dimension)
      (PyError.runtime "Embedding provider returned an unexpected dimension")
    raiseIf (stored.isSome = true ∧ force = false ∧ stored ≠ some dimension)
      (PyError.value "Embedding dimension changed; rebuild with --force")
    return dimension

/-- The checks before a scan. -/
def checkConfiguration (f : Fingerprints) (input : BuildInput V) (profile : EmbeddingProfile)
    (r : Reads) : Except PyError Unit :=
  if input.force then .ok () else checkStored f input.codeStructure profile r

/-- What a build takes into its transaction. -/
structure Pending where
  reads : Reads
  profile : EmbeddingProfile
  scan : Scan
  vectors : Dict (FsPath × ℕ) (List UInt8)
  dimension : ℕ

def checkCancelled (input : BuildInput V) (call : ℕ) : Except PyError Unit :=
  match input.cancelled call with
  | some error => .error error
  | none => .ok ()

/-- What `build` asks before it opens the index. -/
def requestedProfile (input : BuildInput V) : Except PyError EmbeddingProfile := do
  checkCancelled input 0
  match input.profile with
  | none => .error (.value "Embedding profile is required with a custom provider")
  | some profile => return profile

/-- `build` from the reads of the open index up to the transaction. -/
def prepare (p : Platform) (f : Fingerprints) (input : BuildInput V) (profile : EmbeddingProfile)
    (r : Reads) : Except PyError Pending := do
  checkConfiguration f input profile r
  let found ← scan p input.scanned true input.codeStructure
  let (vectors, observed) ←
    embedChunks input.embedder (embeddingSources input.force r found.sources)
  let dimension ← resolveDimension input.force profile r observed
  raiseIf (input.moved = true)
    (PyError.runtime "Knowledge index path changed during build; retry")
  checkCancelled input 1
  return { reads := r, profile, scan := found, vectors, dimension }

/-- The rows of a source's chunks. -/
def chunkRows (vectors : Dict (FsPath × ℕ) (List UInt8)) (source : SourceFile) :
    Except PyError (List ChunkRow) :=
  source.chunks.zipIdx.mapM fun (chunk, ordinal) =>
    match vectors.get? (source.path, ordinal) with
    | none => .error (.key "vectors")
    | some blob => .ok {
        file := source.path
        ordinal
        startLine := chunk.startLine
        endLine := chunk.endLine
        heading := chunk.heading
        text := chunk.text
        vec := some blob }

/-- One source of the loop over the changed ones. -/
def insertSource (vectors : Dict (FsPath × ℕ) (List UInt8)) (index : Index) (source : SourceFile) :
    Except PyError Index := do
  let index ← index.insertFile {
    path := source.path
    mtimeNs := source.mtimeNs
    size := source.size
    contentHash := source.contentHash }
  let rows ← chunkRows vectors source
  rows.foldlM Index.insertChunk index

structure BuildStats where
  files : ℕ
  rebuiltFiles : ℕ
  deletedFiles : ℕ
  chunks : ℕ
  skipped : ℕ
  structuredFiles : ℕ
  structureFallbacks : Dict String ℕ
  chunkingFingerprint : String
  generation : ℕ

/-- The rows of `files` that a build deletes because the scan has no such path. -/
def deletedPaths (r : Reads) (sources : List SourceFile) : List FsPath :=
  r.existing.keys.filter (· ∉ sources.map SourceFile.path)

/-- `DELETE` with a list of paths, each of which SQLite has to encode. -/
def deleteListed (index : Index) (paths : List FsPath) : Except PyError Index := do
  raiseIf (∃ path ∈ paths, path.encodable = false)
    (PyError.raised "UnicodeEncodeError" "surrogates not allowed")
  return index.deleteFiles (· ∈ paths)

/-- The deletions of a build. -/
def deleteStale (force : Bool) (pending : Pending) (index : Index) : Except PyError Index :=
  if force then .ok (index.deleteFiles fun _ => true)
  else do
    let index ← deleteListed index (deletedPaths pending.reads pending.scan.sources)
    deleteListed index
      ((changedSources force pending.reads pending.scan.sources).map SourceFile.path)

/-- The index that `deleteStale` leaves where SQLite can encode every path. -/
def cleared (force : Bool) (pending : Pending) (index : Index) : Index :=
  if force then index.deleteFiles fun _ => true
  else (index.deleteFiles (· ∈ deletedPaths pending.reads pending.scan.sources)).deleteFiles
    (· ∈ (changedSources force pending.reads pending.scan.sources).map SourceFile.path)

/-- The rows of `meta` that a build writes. -/
def writtenMeta (f : Fingerprints) (input : BuildInput V) (pending : Pending) : IndexMeta :=
  let resolved := { pending.profile with dimension := some pending.dimension }
  let identity := f.chunkingIdentity input.codeStructure
  { embeddingProvider := some resolved.provider
    embeddingModel := some resolved.model
    embeddingBaseUrl := some resolved.baseUrl
    embeddingAlgorithm := some resolved.algorithmVersion
    embeddingDimension := some pending.dimension
    embeddingFingerprint := some (f.profile resolved)
    chunkingProfile := some identity
    chunkingFingerprint := some (f.chunking identity) }

/-- The vectors of a version 1 index. -/
def updateVectors (force : Bool) (pending : Pending) (index : Index) : Index :=
  if fullEmbedding force pending.reads ∧ force = false then
    pending.vectors.entries.foldl (fun index entry => index.setVector entry.1 entry.2) index
  else index

/-- The index that a transaction commits. -/
def publish (f : Fingerprints) (input : BuildInput V) (pending : Pending) (filled : Index) :
    Index :=
  { updateVectors input.force pending filled with
    metaRows := writtenMeta f input pending
    generation := pending.reads.generation + 1
    version := 2 }

def buildStats (f : Fingerprints) (input : BuildInput V) (pending : Pending) (built : Index) :
    BuildStats where
  files := pending.scan.sources.length
  rebuiltFiles := (changedSources input.force pending.reads pending.scan.sources).length
  deletedFiles := if input.force then pending.reads.existing.entries.length
    else (deletedPaths pending.reads pending.scan.sources).length
  chunks := built.chunks.rows.length
  skipped := pending.scan.skipped
  structuredFiles := pending.scan.structuredFiles
  structureFallbacks := pending.scan.structureFallbacks
  chunkingFingerprint := f.chunking (f.chunkingIdentity input.codeStructure)
  generation := pending.reads.generation + 1

/-- The transaction of `build`, on the index as it is when the transaction begins. -/
def commit (p : Platform) (f : Fingerprints) (input : BuildInput V) (pending : Pending)
    (index : Index) : Except PyError (BuildStats × Index) := do
  checkCancelled input 2
  raiseIf (index.generation ≠ pending.reads.generation)
    (PyError.runtime "Knowledge index changed during build; retry")
  let verified ← scan p input.verified false false
  raiseIf (verified.signature ≠ pending.scan.signature)
    (PyError.runtime "Workspace changed during index build; retry")
  raiseIf (input.chunkingIdentity ≠ f.chunkingIdentity input.codeStructure)
    (PyError.runtime "Chunking configuration changed during build; retry")
  raiseIf (input.movedAgain = true)
    (PyError.runtime "Knowledge index path changed during build; retry")
  let cleared ← deleteStale input.force pending index
  let filled ← (changedSources input.force pending.reads pending.scan.sources).foldlM
    (insertSource pending.vectors) cleared
  checkCancelled input 3
  let built := publish f input pending filled
  return (buildStats f input pending built, built)

/-- `IndexStore.build`, with no other builder at work. -/
def build (p : Platform) (f : Fingerprints) (input : BuildInput V) (index : Index) :
    Except PyError BuildStats × Index :=
  match requestedProfile input with
  | .error error => (.error error, index)
  | .ok profile =>
    match index.ensureSchema with
    | .error error => (.error error, index)
    | .ok index => Outcome.transaction index do
      let pending ← prepare p f input profile index.reads
      commit p f input pending index

end KnowledgeIndex

end Eventide
