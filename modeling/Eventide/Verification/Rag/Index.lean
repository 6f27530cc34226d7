import Eventide.Verification.Rag.Tables
import Eventide.Verification.Rag.Embedding
import Eventide.Verification.Rag.Scan

/-! # Builds of an index

A build commits exactly if its loop over the changed sources does, and that loop succeeds exactly
if no path comes twice. -/

namespace Eventide.KnowledgeIndex

open Outcome

variable {V : Type} {p : Platform} {f : Fingerprints} {input : BuildInput V}

/-! ## The files that are there -/

theorem keys_existing (index : Index) : index.reads.existing.keys = index.files.keys :=
  List.map_map

theorem get?_existing {index : Index} {path : FsPath} {contentHash : String} :
    index.reads.existing.get? path = some contentHash ↔
      ∃ row ∈ index.files.rows, row.path = path ∧ row.contentHash = contentHash := by
  rw [← Dict.mem_entries]
  exact List.mem_map.trans ⟨fun ⟨row, hrow, heq⟩ => ⟨row, hrow, Prod.mk.inj heq⟩,
    fun ⟨row, hrow, hpath, hhash⟩ => ⟨row, hrow, Prod.ext hpath hhash⟩⟩

/-! ## The transaction -/

@[simp] theorem files_setVector (index : Index) (key : FsPath × ℕ) (blob : List UInt8) :
    (index.setVector key blob).files = index.files := rfl

@[simp] theorem files_updateVectors (force : Bool) (pending : Pending) (index : Index) :
    (updateVectors force pending index).files = index.files := by
  unfold updateVectors
  split
  · induction pending.vectors.entries generalizing index with
    | nil => rfl
    | cons entry entries ih => rw [List.foldl_cons, ih, files_setVector]
  · rfl

/-- The deletions fail only at a path that SQLite cannot encode. -/
theorem deleteStale_eq {pending : Pending} {index : Index} (force : Bool)
    (hreads : pending.reads = index.reads)
    (htext : ∀ source ∈ changedSources force pending.reads pending.scan.sources,
      source.path.encodable = true) :
    deleteStale force pending index = .ok (cleared force pending index) := by
  unfold deleteStale cleared
  cases force with
  | true => rfl
  | false =>
    have hdeleted : ∀ path ∈ deletedPaths pending.reads pending.scan.sources,
        path.encodable = true := by
      intro path hpath
      have hexisting := List.mem_of_mem_filter hpath
      rw [hreads, keys_existing] at hexisting
      obtain ⟨row, hrow, rfl⟩ := List.mem_map.mp hexisting
      exact index.encodable row hrow
    have hone : ¬ ∃ path ∈ deletedPaths pending.reads pending.scan.sources,
        path.encodable = false := by
      rintro ⟨path, hpath, hbad⟩
      rw [hdeleted path hpath] at hbad
      cases hbad
    have htwo : ¬ ∃ path ∈ (changedSources false pending.reads pending.scan.sources).map
        SourceFile.path, path.encodable = false := by
      rintro ⟨path, hpath, hbad⟩
      obtain ⟨source, hsource, rfl⟩ := List.mem_map.mp hpath
      rw [htext source hsource] at hbad
      cases hbad
    unfold deleteListed
    rw [raiseIf_of_not hone, raiseIf_of_not htwo]
    rfl

/-- Nothing that a build inserts is there when its loop starts. -/
theorem disjoint_cleared (force : Bool) (pending : Pending) (index : Index) :
    List.Disjoint (cleared force pending index).files.keys
      ((changedSources force pending.reads pending.scan.sources).map SourceFile.path) := by
  intro path hkept hchanged
  obtain ⟨row, hrow, rfl⟩ := List.mem_map.mp hkept
  unfold cleared at hrow
  split at hrow
  · simp [Index.deleteFiles] at hrow
  · have := (List.mem_filter.mp hrow).2
    simp only [Bool.not_eq_true', decide_eq_false_iff_not] at this
    exact this hchanged

/-- What the checks of a transaction and of what comes before it find. -/
structure Undisturbed (p : Platform) (f : Fingerprints) (input : BuildInput V)
    (opened : Index) (listing : List FsPath) (profile : EmbeddingProfile) : Prop where
  quiet : ∀ call, input.cancelled call = none
  present : input.scanned.present = true
  listed : input.scanned.listing = .ok listing
  still : input.verified = input.scanned
  identity : input.chunkingIdentity = f.chunkingIdentity input.codeStructure
  unmoved : input.moved = false ∧ input.movedAgain = false
  configured : checkConfiguration f input profile opened.reads = .ok ()
  profile : input.profile = some profile

/-- The sources of a listing. -/
def indexed (p : Platform) (input : BuildInput V) (listing : List FsPath) : List SourceFile :=
  (listing.insertionSort (· ≤ ·)).filterMap (sourceAt p input.scanned input.codeStructure)

/-- The provider answers what a build asks for, with vectors of a dimension that fits. -/
def Embeds (p : Platform) (input : BuildInput V) (opened : Index) (listing : List FsPath)
    (profile : EmbeddingProfile) : Prop :=
  ∃ vectors observed dimension,
    embedChunks input.embedder
      (embeddingSources input.force opened.reads (indexed p input listing)) =
        .ok (vectors, observed) ∧
    resolveDimension input.force profile opened.reads observed = .ok dimension

theorem prepare_ok {opened : Index} {listing : List FsPath} {profile : EmbeddingProfile}
    (h : Undisturbed p f input opened listing profile)
    (hembeds : Embeds p input opened listing profile) :
    ∃ pending, prepare p f input profile opened.reads = .ok pending ∧ pending.reads = opened.reads ∧
      pending.scan.sources = indexed p input listing ∧
      pending.scan.signature =
        (listing.insertionSort (· ≤ ·)).flatMap (marksAt p input.scanned) ∧
      ∀ source ∈ changedSources input.force pending.reads pending.scan.sources,
        ∃ rows, chunkRows pending.vectors source = .ok rows := by
  obtain ⟨vectors, observed, dimension, hvectors, hdimension⟩ := hembeds
  obtain ⟨found, hfound, hsignature, hsources⟩ :=
    @scan_ok p input.scanned input.codeStructure _ h.present h.listed true
  have hsources := hsources rfl
  have hcancel (call : ℕ) : checkCancelled input call = .ok () := by
    simp [checkCancelled, h.quiet call]
  refine ⟨{ reads := opened.reads, profile, scan := found, vectors, dimension }, ?_, rfl, hsources,
    hsignature, fun source hsource => ?_⟩
  · unfold prepare
    rw [h.configured, ok_bind, hfound, ok_bind, hsources]
    unfold indexed at hvectors
    rw [hvectors, ok_bind]
    dsimp only
    rw [hdimension, ok_bind, raiseIf_of_not (by simp [h.unmoved.1]), ok_bind, hcancel]
    rfl
  · refine chunkRows_ok hvectors ?_
    change source ∈ changedSources input.force opened.reads found.sources at hsource
    rw [hsources] at hsource
    unfold embeddingSources
    split
    · exact List.mem_of_mem_filter hsource
    · exact hsource

/-- A transaction commits if its loop can insert every changed source. -/
theorem commit_ok {opened : Index} {listing : List FsPath} {profile : EmbeddingProfile}
    (h : Undisturbed p f input opened listing profile) {pending : Pending}
    (hreads : pending.reads = opened.reads)
    (hsignature : pending.scan.signature =
      (listing.insertionSort (· ≤ ·)).flatMap (marksAt p input.scanned))
    (hvectors : ∀ source ∈ changedSources input.force pending.reads pending.scan.sources,
      ∃ rows, chunkRows pending.vectors source = .ok rows)
    (htext : ∀ source ∈ changedSources input.force pending.reads pending.scan.sources,
      source.path.encodable = true)
    (hnodup : ((changedSources input.force pending.reads pending.scan.sources).map
      SourceFile.path).Nodup) :
    ∃ stats built, commit p f input pending opened = .ok (stats, built) ∧
      built.files.rows = (cleared input.force pending opened).files.rows ++
        (changedSources input.force pending.reads pending.scan.sources).map SourceFile.row := by
  have hdelete := deleteStale_eq input.force hreads htext
  obtain ⟨filled, rows, hfilled, -, hfiles, -⟩ := insertSources_ok hvectors htext
    ((cleared input.force pending opened).files.nodup.append hnodup (disjoint_cleared _ _ _))
  obtain ⟨verified, hverified, hmarks, -⟩ :=
    @scan_ok p input.verified false listing (h.still ▸ h.present) (h.still ▸ h.listed) false
  have hcancel (call : ℕ) : checkCancelled input call = .ok () := by
    simp [checkCancelled, h.quiet call]
  have hsame : verified.signature = pending.scan.signature := by
    rw [hmarks, hsignature, h.still]
  have hgeneration : opened.generation = pending.reads.generation := by
    rw [hreads]
    rfl
  have hbuilt : commit p f input pending opened = .ok
      (buildStats f input pending (publish f input pending filled),
        publish f input pending filled) := by
    unfold commit
    rw [hcancel, ok_bind, raiseIf_of_not (not_not.mpr hgeneration), ok_bind, hverified, ok_bind,
      raiseIf_of_not (not_not.mpr hsame), ok_bind, raiseIf_of_not (not_not.mpr h.identity), ok_bind,
      raiseIf_of_not (by simp [h.unmoved.2]), ok_bind, hdelete, ok_bind, hfilled, ok_bind, hcancel]
    rfl
  refine ⟨_, _, hbuilt, ?_⟩
  change (updateVectors input.force pending filled).files.rows = _
  rw [files_updateVectors, hfiles]

theorem of_commit {opened : Index} {pending : Pending} {stats : BuildStats} {built : Index}
    (hvectors : ∀ source ∈ changedSources input.force pending.reads pending.scan.sources,
      ∃ rows, chunkRows pending.vectors source = .ok rows)
    (h : commit p f input pending opened = .ok (stats, built)) :
    (∀ source ∈ changedSources input.force pending.reads pending.scan.sources,
      source.path.encodable = true) ∧
    ((changedSources input.force pending.reads pending.scan.sources).map
      SourceFile.path).Nodup := by
  obtain ⟨_, -, h⟩ := bind_eq_ok.mp h
  obtain ⟨_, -, h⟩ := bind_eq_ok.mp h
  obtain ⟨_, -, h⟩ := bind_eq_ok.mp h
  obtain ⟨_, -, h⟩ := bind_eq_ok.mp h
  obtain ⟨_, -, h⟩ := bind_eq_ok.mp h
  obtain ⟨_, -, h⟩ := bind_eq_ok.mp h
  obtain ⟨cleared, -, h⟩ := bind_eq_ok.mp h
  obtain ⟨filled, hfilled, -⟩ := bind_eq_ok.mp h
  obtain ⟨htext, hnodup⟩ := of_insertSources hvectors hfilled
  exact ⟨htext, (List.nodup_append'.mp hnodup).2.1⟩

/-! ## What a build leaves -/

/-- One row for each indexed path and none besides; nothing embedded or stored twice. -/
structure IndexedOnce (p : Platform) (input : BuildInput V) (opened : Index)
    (listing : List FsPath) (built : Index) : Prop where
  rows : ∀ source ∈ indexed p input listing,
    (built.files.rows.filter fun row => row.path = source.path).length = 1
  current : ∀ row ∈ built.files.rows, ∃ source ∈ indexed p input listing,
    row.path = source.path ∧ row.contentHash = source.contentHash
  embedded : ((passages (embeddingSources input.force opened.reads
    (indexed p input listing))).map Prod.fst).Nodup
  stored : (built.chunks.rows.map fun row => (row.file, row.ordinal)).Nodup

/-- The listing repeats no path that the build writes, or that it embeds with some text. -/
def ListedOnce (p : Platform) (input : BuildInput V) (opened : Index) (listing : List FsPath) :
    Prop :=
  ∀ raw ∈ listing, ∀ source, sourceAt p input.scanned input.codeStructure raw = some source →
    (input.force = true ∨ opened.reads.existing.get? source.path ≠ some source.contentHash →
      source.path.encodable = true ∧ listing.count raw = 1) ∧
    (fullEmbedding input.force opened.reads = true → source.chunks ≠ [] → listing.count raw = 1)

/-- Whether a build writes a source. -/
def writes (input : BuildInput V) (opened : Index) (source : SourceFile) : Bool :=
  input.force || (opened.reads.existing.get? source.path != some source.contentHash)

theorem writes_iff {opened : Index} {source : SourceFile} : writes input opened source = true ↔
    input.force = true ∨ opened.reads.existing.get? source.path ≠ some source.contentHash := by
  simp [writes]

theorem mem_indexed {listing : List FsPath} {source : SourceFile} :
    source ∈ indexed p input listing ↔ source.path ∈ listing ∧
      sourceAt p input.scanned input.codeStructure source.path = some source := by
  rw [indexed, List.mem_filterMap]
  constructor
  · rintro ⟨raw, hraw, hsource⟩
    rw [path_of_sourceAt hsource]
    exact ⟨(List.mem_insertionSort _).mp hraw, hsource⟩
  · rintro ⟨hpath, hsource⟩
    exact ⟨source.path, (List.mem_insertionSort _).mpr hpath, hsource⟩

theorem indexed_ext {listing : List FsPath} {source other : SourceFile}
    (h : source ∈ indexed p input listing) (h' : other ∈ indexed p input listing)
    (hpath : source.path = other.path) : source = other := by
  have hsource := (mem_indexed.mp h).2
  rw [hpath, (mem_indexed.mp h').2] at hsource
  exact (Option.some.inj hsource).symm

theorem nodup_embedded {opened : Index} {listing : List FsPath}
    (h : ((changedSources input.force opened.reads (indexed p input listing)).map
      SourceFile.path).Nodup) :
    ((passages (embeddingSources input.force opened.reads
      (indexed p input listing))).map Prod.fst).Nodup ↔
    (fullEmbedding input.force opened.reads = true → ∀ raw ∈ listing, ∀ source,
      sourceAt p input.scanned input.codeStructure raw = some source → source.chunks ≠ [] →
        listing.count raw = 1) := by
  rw [nodup_passages, embeddingSources]
  split
  case isTrue hfull =>
    rw [indexed, nodup_sources]
    simp [hfull]
  case isFalse hpart =>
    refine ⟨fun _ hfull => absurd hfull hpart, fun _ => ?_⟩
    exact h.sublist (List.filter_sublist.map _)

theorem listedOnce_iff {opened : Index} {listing : List FsPath} :
    ListedOnce p input opened listing ↔
      (∀ source ∈ changedSources input.force opened.reads (indexed p input listing),
        source.path.encodable = true) ∧
      ((changedSources input.force opened.reads (indexed p input listing)).map
        SourceFile.path).Nodup ∧
      ((passages (embeddingSources input.force opened.reads
        (indexed p input listing))).map Prod.fst).Nodup := by
  have hchanged : ((changedSources input.force opened.reads (indexed p input listing)).map
      SourceFile.path).Nodup ↔ ∀ raw ∈ listing, ∀ source,
        sourceAt p input.scanned input.codeStructure raw = some source →
          writes input opened source = true → listing.count raw = 1 :=
    nodup_sources (writes input opened) listing
  constructor
  · intro h
    have hnodup := hchanged.mpr fun raw hraw source hsource hwrites =>
      ((h raw hraw source hsource).1 (writes_iff.mp hwrites)).2
    refine ⟨fun source hsource => ?_, hnodup, (nodup_embedded hnodup).mpr ?_⟩
    · obtain ⟨hin, hwrites⟩ := List.mem_filter.mp hsource
      obtain ⟨hlisted, hat⟩ := mem_indexed.mp hin
      exact ((h _ hlisted _ hat).1 (writes_iff.mp hwrites)).1
    · exact fun hfull raw hraw source hsource => (h raw hraw source hsource).2 hfull
  · rintro ⟨htext, hnodup, hembedded⟩ raw hraw source hsource
    have hpath := path_of_sourceAt hsource
    refine ⟨fun hwrites => ⟨htext source (List.mem_filter.mpr ⟨?_, writes_iff.mpr hwrites⟩),
      hchanged.mp hnodup raw hraw source hsource (writes_iff.mpr hwrites)⟩,
      fun hfull => (nodup_embedded hnodup).mp hembedded hfull raw hraw source hsource⟩
    exact mem_indexed.mpr ⟨hpath ▸ hraw, hpath ▸ hsource⟩

theorem writes_eq_false {opened : Index} {source : SourceFile}
    (h : writes input opened source = false) :
    input.force = false ∧ opened.reads.existing.get? source.path = some source.contentHash := by
  simpa [writes] using h

/-- The rows that a build keeps are those of the sources that it does not write. -/
theorem mem_cleared {pending : Pending} {opened : Index} {listing : List FsPath}
    (hreads : pending.reads = opened.reads)
    (hsources : pending.scan.sources = indexed p input listing) {row : FileRow} :
    row ∈ (cleared input.force pending opened).files.rows ↔ row ∈ opened.files.rows ∧
      ∃ source ∈ indexed p input listing, writes input opened source = false ∧
        row.path = source.path ∧ row.contentHash = source.contentHash := by
  have hchanged : changedSources input.force opened.reads (indexed p input listing) =
      (indexed p input listing).filter (writes input opened) := rfl
  unfold cleared
  rw [hreads, hsources]
  split
  case isTrue hforce =>
    constructor
    · intro hrow
      simp [Index.deleteFiles] at hrow
    · rintro ⟨-, source, -, hkept, -⟩
      rw [(writes_eq_false hkept).1] at hforce
      cases hforce
  case isFalse hforce =>
    simp only [Index.deleteFiles, Table.rows_delete, List.mem_filter, Bool.not_eq_true',
      decide_eq_false_iff_not, hchanged]
    constructor
    · rintro ⟨⟨hrow, hlisted⟩, hkept⟩
      have hexisting : row.path ∈ opened.reads.existing.keys := by
        rw [keys_existing]
        exact List.mem_map_of_mem hrow
      have hin : row.path ∈ (indexed p input listing).map SourceFile.path := by
        by_contra hout
        exact hlisted (List.mem_filter.mpr ⟨hexisting, by simpa using hout⟩)
      obtain ⟨source, hsource, hpath⟩ := List.mem_map.mp hin
      have hwrites : writes input opened source = false := by
        rw [← Bool.not_eq_true]
        intro hwrites
        exact hkept (List.mem_map.mpr ⟨source, List.mem_filter.mpr ⟨hsource, hwrites⟩, hpath⟩)
      obtain ⟨other, hother, hpath', hhash⟩ := get?_existing.mp (writes_eq_false hwrites).2
      obtain rfl := Table.key_injOn hrow hother (hpath.symm.trans hpath'.symm)
      exact ⟨hrow, source, hsource, hwrites, hpath.symm, hhash⟩
    · rintro ⟨hrow, source, hsource, hwrites, hpath, -⟩
      refine ⟨⟨hrow, fun hdeleted => ?_⟩, fun hin => ?_⟩
      · have hout := (List.mem_filter.mp hdeleted).2
        simp only [decide_eq_true_eq] at hout
        exact hout (List.mem_map.mpr ⟨source, hsource, hpath.symm⟩)
      · obtain ⟨other, hother, hpath'⟩ := List.mem_map.mp hin
        obtain ⟨hother, htrue⟩ := List.mem_filter.mp hother
        obtain rfl := indexed_ext hsource hother (hpath.symm.trans hpath'.symm)
        rw [hwrites] at htrue
        cases htrue

/-- What a build that commits has in its rows. -/
theorem indexedOnce_of_rows {pending : Pending} {opened built : Index} {listing : List FsPath}
    (hreads : pending.reads = opened.reads)
    (hsources : pending.scan.sources = indexed p input listing)
    (hrows : built.files.rows = (cleared input.force pending opened).files.rows ++
      (changedSources input.force pending.reads pending.scan.sources).map SourceFile.row)
    (hembedded : ((passages (embeddingSources input.force opened.reads
      (indexed p input listing))).map Prod.fst).Nodup) :
    IndexedOnce p input opened listing built where
  rows := by
    intro source hsource
    refine Table.length_filter_key ?_
    rw [Table.keys, hrows, List.map_append, List.mem_append]
    cases hwrites : writes input opened source with
    | true =>
      refine .inr (List.mem_map.mpr ⟨source.row, List.mem_map.mpr ⟨source, ?_, rfl⟩, rfl⟩)
      rw [hreads, hsources]
      exact List.mem_filter.mpr ⟨hsource, hwrites⟩
    | false =>
      obtain ⟨row, hrow, hpath, hhash⟩ := get?_existing.mp (writes_eq_false hwrites).2
      exact .inl (List.mem_map.mpr ⟨row, (mem_cleared hreads hsources).mpr
        ⟨hrow, source, hsource, hwrites, hpath, hhash⟩, hpath⟩)
  current := by
    intro row hrow
    rw [hrows, List.mem_append] at hrow
    rcases hrow with hrow | hrow
    · obtain ⟨-, source, hsource, -, hpath, hhash⟩ := (mem_cleared hreads hsources).mp hrow
      exact ⟨source, hsource, hpath, hhash⟩
    · obtain ⟨source, hsource, rfl⟩ := List.mem_map.mp hrow
      rw [hsources] at hsource
      exact ⟨source, List.mem_of_mem_filter hsource, rfl, rfl⟩
  embedded := hembedded
  stored := built.chunks.nodup

/-- A build indexes every path once exactly if the listing names once what it writes and embeds. -/
theorem scan_uniqueness {index opened : Index} {listing : List FsPath} {profile : EmbeddingProfile}
    (hschema : index.ensureSchema = .ok opened)
    (h : Undisturbed p f input opened listing profile)
    (hembeds : Embeds p input opened listing profile) :
    (∃ stats built, build p f input index = (.ok stats, built) ∧
      IndexedOnce p input opened listing built) ↔ ListedOnce p input opened listing := by
  obtain ⟨pending, hprepare, hreads, hsources, hsignature, hvectors⟩ := prepare_ok h hembeds
  have hchanged : changedSources input.force pending.reads pending.scan.sources =
      changedSources input.force opened.reads (indexed p input listing) := by
    rw [hreads, hsources]
  have hbuild : build p f input index =
      transaction opened (commit p f input pending opened) := by
    have hrequested : requestedProfile input = .ok profile := by
      unfold requestedProfile checkCancelled
      rw [h.quiet 0, h.profile]
      rfl
    unfold build
    rw [hrequested, hschema]
    dsimp only
    rw [hprepare, ok_bind]
  rw [listedOnce_iff, hbuild]
  constructor
  · rintro ⟨stats, built, hcommitted, honce⟩
    obtain ⟨stats', built', hcommit, -⟩ | ⟨error, -, herror⟩ :=
      transaction_eq opened (commit p f input pending opened)
    · obtain ⟨htext, hnodup⟩ := of_commit hvectors hcommit
      rw [hchanged] at htext hnodup
      exact ⟨htext, hnodup, honce.embedded⟩
    · rw [herror] at hcommitted
      cases (Prod.mk.inj hcommitted).1
  · rintro ⟨htext, hnodup, hembedded⟩
    rw [← hchanged] at htext hnodup
    obtain ⟨stats, built, hcommit, hrows⟩ :=
      commit_ok h hreads hsignature hvectors htext hnodup
    exact ⟨stats, built, by rw [hcommit, transaction_ok],
      indexedOnce_of_rows hreads hsources hrows hembedded⟩

/-! ## A file that is in conflict -/

def notes : FsPath := FsPath.ofString "notes.txt"

def todo : FsPath := FsPath.ofString "todo.txt"

/-- The digest and the one chunk of a file that holds an `x`. -/
def notesPlatform : Platform where
  sha256 _ := "2d711642b726b04401627ca9fbac32f5c8530fb1903cc4db02258717921a4881"
  chunkDocument _ path text :=
    { chunks := [{ file := String.ofList (path.map Char.ofNat), startLine := 1, endLine := 1,
                   heading := "", text }] }

def notesFingerprints : Fingerprints where
  profile := EmbeddingProfile.algorithmVersion
  chunkingIdentity _ := "windows-v1"
  chunking identity := identity

def hashProfile : EmbeddingProfile where
  provider := "hash"
  model := "hash-v1"
  baseUrl := "local"
  algorithmVersion := "hash-sha256-v1"
  dimension := some 1

/-- A workspace where Git lists some paths, each with an `x`. -/
def notesWorkspace (listing : List FsPath) : Workspace where
  present := true
  listing := .ok listing
  read _ := .opened 0 1 ⟨#[0x78]⟩

/-- A first build. -/
def notesInput (listing : List FsPath) : BuildInput ℕ where
  force := false
  codeStructure := false
  profile := some hashProfile
  embedder := {
    embed := fun texts => .ok (texts.map fun _ => [1])
    isFinite := fun _ => true
    toBlob := fun _ => [0, 0, 0x80, 0x3f] }
  cancelled := fun _ => none
  scanned := notesWorkspace listing
  verified := notesWorkspace listing
  chunkingIdentity := "windows-v1"
  moved := false
  movedAgain := false

def createdIndex : Index := { Index.fresh with version := 1 }

/-- The index of a workspace with the one file. -/
def notesIndex : Index :=
  (build notesPlatform notesFingerprints (notesInput [notes]) Index.fresh).2

theorem undisturbed_notes {opened : Index} (listing : List FsPath)
    (h : (checkConfiguration notesFingerprints (notesInput listing) hashProfile
      opened.reads).toOption = some ()) :
    Undisturbed notesPlatform notesFingerprints (notesInput listing) opened listing hashProfile where
  quiet _ := rfl
  present := rfl
  listed := rfl
  still := rfl
  identity := rfl
  unmoved := ⟨rfl, rfl⟩
  configured := eq_ok_of_toOption h
  profile := rfl

theorem embeds_notes {opened : Index} {listing : List FsPath} {encoded : Encoded} {dimension : ℕ}
    (hencoded : (embedChunks (notesInput listing).embedder (embeddingSources false opened.reads
      (indexed notesPlatform (notesInput listing) listing))).toOption = some encoded)
    (hdimension : (resolveDimension false hashProfile opened.reads encoded.2).toOption =
      some dimension) :
    Embeds notesPlatform (notesInput listing) opened listing hashProfile :=
  ⟨encoded.1, encoded.2, dimension, eq_ok_of_toOption hencoded, eq_ok_of_toOption hdimension⟩

/-- The listing of a path in conflict: one entry for each stage. -/
def unmerged : List FsPath := List.replicate 3 notes

/-- The vector of each file. -/
def unitBlob : List UInt8 := [0, 0, 0x80, 0x3f]

/-- A path in conflict that is indexed as it is, next to a new one. -/
theorem scan_uniqueness_unmerged :
    ∃ stats built, build notesPlatform notesFingerprints (notesInput (todo :: unmerged))
      notesIndex = (.ok stats, built) ∧
      IndexedOnce notesPlatform (notesInput (todo :: unmerged)) notesIndex (todo :: unmerged)
        built := by
  have hversion : notesIndex.version = 2 := by decide +kernel
  have hschema : notesIndex.ensureSchema = .ok notesIndex := by
    simp [Index.ensureSchema, hversion]
  have hembeds : Embeds notesPlatform (notesInput (todo :: unmerged)) notesIndex (todo :: unmerged)
      hashProfile :=
    @embeds_notes _ _ (Dict.ofList [((todo, 0), unitBlob)], some 1) 1 (by decide +kernel)
      (by decide +kernel)
  refine (scan_uniqueness hschema (undisturbed_notes _ (by decide +kernel)) hembeds).mpr
    fun raw hraw source hsource => ⟨?_, ?_⟩
  · have hlisted : ∀ raw ∈ todo :: unmerged,
        (sourceAt notesPlatform (notesWorkspace (todo :: unmerged)) false raw).all fun source =>
          notesIndex.reads.existing.get? source.path ≠ some source.contentHash →
            source.path.encodable = true ∧ (todo :: unmerged).count raw = 1 := by
      decide +kernel
    have hlisted := hlisted raw hraw
    change sourceAt notesPlatform (notesWorkspace (todo :: unmerged)) false raw = _ at hsource
    rw [hsource, Option.all_some, decide_eq_true_eq] at hlisted
    rintro (hforce | hchanged)
    · cases hforce
    · exact hlisted hchanged
  · have hpart : fullEmbedding false notesIndex.reads = false := by decide +kernel
    intro hfull
    rw [show (notesInput (todo :: unmerged)).force = false from rfl, hpart] at hfull
    cases hfull

def breaks (constraint : String) : Except PyError BuildStats × Index → Bool
  | (.error (.integrity broken), _) => broken = constraint
  | _ => false

theorem scan_uniqueness_false :
    Undisturbed notesPlatform notesFingerprints (notesInput unmerged) createdIndex unmerged
      hashProfile ∧
    Embeds notesPlatform (notesInput unmerged) createdIndex unmerged hashProfile ∧
    ¬ ∃ stats built, build notesPlatform notesFingerprints (notesInput unmerged) Index.fresh =
      (.ok stats, built) ∧
      IndexedOnce notesPlatform (notesInput unmerged) createdIndex unmerged built := by
  have hfails : breaks "files.path"
      (build notesPlatform notesFingerprints (notesInput unmerged) Index.fresh) = true := by
    decide +kernel
  have hembeds : Embeds notesPlatform (notesInput unmerged) createdIndex unmerged hashProfile :=
    @embeds_notes _ _ (Dict.ofList [((notes, 0), unitBlob)], some 1) 1 (by decide +kernel)
      (by decide +kernel)
  refine ⟨undisturbed_notes _ (by decide +kernel), hembeds, ?_⟩
  rintro ⟨stats, built, hbuild, -⟩
  rw [hbuild] at hfails
  cases hfails

end Eventide.KnowledgeIndex
