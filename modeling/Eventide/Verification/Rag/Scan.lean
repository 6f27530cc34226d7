import Eventide.Model.KnowledgeIndex

/-! # Scans of a workspace

The sources of a scan are what its listing names, one for each time that a path is listed. -/

namespace Eventide.KnowledgeIndex

open Outcome

variable {p : Platform} {w : Workspace} {codeStructure : Bool}

/-! ## One listed path -/

/-- What a scan that includes the chunks adds for a listed path. -/
def sourceAt (p : Platform) (w : Workspace) (codeStructure : Bool) (raw : FsPath) :
    Option SourceFile :=
  if ignored raw.asPosix then none
  else
    match find p w raw with
    | .skip _ => none
    | .text contentHash mtimeNs size text => some {
        path := raw.asPosix
        mtimeNs
        size
        contentHash
        chunks := (p.chunkDocument codeStructure raw.asPosix text).chunks }

/-- The marks that a listed path leaves in the signature. -/
def marksAt (p : Platform) (w : Workspace) (raw : FsPath) : List (FsPath × String) :=
  if ignored raw.asPosix then []
  else
    match find p w raw with
    | .skip mark => [(raw.asPosix, mark)]
    | .text contentHash _ _ _ => [(raw.asPosix, contentHash)]

/-- A path that is indexed is listed under its own name. -/
theorem path_of_sourceAt {raw : FsPath} {source : SourceFile}
    (h : sourceAt p w codeStructure raw = some source) : source.path = raw := by
  unfold sourceAt at h
  split at h
  · cases h
  · split at h
    case h_1 => cases h
    case h_2 hfind =>
      cases h
      unfold find at hfind
      split at hfind
      · cases hfind
      · rename_i hnamed
        by_contra hne
        exact hnamed (by simp [misnamed, hne])

theorem sources_addPath (scan : Scan) (raw : FsPath) :
    (addPath p w true codeStructure scan raw).sources =
      scan.sources ++ (sourceAt p w codeStructure raw).toList := by
  unfold addPath sourceAt
  dsimp only
  split
  · simp
  · cases find p w raw with
    | skip => simp
    | text => rfl

theorem signature_addPath (includeChunks : Bool) (scan : Scan) (raw : FsPath) :
    (addPath p w includeChunks codeStructure scan raw).signature =
      scan.signature ++ marksAt p w raw := by
  unfold addPath marksAt
  dsimp only
  split
  · simp
  · cases find p w raw with
    | skip => rfl
    | text => rfl

/-! ## A whole listing -/

theorem sources_foldl (paths : List FsPath) (scan : Scan) :
    (paths.foldl (addPath p w true codeStructure) scan).sources =
      scan.sources ++ paths.filterMap (sourceAt p w codeStructure) := by
  induction paths generalizing scan with
  | nil => simp
  | cons raw paths ih =>
    rw [List.foldl_cons, ih, sources_addPath, List.append_assoc, List.filterMap_cons]
    cases sourceAt p w codeStructure raw with
    | none => rfl
    | some source => rfl

theorem signature_foldl (includeChunks : Bool) (paths : List FsPath) (scan : Scan) :
    (paths.foldl (addPath p w includeChunks codeStructure) scan).signature =
      scan.signature ++ paths.flatMap (marksAt p w) := by
  induction paths generalizing scan with
  | nil => simp
  | cons raw paths ih =>
    rw [List.foldl_cons, ih, signature_addPath, List.append_assoc, List.flatMap_cons]

/-- A scan succeeds in a workspace that is there and that Git lists. -/
theorem scan_ok {listing : List FsPath} (hpresent : w.present = true)
    (hlisting : w.listing = .ok listing) (includeChunks : Bool) :
    ∃ found, scan p w includeChunks codeStructure = .ok found ∧
      found.signature = (listing.insertionSort (· ≤ ·)).flatMap (marksAt p w) ∧
      (includeChunks = true → found.sources =
        (listing.insertionSort (· ≤ ·)).filterMap (sourceAt p w codeStructure)) := by
  have hpaths : gitPaths w = .ok (listing.insertionSort (· ≤ ·)) := by
    rw [gitPaths, hlisting]
    rfl
  refine ⟨_, bind_eq_ok.mpr ⟨(), raiseIf_of_not (by simp [hpresent]),
    bind_eq_ok.mpr ⟨_, hpaths, rfl⟩⟩, ?_, ?_⟩
  · rw [signature_foldl]
    rfl
  · rintro rfl
    rw [sources_foldl]
    rfl

/-! ## Repeated paths -/

/-- The paths of the sources that pass a test are the listed paths whose source does. -/
theorem map_path_filter (q : SourceFile → Bool) (paths : List FsPath) :
    ((paths.filterMap (sourceAt p w codeStructure)).filter q).map SourceFile.path =
      paths.filter fun raw => (sourceAt p w codeStructure raw).any q := by
  induction paths with
  | nil => rfl
  | cons raw paths ih =>
    rw [List.filterMap_cons, List.filter_cons]
    cases hsource : sourceAt p w codeStructure raw with
    | none => simpa using ih
    | some source =>
      cases hq : q source with
      | false => simpa [hq] using ih
      | true => simp [hq, ih, path_of_sourceAt hsource]

/-- Sources that pass a test repeat no path exactly if the listing repeats none of them. -/
theorem nodup_sources (q : SourceFile → Bool) (listing : List FsPath) :
    ((((listing.insertionSort (· ≤ ·)).filterMap (sourceAt p w codeStructure)).filter q).map
      SourceFile.path).Nodup ↔
      ∀ raw ∈ listing, ∀ source, sourceAt p w codeStructure raw = some source → q source = true →
        listing.count raw = 1 := by
  have hperm := List.perm_insertionSort (· ≤ ·) listing
  rw [map_path_filter, (hperm.filter _).nodup_iff, List.nodup_iff_count_le_one]
  constructor
  · intro h raw hraw source hsource hq
    have hcount := h raw
    rw [List.count_filter (by simp [hsource, hq])] at hcount
    have := List.count_pos_iff.mpr hraw
    omega
  · intro h raw
    by_cases hin : raw ∈ listing.filter fun raw => (sourceAt p w codeStructure raw).any q
    · obtain ⟨hraw, hany⟩ := List.mem_filter.mp hin
      obtain ⟨source, hsource, hq⟩ := (Option.any_eq_true _ _).mp hany
      have hcount : (listing.filter fun raw => (sourceAt p w codeStructure raw).any q).count raw =
          listing.count raw := List.count_filter hany
      rw [hcount, h raw hraw source hsource hq]
    · rw [List.count_eq_zero_of_not_mem hin]
      exact Nat.zero_le _

end Eventide.KnowledgeIndex
