import Eventide.Model.KnowledgeIndex

/-! # Rows of an index

When a row goes in, and what a list of sources leaves behind. -/

namespace Eventide.KnowledgeIndex

open Outcome

variable {vectors : Dict (FsPath × ℕ) (List UInt8)} {index index' : Index}

/-! ## One row -/

theorem insertFile_spec (index : Index) (row : FileRow) :
    (row.path.encodable = true ∧ row.path ∉ index.files.keys ∧
      ∃ index', index.insertFile row = .ok index' ∧
        index'.files.rows = index.files.rows ++ [row] ∧ index'.chunks = index.chunks) ∨
    (¬ (row.path.encodable = true ∧ row.path ∉ index.files.keys) ∧
      ∃ error, index.insertFile row = .error error) := by
  unfold Index.insertFile
  split
  case isTrue htext =>
    split
    case h_1 error herror =>
      refine .inr ⟨fun hfresh => ?_, error, rfl⟩
      unfold Table.insert at herror
      rw [dif_neg hfresh.2] at herror
      cases herror
    case h_2 files hfiles =>
      obtain ⟨hfresh, hrows⟩ := Table.insert_eq_ok.mp hfiles
      exact .inl ⟨htext, hfresh, _, rfl, hrows, rfl⟩
  case isFalse htext =>
    exact .inr ⟨fun hfresh => htext hfresh.1, _, rfl⟩

theorem insertChunk_ok {row : ChunkRow} (hfile : row.file ∈ index.files.keys)
    (hkey : row.key ∉ index.chunks.keys) :
    ∃ index', index.insertChunk row = .ok index' ∧ index'.files = index.files ∧
      index'.chunks.rows = index.chunks.rows ++ [row] := by
  unfold Index.insertChunk
  rw [dif_pos hfile]
  split
  case h_1 error herror =>
    unfold Table.insert at herror
    rw [dif_neg hkey] at herror
    cases herror
  case h_2 chunks hchunks =>
    exact ⟨_, rfl, rfl, (Table.insert_eq_ok.mp hchunks).2⟩

theorem insertChunks_ok {rows : List ChunkRow} (hfile : ∀ row ∈ rows, row.file ∈ index.files.keys)
    (hnodup : (index.chunks.keys ++ rows.map ChunkRow.key).Nodup) :
    ∃ index', rows.foldlM Index.insertChunk index = .ok index' ∧ index'.files = index.files ∧
      index'.chunks.rows = index.chunks.rows ++ rows := by
  induction rows generalizing index with
  | nil => exact ⟨index, rfl, rfl, (List.append_nil _).symm⟩
  | cons row rows ih =>
    have hkey : row.key ∉ index.chunks.keys := fun hin =>
      List.disjoint_of_nodup_append hnodup hin (by simp)
    obtain ⟨mid, hmid, hfiles, hrows⟩ :=
      insertChunk_ok (hfile row List.mem_cons_self) hkey
    have hnodup' : (mid.chunks.keys ++ rows.map ChunkRow.key).Nodup := by
      simpa [Table.keys, hrows] using hnodup
    obtain ⟨last, hlast, hfiles', hrows'⟩ := ih
      (fun other hother => hfiles ▸ hfile other (List.mem_cons_of_mem _ hother)) hnodup'
    refine ⟨last, ?_, hfiles'.trans hfiles, by rw [hrows', hrows, List.append_assoc]; rfl⟩
    rw [List.foldlM_cons, hmid]
    exact hlast

/-! ## One source -/

/-- The row of a source. -/
def SourceFile.row (source : SourceFile) : FileRow where
  path := source.path
  mtimeNs := source.mtimeNs
  size := source.size
  contentHash := source.contentHash

/-- The rows of a source's chunks carry its path, and ordinals that do not repeat. -/
theorem chunkRows_keys {source : SourceFile} {rows : List ChunkRow}
    (h : chunkRows vectors source = .ok rows) :
    rows.map ChunkRow.key = (List.range source.chunks.length).map fun i => (source.path, i) := by
  have hkeys : rows.map ChunkRow.key =
      source.chunks.zipIdx.map fun item => (source.path, item.2) := by
    refine map_of_mapM (fun item _ row hrow => ?_) h
    dsimp only at hrow
    split at hrow
    · cases hrow
    · cases hrow
      rfl
  rw [hkeys, List.range_eq_range', ← List.zipIdx_map_snd 0 source.chunks, List.map_map]
  rfl

theorem chunkRows_file {source : SourceFile} {rows : List ChunkRow}
    (h : chunkRows vectors source = .ok rows) : ∀ row ∈ rows, row.file = source.path := by
  intro row hrow
  have hkey := List.mem_map_of_mem (f := ChunkRow.key) hrow
  rw [chunkRows_keys h] at hkey
  obtain ⟨i, -, hi⟩ := List.mem_map.mp hkey
  exact congrArg Prod.fst hi.symm

theorem insertSource_ok {source : SourceFile} {rows : List ChunkRow}
    (hrows : chunkRows vectors source = .ok rows) (htext : source.path.encodable = true)
    (hfresh : source.path ∉ index.files.keys) :
    ∃ index', insertSource vectors index source = .ok index' ∧
      index'.files.rows = index.files.rows ++ [source.row] ∧
      index'.chunks.rows = index.chunks.rows ++ rows := by
  obtain ⟨-, -, mid, hmid, hfiles, hchunks⟩ | ⟨hne, -⟩ := insertFile_spec index source.row
  case inr => exact absurd ⟨htext, hfresh⟩ hne
  have hin : ∀ row ∈ rows, row.file ∈ mid.files.keys := by
    intro row hrow
    rw [chunkRows_file hrows row hrow, Table.keys, hfiles]
    simp [SourceFile.row]
  have hnodup : (mid.chunks.keys ++ rows.map ChunkRow.key).Nodup := by
    rw [hchunks, chunkRows_keys hrows]
    refine List.Nodup.append index.chunks.nodup ?_ ?_
    · exact List.nodup_range.map fun i j hij => congrArg Prod.snd hij
    · -- A chunk that is there belongs to a file that is there.
      rintro key hkey hnew
      obtain ⟨chunk, hchunk, rfl⟩ := List.mem_map.mp hkey
      obtain ⟨i, -, hi⟩ := List.mem_map.mp hnew
      have hfile : source.path = chunk.file := congrArg Prod.fst hi
      exact hfresh (hfile ▸ index.owned chunk hchunk)
  obtain ⟨last, hlast, hfiles', hrows'⟩ := insertChunks_ok hin hnodup
  refine ⟨last, ?_, by rw [hfiles', hfiles], by rw [hrows', hchunks]⟩
  unfold insertSource
  refine bind_eq_ok.mpr ⟨mid, hmid, bind_eq_ok.mpr ⟨rows, hrows, hlast⟩⟩

theorem of_insertSource {source : SourceFile} (h : insertSource vectors index source = .ok index') :
    source.path.encodable = true ∧ source.path ∉ index.files.keys := by
  obtain ⟨mid, hmid, -⟩ := bind_eq_ok.mp h
  obtain ⟨htext, hfresh, -⟩ | ⟨-, error, herror⟩ := insertFile_spec index source.row
  · exact ⟨htext, hfresh⟩
  · cases hmid.symm.trans herror

/-! ## A list of sources -/

theorem insertSources_ok {sources : List SourceFile}
    (hvectors : ∀ source ∈ sources, ∃ rows, chunkRows vectors source = .ok rows)
    (htext : ∀ source ∈ sources, source.path.encodable = true)
    (hnodup : (index.files.keys ++ sources.map SourceFile.path).Nodup) :
    ∃ index' rows, sources.foldlM (insertSource vectors) index = .ok index' ∧
      sources.mapM (chunkRows vectors) = .ok rows ∧
      index'.files.rows = index.files.rows ++ sources.map SourceFile.row ∧
      index'.chunks.rows = index.chunks.rows ++ rows.flatten := by
  induction sources generalizing index with
  | nil => exact ⟨index, [], rfl, rfl, by simp, by simp⟩
  | cons source sources ih =>
    obtain ⟨hvector, hvectors⟩ := List.forall_mem_cons.mp hvectors
    obtain ⟨hfirst, htext⟩ := List.forall_mem_cons.mp htext
    obtain ⟨rows, hrows⟩ := hvector
    have hfresh : source.path ∉ index.files.keys := fun hin =>
      List.disjoint_of_nodup_append hnodup hin (by simp)
    obtain ⟨mid, hmid, hfiles, hchunks⟩ := insertSource_ok hrows hfirst hfresh
    have hnodup' : (mid.files.keys ++ sources.map SourceFile.path).Nodup := by
      simpa [Table.keys, hfiles, SourceFile.row] using hnodup
    obtain ⟨last, rest, hlast, hrest, hfiles', hchunks'⟩ := ih hvectors htext hnodup'
    refine ⟨last, rows :: rest, ?_, ?_, by simp [hfiles', hfiles], by simp [hchunks', hchunks]⟩
    · rw [List.foldlM_cons, hmid]
      exact hlast
    · rw [List.mapM_cons, hrows, ok_bind, hrest]
      rfl

theorem of_insertSources {sources : List SourceFile}
    (hvectors : ∀ source ∈ sources, ∃ rows, chunkRows vectors source = .ok rows)
    (h : sources.foldlM (insertSource vectors) index = .ok index') :
    (∀ source ∈ sources, source.path.encodable = true) ∧
      (index.files.keys ++ sources.map SourceFile.path).Nodup := by
  induction sources generalizing index with
  | nil =>
    refine ⟨by simp, ?_⟩
    rw [List.map_nil, List.append_nil]
    exact index.files.nodup
  | cons source sources ih =>
    obtain ⟨⟨rows, hrows⟩, hvectors⟩ := List.forall_mem_cons.mp hvectors
    obtain ⟨mid, hmid, hrest⟩ := bind_eq_ok.mp h
    obtain ⟨htext, hfresh⟩ := of_insertSource hmid
    obtain ⟨mid', hmid', hfiles, -⟩ := insertSource_ok hrows htext hfresh
    obtain rfl : mid' = mid := Except.ok.inj (hmid'.symm.trans hmid)
    obtain ⟨htexts, hnodup⟩ := ih hvectors hrest
    refine ⟨List.forall_mem_cons.mpr ⟨htext, htexts⟩, ?_⟩
    simpa [Table.keys, hfiles, SourceFile.row] using hnodup

end Eventide.KnowledgeIndex
