import Eventide.Model.KnowledgeIndex

/-! # Vectors of a build

Every passage that a build asks for has its vector afterwards, and it is one that the provider
answered for that text. -/

namespace Eventide.KnowledgeIndex

open Outcome

variable {V : Type} {e : Embedder V}

/-- The provider answered a text with a vector. -/
def Embedder.Answers (e : Embedder V) (text : List Char) (vector : List V) : Prop :=
  ∃ texts vectors, e.embed texts = .ok vectors ∧ (text, vector) ∈ texts.zip vectors

/-- What a fold over answered passages stores. -/
def Stored (e : Embedder V) (passages : List Passage) (before after : Encoded) : Prop :=
  ∀ key, (key ∈ passages.map Prod.fst → ∃ text vector, (key, text) ∈ passages ∧
      e.Answers text vector ∧ after.1.get? key = some (e.toBlob vector)) ∧
    (key ∉ passages.map Prod.fst → after.1.get? key = before.1.get? key)

theorem Stored.append {front back : List Passage} {a b c : Encoded} (h : Stored e front a b)
    (h' : Stored e back b c) : Stored e (front ++ back) a c := by
  intro key
  obtain ⟨hin, hout⟩ := h key
  obtain ⟨hin', hout'⟩ := h' key
  rw [List.map_append, List.mem_append]
  constructor
  · intro hkey
    by_cases hback : key ∈ back.map Prod.fst
    · obtain ⟨text, vector, hmem, hanswer, hget⟩ := hin' hback
      exact ⟨text, vector, List.mem_append_right _ hmem, hanswer, hget⟩
    · obtain ⟨text, vector, hmem, hanswer, hget⟩ := hin (hkey.resolve_right hback)
      exact ⟨text, vector, List.mem_append_left _ hmem, hanswer, (hout' hback).trans hget⟩
  · intro hkey
    rw [not_or] at hkey
    exact (hout' hkey.2).trans (hout hkey.1)

theorem stored_encodeVector {key : FsPath × ℕ} {text : List Char} {vector : List V}
    {before after : Encoded} (hanswer : e.Answers text vector)
    (h : encodeVector e before (key, vector) = .ok after) :
    Stored e [(key, text)] before after := by
  obtain ⟨_, -, h⟩ := bind_eq_ok.mp h
  obtain ⟨_, -, h⟩ := bind_eq_ok.mp h
  cases h
  intro other
  constructor
  · intro hkey
    obtain rfl := List.mem_singleton.mp hkey
    exact ⟨text, vector, List.mem_cons_self, hanswer, Dict.get?_set_self⟩
  · intro hkey
    exact Dict.get?_set_of_ne fun heq => hkey (by simp [heq])

/-- One batch, item by item. -/
theorem stored_encodeVectors {batch : List Passage} {vectors : List (List V)}
    {before after : Encoded} (hlength : vectors.length = batch.length)
    (hanswer : ∀ item ∈ batch.zip vectors, e.Answers item.1.2 item.2)
    (h : ((batch.map Prod.fst).zip vectors).foldlM (encodeVector e) before = .ok after) :
    Stored e batch before after := by
  induction batch generalizing vectors before with
  | nil =>
    cases h
    intro key
    simp
  | cons passage batch ih =>
    cases vectors with
    | nil => cases hlength
    | cons vector vectors =>
      obtain ⟨mid, hmid, hrest⟩ := bind_eq_ok.mp h
      rw [List.zip_cons_cons] at hanswer
      obtain ⟨hfirst, hanswer⟩ := List.forall_mem_cons.mp hanswer
      exact (stored_encodeVector hfirst hmid).append
        (ih (Nat.succ.inj hlength) hanswer hrest)

theorem stored_encodeBatch {batch : List Passage} {before after : Encoded}
    (h : encodeBatch e before batch = .ok after) : Stored e batch before after := by
  obtain ⟨vectors, hvectors, h⟩ := bind_eq_ok.mp h
  obtain ⟨_, hlength, h⟩ := bind_eq_ok.mp h
  rw [raiseIf_eq_ok, not_not] at hlength
  refine stored_encodeVectors hlength (fun item hitem => ?_) h
  refine ⟨_, vectors, hvectors, ?_⟩
  rw [List.zip_map_left]
  exact List.mem_map_of_mem (f := Prod.map Prod.snd id) hitem

theorem stored_encodeBatches {batches : List (List Passage)} {before after : Encoded}
    (h : batches.foldlM (encodeBatch e) before = .ok after) :
    Stored e batches.flatten before after := by
  induction batches generalizing before with
  | nil =>
    cases h
    intro key
    simp
  | cons batch batches ih =>
    obtain ⟨mid, hmid, hrest⟩ := bind_eq_ok.mp h
    exact (stored_encodeBatch hmid).append (ih hrest)

theorem stored_embedChunks {sources : List SourceFile} {after : Encoded}
    (h : embedChunks e sources = .ok after) :
    Stored e (passages sources) (Dict.empty, none) after := by
  have hstored := stored_encodeBatches h
  rwa [Sequence.flatten_toChunks] at hstored

/-- The keys of the passages of a list of sources. -/
theorem map_fst_passages (sources : List SourceFile) : (passages sources).map Prod.fst =
    sources.flatMap fun source =>
      (List.range source.chunks.length).map fun i => (source.path, i) := by
  unfold passages
  rw [List.map_flatMap]
  refine List.flatMap_congr fun source _ => ?_
  rw [List.map_map, List.range_eq_range', ← List.zipIdx_map_snd 0 source.chunks, List.map_map]
  rfl

/-- A source that was embedded has a vector for each of its chunks. -/
theorem chunkRows_ok {sources : List SourceFile} {after : Encoded}
    (h : embedChunks e sources = .ok after) {source : SourceFile} (hsource : source ∈ sources) :
    ∃ rows, chunkRows after.1 source = .ok rows := by
  refine exists_mapM_ok fun item hitem => ?_
  obtain ⟨chunk, ordinal⟩ := item
  have hkey : (source.path, ordinal) ∈ (passages sources).map Prod.fst :=
    List.mem_map.mpr ⟨((source.path, ordinal), chunk.text),
      List.mem_flatMap.mpr ⟨source, hsource, List.mem_map.mpr ⟨(chunk, ordinal), hitem, rfl⟩⟩, rfl⟩
  obtain ⟨text, vector, -, -, hget⟩ := (stored_embedChunks h _).1 hkey
  dsimp only
  rw [hget]
  exact ⟨_, rfl⟩

/-- No passage is asked for twice exactly if no source with chunks is there twice. -/
theorem nodup_passages (sources : List SourceFile) : ((passages sources).map Prod.fst).Nodup ↔
    ((sources.filter (·.chunks ≠ [])).map SourceFile.path).Nodup := by
  induction sources with
  | nil => simp [passages]
  | cons source sources ih =>
    rw [map_fst_passages] at ih ⊢
    rw [List.flatMap_cons, List.nodup_append', ih]
    by_cases hchunks : source.chunks = []
    · simp [hchunks]
    · have hfirst : ((List.range source.chunks.length).map fun i => (source.path, i)).Nodup :=
        List.nodup_range.map fun i j hij => congrArg Prod.snd hij
      have hpos : 0 < source.chunks.length := List.length_pos_of_ne_nil hchunks
      rw [List.filter_cons_of_pos (by simpa using hchunks), List.map_cons, List.nodup_cons]
      constructor
      · rintro ⟨-, hrest, hdisjoint⟩
        refine ⟨fun hin => ?_, hrest⟩
        obtain ⟨other, hother, hpath⟩ := List.mem_map.mp hin
        obtain ⟨hother, hsome⟩ := List.mem_filter.mp hother
        have hpos' : 0 < other.chunks.length := List.length_pos_of_ne_nil (by simpa using hsome)
        refine hdisjoint (List.mem_map.mpr ⟨0, List.mem_range.mpr hpos, rfl⟩) ?_
        exact List.mem_flatMap.mpr ⟨other, hother,
          List.mem_map.mpr ⟨0, List.mem_range.mpr hpos', by rw [hpath]⟩⟩
      · rintro ⟨hout, hrest⟩
        refine ⟨hfirst, hrest, fun key hkey hkey' => hout ?_⟩
        obtain ⟨i, -, rfl⟩ := List.mem_map.mp hkey
        obtain ⟨other, hother, hin⟩ := List.mem_flatMap.mp hkey'
        obtain ⟨j, hj, heq⟩ := List.mem_map.mp hin
        have hsome : other.chunks ≠ [] := by
          rintro hnil
          simp [hnil] at hj
        exact List.mem_map.mpr ⟨other, List.mem_filter.mpr ⟨hother, by simpa using hsome⟩,
          congrArg Prod.fst heq⟩

end Eventide.KnowledgeIndex
