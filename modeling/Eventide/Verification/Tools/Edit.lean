import Eventide.Verification.Tools.Text

/-! # Edits of a file

`run_edit` reads and writes in text mode. It leaves the rest of a file alone, and does what the
container does, exactly where the translation of line endings and the truncation of the file
make no difference. -/

namespace Eventide

open Chunker (normalizeNewlines not_mem_normalizeNewlines normalizeNewlines_eq_self)
open Text

namespace Filesystem

/-- `raw'` is `raw` with the first occurrence of one text replaced by the other. -/
def EditsFirst (oldText newText : PyStr) (raw raw' : List UInt8) : Prop :=
  ∃ before old after new : List Char,
    oldText = PyStr.ofChars old ∧ newText = PyStr.ofChars new ∧
    raw = encodeChars before ++ encodeChars old ++ encodeChars after ∧
    raw' = encodeChars before ++ encodeChars new ++ encodeChars after ∧
    ∀ front rest, raw = encodeChars front ++ encodeChars old ++ encodeChars rest →
      before.length ≤ front.length

/-- The file fits the container, and so does what an edit makes of it. -/
structure Fits (others : ℕ) (oldText newText : PyStr) (content : List Char) : Prop where
  file : (encodeChars content).length ≤ SandboxFiles.maxFile
  total : others + (encodeChars content).length ≤ SandboxFiles.maxTotal
  written : ∀ raw, encode (replaceFirst oldText newText (PyStr.ofChars content)) = some raw →
    raw.length ≤ SandboxFiles.maxFile ∧ others + raw.length ≤ SandboxFiles.maxTotal

variable {others : ℕ} {path : String} {oldText newText : PyStr} {content : List Char}

theorem readText_encodeChars (content : List Char) :
    readText (encodeChars content) = .ok (normalizeNewlines content) := by
  rw [readText, decode_encodeChars]

/-- The parts around an occurrence in a decoded text. -/
theorem partition?_ofChars (h : oldText <:+: PyStr.ofChars content) :
    ∃ before old after : List Char, content = before ++ old ++ after ∧
      oldText = PyStr.ofChars old ∧
      (∀ newText, replaceFirst oldText newText (PyStr.ofChars content) =
        PyStr.ofChars before ++ newText ++ PyStr.ofChars after) ∧
      ∀ front rest, content = front ++ old ++ rest → before.length ≤ front.length := by
  obtain ⟨before, after, hp⟩ := exists_partition? h
  obtain ⟨front, old, rest, hcontent, rfl, rfl, rfl⟩ :=
    PyStr.ofChars_eq_append_append (partition?_eq_some hp)
  refine ⟨front, old, rest, hcontent, rfl, fun newText => ?_, fun front' rest' heq => ?_⟩
  · rw [replaceFirst, hp]
  · have hocc : PyStr.ofChars content =
        PyStr.ofChars front' ++ PyStr.ofChars old ++ PyStr.ofChars rest' := by
      rw [heq, PyStr.ofChars_append, PyStr.ofChars_append]
    simpa [PyStr.ofChars] using length_le_of_partition? hp hocc

/-! ## The host -/

theorem runEdit_of_not_contained (h : ¬ oldText <:+: PyStr.ofChars (normalizeNewlines content)) :
    runEdit path oldText newText (encodeChars content) =
      (.error (.notFound path), encodeChars content) := by
  rw [runEdit, readText_encodeChars]
  exact if_neg h

/-- A replacement that cannot be encoded leaves an empty file. -/
theorem runEdit_of_encode_none (h : oldText <:+: PyStr.ofChars (normalizeNewlines content))
    (hnew : ¬ (encode newText).isSome) :
    runEdit path oldText newText (encodeChars content) = (.error .encode, []) := by
  obtain ⟨before, old, after, -, -, hreplace, -⟩ := partition?_ofChars h
  have hnone : encode (PyStr.ofChars before ++ newText ++ PyStr.ofChars after) = none := by
    rw [← Option.not_isSome_iff_eq_none, encode_append_isSome, encode_append_isSome]
    exact fun hall => hnew hall.1.2
  rw [runEdit, readText_encodeChars]
  simp only [if_pos h, hreplace, writeText, hnone]
  rfl

theorem runEdit_of_infix {before after new : List Char}
    (h : oldText <:+: PyStr.ofChars (normalizeNewlines content))
    (hreplace : replaceFirst oldText (PyStr.ofChars new) (PyStr.ofChars (normalizeNewlines content)) =
      PyStr.ofChars before ++ PyStr.ofChars new ++ PyStr.ofChars after) :
    runEdit path oldText (PyStr.ofChars new) (encodeChars content) =
      (.ok s!"Edited {path}", encodeChars before ++ encodeChars new ++ encodeChars after) := by
  rw [runEdit, readText_encodeChars]
  simp only [if_pos h, hreplace, writeText, ← PyStr.ofChars_append, encode_ofChars,
    encodeChars_append]
  rfl

/-! ## The container -/

theorem readAt_of_fits (h : Fits others oldText newText content) :
    SandboxFiles.readAt others (encodeChars content) = .ok (encodeChars content) := by
  have hfile := h.file
  have htotal := h.total
  rw [SandboxFiles.readAt, if_neg (by omega)]

theorem editFile_of_not_contained (hfits : Fits others oldText newText content)
    (h : ¬ oldText <:+: PyStr.ofChars content) :
    SandboxFiles.editFile others path oldText newText (encodeChars content) =
      (.error (.notFound path), encodeChars content) := by
  simp only [SandboxFiles.editFile, readAt_of_fits hfits, decode_encodeChars, if_neg h]

theorem editFile_of_encode_none (hfits : Fits others oldText newText content)
    (h : oldText <:+: PyStr.ofChars content) (hnew : ¬ (encode newText).isSome) :
    SandboxFiles.editFile others path oldText newText (encodeChars content) =
      (.error .encode, encodeChars content) := by
  obtain ⟨before, old, after, -, -, hreplace, -⟩ := partition?_ofChars h
  have hnone : encode (PyStr.ofChars before ++ newText ++ PyStr.ofChars after) = none := by
    rw [← Option.not_isSome_iff_eq_none, encode_append_isSome, encode_append_isSome]
    exact fun hall => hnew hall.1.2
  simp only [SandboxFiles.editFile, readAt_of_fits hfits, decode_encodeChars, if_pos h, hreplace,
    SandboxFiles.writeRaw, hnone]

theorem editFile_of_infix {before after new : List Char}
    (hfits : Fits others oldText (PyStr.ofChars new) content)
    (h : oldText <:+: PyStr.ofChars content)
    (hreplace : replaceFirst oldText (PyStr.ofChars new) (PyStr.ofChars content) =
      PyStr.ofChars before ++ PyStr.ofChars new ++ PyStr.ofChars after) :
    SandboxFiles.editFile others path oldText (PyStr.ofChars new) (encodeChars content) =
      (.ok s!"Edited {path}", encodeChars before ++ encodeChars new ++ encodeChars after) := by
  rw [← PyStr.ofChars_append, ← PyStr.ofChars_append] at hreplace
  have hencode : encode (replaceFirst oldText (PyStr.ofChars new) (PyStr.ofChars content)) =
      some (encodeChars (before ++ new ++ after)) := by
    rw [hreplace, encode_ofChars]
  have hlimits : ¬ (SandboxFiles.maxFile < (encodeChars (before ++ new ++ after)).length ∨
      SandboxFiles.maxTotal < others + (encodeChars (before ++ new ++ after)).length) := by
    obtain ⟨hfile, htotal⟩ := hfits.written _ hencode
    omega
  simp only [SandboxFiles.editFile, readAt_of_fits hfits, decode_encodeChars, if_pos h,
    SandboxFiles.writeRaw, hencode, if_neg hlimits]
  rw [encodeChars_append, encodeChars_append]

/-! ## Where they agree -/

/-- A successful edit changes the first occurrence only. -/
def Preserves (path : String) (oldText newText : PyStr) (content : List Char) : Prop :=
  ∀ reply, (runEdit path oldText newText (encodeChars content)).1 = .ok reply →
    EditsFirst oldText newText (encodeChars content)
      (runEdit path oldText newText (encodeChars content)).2

/-- The container leaves the same bytes, and succeeds where the host does. -/
def Agrees (others : ℕ) (path : String) (oldText newText : PyStr) (content : List Char) : Prop :=
  Fits others oldText newText content →
    (runEdit path oldText newText (encodeChars content)).2 =
        (SandboxFiles.editFile others path oldText newText (encodeChars content)).2 ∧
      (runEdit path oldText newText (encodeChars content)).1.isOk =
        (SandboxFiles.editFile others path oldText newText (encodeChars content)).1.isOk

/-- Text mode makes no difference: what is found with the line endings translated is put into a
file without carriage returns, or, when it cannot be encoded, was to go into an empty file, and
what is not found then is not found in the file either. -/
def Untranslated (others : ℕ) (oldText newText : PyStr) (content : List Char) : Prop :=
  if oldText <:+: PyStr.ofChars (normalizeNewlines content) then
    if (encode newText).isSome then '\r' ∉ content
    else Fits others oldText newText content → content = []
  else Fits others oldText newText content → (encode newText).isSome →
    ¬ oldText <:+: PyStr.ofChars content

theorem not_found_iff (h : ¬ oldText <:+: PyStr.ofChars (normalizeNewlines content)) :
    Preserves path oldText newText content ∧ Agrees others path oldText newText content ↔
      (Fits others oldText newText content → (encode newText).isSome →
        ¬ oldText <:+: PyStr.ofChars content) := by
  have hpreserves : Preserves path oldText newText content := by
    intro reply hreply
    rw [runEdit_of_not_contained h] at hreply
    cases hreply
  rw [and_iff_right hpreserves]
  constructor
  · intro hagrees hfits hnew hinfix
    obtain ⟨raw, hraw⟩ := Option.isSome_iff_exists.mp hnew
    obtain ⟨new, rfl, -⟩ := encode_eq_some hraw
    obtain ⟨before, old, after, -, -, hreplace, -⟩ := partition?_ofChars hinfix
    have hok := (hagrees hfits).2
    rw [runEdit_of_not_contained h, editFile_of_infix hfits hinfix (hreplace _)] at hok
    cases hok
  · intro hmissing hfits
    rw [runEdit_of_not_contained h]
    by_cases hinfix : oldText <:+: PyStr.ofChars content
    · have hnew : ¬ (encode newText).isSome := fun hnew => hmissing hfits hnew hinfix
      rw [editFile_of_encode_none hfits hinfix hnew]
      exact ⟨rfl, rfl⟩
    · rw [editFile_of_not_contained hfits hinfix]
      exact ⟨rfl, rfl⟩

theorem encode_none_iff (h : oldText <:+: PyStr.ofChars (normalizeNewlines content))
    (hnew : ¬ (encode newText).isSome) :
    Preserves path oldText newText content ∧ Agrees others path oldText newText content ↔
      (Fits others oldText newText content → content = []) := by
  have hpreserves : Preserves path oldText newText content := by
    intro reply hreply
    rw [runEdit_of_encode_none h hnew] at hreply
    cases hreply
  have hcontainer (hfits : Fits others oldText newText content) :
      ∃ error, SandboxFiles.editFile others path oldText newText (encodeChars content) =
        (.error error, encodeChars content) := by
    by_cases hinfix : oldText <:+: PyStr.ofChars content
    · exact ⟨_, editFile_of_encode_none hfits hinfix hnew⟩
    · exact ⟨_, editFile_of_not_contained hfits hinfix⟩
  rw [and_iff_right hpreserves]
  constructor
  · intro hagrees hfits
    obtain ⟨error, herror⟩ := hcontainer hfits
    have hbytes := (hagrees hfits).1
    rw [runEdit_of_encode_none h hnew, herror] at hbytes
    exact encodeChars_injective hbytes.symm
  · rintro hempty hfits
    obtain ⟨error, herror⟩ := hcontainer hfits
    rw [runEdit_of_encode_none h hnew, herror, hempty hfits]
    exact ⟨rfl, rfl⟩

/-- The translated text has no carriage return, so an edit that keeps those of the file has none
to keep. -/
theorem not_mem_of_preserves {new : List Char}
    (h : oldText <:+: PyStr.ofChars (normalizeNewlines content))
    (hpreserves : Preserves path oldText (PyStr.ofChars new) content) : '\r' ∉ content := by
  obtain ⟨before, old, after, hcontent, rfl, hreplace, -⟩ := partition?_ofChars h
  have hedit : runEdit path (PyStr.ofChars old) (PyStr.ofChars new) (encodeChars content) =
      (.ok s!"Edited {path}", encodeChars before ++ encodeChars new ++ encodeChars after) :=
    runEdit_of_infix h (hreplace _)
  have hfirst := hpreserves _ (congrArg Prod.fst hedit)
  rw [hedit] at hfirst
  obtain ⟨front, old', rest, new', hold, hnew, hraw, hraw', -⟩ := hfirst
  obtain rfl := PyStr.ofChars_injective hold
  obtain rfl := PyStr.ofChars_injective hnew
  simp only [← encodeChars_append] at hraw hraw'
  have hfile := encodeChars_injective hraw
  have hwritten := congrArg (List.count '\r') (encodeChars_injective hraw')
  have htranslated := not_mem_normalizeNewlines content
  rw [hcontent] at htranslated
  rw [hfile]
  simp only [List.mem_append, not_or] at htranslated
  simp only [List.count_append, List.count_eq_zero_of_not_mem htranslated.1.1,
    List.count_eq_zero_of_not_mem htranslated.2] at hwritten
  have hfront : List.count '\r' front = 0 := by omega
  have hrest : List.count '\r' rest = 0 := by omega
  simp only [List.mem_append, not_or]
  exact ⟨⟨List.count_eq_zero.mp hfront, htranslated.1.2⟩, List.count_eq_zero.mp hrest⟩

theorem found_iff {new : List Char} (h : oldText <:+: PyStr.ofChars (normalizeNewlines content)) :
    Preserves path oldText (PyStr.ofChars new) content ∧
      Agrees others path oldText (PyStr.ofChars new) content ↔ '\r' ∉ content := by
  refine ⟨fun hboth => not_mem_of_preserves h hboth.1, fun hfree => ?_⟩
  have hself := normalizeNewlines_eq_self hfree
  have hinfix := h
  rw [hself] at hinfix
  obtain ⟨before, old, after, hcontent, rfl, hreplace, hfirst⟩ := partition?_ofChars hinfix
  have hedit : runEdit path (PyStr.ofChars old) (PyStr.ofChars new) (encodeChars content) =
      (.ok s!"Edited {path}", encodeChars before ++ encodeChars new ++ encodeChars after) := by
    apply runEdit_of_infix h
    rw [hself]
    exact hreplace _
  constructor
  · intro reply _
    rw [hedit]
    refine ⟨before, old, after, new, rfl, rfl, ?_, rfl, fun front rest heq => ?_⟩
    · rw [hcontent, encodeChars_append, encodeChars_append]
    · rw [← encodeChars_append, ← encodeChars_append] at heq
      exact hfirst front rest (encodeChars_injective heq)
  · intro hfits
    rw [hedit, editFile_of_infix hfits hinfix (hreplace _)]
    exact ⟨rfl, rfl⟩

theorem runEdit_iff (others : ℕ) (path : String) (oldText newText : PyStr) (content : List Char) :
    Preserves path oldText newText content ∧ Agrees others path oldText newText content ↔
      Untranslated others oldText newText content := by
  unfold Untranslated
  split
  · rename_i h
    split
    · rename_i hnew
      obtain ⟨raw, hraw⟩ := Option.isSome_iff_exists.mp hnew
      obtain ⟨new, rfl, -⟩ := encode_eq_some hraw
      exact found_iff h
    · rename_i hnew
      exact encode_none_iff h hnew
  · rename_i h
    exact not_found_iff h

/-- A file with carriage returns loses them. -/
theorem runEdit_translates :
    runEdit "a.txt" (PyStr.ofString "b") (PyStr.ofString "c") (encodeChars "a\r\nb\r\n".toList) =
        (.ok "Edited a.txt", encodeChars "a\nc\n".toList) ∧
      SandboxFiles.editFile 0 "a.txt" (PyStr.ofString "b") (PyStr.ofString "c")
          (encodeChars "a\r\nb\r\n".toList) =
        (.ok "Edited a.txt", encodeChars "a\r\nc\r\n".toList) ∧
      ¬ Preserves "a.txt" (PyStr.ofString "b") (PyStr.ofString "c") "a\r\nb\r\n".toList := by
  refine ⟨by decide +kernel, by decide +kernel, fun hpreserves => ?_⟩
  have hinfix : PyStr.ofString "b" <:+:
      PyStr.ofChars (normalizeNewlines "a\r\nb\r\n".toList) := by decide +kernel
  exact not_mem_of_preserves hinfix hpreserves (by decide)

end Filesystem

end Eventide
