import Eventide.Library.Reading
import Eventide.Model.Filesystem

/-! # Texts, bytes and newlines -/

namespace Eventide

/-! ## UTF-8 -/

theorem decode_encodeChars (text : List Char) : decode (encodeChars text) = some text := by
  have h : (encodeChars text).toByteArray = text.utf8Encode := rfl
  rw [decode, h, List.utf8Decode?_utf8Encode, Option.map_some]

theorem encodeChars_injective {first second : List Char}
    (h : encodeChars first = encodeChars second) : first = second := by
  have hdecode := congrArg decode h
  rw [decode_encodeChars, decode_encodeChars] at hdecode
  exact Option.some.inj hdecode

theorem encodeChars_append (first second : List Char) :
    encodeChars (first ++ second) = encodeChars first ++ encodeChars second :=
  List.flatMap_append

theorem length_encodeChars_pos {text : List Char} (h : text ≠ []) :
    0 < (encodeChars text).length := by
  cases text with
  | nil => exact absurd rfl h
  | cons c text =>
    have hpos := c.utf8Size_pos
    rw [encodeChars, List.flatMap_cons, List.length_append, String.length_utf8EncodeChar]
    omega

theorem encodeChars_decode {raw : List UInt8} {text : List Char} (h : decode raw = some text) :
    encodeChars text = raw := by
  obtain ⟨chars, hchars, rfl⟩ := Option.map_eq_some_iff.mp h
  have hraw : chars.toList.utf8Encode = raw.toByteArray := by
    have hget := ByteArray.utf8Encode_get_utf8Decode? (b := raw.toByteArray)
      (h := Option.isSome_of_mem hchars)
    rwa [Option.get_of_mem _ hchars] at hget
  have hlist := congrArg (fun bytes => bytes.data.toList) hraw
  simpa [List.utf8Encode, encodeChars] using hlist

/-- A text whose bytes are at the start of those of another is the start of this other. -/
theorem eq_take_of_encodeChars {part text : List Char} {rest : List UInt8}
    (h : encodeChars part ++ rest = encodeChars text) : part = text.take part.length := by
  have hbytes : part.utf8Encode ++ rest.toByteArray = text.utf8Encode := by
    have hb := congrArg List.toByteArray h
    rwa [List.toByteArray_append] at hb
  exact List.prefix_iff_eq_take.mp (List.isPrefix_of_utf8Encode_append_eq_utf8Encode _ hbytes)

namespace PyStr

theorem chars?_ofChars (text : List Char) : (ofChars text).chars? = some text := by
  induction text with
  | nil => rfl
  | cons c text ih =>
    have hcons : ofChars (c :: text) = .scalar c :: ofChars text := rfl
    rw [hcons, chars?, ih, Option.map_some]

theorem eq_ofChars {text : PyStr} {chars : List Char} (h : text.chars? = some chars) :
    text = ofChars chars := by
  induction text generalizing chars with
  | nil =>
    cases h
    rfl
  | cons c text ih =>
    cases c with
    | surrogate code => cases h
    | scalar c =>
      obtain ⟨rest, hrest, rfl⟩ := Option.map_eq_some_iff.mp h
      rw [ih hrest]
      rfl

theorem ofChars_injective {first second : List Char} (h : ofChars first = ofChars second) :
    first = second := by
  have hchars := congrArg chars? h
  rw [chars?_ofChars, chars?_ofChars] at hchars
  exact Option.some.inj hchars

theorem ofChars_append (first second : List Char) :
    ofChars (first ++ second) = ofChars first ++ ofChars second :=
  List.map_append

/-- The parts of a text without surrogates are without them. -/
theorem ofChars_eq_append {text : List Char} {first second : PyStr}
    (h : ofChars text = first ++ second) :
    ∃ front rest, text = front ++ rest ∧ first = ofChars front ∧ second = ofChars rest := by
  obtain ⟨front, rest, htext, hfront, hrest⟩ := List.map_eq_append_iff.mp h
  exact ⟨front, rest, htext, hfront.symm, hrest.symm⟩

theorem ofChars_eq_append_append {text : List Char} {first second third : PyStr}
    (h : ofChars text = first ++ second ++ third) :
    ∃ front inner rest, text = front ++ inner ++ rest ∧ first = ofChars front ∧
      second = ofChars inner ∧ third = ofChars rest := by
  obtain ⟨both, rest, rfl, hboth, hrest⟩ := ofChars_eq_append h
  obtain ⟨front, inner, rfl, hfront, hinner⟩ := ofChars_eq_append hboth.symm
  exact ⟨front, inner, rest, rfl, hfront, hinner, hrest⟩

end PyStr

theorem encode_ofChars (text : List Char) : encode (PyStr.ofChars text) = some (encodeChars text) := by
  rw [encode, PyStr.chars?_ofChars, Option.map_some]

theorem encode_eq_some {text : PyStr} {raw : List UInt8} (h : encode text = some raw) :
    ∃ chars, text = PyStr.ofChars chars ∧ raw = encodeChars chars := by
  obtain ⟨chars, hchars, rfl⟩ := Option.map_eq_some_iff.mp h
  exact ⟨chars, PyStr.eq_ofChars hchars, rfl⟩

/-- What is encoded is encoded part by part. -/
theorem encode_append_isSome {first second : PyStr} :
    (encode (first ++ second)).isSome ↔ (encode first).isSome ∧ (encode second).isSome := by
  constructor
  · intro h
    obtain ⟨raw, hraw⟩ := Option.isSome_iff_exists.mp h
    obtain ⟨chars, hchars, -⟩ := encode_eq_some hraw
    obtain ⟨front, rest, -, rfl, rfl⟩ := PyStr.ofChars_eq_append hchars.symm
    rw [encode_ofChars, encode_ofChars]
    exact ⟨rfl, rfl⟩
  · rintro ⟨hfirst, hsecond⟩
    obtain ⟨raw, hraw⟩ := Option.isSome_iff_exists.mp hfirst
    obtain ⟨raw', hraw'⟩ := Option.isSome_iff_exists.mp hsecond
    obtain ⟨front, rfl, -⟩ := encode_eq_some hraw
    obtain ⟨rest, rfl, -⟩ := encode_eq_some hraw'
    rw [← PyStr.ofChars_append, encode_ofChars]
    rfl

/-! ## Printed lines -/

open Reading in
/-- A header without a newline is the first line of a reply. -/
theorem firstLine_ofString {header : String} (h : '\n' ∉ header.toList) (body : PyStr) :
    firstLine (.scalar '\n') (PyStr.ofString (header ++ "\n") ++ body) =
      (PyStr.ofChars header.toList, body) := by
  have hmark : PyChar.scalar '\n' ∉ PyStr.ofChars header.toList := by
    simpa [PyStr.ofChars] using h
  have hreply : PyStr.ofString (header ++ "\n") ++ body =
      PyStr.ofChars header.toList ++ .scalar '\n' :: body := by
    simp [PyStr.ofString, PyStr.ofChars]
  rw [hreply, firstLine_append hmark]

@[simp] theorem toString_string (text : String) : toString text = text := rfl

@[simp] theorem toList_toString (n : ℕ) : (toString n).toList = Nat.toDigits 10 n := Nat.toList_repr

theorem newline_not_mem_toDigits (n : ℕ) : '\n' ∉ Nat.toDigits 10 n := fun h => by
  have hdigit := Digits.isDigit_toDigits n _ h
  revert hdigit
  decide

/-- A line of a text has no end of a line in it. -/
theorem not_isLineBreak_of_mem_lines {text line : List Char} {c : Char}
    (hline : line ∈ Filesystem.lines text) (hc : c ∈ line) : Sandbox.isLineBreak c = false := by
  fun_induction Filesystem.lines text generalizing line with
  | case1 => cases hline
  | case2 cs ih =>
    rcases List.mem_cons.mp hline with rfl | hline
    · cases hc
    · exact ih hline hc
  | case3 d cs _ hbreak ih =>
    rcases List.mem_cons.mp hline with rfl | hline
    · cases hc
    · exact ih hline hc
  | case4 d cs _ hbreak hlines ih =>
    obtain rfl := List.mem_singleton.mp hline
    obtain rfl := List.mem_singleton.mp hc
    simpa using hbreak
  | case5 d cs _ hbreak first rest hlines ih =>
    rw [hlines] at ih
    rcases List.mem_cons.mp hline with rfl | hline
    · rcases List.mem_cons.mp hc with rfl | hc
      · simpa using hbreak
      · exact ih List.mem_cons_self hc
    · exact ih (List.mem_cons_of_mem first hline) hc

/-- No line has a newline. -/
theorem newline_not_mem_of_mem_lines {text line : List Char} (hline : line ∈ Filesystem.lines text) :
    '\n' ∉ line := fun hc => by
  have hbreak := not_isLineBreak_of_mem_lines hline hc
  revert hbreak
  decide

/-! ## Newlines -/

namespace Chunker

theorem not_mem_normalizeNewlines (text : List Char) : '\r' ∉ normalizeNewlines text := by
  fun_induction normalizeNewlines text with
  | case1 => simp
  | case2 c =>
    split
    · decide
    · rename_i hc
      simpa [eq_comm] using hc
  | case3 d cs ih1 ih2 =>
    split
    · simpa using ih1
    · simpa using ih2
  | case4 c d cs hc ih =>
    rw [List.mem_cons, not_or]
    exact ⟨Ne.symm hc, ih⟩

theorem normalizeNewlines_eq_self {text : List Char} (h : '\r' ∉ text) :
    normalizeNewlines text = text := by
  fun_induction normalizeNewlines text with
  | case1 => rfl
  | case2 c =>
    rw [List.mem_singleton, eq_comm] at h
    rw [if_neg h]
  | case3 d cs ih1 ih2 => exact absurd List.mem_cons_self h
  | case4 c d cs hc ih => rw [ih fun hm => h (List.mem_cons_of_mem _ hm)]

end Chunker

end Eventide
