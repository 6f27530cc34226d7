import Eventide.Verification.Rag.Windows
import Mathlib.Data.List.Pairwise
import Mathlib.Data.List.Forall2

/-! # Chunks of a document

The sections of a text leave out nothing but blanks, so the chunks leave out what the blank
windows of its sections leave out, and nothing else. -/

namespace Eventide.Chunker

open Text

variable {text : List Char}

/-! ## Line numbers -/

theorem lt_of_mem_startsFrom {offset i : ℕ} (h : i ∈ startsFrom offset text) : offset < i := by
  induction text generalizing offset with
  | nil => cases h
  | cons c cs ih =>
    unfold startsFrom at h
    split at h
    · rcases List.mem_cons.mp h with rfl | h
      · omega
      · have := ih h
        omega
    · have := ih h
      omega

theorem takeWhile_startsFrom (offset p : ℕ) :
    ((startsFrom offset text).takeWhile (· ≤ offset + p)).length = (text.take p).count '\n' := by
  induction text generalizing offset p with
  | nil => simp [startsFrom]
  | cons c cs ih =>
    cases p with
    | zero =>
      have hnone : (startsFrom offset (c :: cs)).takeWhile (· ≤ offset + 0) = [] := by
        cases hstarts : startsFrom offset (c :: cs) with
        | nil => rfl
        | cons i rest =>
          have hmem : i ∈ startsFrom offset (c :: cs) := hstarts ▸ List.mem_cons_self
          have := lt_of_mem_startsFrom hmem
          simp [this]
      rw [hnone]
      rfl
    | succ p =>
      have hnext : offset + (p + 1) = offset + 1 + p := by omega
      rw [hnext]
      unfold startsFrom
      split
      · rename_i hc
        have hle : offset + 1 ≤ offset + 1 + p := by omega
        simp [hc, ih, hle]
      · rename_i hc
        simp [hc, ih]

/-- The number of a line is one more than the newlines before it. -/
theorem lineNumber_lineStarts (offset : ℕ) :
    lineNumber (lineStarts text) offset = 1 + (text.take offset).count '\n' := by
  have h := @takeWhile_startsFrom text 0 offset
  rw [Nat.zero_add] at h
  simp only [lineNumber, bisectRight, lineStarts, List.takeWhile_cons, Nat.zero_le, decide_true,
    if_true, List.length_cons, h]
  omega

/-! ## Sections -/

/-- Ordered sections that leave out only blanks before a place. -/
structure Parted (text : List Char) (parts : List Section) (bound : ℕ) : Prop where
  inside : ∀ part ∈ parts, part.start ≤ part.stop ∧ part.stop ≤ bound
  ordered : parts.Pairwise (·.stop ≤ ·.start)
  whole : ∀ q c, q < bound → text[q]? = some c → RuntimeStore.isSpace c = false →
    ∃ part ∈ parts, part.start ≤ q ∧ q < part.stop

theorem parted_closeSection {outline : Outline}
    (h : Parted text outline.sections outline.sectionStart)
    (hstart : outline.sectionStart ≤ outline.offset) :
    Parted text (closeSection text outline) outline.offset := by
  unfold closeSection
  split
  case isTrue hclose =>
    refine ⟨fun part hpart => ?_, List.pairwise_append.mpr ⟨h.ordered, List.pairwise_singleton _ _,
      fun part hpart last hlast => ?_⟩, fun q c hq hc hspace => ?_⟩
    · rcases List.mem_append.mp hpart with hpart | hpart
      · have := h.inside part hpart
        omega
      · obtain rfl := List.mem_singleton.mp hpart
        exact ⟨hstart, le_refl _⟩
    · obtain rfl := List.mem_singleton.mp hlast
      exact (h.inside part hpart).2
    · by_cases hbefore : q < outline.sectionStart
      · obtain ⟨part, hpart, hin⟩ := h.whole q c hbefore hc hspace
        exact ⟨part, List.mem_append_left _ hpart, hin⟩
      · exact ⟨_, List.mem_append_right _ List.mem_cons_self, Nat.le_of_not_lt hbefore, hq⟩
  case isFalse hopen =>
    refine ⟨fun part hpart => ?_, h.ordered, fun q c hq hc hspace => ?_⟩
    · have := h.inside part hpart
      omega
    · by_cases hbefore : q < outline.sectionStart
      · exact h.whole q c hbefore hc hspace
      · -- What is not closed here is blank.
        have hblank : isBlank (slice text outline.sectionStart outline.offset) = true := by
          by_contra hne
          exact hopen ⟨by omega, hne⟩
        have := isBlank_slice.mp hblank q c (Nat.le_of_not_lt hbefore) hq hc
        rw [hspace] at this
        cases this

/-- What the loop over the lines keeps. -/
structure Outlined (text : List Char) (lines : List (List Char)) (outline : Outline) : Prop where
  parted : Parted text outline.sections outline.sectionStart
  start_le : outline.sectionStart ≤ outline.offset
  offset : outline.offset = lines.flatten.length

theorem outlined_addLine {lines : List (List Char)} {outline : Outline} (line : List Char)
    (h : Outlined text lines outline) :
    Outlined text (lines ++ [line]) (addLine text outline line) := by
  have hoffset : outline.offset + line.length = (lines ++ [line]).flatten.length := by
    simp [h.offset]
  unfold addLine
  dsimp only
  split
  · exact ⟨h.parted, Nat.le_add_right_of_le h.start_le, hoffset⟩
  · exact ⟨parted_closeSection h.parted h.start_le, Nat.le_add_right _ _, hoffset⟩

theorem outlined_foldl (lines : List (List Char)) :
    Outlined text lines (lines.foldl (addLine text) {}) := by
  induction lines using List.reverseRecOn with
  | nil => exact ⟨⟨by simp, List.Pairwise.nil, by simp⟩, le_refl _, rfl⟩
  | append_singleton lines line ih =>
    rw [List.foldl_append]
    exact outlined_addLine line ih

theorem parted_sections (path : String) (text : List Char) :
    Parted text (sections path text) text.length := by
  unfold sections
  split
  · have h := @outlined_foldl text (splitLines endsLine text)
    have hclosed := parted_closeSection h.parted h.start_le
    rw [h.offset, flatten_splitLines] at hclosed
    exact hclosed
  · refine ⟨by simp [wholeText], List.pairwise_singleton _ _, fun q c hq _ _ => ?_⟩
    exact ⟨_, List.mem_cons_self, Nat.zero_le _, hq⟩

/-! ## The chunks -/

/-- The windows of all sections, in order. -/
def spans (path : String) (text : List Char) : List (ℕ × ℕ) :=
  (sections path text).flatMap fun part => windows text part.stop part.start

/-- A chunk is the text of a window, with the lines it stands on. -/
structure Cites (path : String) (text : List Char) (window : ℕ × ℕ) (chunk : Chunk) : Prop where
  startLine : chunk.startLine = 1 + (text.take window.1).count '\n'
  endLine : chunk.endLine = 1 + (text.take (window.2 - 1)).count '\n'
  file : chunk.file = path
  text : chunk.text = slice text window.1 window.2
  stop : window.2 = window.1 + chunk.text.length
  length : 1 ≤ chunk.text.length ∧ chunk.text.length ≤ 800

theorem cites_chunkOf {path heading : String} {start stop : ℕ} {window : ℕ × ℕ}
    (hstop : stop ≤ text.length) (h : Window text stop start window) :
    Cites path text window (chunkOf path text (lineStarts text) heading window) := by
  have hlength : (slice text window.1 window.2).length = window.2 - window.1 := by
    have := h.inside
    rw [length_slice]
    omega
  have hlt := h.start_lt
  have hshort := h.short
  have hlast : max window.1 (window.2 - 1) = window.2 - 1 := by omega
  exact {
    file := rfl
    text := rfl
    stop := by simp only [chunkOf, hlength]; omega
    length := by simp only [chunkOf, hlength]; omega
    startLine := lineNumber_lineStarts _
    endLine := by simp only [chunkOf, hlast, lineNumber_lineStarts] }

theorem windows_of_blank (h : isBlank text = true) (sectionEnd cursor : ℕ) :
    windows text sectionEnd cursor = [] := by
  rw [windows]
  split
  · have hblank (start stop : ℕ) : isBlank (slice text start stop) = true := by
      refine isBlank_slice.mpr fun q c _ _ hc => ?_
      exact List.all_eq_true.mp h c (List.mem_of_getElem? hc)
    rw [if_pos (hblank _ _)]
  · rfl

theorem spans_of_blank (h : isBlank text = true) (path : String) : spans path text = [] := by
  simp [spans, windows_of_blank h]

/-- What the windows of the sections are, whatever they leave out. -/
structure Cut (file : String) (text : List Char) : Prop where
  cited : List.Forall₂ (Cites (asPosix file) (normalizeNewlines text))
    (spans (asPosix file) (normalizeNewlines text)) (chunkDocument file text)
  increasing : (spans (asPosix file) (normalizeNewlines text)).Pairwise (·.1 < ·.1)
  gapless : ∀ part ∈ sections (asPosix file) (normalizeNewlines text),
    (windows (normalizeNewlines text) part.stop part.start).IsChain fun a b => b.1 ≤ a.2

theorem cut_chunkDocument (file : String) (text : List Char) : Cut file text := by
  have hparts := parted_sections (asPosix file) (normalizeNewlines text)
  have hspec (part : Section) (hpart : part ∈ sections (asPosix file) (normalizeNewlines text)) :=
    @windows_spec _ _ part.start (hparts.inside part hpart).2
  refine ⟨?_, ?_, fun part hpart => (hspec part hpart).2.2.1⟩
  · unfold chunkDocument
    dsimp only
    split
    case isTrue hblank =>
      rw [spans_of_blank hblank]
      exact .nil
    case isFalse =>
      unfold spans
      refine List.rel_flatMap (R := fun a b => a = b ∧
        a ∈ sections (asPosix file) (normalizeNewlines text)) ?_ ?_
      · exact List.forall₂_same.mpr fun part hpart => And.intro rfl hpart
      · intro part other ⟨heq, hpart⟩
        subst heq
        rw [List.forall₂_map_right_iff]
        refine List.forall₂_same.mpr fun window hwindow => ?_
        exact cites_chunkOf (hparts.inside part hpart).2 ((hspec part hpart).1 window hwindow)
  · refine List.pairwise_flatMap.mpr ⟨fun part hpart => (hspec part hpart).2.1, ?_⟩
    refine hparts.ordered.imp_of_mem fun {part next} hpart hnext horder w hw v hv => ?_
    have hw' := (hspec part hpart).1 w hw
    have hv' := (hspec next hnext).1 v hv
    have := hw'.start_lt
    have := hw'.inside
    have := hv'.start_le
    omega

theorem apart {parts : List Section} (h : parts.Pairwise (·.stop ≤ ·.start)) {part other : Section}
    (hpart : part ∈ parts) (hother : other ∈ parts) (hne : part ≠ other) :
    part.stop ≤ other.start ∨ other.stop ≤ part.start := by
  have hapart : parts.Pairwise fun a b => a.stop ≤ b.start ∨ b.stop ≤ a.start := h.imp Or.inl
  have hsymm : Std.Symm fun a b : Section => a.stop ≤ b.start ∨ b.stop ≤ a.start :=
    ⟨fun _ _ hor => hor.symm⟩
  exact hapart.forall hpart hother hne

/-- Every character that is no blank is in some chunk. -/
structure ChunkLaws (file : String) (text : List Char) : Prop extends Cut file text where
  covered : ∀ q c, (normalizeNewlines text)[q]? = some c → RuntimeStore.isSpace c = false →
    ∃ window ∈ spans (asPosix file) (normalizeNewlines text), window.1 ≤ q ∧ q < window.2

/-- The chunks cover a text exactly if no section has more than blanks after a blank window. -/
theorem chunk_coverage (file : String) (text : List Char) : ChunkLaws file text ↔
    ∀ part ∈ sections (asPosix file) (normalizeNewlines text),
      BlankToEnd (normalizeNewlines text) part.stop part.start := by
  have hparts := parted_sections (asPosix file) (normalizeNewlines text)
  constructor
  · intro h part hpart
    have hstop := (hparts.inside part hpart).2
    refine blankToEnd_of_covered hstop part.start (fun hin => ?_) fun q c hq hlt hc hspace => ?_
    · exact (windowEnd_spec hstop hin).1.le
    · obtain ⟨window, hwindow, hcover⟩ := h.covered q c hc hspace
      obtain ⟨other, hother, hin⟩ := List.mem_flatMap.mp hwindow
      have hspan := (windows_spec (hparts.inside other hother).2).1 window hin
      have hsame : other = part := by
        by_contra hne
        have := apart hparts.ordered hother hpart hne
        have := hspan.start_le
        have := hspan.inside
        omega
      exact ⟨window, hsame ▸ hin, hcover⟩
  · intro h
    refine ⟨cut_chunkDocument file text, fun q c hc hspace => ?_⟩
    obtain ⟨hq, -⟩ := List.getElem?_eq_some_iff.mp hc
    obtain ⟨part, hpart, hstart, hstop⟩ := hparts.whole q c hq hc hspace
    obtain ⟨window, hwindow, hcover⟩ :=
      covered_of_blankToEnd (hparts.inside part hpart).2 (h part hpart) q c hstart hstop hc hspace
    exact ⟨window, List.mem_flatMap.mpr ⟨part, hpart, hwindow⟩, hcover⟩

theorem normalizeNewlines_eq {text : List Char} (h : '\r' ∉ text) :
    normalizeNewlines text = text := by
  fun_induction normalizeNewlines text with
  | case1 => rfl
  | case2 c =>
    have hc : c ≠ '\r' := fun hc => h (hc ▸ List.mem_cons_self)
    rw [if_neg hc]
  | case3 => exact absurd List.mem_cons_self h
  | case4 c d cs hc ih =>
    rw [ih fun hin => h (List.mem_cons_of_mem _ hin)]

/-- Blank lines, and then a word. -/
def blankStart : List Char := List.replicate 900 '\n' ++ ['x']

theorem length_blankStart : blankStart.length = 901 := by
  rw [blankStart, List.length_append, List.length_replicate]
  rfl

theorem getElem?_blankStart {q : ℕ} (h : q < 900) : blankStart[q]? = some '\n' := by
  rw [blankStart, List.getElem?_append_left (by rwa [List.length_replicate]),
    List.getElem?_replicate, if_pos h]

theorem windows_blankStart : windows blankStart 901 0 = [] := by
  have hlength := length_blankStart
  have hlt : 0 < min 901 blankStart.length := by
    omega
  have hend : windowEnd blankStart 901 0 ≤ 800 := by
    have := (windowEnd_spec length_blankStart.ge (by omega : 0 < 901)).2.1
    omega
  have hblank : isBlank (slice blankStart 0 (windowEnd blankStart 901 0)) = true := by
    refine isBlank_slice.mpr fun q c _ hq hc => ?_
    rw [getElem?_blankStart (by omega)] at hc
    cases hc
    rfl
  rw [windows, if_pos hlt]
  exact if_pos hblank

theorem chunk_coverage_false : ¬ ChunkLaws "notes.txt" blankStart := by
  intro h
  have hnormal : normalizeNewlines blankStart = blankStart := by
    refine normalizeNewlines_eq fun hin => ?_
    rcases List.mem_append.mp hin with hin | hin
    · cases List.eq_of_mem_replicate hin
    · cases List.mem_singleton.mp hin
  have hplain : isMarkdown (asPosix "notes.txt") = false := by decide +kernel
  have hnone : spans (asPosix "notes.txt") blankStart = [] := by
    simp [spans, sections, hplain, wholeText, length_blankStart, windows_blankStart]
  have hlast : blankStart[900]? = some 'x' := by
    rw [blankStart, List.getElem?_append_right (by rw [List.length_replicate]),
      List.length_replicate]
    rfl
  obtain ⟨window, hwindow, -⟩ := h.covered 900 'x' (by rw [hnormal, hlast]) (by decide)
  rw [hnormal, hnone] at hwindow
  cases hwindow

end Eventide.Chunker
