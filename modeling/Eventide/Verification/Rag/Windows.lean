import Eventide.Model.Chunker

/-! # Windows of a section

Where the windows of a section lie, and which characters the blank window that ends them
leaves out. -/

namespace Eventide.Chunker

open Text

variable {text : List Char} {sectionEnd cursor : ℕ}

/-! ## The end of a window -/

/-- Every way `_preferred_end` chooses an end. -/
theorem preferredEnd_cases (text : List Char) :
    (preferredEnd text 0 = text.length ∧ text.length ≤ 800) ∨
    (800 < text.length ∧
      ((∃ i, rfind ['\n', '\n'] text 600 800 = some i ∧ preferredEnd text 0 = i + 2) ∨
      (rfind ['\n', '\n'] text 600 800 = none ∧
        ∃ i, rfind ['\n'] text 600 800 = some i ∧ preferredEnd text 0 = i + 1) ∨
      (rfind ['\n', '\n'] text 600 800 = none ∧ rfind ['\n'] text 600 800 = none ∧
        preferredEnd text 0 = 800))) := by
  unfold preferredEnd
  simp only [Nat.zero_add, maxChunkChars, minChunkChars]
  by_cases hlong : 800 < text.length
  · have hlimit : min 800 text.length = 800 := by omega
    have hminimum : min 600 800 = 600 := rfl
    have hne : ¬ 800 = text.length := by omega
    rw [hlimit, hminimum, if_neg hne]
    refine .inr ⟨hlong, ?_⟩
    cases hblank : rfind ['\n', '\n'] text 600 800 with
    | some i => exact .inl ⟨i, rfl, rfl⟩
    | none =>
      cases hnewline : rfind ['\n'] text 600 800 with
      | some i => exact .inr (.inl ⟨rfl, i, rfl, rfl⟩)
      | none => exact .inr (.inr ⟨rfl, rfl, rfl⟩)
  · have hlimit : min 800 text.length = text.length := by omega
    rw [hlimit, if_pos rfl]
    exact .inl ⟨rfl, by omega⟩

theorem preferredEnd_le (text : List Char) :
    preferredEnd text 0 ≤ 800 ∧ preferredEnd text 0 ≤ text.length := by
  obtain ⟨hend, hshort⟩ | ⟨hlong, ⟨i, hi, hend⟩ | ⟨-, i, hi, hend⟩ | ⟨-, -, hend⟩⟩ :=
    preferredEnd_cases text
  · omega
  · have := (rfind_eq_some hi).2.1
    simp only [List.length_cons, List.length_nil] at this
    omega
  · have := (rfind_eq_some hi).2.1
    simp only [List.length_cons, List.length_nil] at this
    omega
  · omega

theorem windowEnd_spec (hstop : sectionEnd ≤ text.length) (h : cursor < sectionEnd) :
    cursor < windowEnd text sectionEnd cursor ∧
      windowEnd text sectionEnd cursor ≤ cursor + 800 ∧
      windowEnd text sectionEnd cursor ≤ sectionEnd := by
  have hlength := length_slice text cursor sectionEnd
  have hle := preferredEnd_le (slice text cursor sectionEnd)
  have hpos := @preferredEnd_pos (slice text cursor sectionEnd) (by omega)
  unfold windowEnd
  omega

theorem nextCursor_le (hstop : sectionEnd ≤ text.length) (h : cursor < sectionEnd) :
    nextCursor text sectionEnd cursor ≤ windowEnd text sectionEnd cursor := by
  have hend := windowEnd_spec hstop h
  have hoverlap : overlapStart (slice text cursor sectionEnd) 0
      (windowEnd text sectionEnd cursor - cursor) ≤ windowEnd text sectionEnd cursor - cursor :=
    Nat.min_le_right _ _
  unfold nextCursor
  dsimp only
  split
  · exact le_refl _
  · omega

/-- A break stands at a place of the section. -/
def BreakAt (text : List Char) (sectionEnd : ℕ) (sub : List Char) (i : ℕ) : Prop :=
  i + sub.length ≤ sectionEnd ∧ slice text i (i + sub.length) = sub

theorem slice_of_cursor {sub : List Char} {i : ℕ} (hi : cursor + i + sub.length ≤ sectionEnd) :
    slice (slice text cursor sectionEnd) i (i + sub.length) =
      slice text (cursor + i) (cursor + i + sub.length) := by
  rw [slice_slice _ _ _ _ _ (by omega), Nat.add_assoc]

/-- What a search in the window at a cursor finds. -/
theorem rfind_window (hstop : sectionEnd ≤ text.length)
    (hlong : 800 < (slice text cursor sectionEnd).length) {sub : List Char} {i : ℕ}
    (h : rfind sub (slice text cursor sectionEnd) 600 800 = some i) :
    BreakAt text sectionEnd sub (cursor + i) ∧ 600 ≤ i ∧ i + sub.length ≤ 800 ∧
      ∀ j, BreakAt text sectionEnd sub j → cursor + 600 ≤ j → j + sub.length ≤ cursor + 800 →
        j ≤ cursor + i := by
  obtain ⟨hstart, hend, hsub⟩ := rfind_eq_some h
  have hlength := length_slice text cursor sectionEnd
  rw [slice_of_cursor (by omega)] at hsub
  refine ⟨⟨by omega, hsub⟩, hstart, by omega, fun j hj hlow hhigh => ?_⟩
  have hj' : slice (slice text cursor sectionEnd) (j - cursor) (j - cursor + sub.length) = sub := by
    have hplace : cursor + (j - cursor) = j := by omega
    rw [slice_of_cursor (by omega), hplace]
    exact hj.2
  have := le_rfind h (by omega) (by omega) hj'
  omega

/-- Where a search finds nothing. -/
theorem rfind_window_none (hlong : 800 < (slice text cursor sectionEnd).length) {sub : List Char}
    (h : rfind sub (slice text cursor sectionEnd) 600 800 = none) {j : ℕ}
    (hj : BreakAt text sectionEnd sub j) (hlow : cursor + 600 ≤ j) :
    cursor + 800 < j + sub.length := by
  by_contra hhigh
  have hlength := length_slice text cursor sectionEnd
  have hj' : slice (slice text cursor sectionEnd) (j - cursor) (j - cursor + sub.length) = sub := by
    have hplace : cursor + (j - cursor) = j := by omega
    rw [slice_of_cursor (by have := hj.1; omega), hplace]
    exact hj.2
  have hstart : 600 ≤ j - cursor := by omega
  have hfits : j - cursor + sub.length ≤ min 800 (slice text cursor sectionEnd).length := by omega
  obtain ⟨i, hi, -⟩ := rfind_isSome hstart hfits hj'
  rw [hi] at h
  cases h

/-- A later window does not end earlier. -/
theorem windowEnd_mono {next : ℕ} (hstop : sectionEnd ≤ text.length) (hnext : cursor < next)
    (hle : next ≤ windowEnd text sectionEnd cursor)
    (hinside : windowEnd text sectionEnd cursor < sectionEnd) :
    windowEnd text sectionEnd cursor ≤ windowEnd text sectionEnd next := by
  have hlength := length_slice text cursor sectionEnd
  have hlength' := length_slice text next sectionEnd
  unfold windowEnd at hle hinside ⊢
  obtain ⟨hend', -⟩ | ⟨hlong', hfound'⟩ := preferredEnd_cases (slice text next sectionEnd)
  · omega
  obtain ⟨hend, -⟩ | ⟨hlong, hfound⟩ := preferredEnd_cases (slice text cursor sectionEnd)
  · omega
  have hpair {i : ℕ} (hi : rfind ['\n', '\n'] (slice text next sectionEnd) 600 800 = some i) :=
    rfind_window hstop hlong' hi
  have hline {i : ℕ} (hi : rfind ['\n'] (slice text next sectionEnd) 600 800 = some i) :=
    rfind_window hstop hlong' hi
  simp only [List.length_cons, List.length_nil] at hpair hline
  -- A break of the earlier window that is in range for the later one is found there too, and one
  -- of the later window that is in range for the earlier one was found there.
  obtain ⟨i, hi, hend⟩ | ⟨hnone, i, hi, hend⟩ | ⟨hnone, hnone', hend⟩ := hfound
  · obtain ⟨hbreak, hlow, hhigh, -⟩ := rfind_window hstop hlong hi
    simp only [List.length_cons, List.length_nil] at hhigh
    obtain ⟨j, hj, hend'⟩ | ⟨hnonej, j, hj, hend'⟩ | ⟨hnonej, -, hend'⟩ := hfound'
    · obtain ⟨-, hlowj, -, hlast⟩ := hpair hj
      have := hlast _ hbreak
      omega
    · obtain ⟨-, hlowj, -, -⟩ := hline hj
      have := rfind_window_none hlong' hnonej hbreak
      simp only [List.length_cons, List.length_nil] at this
      omega
    · omega
  · obtain ⟨hbreak, hlow, hhigh, -⟩ := rfind_window hstop hlong hi
    simp only [List.length_cons, List.length_nil] at hhigh
    obtain ⟨j, hj, hend'⟩ | ⟨-, j, hj, hend'⟩ | ⟨-, -, hend'⟩ := hfound'
    · obtain ⟨hbreakj, hlowj, -, -⟩ := hpair hj
      have := rfind_window_none hlong hnone hbreakj
      simp only [List.length_cons, List.length_nil] at this
      omega
    · obtain ⟨-, hlowj, -, hlast⟩ := hline hj
      have := hlast _ hbreak
      omega
    · omega
  · obtain ⟨j, hj, hend'⟩ | ⟨-, j, hj, hend'⟩ | ⟨-, -, hend'⟩ := hfound'
    · obtain ⟨hbreakj, hlowj, -, -⟩ := hpair hj
      have := rfind_window_none hlong hnone hbreakj
      simp only [List.length_cons, List.length_nil] at this
      omega
    · obtain ⟨hbreakj, hlowj, -, -⟩ := hline hj
      have := rfind_window_none hlong hnone' hbreakj
      simp only [List.length_cons, List.length_nil] at this
      omega
    · omega

theorem lt_of_lt_min (h : cursor < min sectionEnd text.length) : cursor < sectionEnd :=
  Nat.lt_of_lt_of_le h (Nat.min_le_left _ _)

/-! ## The walk -/

/-- The cursors of a section, were no blank window to end it. -/
inductive Reached (text : List Char) (sectionEnd start : ℕ) : ℕ → Prop
  | start : Reached text sectionEnd start start
  | next {cursor : ℕ} (h : Reached text sectionEnd start cursor) (hin : cursor < sectionEnd)
      (hmore : windowEnd text sectionEnd cursor < sectionEnd) :
      Reached text sectionEnd start (nextCursor text sectionEnd cursor)

/-- Wherever the walk meets a blank window, the rest of the section is blank. -/
def BlankToEnd (text : List Char) (sectionEnd start : ℕ) : Prop :=
  ∀ cursor, Reached text sectionEnd start cursor → cursor < sectionEnd →
    isBlank (slice text cursor (windowEnd text sectionEnd cursor)) = true →
    isBlank (slice text cursor sectionEnd) = true

/-- One window at a cursor. -/
structure Window (text : List Char) (sectionEnd start : ℕ) (window : ℕ × ℕ) : Prop where
  start_le : start ≤ window.1
  start_lt : window.1 < window.2
  short : window.2 ≤ window.1 + 800
  inside : window.2 ≤ sectionEnd

theorem windows_spec (hstop : sectionEnd ≤ text.length) :
    (∀ w ∈ windows text sectionEnd cursor, Window text sectionEnd cursor w) ∧
      (windows text sectionEnd cursor).Pairwise (·.1 < ·.1) ∧
      (windows text sectionEnd cursor).IsChain (fun a b => b.1 ≤ a.2) ∧
      ∀ w ∈ (windows text sectionEnd cursor).head?, w.1 = cursor := by
  induction cursor using windows.induct text sectionEnd with
  | case1 cursor hin stop hblank =>
    rw [windows, if_pos hin, if_pos hblank]
    simp
  | case2 cursor hin stop hblank hlast =>
    have hend := windowEnd_spec hstop (lt_of_lt_min hin)
    rw [windows, if_pos hin, if_neg hblank, if_pos hlast]
    refine ⟨fun w hw => ?_, List.pairwise_singleton _ _, List.isChain_singleton _, by simp⟩
    obtain rfl := List.mem_singleton.mp hw
    exact ⟨le_refl _, hend.1, hend.2.1, hend.2.2⟩
  | case3 cursor hin stop hblank hmore ih =>
    have hend := windowEnd_spec hstop (lt_of_lt_min hin)
    have hnext := lt_nextCursor hin
    have hle := nextCursor_le hstop (lt_of_lt_min hin)
    obtain ⟨hall, hsorted, hchain, hhead⟩ := ih
    rw [windows, if_pos hin, if_neg hblank, if_neg hmore]
    refine ⟨List.forall_mem_cons.mpr ⟨⟨le_refl _, hend.1, hend.2.1, hend.2.2⟩, fun w hw => ?_⟩,
      List.pairwise_cons.mpr ⟨fun w hw => ?_, hsorted⟩,
      List.isChain_cons.mpr ⟨fun w hw => ?_, hchain⟩, by simp⟩
    · have hw' := hall w hw
      exact { hw' with start_le := by have := hw'.start_le; omega }
    · have := (hall w hw).start_le
      exact Nat.lt_of_lt_of_le hnext this
    · rw [hhead w hw]
      exact hle
  | case4 cursor hin =>
    rw [windows, if_neg hin]
    simp

/-! ## What the windows leave out -/

theorem isBlank_slice {start stop : ℕ} : isBlank (slice text start stop) = true ↔
    ∀ q c, start ≤ q → q < stop → text[q]? = some c → RuntimeStore.isSpace c = true := by
  rw [isBlank, List.all_eq_true]
  constructor
  · intro h q c hstart hstop hq
    exact h c (mem_slice.mpr ⟨q, hstart, hstop, hq⟩)
  · intro h c hc
    obtain ⟨q, hstart, hstop, hq⟩ := mem_slice.mp hc
    exact h q c hstart hstop hq

/-- A character of a range is in some window of a list. -/
def Covered (text : List Char) (ws : List (ℕ × ℕ)) (start stop : ℕ) : Prop :=
  ∀ q c, start ≤ q → q < stop → text[q]? = some c → RuntimeStore.isSpace c = false →
    ∃ w ∈ ws, w.1 ≤ q ∧ q < w.2

theorem Reached.cons {start c : ℕ} (hin : start < sectionEnd)
    (hmore : windowEnd text sectionEnd start < sectionEnd)
    (h : Reached text sectionEnd (nextCursor text sectionEnd start) c) :
    Reached text sectionEnd start c := by
  induction h with
  | start => exact .next .start hin hmore
  | next _ hin' hmore' ih => exact .next ih hin' hmore'

theorem Reached.cases_cons {start c : ℕ} (h : Reached text sectionEnd start c) : c = start ∨
    (start < sectionEnd ∧ windowEnd text sectionEnd start < sectionEnd ∧
      Reached text sectionEnd (nextCursor text sectionEnd start) c) := by
  induction h with
  | start => exact .inl rfl
  | next _ hin hmore ih =>
    rcases ih with rfl | ⟨hin', hmore', hrest⟩
    · exact .inr ⟨hin, hmore, .start⟩
    · exact .inr ⟨hin', hmore', .next hrest hin hmore⟩

theorem Reached.le {start c : ℕ} (hstop : sectionEnd ≤ text.length)
    (h : Reached text sectionEnd start c) : start ≤ c := by
  induction h with
  | start => exact le_refl _
  | @next cursor _ hin _ ih =>
    have := lt_nextCursor (show cursor < min sectionEnd text.length by omega)
    omega

/-- Nothing is left out where blank windows stand only before a blank end. -/
theorem covered_of_blankToEnd (hstop : sectionEnd ≤ text.length)
    (h : BlankToEnd text sectionEnd cursor) :
    Covered text (windows text sectionEnd cursor) cursor sectionEnd := by
  induction cursor using windows.induct text sectionEnd with
  | case1 cursor hin stop hblank =>
    intro q c hq hlt hc hspace
    have hrest := isBlank_slice.mp (h cursor .start (by omega) hblank) q c hq hlt hc
    rw [hspace] at hrest
    cases hrest
  | case2 cursor hin stop hblank hlast =>
    intro q c hq hlt hc hspace
    rw [windows, if_pos hin, if_neg hblank, if_pos hlast]
    exact ⟨_, List.mem_cons_self, hq, Nat.lt_of_lt_of_le hlt hlast⟩
  | case3 cursor hin stop hblank hmore ih =>
    have hle := nextCursor_le hstop (lt_of_lt_min hin)
    have hmore' : windowEnd text sectionEnd cursor < sectionEnd := Nat.lt_of_not_le hmore
    have hrest := ih fun c hc => h c (hc.cons (by omega) hmore')
    intro q c hq hlt hc hspace
    rw [windows, if_pos hin, if_neg hblank, if_neg hmore]
    by_cases hfirst : q < windowEnd text sectionEnd cursor
    · exact ⟨_, List.mem_cons_self, hq, hfirst⟩
    · obtain ⟨w, hw, hcover⟩ := hrest q c (by omega) hlt hc hspace
      exact ⟨w, List.mem_cons_of_mem _ hw, hcover⟩
  | case4 cursor hin =>
    intro q c hq hlt
    omega

/-- The walk from a cursor leaves nothing out past a place that its first window passes. -/
theorem blankToEnd_of_covered (hstop : sectionEnd ≤ text.length) : ∀ passed,
    (cursor < sectionEnd → passed ≤ windowEnd text sectionEnd cursor) →
    Covered text (windows text sectionEnd cursor) (max cursor passed) sectionEnd →
    BlankToEnd text sectionEnd cursor := by
  induction cursor using windows.induct text sectionEnd with
  | case1 cursor hin stop hblank =>
    intro passed hpassed h
    rw [windows, if_pos hin, if_pos hblank] at h
    have hrest : isBlank (slice text cursor sectionEnd) = true := by
      refine isBlank_slice.mpr fun q c hq hlt hc => ?_
      by_contra hspace
      by_cases hfirst : q < windowEnd text sectionEnd cursor
      · exact hspace (isBlank_slice.mp hblank q c hq hfirst hc)
      · have := hpassed (by omega)
        obtain ⟨w, hw, -⟩ := h q c (by omega) hlt hc (by simpa using hspace)
        cases hw
    intro c hc _ _
    have := hc.le hstop
    exact isBlank_slice.mpr fun q d hq hlt hd => isBlank_slice.mp hrest q d (by omega) hlt hd
  | case2 cursor hin stop hblank hlast =>
    intro passed hpassed h c hc hlt hwindow
    rcases hc.cases_cons with rfl | ⟨-, hmore, -⟩
    · exact absurd hwindow hblank
    · exact absurd hlast (Nat.not_le_of_lt hmore)
  | case3 cursor hin stop hblank hmore ih =>
    intro passed hpassed h
    have hmore' : windowEnd text sectionEnd cursor < sectionEnd := Nat.lt_of_not_le hmore
    have hnext := lt_nextCursor hin
    have hle := nextCursor_le hstop (lt_of_lt_min hin)
    have hmono := windowEnd_mono hstop hnext hle hmore'
    rw [windows, if_pos hin, if_neg hblank, if_neg hmore] at h
    have hrest := ih (windowEnd text sectionEnd cursor) (fun _ => hmono) (by
      intro q c hq hlt hc hspace
      have := hpassed (by omega)
      obtain ⟨w, hw, hcover⟩ := h q c (by omega) hlt hc hspace
      rcases List.mem_cons.mp hw with rfl | hw
      · have hlt' : q < windowEnd text sectionEnd cursor := hcover.2
        omega
      · exact ⟨w, hw, hcover⟩)
    intro c hc hlt hwindow
    rcases hc.cases_cons with rfl | ⟨-, -, hc⟩
    · exact absurd hwindow hblank
    · exact hrest c hc hlt hwindow
  | case4 cursor hin =>
    intro passed hpassed h c hc hlt
    rcases hc.cases_cons with rfl | ⟨hin', -, -⟩
    · omega
    · omega

end Eventide.Chunker
