import Eventide.Model.SandboxDiff

/-! # Reading an exported patch -/

namespace Eventide.Sandbox

open UnifiedDiff GitApply RuntimeStore

/-! ## The lines of a text -/

section Splitlines

variable {text : List Char} {line : Line}

theorem flatten_splitlines (text : List Char) : (splitlines text).flatten = text := by
  fun_induction splitlines text with
  | case1 => rfl
  | case2 cs ih => simp [ih]
  | case3 c cs _ hb ih => simp [ih]
  | case4 c cs _ hb hl ih => simpa [hl] using ih
  | case5 c cs _ hb first rest hl ih => simpa [hl] using ih

/-- A line has something in it, and a newline at its end only. -/
structure Simple (line : Line) : Prop where
  nonempty : line ≠ []
  inner : '\n' ∉ line.dropLast

theorem Simple.cons {c : Char} (h : Simple line) (hc : c ≠ '\n') : Simple (c :: line) := by
  refine ⟨by simp, ?_⟩
  rw [List.dropLast_cons_of_ne_nil h.nonempty]
  simp [Ne.symm hc, h.inner]

theorem simple_of_mem_splitlines (h : line ∈ splitlines text) : Simple line := by
  have hnewline : isLineBreak '\n' = true := by decide
  fun_induction splitlines text generalizing line with
  | case1 => simp at h
  | case2 cs ih =>
    rcases List.mem_cons.mp h with rfl | h
    · exact ⟨by simp, by decide⟩
    · exact ih h
  | case3 c cs _ hb ih =>
    rcases List.mem_cons.mp h with rfl | h
    · exact ⟨by simp, by simp⟩
    · exact ih h
  | case4 c cs _ hb hl ih =>
    rw [List.mem_singleton.mp h]
    exact ⟨by simp, by simp⟩
  | case5 c cs _ hb first rest hl ih =>
    have hc : c ≠ '\n' := by
      rintro rfl
      exact hb hnewline
    rcases List.mem_cons.mp h with rfl | h
    · exact (ih (by simp [hl])).cons hc
    · exact ih (by simp [hl, h])

/-- A line without a newline has it nowhere. -/
theorem Simple.free (h : Simple line) (hl : line.getLast? ≠ some '\n') : '\n' ∉ line := by
  rw [← List.dropLast_append_getLast h.nonempty, List.mem_append, not_or]
  refine ⟨h.inner, ?_⟩
  rw [List.getLast?_eq_some_getLast h.nonempty] at hl
  simpa [eq_comm] using hl

theorem Simple.terminated (h : Simple line) (hl : line.getLast? = some '\n') :
    Terminated line := by
  rw [List.getLast?_eq_some_getLast h.nonempty] at hl
  refine ⟨line.dropLast, ?_, h.inner⟩
  conv_lhs => rw [← List.dropLast_append_getLast h.nonempty, Option.some.inj hl]

theorem exportLine_terminated (h : Simple line) : ∀ l ∈ exportLine line, Terminated l := by
  unfold exportLine
  split_ifs with hl
  · simpa using h.terminated hl
  · intro l hm
    simp only [List.mem_cons, List.not_mem_nil, or_false] at hm
    rcases hm with rfl | rfl
    · exact ⟨line, rfl, h.free hl⟩
    · exact ⟨"\\ No newline at end of file".toList, rfl, by decide⟩

end Splitlines

/-! ## One hunk -/

section Hunks

variable {files : List FilePatch} {file : FilePatch} {h : Hunk Line} {edit : Edit Line}

/-- How many old lines an edit takes. -/
def oldCount (edit : Edit Line) : ℕ := edit.old?.toList.length

def newCount (edit : Edit Line) : ℕ := edit.new?.toList.length

theorem print_head (edit : Edit Line) : ∃ c, edit.print = c :: edit.line ∧ c ≠ '\n' ∧ c ≠ '\\' := by
  cases edit with
  | keep line => exact ⟨' ', rfl, by decide, by decide⟩
  | delete line => exact ⟨'-', rfl, by decide, by decide⟩
  | insert line => exact ⟨'+', rfl, by decide, by decide⟩

/-- The edit with a newline after its line. -/
def closed : Edit Line → Edit Line
  | .keep line => .keep (line ++ ['\n'])
  | .delete line => .delete (line ++ ['\n'])
  | .insert line => .insert (line ++ ['\n'])

theorem unterminated_closed (edit : Edit Line) : Edit.unterminated (closed edit) = edit := by
  cases edit <;> simp [closed, Edit.unterminated]

theorem print_closed (edit : Edit Line) : (closed edit).print = edit.print ++ ['\n'] := by
  cases edit <;> rfl

theorem oldCount_closed (edit : Edit Line) : oldCount (closed edit) = oldCount edit := by
  cases edit <;> rfl

theorem newCount_closed (edit : Edit Line) : newCount (closed edit) = newCount edit := by
  cases edit <;> rfl

/-- A line that a hunk has room for is read into it. -/
theorem step_print (edit : Edit Line) (oldLeft newLeft : ℕ) :
    Reader.step ⟨files, .body file h (oldLeft + oldCount edit) (newLeft + newCount edit)⟩ edit.print =
      some ⟨files, .body file (Hunk.push h edit) oldLeft newLeft⟩ := by
  cases edit <;>
    simp [Reader.step, Edit.print, oldCount, newCount, Edit.old?, Edit.new?, bodyLine]

theorem step_marker (oldLeft newLeft : ℕ) :
    Reader.step ⟨files, .body file (Hunk.push h (closed edit)) oldLeft newLeft⟩
      "\\ No newline at end of file\n".toList =
      some ⟨files, .body file (Hunk.push h edit) oldLeft newLeft⟩ := by
  simp [Reader.step, unterminateLast, Hunk.push, unterminated_closed]

theorem read_edit (edit : Edit Line) (oldLeft newLeft : ℕ) :
    (exportLine edit.print).foldlM Reader.step
      ⟨files, .body file h (oldLeft + oldCount edit) (newLeft + newCount edit)⟩ =
      some ⟨files, .body file (Hunk.push h edit) oldLeft newLeft⟩ := by
  unfold exportLine
  split_ifs
  · simp [step_print]
  · have hclosed : Reader.step ⟨files, .body file h (oldLeft + oldCount edit)
        (newLeft + newCount edit)⟩ (edit.print ++ ['\n']) =
        some ⟨files, .body file (Hunk.push h (closed edit)) oldLeft newLeft⟩ := by
      rw [← oldCount_closed, ← newCount_closed, ← print_closed]
      exact step_print (closed edit) oldLeft newLeft
    simp only [List.foldlM_cons, List.foldlM_nil, Option.bind_eq_bind, Option.bind_some,
      Option.pure_def, hclosed, step_marker]

theorem length_filterMap_cons {f : Edit Line → Option Line} (edit : Edit Line)
    (edits : List (Edit Line)) :
    ((edit :: edits).filterMap f).length = (edits.filterMap f).length + (f edit).toList.length := by
  cases hf : f edit <;> simp [hf]

/-- The lines of a hunk are read into it, and leave no room. -/
theorem read_edits (edits : List (Edit Line)) :
    (edits.flatMap fun edit => exportLine edit.print).foldlM Reader.step
      ⟨files, .body file h (edits.filterMap Edit.old?).length (edits.filterMap Edit.new?).length⟩ =
      some ⟨files, .body file { h with edits := h.edits ++ edits } 0 0⟩ := by
  induction edits generalizing h with
  | nil => simp
  | cons edit edits ih =>
    have hone : (exportLine edit.print).foldlM Reader.step
        ⟨files, .body file h ((edits.filterMap Edit.old?).length + oldCount edit)
          ((edits.filterMap Edit.new?).length + newCount edit)⟩ =
        some ⟨files, .body file (Hunk.push h edit) (edits.filterMap Edit.old?).length
          (edits.filterMap Edit.new?).length⟩ := read_edit edit _ _
    rw [List.flatMap_cons, List.foldlM_append, length_filterMap_cons, length_filterMap_cons]
    simp only [oldCount, newCount] at hone
    rw [hone]
    simpa [Hunk.push] using @ih (Hunk.push h edit)

theorem header_split (h : Hunk Line) : h.header = ("@@ -".toList ++
    formatRange h.oldStart h.old.length ++ " +".toList ++ formatRange h.newStart h.new.length ++
    " @@".toList) ++ ['\n'] := by
  unfold Hunk.header
  simp

theorem exportLine_header (h : Hunk Line) : exportLine h.header = [h.header] := by
  rw [exportLine, if_pos (by rw [header_split, List.getLast?_concat])]

/-- The reader holds the file and everything read of it. -/
def Holds (file : FilePatch) (current : Current) : Prop :=
  current = .names file ∨ ∃ before h, current = .body before h 0 0 ∧ before.add h = file

theorem read_hunk {current : Current} (hc : Holds file current) :
    (h.print.flatMap exportLine).foldlM Reader.step ⟨files, current⟩ =
      some ⟨files, .body file h 0 0⟩ := by
  obtain ⟨old, new, hheader, hold, holdLeft, hnew, hnewLeft⟩ := hunkHeader?_header h
  have hopen : openHunk files file h.header = some ⟨files, .body file
      { oldStart := h.oldStart, newStart := h.newStart, edits := [] } h.old.length h.new.length⟩ := by
    simp [openHunk, hheader, hold, hnew, holdLeft, hnewLeft]
  have hstep : Reader.step ⟨files, current⟩ h.header = openHunk files file h.header := by
    rcases hc with rfl | ⟨before, last, rfl, rfl⟩
    · rfl
    · have hfront : ['@', '@', ' '] <+: h.header := ⟨_, rfl⟩
      have hhead : h.header.head? = some '@' := rfl
      simp [Reader.step, hhead, hfront]
  rw [Hunk.print, List.flatMap_cons, exportLine_header, List.singleton_append, List.foldlM_cons,
    hstep, hopen, List.flatMap_map]
  exact read_edits h.edits

/-- The hunks of a file are read into it, one after another. -/
theorem read_hunks {current : Current} (hc : Holds file current) (hs : List (Hunk Line)) :
    ∃ current', ((hs.flatMap Hunk.print).flatMap exportLine).foldlM Reader.step ⟨files, current⟩ =
      some ⟨files, current'⟩ ∧ Holds { file with hunks := file.hunks ++ hs } current' ∧
      (hs ≠ [] → current' ≠ .names { file with hunks := file.hunks ++ hs }) := by
  induction hs generalizing file current with
  | nil => exact ⟨current, rfl, by simpa using hc, by simp⟩
  | cons h hs ih =>
    have hnext : Holds (file.add h) (.body file h 0 0) := Or.inr ⟨file, h, rfl, rfl⟩
    obtain ⟨current', hread, hholds, hbody⟩ := ih hnext
    refine ⟨current', ?_, by simpa [FilePatch.add] using hholds, fun _ => ?_⟩
    · rw [List.flatMap_cons, List.flatMap_append, List.foldlM_append, read_hunk hc]
      exact hread
    · cases hs with
      | nil =>
        have he : current' = .body file h 0 0 := by simpa using hread.symm
        simp [he]
      | cons h' hs => simpa [FilePatch.add] using hbody (by simp)

end Hunks

end Eventide.Sandbox
