import Eventide.Verification.Sandbox.Reading

/-! # The sections of an exported patch -/

namespace Eventide.Sandbox

open UnifiedDiff GitApply RuntimeStore Outcome
open Reading (strip? strip?_append)

/-- The reader has read these files and may begin another one. -/
def Ready (reader : Reader) (files : List FilePatch) : Prop := reader.finish = some files

def AtHeader (reader : Reader) : Prop := ∃ name created, reader.current = .header name created

/-! ## Names -/

section Names

/-- A name that needs no quotes. -/
structure Plain (name : List Char) : Prop where
  space : ' ' ∉ name
  newline : '\n' ∉ name
  tab : '\t' ∉ name

variable {name : List Char}

theorem takeWhile_stop {p : Char → Bool} {front : List Char} {c : Char} (rest : List Char)
    (hf : ∀ x ∈ front, p x = true) (hc : p c = false) :
    (front ++ c :: rest).takeWhile p = front ∧ (front ++ c :: rest).dropWhile p = c :: rest := by
  rw [List.takeWhile_append_of_pos hf, List.dropWhile_append_of_pos hf]
  simp [hc]

theorem stripComponent_slash (c : Char) (hc : c ≠ '/') (name : List Char) :
    stripComponent (c :: '/' :: name) = name := by
  simp [stripComponent, hc]

theorem headerName?_header (h : Plain name) :
    headerName? ("a/".toList ++ name ++ " b/".toList ++ name ++ ['\n']) = some name := by
  have hsplit : "a/".toList ++ name ++ " b/".toList ++ name ++ ['\n'] =
      ('a' :: '/' :: name) ++ ' ' :: ('b' :: '/' :: name ++ '\n' :: []) := by simp
  have hfirst : ∀ x ∈ 'a' :: '/' :: name, decide (x ≠ ' ') = true := by
    intro x hx
    simp only [List.mem_cons] at hx
    rcases hx with rfl | rfl | hx
    · decide
    · decide
    · simpa using ne_of_mem_of_not_mem hx h.space
  have hsecond : ∀ x ∈ ' ' :: 'b' :: '/' :: name, decide (x ≠ '\n') = true := by
    intro x hx
    simp only [List.mem_cons] at hx
    rcases hx with rfl | rfl | rfl | hx
    · decide
    · decide
    · decide
    · simpa using ne_of_mem_of_not_mem hx h.newline
  obtain ⟨htake, hdrop⟩ := takeWhile_stop ('b' :: '/' :: name ++ '\n' :: []) hfirst
    (by decide : decide (' ' ≠ ' ') = false)
  have hline := (takeWhile_stop [] hsecond (by decide : decide ('\n' ≠ '\n') = false)).1
  have hstrip : stripComponent (' ' :: 'b' :: '/' :: name) = name := by simp [stripComponent]
  rw [headerName?, hsplit, htake, hdrop]
  simp only [List.cons_append] at hline ⊢
  simp only [hline, hstrip, stripComponent_slash 'a' (by decide) name, if_true]

theorem fileName_component (h : Plain name) {c : Char} (hc : c = 'a' ∨ c = 'b') :
    fileName (c :: '/' :: name ++ ['\n']) = some name := by
  have hfront : ∀ x ∈ c :: '/' :: name, decide (x ≠ '\t' ∧ x ≠ '\n') = true := by
    intro x hx
    simp only [List.mem_cons] at hx
    rcases hx with rfl | rfl | hx
    · rcases hc with rfl | rfl <;> decide
    · decide
    · have htab := ne_of_mem_of_not_mem hx h.tab
      have hnewline := ne_of_mem_of_not_mem hx h.newline
      simp [htab, hnewline]
  have htoken := (takeWhile_stop [] hfront
    (by decide : decide ('\n' ≠ '\t' ∧ '\n' ≠ '\n') = false)).1
  have hslash : c ≠ '/' := by rcases hc with rfl | rfl <;> decide
  have hdev : c :: '/' :: name ≠ "/dev/null".toList := by
    intro he
    exact hslash (List.cons.inj he).1
  rw [fileName, htoken, if_neg hdev, stripComponent_slash c hslash]

/-- The names of a changed file, as the lines of its section give them. -/
def oldName (present : Bool) (name : List Char) : Option Name := if present then some name else none

theorem fileName_from (h : Plain name) (present : Bool) {c : Char} (hc : c = 'a' ∨ c = 'b') :
    fileName ((if present then [c, '/'] ++ name else "/dev/null".toList) ++ ['\n']) =
      oldName present name := by
  cases present with
  | true => exact fileName_component h hc
  | false => exact (by decide : fileName ("/dev/null".toList ++ ['\n']) = none)

end Names

/-! ## Beginning a file -/

section Step

variable {reader : Reader} {files : List FilePatch} {name : List Char} {line : Line}

/-- A reader that may begin a file begins it. -/
theorem step_ready (hr : Ready reader files) (hhead : line.head? ≠ some '\\')
    (hhunk : ¬ "@@ ".toList <+: line)
    (howned : AtHeader reader → strip? "--- ".toList line = none) :
    reader.step line = openFile files line := by
  obtain ⟨before, current⟩ := reader
  cases current with
  | top => exact congrArg (openFile · line) (Option.some.inj hr)
  | header n created =>
    cases created with
    | none => cases hr
    | some created =>
      have hs := howned ⟨n, some created, rfl⟩
      have hfiles := Option.some.inj hr
      simp only [Reader.step, hs]
      exact congrArg (openFile · line) hfiles
  | minus owner old => cases hr
  | names file => cases hr
  | body file h oldLeft newLeft =>
    simp only [Ready, Reader.finish] at hr
    split_ifs at hr with hzero
    · obtain ⟨rfl, rfl⟩ := hzero
      simp only [Reader.step, hhead, if_false, and_self, if_true, hhunk]
      exact congrArg (openFile · line) (Option.some.inj hr)

theorem openFile_git (h : Plain name) :
    openFile files (gitLine name) = some ⟨files, .header name none⟩ := by
  unfold openFile gitLine
  simp only [strip?_append, headerName?_header h, Option.map_some]

theorem gitLine_cons (name : List Char) : ∃ rest, gitLine name = 'd' :: 'i' :: rest := by
  unfold gitLine
  simp

/-- A `diff --git` line is nothing else. -/
theorem gitLine_only (name : List Char) : (gitLine name).head? = some 'd' ∧
    ¬ "@@ ".toList <+: gitLine name ∧ strip? "--- ".toList (gitLine name) = none ∧
    strip? "+++ ".toList (gitLine name) = none ∧ hunkHeader? (gitLine name) = none := by
  obtain ⟨rest, hcons⟩ := gitLine_cons name
  have hat : strip? "@@ -".toList (gitLine name) = none := by simp [strip?, hcons]
  refine ⟨by simp [hcons], by simp [hcons], by simp [strip?, hcons], by simp [strip?, hcons], ?_⟩
  simp only [hunkHeader?, hat, Option.bind_eq_bind, Option.bind_none]

theorem gitLine_no_mode (name : List Char) : ¬ "new file mode ".toList <+: gitLine name ∧
    ¬ "deleted file mode ".toList <+: gitLine name := by
  obtain ⟨rest, hcons⟩ := gitLine_cons name
  exact ⟨by simp [hcons], by simp [hcons]⟩

theorem bodyLine_gitLine (h : Hunk Line) (oldLeft newLeft : ℕ) (name : List Char) :
    bodyLine h oldLeft newLeft (gitLine name) = none := by
  obtain ⟨rest, hcons⟩ := gitLine_cons name
  rw [hcons]
  rfl

/-- Wherever the reader stands, a `diff --git` line begins a file, or cannot be read. -/
theorem step_gitLine (h : Plain name) {reader' : Reader}
    (hs : reader.step (gitLine name) = some reader') :
    ∃ files, reader' = ⟨files, .header name none⟩ := by
  obtain ⟨hhead, hhunk, hminus, hplus, hheader⟩ := gitLine_only name
  have hopen : ∀ files, openFile files (gitLine name) = some reader' →
      reader' = ⟨files, .header name none⟩ := fun files he =>
    Option.some.inj (he.symm.trans (openFile_git h))
  obtain ⟨before, current⟩ := reader
  cases current with
  | top => exact ⟨_, hopen _ hs⟩
  | header n created =>
    cases created with
    | none =>
      obtain ⟨hnew, hdeleted⟩ := gitLine_no_mode name
      simp only [Reader.step, hminus, hnew, hdeleted, if_false, reduceCtorEq] at hs
    | some created =>
      simp only [Reader.step, hminus] at hs
      exact ⟨_, hopen _ hs⟩
  | minus owner old =>
    simp only [Reader.step, hplus, Option.bind_none, reduceCtorEq] at hs
  | names file =>
    simp only [Reader.step, openHunk, hheader, Option.map_none, reduceCtorEq] at hs
  | body file hunk oldLeft newLeft =>
    have hslash : (gitLine name).head? ≠ some '\\' := by simp [hhead]
    simp only [Reader.step, hslash, if_false, hhunk] at hs
    split_ifs at hs with hzero
    · exact ⟨_, hopen _ hs⟩
    · simp only [bodyLine_gitLine, Option.map_none, reduceCtorEq] at hs

theorem openFile_minus (rest : List Char) :
    openFile files ("--- ".toList ++ rest) = some ⟨files, .minus none (fileName rest)⟩ := by
  have hgit : strip? "diff --git ".toList ("--- ".toList ++ rest) = none := by
    rw [strip?, if_neg]
    rintro ⟨more, he⟩
    simp at he
  rw [openFile, hgit, strip?_append]
  rfl

/-- Not at a header, a `---` line begins a file. -/
theorem step_minus (hr : Ready reader files) (hh : ¬ AtHeader reader) (rest : List Char) :
    reader.step ("--- ".toList ++ rest) = some ⟨files, .minus none (fileName rest)⟩ := by
  rw [← openFile_minus]
  exact step_ready hr (by simp) (by simp) fun hat => absurd hat hh

/-- After `---`, a `+++` line must agree on the file. -/
theorem step_plus {owner : Option (Name × Option Bool)} {old new : Option Name} {rest : List Char}
    (hn : fileName rest = new) : Reader.step ⟨files, .minus owner old⟩ ("+++ ".toList ++ rest) =
      if agreed owner old new then some ⟨files, .names { old, new }⟩ else none := by
  simp only [Reader.step, strip?_append, Option.bind_some, hn]

theorem step_minus_header (n : Name) (created : Bool) (rest : List Char) :
    Reader.step ⟨files, .header n (some created)⟩ ("--- ".toList ++ rest) =
      some ⟨files, .minus (some (n, some created)) (fileName rest)⟩ := by
  simp only [Reader.step, strip?_append]

/-- The line that says whether an empty file is new or deleted. -/
theorem step_mode (created : Bool) : Reader.step ⟨files, .header name none⟩
    ((if created then "new file mode".toList else "deleted file mode".toList) ++
      " 100644\n".toList) = some ⟨files, .header name (some created)⟩ := by
  cases created with
  | true =>
    have hminus : strip? "--- ".toList ("new file mode".toList ++ " 100644\n".toList) = none := by
      decide
    have hmode : "new file mode ".toList <+: "new file mode".toList ++ " 100644\n".toList := by
      decide
    simp only [Reader.step, if_true, hminus, hmode]
  | false =>
    have hminus : strip? "--- ".toList ("deleted file mode".toList ++ " 100644\n".toList) =
        none := by decide
    have hnew : ¬ "new file mode ".toList <+: "deleted file mode".toList ++ " 100644\n".toList := by
      decide
    have hmode : "deleted file mode ".toList <+:
        "deleted file mode".toList ++ " 100644\n".toList := by decide
    simp only [Reader.step, Bool.false_eq_true, if_false, hminus, hnew, hmode, if_true]

end Step

/-! ## One file -/

section File

variable {reader : Reader} {files : List FilePatch} {name other : String}

/-- The file of a header-only section. -/
def barePatch (name : List Char) (created : Bool) : FilePatch :=
  { old := (ownedNames name (some created)).1, new := (ownedNames name (some created)).2 }

theorem ready_header (name : List Char) (created : Bool) :
    Ready ⟨files, .header name (some created)⟩ (files ++ [barePatch name created]) := rfl

theorem read_bare (h : Plain name.toList) (hr : Ready reader files) (created : Bool) :
    (bareHeader name created).foldlM Reader.step reader =
      some ⟨files, .header name.toList (some created)⟩ := by
  obtain ⟨hhead, hhunk, hminus, -, -⟩ := gitLine_only name.toList
  have hfirst := step_ready hr (by simp [hhead]) hhunk fun _ => hminus
  rw [openFile_git h] at hfirst
  simp only [bareHeader, List.foldlM_cons, List.foldlM_nil, Option.bind_eq_bind, Option.bind_some,
    Option.pure_def, hfirst, step_mode]

/-- Wherever the reader stands, the header of an empty file leaves it at that header. -/
theorem read_bare_some (h : Plain name.toList) (created : Bool) {reader' : Reader}
    (hs : (bareHeader name created).foldlM Reader.step reader = some reader') :
    reader'.current = .header name.toList (some created) := by
  rw [bareHeader, List.foldlM_cons] at hs
  obtain ⟨middle, hfirst, hs⟩ := Option.bind_eq_some_iff.mp hs
  obtain ⟨files, rfl⟩ := step_gitLine h hfirst
  simp only [List.foldlM_cons, List.foldlM_nil, Option.bind_eq_bind, Option.bind_some,
    Option.pure_def, step_mode, Option.some.injEq] at hs
  rw [← hs]

/-- The two lines that name the file of a diff. -/
def nameLines (name : String) (before after : Bool) : List Line :=
  ["--- ".toList ++ (if before then "a/".toList ++ name.toList else "/dev/null".toList) ++ ['\n'],
    "+++ ".toList ++ (if after then "b/".toList ++ name.toList else "/dev/null".toList) ++ ['\n']]

theorem fileName_before (h : Plain name.toList) (present : Bool) :
    fileName ((if present then "a/".toList ++ name.toList else "/dev/null".toList) ++ ['\n']) =
      oldName present name.toList := fileName_from h present (Or.inl rfl)

theorem fileName_after (h : Plain name.toList) (present : Bool) :
    fileName ((if present then "b/".toList ++ name.toList else "/dev/null".toList) ++ ['\n']) =
      oldName present name.toList := fileName_from h present (Or.inr rfl)

/-- Not at a header, the two lines name a file. -/
theorem read_names (h : Plain name.toList) (hr : Ready reader files) (hh : ¬ AtHeader reader)
    {before after : Bool} (hp : before = true ∨ after = true) :
    (nameLines name before after).foldlM Reader.step reader =
      some ⟨files, .names { old := oldName before name.toList, new := oldName after name.toList }⟩ := by
  have hminus := step_minus hr hh ((if before then "a/".toList ++ name.toList
    else "/dev/null".toList) ++ ['\n'])
  rw [fileName_before h] at hminus
  have hagreed : agreed none (oldName before name.toList) (oldName after name.toList) = true := by
    cases before <;> cases after <;> simp_all [agreed, oldName]
  simp only [nameLines, List.foldlM_cons, List.foldlM_nil, Option.bind_eq_bind, List.append_assoc,
    hminus, Option.bind_some, step_plus (fileName_after h after), hagreed, if_true, Option.pure_def]

/-- At the header of another file, the two lines cannot be read. -/
theorem read_names_owned (h : Plain name.toList) {n : Name} {created : Bool}
    (hn : n ≠ name.toList) (hc : reader.current = .header n (some created)) (before after : Bool) :
    (nameLines name before after).foldlM Reader.step reader = none := by
  obtain ⟨files, current⟩ := reader
  subst hc
  have hagreed : agreed (some (n, some created)) (oldName before name.toList)
      (oldName after name.toList) = false := by
    have hne : ∀ present, oldName present name.toList ≠ some n := by
      intro present
      cases present <;> simp [oldName, Ne.symm hn]
    cases created <;> simp [agreed, ownedNames, hne]
  simp only [nameLines, List.foldlM_cons, Option.bind_eq_bind, List.append_assoc,
    step_minus_header, Option.bind_some, fileName_before h, step_plus (fileName_after h after),
    hagreed, Bool.false_eq_true, if_false, Option.bind_none]

/-- A diff with hunks is read as the file that it describes. -/
theorem read_full (h : Plain name.toList) (hr : Ready reader files) (hh : ¬ AtHeader reader)
    {before after : Bool} (hp : before = true ∨ after = true) {hs : List (Hunk Line)} (hne : hs ≠ []) :
    ∃ reader', (nameLines name before after ++ (hs.flatMap Hunk.print).flatMap exportLine).foldlM
        Reader.step reader = some reader' ∧ ¬ AtHeader reader' ∧
      Ready reader' (files ++ [⟨oldName before name.toList, oldName after name.toList, hs⟩]) := by
  obtain ⟨current, hread, hholds, hbody⟩ := read_hunks (Or.inl rfl) hs
  refine ⟨⟨files, current⟩, ?_, ?_, ?_⟩
  · rw [List.foldlM_append, read_names h hr hh hp]
    exact hread
  · rintro ⟨n, created, he⟩
    rcases hholds with rfl | ⟨file, hunk, rfl, -⟩ <;> cases he
  · rcases hholds with hnames | ⟨file, hunk, rfl, hfile⟩
    · exact absurd hnames (hbody hne)
    · simpa [Ready, Reader.finish] using hfile

end File

end Eventide.Sandbox
