import Eventide.Verification.Sandbox.Sections

/-! # Applying an exported patch -/

namespace Eventide.Sandbox

open UnifiedDiff GitApply RuntimeStore Outcome

/-- A line differ whose hunks turn its first list into its second. -/
def Correct (differ : List Line → List Line → List (Hunk Line)) : Prop :=
  ∀ xs ys, Script 0 0 xs ys (differ xs ys)

def textOf : Content → List Char
  | .text chars => chars
  | .binary _ => []

section Trees

variable (baseline current : Dict String Content) (name : String)

/-- An empty file that is on one side only. -/
def Bare : Prop :=
  contentOf baseline name = contentOf current name ∧
    baseline.contains name ≠ current.contains name

/-- A file whose contents differ; one that is missing counts as empty. -/
def Full : Prop := contentOf baseline name ≠ contentOf current name

/-- Every empty file that is added or deleted comes after all other changes. -/
def BareLast : Prop := ∀ a b, Bare baseline current a → Full baseline current b → b < a

/-- The old texts of the changed files have no line break but newlines. -/
def NewlinesOnly : Prop := ∀ name, Full baseline current name →
  splitlines (textOf (contentOf baseline name)) = lines (textOf (contentOf baseline name))

/-- What the patch can say of a changed file. -/
structure Exportable : Prop where
  old : contentOf baseline name = .text (textOf (contentOf baseline name))
  new : contentOf current name = .text (textOf (contentOf current name))
  plain : Plain name.toList

instance : Decidable (Bare baseline current name) := inferInstanceAs (Decidable (_ ∧ _))

instance : Decidable (Full baseline current name) := inferInstanceAs (Decidable (_ ≠ _))

variable (differ : List Line → List Line → List (Hunk Line))

/-- The hunks of a changed file. -/
def hunksOf : List (Hunk Line) :=
  differ (splitlines (textOf (contentOf baseline name))) (splitlines (textOf (contentOf current name)))

/-- The lines that a changed file adds to the patch. -/
def sectionLines : List Line :=
  if Full baseline current name then
    nameLines name (baseline.contains name) (current.contains name) ++
      ((hunksOf baseline current name differ).flatMap Hunk.print).flatMap exportLine
  else bareHeader name (current.contains name)

/-- The file patch that a changed file is read as. -/
def filePatch : FilePatch :=
  { old := oldName (baseline.contains name) name.toList
    new := oldName (current.contains name) name.toList
    hunks := if Full baseline current name then hunksOf baseline current name differ else [] }

/-- The tree of a set of files. -/
def treeOf (files : Dict String Content) : Tree := fun name => files.get? (String.ofList name)

end Trees

/-! ## What was exported -/

section Export

variable {differ : List Line → List Line → List (Hunk Line)}
  {baseline current : Dict String Content} {name : String} {st st' : Export}

theorem contentOf_of_not_contains {files : Dict String Content} (h : files.contains name = false) :
    files.get? name = none ∧ contentOf files name = .text [] := by
  have hn : files.get? name = none := by simpa [Dict.contains] using h
  exact ⟨hn, by simp [contentOf, hn]⟩

/-- A change is of one of the two kinds. -/
theorem unchanged_eq_false : unchanged baseline current name = false ↔
    Full baseline current name ∨ Bare baseline current name := by
  simp only [unchanged, Full, Bare, decide_eq_false_iff_not]
  tauto

theorem Bare.empty (h : Bare baseline current name) :
    contentOf baseline name = .text [] ∧ contentOf current name = .text [] := by
  cases hb : baseline.contains name with
  | false =>
    have he := (contentOf_of_not_contains hb).2
    exact ⟨he, h.1 ▸ he⟩
  | true =>
    have hc : current.contains name = false := by
      by_contra hc
      exact h.2 (by simp [hb, hc])
    have he := (contentOf_of_not_contains hc).2
    exact ⟨h.1.trans he, he⟩

/-- A file whose contents differ is there on one side at least. -/
theorem Full.present (h : Full baseline current name) :
    baseline.contains name = true ∨ current.contains name = true := by
  by_contra hn
  simp only [not_or, Bool.not_eq_true] at hn
  exact h ((contentOf_of_not_contains hn.1).2.trans (contentOf_of_not_contains hn.2).2.symm)

theorem decodeText_eq_ok {content : Content} {chars : List Char}
    (h : decodeText content = .ok chars) : content = .text chars := by
  cases content with
  | text found =>
    simp only [decodeText] at h
    split_ifs at h
    exact congrArg Content.text (Except.ok.inj h)
  | binary bytes => cases h

theorem plain_of_all {name : List Char}
    (h : ¬ name.any (fun c => decide (isSpace c = true ∨ c = '"')) = true) : Plain name := by
  simp only [List.any_eq_true, not_exists, not_and, decide_eq_true_eq, not_or] at h
  exact ⟨fun hm => (h ' ' hm).1 (by decide), fun hm => (h '\n' hm).1 (by decide),
    fun hm => (h '\t' hm).1 (by decide)⟩

/-- A line that ends in a newline is exported as it is. -/
theorem exportLine_concat (front : Line) : exportLine (front ++ ['\n']) = [front ++ ['\n']] := by
  rw [exportLine, if_pos List.getLast?_concat]

theorem fileChunks_ok (hd : Correct differ) {chunks : List (List Line)}
    (hu : unchanged baseline current name = false)
    (h : fileChunks differ baseline current name = .ok chunks) :
    Exportable baseline current name ∧
      chunks.flatten = sectionLines baseline current name differ := by
  simp only [fileChunks, bind_eq_ok, raiseIf_eq_ok] at h
  obtain ⟨old, hold, new, hnew, _, hplain, h⟩ := h
  have hbase := decodeText_eq_ok hold
  have hcur := decodeText_eq_ok hnew
  refine ⟨⟨by rw [hbase]; rfl, by rw [hcur]; rfl, plain_of_all hplain⟩, ?_⟩
  by_cases hfull : Full baseline current name
  · have hne : old ≠ new := fun he => hfull (by rw [hbase, hcur, he])
    have hhunks : hunksOf baseline current name differ ≠ [] := by
      intro hnil
      have hscript := hd (splitlines old) (splitlines new)
      simp only [hunksOf, hbase, hcur, textOf] at hnil
      rw [hnil] at hscript
      have heq := congrArg List.flatten hscript.eq_of_nil
      rw [flatten_splitlines, flatten_splitlines] at heq
      exact hne heq
    have hboth : ¬ (old = [] ∧ new = []) := fun hb => hne (hb.1.trans hb.2.symm)
    rw [if_neg hboth] at h
    obtain rfl := Except.ok.inj h
    have hsame : differ (splitlines old) (splitlines new) = hunksOf baseline current name differ := by
      simp only [hunksOf, hbase, hcur, textOf]
    have hempty : (hunksOf baseline current name differ).isEmpty = false := by
      simpa [List.isEmpty_eq_false_iff] using hhunks
    rw [hsame, unifiedDiff, hempty, sectionLines, if_pos hfull]
    simp only [Bool.false_eq_true, if_false, List.map_cons, List.flatten_cons, exportLine_concat,
      nameLines, List.flatMap_def, List.cons_append, List.nil_append]
  · have hb : Bare baseline current name := (unchanged_eq_false.mp hu).resolve_left hfull
    obtain ⟨hob, hoc⟩ := hb.empty
    have ho : old = [] := by simpa [hob] using hbase.symm
    have hn : new = [] := by simpa [hoc] using hcur.symm
    rw [if_pos ⟨ho, hn⟩] at h
    obtain rfl := Except.ok.inj h
    simp [sectionLines, hfull]

theorem foldlM_push {chunks : List (List Line)} (h : chunks.foldlM Export.push st = .ok st') :
    st'.chunks.flatten = st.chunks.flatten ++ chunks.flatten := by
  induction chunks generalizing st with
  | nil =>
    obtain rfl := Except.ok.inj h
    simp
  | cons chunk chunks ih =>
    rw [List.foldlM_cons, bind_eq_ok] at h
    obtain ⟨middle, hone, hrest⟩ := h
    simp only [Export.push, bind_eq_ok, pure_eq_ok, Except.ok.injEq] at hone
    obtain ⟨_, -, rfl⟩ := hone
    rw [ih hrest]
    simp

theorem foldlM_addFile (hd : Correct differ) {names : List String}
    (h : names.foldlM (Export.addFile differ baseline current) st = .ok st') :
    (∀ name ∈ names.filter (fun name => !unchanged baseline current name),
      Exportable baseline current name) ∧
    st'.chunks.flatten = st.chunks.flatten ++
      (names.filter fun name => !unchanged baseline current name).flatMap
        (sectionLines baseline current · differ) := by
  induction names generalizing st with
  | nil =>
    obtain rfl := Except.ok.inj h
    simp
  | cons name names ih =>
    rw [List.foldlM_cons, bind_eq_ok] at h
    obtain ⟨middle, hone, hrest⟩ := h
    obtain ⟨hall, hlines⟩ := ih hrest
    unfold Export.addFile at hone
    cases hu : unchanged baseline current name with
    | true =>
      rw [if_pos hu] at hone
      obtain rfl := Except.ok.inj hone
      rw [List.filter_cons_of_neg (by simp [hu])]
      exact ⟨hall, hlines⟩
    | false =>
      rw [hu, if_neg Bool.false_ne_true, bind_eq_ok] at hone
      obtain ⟨chunks, hchunks, hone⟩ := hone
      obtain ⟨hexp, hsection⟩ := fileChunks_ok hd hu hchunks
      rw [List.filter_cons_of_pos (by simp [hu])]
      refine ⟨List.forall_mem_cons.mpr ⟨hexp, hall⟩, ?_⟩
      rw [hlines, foldlM_push hone, hsection, List.flatMap_cons, List.append_assoc]

theorem exportPatch_ok (hd : Correct differ) {patch : List Char}
    (h : exportPatch differ baseline current = .ok patch) :
    (∀ name ∈ changedNames baseline current, Exportable baseline current name) ∧
    patch = ((changedNames baseline current).flatMap
      (sectionLines baseline current · differ)).flatten := by
  obtain ⟨st, hst, rfl⟩ := map_eq_ok.mp h
  obtain ⟨hall, hlines⟩ := foldlM_addFile hd hst
  exact ⟨hall, by rw [hlines]; rfl⟩

end Export

/-! ## Reading it -/

section Read

variable {differ : List Line → List Line → List (Hunk Line)}
  {baseline current : Dict String Content} {name : String} {names : List String}
  {reader : Reader} {files : List FilePatch}

theorem terminated_concat {front : Line} (h : '\n' ∉ front) : Terminated (front ++ ['\n']) :=
  ⟨front, rfl, h⟩

theorem not_mem_formatRange (start length : ℕ) : '\n' ∉ formatRange start length := by
  have hdigit : ∀ n, '\n' ∉ Nat.toDigits 10 n := by
    intro n hm
    have hd := Nat.isDigit_of_mem_toDigits (by decide) (by decide) hm
    exact absurd hd (by decide)
  unfold formatRange
  split_ifs
  · exact hdigit _
  · simp [hdigit]
  · simp [hdigit]

theorem header_terminated (h : Hunk Line) : Terminated h.header := by
  rw [header_split]
  exact terminated_concat (by simp [not_mem_formatRange])

theorem nameLines_terminated (h : Plain name.toList) (before after : Bool) :
    ∀ line ∈ nameLines name before after, Terminated line := by
  intro line hm
  simp only [nameLines, List.mem_cons, List.not_mem_nil, or_false] at hm
  rcases hm with rfl | rfl
  · exact terminated_concat (by cases before <;> simp [h.newline])
  · exact terminated_concat (by cases after <;> simp [h.newline])

theorem bareHeader_terminated (h : Plain name.toList) (created : Bool) :
    ∀ line ∈ bareHeader name created, Terminated line := by
  intro line hm
  simp only [bareHeader, List.mem_cons, List.not_mem_nil, or_false] at hm
  rcases hm with rfl | rfl
  · have hsplit : gitLine name.toList = ("diff --git ".toList ++ ("a/".toList ++ name.toList ++
        " b/".toList ++ name.toList)) ++ ['\n'] := by
      unfold gitLine
      simp
    rw [hsplit]
    exact terminated_concat (by simp [h.newline])
  · cases created with
    | true => exact ⟨"new file mode 100644".toList, by simp, by simp⟩
    | false => exact ⟨"deleted file mode 100644".toList, by simp, by simp⟩

theorem hunks_terminated (hd : Correct differ) (xs ys : List Char) :
    ∀ line ∈ ((differ (splitlines xs) (splitlines ys)).flatMap Hunk.print).flatMap exportLine,
      Terminated line := by
  intro line hm
  obtain ⟨printed, hprinted, hline⟩ := List.mem_flatMap.mp hm
  obtain ⟨hunk, hhunk, hprinted⟩ := List.mem_flatMap.mp hprinted
  rcases List.mem_cons.mp hprinted with rfl | hprinted
  · rw [exportLine_header, List.mem_singleton] at hline
    exact hline ▸ header_terminated hunk
  · obtain ⟨edit, hedit, rfl⟩ := List.mem_map.mp hprinted
    have hsimple : Simple edit.line := by
      rcases (hd _ _).line_mem hunk hhunk edit hedit with ho | hn
      · exact simple_of_mem_splitlines ho
      · exact simple_of_mem_splitlines hn
    obtain ⟨c, hprint, hc, -⟩ := print_head edit
    rw [hprint] at hline
    exact exportLine_terminated (hsimple.cons hc) line hline

theorem sectionLines_terminated (hd : Correct differ) (he : Exportable baseline current name) :
    ∀ line ∈ sectionLines baseline current name differ, Terminated line := by
  unfold sectionLines
  split_ifs
  · intro line hm
    rcases List.mem_append.mp hm with hm | hm
    · exact nameLines_terminated he.plain _ _ line hm
    · exact hunks_terminated hd _ _ line hm
  · exact bareHeader_terminated he.plain _

theorem hunksOf_ne_nil (hd : Correct differ) (he : Exportable baseline current name)
    (hf : Full baseline current name) : hunksOf baseline current name differ ≠ [] := by
  intro hnil
  have hscript := hd (splitlines (textOf (contentOf baseline name)))
    (splitlines (textOf (contentOf current name)))
  rw [show differ _ _ = [] from hnil] at hscript
  have heq := congrArg List.flatten hscript.eq_of_nil
  rw [flatten_splitlines, flatten_splitlines] at heq
  exact hf (he.old.trans (heq ▸ he.new.symm))

/-- The file patch of an empty file. -/
theorem filePatch_bare (h : Bare baseline current name) : filePatch baseline current name differ =
    barePatch name.toList (current.contains name) := by
  have hf : ¬ Full baseline current name := fun hf => hf h.1
  have hne := h.2
  cases hb : baseline.contains name <;> cases hc : current.contains name <;>
    simp_all [filePatch, barePatch, ownedNames, oldName]

/-- Sections are read one by one, where no header comes before other changes. -/
theorem read_sections (hd : Correct differ) (hexp : ∀ n ∈ names, Exportable baseline current n)
    (hkind : ∀ n ∈ names, Full baseline current n ∨ Bare baseline current n)
    (hlast : names.Pairwise fun a b => Bare baseline current a → Bare baseline current b)
    (hr : Ready reader files)
    (hh : AtHeader reader → ∀ n ∈ names, Bare baseline current n) :
    ∃ reader', (names.flatMap (sectionLines baseline current · differ)).foldlM Reader.step reader =
      some reader' ∧ Ready reader' (files ++ names.map (filePatch baseline current · differ)) := by
  induction names generalizing reader files with
  | nil => exact ⟨reader, rfl, by simpa using hr⟩
  | cons name names ih =>
    obtain ⟨hone, hexp⟩ := List.forall_mem_cons.mp hexp
    obtain ⟨hk, hkind⟩ := List.forall_mem_cons.mp hkind
    obtain ⟨hfirst, hlast⟩ := List.pairwise_cons.mp hlast
    rw [List.flatMap_cons, List.foldlM_append, List.map_cons]
    rcases hk with hf | hb
    · have hnot : ¬ AtHeader reader := fun hat => hf (hh hat name (by simp)).1
      obtain ⟨middle, hread, hmiddle, hready⟩ := read_full hone.plain hr hnot
        hf.present (hunksOf_ne_nil hd hone hf)
      obtain ⟨reader', hrest, hready'⟩ := ih hexp hkind hlast hready fun hat => absurd hat hmiddle
      refine ⟨reader', ?_, ?_⟩
      · rw [sectionLines, if_pos hf, hread]
        exact hrest
      · simpa [filePatch, hf] using hready'
    · have hf : ¬ Full baseline current name := fun hf => hf hb.1
      have hread := read_bare hone.plain hr (current.contains name)
      have hheader : Ready ⟨files, .header name.toList (some (current.contains name))⟩
          (files ++ [barePatch name.toList (current.contains name)]) := ready_header _ _
      obtain ⟨reader', hrest, hready'⟩ := ih hexp hkind hlast hheader fun _ n hn => hfirst n hn hb
      refine ⟨reader', ?_, ?_⟩
      · rw [sectionLines, if_neg hf, hread]
        exact hrest
      · rw [filePatch_bare hb]
        simpa using hready'

/-- After the header of an empty file, a patch with another kind of change cannot be read. -/
theorem read_stuck {created : Bool} {n : String}
    (hexp : ∀ m ∈ names, Exportable baseline current m)
    (hkind : ∀ m ∈ names, Full baseline current m ∨ Bare baseline current m)
    (hn : (n :: names).Nodup) (hfull : ∃ m ∈ names, Full baseline current m)
    (hc : reader.current = .header n.toList (some created)) :
    (names.flatMap (sectionLines baseline current · differ)).foldlM Reader.step reader = none := by
  induction names generalizing reader n created with
  | nil => simp at hfull
  | cons name names ih =>
    obtain ⟨hone, hexp⟩ := List.forall_mem_cons.mp hexp
    obtain ⟨hk, hkind⟩ := List.forall_mem_cons.mp hkind
    obtain ⟨hnn, hnodup⟩ := List.nodup_cons.mp hn
    rw [List.flatMap_cons, List.foldlM_append]
    rcases hk with hf | hb
    · have hne : n.toList ≠ name.toList := by
        intro he
        exact hnn (by simp [String.toList_inj.mp he])
      rw [sectionLines, if_pos hf, List.foldlM_append, read_names_owned hone.plain hne hc]
      rfl
    · have hnot : ¬ Full baseline current name := fun hf => hf hb.1
      obtain ⟨m, hm, hfm⟩ := hfull
      have hrest : ∃ m ∈ names, Full baseline current m := by
        rcases List.mem_cons.mp hm with rfl | hm
        · exact absurd hfm hnot
        · exact ⟨m, hm, hfm⟩
      rw [sectionLines, if_neg hnot]
      cases hs : (bareHeader name (current.contains name)).foldlM Reader.step reader with
      | none => rfl
      | some middle => exact ih hexp hkind hnodup hrest (read_bare_some hone.plain _ hs)

end Read

end Eventide.Sandbox
