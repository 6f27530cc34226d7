import Eventide.Verification.Sandbox.RoundTrip

/-! # The round trip of an exported patch -/

namespace Eventide.Sandbox

open UnifiedDiff GitApply RuntimeStore Outcome

section Apply

variable {differ : List Line → List Line → List (Hunk Line)}
  {baseline current : Dict String Content} {name : String} {names : List String} {tree : Tree}

theorem get?_of_contains {files : Dict String Content} (h : files.contains name = true) :
    files.get? name = some (contentOf files name) := by
  rw [Dict.contains, Option.isSome_iff_exists] at h
  obtain ⟨content, hc⟩ := h
  simp [contentOf, hc]

/-- The hunks of a changed file turn its old text into its new one. -/
theorem hunksOf_apply (hd : Correct differ) (hs : NewlinesOnly baseline current)
    (hf : Full baseline current name) :
    applyHunks 0 (lines (textOf (contentOf baseline name))) (hunksOf baseline current name differ) =
      some (splitlines (textOf (contentOf current name))) := by
  rw [← hs name hf]
  exact (hd _ _).applyHunks

/-- A file patch puts the current file in the place of the baseline's. -/
theorem filePatch_apply (hd : Correct differ) (hs : NewlinesOnly baseline current)
    (he : Exportable baseline current name)
    (hk : Full baseline current name ∨ Bare baseline current name)
    (ht : tree name.toList = baseline.get? name) :
    (filePatch baseline current name differ).apply tree =
      some (tree.set name.toList (current.get? name)) := by
  rcases hk with hf | hb
  · have happly := hunksOf_apply hd hs hf
    have hnew := he.new
    have hflat := flatten_splitlines (textOf (contentOf current name))
    cases hb : baseline.contains name with
    | false =>
      have hc : current.contains name = true := by simpa [hb] using hf.present
      obtain ⟨hnone, hempty⟩ := contentOf_of_not_contains hb
      have hold : lines (textOf (contentOf baseline name)) = [] := by rw [hempty]; rfl
      rw [hold] at happly
      have hget : current.get? name = some (.text (textOf (contentOf current name))) := by
        rw [get?_of_contains hc, ← hnew]
      simp only [filePatch, FilePatch.apply, oldName, hb, hc, hf, if_true, Bool.false_eq_true, if_false,
        ht, hnone, happly, Option.map_some, hflat, hget]
    | true =>
      have hgetb : tree name.toList = some (.text (textOf (contentOf baseline name))) := by
        rw [ht, get?_of_contains hb, ← he.old]
      cases hc : current.contains name with
      | true =>
        have hget : current.get? name = some (.text (textOf (contentOf current name))) := by
          rw [get?_of_contains hc, ← hnew]
        simp only [filePatch, FilePatch.apply, oldName, hb, hc, hf, if_true, hgetb, happly,
          Option.bind_some, hflat, hget]
      | false =>
        obtain ⟨hnone, hempty⟩ := contentOf_of_not_contains hc
        have hnil : (splitlines (textOf (contentOf current name))).flatten = [] := by
          rw [hflat, hempty]
          rfl
        simp only [filePatch, FilePatch.apply, oldName, hb, hc, hf, if_true, Bool.false_eq_true,
          if_false, hgetb, happly, Option.bind_some, hnil, hnone, reduceCtorEq, and_self]
  · have hf : ¬ Full baseline current name := fun hf => hf hb.1
    obtain ⟨hob, hoc⟩ := hb.empty
    have hne := hb.2
    cases hbase : baseline.contains name with
    | false =>
      have hc : current.contains name = true := by
        cases hc : current.contains name with
        | true => rfl
        | false => exact absurd (hbase.trans hc.symm) hne
      have hnone := (contentOf_of_not_contains hbase).1
      have hget : current.get? name = some (.text []) := by rw [get?_of_contains hc, hoc]
      simp [filePatch, FilePatch.apply, oldName, hbase, hc, hf, ht, hnone, applyHunks, hget]
    | true =>
      have hc : current.contains name = false := by
        cases hc : current.contains name with
        | false => rfl
        | true => exact absurd (hbase.trans hc.symm) hne
      have hnone := (contentOf_of_not_contains hc).1
      have hget : baseline.get? name = some (.text []) := by rw [get?_of_contains hbase, hob]
      simp [filePatch, FilePatch.apply, oldName, hbase, hc, hf, ht, hget, applyHunks, lines, hnone]

/-- Applying the file patches one by one puts every changed file in its place. -/
theorem apply_files (hd : Correct differ) (hs : NewlinesOnly baseline current)
    (hexp : ∀ n ∈ names, Exportable baseline current n)
    (hkind : ∀ n ∈ names, Full baseline current n ∨ Bare baseline current n)
    (hn : names.Nodup) (ht : ∀ n ∈ names, tree n.toList = baseline.get? n) :
    ∃ tree', (names.map (filePatch baseline current · differ)).foldlM
        (fun tree file => file.apply tree) tree = some tree' ∧
      ∀ n, tree' n.toList = if n ∈ names then current.get? n else tree n.toList := by
  induction names generalizing tree with
  | nil => exact ⟨tree, rfl, by simp⟩
  | cons name names ih =>
    obtain ⟨hone, hexp⟩ := List.forall_mem_cons.mp hexp
    obtain ⟨hk, hkind⟩ := List.forall_mem_cons.mp hkind
    obtain ⟨hnn, hn⟩ := List.nodup_cons.mp hn
    have hset : ∀ n, tree.set name.toList (current.get? name) n.toList =
        if n = name then current.get? name else tree n.toList := by
      intro n
      simp [Tree.set, String.toList_inj]
    have hothers : ∀ n ∈ names, tree.set name.toList (current.get? name) n.toList =
        baseline.get? n := by
      intro n hm
      have hne : n ≠ name := fun he => hnn (he ▸ hm)
      rw [hset, if_neg hne, ht n (by simp [hm])]
    obtain ⟨tree', hrest, htree⟩ := ih hexp hkind hn hothers
    refine ⟨tree', ?_, fun n => ?_⟩
    · rw [List.map_cons, List.foldlM_cons, filePatch_apply hd hs hone hk (ht name (by simp))]
      exact hrest
    · rw [htree, hset]
      by_cases hm : n ∈ names
      · simp [hm]
      · by_cases he : n = name
        · simp [he]
        · simp [hm, he]

end Apply

/-! ## The names of a patch -/

section Names

variable {baseline current : Dict String Content} {name : String}

theorem mem_allNames :
    name ∈ allNames baseline current ↔ name ∈ baseline.keys ∨ name ∈ current.keys := by
  simp only [allNames, List.mem_mergeSort, List.mem_append, List.mem_filter, decide_eq_true_eq]
  tauto

theorem allNames_nodup : (allNames baseline current).Nodup := by
  rw [allNames, (List.mergeSort_perm _ _).nodup_iff]
  refine List.Nodup.append baseline.keys_nodup (current.keys_nodup.filter _) ?_
  intro n hb hc
  simpa [hb] using (List.mem_filter.mp hc).2

theorem allNames_sorted : (allNames baseline current).Pairwise (· ≤ ·) := by
  have htrans : ∀ a b c : String, decide (a ≤ b) = true → decide (b ≤ c) = true →
      decide (a ≤ c) = true := by
    intro a b c hab hbc
    simp only [decide_eq_true_eq] at *
    exact hab.trans hbc
  have htotal : ∀ a b : String, (decide (a ≤ b) || decide (b ≤ a)) = true := by
    intro a b
    simpa using le_total a b
  have hs := List.pairwise_mergeSort htrans htotal
    (baseline.keys ++ current.keys.filter (· ∉ baseline.keys))
  exact hs.imp fun h => by simpa using h

theorem mem_changedNames : name ∈ changedNames baseline current ↔
    Full baseline current name ∨ Bare baseline current name := by
  rw [changedNames, List.mem_filter, Bool.not_eq_true', unchanged_eq_false]
  refine ⟨fun h => h.2, fun h => ⟨?_, h⟩⟩
  rw [mem_allNames, ← Dict.contains_iff, ← Dict.contains_iff]
  rcases h with hf | hb
  · exact hf.present
  · by_contra hn
    simp only [not_or, Bool.not_eq_true] at hn
    exact hb.2 (hn.1.trans hn.2.symm)

theorem changedNames_nodup : (changedNames baseline current).Nodup :=
  allNames_nodup.filter _

theorem changedNames_sorted : (changedNames baseline current).Pairwise (· ≤ ·) :=
  allNames_sorted.filter _

/-- Where empty files come last, no other change follows one. -/
theorem BareLast.pairwise (h : BareLast baseline current) :
    (changedNames baseline current).Pairwise
      fun a b => Bare baseline current a → Bare baseline current b := by
  refine List.Pairwise.imp_of_mem ?_ changedNames_sorted
  intro a b _ hb hle ha
  rcases mem_changedNames.mp hb with hf | hbare
  · exact absurd hle (not_le.mpr (h a b ha hf))
  · exact hbare

theorem get?_eq_of_unchanged (h : name ∉ changedNames baseline current) :
    baseline.get? name = current.get? name := by
  rw [mem_changedNames, not_or] at h
  obtain ⟨hf, hb⟩ := h
  have hcontent : contentOf baseline name = contentOf current name := not_not.mp hf
  have hcontains : baseline.contains name = current.contains name := by
    by_contra hne
    exact hb ⟨hcontent, hne⟩
  cases hc : baseline.contains name with
  | false => rw [(contentOf_of_not_contains hc).1, (contentOf_of_not_contains (hcontains ▸ hc)).1]
  | true => rw [get?_of_contains hc, get?_of_contains (hcontains ▸ hc), hcontent]

end Names

section RoundTrip

variable {differ : List Line → List Line → List (Hunk Line)}
  {baseline current : Dict String Content} {patch : List Char}

theorem lines_patch (hd : Correct differ) (h : exportPatch differ baseline current = .ok patch) :
    lines patch = (changedNames baseline current).flatMap
      (sectionLines baseline current · differ) := by
  obtain ⟨hexp, rfl⟩ := exportPatch_ok hd h
  refine lines_flatten fun line hm => ?_
  obtain ⟨name, hn, hline⟩ := List.mem_flatMap.mp hm
  exact sectionLines_terminated hd (hexp name hn) line hline

/-- A patch whose empty files come last is read as its file patches, and gives the tree. -/
theorem apply_exported (hd : Correct differ) (h : exportPatch differ baseline current = .ok patch)
    (hs : NewlinesOnly baseline current) (hl : BareLast baseline current) :
    GitApply.apply patch (treeOf baseline) = some (treeOf current) := by
  have hexp := (exportPatch_ok hd h).1
  have hkind : ∀ n ∈ changedNames baseline current,
      Full baseline current n ∨ Bare baseline current n := fun n hn => mem_changedNames.mp hn
  have hstart : Ready {} [] := rfl
  have htop : ¬ AtHeader {} := by
    rintro ⟨n, created, hc⟩
    cases hc
  obtain ⟨reader, hread, hready⟩ := read_sections hd hexp hkind hl.pairwise hstart
    fun hat => absurd hat htop
  have hfiles : GitApply.read patch = some ((changedNames baseline current).map
      (filePatch baseline current · differ)) := by
    rw [GitApply.read, lines_patch hd h, hread]
    exact hready
  have hbase : ∀ n ∈ changedNames baseline current,
      treeOf baseline n.toList = baseline.get? n := fun n _ => by simp [treeOf]
  obtain ⟨tree, happly, htree⟩ := apply_files hd hs hexp hkind changedNames_nodup hbase
  have heq : tree = treeOf current := by
    funext n
    have hn := htree (String.ofList n)
    rw [String.toList_ofList] at hn
    rw [hn]
    by_cases hm : String.ofList n ∈ changedNames baseline current
    · rw [if_pos hm]
      rfl
    · rw [if_neg hm]
      exact get?_eq_of_unchanged hm
  rw [GitApply.apply, hfiles, ← heq]
  exact happly

/-- A patch with the header of an empty file before another change cannot be read. -/
theorem bareLast_of_read (hd : Correct differ) (h : exportPatch differ baseline current = .ok patch)
    (hr : (GitApply.read patch).isSome) : BareLast baseline current := by
  intro a b ha hb
  by_contra hlt
  have hle : a ≤ b := not_lt.mp hlt
  have hne : b ≠ a := by
    rintro rfl
    exact hb ha.1
  have hexp := (exportPatch_ok hd h).1
  have hma : a ∈ changedNames baseline current := mem_changedNames.mpr (Or.inr ha)
  have hmb : b ∈ changedNames baseline current := mem_changedNames.mpr (Or.inl hb)
  obtain ⟨front, back, hsplit⟩ := List.append_of_mem hma
  have hsorted : (changedNames baseline current).Pairwise (· ≤ ·) := changedNames_sorted
  have hnodup : (changedNames baseline current).Nodup := changedNames_nodup
  rw [hsplit] at hmb hsorted hnodup
  have hback : b ∈ back := by
    rcases List.mem_append.mp hmb with hf | hm
    · exact absurd (le_antisymm ((List.pairwise_append.mp hsorted).2.2 b hf a (by simp)) hle) hne
    · exact (List.mem_cons.mp hm).resolve_left hne
  have hnone : (lines patch).foldlM Reader.step {} = none := by
    rw [lines_patch hd h, hsplit, List.flatMap_append, List.flatMap_cons, List.foldlM_append]
    have hbare : ¬ Full baseline current a := fun hf => hf ha.1
    cases hs : (front.flatMap (sectionLines baseline current · differ)).foldlM Reader.step {} with
    | none => rfl
    | some middle =>
      simp only [Option.bind_eq_bind, Option.bind_some]
      rw [List.foldlM_append, sectionLines, if_neg hbare]
      cases hm : (bareHeader a (current.contains a)).foldlM Reader.step middle with
      | none => rfl
      | some reader =>
        have hexpb : ∀ n ∈ back, Exportable baseline current n := fun n hn =>
          hexp n (by rw [hsplit]; simp [hn])
        have hkind : ∀ n ∈ back, Full baseline current n ∨ Bare baseline current n := fun n hn =>
          mem_changedNames.mp (by rw [hsplit]; simp [hn])
        exact read_stuck hexpb hkind (List.nodup_append.mp hnodup).2.1 ⟨b, hback, hb⟩
          (read_bare_some (hexp a hma).plain _ hm)
  rw [GitApply.read, hnone] at hr
  simp at hr

/-- The export, of what the two scans have found. -/
theorem diff_ok {sha256 : Content → String} {content base : Root} {identity : ℕ × ℕ}
    {manifest : Manifest} (hc : scanTree content (some identity) = .ok current)
    (hb : scanTree base = .ok baseline)
    (h : diff differ sha256 content base identity manifest = .ok patch) :
    exportPatch differ baseline current = .ok patch := by
  simp only [diff, hc, hb, ok_bind, bind_eq_ok] at h
  obtain ⟨_, -, h⟩ := h
  exact h

/-- The round trip of a sandbox's patch. Where the old texts of the changed files break their
lines at newlines only, it succeeds if and only if every empty file that is added or deleted
comes after all other changes; whatever the texts, it never succeeds otherwise. -/
theorem sandboxDiff_roundTrip {sha256 : Content → String} {content base : Root}
    {identity : ℕ × ℕ} {manifest : Manifest} (hd : Correct differ)
    (hc : scanTree content (some identity) = .ok current) (hb : scanTree base = .ok baseline)
    (h : diff differ sha256 content base identity manifest = .ok patch) :
    (NewlinesOnly baseline current →
      (GitApply.apply patch (treeOf baseline) = some (treeOf current) ↔
        BareLast baseline current)) ∧
    (GitApply.apply patch (treeOf baseline) = some (treeOf current) →
      BareLast baseline current) := by
  have hexported := diff_ok hc hb h
  have hnecessary : GitApply.apply patch (treeOf baseline) = some (treeOf current) →
      BareLast baseline current := by
    intro happly
    obtain ⟨files, hread, -⟩ := Option.bind_eq_some_iff.mp happly
    exact bareLast_of_read hd hexported (by simp [hread])
  exact ⟨fun hs => ⟨hnecessary, apply_exported hd hexported hs⟩, hnecessary⟩

end RoundTrip

/-! ## An empty file before a changed one -/

/-- What follows the common lines is deleted and inserted. -/
def splice : List Line → List Line → List (Edit Line)
  | x :: xs, y :: ys =>
    if x = y then .keep x :: splice xs ys
    else (x :: xs).map .delete ++ (y :: ys).map .insert
  | xs, ys => xs.map .delete ++ ys.map .insert

/-- A differ that makes one hunk. -/
def spliceDiffer (xs ys : List Line) : List (Hunk Line) :=
  if xs = ys then [] else [{ oldStart := 0, newStart := 0, edits := splice xs ys }]

theorem splice_old_new (xs ys : List Line) :
    (splice xs ys).filterMap Edit.old? = xs ∧ (splice xs ys).filterMap Edit.new? = ys := by
  have hdelete : ∀ zs : List Line, (zs.map Edit.delete).filterMap Edit.old? = zs ∧
      (zs.map Edit.delete).filterMap Edit.new? = [] := by
    intro zs
    simp [List.filterMap_map, Function.comp_def, Edit.old?, Edit.new?]
  have hinsert : ∀ zs : List Line, (zs.map Edit.insert).filterMap Edit.old? = [] ∧
      (zs.map Edit.insert).filterMap Edit.new? = zs := by
    intro zs
    simp [List.filterMap_map, Function.comp_def, Edit.old?, Edit.new?]
  fun_induction splice xs ys with
  | case1 x xs ys ih => simp [Edit.old?, Edit.new?, ih]
  | case2 x xs y ys _ =>
    simp only [List.filterMap_append, hdelete, hinsert, List.append_nil, List.nil_append, and_self]
  | case3 xs ys _ =>
    simp only [List.filterMap_append, hdelete, hinsert, List.append_nil, List.nil_append, and_self]

theorem spliceDiffer_correct : Correct spliceDiffer := by
  intro xs ys
  unfold spliceDiffer
  split_ifs with h
  · exact h ▸ .done 0 0 xs
  · obtain ⟨hold, hnew⟩ := splice_old_new xs ys
    let hunk : Hunk Line := { oldStart := 0, newStart := 0, edits := splice xs ys }
    have hscript : Script 0 0 ([] ++ hunk.old ++ []) ([] ++ hunk.new ++ []) [hunk] :=
      .hunk [] rfl rfl (.done _ _ [])
    simpa [hunk, Hunk.old, Hunk.new, hold, hnew] using hscript

/-- A digest that tells texts apart. -/
def sampleDigest : Content → String
  | .text chars => String.ofList chars
  | .binary _ => ""

/-- A directory of regular files. -/
def sampleRoot (inode : ℕ) (files : List (String × List Char)) : Root where
  identity := (1, inode)
  entries := files.map fun f => (f.1, .file (.text f.2) 1)

def sampleFiles (files : List (String × List Char)) : Dict String Content :=
  Dict.ofList (files.map fun f => (f.1, .text f.2))

/-- The export of one set of files as a patch against another. -/
def sampleDiff (old new : List (String × List Char)) : Except PyError (List Char) :=
  diff spliceDiffer sampleDigest (sampleRoot 2 new) (sampleRoot 1 old) (1, 2)
    (Dict.ofList (old.map fun f => (f.1, String.ofList f.2)))

/-- The names are sorted by a sort that does not evaluate, so they are given. -/
theorem sampleDiff_ok {old new : List (String × List Char)} {names : List String}
    {patch : List Char} (hn : allNames (sampleFiles old) (sampleFiles new) = names)
    (hc : (scanTree (sampleRoot 2 new) (some (1, 2))).toOption = some (sampleFiles new))
    (hb : (scanTree (sampleRoot 1 old)).toOption = some (sampleFiles old))
    (hm : matchesManifest sampleDigest (sampleFiles old)
      (Dict.ofList (old.map fun f => (f.1, String.ofList f.2))) = true)
    (h : ((names.foldlM (Export.addFile spliceDiffer (sampleFiles old) (sampleFiles new)) {}).map
      fun st => st.chunks.flatten.flatten).toOption = some patch) :
    sampleDiff old new = .ok patch := by
  have hexport : exportPatch spliceDiffer (sampleFiles old) (sampleFiles new) = .ok patch := by
    rw [exportPatch, hn]
    exact eq_ok_of_toOption h
  simp [sampleDiff, diff, eq_ok_of_toOption hc, eq_ok_of_toOption hb, hm, hexport, raiseIf]

/-- A sandbox whose patch does not give its tree back. -/
def RoundTripFails (old new : List (String × List Char)) : Prop :=
  ∃ current baseline patch, scanTree (sampleRoot 2 new) (some (1, 2)) = .ok current ∧
    scanTree (sampleRoot 1 old) = .ok baseline ∧ sampleDiff old new = .ok patch ∧
    GitApply.apply patch (treeOf baseline) ≠ some (treeOf current)

theorem RoundTripFails.intro {old new : List (String × List Char)} {patch : List Char}
    (hc : (scanTree (sampleRoot 2 new) (some (1, 2))).toOption = some (sampleFiles new))
    (hb : (scanTree (sampleRoot 1 old)).toOption = some (sampleFiles old))
    (hdiff : sampleDiff old new = .ok patch)
    (hnone : (GitApply.apply patch (treeOf (sampleFiles old))).isNone = true) :
    RoundTripFails old new := by
  refine ⟨_, _, patch, eq_ok_of_toOption hc, eq_ok_of_toOption hb, hdiff, fun happly => ?_⟩
  rw [happly] at hnone
  cases hnone

theorem allNames_bare : allNames (sampleFiles [("b", ['x', '\n'])])
    (sampleFiles [("a", []), ("b", ['y', '\n'])]) = ["a", "b"] := by
  simp [allNames, sampleFiles, Dict.ofList, Dict.set, Dict.keys, Dict.setEntries, Dict.empty,
    List.mergeSort, List.MergeSort.Internal.splitInTwo]

theorem allNames_single (old new : List Char) :
    allNames (sampleFiles [("b", old)]) (sampleFiles [("b", new)]) = ["b"] := by
  simp [allNames, sampleFiles, Dict.ofList, Dict.set, Dict.keys, Dict.setEntries, Dict.empty]

/-- The patch of a new empty file and a changed one. -/
def barePatchText : List Char :=
  ("diff --git a/a b/a\nnew file mode 100644\n--- a/b\n+++ b/b\n" ++
    "@@ -1 +1 @@\n-x\n+y\n").toList

/-- The patch of a text with a form feed in its only line. -/
def formFeedPatchText : List Char :=
  ("--- a/b\n+++ b/b\n@@ -1,2 +1,2 @@\n x\x0c\n\\ No newline at end of file\n" ++
    "-y\n+z\n").toList

theorem sampleDiff_bare : sampleDiff [("b", ['x', '\n'])] [("a", []), ("b", ['y', '\n'])] =
    .ok barePatchText :=
  sampleDiff_ok allNames_bare (by decide +kernel) (by decide +kernel) (by decide +kernel)
    (by decide +kernel)

theorem sampleDiff_formFeed : sampleDiff [("b", ['x', '\x0c', 'y', '\n'])]
    [("b", ['x', '\x0c', 'z', '\n'])] = .ok formFeedPatchText :=
  sampleDiff_ok (allNames_single _ _) (by decide +kernel) (by decide +kernel) (by decide +kernel)
    (by decide +kernel)

/-- An empty file that is added before a changed one, and a form feed inside an old line. -/
theorem sandboxDiff_roundTrip_false : Correct spliceDiffer ∧
    RoundTripFails [("b", ['x', '\n'])] [("a", []), ("b", ['y', '\n'])] ∧
    RoundTripFails [("b", ['x', '\x0c', 'y', '\n'])] [("b", ['x', '\x0c', 'z', '\n'])] :=
  ⟨spliceDiffer_correct,
    .intro (by decide +kernel) (by decide +kernel) sampleDiff_bare (by decide +kernel),
    .intro (by decide +kernel) (by decide +kernel) sampleDiff_formFeed (by decide +kernel)⟩

/-! ## Files that are added, changed and deleted -/

def oldFiles : List (String × List Char) :=
  [("b", "x\ny".toList), ("c", "same".toList), ("d", "gone\n".toList)]

def newFiles : List (String × List Char) :=
  [("a", "new\nlines".toList), ("b", "x\nz\n".toList), ("c", "same".toList), ("e", [])]

/-- The final newline of the changed file is new, the added one has none. -/
def changesPatchText : List Char :=
  ("--- /dev/null\n+++ b/a\n@@ -0,0 +1,2 @@\n+new\n+lines\n\\ No newline at end of file\n" ++
    "--- a/b\n+++ b/b\n@@ -1,2 +1,2 @@\n x\n-y\n\\ No newline at end of file\n+z\n" ++
    "--- a/d\n+++ /dev/null\n@@ -1 +0,0 @@\n-gone\n" ++
    "diff --git a/e b/e\nnew file mode 100644\n").toList

theorem allNames_changes :
    allNames (sampleFiles oldFiles) (sampleFiles newFiles) = ["a", "b", "c", "d", "e"] := by
  simp [allNames, oldFiles, newFiles, sampleFiles, Dict.ofList, Dict.set, Dict.keys,
    Dict.setEntries, Dict.empty, List.mergeSort, List.MergeSort.Internal.splitInTwo]

theorem sampleDiff_changes : sampleDiff oldFiles newFiles = .ok changesPatchText :=
  sampleDiff_ok allNames_changes (by decide +kernel) (by decide +kernel) (by decide +kernel)
    (by decide +kernel)

theorem sandboxDiff_roundTrip_changes :
    GitApply.apply changesPatchText (treeOf (sampleFiles oldFiles)) =
      some (treeOf (sampleFiles newFiles)) := by
  have hc : (scanTree (sampleRoot 2 newFiles) (some (1, 2))).toOption =
      some (sampleFiles newFiles) := by decide +kernel
  have hb : (scanTree (sampleRoot 1 oldFiles)).toOption = some (sampleFiles oldFiles) := by
    decide +kernel
  -- Only the names of the two trees have to be looked at.
  have hnames : ∀ name, Full (sampleFiles oldFiles) (sampleFiles newFiles) name ∨
      Bare (sampleFiles oldFiles) (sampleFiles newFiles) name →
      name ∈ ["a", "b", "c", "d", "e"] := by
    intro name h
    have hmem := mem_changedNames.mpr h
    rw [changedNames, allNames_changes] at hmem
    exact List.mem_of_mem_filter hmem
  have hlines : ∀ name ∈ ["a", "b", "c", "d", "e"],
      splitlines (textOf (contentOf (sampleFiles oldFiles) name)) =
        lines (textOf (contentOf (sampleFiles oldFiles) name)) := by decide +kernel
  have hlast : ∀ a ∈ ["a", "b", "c", "d", "e"], ∀ b ∈ ["a", "b", "c", "d", "e"],
      Bare (sampleFiles oldFiles) (sampleFiles newFiles) a →
      Full (sampleFiles oldFiles) (sampleFiles newFiles) b → b < a := by decide +kernel
  refine ((sandboxDiff_roundTrip spliceDiffer_correct (eq_ok_of_toOption hc)
    (eq_ok_of_toOption hb) sampleDiff_changes).1 ?_).mpr ?_
  · exact fun name hfull => hlines name (hnames name (.inl hfull))
  · exact fun a b ha hb => hlast a (hnames a (.inr ha)) b (hnames b (.inl hb)) ha hb

end Eventide.Sandbox
