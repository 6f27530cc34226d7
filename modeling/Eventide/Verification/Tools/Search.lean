import Eventide.Model.FileSearch
import Mathlib.Tactic.Tauto

/-! # What a search of paths finds

The walk finds the files under its start that match, each once. The start is not always a
directory of the tree itself. -/

namespace Eventide.FileSearch

variable {L : Type}

/-! ## Matching -/

/-- The two matchers select the same paths. -/
theorem hostMatches_eq (parts path : List PyStr) :
    hostMatches parts path = SandboxFiles.matchesPath path parts := by
  fun_induction hostMatches parts path with
  | case1 path => rw [SandboxFiles.matchesPath]
  | case2 parts ih => rw [SandboxFiles.matchesPath, if_pos rfl, ih]
  | case3 part parts h => rw [SandboxFiles.matchesPath, if_neg h]
  | case4 parts name path ih1 ih2 =>
    rw [SandboxFiles.matchesPath, if_pos rfl, ih1, ih2]
  | case5 part parts name path h ih => rw [SandboxFiles.matchesPath, if_neg h, ih]

/-- A scalar value is no surrogate. -/
theorem code_scalar_ne (c : Char) (code : Fin 2048) :
    PyChar.code (.scalar c) ≠ PyChar.code (.surrogate code) := by
  have hvalid : c.toNat < 0xD800 ∨ 0xDFFF < c.toNat ∧ c.toNat < 0x110000 := c.valid
  have hcode := code.isLt
  simp only [PyChar.code]
  omega

theorem code_injective : Function.Injective PyChar.code := by
  intro a b h
  cases a with
  | scalar c =>
    cases b with
    | scalar d => exact congrArg _ (Char.toNat_inj.mp h)
    | surrogate d => exact absurd h (code_scalar_ne c d)
  | surrogate c =>
    cases b with
    | scalar d => exact absurd h.symm (code_scalar_ne d c)
    | surrogate d =>
      simp only [PyChar.code] at h
      exact congrArg _ (Fin.ext (by omega))

theorem codes_injective : Function.Injective codes := List.map_injective_iff.mpr code_injective

/-- A part without wildcards matches its own name. -/
theorem fnmatchcase_of_not_wild {part : PyStr} (h : wild part = false) (name : PyStr) :
    fnmatchcase name part = decide (name = part) := by
  have hplain : ∀ c ∈ codes part, Glob.plain c := by
    intro c hc
    by_contra hnot
    have hwild : wild part = true := List.any_eq_true.mpr ⟨c, hc, by simpa using hnot⟩
    rw [h] at hwild
    cases hwild
  rw [fnmatchcase, Glob.fnmatch_of_plain hplain]
  exact decide_eq_decide.mpr codes_injective.eq_iff

theorem wild_anyDepth : wild anyDepth = true := by decide

theorem hostMatches_nil (parts : List PyStr) :
    hostMatches parts [] = true ↔ ∀ part ∈ parts, part = anyDepth := by
  induction parts with
  | nil => simp [hostMatches]
  | cons part parts ih =>
    rw [hostMatches, List.forall_mem_cons]
    split
    · rename_i h
      rw [ih, and_iff_right h]
    · rename_i h
      simp [h]

/-- The parts without wildcards match themselves. -/
theorem hostMatches_append {start : List PyStr} (h : ∀ part ∈ start, wild part = false)
    (parts path : List PyStr) : hostMatches (start ++ parts) path = true ↔
      ∃ rest, path = start ++ rest ∧ hostMatches parts rest = true := by
  induction start generalizing path with
  | nil => simp
  | cons part start ih =>
    obtain ⟨hpart, hstart⟩ := List.forall_mem_cons.mp h
    have hne : part ≠ anyDepth := by
      rintro rfl
      rw [wild_anyDepth] at hpart
      cases hpart
    cases path with
    | nil => simp [hostMatches, hne]
    | cons name path =>
      rw [List.cons_append, hostMatches, if_neg hne, fnmatchcase_of_not_wild hpart]
      simp only [Bool.and_eq_true, Bool.or_eq_true, decide_eq_true_eq, ih hstart]
      constructor
      · rintro ⟨⟨-, rfl⟩, rest, rfl, hrest⟩
        exact ⟨rest, rfl, hrest⟩
      · rintro ⟨rest, heq, hrest⟩
        obtain ⟨rfl, rfl⟩ := List.cons.inj heq
        refine ⟨⟨?_, rfl⟩, rest, rfl, hrest⟩
        cases hidden name <;> simp

/-- A hidden name is matched by a part that begins with a dot. -/
theorem hidden_of_hostMatches {parts path : List PyStr} (h : hostMatches parts path = true)
    (hparts : parts.any hidden = false) : ∀ name ∈ path, hidden name = false := by
  fun_induction hostMatches parts path with
  | case1 path =>
    rw [List.isEmpty_iff] at h
    simp [h]
  | case2 parts ih => simp
  | case3 part parts hne => cases h
  | case4 parts name path ih1 ih2 =>
    rw [List.any_cons, Bool.or_eq_false_iff] at hparts
    rw [Bool.or_eq_true, Bool.and_eq_true] at h
    rcases h with h | ⟨hname, h⟩
    · exact ih1 h hparts.2
    · have hrest := ih2 h (by rw [List.any_cons, hparts.1, hparts.2]; rfl)
      exact List.forall_mem_cons.mpr ⟨by simpa using hname, hrest⟩
  | case5 part parts name path hne ih =>
    rw [List.any_cons, Bool.or_eq_false_iff] at hparts
    simp only [Bool.and_eq_true, Bool.or_eq_true, hparts.1] at h
    obtain ⟨⟨hname, -⟩, hrest⟩ := h
    exact List.forall_mem_cons.mpr ⟨by simpa using hname, ih hrest hparts.2⟩

/-! ## The files of a tree -/

/-- What a path leads to without passing a link. -/
def plainFrom : Entry L → List PyStr → Option (Entry L)
  | entry, [] => some entry
  | .directory entries, name :: parts =>
    (entries.lookup name).bind fun entry => plainFrom entry parts
  | _, _ :: _ => none

theorem plainFrom_append (entry : Entry L) (first second : List PyStr) :
    plainFrom entry (first ++ second) =
      (plainFrom entry first).bind fun entry => plainFrom entry second := by
  induction first generalizing entry with
  | nil => rfl
  | cons name first ih =>
    cases entry with
    | directory entries =>
      simp only [List.cons_append, plainFrom, Option.bind_assoc]
      exact congrArg _ (funext ih)
    | _ => rfl

/-- What is reached without a link is reached. -/
theorem resolveFrom_of_plainFrom {tree : Tree L} {entry target : Entry L} {parts : List PyStr}
    (h : plainFrom entry parts = some target) (hlink : ∀ link, target ≠ .symlink link) :
    tree.resolveFrom entry parts = some target := by
  induction parts generalizing entry with
  | nil => exact h
  | cons name parts ih =>
    cases entry with
    | directory entries =>
      simp only [plainFrom] at h
      obtain ⟨next, hnext, hrest⟩ := Option.bind_eq_some_iff.mp h
      have hplain : ∀ link, next ≠ .symlink link := by
        rintro link rfl
        cases parts with
        | nil => exact hlink link (Option.some.inj hrest).symm
        | cons other parts => cases hrest
      have hfollow : tree.follow next = some next := by
        cases next with
        | symlink link => exact absurd rfl (hplain link)
        | _ => rfl
      rw [Tree.resolveFrom, hnext, Option.bind_some, hfollow, Option.bind_some, ih hrest]
    | _ => cases h

variable (parts : List PyStr)

/-- A name that the walk does not pass over. -/
def visible (name : PyStr) : Prop := hidden name = false ∨ parts.any hidden = true

instance (name : PyStr) : Decidable (visible parts name) := inferInstanceAs (Decidable (_ ∨ _))

mutual

/-- The paths that the walk finds in an entry. -/
def Entry.found : Entry L → List PyStr → List (List PyStr)
  | .file _, path => if hostMatches parts path then [path] else []
  | .directory entries, path => foundEntries entries path
  | _, _ => []

def foundEntries : Entries L → List PyStr → List (List PyStr)
  | [], _ => []
  | (name, entry) :: entries, path =>
    (if visible parts name then entry.found (path ++ [name]) else []) ++ foundEntries entries path

end

variable {parts}

theorem distinct_cons {name : PyStr} {entry : Entry L} {entries : Entries L}
    (h : DistinctEntries ((name, entry) :: entries)) :
    (∀ other ∈ entries, other.1 ≠ name) ∧ entry.Distinct ∧ DistinctEntries entries := h

/-- In a directory without repeated names, a lookup finds every entry. -/
theorem lookup_eq_some_iff {entries : Entries L} (h : DistinctEntries entries) {name : PyStr}
    {entry : Entry L} : entries.lookup name = some entry ↔ (name, entry) ∈ entries := by
  induction entries with
  | nil => simp
  | cons first entries ih =>
    obtain ⟨other, first⟩ := first
    obtain ⟨hnames, -, hrest⟩ := distinct_cons h
    rw [List.mem_cons, Prod.mk.injEq]
    by_cases hsame : name = other
    · subst hsame
      rw [List.lookup_cons_self, Option.some.injEq]
      constructor
      · rintro rfl
        exact .inl ⟨rfl, rfl⟩
      · rintro (⟨-, rfl⟩ | hmem)
        · rfl
        · exact absurd rfl (hnames _ hmem)
    · rw [List.lookup_cons, beq_false_of_ne hsame, ih hrest]
      exact ⟨.inr, fun hor => hor.elim (fun hand => absurd hand.1 hsame) id⟩

theorem distinct_of_mem {entries : Entries L} (h : DistinctEntries entries) {name : PyStr}
    {entry : Entry L} (hmem : (name, entry) ∈ entries) : entry.Distinct := by
  induction entries with
  | nil => cases hmem
  | cons first entries ih =>
    obtain ⟨-, hfirst, hrest⟩ := distinct_cons h
    rcases List.mem_cons.mp hmem with heq | hmem
    · exact (Prod.mk.inj heq).2 ▸ hfirst
    · exact ih hrest hmem

theorem mem_foundEntries {entries : Entries L} {path target : List PyStr} :
    target ∈ foundEntries parts entries path ↔
      ∃ name entry, (name, entry) ∈ entries ∧ visible parts name ∧
        target ∈ entry.found parts (path ++ [name]) := by
  induction entries with
  | nil => simp [foundEntries]
  | cons first entries ih =>
    obtain ⟨name, entry⟩ := first
    rw [foundEntries, List.mem_append, ih]
    constructor
    · rintro (hfirst | ⟨other, next, hmem, hvisible, htarget⟩)
      · split at hfirst
        · rename_i hvisible
          exact ⟨name, entry, List.mem_cons_self, hvisible, hfirst⟩
        · cases hfirst
      · exact ⟨other, next, List.mem_cons_of_mem _ hmem, hvisible, htarget⟩
    · rintro ⟨other, next, hmem, hvisible, htarget⟩
      rcases List.mem_cons.mp hmem with heq | hmem
      · obtain ⟨rfl, rfl⟩ := Prod.mk.inj heq
        exact .inl (by rwa [if_pos hvisible])
      · exact .inr ⟨other, next, hmem, hvisible, htarget⟩

theorem count_lt {entries : Entries L} {name : PyStr} {entry : Entry L}
    (h : (name, entry) ∈ entries) : entry.count < (Entry.directory entries).count := by
  rw [Entry.count]
  induction entries with
  | nil => cases h
  | cons first entries ih =>
    obtain ⟨other, first⟩ := first
    rw [countEntries]
    rcases List.mem_cons.mp h with heq | h
    · obtain ⟨rfl, rfl⟩ := Prod.mk.inj heq
      omega
    · have hrest := ih h
      omega

/-- What is found in an entry: the files that are reached without a link under visible names and
that match. -/
theorem mem_found {entry : Entry L} (h : entry.Distinct) {path target : List PyStr} :
    target ∈ entry.found parts path ↔
      ∃ rest raw, target = path ++ rest ∧ plainFrom entry rest = some (.file raw) ∧
        (∀ name ∈ rest, visible parts name) ∧ hostMatches parts target = true := by
  induction hn : entry.count using Nat.strong_induction_on generalizing entry path with
  | _ n ih =>
    cases entry with
    | file raw =>
      rw [Entry.found]
      constructor
      · intro htarget
        split at htarget
        · rename_i hmatches
          rw [List.mem_singleton] at htarget
          exact ⟨[], raw, by simp [htarget], rfl, by simp, htarget ▸ hmatches⟩
        · cases htarget
      · rintro ⟨rest, raw', rfl, hplain, -, hmatches⟩
        cases rest with
        | nil =>
          rw [List.append_nil] at hmatches
          rw [if_pos hmatches, List.append_nil]
          exact List.mem_singleton_self _
        | cons name rest => cases hplain
    | directory entries =>
      rw [Entry.found, mem_foundEntries]
      constructor
      · rintro ⟨name, next, hmem, hvisible, htarget⟩
        obtain ⟨rest, raw, rfl, hplain, hrest, hmatches⟩ :=
          (ih _ (hn ▸ count_lt hmem) (distinct_of_mem h hmem) rfl).mp htarget
        refine ⟨name :: rest, raw, by simp, ?_, List.forall_mem_cons.mpr ⟨hvisible, hrest⟩, hmatches⟩
        rw [plainFrom, (lookup_eq_some_iff h).mpr hmem, Option.bind_some, hplain]
      · rintro ⟨rest, raw, rfl, hplain, hrest, hmatches⟩
        cases rest with
        | nil => cases hplain
        | cons name rest =>
          obtain ⟨next, hnext, hplain⟩ := Option.bind_eq_some_iff.mp hplain
          have hmem := (lookup_eq_some_iff h).mp hnext
          obtain ⟨hvisible, hrest⟩ := List.forall_mem_cons.mp hrest
          refine ⟨name, next, hmem, hvisible, ?_⟩
          exact (ih _ (hn ▸ count_lt hmem) (distinct_of_mem h hmem) rfl).mpr
            ⟨rest, raw, by simp, hplain, hrest, hmatches⟩
    | symlink link =>
      have hnone : (Entry.symlink link).found parts path = [] := rfl
      rw [hnone]
      constructor
      · intro htarget
        cases htarget
      · rintro ⟨rest, raw, -, hplain, -⟩
        cases rest <;> cases hplain
    | other =>
      have hnone : (Entry.other : Entry L).found parts path = [] := rfl
      rw [hnone]
      constructor
      · intro htarget
        cases htarget
      · rintro ⟨rest, raw, -, hplain, -⟩
        cases rest <;> cases hplain

theorem foundEntries_eq (entries : Entries L) (path : List PyStr) :
    foundEntries parts entries path = entries.flatMap fun entry =>
      if visible parts entry.1 then entry.2.found parts (path ++ [entry.1]) else [] := by
  induction entries with
  | nil => rfl
  | cons entry entries ih => rw [foundEntries, ih, List.flatMap_cons]

theorem nodup_foundEntries {entries : Entries L} (h : DistinctEntries entries) {path : List PyStr}
    (heach : ∀ name next, (name, next) ∈ entries →
      (next.found parts (path ++ [name])).Nodup) : (foundEntries parts entries path).Nodup := by
  induction entries with
  | nil => exact List.nodup_nil
  | cons first entries ih =>
    obtain ⟨name, entry⟩ := first
    obtain ⟨hnames, hentry, hentries⟩ := distinct_cons h
    rw [foundEntries]
    refine List.nodup_append.mpr ⟨?_, ?_, ?_⟩
    · split
      · exact heach name entry List.mem_cons_self
      · exact List.nodup_nil
    · exact ih hentries fun other next hmem => heach other next (List.mem_cons_of_mem _ hmem)
    · rintro target hfirst other hother rfl
      obtain ⟨behind, next, hmem, -, hrest⟩ := mem_foundEntries.mp hother
      split at hfirst
      · obtain ⟨rest, -, heq, -⟩ := (mem_found hentry).mp hfirst
        obtain ⟨rest', -, heq', -⟩ := (mem_found (distinct_of_mem hentries hmem)).mp hrest
        rw [heq, List.append_assoc, List.append_assoc] at heq'
        have hname := (List.cons.inj (List.append_cancel_left heq')).1
        exact hnames _ hmem hname.symm
      · cases hfirst

/-- Nothing is found twice. -/
theorem nodup_found {entry : Entry L} (h : entry.Distinct) (path : List PyStr) :
    (entry.found parts path).Nodup := by
  induction hn : entry.count using Nat.strong_induction_on generalizing entry path with
  | _ n ih =>
    cases entry with
    | file raw =>
      rw [Entry.found]
      split
      · exact List.nodup_singleton _
      · exact List.nodup_nil
    | directory entries =>
      exact nodup_foundEntries h fun name next hmem =>
        ih _ (hn ▸ count_lt hmem) (distinct_of_mem h hmem) _ rfl
    | symlink link => exact List.nodup_nil
    | other => exact List.nodup_nil

/-! ## The walk -/

def foundPending (parts : List PyStr) (pending : List (Pending L)) : List (List PyStr) :=
  pending.flatMap fun directory => foundEntries parts directory.entries directory.path

/-- One entry is found now, or with the directories that are pending. -/
theorem visitEntry_perm (path : List PyStr) (state : List (Pending L) × List (List PyStr))
    (entry : PyStr × Entry L) :
    ((visitEntry parts path state entry).2 ++
      foundPending parts (visitEntry parts path state entry).1).Perm
    (state.2 ++ foundPending parts state.1 ++
      if visible parts entry.1 then entry.2.found parts (path ++ [entry.1]) else []) := by
  obtain ⟨name, entry⟩ := entry
  have hhidden : (hidden name && !parts.any hidden) = true ↔ ¬ visible parts name := by
    simp [visible]
  cases entry with
  | file raw =>
    simp only [visitEntry, hhidden]
    by_cases hvisible : visible parts name
    · rw [if_neg (not_not_intro hvisible), if_pos hvisible, Entry.found]
      split
      · rw [List.append_assoc, List.append_assoc]
        exact List.perm_append_comm.append_left _
      · rw [List.append_nil]
    · rw [if_pos hvisible, if_neg hvisible, List.append_nil]
  | directory entries =>
    simp only [visitEntry, hhidden]
    by_cases hvisible : visible parts name
    · rw [if_neg (not_not_intro hvisible), if_pos hvisible, Entry.found, foundPending,
        List.flatMap_cons, List.append_assoc]
      exact List.perm_append_comm.append_left _
    · rw [if_pos hvisible, if_neg hvisible, List.append_nil]
  | symlink link =>
    have hnone : (Entry.symlink link).found parts (path ++ [name]) = [] := rfl
    simp only [visitEntry, hnone, ite_self, List.append_nil]
    exact .refl _
  | other =>
    have hnone : (Entry.other : Entry L).found parts (path ++ [name]) = [] := rfl
    simp only [visitEntry, hnone, ite_self, List.append_nil]
    exact .refl _

theorem foldl_visitEntry_perm (path : List PyStr) (entries : Entries L)
    (state : List (Pending L) × List (List PyStr)) :
    ((entries.foldl (visitEntry parts path) state).2 ++
      foundPending parts (entries.foldl (visitEntry parts path) state).1).Perm
    (state.2 ++ foundPending parts state.1 ++ foundEntries parts entries path) := by
  induction entries generalizing state with
  | nil => simp [foundEntries]
  | cons entry entries ih =>
    obtain ⟨name, entry⟩ := entry
    rw [List.foldl_cons, foundEntries, ← List.append_assoc]
    exact (ih _).trans ((visitEntry_perm path state (name, entry)).append_right _)

/-- A scan that is not exhausted finds what is found in the pending directories. -/
theorem walk_perm {pending : List (Pending L)} {visited : ℕ} {found : List (List PyStr)}
    (h : (walk parts pending visited found).2 = false) :
    (walk parts pending visited found).1.Perm (found ++ foundPending parts pending) := by
  fun_induction walk parts pending visited found with
  | case1 visited found => simp [foundPending]
  | case2 => cases h
  | case3 directory pending visited found room state hroom ih =>
    refine (ih h).trans ?_
    have hall : directory.entries.take room = directory.entries :=
      List.take_of_length_le (by omega)
    have hstate := @foldl_visitEntry_perm _ parts directory.path
      (sorted (directory.entries.take room)) (pending, found)
    have hsorted : (foundEntries parts (sorted directory.entries) directory.path).Perm
        (foundEntries parts directory.entries directory.path) := by
      rw [foundEntries_eq, foundEntries_eq]
      exact (List.perm_insertionSort _ _).flatMap_right _
    refine hstate.trans ?_
    rw [hall, foundPending, foundPending, List.flatMap_cons, List.append_assoc]
    exact (List.perm_append_comm.trans (hsorted.append_right _)).append_left _

/-! ## What the search selects -/

/-- A file of the tree itself whose path matches. -/
def Selected (tree : Tree L) (parts path : List PyStr) : Prop :=
  (∃ raw, plainFrom (.directory tree.base) path = some (.file raw)) ∧
    SandboxFiles.matchesPath path parts = true

/-- The paths that are returned are those that are selected, each once. -/
def Exact (tree : Tree L) (parts : List PyStr) (paths : List (List PyStr)) : Prop :=
  (∀ path, path ∈ paths ↔ Selected tree parts path) ∧ paths.Nodup

/-- The search starts in the tree: a file at its start is there without a link and the rest of the
pattern matches nothing more, and a directory at its start is there without a link or has no file
that matches. -/
def StartsInside (tree : Tree L) (parts : List PyStr) : Prop :=
  let start := literalPrefix parts
  match tree.resolveFrom (.directory tree.base) start with
  | some (.file raw) => plainFrom (.directory tree.base) start = some (.file raw) ∧
      ∀ part ∈ parts.drop start.length, part = anyDepth
  | some (.directory entries) => plainFrom (.directory tree.base) start = some (.directory entries) ∨
      ∀ rest raw, plainFrom (.directory entries) rest = some (.file raw) →
        SandboxFiles.matchesPath (start ++ rest) parts = false
  | _ => True

variable {tree : Tree L}

theorem not_wild_of_mem_literalPrefix (parts : List PyStr) :
    ∀ part ∈ literalPrefix parts, wild part = false := by
  have hall : (literalPrefix parts).all (fun part => !wild part) = true := List.all_takeWhile
  simpa using hall

theorem literalPrefix_append (parts : List PyStr) :
    literalPrefix parts ++ parts.drop (literalPrefix parts).length = parts :=
  List.prefix_iff_eq_append.mp (List.takeWhile_prefix _)

theorem hostMatches_iff {path : List PyStr} : hostMatches parts path = true ↔
    ∃ rest, path = literalPrefix parts ++ rest ∧
      hostMatches (parts.drop (literalPrefix parts).length) rest = true := by
  have h := hostMatches_append (not_wild_of_mem_literalPrefix parts)
    (parts.drop (literalPrefix parts).length) path
  rwa [literalPrefix_append] at h

/-- A selected path goes on from the start of the search, and what stands there is no link. -/
theorem Selected.exists_rest {path : List PyStr} (h : Selected tree parts path) :
    ∃ rest raw target, path = literalPrefix parts ++ rest ∧
      hostMatches (parts.drop (literalPrefix parts).length) rest = true ∧
      plainFrom (.directory tree.base) (literalPrefix parts) = some target ∧
      plainFrom target rest = some (.file raw) ∧
      tree.resolveFrom (.directory tree.base) (literalPrefix parts) = some target := by
  obtain ⟨⟨raw, hraw⟩, hmatches⟩ := h
  rw [← hostMatches_eq, hostMatches_iff] at hmatches
  obtain ⟨rest, rfl, hrest⟩ := hmatches
  rw [plainFrom_append] at hraw
  obtain ⟨target, htarget, hplain⟩ := Option.bind_eq_some_iff.mp hraw
  refine ⟨rest, raw, target, rfl, hrest, htarget, hplain, ?_⟩
  apply resolveFrom_of_plainFrom htarget
  rintro link rfl
  cases rest <;> cases hplain

theorem selected_append {rest : List PyStr} {target : Entry L} {raw : List UInt8}
    (hstart : plainFrom (.directory tree.base) (literalPrefix parts) = some target)
    (hplain : plainFrom target rest = some (.file raw))
    (hmatches : hostMatches (parts.drop (literalPrefix parts).length) rest = true) :
    Selected tree parts (literalPrefix parts ++ rest) := by
  refine ⟨⟨raw, by rw [plainFrom_append, hstart, Option.bind_some, hplain]⟩, ?_⟩
  rw [← hostMatches_eq, hostMatches_iff]
  exact ⟨rest, rfl, hmatches⟩

theorem distinct_resolveFrom {entry target : Entry L} {path : List PyStr} (h : entry.Distinct)
    (hpath : tree.resolveFrom entry path = some target) : target.Distinct := by
  induction path generalizing entry with
  | nil => exact Option.some.inj hpath ▸ h
  | cons name path ih =>
    cases entry with
    | directory entries =>
      obtain ⟨next, hnext, hrest⟩ := Option.bind_eq_some_iff.mp hpath
      obtain ⟨first, hfirst, hfollow⟩ := Option.bind_eq_some_iff.mp hnext
      have hdistinct := distinct_of_mem h ((lookup_eq_some_iff h).mp hfirst)
      refine ih ?_ hrest
      cases first with
      | symlink link => exact tree.distinct_resolve link next hfollow
      | _ => exact Option.some.inj hfollow ▸ hdistinct
    | _ => cases hpath

/-- A search that starts at a file returns it. -/
theorem exact_file_iff {raw : List UInt8}
    (h : tree.resolveFrom (.directory tree.base) (literalPrefix parts) = some (.file raw)) :
    Exact tree parts [literalPrefix parts] ↔
      plainFrom (.directory tree.base) (literalPrefix parts) = some (.file raw) ∧
        ∀ part ∈ parts.drop (literalPrefix parts).length, part = anyDepth := by
  constructor
  · rintro ⟨hexact, -⟩
    have hselected := (hexact (literalPrefix parts)).mp (List.mem_singleton_self _)
    obtain ⟨rest, raw', target, heq, hmatches, hplain, -, hresolve⟩ := hselected.exists_rest
    obtain rfl : target = .file raw := Option.some.inj (hresolve.symm.trans h)
    obtain rfl : rest = [] := List.self_eq_append_right.mp heq
    exact ⟨hplain, (hostMatches_nil _).mp hmatches⟩
  · rintro ⟨hplain, hrest⟩
    refine ⟨fun path => ⟨fun hpath => ?_, fun hselected => ?_⟩, List.nodup_singleton _⟩
    · rw [List.mem_singleton.mp hpath]
      have hself := @selected_append _ parts _ _ _ _ hplain rfl ((hostMatches_nil _).mpr hrest)
      rwa [List.append_nil] at hself
    · obtain ⟨rest, raw', target, rfl, -, hplain', htarget, -⟩ := hselected.exists_rest
      obtain rfl : target = .file raw := Option.some.inj (hplain'.symm.trans hplain)
      cases rest with
      | nil => simp
      | cons name rest => cases htarget

theorem sortPaths_perm (found : List (List PyStr)) : (sortPaths found).Perm found :=
  List.perm_insertionSort _ found

theorem visible_of_hostMatches {path : List PyStr} (h : hostMatches parts path = true) :
    ∀ name ∈ path, visible parts name := by
  intro name hname
  cases hparts : parts.any hidden with
  | true => exact .inr hparts
  | false => exact .inl (hidden_of_hostMatches h hparts name hname)

/-- What a scan from a directory returns. -/
theorem mem_walk_iff {entries : Entries L} (hdistinct : (Entry.directory entries).Distinct)
    (hscan : (walk parts [⟨literalPrefix parts, entries⟩] 0 []).2 = false) {path : List PyStr} :
    path ∈ sortPaths (walk parts [⟨literalPrefix parts, entries⟩] 0 []).1 ↔
      ∃ rest raw, path = literalPrefix parts ++ rest ∧
        plainFrom (.directory entries) rest = some (.file raw) ∧
        hostMatches parts path = true := by
  have hpending : foundPending parts [⟨literalPrefix parts, entries⟩] =
      (Entry.directory entries).found parts (literalPrefix parts) := by
    rw [foundPending, List.flatMap_singleton]
    rfl
  rw [(sortPaths_perm _).mem_iff, (walk_perm hscan).mem_iff, List.nil_append, hpending,
    mem_found hdistinct]
  constructor
  · rintro ⟨rest, raw, heq, hplain, -, hmatches⟩
    exact ⟨rest, raw, heq, hplain, hmatches⟩
  · rintro ⟨rest, raw, rfl, hplain, hmatches⟩
    refine ⟨rest, raw, rfl, hplain, fun name hname => ?_, hmatches⟩
    exact visible_of_hostMatches hmatches name (List.mem_append_right _ hname)

theorem nodup_walk {entries : Entries L} (hdistinct : (Entry.directory entries).Distinct)
    (hscan : (walk parts [⟨literalPrefix parts, entries⟩] 0 []).2 = false) :
    (sortPaths (walk parts [⟨literalPrefix parts, entries⟩] 0 []).1).Nodup := by
  have hpending : foundPending parts [⟨literalPrefix parts, entries⟩] =
      (Entry.directory entries).found parts (literalPrefix parts) := by
    rw [foundPending, List.flatMap_singleton]
    rfl
  rw [(sortPaths_perm _).nodup_iff, (walk_perm hscan).nodup_iff, List.nil_append, hpending]
  exact nodup_found hdistinct _

/-- A scan is exact in a directory of the tree, and elsewhere when it finds nothing. -/
theorem exact_directory_iff {entries : Entries L}
    (h : tree.resolveFrom (.directory tree.base) (literalPrefix parts) = some (.directory entries))
    (hscan : (walk parts [⟨literalPrefix parts, entries⟩] 0 []).2 = false) :
    Exact tree parts (sortPaths (walk parts [⟨literalPrefix parts, entries⟩] 0 []).1) ↔
      plainFrom (.directory tree.base) (literalPrefix parts) = some (.directory entries) ∨
        ∀ rest raw, plainFrom (.directory entries) rest = some (.file raw) →
          SandboxFiles.matchesPath (literalPrefix parts ++ rest) parts = false := by
  have hdistinct : (Entry.directory entries).Distinct :=
    distinct_resolveFrom (show (Entry.directory tree.base).Distinct from tree.distinct) h
  have hmem := fun path => @mem_walk_iff _ parts _ hdistinct hscan path
  constructor
  · rintro ⟨hexact, -⟩
    by_contra hnot
    obtain ⟨hlinked, hfiles⟩ := not_or.mp hnot
    apply hfiles
    intro rest raw hplain
    by_contra hmatches
    rw [Bool.not_eq_false, ← hostMatches_eq] at hmatches
    have hselected := (hexact _).mp ((hmem _).mpr ⟨rest, raw, rfl, hplain, hmatches⟩)
    obtain ⟨-, -, target, -, -, hstart, -, hresolve⟩ := hselected.exists_rest
    obtain rfl : target = .directory entries := Option.some.inj (hresolve.symm.trans h)
    exact hlinked hstart
  · intro hinside
    refine ⟨fun path => ?_, nodup_walk hdistinct hscan⟩
    rw [hmem]
    constructor
    · rintro ⟨rest, raw, rfl, hplain, hmatches⟩
      rcases hinside with hstart | hnone
      · refine ⟨⟨raw, by rw [plainFrom_append, hstart, Option.bind_some, hplain]⟩, ?_⟩
        rwa [← hostMatches_eq]
      · have hfalse := hnone rest raw hplain
        rw [← hostMatches_eq, hmatches] at hfalse
        cases hfalse
    · intro hselected
      obtain ⟨rest, raw, target, rfl, -, -, hplain, hresolve⟩ := hselected.exists_rest
      obtain rfl : target = .directory entries := Option.some.inj (hresolve.symm.trans h)
      refine ⟨rest, raw, rfl, hplain, ?_⟩
      rw [hostMatches_eq]
      exact hselected.2

/-- A search that starts nowhere finds nothing, and there is nothing to find. -/
theorem exact_nil (hfile : ∀ raw, tree.resolveFrom (.directory tree.base) (literalPrefix parts) ≠
      some (.file raw))
    (hdirectory : ∀ entries, tree.resolveFrom (.directory tree.base) (literalPrefix parts) ≠
      some (.directory entries)) : Exact tree parts [] := by
  refine ⟨fun path => ⟨fun hpath => ?_, fun hselected => ?_⟩, List.nodup_nil⟩
  · cases hpath
  · obtain ⟨rest, raw, target, -, -, -, hplain, hresolve⟩ := hselected.exists_rest
    cases target with
    | file other => exact absurd hresolve (hfile other)
    | directory entries => exact absurd hresolve (hdirectory entries)
    | symlink link => cases rest <;> cases hplain
    | other => cases rest <;> cases hplain

/-- A scan that is not exhausted returns the selected paths exactly when it starts inside. -/
theorem searchPaths_iff (tree : Tree L) (parts : List PyStr)
    (h : (searchPaths tree parts).2 = false) :
    Exact tree parts (searchPaths tree parts).1 ↔ StartsInside tree parts := by
  cases hstart : tree.resolveFrom (.directory tree.base) (literalPrefix parts) with
  | some target =>
    cases target with
    | file raw =>
      simp only [searchPaths, StartsInside, hstart]
      exact exact_file_iff hstart
    | directory entries =>
      simp only [searchPaths, hstart] at h
      simp only [searchPaths, StartsInside, hstart]
      exact exact_directory_iff hstart h
    | symlink link =>
      simp only [searchPaths, StartsInside, hstart, iff_true]
      apply exact_nil <;> simp [hstart]
    | other =>
      simp only [searchPaths, StartsInside, hstart, iff_true]
      apply exact_nil <;> simp [hstart]
  | none =>
    simp only [searchPaths, StartsInside, hstart, iff_true]
    apply exact_nil <;> simp [hstart]

/-- Two texts, another one that is hidden, and a link to a directory with a third. -/
def notesTree : Tree Unit where
  base := [(PyStr.ofString "notes", .directory
    [(PyStr.ofString "b.txt", .file (encodeChars "ab\nc".toList)),
      (PyStr.ofString "link", .symlink ()),
      (PyStr.ofString ".c.txt", .file []),
      (PyStr.ofString "a.txt", .file (encodeChars "a\nxay".toList))])]
  resolve _ := some (.directory [(PyStr.ofString "d.txt", .file [])])
  distinct := by
    simp only [DistinctEntries, Entry.Distinct]
    decide
  distinct_resolve := by
    rintro link entry h
    obtain rfl := Option.some.inj h
    simp only [Entry.Distinct, DistinctEntries]
    decide

def notesPattern : List PyStr := [PyStr.ofString "**", PyStr.ofString "*.txt"]

theorem searchPaths_notes : searchPaths notesTree notesPattern =
    ([[PyStr.ofString "notes", PyStr.ofString "a.txt"],
      [PyStr.ofString "notes", PyStr.ofString "b.txt"]], false) := by
  decide +kernel

theorem searchPaths_exact_notes :
    Exact notesTree notesPattern [[PyStr.ofString "notes", PyStr.ofString "a.txt"],
      [PyStr.ofString "notes", PyStr.ofString "b.txt"]] := by
  have hexhausted : (searchPaths notesTree notesPattern).2 = false := by rw [searchPaths_notes]
  have hexact := (searchPaths_iff notesTree notesPattern hexhausted).mpr (.inl rfl)
  rwa [searchPaths_notes] at hexact

/-- A base directory with one file. -/
def oneFile : Tree Empty where
  base := [(PyStr.ofString "notes.txt", .file [])]
  resolve := nofun
  distinct := ⟨nofun, trivial, trivial⟩
  distinct_resolve := nofun

/-- A file is returned for a pattern that goes on below it. -/
theorem searchPaths_below_file :
    let parts := [PyStr.ofString "notes.txt", PyStr.ofString "*"]
    (searchPaths oneFile parts).2 = false ∧ ¬ Exact oneFile parts (searchPaths oneFile parts).1 := by
  intro parts
  have hpaths : searchPaths oneFile parts = ([[PyStr.ofString "notes.txt"]], false) := by
    decide +kernel
  have hname : PyStr.ofString "notes.txt" ≠ anyDepth := by decide +kernel
  have hpart : PyStr.ofString "*" ≠ anyDepth := by decide +kernel
  rw [hpaths]
  refine ⟨rfl, fun h => ?_⟩
  have hselected := (h.1 _).mp (List.mem_singleton_self _)
  have hmatches := hselected.2
  simp [parts, SandboxFiles.matchesPath, hname, hpart] at hmatches

end Eventide.FileSearch
