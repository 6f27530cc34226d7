import Eventide.Library.Paging
import Eventide.Model.FileSearch
import Eventide.Verification.Tools.Text

/-! # Searching text by pages

The loops over files and lines are one loop over the items of all matching lines, and each reply of
`run_search_text` shows a part of these items. -/

namespace Eventide.FileSearch

open Paging
open Reading

/-! ## The items of a search -/

/-- The text of a file that is searched. -/
def searchable (raw : List UInt8) : Option (List Char) :=
  if raw.length ≤ searchFileBytes then (decode raw).filter fun text => '\x00' ∉ text else none

def lineItems (query relative : PyStr) (number : ℕ) (lines : List (List Char)) : List PyStr :=
  (lines.zipIdx number).filterMap fun (line, number) =>
    item? query relative number (PyStr.ofChars line)

/-- The items of a file. -/
def fileItems (query : PyStr) (file : PyStr × List UInt8) : List PyStr :=
  match searchable file.2 with
  | some text => lineItems query file.1 1 (Filesystem.lines text)
  | none => []

/-- The items of all matching lines. -/
def allItems (query : PyStr) (files : List (PyStr × List UInt8)) : List PyStr :=
  files.flatMap (fileItems query)

/-- The limits of the scan are not reached, after so many files and bytes. -/
def WithinLimits : ℕ → ℕ → List (PyStr × List UInt8) → Prop
  | _, _, [] => True
  | scanned, usedBytes, (_, raw) :: files =>
    scanned < searchScanFiles ∧ usedBytes < searchScanBytes ∧
      usedBytes + min raw.length searchFileBytes ≤ searchScanBytes ∧
      WithinLimits (scanned + 1) (usedBytes + min raw.length (searchFileBytes + 1)) files

/-- The loop over the items. -/
def Hits.collect (offset limit : ℕ) (hits : Hits) : List PyStr → Hits
  | [] => hits
  | item :: items =>
    let hits := hits.add offset limit item
    if hits.more then hits else hits.collect offset limit items

variable {query relative : PyStr} {offset limit : ℕ}

theorem Hits.collect_append (hits : Hits) (h : hits.more = false) (items rest : List PyStr) :
    hits.collect offset limit (items ++ rest) =
      if (hits.collect offset limit items).more then hits.collect offset limit items
      else (hits.collect offset limit items).collect offset limit rest := by
  induction items generalizing hits with
  | nil =>
    rw [List.nil_append, collect, h]
    rfl
  | cons item items ih =>
    rw [List.cons_append, collect, collect]
    cases hmore : (hits.add offset limit item).more with
    | true => simp only [if_true, hmore]
    | false =>
      simp only [Bool.false_eq_true, if_false]
      exact ih _ hmore

/-- The loop over the lines is one over their items. -/
theorem searchLines_eq (number : ℕ) (hits : Hits) (lines : List (List Char)) :
    searchLines query relative offset limit number hits lines =
      hits.collect offset limit (lineItems query relative number lines) := by
  induction lines generalizing number hits with
  | nil => rfl
  | cons line lines ih =>
    rw [searchLines, lineItems, List.zipIdx_cons]
    cases hitem : item? query relative number (PyStr.ofChars line) with
    | none =>
      simp only [List.filterMap_cons, hitem]
      exact ih (number + 1) hits
    | some item =>
      simp only [List.filterMap_cons, hitem, Hits.collect]
      split
      · rfl
      · exact ih (number + 1) _

/-- The loop over the files is one over the items of all of them. -/
theorem searchFiles_hits {files : List (PyStr × List UInt8)} {state : SearchState}
    (hlimits : WithinLimits state.scanned state.usedBytes files) (h : state.hits.more = false) :
    (searchFiles query offset limit state files).hits =
      state.hits.collect offset limit (allItems query files) := by
  induction files generalizing state with
  | nil => rfl
  | cons file files ih =>
    obtain ⟨relative, raw⟩ := file
    obtain ⟨hscanned, hused, hread, hrest⟩ := hlimits
    have hitems : allItems query ((relative, raw) :: files) =
        fileItems query (relative, raw) ++ allItems query files := List.flatMap_cons
    have hskip (hnone : searchable raw = none) : allItems query ((relative, raw) :: files) =
        allItems query files := by
      rw [hitems, fileItems, hnone, List.nil_append]
    rw [searchFiles, if_neg (by omega)]
    by_cases hlong : searchFileBytes < raw.length
    · have hlength : (raw.take (min searchFileBytes (searchScanBytes - state.usedBytes) + 1)).length =
          searchFileBytes + 1 := by
        rw [List.length_take]
        omega
      rw [min_eq_right (by omega)] at hrest
      have hnone : searchable raw = none := if_neg (by omega)
      simp only [hlength]
      rw [if_pos (Nat.lt_succ_self _), hskip hnone]
      exact ih hrest h
    · have htake : raw.take (min searchFileBytes (searchScanBytes - state.usedBytes) + 1) = raw :=
        List.take_of_length_le (by omega)
      rw [min_eq_left (by omega)] at hrest
      simp only [htake]
      rw [if_neg hlong, if_neg (by omega)]
      cases hdecode : decode raw with
      | none =>
        have hnone : searchable raw = none := by
          rw [searchable, if_pos (by omega), hdecode, Option.filter_none]
        rw [hskip hnone]
        exact ih hrest h
      | some text =>
        by_cases hnul : '\x00' ∈ text
        · have hnone : searchable raw = none := by
            rw [searchable, if_pos (by omega), hdecode, Option.filter_some_neg (by simpa using hnul)]
          simp only [if_pos hnul]
          rw [hskip hnone]
          exact ih hrest h
        · have htext : searchable raw = some text := by
            rw [searchable, if_pos (by omega), hdecode, Option.filter_some_pos (by simpa using hnul)]
          have hfile : fileItems query (relative, raw) =
              lineItems query relative 1 (Filesystem.lines text) := by
            rw [fileItems, htext]
          simp only [if_neg hnul]
          rw [hitems, Hits.collect_append _ h, hfile, ← searchLines_eq]
          cases hmore : (searchLines query relative offset limit 1 state.hits
              (Filesystem.lines text)).more with
          | true => rfl
          | false =>
            simp only [Bool.false_eq_true, if_false]
            exact ih hrest hmore

/-! ## What a page keeps -/

/-- The loop over the items keeps a part of those from the offset on, and some of them. -/
theorem Hits.collect_spec (hlimit : 0 < limit) {items : List PyStr}
    (hshort : ∀ item ∈ items, item.length < 9000) (hits : Hits) (h : hits.more = false) :
    ∃ n ≤ (items.drop (offset - hits.matched)).length,
      (hits.collect offset limit items).page =
        hits.page ++ (items.drop (offset - hits.matched)).take n ∧
      (hits.collect offset limit items).more =
        decide (n < (items.drop (offset - hits.matched)).length) ∧
      (hits.page = [] → hits.usedChars = 0 → items.drop (offset - hits.matched) ≠ [] → 0 < n) := by
  induction items generalizing hits with
  | nil => exact ⟨0, Nat.zero_le _, by simp [collect], by simp [collect, h], by simp⟩
  | cons item items ih =>
    obtain ⟨hitem, hshort⟩ := List.forall_mem_cons.mp hshort
    obtain ⟨page, matched, used, more⟩ := hits
    obtain rfl : more = false := h
    rw [collect, add]
    by_cases hskip : matched + 1 ≤ offset
    · have hdrop : offset - matched = offset - (matched + 1) + 1 := by omega
      simp only [if_pos hskip, hdrop, List.drop_succ_cons, Bool.false_eq_true, if_false]
      exact ih hshort ⟨page, matched + 1, used, false⟩ rfl
    · have hdrop : offset - matched = 0 := by omega
      have hnext : offset - (matched + 1) = 0 := by omega
      simp only [if_neg hskip, hdrop, List.drop_zero]
      by_cases hfull : limit ≤ page.length ∨ 9000 < used + item.length + 1
      · simp only [if_pos hfull, if_true]
        refine ⟨0, Nat.zero_le _, by simp, by simp, fun hpage hused => ?_⟩
        rw [hpage, hused, List.length_nil] at hfull
        omega
      · obtain ⟨n, hn, hpage, hmore, -⟩ :=
          ih hshort ⟨page ++ [item], matched + 1, used + (item.length + 1), false⟩ rfl
        simp only [hnext, List.drop_zero] at hn hpage hmore
        simp only [if_neg hfull, Bool.false_eq_true, if_false]
        refine ⟨n + 1, by simpa using hn, ?_, ?_, fun _ _ _ => Nat.succ_pos n⟩
        · rw [hpage, List.take_succ_cons, List.append_assoc, List.singleton_append]
        · rw [hmore]
          simp

/-- An item has a newline only where the name of its file has one. -/
theorem newline_not_mem_of_mem_allItems {files : List (PyStr × List UInt8)}
    (hnames : ∀ file ∈ files, PyChar.scalar '\n' ∉ file.1) {item : PyStr}
    (hitem : item ∈ allItems query files) : PyChar.scalar '\n' ∉ item := by
  obtain ⟨file, hfile, hitem⟩ := List.mem_flatMap.mp hitem
  rw [fileItems] at hitem
  cases htext : searchable file.2 with
  | none =>
    rw [htext] at hitem
    cases hitem
  | some text =>
    rw [htext] at hitem
    obtain ⟨⟨line, number⟩, hline, hitem⟩ := List.mem_filterMap.mp hitem
    obtain ⟨found, -, rfl⟩ := Option.map_eq_some_iff.mp hitem
    have hnot : '\n' ∉ line := newline_not_mem_of_mem_lines
      (List.mem_of_getElem? (List.mk_mem_zipIdx_iff_le_and_getElem?_sub.mp hline).2)
    have hslice : PyChar.scalar '\n' ∉ Text.slice (PyStr.ofChars line) (found.1.length - 60)
        (found.1.length + max query.length 180) := by
      intro h
      have hmem := List.mem_of_mem_take (List.mem_of_mem_drop h)
      rw [PyStr.ofChars, List.mem_map] at hmem
      obtain ⟨c, hc, heq⟩ := hmem
      obtain rfl := PyChar.scalar.inj heq
      exact hnot hc
    simp only [List.mem_append, not_or]
    refine ⟨⟨hnames file hfile, ?_⟩, hslice⟩
    simp [PyStr.ofString, PyStr.ofChars, newline_not_mem_toDigits]

/-! ## Reading the reply -/

/-- A reader of `run_search_text`: the header says how many items there are and how to go on. -/
def readSearch (reply : PyStr) : Option (Page PyStr) := do
  let (header, body) := firstLine (.scalar '\n') reply
  let header ← PyStr.chars? header
  let rest ← strip? "[Literal search; ".toList header
  let (count, rest) ← number? rest
  let rest ← strip? " matching lines; ".toList rest
  let items := if count = 0 then [] else body.splitOn (.scalar '\n')
  match strip? "next offset=".toList rest with
  | some rest => do
    let (next, _) ← number? rest
    return ⟨items, some next⟩
  | none => return ⟨items, none⟩

/-- A reply is read as the lines of its items, and as the offset that its header names. -/
theorem readSearch_searchReply (files : List (PyStr × List UInt8)) (enumerated : Bool) :
    readSearch (searchReply query files enumerated offset limit) =
      let hits := (searchFiles query offset limit (.start !enumerated) files).hits
      some ⟨hits.page.flatMap (·.splitOn (.scalar '\n')),
        if hits.more then some (offset + hits.page.length) else none⟩ := by
  unfold searchReply
  generalize searchFiles query offset limit (.start !enumerated) files = state
  dsimp only
  generalize hstatus : (if state.hits.more then s!"next offset={offset + state.hits.page.length}"
    else if state.exhausted then "scan limit reached; narrow pattern (remaining files unsearched)"
    else "end of matches") = status
  generalize hincomplete : (if state.exhausted then "True" else "False") = incomplete
  have hline : '\n' ∉ status.toList ∧ '\n' ∉ incomplete.toList := by
    rw [← hstatus, ← hincomplete]
    constructor
    · split
      · simp [newline_not_mem_toDigits]
      · split <;> decide
    · split <;> decide
  have hheader : (s!"[Literal search; {state.hits.page.length} matching lines; {status}; " ++
      s!"enumeration incomplete={incomplete}; " ++
      s!"scanned {state.scanned} files; skipped {state.skipped} non-UTF8/binary/oversized files]").toList =
        "[Literal search; ".toList ++ (Nat.toDigits 10 state.hits.page.length ++
          (" matching lines; ".toList ++ (status.toList ++ "; enumeration incomplete=".toList ++
            incomplete.toList ++ "; scanned ".toList ++ Nat.toDigits 10 state.scanned ++
            " files; skipped ".toList ++ Nat.toDigits 10 state.skipped ++
            " non-UTF8/binary/oversized files]".toList))) := by
    simp
  rw [readSearch, firstLine_ofString (by simp [newline_not_mem_toDigits, hline])]
  simp only [PyStr.chars?_ofChars, hheader, strip?_append, Option.bind_eq_bind, Option.bind_some]
  rw [number?_toDigits _ (by simp)]
  simp only [strip?_append, Option.bind_some]
  have hitems : (if state.hits.page.length = 0 then []
      else List.splitOn (.scalar '\n') (if state.hits.page = [] then
        PyStr.ofString "(no matches in searched text)"
        else (PyStr.ofString "\n").intercalate state.hits.page)) =
      state.hits.page.flatMap (·.splitOn (.scalar '\n')) := by
    by_cases hpage : state.hits.page = []
    · simp [hpage]
    · rw [if_neg (mt List.length_eq_zero_iff.mp hpage), if_neg hpage]
      exact splitOn_intercalate hpage
  rw [hitems]
  cases hmore : state.hits.more with
  | true =>
    rw [hmore, if_pos rfl] at hstatus
    have hnext : status.toList = "next offset=".toList ++
        Nat.toDigits 10 (offset + state.hits.page.length) := by
      simp [← hstatus]
    simp only [hnext, List.append_assoc, strip?_append]
    rw [number?_toDigits _ (by simp)]
    rfl
  | false =>
    rw [hmore, if_neg Bool.false_ne_true] at hstatus
    have hlast : ∀ rest, strip? "next offset=".toList (status.toList ++ rest) = none := by
      intro rest
      rw [← hstatus]
      split
      · exact strip?_eq_none (by decide) _ _
      · exact strip?_eq_none (by decide) _ _
    simp only [List.append_assoc, hlast]
    rfl

variable {L : Type} {tree : Tree L} {parts : List PyStr}

/-- The files that a search goes through. -/
def searched (tree : Tree L) (parts : List PyStr) : List (PyStr × List UInt8) :=
  foundFiles tree (searchPaths tree parts).1

/-- What the replies show are pages of the items. -/
theorem pages_runSearchText (hlimits : WithinLimits 0 0 (searched tree parts))
    (hshort : ∀ item ∈ allItems query (searched tree parts), item.length < 9000) :
    Pages (allItems query (searched tree parts)) (·.splitOn (.scalar '\n')) (0 < ·)
      fun offset limit => readSearch (runSearchText tree query parts offset limit) := by
  intro offset limit _ hlimit
  have hread := @readSearch_searchReply query offset limit (searched tree parts)
    (!(searchPaths tree parts).2)
  generalize (!!(searchPaths tree parts).2) = exhausted at hread
  have hhits := @searchFiles_hits query offset limit _ (.start exhausted) hlimits rfl
  obtain ⟨n, hn, hpage, hmore, hpos⟩ :=
    @Hits.collect_spec offset limit hlimit _ hshort (SearchState.start exhausted).hits rfl
  rw [← hhits] at hpage hmore
  have hstart : offset - (SearchState.start exhausted).hits.matched = offset := Nat.sub_zero offset
  rw [hstart] at hn hpage hmore hpos
  have hitems : (searchFiles query offset limit (.start exhausted) (searched tree parts)).hits.page =
      ((allItems query (searched tree parts)).drop offset).take n := hpage
  rw [List.length_drop] at hn hmore
  refine ⟨n, hn, fun hoffset => hpos rfl rfl ?_, hread.trans ?_⟩
  · rw [← List.length_pos_iff, List.length_drop]
    omega
  · simp only [hitems, hmore, decide_eq_true_eq, List.length_take, List.length_drop,
      Nat.min_eq_left hn]

end Eventide.FileSearch
