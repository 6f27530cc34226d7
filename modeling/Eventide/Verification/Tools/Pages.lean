import Eventide.Model.ToolResults
import Eventide.Verification.Tools.Matches
import Eventide.Verification.Tools.Search
import Eventide.Verification.Tools.Text

/-! # Reading by pages

A reader of the replies for a tool result, a resource, a file or a search, who takes from each of
them what it shows and where to go on: together the replies show the whole, and those of `run_read`
are those of the container. -/

namespace Eventide

open Chunker (normalizeNewlines)
open Paging
open Reading

namespace Filesystem

/-! ## Lines -/

theorem lines_cons {c : Char} {cs : List Char} (h : c = '\r' → cs.head? ≠ some '\n') :
    lines (c :: cs) = if Sandbox.isLineBreak c then [] :: lines cs
      else match lines cs with
        | [] => [[c]]
        | line :: rest => (c :: line) :: rest := by
  cases cs with
  | nil => simp [lines]
  | cons d cs =>
    refine lines.eq_3 c (d :: cs) fun rest hc hrest => ?_
    obtain ⟨rfl, -⟩ := List.cons.inj hrest
    exact h hc rfl

/-- A line ends where the translated one does. -/
theorem lines_normalizeNewlines (text : List Char) : lines (normalizeNewlines text) = lines text := by
  have hnewline : Sandbox.isLineBreak '\n' = true := by decide
  have hreturn : Sandbox.isLineBreak '\r' = true := by decide
  fun_induction normalizeNewlines text with
  | case1 => rfl
  | case2 c =>
    split
    · rename_i hc
      subst hc
      decide
    · rfl
  | case3 d cs ih1 ih2 =>
    rw [@lines_cons '\n' _ fun h => absurd h (by decide), if_pos hnewline]
    split
    · rename_i hd
      subst hd
      rw [ih1]
      rfl
    · rename_i hd
      rw [ih2, @lines_cons '\r' (d :: cs) fun _ => by simpa using hd, if_pos hreturn]
  | case4 c d cs hc ih =>
    rw [lines_cons fun h => absurd h hc, lines_cons fun h => absurd h hc, ih]

/-! ## The pages of both tools -/

theorem keepPage_some {limit : ℕ} (page : List (List Char)) (used : ℕ) (lines : List (List Char)) :
    SandboxFiles.keepPage (some (limit : ℤ)) page used lines =
      page ++ lines.take (limit - page.length) := by
  induction lines generalizing page used with
  | nil => simp [SandboxFiles.keepPage]
  | cons line lines ih =>
    rw [SandboxFiles.keepPage]
    by_cases hfull : limit ≤ page.length
    · have hzero : limit - page.length = 0 := by omega
      rw [if_pos (by simpa using hfull), hzero, List.take_zero, List.append_nil]
    · have hsucc : limit - page.length = limit - (page ++ [line]).length + 1 := by
        simp only [List.length_append, List.length_singleton]
        omega
      rw [if_neg (by simpa using hfull), if_neg (by simp), ih, hsucc, List.take_succ_cons,
        List.append_assoc, List.singleton_append]

theorem keepPage_none (page : List (List Char)) (used : ℕ) (lines : List (List Char)) :
    SandboxFiles.keepPage none page used lines = keepLines readPageChars page used lines := by
  induction lines generalizing page used with
  | nil => rfl
  | cons line lines ih =>
    rw [SandboxFiles.keepPage, keepLines, if_neg (by simp)]
    by_cases hfull : page ≠ [] ∧ readPageChars < used + (line.length + 1)
    · rw [if_pos ⟨rfl, hfull⟩, if_pos hfull]
    · rw [if_neg fun h => hfull h.2, if_neg hfull, ih]
      rfl

/-- The limits that a reader may choose: a positive number, or none. -/
def ValidLimit (limit : Option ℤ) : Prop := ∀ n, limit = some n → 0 < n

theorem hostPage_eq {limit : Option ℤ} (h : ValidLimit limit) (lines : List (List Char)) :
    SandboxFiles.keepPage limit [] 0 lines = hostPage limit lines := by
  cases limit with
  | none => exact keepPage_none [] 0 lines
  | some limit =>
    have hpos := h limit rfl
    obtain ⟨n, rfl⟩ := Int.eq_ofNat_of_zero_le hpos.le
    rw [keepPage_some, hostPage, sliceTo, if_pos hpos.le]
    simp

/-! ## What a page keeps -/

/-- A page is a beginning of what remains, and not an empty one. -/
theorem keepLines_spec (budget : ℕ) (kept : List (List Char)) (used : ℕ) (lines : List (List Char)) :
    ∃ n ≤ lines.length, keepLines budget kept used lines = kept ++ lines.take n ∧
      (kept = [] → lines ≠ [] → 0 < n) := by
  induction lines generalizing kept used with
  | nil => exact ⟨0, le_rfl, by simp [keepLines], fun _ h => absurd rfl h⟩
  | cons line lines ih =>
    rw [keepLines]
    split
    · rename_i hfull
      exact ⟨0, Nat.zero_le _, by simp, fun h => absurd h hfull.1⟩
    · obtain ⟨n, hn, heq, -⟩ := ih (kept ++ [line]) (used + (line.length + 1))
      refine ⟨n + 1, by simpa using hn, ?_, fun _ _ => Nat.succ_pos n⟩
      rw [heq, List.take_succ_cons, List.append_assoc, List.singleton_append]

theorem hostPage_spec {limit : Option ℤ} (h : ValidLimit limit) (lines : List (List Char)) :
    ∃ n ≤ lines.length, hostPage limit lines = lines.take n ∧ (lines ≠ [] → 0 < n) := by
  cases limit with
  | none =>
    obtain ⟨n, hn, heq, hpos⟩ := keepLines_spec readPageChars [] 0 lines
    exact ⟨n, hn, heq, hpos rfl⟩
  | some limit =>
    have hpos := h limit rfl
    refine ⟨min limit.toNat lines.length, min_le_right _ _, ?_, fun hne => ?_⟩
    · rw [hostPage, sliceTo, if_pos hpos.le, ← List.take_eq_take_min]
    · have hlength := List.length_pos_iff.mpr hne
      omega

/-- The lines from one on, numbered, are the end of the numbered lines. -/
theorem numbered_drop (lines : List (List Char)) (start : ℕ) :
    numbered start (lines.drop start) = (numbered 0 lines).drop start := by
  apply List.ext_getElem?
  intro i
  simp only [numbered, List.getElem?_map, List.getElem?_zipIdx, List.getElem?_drop, Option.map_map]
  cases lines[start + i]? with
  | none => rfl
  | some line =>
    have hnumber : start + 1 + i = 0 + 1 + (start + i) := by omega
    simp only [Option.map_some, Function.comp_apply, hnumber]

theorem length_numbered (start : ℕ) (lines : List (List Char)) :
    (numbered start lines).length = lines.length := by
  simp [numbered]

/-- A line that a number begins. -/
def Numbered (line : List Char) : Prop := '\n' ∉ line ∧ ∃ c cs, line = c :: cs ∧ c.isDigit = true

/-- A numbered line begins with a digit, and has no newline if the line has none. -/
theorem of_mem_numbered {lines : List (List Char)} {start : ℕ} {line : List Char}
    (h : line ∈ numbered start lines) (hlines : ∀ line ∈ lines, '\n' ∉ line) :
    Numbered line := by
  obtain ⟨⟨content, number⟩, hmem, rfl⟩ := List.mem_map.mp h
  have hcontent := List.mem_of_getElem? (List.mk_mem_zipIdx_iff_le_and_getElem?_sub.mp hmem).2
  constructor
  · simp [newline_not_mem_toDigits, hlines content hcontent]
  · cases hdigits : Nat.toDigits 10 number with
    | nil => exact absurd hdigits Nat.toDigits_ne_nil
    | cons c cs =>
      refine ⟨c, cs ++ (": ".toList ++ content), by simp [hdigits], ?_⟩
      exact Digits.isDigit_toDigits number c (hdigits ▸ List.mem_cons_self)

/-- Both tools reply with the same text, whatever the line endings are. -/
theorem runRead_eq_readPage (path : String) {limit : Option ℤ} (hlimit : ValidLimit limit)
    (offset : ℤ) (content : List Char) :
    runRead path limit offset (encodeChars content) =
      .ok (SandboxFiles.readPage content path offset limit) := by
  have hchoose : SandboxFiles.keepPage limit [] 0 = hostPage limit := funext (hostPage_eq hlimit)
  rw [runRead, readText, decode_encodeChars]
  simp only [Except.map, readReply, SandboxFiles.readPage, lines_normalizeNewlines, hchoose]

/-! ## Reading the reply of a file -/

/-- A reader of `run_read`, who knows the path: a reply without a header is the whole file, and a
page that is not the last one has a line about the others at its end. -/
def readLines (path : String) (reply : List Char) : Option (Page (List Char)) :=
  match strip? s!"[{path} — ".toList reply with
  | none => some ⟨if reply = [] then [] else reply.splitOn '\n', none⟩
  | some rest => do
    let (header, body) := firstLine '\n' rest
    let (_, rest) ← number? header
    let rest ← strip? " lines total; showing lines ".toList rest
    let (_, rest) ← number? rest
    let rest ← strip? "-".toList rest
    let (_, rest) ← number? rest
    let rest ← strip? "; ".toList rest
    match strip? "continue with offset=".toList rest with
    | some rest => do
      let (next, _) ← number? rest
      return ⟨(body.splitOn '\n').dropLast, some next⟩
    | none => return ⟨body.splitOn '\n', none⟩

/-- The whole file in one reply. -/
theorem readLines_whole (path : String) {whole : List (List Char)}
    (hwhole : ∀ line ∈ whole, Numbered line) :
    readLines path (['\n'].intercalate whole) = some ⟨whole, none⟩ := by
  have hhead : s!"[{path} — ".toList = '[' :: (path.toList ++ " — ".toList) := by simp
  cases whole with
  | nil =>
    have hstrip : strip? s!"[{path} — ".toList [] = none := by
      rw [hhead]
      exact strip?_nil _ _
    rw [List.intercalate_nil, readLines, hstrip]
    rfl
  | cons first rest =>
    obtain ⟨-, c, cs, rfl, hdigit⟩ := hwhole first List.mem_cons_self
    have hne : c ≠ '[' := by
      rintro rfl
      revert hdigit
      decide
    obtain ⟨tail, htail⟩ : ∃ tail, ['\n'].intercalate ((c :: cs) :: rest) = c :: tail := by
      cases rest with
      | nil => exact ⟨cs, by simp⟩
      | cons next rest => exact ⟨_, by rw [List.intercalate_cons_cons]; rfl⟩
    have hstrip : strip? s!"[{path} — ".toList (c :: tail) = none := by
      rw [hhead]
      exact strip?_eq_none hne.symm _ _
    have hlines : ∀ line ∈ (c :: cs) :: rest, '\n' ∉ line := fun line hline => (hwhole line hline).1
    rw [htail, readLines, hstrip]
    simp only [if_neg (List.cons_ne_nil c tail)]
    rw [← htail, splitOn_intercalate (List.cons_ne_nil _ _), flatMap_splitOn hlines]

section Header

variable (path : String) {total first last cut next : ℕ} {shown hint : String}
  (hshown : shown = s!"showing lines {first}-{last}")
  (hhint : hint = if cut = 0 then "end of file" else s!"continue with offset={next}")
include hshown hhint

/-- What a header is read as, with anything after it. -/
theorem readLines_header (rest : List Char) :
    readLines path (s!"[{path} — {total} lines total; {shown}; {hint}]".toList ++ '\n' :: rest) =
      if cut = 0 then some ⟨rest.splitOn '\n', none⟩
      else some ⟨(rest.splitOn '\n').dropLast, some next⟩ := by
  have hheader : s!"[{path} — {total} lines total; {shown}; {hint}]".toList =
      s!"[{path} — ".toList ++ (Nat.toDigits 10 total ++ (" lines total; showing lines ".toList ++
        (Nat.toDigits 10 first ++ ("-".toList ++ (Nat.toDigits 10 last ++ ("; ".toList ++
          (hint.toList ++ "]".toList))))))) := by
    simp [hshown]
  have hline : '\n' ∉ Nat.toDigits 10 total ++ (" lines total; showing lines ".toList ++
      (Nat.toDigits 10 first ++ ("-".toList ++ (Nat.toDigits 10 last ++ ("; ".toList ++
        (hint.toList ++ "]".toList)))))) := by
    have hhintLine : '\n' ∉ hint.toList := by
      rw [hhint]
      split
      · decide
      · simp [newline_not_mem_toDigits]
    simp [newline_not_mem_toDigits, hhintLine]
  rw [readLines, hheader, List.append_assoc, strip?_append]
  simp only [firstLine_append hline, Option.bind_eq_bind]
  rw [number?_toDigits _ (by simp)]
  simp only [Option.bind_some, strip?_append]
  rw [number?_toDigits _ (by simp)]
  simp only [Option.bind_some, strip?_append]
  rw [number?_toDigits _ (by simp)]
  simp only [Option.bind_some, strip?_append]
  by_cases hcut : cut = 0
  · have hend : strip? "continue with offset=".toList (hint.toList ++ "]".toList) = none := by
      rw [hhint, if_pos hcut]
      exact strip?_eq_none (by decide) _ _
    rw [hend, if_pos hcut]
    rfl
  · have hnext : hint.toList = "continue with offset=".toList ++ Nat.toDigits 10 next := by
      simp [hhint, hcut]
    simp only [hnext, List.append_assoc, strip?_append]
    rw [number?_toDigits _ (by simp), if_neg hcut]
    rfl

/-- A page with its header: the last one, or one that names the offset after it. -/
theorem readLines_page {page : List (List Char)} (hpage : page ≠ [])
    (hlines : ∀ line ∈ page, Numbered line) :
    readLines path (['\n'].intercalate ([
      s!"[{path} — {total} lines total; {shown}; {hint}]".toList, ['\n'].intercalate page,
      if cut = 0 then [] else s!"... ({cut} more lines)".toList].filter (· ≠ []))) =
    some ⟨page, if cut = 0 then none else some next⟩ := by
  have hsplit : (['\n'].intercalate page).splitOn '\n' = page := by
    rw [splitOn_intercalate hpage, flatMap_splitOn fun line hline => (hlines line hline).1]
  have hbody : ['\n'].intercalate page ≠ [] := fun hnil => by
    rw [hnil, List.splitOn_nil] at hsplit
    obtain ⟨-, c, cs, hcons, -⟩ := hlines [] (hsplit ▸ List.mem_singleton_self [])
    cases hcons
  by_cases hcut : cut = 0
  · have hparts : [s!"[{path} — {total} lines total; {shown}; {hint}]".toList,
        ['\n'].intercalate page, if cut = 0 then [] else s!"... ({cut} more lines)".toList].filter
          (· ≠ []) = [s!"[{path} — {total} lines total; {shown}; {hint}]".toList,
            ['\n'].intercalate page] := by
      simp [hcut, hbody]
    rw [hparts, List.intercalate_cons_cons, List.intercalate_singleton, List.append_assoc,
      List.singleton_append, readLines_header path hshown hhint, if_pos hcut, if_pos hcut, hsplit]
  · have hfooter : '\n' ∉ s!"... ({cut} more lines)".toList := by simp [newline_not_mem_toDigits]
    have hparts : [s!"[{path} — {total} lines total; {shown}; {hint}]".toList,
        ['\n'].intercalate page, if cut = 0 then [] else s!"... ({cut} more lines)".toList].filter
          (· ≠ []) = [s!"[{path} — {total} lines total; {shown}; {hint}]".toList,
            ['\n'].intercalate page, s!"... ({cut} more lines)".toList] := by
      simp [hcut, hbody]
    rw [hparts, List.intercalate_cons_cons, List.intercalate_cons_cons, List.intercalate_singleton,
      List.append_assoc, List.singleton_append, readLines_header path hshown hhint, if_neg hcut,
      if_neg hcut, List.append_assoc, List.singleton_append, List.splitOn_append_cons_self, hsplit,
      List.splitOn_eq_singleton hfooter, List.dropLast_concat]

end Header

/-- What the replies show are pages of the numbered lines. -/
theorem pages_runRead (path : String) {raw : List UInt8} {text : List Char}
    (htext : decode raw = some text) :
    Pages (numbered 0 (lines text)) (fun line => [line]) ValidLimit fun offset limit =>
      (runRead path limit offset raw).toOption.bind (readLines path) := by
  intro start limit hstart hlimit
  have hlength := length_numbered 0 (lines text)
  have hnumbered : ∀ line ∈ (numbered 0 (lines text)).drop start, Numbered line := fun line hline =>
    of_mem_numbered (List.mem_of_mem_drop hline) fun _ h => newline_not_mem_of_mem_lines h
  obtain ⟨n, hn, hpage, hpos⟩ := hostPage_spec hlimit ((numbered 0 (lines text)).drop start)
  rw [List.length_drop] at hn
  have hreply : runRead path limit start raw = .ok (readReply path limit start text) := by
    rw [runRead, readText, htext]
    simp only [Except.map, readReply, lines_normalizeNewlines]
  refine ⟨n, hn, fun hless => hpos ?_, ?_⟩
  · rw [← List.length_pos_iff, List.length_drop]
    omega
  have hpast : ¬ (0 < (lines text).length ∧ (lines text).length ≤ start) := by omega
  simp only [hreply, Except.toOption, Option.bind_some, readReply, Int.toNat_natCast, if_neg hpast,
    numbered_drop, hpage, List.flatMap_singleton', List.length_drop, List.length_take]
  rw [Nat.min_eq_left hn]
  by_cases hwhole : (numbered 0 (lines text)).length - start - n = 0 ∧ start = 0
  · rw [if_pos hwhole, if_neg (by omega)]
    exact readLines_whole path fun line hline => hnumbered line (List.mem_of_mem_take hline)
  · have hless : start < (numbered 0 (lines text)).length := by omega
    have hne : ((numbered 0 (lines text)).drop start).take n ≠ [] := by
      have hpos' := hpos (by rw [← List.length_pos_iff, List.length_drop]; omega)
      rw [← List.length_pos_iff, List.length_take, List.length_drop]
      omega
    rw [if_neg hwhole, if_neg hne]
    have hcut : (numbered 0 (lines text)).length - start - n = 0 ↔
        ¬ n < (numbered 0 (lines text)).length - start := by omega
    rw [readLines_page path rfl rfl hne fun line hline =>
      hnumbered line (List.mem_of_mem_take hline)]
    simp only [hcut, ite_not]

end Filesystem

/-! ## Characters -/

open Text (slice) in
/-- A page of characters. -/
theorem slice_eq_take {α : Type} (text : List α) (offset limit : ℕ) :
    slice text offset (offset + limit) = (text.drop offset).take (min limit (text.length - offset)) := by
  rw [slice, List.drop_take, Nat.add_sub_cancel_left, ← List.length_drop, ← List.take_eq_take_min]

namespace ToolResults

/-- The offset after a page, as the line before it names it. -/
def resultHeader? (line : List Char) : Option (Option ℕ) := do
  let rest ← strip? "[Tool result ".toList line
  let (_, rest) ← number? rest
  let rest ← strip? ":".toList rest
  let (_, rest) ← number? rest
  let rest ← strip? " of ".toList rest
  let (_, rest) ← number? rest
  match strip? "; next offset ".toList rest with
  | some rest => do
    let (next, _) ← number? rest
    return some next
  | none => return none

/-- A reader of `read_tool_result`: a line about the evidence may stand before the header. -/
def readResult (reply : PyStr) : Option (Page PyChar) := do
  let (line, rest) := firstLine (.scalar '\n') reply
  let header ← PyStr.chars? line
  match strip? "[Acceptance evidence: delivery=".toList header with
  | none => (resultHeader? header).map fun next => ⟨rest, next⟩
  | some _ => do
    let (line, rest) := firstLine (.scalar '\n') rest
    let header ← PyStr.chars? line
    (resultHeader? header).map fun next => ⟨rest, next⟩

theorem resultHeader?_eq (start stop total : ℕ) {hint : String}
    (hhint : hint = if stop < total then s!"; next offset {stop}" else "; end of result") :
    resultHeader? s!"[Tool result {start}:{stop} of {total}{hint}]".toList =
      some (if stop < total then some stop else none) := by
  have hheader : s!"[Tool result {start}:{stop} of {total}{hint}]".toList =
      "[Tool result ".toList ++ (Nat.toDigits 10 start ++ (":".toList ++ (Nat.toDigits 10 stop ++
        (" of ".toList ++ (Nat.toDigits 10 total ++ (hint.toList ++ "]".toList)))))) := by
    simp
  have hstop : ∀ c, (hint.toList ++ "]".toList).head? = some c → c.isDigit = false := by
    rw [hhint]
    split <;> simp
  rw [resultHeader?, hheader]
  simp only [strip?_append, Option.bind_eq_bind, Option.bind_some]
  rw [number?_toDigits _ (by simp)]
  simp only [strip?_append, Option.bind_some]
  rw [number?_toDigits _ (by simp)]
  simp only [strip?_append, Option.bind_some]
  rw [number?_toDigits _ hstop]
  by_cases hmore : stop < total
  · have hnext : hint.toList = "; next offset ".toList ++ Nat.toDigits 10 stop := by
      simp [hhint, hmore]
    simp only [hnext, List.append_assoc, strip?_append, Option.bind_some]
    rw [number?_toDigits _ (by simp), if_pos hmore]
    rfl
  · have hend : strip? "; next offset ".toList ("; end of result".toList ++ "]".toList) = none := by
      decide
    rw [hhint, if_neg hmore, if_neg hmore]
    simp only [Option.bind_some, hend]
    rfl

/-- The line about the evidence. -/
theorem Acceptance.origin_eq (a : Acceptance) : ∃ line rest, a.origin = line ++ "\n" ∧
    '\n' ∉ line.toList ∧ line.toList = "[Acceptance evidence: delivery=".toList ++ rest := by
  have hone := a.oneLine
  simp only [List.mem_append, not_or] at hone
  have hend : "]\n" = "]" ++ "\n" := rfl
  refine ⟨s!"[Acceptance evidence: delivery={a.deliveryId}; round={a.round}; patch={a.patchSha256}]",
    a.deliveryId.toList ++ ("; round=".toList ++ (Nat.toDigits 10 a.round ++
      ("; patch=".toList ++ (a.patchSha256.toList ++ "]".toList)))), ?_, ?_, ?_⟩
  · unfold Acceptance.origin
    simp only [toString_string]
    exact (congrArg _ hend).trans String.append_assoc.symm
  · simp [newline_not_mem_toDigits, hone]
  · simp only [toString_string, String.toList_append, toList_toString, List.append_assoc]

/-- The reply of `read_tool_result` is read as its page and the offset after it. -/
theorem readResult_resultReply {origin : String}
    (horigin : origin = "" ∨ ∃ a : Acceptance, origin = a.origin) (content : PyStr)
    (offset limit : ℕ) :
    readResult (resultReply origin content offset limit) =
      let start := min offset content.length
      let stop := min (start + limit) content.length
      some ⟨Text.slice content start stop, if stop < content.length then some stop else none⟩ := by
  unfold resultReply
  dsimp only
  generalize min offset content.length = start
  generalize min (start + limit) content.length = stop
  generalize hhint : (if stop < content.length then s!"; next offset {stop}"
    else "; end of result") = hint
  have hline : '\n' ∉ s!"[Tool result {start}:{stop} of {content.length}{hint}]".toList := by
    have hhintLine : '\n' ∉ hint.toList := by
      rw [← hhint]
      split
      · simp [newline_not_mem_toDigits]
      · decide
    simp [newline_not_mem_toDigits, hhintLine]
  have hheader : resultHeader? s!"[Tool result {start}:{stop} of {content.length}{hint}]".toList =
      some (if stop < content.length then some stop else none) :=
    resultHeader?_eq start stop content.length hhint.symm
  -- What is read of the header and of anything after it.
  have hread : firstLine (.scalar '\n') (PyStr.ofString
      (s!"[Tool result {start}:{stop} of {content.length}{hint}]" ++ "\n") ++
        Text.slice content start stop) = _ := firstLine_ofString hline _
  have hsplit : ∀ front, PyStr.ofString
      (front ++ s!"[Tool result {start}:{stop} of {content.length}{hint}]\n") =
        PyStr.ofString front ++ PyStr.ofString
          (s!"[Tool result {start}:{stop} of {content.length}{hint}]" ++ "\n") := by
    intro front
    simp [PyStr.ofString, PyStr.ofChars]
  rw [hsplit]
  rcases horigin with rfl | ⟨a, rfl⟩
  · have hnone : strip? "[Acceptance evidence: delivery=".toList
        s!"[Tool result {start}:{stop} of {content.length}{hint}]".toList = none := by
      refine if_neg fun hprefix => ?_
      simp at hprefix
    have hempty : PyStr.ofString "" = [] := rfl
    rw [hempty, List.nil_append, readResult, hread]
    simp only [PyStr.chars?_ofChars, Option.bind_eq_bind, Option.bind_some, hnone, hheader,
      Option.map_some]
  · obtain ⟨line, rest, hfirst, hnewline, hopening⟩ := a.origin_eq
    have hsome : strip? "[Acceptance evidence: delivery=".toList line.toList = some rest := by
      rw [hopening, strip?_append]
    rw [hfirst, List.append_assoc, readResult, firstLine_ofString hnewline]
    simp only [PyStr.chars?_ofChars, Option.bind_eq_bind, Option.bind_some, hsome, hread, hheader,
      Option.map_some]

/-- The limits of a page of characters. -/
def ValidLimit (limit : ℕ) : Prop := 1 ≤ limit ∧ limit ≤ 12000

instance (limit : ℕ) : Decidable (ValidLimit limit) := inferInstanceAs (Decidable (_ ∧ _))

variable {s : RuntimeStore} {pyStr : Json → String} {sessionId : String}
  {acceptance : Option Acceptance} {currentRunId : Option String} {runId callId : String}
  {origin content : String}

theorem origin_of_findResult
    (h : findResult s pyStr sessionId acceptance currentRunId runId callId = some (origin, content)) :
    origin = "" ∨ ∃ a : Acceptance, origin = a.origin := by
  unfold findResult at h
  split at h
  · exact .inl (Prod.mk.inj (Option.some.inj h)).1.symm
  · obtain ⟨a, -, h⟩ := Option.bind_eq_some_iff.mp h
    obtain ⟨content', -, h⟩ := Option.bind_eq_some_iff.mp h
    exact .inr ⟨a, (Prod.mk.inj (Option.some.inj h)).1.symm⟩

/-- What the replies show are pages of the content. -/
theorem pages_readToolResult
    (h : findResult s pyStr sessionId acceptance currentRunId runId callId = some (origin, content)) :
    Pages (PyStr.ofString content) (fun c => [c]) ValidLimit fun offset limit => readResult
      (readToolResult s pyStr sessionId acceptance currentRunId runId callId (.int offset)
        (.int limit)) := by
  intro offset limit hoffset hlimit
  obtain ⟨hone, hmax⟩ := hlimit
  have hreply : readToolResult s pyStr sessionId acceptance currentRunId runId callId (.int offset)
      (.int limit) = resultReply origin (PyStr.ofString content) offset limit := by
    have hneg : ¬ ((offset : ℤ) < 0) := by omega
    have hrange : ¬ ((limit : ℤ) < 1 ∨ ((pageMaxChars : ℕ) : ℤ) < limit) := by
      rw [pageMaxChars]
      omega
    simp only [readToolResult, if_neg hneg, if_neg hrange, h, Int.toNat_natCast]
  have hstart : min offset (PyStr.ofString content).length = offset := by omega
  have hstop : Text.slice (PyStr.ofString content) offset
      (min (offset + limit) (PyStr.ofString content).length) =
        Text.slice (PyStr.ofString content) offset (offset + limit) := by
    rw [Text.slice, Text.slice, ← List.take_eq_take_min]
  refine ⟨min limit ((PyStr.ofString content).length - offset), min_le_right _ _, fun _ => by omega, ?_⟩
  simp only [hreply, readResult_resultReply (origin_of_findResult h), hstart, hstop, slice_eq_take,
    List.flatMap_singleton']
  by_cases hmore : offset + limit < (PyStr.ofString content).length
  · have hmin : min (offset + limit) (PyStr.ofString content).length = offset + limit := by omega
    have hlimit : min limit ((PyStr.ofString content).length - offset) = limit := by omega
    rw [hmin, hlimit, if_pos hmore, if_pos (by omega)]
  · rw [if_neg (by omega), if_neg (by omega)]

end ToolResults

namespace SkillPackages

open ToolResults (ValidLimit)

/-- A reader of `resource_text`, who knows the limit: what follows that many characters is the line
that says how to go on. -/
def readResource (limit : ℕ) (reply : List Char) : Option (Page Char) :=
  if reply.length ≤ limit then some ⟨reply, none⟩
  else do
    let rest ← strip? "\n\n[Next character offset: ".toList (reply.drop limit)
    let (next, _) ← number? rest
    return ⟨reply.take limit, some next⟩

/-- What the replies show are pages of the text. -/
theorem pages_resourceText {resources : List (String × List UInt8)} {path : String}
    {resource : String × List UInt8} {text : List Char}
    (hfound : resources.find? (fun resource => resource.1 = path) = some resource)
    (htext : decode resource.2 = some text) :
    Pages text (fun c => [c]) ValidLimit fun offset limit =>
      (resourceText resources path (.int offset) (.int limit)).toOption.bind (readResource limit) := by
  intro offset limit hoffset hlimit
  obtain ⟨hone, hmax⟩ := hlimit
  have hrange : ¬ ((offset : ℤ) < 0 ∨ (limit : ℤ) < 1 ∨ (12000 : ℤ) < limit) := by omega
  have hsum : ((offset : ℤ) + limit).toNat = offset + limit := by omega
  have hlength : (Text.slice text offset (offset + limit)).length =
      min limit (text.length - offset) := by
    rw [Text.length_slice]
    omega
  refine ⟨min limit (text.length - offset), min_le_right _ _, fun _ => by omega, ?_⟩
  simp only [resourceText, if_neg hrange, hfound, htext, Int.toNat_natCast, hsum, hlength,
    List.flatMap_singleton']
  by_cases hmore : offset + limit < text.length
  · have hlimit : min limit (text.length - offset) = limit := by omega
    rw [hlimit] at hlength ⊢
    rw [if_pos hmore, if_pos (by omega)]
    have hhint : s!"\n\n[Next character offset: {offset + limit}; total: {text.length}]".toList =
        "\n\n[Next character offset: ".toList ++ (Nat.toDigits 10 (offset + limit) ++
          ("; total: ".toList ++ (Nat.toDigits 10 text.length ++ "]".toList))) := by
      simp
    have hlong : ¬ (Text.slice text offset (offset + limit) ++ ("\n\n[Next character offset: ".toList ++
        (Nat.toDigits 10 (offset + limit) ++ ("; total: ".toList ++
          (Nat.toDigits 10 text.length ++ "]".toList))))).length ≤ limit := by
      have hline : "\n\n[Next character offset: ".toList.length = 26 := rfl
      rw [List.length_append, List.length_append, hlength, hline]
      omega
    rw [hhint]
    simp only [Except.toOption, Option.bind_some, readResource]
    rw [if_neg hlong, List.drop_left' hlength, List.take_left' hlength, strip?_append]
    simp only [Option.bind_eq_bind, Option.bind_some]
    rw [number?_toDigits _ (by simp), slice_eq_take, hlimit]
    rfl
  · rw [if_neg (by omega), if_neg (by omega)]
    have hshort : (Text.slice text offset (offset + limit)).length ≤ limit := by omega
    simp only [Except.toOption, Option.bind_some, readResource]
    rw [if_pos hshort, slice_eq_take]

end SkillPackages

/-! ## All of them -/

open Filesystem in
/-- Reading the replies from the beginning, each at the offset that the one before it names, ends
after at most as many replies as there are items, and one more, and shows every character, line or
match once and in order; a reply of `run_read` is what the container replies. -/
theorem follow_reconstructs :
    (∀ (s : RuntimeStore) (pyStr : Json → String) (sessionId : String)
      (acceptance : Option ToolResults.Acceptance) (currentRunId : Option String)
      (runId callId origin content : String) (limits : List ℕ),
      ToolResults.findResult s pyStr sessionId acceptance currentRunId runId callId =
        some (origin, content) →
      (∀ limit ∈ limits, ToolResults.ValidLimit limit) →
      (PyStr.ofString content).length < limits.length →
      ∃ pages, follow (fun offset (limit : ℕ) => ToolResults.readResult (ToolResults.readToolResult s
          pyStr sessionId acceptance currentRunId runId callId (.int offset) (.int limit))) limits 0 =
        some pages ∧ pages.flatten = PyStr.ofString content) ∧
    (∀ (resources : List (String × List UInt8)) (path : String) (resource : String × List UInt8)
      (text : List Char) (limits : List ℕ),
      resources.find? (fun resource => resource.1 = path) = some resource →
      decode resource.2 = some text →
      (∀ limit ∈ limits, ToolResults.ValidLimit limit) → text.length < limits.length →
      ∃ pages, follow (fun offset (limit : ℕ) => (SkillPackages.resourceText resources path
          (.int offset) (.int limit)).toOption.bind (SkillPackages.readResource limit)) limits 0 = some pages ∧
        pages.flatten = text) ∧
    (∀ (path : String) (raw : List UInt8) (text : List Char) (limits : List (Option ℤ)),
      decode raw = some text → (∀ limit ∈ limits, ValidLimit limit) →
      (lines text).length < limits.length →
      ∃ pages, follow (fun offset limit =>
          (runRead path limit offset raw).toOption.bind (readLines path)) limits 0 = some pages ∧
        pages.flatten = numbered 0 (lines text)) ∧
    (∀ (path : String) (limit : Option ℤ) (offset : ℤ) (content : List Char), ValidLimit limit →
      runRead path limit offset (encodeChars content) =
        .ok (SandboxFiles.readPage content path offset limit)) ∧
    (∀ (L : Type) (tree : FileSearch.Tree L) (query : PyStr) (parts : List PyStr) (limits : List ℕ),
      FileSearch.WithinLimits 0 0 (FileSearch.searched tree parts) →
      (∀ item ∈ FileSearch.allItems query (FileSearch.searched tree parts), item.length < 9000) →
      (∀ limit ∈ limits, 0 < limit) →
      (FileSearch.allItems query (FileSearch.searched tree parts)).length < limits.length →
      ∃ pages, follow (fun offset limit =>
          FileSearch.readSearch (FileSearch.runSearchText tree query parts offset limit)) limits 0 =
          some pages ∧
        pages.flatten = (FileSearch.allItems query (FileSearch.searched tree parts)).flatMap
          (·.splitOn (.scalar '\n')) ∧
        ((∀ file ∈ FileSearch.searched tree parts, PyChar.scalar '\n' ∉ file.1) →
          pages.flatten = FileSearch.allItems query (FileSearch.searched tree parts))) := by
  refine ⟨?_, ?_, ?_, ?_, ?_⟩
  · intro s pyStr sessionId acceptance currentRunId runId callId origin content limits hfound
      hlimits henough
    exact (ToolResults.pages_readToolResult hfound).reconstruct_self hlimits henough
  · intro resources path resource text limits hfound htext hlimits henough
    exact (SkillPackages.pages_resourceText hfound htext).reconstruct_self hlimits henough
  · intro path raw text limits htext hlimits henough
    exact (pages_runRead path htext).reconstruct_self hlimits (by rwa [length_numbered])
  · intro path limit offset content hlimit
    exact runRead_eq_readPage path hlimit offset content
  · intro L tree query parts limits hwithin hshort hlimits henough
    obtain ⟨pages, hpages, hflatten⟩ :=
      (FileSearch.pages_runSearchText hwithin hshort).reconstruct hlimits henough
    refine ⟨pages, hpages, hflatten, fun hnames => hflatten.trans ?_⟩
    exact flatMap_splitOn fun item hitem => FileSearch.newline_not_mem_of_mem_allItems hnames hitem

def noteEvidence : ToolResults.Acceptance where
  sessionId := "s"
  runId := "r"
  callIds := ["c"]
  readerRunId := "reader"
  deliveryId := "delivery_0a"
  round := 2
  patchSha256 := "0b"
  oneLine := by decide

/-- A session with one tool result. -/
def noteStore : RuntimeStore where
  events := [{ eventId := "e", sessionId := "s", turnId := none, sessionSeq := 1, runId := some "r"
               ts := 0, type := .toolCompleted, role := "tool", author := "runtime"
               payload := .obj [("call_id", .str "c"), ("content", .str "a\nb")] }]

open Filesystem in
/-- A result read as evidence, a resource that ends like a page, a file with an empty line, and
matches in two files. -/
theorem follow_reconstructs_note :
    let resource := "a\n\n[Next character offset: 9; total: 9]"
    let items := [PyStr.ofString "notes/a.txt:1: a", PyStr.ofString "notes/a.txt:2: xay",
      PyStr.ofString "notes/b.txt:1: ab"]
    (∃ pages, follow (fun offset (limit : ℕ) => ToolResults.readResult (ToolResults.readToolResult
        noteStore (fun _ => "") "other" (some noteEvidence) (some "reader") "r" "c" (.int offset)
        (.int limit))) [2, 1, 1, 1] 0 = some pages ∧ pages.flatten = PyStr.ofString "a\nb") ∧
    (∃ pages, follow (fun offset (limit : ℕ) => (SkillPackages.resourceText
        [("note", encodeChars resource.toList)] "note" (.int offset) (.int limit)).toOption.bind
          (SkillPackages.readResource limit)) (1 :: List.replicate 50 20) 0 = some pages ∧
      pages.flatten = resource.toList) ∧
    (∃ pages, follow (fun offset limit => (runRead "note.txt" limit offset
        (encodeChars "a\n\nb".toList)).toOption.bind (readLines "note.txt"))
        [some 1, none, none, none] 0 = some pages ∧
      pages.flatten = ["1: a".toList, "2: ".toList, "3: b".toList]) ∧
    runRead "note.txt" (some 1) 0 (encodeChars "a\n\nb".toList) =
      .ok (SandboxFiles.readPage "a\n\nb".toList "note.txt" 0 (some 1)) ∧
    ∃ pages, follow (fun offset limit => FileSearch.readSearch (FileSearch.runSearchText
        FileSearch.notesTree (PyStr.ofString "a") FileSearch.notesPattern offset limit))
        [1, 50, 50, 50] 0 = some pages ∧ pages.flatten = items := by
  intro resource items
  obtain ⟨hresult, hresource, hread, hpage, hsearch⟩ := follow_reconstructs
  refine ⟨?_, ?_, ?_, hpage _ _ _ _ ?_, ?_⟩
  · exact hresult noteStore (fun _ => "") "other" (some noteEvidence) (some "reader") "r" "c"
      noteEvidence.origin "a\nb" [2, 1, 1, 1] (by decide +kernel) (by decide) (by decide)
  · exact hresource [("note", encodeChars resource.toList)] "note" ("note", encodeChars resource.toList)
      resource.toList (1 :: List.replicate 50 20) (by simp) (decode_encodeChars _) (by decide)
      (by decide)
  · obtain ⟨pages, hpages, hflatten⟩ := hread "note.txt" (encodeChars "a\n\nb".toList) "a\n\nb".toList
      [some 1, none, none, none] (decode_encodeChars _) (by simp [ValidLimit]) (by decide)
    exact ⟨pages, hpages, hflatten.trans (by decide)⟩
  · simp [ValidLimit]
  · have hsearched : FileSearch.searched FileSearch.notesTree FileSearch.notesPattern =
        [(PyStr.ofString "notes/a.txt", encodeChars "a\nxay".toList),
          (PyStr.ofString "notes/b.txt", encodeChars "ab\nc".toList)] := by
      rw [FileSearch.searched, FileSearch.searchPaths_notes]
      decide +kernel
    have hitems : FileSearch.allItems (PyStr.ofString "a")
        (FileSearch.searched FileSearch.notesTree FileSearch.notesPattern) = items := by
      rw [hsearched]
      decide +kernel
    have hwithin : FileSearch.WithinLimits 0 0
        (FileSearch.searched FileSearch.notesTree FileSearch.notesPattern) := by
      rw [hsearched]
      exact ⟨by decide, by decide, by decide +kernel, by decide, by decide +kernel,
        by decide +kernel, trivial⟩
    have hshort : ∀ item ∈ FileSearch.allItems (PyStr.ofString "a")
        (FileSearch.searched FileSearch.notesTree FileSearch.notesPattern), item.length < 9000 := by
      rw [hitems]
      decide
    have henough : (FileSearch.allItems (PyStr.ofString "a")
        (FileSearch.searched FileSearch.notesTree FileSearch.notesPattern)).length <
          [1, 50, 50, 50].length := by
      rw [hitems]
      decide
    obtain ⟨pages, hpages, -, hflatten⟩ := hsearch Unit FileSearch.notesTree (PyStr.ofString "a")
      FileSearch.notesPattern [1, 50, 50, 50] hwithin hshort (by decide) henough
    refine ⟨pages, hpages, (hflatten ?_).trans hitems⟩
    rw [hsearched]
    decide +kernel

end Eventide
