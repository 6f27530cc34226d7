import Eventide.Model.RepairFeedback
import Mathlib.Tactic.Linarith

/-! # The feedback of a repair round fits

A check is filled within its allowance, and the allowances share what is left of the limit. -/

namespace Eventide.RepairFeedback

/-! ## The lengths of the texts -/

def escapedLength (text : PyStr) : ℕ := (text.map fun c => (escape c).length).sum

@[simp] theorem escapedLength_nil : escapedLength [] = 0 := rfl

@[simp] theorem escapedLength_append (first second : PyStr) :
    escapedLength (first ++ second) = escapedLength first + escapedLength second := by
  simp [escapedLength]

theorem length_dumpsStr (text : PyStr) : (dumpsStr text).length = escapedLength text + 2 := by
  have hquote : (PyStr.ofString "\"").length = 1 := rfl
  simp only [dumpsStr, List.length_append, List.length_flatMap, hquote, escapedLength]
  omega

theorem partsSize_eq (content : PyStr) (kept : ℕ) : partsSize (parts content kept) =
    escapedLength (parts content kept).1 + escapedLength (parts content kept).2 := by
  rw [partsSize, length_dumpsStr, length_dumpsStr]
  omega

theorem one_le_length_escape (c : PyChar) : 1 ≤ (escape c).length := by
  cases c with
  | surrogate code => exact le_rfl
  | scalar c =>
    rw [escape, PyStr.ofChars, List.length_map, Json.escape]
    split
    case h_8 =>
      split
      · simp [Json.controlText]
      · simp
    all_goals decide

theorem length_le_escapedLength (text : PyStr) : text.length ≤ escapedLength text := by
  induction text with
  | nil => exact le_rfl
  | cons c text ih =>
    have hc := one_le_length_escape c
    simp only [escapedLength, List.map_cons, List.sum_cons, List.length_cons] at ih ⊢
    omega

theorem escapedLength_le_of_prefix {first second : PyStr} (h : first <+: second) :
    escapedLength first ≤ escapedLength second := by
  obtain ⟨rest, rfl⟩ := h
  rw [escapedLength_append]
  omega

theorem escapedLength_le_of_suffix {first second : PyStr} (h : first <:+ second) :
    escapedLength first ≤ escapedLength second := by
  obtain ⟨front, rfl⟩ := h
  rw [escapedLength_append]
  omega

/-- The length of what `joined` joins, whatever the items are. -/
theorem length_joined (items : List PyStr) :
    (joined items).length = (items.map List.length).sum + 2 * (items.length - 1) := by
  induction items with
  | nil => rfl
  | cons item items ih =>
    cases items with
    | nil => simp [joined]
    | cons other items =>
      have hcomma : (PyStr.ofString ", ").length = 2 := rfl
      simp only [joined, List.length_append, hcomma, ih, List.map_cons, List.sum_cons,
        List.length_cons]
      omega

variable {floatText : ℚ → List Char} {round : Round}

/-- The digits of a number. -/
def digits (n : ℕ) : ℕ := (Nat.toDigits 10 n).length

theorem length_jsonText_int (n : ℕ) : (jsonText floatText (.int n)).length = digits n := by
  have htext : (toString (n : ℤ)).toList = Nat.toDigits 10 n := by
    have hcast : toString (n : ℤ) = toString n := rfl
    rw [hcast]
    simp [toString, Nat.repr]
  rw [jsonText, Json.dumps, htext, PyStr.ofChars, List.length_map, digits]

theorem digits_le {m n : ℕ} (h : m ≤ n) : digits m ≤ digits n := by
  have hpos : 0 < (Nat.toDigits 10 n).length := Nat.length_toDigits_pos
  rw [digits, digits, Nat.length_toDigits_le_iff (by decide) hpos]
  exact h.trans_lt ((Nat.length_toDigits_le_iff (by decide) hpos).mp le_rfl)

/-! ## A head and a tail -/

section Parts

variable {content : PyStr} {allowance : ℤ}

theorem parts_front (kept : ℕ) : (parts content kept).1 <+: content := List.take_prefix _ _

theorem parts_suffix (kept : ℕ) : (parts content kept).2 <:+ content := List.drop_suffix _ _

theorem length_parts {kept : ℕ} (h : kept ≤ content.length) :
    (parts content kept).1.length = (kept + 1) / 2 ∧ (parts content kept).2.length = kept / 2 := by
  simp only [parts, List.length_take, List.length_drop]
  omega

theorem partsSize_mono {m n : ℕ} (h : m ≤ n) :
    partsSize (parts content m) ≤ partsSize (parts content n) := by
  have hhead : (parts content m).1 <+: (parts content n).1 :=
    List.take_prefix_take_left (by omega)
  have htail : (parts content m).2 <:+ (parts content n).2 := List.drop_suffix_drop_left _ (by omega)
  have hfirst := escapedLength_le_of_prefix hhead
  have hsecond := escapedLength_le_of_suffix htail
  rw [partsSize_eq, partsSize_eq]
  omega

/-- What is kept takes at least its own length. -/
theorem le_partsSize {kept : ℕ} (h : kept ≤ content.length) :
    kept ≤ partsSize (parts content kept) := by
  obtain ⟨hhead, htail⟩ := length_parts h
  have hfirst := length_le_escapedLength (parts content kept).1
  have hsecond := length_le_escapedLength (parts content kept).2
  rw [partsSize_eq]
  omega

theorem keptChars_le (content : PyStr) (allowance : ℤ) :
    keptChars content allowance ≤ content.length := by
  have h : keptChars content allowance ≤ (min (content.length : ℤ) allowance).toNat :=
    BinarySearch.greatest_le (Nat.zero_le _)
  omega

theorem fits_iff {kept : ℕ} :
    fits content allowance kept = true ↔ (partsSize (parts content kept) : ℤ) ≤ allowance :=
  decide_eq_true_iff

theorem keptChars_fits (h : 0 ≤ allowance) :
    (partsSize (parts content (keptChars content allowance)) : ℤ) ≤ allowance := by
  have hzero : fits content allowance 0 = true := by
    have hparts : parts content 0 = ([], []) := by simp [parts]
    rw [fits_iff, hparts]
    exact h
  exact fits_iff.mp (BinarySearch.fits_greatest hzero)

theorem le_keptChars {kept : ℕ} (hkept : kept ≤ content.length)
    (hfits : (partsSize (parts content kept) : ℤ) ≤ allowance) :
    kept ≤ keptChars content allowance := by
  have hle := le_partsSize hkept
  have hbound : kept ≤ (min (content.length : ℤ) allowance).toNat := by omega
  refine BinarySearch.le_greatest_of_fits (fun m n hmn hn => ?_) hbound (fits_iff.mpr hfits)
  have hmono : partsSize (parts content m) ≤ partsSize (parts content n) := partsSize_mono hmn
  rw [fits_iff] at hn ⊢
  omega

end Parts

/-- A failed check shows as much of both ends of its output as its allowance has room for, the
head and the tail being of one length, but for one character. -/
structure Fitted (check : FeedbackCheck) (allowance : ℤ) : Prop where
  head : check.contentHead <+: check.result.content
  tail : check.contentTail <:+ check.result.content
  balanced : check.contentHead.length = check.contentTail.length ∨
    check.contentHead.length = check.contentTail.length + 1
  omitted : check.contentHead.length + check.contentTail.length + check.omittedChars =
    check.result.content.length
  fits : (partsSize (check.contentHead, check.contentTail) : ℤ) ≤ allowance
  longest : ∀ front rest, front <+: check.result.content → rest <:+ check.result.content →
    front.length = rest.length ∨ front.length = rest.length + 1 →
    front.length + rest.length ≤ check.result.content.length →
    (partsSize (front, rest) : ℤ) ≤ allowance →
    front.length + rest.length ≤ check.contentHead.length + check.contentTail.length

/-- A pair of balanced ends is what its length keeps. -/
theorem eq_parts {content front rest : PyStr} (hfront : front <+: content)
    (hrest : rest <:+ content) (hbalanced : front.length = rest.length ∨
      front.length = rest.length + 1) :
    (front, rest) = parts content (front.length + rest.length) := by
  have hhalf : (front.length + rest.length + 1) / 2 = front.length := by omega
  have hother : (front.length + rest.length) / 2 = rest.length := by omega
  rw [parts, hhalf, hother]
  exact Prod.ext (List.prefix_iff_eq_take.mp hfront) (List.suffix_iff_eq_drop.mp hrest)

theorem fitted_fill (check : FeedbackCheck) {allowance : ℤ} (h : 0 ≤ allowance) :
    Fitted (check.fill allowance) allowance := by
  have hkept := keptChars_le check.result.content allowance
  obtain ⟨hhead, htail⟩ := length_parts hkept
  refine ⟨parts_front _, parts_suffix _, ?_, ?_, keptChars_fits h,
    fun front rest hfront hrest hbalanced hle hfits => ?_⟩
  · simp only [FeedbackCheck.fill, hhead, htail]
    omega
  · simp only [FeedbackCheck.fill, hhead, htail]
    omega
  · rw [eq_parts hfront hrest hbalanced] at hfits
    have hmax : front.length + rest.length ≤ keptChars check.result.content allowance :=
      le_keptChars hle hfits
    simp only [FeedbackCheck.fill, hhead, htail]
    omega

/-! ## The whole feedback -/

variable (floatText : ℚ → List Char) (round : Round)

/-- What the text of a check is, but for its output. -/
theorem length_text (check : FeedbackCheck) : ∃ base, ∀ head tail omitted,
    (FeedbackCheck.text floatText { check with
      contentHead := head, contentTail := tail, omittedChars := omitted }).length =
        base + escapedLength head + escapedLength tail + digits omitted := by
  refine ⟨(FeedbackCheck.text floatText { check with
    contentHead := [], contentTail := [], omittedChars := 0 }).length - digits 0, ?_⟩
  intro head tail omitted
  simp only [FeedbackCheck.text, objectText, List.length_append, length_joined, List.map_cons,
    List.map_nil, List.sum_cons, List.sum_nil, List.length_cons, List.length_nil, length_dumpsStr,
    length_jsonText_int, escapedLength_nil]
  omega

theorem contentHead_fill (index : ℕ) (result : CheckResult) (allowance : ℤ) :
    ((bare index result).fill allowance).contentHead =
      (parts result.content (keptChars result.content allowance)).1 := rfl

theorem contentTail_fill (index : ℕ) (result : CheckResult) (allowance : ℤ) :
    ((bare index result).fill allowance).contentTail =
      (parts result.content (keptChars result.content allowance)).2 := rfl

/-- Filling a check takes at most its allowance. -/
theorem length_text_fill (index : ℕ) (result : CheckResult) {allowance : ℤ} (h : 0 ≤ allowance) :
    (((bare index result).fill allowance).text floatText).length ≤
      ((bare index result).text floatText).length + allowance := by
  obtain ⟨base, hbase⟩ := length_text floatText (bare index result)
  have hfilled := hbase (parts result.content (keptChars result.content allowance)).1
    (parts result.content (keptChars result.content allowance)).2
    (result.content.length - keptChars result.content allowance)
  have hbare := hbase [] [] result.content.length
  have hfits : (partsSize (parts result.content (keptChars result.content allowance)) : ℤ) ≤
      allowance := keptChars_fits h
  rw [partsSize_eq] at hfits
  have hdigits : digits (result.content.length - keptChars result.content allowance) ≤
      digits result.content.length := digits_le (Nat.sub_le _ _)
  simp only [escapedLength_nil] at hbare
  have hsame : (bare index result).fill allowance = { bare index result with
      contentHead := (parts result.content (keptChars result.content allowance)).1
      contentTail := (parts result.content (keptChars result.content allowance)).2
      omittedChars := result.content.length - keptChars result.content allowance } := rfl
  have hempty : bare index result = { bare index result with
      contentHead := [], contentTail := [], omittedChars := result.content.length } := rfl
  rw [hsame, hfilled]
  rw [hempty, hbare]
  omega

/-- One check of the feedback is replaced by another. -/
theorem length_feedbackText (front : List FeedbackCheck) (check other : FeedbackCheck)
    (rest : List FeedbackCheck) :
    (feedbackText floatText round (front ++ other :: rest)).length + (check.text floatText).length =
      (feedbackText floatText round (front ++ check :: rest)).length +
        (other.text floatText).length := by
  simp only [feedbackText, objectText, arrayText, List.length_append, length_joined, List.map_cons,
    List.map_nil, List.sum_cons, List.sum_nil, List.length_cons, List.length_nil, List.map_append,
    List.sum_append, List.length_map]
  omega

theorem remaining_fill (front rest : List FeedbackCheck) (index : ℕ) (result : CheckResult)
    {allowance : ℤ} (h : 0 ≤ allowance) :
    remaining floatText round (front ++ bare index result :: rest) - allowance ≤
      remaining floatText round (front ++ (bare index result).fill allowance :: rest) := by
  have hlength := length_feedbackText floatText round front (bare index result)
    ((bare index result).fill allowance) rest
  have hfill := length_text_fill floatText index result h
  rw [remaining, remaining]
  omega

/-! ## The loop -/

/-- What the loop has done of a check. -/
def Filled (entry : FeedbackCheck × Option ℤ) : Prop :=
  match entry.2 with
  | some allowance => entry.1.result.failed = true ∧ Fitted entry.1 allowance
  | none => entry.1.result.failed = false

def countFailed (checks : List FeedbackCheck) : ℕ :=
  (checks.filter fun check => check.result.failed).length

/-- The state of the loop: what is left is enough for every failed check to come to get what any
before it got. -/
structure Sharing (filled : List (FeedbackCheck × Option ℤ)) (checks : List FeedbackCheck) :
    Prop where
  each : ∀ entry ∈ filled, Filled entry
  increasing : (filled.filterMap Prod.snd).Pairwise (· ≤ ·)
  enough : 0 ≤ remaining floatText round (filled.map Prod.fst ++ checks)
  shares : ∀ allowance ∈ filled.filterMap Prod.snd,
    allowance * countFailed checks ≤ remaining floatText round (filled.map Prod.fst ++ checks)

variable {floatText round} {filled : List (FeedbackCheck × Option ℤ)} {checks : List FeedbackCheck}
  {index : ℕ} {result : CheckResult}

theorem countFailed_cons (check : FeedbackCheck) : countFailed (check :: checks) =
    countFailed checks + if check.result.failed then 1 else 0 := by
  unfold countFailed
  by_cases h : check.result.failed = true <;> simp [h]

/-- A check that passed is left as it is. -/
theorem Sharing.passed (h : Sharing floatText round filled (bare index result :: checks))
    (hpassed : result.failed = false) :
    Sharing floatText round (filled ++ [(bare index result, none)]) checks := by
  have hcount : countFailed (bare index result :: checks) = countFailed checks := by
    rw [countFailed_cons, bare, hpassed]
    rfl
  have hmap : (filled ++ [(bare index result, none)]).map Prod.fst ++ checks =
      filled.map Prod.fst ++ bare index result :: checks := by simp
  have hnone : (filled ++ [(bare index result, (none : Option ℤ))]).filterMap Prod.snd =
      filled.filterMap Prod.snd := by simp
  refine ⟨fun entry hentry => ?_, ?_, ?_, ?_⟩
  · rcases List.mem_append.mp hentry with hentry | hentry
    · exact h.each entry hentry
    · rw [List.mem_singleton.mp hentry]
      exact hpassed
  · rw [hnone]
    exact h.increasing
  · rw [hmap]
    exact h.enough
  · rw [hmap, hnone, ← hcount]
    exact h.shares

/-- A failed check gets its share, and leaves as much to each of those behind it. -/
theorem Sharing.failed (h : Sharing floatText round filled (bare index result :: checks))
    (hfailed : result.failed = true) {allowance : ℤ}
    (hallowance : allowance =
      remaining floatText round (filled.map Prod.fst ++ bare index result :: checks) /
        (countFailed checks + 1 : ℕ)) :
    Sharing floatText round
      (filled ++ [((bare index result).fill allowance, some allowance)]) checks := by
  have hcount : countFailed (bare index result :: checks) = countFailed checks + 1 := by
    rw [countFailed_cons, bare, hfailed]
    rfl
  have hpos : (0 : ℤ) < (countFailed checks + 1 : ℕ) := by omega
  have hnonneg : 0 ≤ allowance := hallowance ▸ Int.ediv_nonneg h.enough hpos.le
  have hshare : allowance * (countFailed checks + 1 : ℕ) ≤
      remaining floatText round (filled.map Prod.fst ++ bare index result :: checks) :=
    hallowance ▸ Int.ediv_mul_le _ hpos.ne'
  have hleft := remaining_fill floatText round (filled.map Prod.fst) checks index result hnonneg
  have hmap : (filled ++ [((bare index result).fill allowance, some allowance)]).map Prod.fst ++
      checks = filled.map Prod.fst ++ (bare index result).fill allowance :: checks := by simp
  have hsome : (filled ++ [((bare index result).fill allowance, some allowance)]).filterMap
      Prod.snd = filled.filterMap Prod.snd ++ [allowance] := by simp
  have hbelow : ∀ earlier ∈ filled.filterMap Prod.snd, earlier ≤ allowance := by
    intro earlier hearlier
    have hshares := h.shares earlier hearlier
    rw [hcount] at hshares
    exact hallowance ▸ (Int.le_ediv_iff_mul_le hpos).mpr hshares
  push_cast at hshare
  have hrest : allowance * countFailed checks ≤
      remaining floatText round (filled.map Prod.fst ++ (bare index result).fill allowance ::
        checks) := by
    linarith
  refine ⟨fun entry hentry => ?_, ?_, ?_, fun earlier hearlier => ?_⟩
  · rcases List.mem_append.mp hentry with hentry | hentry
    · exact h.each entry hentry
    · rw [List.mem_singleton.mp hentry]
      exact ⟨hfailed, fitted_fill _ hnonneg⟩
  · rw [hsome, List.pairwise_append]
    refine ⟨h.increasing, List.pairwise_singleton _ _, fun earlier hearlier last hlast => ?_⟩
    rw [List.mem_singleton.mp hlast]
    exact hbelow earlier hearlier
  · rw [hmap]
    exact (mul_nonneg hnonneg (by omega)).trans hrest
  · rw [hmap]
    rw [hsome, List.mem_append, List.mem_singleton] at hearlier
    have hle : earlier ≤ allowance := hearlier.elim (hbelow earlier) le_of_eq
    exact (mul_le_mul_of_nonneg_right hle (by omega)).trans hrest

theorem sharing_fillChecks {rest : List (ℕ × CheckResult)}
    (h : Sharing floatText round filled (rest.map fun item => bare item.1 item.2)) :
    Sharing floatText round
      (fillChecks floatText round filled (rest.map fun item => bare item.1 item.2)) [] := by
  induction rest generalizing filled with
  | nil => exact h
  | cons item rest ih =>
    obtain ⟨index, result⟩ := item
    rw [List.map_cons] at h ⊢
    rw [fillChecks]
    split
    · rename_i hfailed
      exact ih (h.failed hfailed rfl)
    · rename_i hpassed
      exact ih (h.passed (Bool.not_eq_true _ ▸ hpassed))

/-- The loop leaves the results and their order. -/
theorem result_fillChecks (filled : List (FeedbackCheck × Option ℤ)) (checks : List FeedbackCheck) :
    (fillChecks floatText round filled checks).map (·.1.result) =
      filled.map (·.1.result) ++ checks.map (·.result) := by
  induction checks generalizing filled with
  | nil => rw [fillChecks, List.map_nil, List.append_nil]
  | cons check checks ih =>
    have hfill (allowance : ℤ) : (check.fill allowance).result = check.result := rfl
    rw [fillChecks]
    split
    · rw [ih, List.map_append, List.map_singleton, hfill, List.append_assoc, List.singleton_append,
        List.map_cons]
    · rw [ih, List.map_append, List.map_singleton, List.append_assoc, List.singleton_append,
        List.map_cons]

theorem result_bareChecks (results : List CheckResult) :
    (bareChecks results).map (·.result) = results := by
  rw [bareChecks, List.map_map]
  exact List.zipIdx_map_fst 0 results

/-- The feedback fits, shows as much as its allowances have room for, and the allowances do not
shrink. -/
structure Shared (floatText : ℚ → List Char) (round : Round) (results : List CheckResult) :
    Prop where
  length_le : (feedback floatText round results).length ≤ maxFeedback
  results_eq : (feedbackChecks floatText round results).map (·.1.result) = results
  filled : ∀ check allowance, (check, some allowance) ∈ feedbackChecks floatText round results →
    check.result.failed = true ∧ Fitted check allowance
  passed : ∀ check, (check, none) ∈ feedbackChecks floatText round results →
    check.result.failed = false
  increasing : ((feedbackChecks floatText round results).filterMap Prod.snd).Pairwise (· ≤ ·)

theorem bareChecks_eq (results : List CheckResult) : bareChecks results =
    (results.zipIdx.map fun item => (item.2 + 1, item.1)).map fun item => bare item.1 item.2 := by
  rw [List.map_map]
  rfl

/-- A failed check whose output is expensive at its end. -/
def lopsided (n : ℕ) : CheckResult where
  callId := .str "c"
  isError := true
  metadata := .obj []
  content := List.replicate n (.scalar 'a') ++ List.replicate n (.scalar '\x00')

theorem length_lopsided (n : ℕ) : (lopsided n).content.length = n + n := by
  rw [lopsided, List.length_append, List.length_replicate, List.length_replicate]

theorem escapedLength_replicate (n : ℕ) (c : PyChar) :
    escapedLength (List.replicate n c) = n * (escape c).length := by
  simp [escapedLength]

/-- Half of what is kept of it takes six characters each. -/
theorem keptChars_lopsided {n : ℕ} {allowance : ℤ} (h : 0 ≤ allowance) :
    (keptChars (lopsided n).content allowance : ℤ) +
      5 * (keptChars (lopsided n).content allowance / 2 : ℕ) ≤ allowance := by
  have hkept := keptChars_le (lopsided n).content allowance
  have hfits : (partsSize (parts (lopsided n).content
      (keptChars (lopsided n).content allowance)) : ℤ) ≤ allowance := keptChars_fits h
  have hhead := (length_parts hkept).1
  generalize keptChars (lopsided n).content allowance = kept at *
  rw [length_lopsided] at hkept
  have htail : (parts (lopsided n).content kept).2 =
      List.replicate (kept / 2) (.scalar '\x00') := by
    have hfront : n ≤ n + n - kept / 2 := by omega
    have hrest : n - (n + n - kept / 2 - n) = kept / 2 := by omega
    simp only [parts, length_lopsided]
    rw [lopsided, List.drop_append, List.length_replicate, List.drop_replicate, List.drop_replicate,
      hrest, Nat.sub_eq_zero_of_le hfront, List.replicate_zero, List.nil_append]
  have hsix : (escape (.scalar '\x00')).length = 6 := rfl
  have hlength := length_le_escapedLength (parts (lopsided n).content kept).1
  rw [partsSize_eq, htail, escapedLength_replicate, hsix] at hfits
  omega

theorem bareChecks_lopsided :
    (feedbackText (fun _ => []) ⟨1, "r", .str "p"⟩ (bareChecks [lopsided 12000])).length = 214 := by
  have hlength : (lopsided 12000).content.length = 24000 := length_lopsided 12000
  have hbare : bareChecks [lopsided 12000] = [⟨1, lopsided 12000, [], [], 24000⟩] := by
    rw [← hlength]
    rfl
  rw [hbare]
  decide +kernel

end Eventide.RepairFeedback
