import Mathlib.Data.List.DropRight
import Mathlib.Tactic.IntervalCases
import Eventide.Library.Sequence
import Eventide.Model.TaskPlan

/-! # How an update gives its items their ids -/

namespace Eventide.TaskPlan

open Outcome RuntimeStore

/-! ## Ids and numbers -/

theorem toList_mintId (n : ℕ) : (mintId n).toList = 't' :: Nat.toDigits 10 n := by
  simp [mintId, Nat.toString_eq_repr]

theorem mintId_injective : Function.Injective mintId := by
  intro m n h
  have hdigits : Nat.toDigits 10 m = Nat.toDigits 10 n := by
    have hlist := congrArg String.toList h
    rw [toList_mintId, toList_mintId] at hlist
    exact (List.cons.inj hlist).2
  have hvalue := congrArg (fun cs => Nat.ofDigitChars 10 cs 0) hdigits
  simpa using hvalue

/-- The first digit of a positive number is not zero. -/
theorem toDigits_head {n : ℕ} (hn : 0 < n) :
    ∃ d ds, Nat.toDigits 10 n = d :: ds ∧ '1' ≤ d ∧ d ≤ '9' := by
  induction n using Nat.strong_induction_on with
  | _ n ih =>
    by_cases hlt : n < 10
    · have hdigit : '1' ≤ n.digitChar ∧ n.digitChar ≤ '9' := by
        interval_cases n <;> decide
      exact ⟨n.digitChar, [], Nat.toDigits_of_lt_base hlt, hdigit⟩
    · obtain ⟨d, ds, hd, h1, h9⟩ := ih (n / 10) (by omega) (by omega)
      exact ⟨d, ds ++ [(n % 10).digitChar],
        by rw [Nat.toDigits_of_base_le (by decide) (by omega), hd, List.cons_append], h1, h9⟩

/-- The pattern has room for four digits. -/
theorem idNumber?_mintId {n : ℕ} (hn : 0 < n) :
    idNumber? (mintId n) = if n ≤ 9999 then some n else none := by
  obtain ⟨d, ds, hd, h1, h9⟩ := toDigits_head hn
  have hvalue : Nat.ofDigitChars 10 (d :: ds) 0 = n := by
    rw [← hd]
    exact Nat.ofDigitChars_ten_toDigits
  have hall : ds.all Char.isDigit = true := by
    rw [List.all_eq_true]
    intro c hc
    apply Nat.isDigit_of_mem_toDigits (b := 10) (n := n) (by decide) (by decide)
    simp [hd, hc]
  have hlength : ds.length ≤ 3 ↔ n ≤ 9999 := by
    have hle := Nat.length_toDigits_le_iff (b := 10) (n := n) (k := 4) (by decide) (by decide)
    rw [hd, List.length_cons] at hle
    omega
  rw [idNumber?, toList_mintId, hd]
  simp only [h1, h9, hall, hlength, hvalue, true_and, and_true]

/-! ## One item -/

theorem strip_idem (text : String) : strip (strip text) = strip text := by
  have hstrip : ∀ t : String,
      strip t = String.ofList ((t.toList.dropWhile isSpace).rdropWhile isSpace) := fun _ => rfl
  let front := text.toList.dropWhile isSpace
  have hfront : front.dropWhile isSpace = front := List.dropWhile_idempotent _ _
  -- What the right end loses leaves the first character, which is no space.
  have hkept : (front.rdropWhile isSpace).dropWhile isSpace = front.rdropWhile isSpace := by
    rw [List.dropWhile_eq_self_iff] at hfront ⊢
    intro hl
    have hp : front.rdropWhile isSpace <+: front := List.rdropWhile_prefix _ _
    rw [hp.getElem hl]
    exact hfront (hl.trans_le hp.length_le)
  rw [hstrip (strip text), hstrip text, String.toList_ofList, hkept, List.rdropWhile_idempotent]

/-- What every item of an accepted plan looks like. -/
structure Todo.Shaped (todo : Todo) : Prop where
  stripped : strip todo.content = todo.content
  nonempty : todo.content ≠ ""
  short : todo.content.length ≤ maxContentChars
  claim : ∀ text, todo.summary = some text →
    strip text = text ∧ text ≠ "" ∧ text.length ≤ maxSummaryChars ∧
      (todo.status = .completed ∨ todo.status = .blocked)
  claimed : todo.status = .completed → todo.summary.isSome
  few : todo.dependencies.length ≤ maxTodos
  once : todo.dependencies.Nodup
  known : ∀ dependency ∈ todo.dependencies,
    (idNumber? dependency).isSome ∧ dependency ≠ todo.id

/-- Where an item of an accepted plan has its id from. -/
inductive Identified (available : Dict String Todo) (claimed : List String) (item : Json)
    (content : String) (sequence : ℕ) : String → ℕ → Prop
  | named {taskId : String} : item.getNull "id" = .str taskId → (idNumber? taskId).isSome →
      (available.get? taskId).isSome → taskId ∉ claimed →
      Identified available claimed item content sequence taskId sequence
  | kept {taskId : String} {old : Todo} : item.getNull "id" = .null →
      available.get? taskId = some old → taskId ∉ claimed → strip old.content = content →
      Identified available claimed item content sequence taskId sequence
  | minted : item.getNull "id" = .null →
      Identified available claimed item content sequence (mintId sequence) (sequence + 1)

theorem identityOf_eq_ok {available : Dict String Todo} {claimed : List String} {item : Json}
    {content : String} {index sequence : ℕ} {identity : String × ℕ}
    (h : identityOf index item available claimed sequence content = .ok identity) :
    Identified available claimed item content sequence identity.1 identity.2 := by
  unfold identityOf at h
  split at h
  · rename_i hid
    split at h
    · rename_i p hp
      obtain rfl := Except.ok.inj h
      have hmem : available.get? p.1 = some p.2 :=
        Dict.mem_entries.mp (List.mem_of_find?_eq_some hp)
      have hfound := List.find?_some hp
      simp only [decide_eq_true_eq] at hfound
      exact .kept hid hmem hfound.1 hfound.2
    · obtain rfl := Except.ok.inj h
      exact .minted hid
  · rename_i taskId hid
    simp only [bind_eq_ok, raiseIf_eq_ok, pure_eq_ok, Except.ok.injEq] at h
    obtain ⟨_, hn, _, ha, _, hc, rfl⟩ := h
    exact .named hid (by simpa [Option.isSome_iff_ne_none] using hn)
      (by simpa [Option.isSome_iff_ne_none] using ha) hc
  · cases h

theorem contentOf_eq_ok {index : ℕ} {item : Json} {seen : List String} {content : String} :
    contentOf index item seen = .ok content ↔ ∃ text, item.getNull "content" = .str text ∧
      content = strip text ∧ content ≠ "" ∧ content.length ≤ maxContentChars ∧
      content ∉ seen := by
  unfold contentOf
  split
  · rename_i text ht
    simp only [bind_eq_ok, raiseIf_eq_ok, pure_eq_ok, Except.ok.injEq, not_lt, ht, Json.str.injEq]
    constructor
    · rintro ⟨_, hn, _, hl, _, hs, rfl⟩
      exact ⟨text, rfl, rfl, hn, hl, hs⟩
    · rintro ⟨_, rfl, rfl, hn, hl, hs⟩
      exact ⟨(), hn, (), hl, (), hs, rfl⟩
  · rename_i hn
    simp only [reduceCtorEq, false_iff]
    rintro ⟨text, ht, -⟩
    exact hn text ht

theorem claimOf_completed {index : ℕ} {item : Json} {prior : Option Todo} {claim : Option String}
    (h : claimOf index item .completed prior = .ok claim) :
    ∃ text, claim = some text ∧ strip text ≠ "" := by
  have hclaim : ∀ text : String, (do
      raiseIf (strip text = "") (.value s!"todo {index} must summarize what it completed")
      return some text : Except PyError (Option String)) = .ok claim →
      ∃ text, claim = some text ∧ strip text ≠ "" := by
    intro text hc
    simp only [bind_eq_ok, raiseIf_eq_ok, pure_eq_ok, Except.ok.injEq] at hc
    obtain ⟨_, hn, rfl⟩ := hc
    exact ⟨text, rfl, hn⟩
  simp only [claimOf] at h
  split at h
  · exact hclaim _ h
  · split at h
    · exact hclaim _ h
    · cases h
  all_goals simp_all

theorem claimOf_unclaimed {index : ℕ} {item : Json} {status : Status} {prior : Option Todo}
    {claim : Option String} (h : claimOf index item status prior = .ok claim)
    (hc : status ≠ .completed) (hb : status ≠ .blocked) : claim = none := by
  unfold claimOf at h
  split at h <;> simp_all

theorem summaryOf_eq_ok {index : ℕ} {item : Json} {status : Status} {prior : Option Todo}
    {summary : Option String} (h : summaryOf index item status prior = .ok summary) :
    (∀ text, summary = some text → strip text = text ∧ text ≠ "" ∧
      text.length ≤ maxSummaryChars ∧ (status = .completed ∨ status = .blocked)) ∧
    (status = .completed → summary.isSome) := by
  simp only [summaryOf, bind_eq_ok, raiseIf_eq_ok, pure_eq_ok, Except.ok.injEq] at h
  obtain ⟨claim, hc, _, hshort, rfl⟩ := h
  constructor
  · intro text ht
    obtain ⟨hm, hn⟩ := Option.filter_eq_some_iff.mp ht
    obtain ⟨raw, rfl, rfl⟩ := Option.map_eq_some_iff.mp hm
    refine ⟨strip_idem raw, by simpa using hn, by simpa using hshort, ?_⟩
    by_contra hs
    rw [not_or] at hs
    cases claimOf_unclaimed hc hs.1 hs.2
  · rintro rfl
    obtain ⟨raw, rfl, hn⟩ := claimOf_completed hc
    simp [hn]

/-! ## Dependencies -/

variable {index : ℕ} {taskId : String}

/-- A dependency list that `_item` accepts. -/
structure Listed (taskId : String) (dependencies : List String) : Prop where
  once : dependencies.Nodup
  known : ∀ dependency ∈ dependencies, (idNumber? dependency).isSome ∧ dependency ≠ taskId

theorem dependencyStep_eq_ok {seen later : List String} {value : Json} :
    dependencyStep index taskId seen value = .ok later ↔ ∃ dependency, value = .str dependency ∧
      (idNumber? dependency).isSome ∧ dependency ≠ taskId ∧ dependency ∉ seen ∧
      later = seen ++ [dependency] := by
  cases value with
  | str dependency =>
    simp only [dependencyStep, bind_eq_ok, raiseIf_eq_ok, pure_eq_ok, Except.ok.injEq,
      Json.str.injEq]
    constructor
    · rintro ⟨_, hn, _, hself, _, hs, rfl⟩
      exact ⟨dependency, rfl, by simpa [Option.isSome_iff_ne_none] using hn, hself, hs, rfl⟩
    · rintro ⟨_, rfl, hn, hself, hs, rfl⟩
      exact ⟨(), by simpa [Option.isSome_iff_ne_none] using hn, (), hself, (), hs, rfl⟩
  | _ => simp [dependencyStep]

theorem dependencies_fold {items : List Json} {seen later : List String}
    (h : items.foldlM (dependencyStep index taskId) seen = .ok later) (hs : Listed taskId seen) :
    Listed taskId later ∧ later.length = seen.length + items.length := by
  induction items generalizing seen with
  | nil =>
    obtain rfl : seen = later := by simpa using h
    exact ⟨hs, rfl⟩
  | cons item items ih =>
    rw [List.foldlM_cons] at h
    obtain ⟨mid, hm, h⟩ := bind_eq_ok.mp h
    obtain ⟨dependency, -, hn, hself, hnew, rfl⟩ := dependencyStep_eq_ok.mp hm
    obtain ⟨hl, hlen⟩ := ih h ⟨Sequence.nodup_concat.mpr ⟨hnew, hs.once⟩, by
      intro d hd
      rcases List.mem_append.mp hd with hd | hd
      · exact hs.known d hd
      · exact List.mem_singleton.mp hd ▸ ⟨hn, hself⟩⟩
    refine ⟨hl, ?_⟩
    rw [hlen, List.length_append, List.length_singleton, List.length_cons]
    omega

theorem dependenciesOf_eq_ok {value : Json} {dependencies : List String}
    (h : dependenciesOf index taskId value = .ok dependencies) :
    Listed taskId dependencies ∧ dependencies.length ≤ maxTodos := by
  unfold dependenciesOf at h
  split at h
  · simp only [bind_eq_ok, raiseIf_eq_ok, not_lt] at h
    obtain ⟨_, hfew, h⟩ := h
    obtain ⟨hl, hlen⟩ := dependencies_fold h ⟨List.nodup_nil, by simp⟩
    exact ⟨hl, by simpa [hlen] using hfew⟩
  · cases h

/-- A listed dependency list comes back from its own array. -/
theorem dependenciesOf_listed {dependencies : List String} (hl : Listed taskId dependencies)
    (hfew : dependencies.length ≤ maxTodos) :
    dependenciesOf index taskId (.arr (dependencies.map .str)) = .ok dependencies := by
  have hfold : ∀ rest seen : List String, seen ++ rest = dependencies →
      (rest.map Json.str).foldlM (dependencyStep index taskId) seen = .ok dependencies := by
    intro rest
    induction rest with
    | nil =>
      intro seen he
      simpa using he
    | cons d rest ih =>
      intro seen he
      have hd : d ∈ dependencies := by simp [← he]
      have hnew : d ∉ seen := by
        have hn := hl.once
        rw [← he, List.nodup_append] at hn
        exact fun hm => hn.2.2 d hm d (by simp) rfl
      have hstep : dependencyStep index taskId seen (.str d) = .ok (seen ++ [d]) :=
        dependencyStep_eq_ok.mpr ⟨d, rfl, (hl.known d hd).1, (hl.known d hd).2, hnew, rfl⟩
      rw [List.map_cons, List.foldlM_cons, hstep, ok_bind]
      exact ih (seen ++ [d]) (by simpa using he)
  have hle : ¬ maxTodos < (dependencies.map Json.str).length := by simpa using hfew
  rw [dependenciesOf, raiseIf_of_not hle, ok_bind]
  exact hfold dependencies [] rfl

theorem dependsOnOf_eq_ok {item : Json} {prior : Option Todo} {dependsOn : Option (List String)}
    (h : dependsOnOf index item taskId prior = .ok dependsOn) :
    Listed taskId (dependsOn.getD []) ∧ (dependsOn.getD []).length ≤ maxTodos := by
  unfold dependsOnOf at h
  split at h
  · obtain ⟨dependencies, hd, rfl⟩ := map_eq_ok.mp h
    exact dependenciesOf_eq_ok hd
  · obtain ⟨dependencies, hd, rfl⟩ := map_eq_ok.mp h
    exact dependenciesOf_eq_ok hd
  · obtain rfl := Except.ok.inj h
    exact ⟨⟨List.nodup_nil, by simp⟩, by simp⟩

end Eventide.TaskPlan
