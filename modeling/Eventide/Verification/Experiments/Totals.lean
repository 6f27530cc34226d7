import Eventide.Verification.Budget.Attempts
import Eventide.Verification.Experiments.Evidence
import Eventide.Verification.Prices.Lines

/-! # What the totals of an arm stand for

A total is complete only when every call of the arm went into it. -/

namespace Eventide

open Outcome

namespace Experiments

variable {std : Standard} {evidence : Evidence} {costs : Dict (String × String) Json}
  {currency : String}

/-! ## Tokens -/

/-- All the tokens of the calls, each of which is completely reported. -/
structure Spent (evidence : Evidence) (total : ℕ) : Prop where
  missing : evidence.missing = 0
  complete : ∀ call ∈ evidence.calls, call.snapshot.complete = true
  total : ∃ counts, List.Forall₂ (fun call n => callTokens call = .ok n) evidence.calls counts ∧
    total = counts.sum

theorem tokens_eq_ok {t : Tokens} {total : ℕ} (h : tokens evidence = .ok t)
    (htotal : t.totalTokens = some total) : Spent evidence total := by
  unfold tokens at h
  split at h
  · rename_i hcomplete
    obtain ⟨hmissing, hcalls⟩ := hcomplete
    obtain ⟨counts, hcounts, h⟩ := bind_eq_ok.mp h
    obtain rfl := Except.ok.inj h
    obtain rfl := Option.some.inj htotal
    exact ⟨hmissing, List.all_eq_true.mp hcalls, counts, mapM_eq_ok.mp hcounts, rfl⟩
  · obtain rfl := Except.ok.inj h
    cases htotal

theorem tokenSaving_eq_true {before after : Tokens} (h : tokenSaving before after = true) :
    ∃ b a, before.totalTokens = some b ∧ after.totalTokens = some a ∧ a < b := by
  unfold tokenSaving at h
  split at h
  · rename_i b a hb ha
    simp only [Bool.and_eq_true, decide_eq_true_eq] at h
    exact ⟨b, a, hb, ha, h.2⟩
  · cases h

/-! ## Costs -/

/-- The cost of a call in a currency: a complete estimate of reported usage. -/
def Priced (costs : Dict (String × String) Json) (currency : String) (call : Call)
    (value : Decimal) : Prop :=
  ∃ cost, costs.get? call.key = some cost ∧ cost.getNull "usage_source" = .str "reported" ∧
    ((cost.getNull "estimates").getNull currency).getNull "complete" = .bool true ∧
    amount (((cost.getNull "estimates").getNull currency).getNull "known_amount") = .ok value

/-- Nothing but the versions and the prices changed. -/
structure SameAmounts (st st' : CurrencyFold) : Prop where
  known : st'.known = st.known
  reportedSeen : st'.reportedSeen = st.reportedSeen
  covered : st'.covered = st.covered

theorem addLine_sameAmounts {call : Call} {st st' : CurrencyFold} {line : Json}
    (h : st.addLine std call currency line = .ok st') : SameAmounts st st' := by
  obtain ⟨version, -, h⟩ := bind_eq_ok.mp h
  obtain ⟨_, -, h⟩ := bind_eq_ok.mp h
  generalize (if st.versions.any version.pyEq then st.versions else st.versions ++ [version]) =
    versions at h
  dsimp only at h
  split at h
  · obtain ⟨_, -, h⟩ := bind_eq_ok.mp h
    obtain rfl := Except.ok.inj h
    exact ⟨rfl, rfl, rfl⟩
  · obtain rfl := Except.ok.inj h
    exact ⟨rfl, rfl, rfl⟩

theorem foldlM_addLine {call : Call} {st st' : CurrencyFold} {lines : List Json}
    (h : lines.foldlM (CurrencyFold.addLine std call currency) st = .ok st') :
    SameAmounts st st' := by
  induction lines generalizing st with
  | nil =>
    obtain rfl := Except.ok.inj h
    exact ⟨rfl, rfl, rfl⟩
  | cons line lines ih =>
    rw [List.foldlM_cons] at h
    obtain ⟨mid, hline, h⟩ := bind_eq_ok.mp h
    have hfirst := addLine_sameAmounts hline
    have hrest := ih h
    exact ⟨hrest.known.trans hfirst.known, hrest.reportedSeen.trans hfirst.reportedSeen,
      hrest.covered.trans hfirst.covered⟩

theorem addKnown_covered {st st' : CurrencyFold} {source known : Json}
    (h : st.addKnown source known = .ok st') : st'.covered = st.covered := by
  unfold CurrencyFold.addKnown at h
  split at h
  · rw [Except.ok.inj h]
  · obtain ⟨value, -, h⟩ := bind_eq_ok.mp h
    split at h
    · obtain ⟨_, -, h⟩ := bind_eq_ok.mp h
      obtain rfl := Except.ok.inj h
      rfl
    · split at h
      · obtain ⟨_, -, h⟩ := bind_eq_ok.mp h
        obtain rfl := Except.ok.inj h
        rfl
      · rw [Except.ok.inj h]

/-- A known amount of reported usage is added. -/
theorem addKnown_reported {st st' : CurrencyFold} {known : Json} (hknown : known ≠ .null)
    (h : st.addKnown (.str "reported") known = .ok st') :
    ∃ value, amount known = .ok value ∧ addAmount st.known value = .ok st'.known ∧
      st'.reportedSeen = st.reportedSeen + 1 := by
  unfold CurrencyFold.addKnown at h
  split at h
  · exact absurd rfl hknown
  · obtain ⟨value, hvalue, h⟩ := bind_eq_ok.mp h
    rw [if_neg (by decide), if_pos (by decide)] at h
    obtain ⟨known, hadd, h⟩ := bind_eq_ok.mp h
    obtain rfl := Except.ok.inj h
    exact ⟨value, hvalue, hadd, rfl⟩

/-- A call is counted as covered at most once, and then its amount has been added. -/
theorem addCall_eq_ok {call : Call} {st st' : CurrencyFold}
    (h : st.addCall std costs currency call = .ok st') :
    st'.covered = st.covered ∨ st'.covered = st.covered + 1 ∧ ∃ value,
      Priced costs currency call value ∧ addAmount st.known value = .ok st'.known ∧
      st'.reportedSeen = st.reportedSeen + 1 := by
  unfold CurrencyFold.addCall at h
  split at h
  · exact Or.inl (by rw [Except.ok.inj h])
  · rename_i cost hcost
    split at h
    · exact Or.inl (by rw [Except.ok.inj h])
    · rename_i estimate hestimate
      obtain ⟨known, hknown, h⟩ := bind_eq_ok.mp h
      obtain ⟨mid, hmid, h⟩ := bind_eq_ok.mp h
      obtain ⟨lines, -, h⟩ := bind_eq_ok.mp h
      obtain ⟨last, hlast, h⟩ := bind_eq_ok.mp h
      have hsame := foldlM_addLine hlast
      have hcovered := hsame.covered.trans (addKnown_covered hmid)
      split at h
      · rename_i hcomplete
        dsimp only at h
        split at h
        · rw [if_neg fun hc => Bool.false_ne_true hc.2.2.2] at h
          obtain rfl := Except.ok.inj h
          exact Or.inl hcovered
        · rename_i hnull
          split at h
          · rename_i hcond
            obtain rfl := Except.ok.inj h
            have hreported := Json.eq_str_of_pyEq hcond.2.1
            rw [hreported] at hmid
            obtain ⟨value, hvalue, hadd, hseen⟩ := addKnown_reported hnull hmid
            have hget : ((cost.getNull "estimates").getNull currency).getNull "known_amount" =
                known.getD .null := by
              unfold attr at hknown
              split at hknown
              · rename_i fields heq
                rw [heq, ← Except.ok.inj hknown]
                rfl
              · cases hknown
            exact Or.inr ⟨congrArg (· + 1) hcovered, value,
              ⟨cost, hcost, hreported, hcomplete, hget ▸ hvalue⟩,
              hadd.trans (congrArg Except.ok hsame.known.symm), hsame.reportedSeen.trans hseen⟩
          · obtain rfl := Except.ok.inj h
            exact Or.inl hcovered
      · rw [if_neg fun hc => Bool.false_ne_true hc.1] at h
        obtain rfl := Except.ok.inj h
        exact Or.inl hcovered

/-- The calls of a currency that are all covered have all been added. -/
theorem foldlM_addCall {calls : List Call} {st : CurrencyFold}
    (h : calls.foldlM (CurrencyFold.addCall std costs currency) {} = .ok st) :
    st.covered ≤ calls.length ∧ (st.covered = calls.length → st.reportedSeen = calls.length ∧
      ∃ values, List.Forall₂ (Priced costs currency) calls values ∧
        values.foldlM addAmount (.ofNat 0) = .ok st.known) := by
  induction calls using List.reverseRecOn generalizing st with
  | nil =>
    obtain rfl := Except.ok.inj h
    exact ⟨le_refl _, fun _ => ⟨rfl, [], .nil, rfl⟩⟩
  | append_singleton calls call ih =>
    obtain ⟨mid, hmid, h⟩ := foldlM_concat_eq_ok.mp h
    obtain ⟨hle, hall⟩ := ih hmid
    rw [List.length_append, List.length_singleton]
    rcases addCall_eq_ok h with hcovered | ⟨hcovered, value, hpriced, hadd, hseen⟩
    · exact ⟨by omega, fun hc => by omega⟩
    · refine ⟨by omega, fun hc => ?_⟩
      obtain ⟨hreported, values, hvalues, hsum⟩ := hall (by omega)
      exact ⟨by omega, values ++ [value], List.rel_append hvalues (.cons hpriced .nil),
        foldlM_concat_eq_ok.mpr ⟨_, hsum, hadd⟩⟩

/-- All the costs of the calls in a currency. -/
structure Charged (evidence : Evidence) (currency : String) (total : Decimal) : Prop where
  missing : evidence.missing = 0
  total : ∃ values, List.Forall₂ (Priced evidence.costs currency) evidence.calls values ∧
    values.foldlM addAmount (.ofNat 0) = .ok total

theorem currencyCosts_eq_ok {entry : CurrencyCosts} {total : Decimal}
    (h : currencyCosts std evidence currency = .ok entry) (hcomplete : entry.complete = true)
    (htotal : entry.knownAmount = some total) : Charged evidence currency total := by
  obtain ⟨st, hst, h⟩ := bind_eq_ok.mp h
  obtain rfl := Except.ok.inj h
  simp only [Bool.and_eq_true, decide_eq_true_eq] at hcomplete
  obtain ⟨-, values, hvalues, hsum⟩ := (foldlM_addCall hst).2 hcomplete.2
  refine ⟨hcomplete.1, values, hvalues, ?_⟩
  simp only at htotal
  split at htotal
  · cases htotal
  · rw [hsum, Option.some.inj htotal]

theorem costs_eq_ok {entries : Dict String CurrencyCosts} {entry : CurrencyCosts}
    (h : Experiments.costs std evidence = .ok entries) (hentry : entries.get? currency = some entry) :
    currencyCosts std evidence currency = .ok entry := by
  obtain ⟨pairs, hpairs, h⟩ := bind_eq_ok.mp h
  obtain rfl := Except.ok.inj h
  obtain ⟨name, -, hpair⟩ := mem_of_mapM hpairs (Dict.mem_of_get?_ofList hentry)
  obtain ⟨result, hresult, hpair⟩ := bind_eq_ok.mp hpair
  obtain ⟨rfl, rfl⟩ := Prod.mk.inj (Except.ok.inj hpair)
  exact hresult

/-- A fee that went down at the same versions and prices. -/
theorem decreased_eq_true {before after : Dict String CurrencyCosts}
    (h : decreased before after currency = .ok true) :
    ∃ b a x y, before.get? currency = some b ∧ after.get? currency = some a ∧
      comparable b a = true ∧ b.knownAmount = some x ∧ a.knownAmount = some y ∧
      y.value < x.value := by
  unfold decreased at h
  split at h
  · rename_i b a hb ha
    split at h
    · rename_i hcomparable
      split at h
      · rename_i y x hy hx
        exact ⟨b, a, x, y, hb, ha, hcomparable, hx, hy, of_decide_eq_true (Except.ok.inj h)⟩
      · cases h
    · cases h
  · cases h

/-! ## Passes -/

/-- A task that no regression names passed at least as often. -/
theorem passes_le_of_regressions {before after : Evidence} (h : regressions before after = [])
    (id : String) : passes before id ≤ passes after id := by
  by_contra hlt
  rw [not_le] at hlt
  have hpos : 0 < passes before id := lt_of_le_of_lt (Nat.zero_le _) hlt
  obtain ⟨case, hcase, hpassed⟩ := List.countP_pos_iff.mp hpos
  rw [Bool.and_eq_true] at hpassed
  have hid := Json.eq_str_of_pyEq hpassed.1
  have hmem : id ∈ regressions before after := by
    refine List.mem_filter.mpr ⟨mem_sortedSet.mpr (List.mem_filterMap.mpr ⟨case, ?_, ?_⟩),
      decide_eq_true hlt⟩
    · exact List.mem_filter.mpr ⟨hcase, hpassed.2⟩
    · rw [hid]
      rfl
  rw [h] at hmem
  cases hmem

end Experiments

end Eventide
