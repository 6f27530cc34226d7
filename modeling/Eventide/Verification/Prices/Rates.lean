import Eventide.Verification.Prices.Time

/-! # The rates that apply

The rate of a category is the price with the latest time among those that apply. -/

namespace Eventide

/-- The rate of a category in a currency. -/
def rateOf (currencies : Rates) (currency category : String) : Option Price :=
  (currencies.get? currency).bind fun rates => rates.get? category

/-- The prices of a category in a currency. -/
def Price.IsFor (p : Price) (currency category : String) : Prop :=
  p.currency = currency ∧ p.category = category

instance (p : Price) (currency category : String) : Decidable (p.IsFor currency category) :=
  inferInstanceAs (Decidable (_ ∧ _))

/-- A price that takes the place of the one before it, if there is one. -/
def Newer (price : Price) (before : Option Price) : Prop :=
  (before.all fun previous => previous.effectiveAt < price.effectiveAt) = true

instance (price : Price) (before : Option Price) : Decidable (Newer price before) :=
  inferInstanceAs (Decidable (_ = true))

theorem newer_iff {price : Price} {before : Option Price} : Newer price before ↔
    ∀ previous, before = some previous → previous.effectiveAt < price.effectiveAt := by
  cases before <;> simp [Newer]

theorem rateOf_addRate (currencies : Rates) (price : Price) (currency category : String) :
    rateOf (addRate currencies price) currency category =
      if price.IsFor currency category ∧ Newer price (rateOf currencies currency category)
        then some price else rateOf currencies currency category := by
  by_cases hcurrency : currency = price.currency
  · subst hcurrency
    have hprevious : rateOf currencies price.currency category =
        ((currencies.get? price.currency).getD Dict.empty).get? category := by
      rw [rateOf]
      cases currencies.get? price.currency <;> rfl
    rw [hprevious, rateOf, addRate, Dict.get?_set_self, Option.bind_some]
    generalize (currencies.get? price.currency).getD Dict.empty = rates
    by_cases hcategory : price.category = category
    · subst hcategory
      by_cases hnewer : Newer price (rates.get? price.category)
      · have hall : ((rates.get? price.category).all fun previous =>
            previous.effectiveAt < price.effectiveAt) = true := hnewer
        simp only [hall, if_true]
        rw [if_pos ⟨⟨rfl, rfl⟩, hnewer⟩, Dict.get?_set_self]
      · have hall : ¬ ((rates.get? price.category).all fun previous =>
            previous.effectiveAt < price.effectiveAt) = true := hnewer
        simp only [hall]
        rw [if_neg Bool.false_ne_true, if_neg fun h => hnewer h.2]
    · have hnot : ¬ price.IsFor price.currency category := fun h => hcategory h.2
      have hold : (if price.IsFor price.currency category ∧ Newer price (rates.get? category)
          then some price else rates.get? category) = rates.get? category :=
        if_neg fun h => hnot h.1
      rw [hold]
      split
      · rw [Dict.get?_set, if_neg (Ne.symm hcategory)]
      · rfl
  · have hnot : ¬ price.IsFor currency category := fun h => hcurrency h.1.symm
    rw [if_neg fun h => hnot h.1, rateOf, rateOf, addRate, Dict.get?_set, if_neg hcurrency]

theorem mem_keys_addRate (currencies : Rates) (price : Price) (currency : String) :
    ((addRate currencies price).get? currency).isSome ↔
      price.currency = currency ∨ (currencies.get? currency).isSome := by
  rw [addRate, Dict.get?_set]
  split
  · rename_i h
    simp [h]
  · rename_i h
    simp [Ne.symm h]

/-- A price that no other of its kind is later than. -/
structure Latest (prices : List Price) (currency category : String) (p : Price) : Prop where
  mem : p ∈ prices
  isFor : p.IsFor currency category
  latest : ∀ q ∈ prices, q.IsFor currency category → ¬ p.effectiveAt < q.effectiveAt

theorem rateOf_foldl (prices : List Price) (currency category : String) :
    (∀ p, rateOf (prices.foldl addRate Dict.empty) currency category = some p →
        Latest prices currency category p) ∧
      ((∃ p ∈ prices, p.IsFor currency category) →
        (rateOf (prices.foldl addRate Dict.empty) currency category).isSome) := by
  induction prices using List.reverseRecOn with
  | nil => exact ⟨nofun, fun ⟨_, hp, _⟩ => nomatch hp⟩
  | append_singleton prices price ih =>
    obtain ⟨hlatest, hsome⟩ := ih
    rw [List.foldl_append, List.foldl_cons, List.foldl_nil, rateOf_addRate]
    by_cases hnew : price.IsFor currency category ∧
        Newer price (rateOf (prices.foldl addRate Dict.empty) currency category)
    · rw [if_pos hnew]
      refine ⟨fun p hp => ?_, fun _ => rfl⟩
      obtain rfl := Option.some.inj hp
      refine ⟨by simp, hnew.1, fun q hq hfor => ?_⟩
      rcases List.mem_append.mp hq with hq | hq
      · obtain ⟨previous, hprevious⟩ := Option.isSome_iff_exists.mp (hsome ⟨q, hq, hfor⟩)
        have hle := (hlatest previous hprevious).latest q hq hfor
        exact fun hlt => hle (lt_trans (newer_iff.mp hnew.2 previous hprevious) hlt)
      · rw [List.mem_singleton.mp hq]
        exact lt_irrefl _
    · rw [if_neg hnew]
      constructor
      · intro p hp
        obtain ⟨hmem, hfor, hle⟩ := hlatest p hp
        refine ⟨List.mem_append_left _ hmem, hfor, fun q hq hqfor => ?_⟩
        rcases List.mem_append.mp hq with hq | hq
        · exact hle q hq hqfor
        · obtain rfl := List.mem_singleton.mp hq
          intro hlt
          refine hnew ⟨hqfor, newer_iff.mpr fun previous hprevious => ?_⟩
          rw [hp] at hprevious
          exact Option.some.inj hprevious ▸ hlt
      · rintro ⟨p, hp, hfor⟩
        rcases List.mem_append.mp hp with hp | hp
        · exact hsome ⟨p, hp, hfor⟩
        · obtain rfl := List.mem_singleton.mp hp
          by_contra hnone
          rw [Option.not_isSome_iff_eq_none] at hnone
          exact hnew ⟨hfor, by rw [hnone]; rfl⟩

theorem currency_foldl (prices : List Price) (currency : String) :
    ((prices.foldl addRate Dict.empty).get? currency).isSome ↔
      ∃ p ∈ prices, p.currency = currency := by
  induction prices using List.reverseRecOn with
  | nil => simp
  | append_singleton prices price ih =>
    rw [List.foldl_append, List.foldl_cons, List.foldl_nil, mem_keys_addRate, ih]
    simp only [List.mem_append, List.mem_singleton]
    constructor
    · rintro (h | ⟨p, hp, h⟩)
      · exact ⟨price, .inr rfl, h⟩
      · exact ⟨p, .inl hp, h⟩
    · rintro ⟨p, hp | rfl, h⟩
      · exact .inr ⟨p, hp, h⟩
      · exact .inl h

end Eventide
