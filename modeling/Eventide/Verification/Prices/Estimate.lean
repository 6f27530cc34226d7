import Eventide.Verification.Prices.Amounts
import Eventide.Verification.Prices.Lines
import Eventide.Verification.Prices.Rates
import Eventide.Verification.Prices.Registry

/-! # Estimates

An estimate takes the latest rates that applied when its attempt was reserved, charges no token
twice, and is exact. -/

namespace Eventide

open Outcome RuntimeStore
open CostLedger (payloads)

/-! ## Accepted versions -/

theorem PriceVersion.payload_spec {v : PriceVersion} {p : Price} (h : v.payload = .ok p) :
    p.effectiveAt = isoformat v.effectiveAt.micros ∧
      ∃ d, ValidPrice d ∧ p.pricePerMillion = decimalText d := by
  simp only [payload, bind_eq_ok, pure_eq_ok, Except.ok.injEq] at h
  obtain ⟨_, -, _, -, _, -, _, -, _, -, _, -, d, hd, micros, hmicros, rfl⟩ := h
  simp only [Datetime.utc, bind_eq_ok, pure_eq_ok, Except.ok.injEq] at hmicros
  obtain ⟨_, -, rfl⟩ := hmicros
  exact ⟨rfl, d, readPrice_valid hd, rfl⟩

/-- A registered version that applies to an attempt in a category. -/
structure Applies (s : RuntimeStore) (intent : CostIntent) (instant : ℤ) (currency category : String)
    (v : PriceVersion) (p : Price) : Prop where
  accepted : v.payload = .ok p
  registered : ∃ e ∈ s.factsByType [.priceRegistered], e.payload = p.toJson
  provider : p.provider = intent.provider
  model : p.model = intent.model
  isFor : p.IsFor currency category
  effective : v.effectiveAt.micros ≤ instant

/-- The version with the latest instant among those that apply. -/
def Chosen (s : RuntimeStore) (intent : CostIntent) (instant : ℤ) (currency category : String)
    (p : Price) : Prop :=
  ∃ v, Applies s intent instant currency category v p ∧
    ∀ w q, Applies s intent instant currency category w q →
      w.effectiveAt.micros ≤ v.effectiveAt.micros

section Selection

variable {s : RuntimeStore} {versions : List (PriceVersion × Price)} {intent : CostIntent} {instant : ℤ}

theorem Registry.mem_iff (h : Registry s versions) {p : Price} :
    (∃ e ∈ s.factsByType [.priceRegistered], e.payload = p.toJson) ↔
      p ∈ versions.map Prod.snd := by
  have hjson : (∃ e ∈ s.factsByType [.priceRegistered], e.payload = p.toJson) ↔
      p.toJson ∈ versions.map fun v => v.2.toJson := by
    rw [← h.prices, List.mem_map]
  rw [hjson]
  constructor
  · intro hmem
    obtain ⟨v, hv, heq⟩ := List.mem_map.mp hmem
    have hback := congrArg Price.ofJson heq
    rw [Price.ofJson_toJson, Price.ofJson_toJson] at hback
    exact Except.ok.inj hback ▸ List.mem_map_of_mem hv
  · intro hmem
    obtain ⟨v, hv, rfl⟩ := List.mem_map.mp hmem
    exact List.mem_map_of_mem (f := fun v : PriceVersion × Price => v.2.toJson) hv

/-- A version is before an instant when its text is not after the text of the instant. -/
theorem not_isoformat_lt_iff {v : PriceVersion} {p : Price} (h : v.payload = .ok p)
    {micros : ℤ} (hmicros : OfDatetime micros) :
    ¬ isoformat micros < p.effectiveAt ↔ v.effectiveAt.micros ≤ micros := by
  rw [(PriceVersion.payload_spec h).1, isoformat_lt_iff hmicros v.effectiveAt.valid, not_lt]

/-- The prices that apply, as the code filters them. -/
def applicable (intent : CostIntent) (instant : ℤ) (prices : List Price) : List Price :=
  prices.filter fun price => price.provider = intent.provider ∧ price.model = intent.model ∧
    ¬ isoformat instant < price.effectiveAt

theorem Registry.mem_applicable (h : Registry s versions) (hat : OfDatetime instant)
    {currency category : String} {p : Price} :
    (p ∈ applicable intent instant (versions.map Prod.snd) ∧ p.IsFor currency category) ↔
      ∃ v, Applies s intent instant currency category v p := by
  rw [applicable, List.mem_filter]
  simp only [decide_eq_true_eq]
  constructor
  · rintro ⟨⟨hmem, hprovider, hmodel, htime⟩, hfor⟩
    obtain ⟨v, hv, rfl⟩ := List.mem_map.mp hmem
    have haccepted := h.accepted v hv
    exact ⟨v.1, haccepted, h.mem_iff.mpr hmem, hprovider, hmodel, hfor,
      (not_isoformat_lt_iff haccepted hat).mp htime⟩
  · rintro ⟨v, happlies⟩
    exact ⟨⟨h.mem_iff.mp happlies.registered, happlies.provider, happlies.model,
      (not_isoformat_lt_iff happlies.accepted hat).mpr happlies.effective⟩, happlies.isFor⟩

/-- No two versions are for the same thing and time. -/
theorem Registry.unique (h : Registry s versions) {p q : Price} (hp : p ∈ versions.map Prod.snd)
    (hq : q ∈ versions.map Prod.snd) (hslot : p.sameSlot q) : p = q := by
  obtain ⟨v, hv, rfl⟩ := List.mem_map.mp hp
  obtain ⟨w, hw, rfl⟩ := List.mem_map.mp hq
  obtain ⟨h1, h2, h3, h4, h5⟩ := hslot
  rcases Sequence.pairwise_trichotomy h.distinct hv hw with rfl | hne | hne
  · rfl
  · exact absurd ⟨h1, h2, h3, h4, h5⟩ hne
  · exact absurd ⟨h1.symm, h2.symm, h3.symm, h4.symm, h5.symm⟩ hne

/-- The rate that the code finds is the chosen one. -/
theorem Registry.rateOf_iff (h : Registry s versions) (hat : OfDatetime instant)
    {currency category : String} {p : Price} :
    rateOf (effectiveRates intent (isoformat instant) (versions.map Prod.snd)) currency category =
      some p ↔ Chosen s intent instant currency category p := by
  obtain ⟨hlatest, hsome⟩ :=
    rateOf_foldl (applicable intent instant (versions.map Prod.snd)) currency category
  have hlater {v w : PriceVersion} {p q : Price} (hv : v.payload = .ok p) (hw : w.payload = .ok q) :
      ¬ p.effectiveAt < q.effectiveAt ↔ w.effectiveAt.micros ≤ v.effectiveAt.micros := by
    rw [(PriceVersion.payload_spec hv).1, (PriceVersion.payload_spec hw).1,
      isoformat_lt_iff v.effectiveAt.valid w.effectiveAt.valid, not_lt]
  constructor
  · intro hrate
    obtain ⟨hmem, hfor, hall⟩ := hlatest p hrate
    obtain ⟨v, hv⟩ := (h.mem_applicable hat).mp ⟨hmem, hfor⟩
    refine ⟨v, hv, fun w q hw => ?_⟩
    obtain ⟨hmem', hfor'⟩ := (h.mem_applicable hat).mpr ⟨w, hw⟩
    exact (hlater hv.accepted hw.accepted).mp (hall q hmem' hfor')
  · rintro ⟨v, hv, hall⟩
    obtain ⟨hmem, hfor⟩ := (h.mem_applicable hat).mpr ⟨v, hv⟩
    obtain ⟨q, hq⟩ := Option.isSome_iff_exists.mp (hsome ⟨p, hmem, hfor⟩)
    obtain ⟨hmem', hfor', hall'⟩ := hlatest q hq
    obtain ⟨w, hw⟩ := (h.mem_applicable hat).mp ⟨hmem', hfor'⟩
    have hle := hall w q hw
    have hge := (hlater hw.accepted hv.accepted).mp (hall' p hmem hfor)
    have htime : p.effectiveAt = q.effectiveAt := by
      rw [(PriceVersion.payload_spec hv.accepted).1, (PriceVersion.payload_spec hw.accepted).1,
        le_antisymm hge hle]
    have hsame : p.sameSlot q := ⟨hv.provider.trans hw.provider.symm, hv.model.trans hw.model.symm,
      hfor.2.trans hfor'.2.symm, hfor.1.trans hfor'.1.symm, htime⟩
    rw [h.unique (h.mem_iff.mp hv.registered) (h.mem_iff.mp hw.registered) hsame]
    exact hq

end Selection

/-! ## Estimates -/

/-- What an estimate in one currency says, at the chosen rates. -/
structure CurrencyEstimate.Sound (s : RuntimeStore) (intent : CostIntent) (instant : ℤ)
    (currency : String) (usage : Dict String ℕ) (totals : List String)
    (found : CurrencyEstimate) : Prop where
  priced : ∃ rates : Dict String Price, Priced usage rates totals found.lines
      found.unknownCategories ∧
    ∀ category p, rates.get? category = some p ↔ Chosen s intent instant currency category p
  amounts : ∀ line ∈ found.lines, ∃ price amount,
    parseDecimal line.pricePerMillion = some (.finite price) ∧
    parseDecimal line.amount = some (.finite amount) ∧
    (line.quantity < 10 ^ 19 → amount.value = price.value * line.quantity / 10 ^ 6)
  incomplete : ∀ t ∈ priceTotals, t.1 ∈ totals →
    (∀ p, ¬ Chosen s intent instant currency t.1 p) → found.complete = false

/-- What an estimate says. -/
structure CostEstimate.Sound (s : RuntimeStore) (intent : CostIntent) (instant : ℤ)
    (usage : Dict String ℕ) (basis : String) (result : CostEstimate) : Prop where
  currency : ∀ currency, (∃ found, (currency, found) ∈ result.estimates) ↔
    ∃ category v p, Applies s intent instant currency category v p
  sound : ∀ currency found, (currency, found) ∈ result.estimates →
    ∃ totals, usageTotalFields (.str basis) = .ok totals ∧
      found.Sound s intent instant currency usage totals
  complete : result.complete = true ↔
    result.estimates ≠ [] ∧ ∀ e ∈ result.estimates, e.2.complete = true

theorem costLine_sound {rate : Price} {v : PriceVersion} {line : CostLine}
    (hrate : v.payload = .ok rate) (h : costLine rate line.category line.quantity = .ok line) :
    ∃ price amount, parseDecimal line.pricePerMillion = some (.finite price) ∧
      parseDecimal line.amount = some (.finite amount) ∧
      (line.quantity < 10 ^ 19 → amount.value = price.value * line.quantity / 10 ^ 6) := by
  obtain ⟨-, price, hprice, htext⟩ := PriceVersion.payload_spec hrate
  simp only [costLine, bind_eq_ok, pure_eq_ok, Except.ok.injEq] at h
  obtain ⟨amount, hamount, hline⟩ := h
  have hper : line.pricePerMillion = decimalText price := by
    rw [← hline]
    exact htext
  have hwritten : line.amount = decimalText amount := by rw [← hline]
  refine ⟨price, amount, ?_, ?_, fun hquantity => ?_⟩
  · rw [hper, parseDecimal_decimalText hprice.readable]
  · rw [hwritten, parseDecimal_decimalText (lineAmount_readable hamount)]
  · obtain ⟨found, hfound, hvalue⟩ := lineAmount_exact hprice hquantity
    rw [htext, hfound] at hamount
    obtain rfl := Except.ok.inj hamount
    exact hvalue

theorem estimateCurrency_sound {s : RuntimeStore} {intent : CostIntent} {instant : ℤ}
    {currency : String} {usage : Dict String ℕ} {basis : String} {rates : Dict String Price}
    {found : CurrencyEstimate}
    (hrates : ∀ category p, rates.get? category = some p ↔
      Chosen s intent instant currency category p)
    (h : estimateCurrency usage basis rates = .ok found) :
    ∃ totals, usageTotalFields (.str basis) = .ok totals ∧
      found.Sound s intent instant currency usage totals := by
  simp only [estimateCurrency, bind_eq_ok, pure_eq_ok, Except.ok.injEq] at h
  obtain ⟨⟨lines, unknown⟩, hlines, amount, -, rfl⟩ := h
  obtain ⟨totals, htotals, hpriced⟩ := priceLines_priced hlines
  refine ⟨totals, htotals, ⟨rates, hpriced, hrates⟩, fun line hline => ?_, ?_⟩
  · obtain ⟨rate, hrate, hcost⟩ := hpriced.rate line hline
    obtain ⟨v, hv, -⟩ := (hrates _ _).mp hrate
    exact costLine_sound hv.accepted hcost
  · intro t ht htotal hnone
    have hmissing : t.1 ∈ unknown := by
      apply hpriced.missing ht htotal
      apply Option.eq_none_iff_forall_ne_some.mpr
      intro p hp
      exact hnone p ((hrates _ _).mp hp)
    have hne : unknown ≠ [] := List.ne_nil_of_mem hmissing
    exact decide_eq_false hne

theorem estimate_sound {s : RuntimeStore} {versions : List (PriceVersion × Price)}
    (hregistry : Registry s versions) {intent : CostIntent} {sessionId : String}
    {reservation : Reservation} {settlement : Option Settlement} {instant : ℤ}
    (hat : OfDatetime instant) (htime : reservation.reservedAt = isoformat instant)
    {result : CostEstimate}
    (h : estimate intent sessionId reservation settlement (versions.map Prod.snd) = .ok result) :
    result.Sound s intent instant ((settlement.map (·.usage)).getD Dict.empty)
      reservation.basis := by
  simp only [estimate, bind_eq_ok, pure_eq_ok, Except.ok.injEq, htime] at h
  obtain ⟨estimates, hestimates, rfl⟩ := h
  generalize hcurrencies : effectiveRates intent (isoformat instant) (versions.map Prod.snd) =
    currencies at hestimates
  have hrate (currency category : String) (p : Price) :
      rateOf currencies currency category = some p ↔ Chosen s intent instant currency category p := by
    rw [← hcurrencies]
    exact hregistry.rateOf_iff hat
  constructor
  · intro currency
    have hkey : (∃ found, (currency, found) ∈ estimates) ↔
        (currencies.get? currency).isSome := by
      constructor
      · rintro ⟨found, hfound⟩
        obtain ⟨c, hc, hpair⟩ := mem_of_mapM hestimates hfound
        simp only [bind_eq_ok, Except.ok.injEq, Prod.mk.injEq] at hpair
        obtain ⟨_, -, rfl, -⟩ := hpair
        exact Option.isSome_iff_exists.mpr ⟨c.2, Dict.mem_entries.mp hc⟩
      · intro hsome
        obtain ⟨rates, hrates⟩ := Option.isSome_iff_exists.mp hsome
        obtain ⟨found, hfound, hpair⟩ := mapM_mem hestimates (Dict.mem_entries.mpr hrates)
        simp only [bind_eq_ok, Except.ok.injEq] at hpair
        obtain ⟨_, -, rfl⟩ := hpair
        exact ⟨_, hfound⟩
    rw [hkey, ← hcurrencies]
    refine (currency_foldl (applicable intent instant (versions.map Prod.snd)) currency).trans ?_
    constructor
    · rintro ⟨p, hp, hcurrency⟩
      obtain ⟨v, hv⟩ := (hregistry.mem_applicable hat).mp ⟨hp, hcurrency, rfl⟩
      exact ⟨_, v, p, hv⟩
    · rintro ⟨category, v, p, hv⟩
      obtain ⟨hp, hfor⟩ := (hregistry.mem_applicable hat).mpr ⟨v, hv⟩
      exact ⟨p, hp, hfor.1⟩
  · intro currency found hfound
    obtain ⟨c, hc, hpair⟩ := mem_of_mapM hestimates hfound
    simp only [bind_eq_ok, Except.ok.injEq, Prod.mk.injEq] at hpair
    obtain ⟨found', hestimate, rfl, rfl⟩ := hpair
    refine estimateCurrency_sound (fun category p => ?_) hestimate
    rw [← hrate, rateOf, Dict.mem_entries.mp hc, Option.bind_some]
  · simp [Bool.and_eq_true, List.all_eq_true]

/-! ## Replies -/

/-- The facts of one kind are those among several kinds. -/
theorem payloads_factsByType {α : Type} {decode : Json → Except PyError α} {s : RuntimeStore}
    {kind : EventType} {kinds : List EventType} (hkind : kind ∈ kinds) :
    payloads kind decode (s.factsByType kinds) =
      (s.factsByType [kind]).mapM fun e => decode e.payload := by
  have hsub := @factsByType_sub s [kind] kinds fun k hk => List.mem_singleton.mp hk ▸ hkind
  simp only [List.mem_singleton] at hsub
  rw [payloads, hsub]

theorem mapM_payload {α : Type} {decode : Json → Except PyError α} {encode : α → Json}
    (hdecode : ∀ a, decode (encode a) = .ok a) {events : List Event} {values : List α}
    (h : events.map (·.payload) = values.map encode) :
    (events.mapM fun e => decode e.payload) = .ok values := by
  induction events generalizing values with
  | nil =>
    obtain rfl : values = [] := by simpa using h
    rfl
  | cons e events ih =>
    cases values with
    | nil => cases h
    | cons value values =>
      obtain ⟨he, hrest⟩ := List.cons.inj h
      have hvalue : decode e.payload = .ok value := by
        rw [show e.payload = encode value from he, hdecode]
      rw [List.mapM_cons, hvalue, ok_bind, ih hrest]
      rfl

theorem Registry.decoded {s : RuntimeStore} {versions : List (PriceVersion × Price)}
    (h : Registry s versions) :
    payloads .priceRegistered Price.ofJson (s.factsByType (priceFacts ++ budgetFacts)) =
      .ok (versions.map Prod.snd) := by
  rw [payloads_factsByType (by decide)]
  apply mapM_payload Price.ofJson_toJson
  rw [h.prices, List.map_map]
  rfl

/-- A decoded reservation was checked, and names the instant that it was made at. -/
theorem Registry.reservedAt {s : RuntimeStore} {versions : List (PriceVersion × Price)}
    (h : Registry s versions) {e : Event} (he : e ∈ s.factsByType [.budgetReserved])
    {r : Reservation} (hr : Reservation.ofJson e.payload = .ok r) :
    ∃ instant, OfDatetime instant ∧ r.reservedAt = isoformat instant := by
  obtain ⟨args, now, written, hwritten, hpayload⟩ := h.reserved e he
  rw [hpayload, Reservation.ofJson_toJson] at hr
  obtain rfl := Except.ok.inj hr
  exact ReserveArgs.payload_reservedAt hwritten

/-- An estimate is on record already, or it is a new one. -/
theorem decideEstimate_cases {intent : CostIntent} {sessionId : String} {events : List Event}
    {reply : Json} {additions : List (EventType × Json)}
    (h : CostLedger.decideEstimate intent sessionId events = .ok (reply, additions)) :
    (additions = [] ∧ ∃ e ∈ events, e.type = .costEstimated ∧ e.payload = reply ∧
      CostIntent.ofJson reply = .ok intent) ∨
    ∃ reservations reservation settlements prices result,
      payloads .budgetReserved Reservation.ofJson events = .ok reservations ∧
      (reservations.find? fun r => r.attemptId = intent.attemptId) = some reservation ∧
      payloads .budgetSettled Settlement.ofJson events = .ok settlements ∧
      payloads .priceRegistered Price.ofJson events = .ok prices ∧
      estimate intent sessionId reservation
        (settlements.filter fun p => p.attemptId = intent.attemptId).getLast? prices = .ok result ∧
      reply = result.toJson ∧ additions = [(.costEstimated, result.toJson)] := by
  rw [CostLedger.decideEstimate] at h
  obtain ⟨reservations, hreservations, h⟩ := bind_eq_ok.mp h
  split at h
  · cases h
  rename_i reservation hreservation
  obtain ⟨_, -, h⟩ := bind_eq_ok.mp h
  obtain ⟨prior, hprior, h⟩ := bind_eq_ok.mp h
  split at h
  · rename_i old hold
    obtain ⟨_, hsame, h⟩ := bind_eq_ok.mp h
    obtain ⟨rfl, rfl⟩ := Prod.mk.inj (Except.ok.inj h)
    have hintent : old.1 = intent := by simpa using raiseIf_eq_ok.mp hsame
    obtain ⟨e, he, hpair⟩ := mem_of_mapM hprior (List.mem_of_find?_eq_some hold)
    obtain ⟨hmem, hkind⟩ := List.mem_filter.mp he
    obtain ⟨found, hfound, hpair⟩ := bind_eq_ok.mp hpair
    obtain rfl := Except.ok.inj hpair
    refine .inl ⟨rfl, e, hmem, of_decide_eq_true hkind, rfl, ?_⟩
    rw [← hintent]
    exact hfound
  · obtain ⟨_, -, h⟩ := bind_eq_ok.mp h
    obtain ⟨settlements, hsettlements, h⟩ := bind_eq_ok.mp h
    obtain ⟨prices, hprices, h⟩ := bind_eq_ok.mp h
    obtain ⟨result, hresult, h⟩ := bind_eq_ok.mp h
    obtain ⟨rfl, rfl⟩ := Prod.mk.inj (Except.ok.inj h)
    exact .inr ⟨reservations, reservation, settlements, prices, result, hreservations,
      hreservation, hsettlements, hprices, hresult, rfl, rfl⟩

/-- What a new estimate is made from. -/
structure EstimateInput (s : RuntimeStore) (intent : CostIntent) (reservation : Reservation)
    (settlement : Option Settlement) (instant : ℤ) : Prop where
  reserved : ∃ e ∈ s.factsByType [.budgetReserved], Reservation.ofJson e.payload = .ok reservation
  attempt : reservation.attemptId = intent.attemptId
  settled : ∃ settlements,
    ((s.factsByType [.budgetSettled]).mapM fun e => Settlement.ofJson e.payload) = .ok settlements ∧
    settlement = (settlements.filter fun p => p.attemptId = intent.attemptId).getLast?
  instant : OfDatetime instant ∧ reservation.reservedAt = isoformat instant

/-- An estimate is the one on record, or a sound one of the reserved attempt. -/
theorem estimateCost_sound {s t : RuntimeStore} {env : Env} {sessionId : String}
    {intent : CostIntent} {reply : Json} (h : PriceReachable s)
    (hcall : CostLedger.estimateCost s env sessionId intent = (.ok reply, t)) :
    (t = s ∧ ∃ e ∈ s.factsByType [.costEstimated], e.payload = reply ∧
      CostIntent.ofJson reply = .ok intent) ∨
    ∃ (reservation : Reservation) (settlement : Option Settlement) (instant : ℤ)
      (result : CostEstimate),
      EstimateInput s intent reservation settlement instant ∧ reply = result.toJson ∧
      result.Sound s intent instant ((settlement.map (·.usage)).getD Dict.empty)
        reservation.basis := by
  obtain ⟨versions, hregistry⟩ := h.registry
  rw [CostLedger.estimateCost] at hcall
  split at hcall
  · cases hcall
  obtain ⟨additions, rows, hdecide, rfl, hrows⟩ := transactFacts_ok hcall fun additions hdecide => by
    rcases decideEstimate_cases hdecide with ⟨rfl, -⟩ | ⟨_, _, _, _, _, -, -, -, -, -, -, rfl⟩ <;>
      simp [EventType.isTerminal]
  rcases decideEstimate_cases hdecide with ⟨rfl, e, he, hkind, hpayload, hintent⟩ |
    ⟨reservations, reservation, settlements, prices, result, hreservations, hfind, hsettlements,
      hprices, hresult, rfl, -⟩
  · cases hrows
    refine .inl ⟨by simp, e, ?_, hpayload, hintent⟩
    have hsub := @factsByType_sub s [.costEstimated] (priceFacts ++ budgetFacts) (by decide)
    rw [hsub]
    exact List.mem_filter.mpr ⟨he, by simp [hkind]⟩
  · rw [payloads_factsByType (by decide)] at hreservations hsettlements
    rw [hregistry.decoded] at hprices
    obtain rfl := Except.ok.inj hprices
    obtain ⟨e, he, hdecoded⟩ := mem_of_mapM hreservations (List.mem_of_find?_eq_some hfind)
    obtain ⟨instant, hat, htime⟩ := hregistry.reservedAt he hdecoded
    have hattempt : reservation.attemptId = intent.attemptId := by
      simpa using List.find?_some hfind
    exact .inr ⟨reservation, _, instant, result,
      ⟨⟨e, he, hdecoded⟩, hattempt, ⟨settlements, hsettlements, rfl⟩, hat, htime⟩, rfl,
      estimate_sound hregistry hat htime hresult⟩

/-- A version for the sample, from one of two instants on. -/
def samplePrice (versionId category pricePerMillion : String) (later : Bool) : PriceVersion where
  versionId := versionId
  provider := "scripted"
  model := "m"
  category := category
  currency := "EUR"
  pricePerMillion := pricePerMillion
  effectiveAt := if later then ⟨⟨1, true⟩, by decide⟩ else ⟨⟨0, true⟩, by decide⟩

/-- The prices of the input and of what a cache reads of it, and a price after the attempt. -/
def pricedStore : RuntimeStore :=
  let first := (CostLedger.registerPrice ledgerStore (plainEnv 'b') "s"
    (samplePrice "v" "input_tokens" "2.50" false)).2
  let second := (CostLedger.registerPrice first (plainEnv 'c') "s"
    (samplePrice "w" "cache_read_input_tokens" "0.25" false)).2
  (CostLedger.registerPrice second (plainEnv 'd') "s" (samplePrice "x" "input_tokens" "5" true)).2

/-- The store when the attempt has been reserved and settled. -/
def chargedStore : RuntimeStore :=
  let reserved := (reserveAttempt.perform pricedStore (contextOf 'e')).2
  (settleAttempt.perform reserved (contextOf 'f')).2

def chargedIntent : CostIntent := ⟨"attempt", "scripted", "m", "estimate", none⟩

theorem chargedStore_reachable : PriceReachable chargedStore := by
  refine ⟨ledgerStore, rfl, rfl, ?_⟩
  have hpriced : Relation.ReflTransGen PriceStep ledgerStore pricedStore :=
    ((Relation.ReflTransGen.single (.register (plainEnv 'b') "s" _)).tail
      (.register (plainEnv 'c') "s" _)).tail (.register (plainEnv 'd') "s" _)
  exact (hpriced.tail (.call _ reserveAttempt)).tail (.call _ settleAttempt)

/-- The category, the quantity and the amount of each line in a currency. -/
def linesOf (reply : Json) (currency : String) : List (Option String × Option ℕ × Option String) :=
  ((((reply.getNull "estimates").getNull currency).getNull "lines").arr?.getD []).map fun line =>
    ((line.get? "category").bind Json.str?, (line.get? "quantity").bind Json.count?,
      (line.get? "amount").bind Json.str?)

/-- Of three tokens one came out of the cache; the output has no price. -/
def chargedLines : List (Option String × Option ℕ × Option String) :=
  [(some "cache_read_input_tokens", some 1, some "2.5E-7"),
    (some "input_tokens", some 2, some "0.000005")]

theorem estimateCost_sound_charged : ∃ reply t,
    CostLedger.estimateCost chargedStore (plainEnv 'g') "s" chargedIntent = (.ok reply, t) ∧
    linesOf reply "EUR" = chargedLines ∧
    ∃ (reservation : Reservation) (settlement : Option Settlement) (instant : ℤ)
      (result : CostEstimate),
      EstimateInput chargedStore chargedIntent reservation settlement instant ∧
      reply = result.toJson ∧
      result.Sound chargedStore chargedIntent instant
        ((settlement.map (·.usage)).getD Dict.empty) reservation.basis := by
  have hlines : ((CostLedger.estimateCost chargedStore (plainEnv 'g') "s"
      chargedIntent).1.toOption.map fun reply => linesOf reply "EUR") = some chargedLines := by
    decide +kernel
  obtain ⟨reply, hcall⟩ := eq_ok_of_isSome (Option.isSome_map.symm.trans (by rw [hlines]; rfl))
  rw [hcall] at hlines
  refine ⟨reply, _, hcall, Option.some.inj hlines, ?_⟩
  rcases estimateCost_sound chargedStore_reachable hcall with ⟨-, e, he, -⟩ | hsound
  · have hnone : (chargedStore.factsByType [.costEstimated]).isEmpty = true := by
      decide +kernel
    rw [List.isEmpty_iff.mp hnone] at he
    cases he
  · exact hsound

end Eventide
