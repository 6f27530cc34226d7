import Eventide.Verification.Budget.Replay
import Eventide.Verification.Budget.Scopes
import Eventide.Verification.Prices.Time

/-! # The prices that are registered

In every log that the ledgers build, the price facts are accepted versions, no two of them for the
same thing and time, and every reservation names the instant that it was made at. -/

namespace Eventide

open Outcome RuntimeStore

theorem Price.ofJson_toJson (p : Price) : Price.ofJson p.toJson = .ok p := by
  simp [Price.ofJson, Price.toJson, Json.readField, Json.require, List.lookup_cons, Json.str?]

/-! ## Days -/

theorem takeWhile_year {year : List Char} (h : ∀ c ∈ year, c.isDigit = true) (rest : List Char) :
    (year ++ '-' :: rest).takeWhile Char.isDigit = year := by
  have hmark : ('-' :: rest).takeWhile Char.isDigit = [] := rfl
  rw [List.takeWhile_append_of_pos h, hmark, List.append_nil]

/-- A day that `strftime` writes back has a year of four digits. -/
theorem ofDatetime_of_validDay {micros : ℤ} (h : validDay (utcDay micros) = true) :
    OfDatetime micros := by
  rw [OfDatetime]
  generalize hdate : civilDate (micros / microsPerDay) = date
  obtain ⟨year, month, day⟩ := date
  have htext : (utcDay micros).toList =
      (toString year).toList ++ '-' :: ((pad 2 month).toList ++ '-' :: (pad 2 day).toList) := by
    have hself (text : String) : toString text = text := rfl
    have hdash : "-".toList = ['-'] := rfl
    simp only [utcDay, hdate, String.toList_append, hself, hdash, List.append_assoc,
      List.nil_append, List.cons_append]
  unfold validDay at h
  split at h
  · rename_i y1 y2 y3 y4 m1 m2 d1 d2 hlist
    simp only [List.all_cons, Bool.and_eq_true, decide_eq_true_eq] at h
    obtain ⟨⟨⟨⟨⟨⟨hy1, hy2, hy3, hy4, -⟩, hyear⟩, -⟩, -⟩, -⟩, -⟩ := h
    have hdigits : ∀ c ∈ [y1, y2, y3, y4], c.isDigit = true := by simp [hy1, hy2, hy3, hy4]
    have hnumber : 1000 ≤ Digits.number [y1, y2, y3, y4] := by
      rw [Digits.number, Nat.ofDigitChars_eq_foldl]
      exact hyear
    rw [htext] at hlist
    cases year with
    | ofNat n =>
      have hn : (toString (Int.ofNat n)).toList = Nat.toDigits 10 n := Nat.toList_repr
      have hcut := congrArg (List.takeWhile Char.isDigit) hlist
      rw [hn, takeWhile_year (Digits.isDigit_toDigits n)] at hcut
      have hfour := takeWhile_year hdigits [m1, m2, '-', d1, d2]
      have heq : Nat.toDigits 10 n = [y1, y2, y3, y4] := hcut.trans hfour
      have hlt := Digits.number_lt hdigits
      rw [← heq, Digits.number_toDigits] at hnumber hlt
      rw [heq] at hlt
      simp only [Int.ofNat_eq_natCast, List.length_cons, List.length_nil] at hlt ⊢
      omega
    | negSucc n =>
      have hsign : (toString (Int.negSucc n)).toList = '-' :: (toString (n + 1)).toList := by
        simp [toString, Int.repr, String.toList_append]
      rw [hsign] at hlist
      obtain ⟨rfl, -⟩ := List.cons.inj hlist
      cases hy1
  · cases h

/-- A reservation names the instant that it was made at. -/
theorem ReserveArgs.payload_reservedAt {args : ReserveArgs} {now : Instant} {r : Reservation}
    (h : args.payload now = .ok r) : ∃ micros, OfDatetime micros ∧ r.reservedAt = isoformat micros := by
  simp only [ReserveArgs.payload, bind_eq_ok, pure_eq_ok, Except.ok.injEq] at h
  obtain ⟨micros, _, request, _, scopes, hs, rfl⟩ := h
  simp only [ContextRecord.scopes, bind_eq_ok, pure_eq_ok, Except.ok.injEq] at hs
  obtain ⟨_, -, _, -, _, -, _, -, day, hday, -⟩ := hs
  refine ⟨micros, ofDatetime_of_validDay ?_, rfl⟩
  simp only [scopeRecord, bind_eq_ok, raiseIf_eq_ok, pure_eq_ok, true_and, Bool.not_eq_true',
    Bool.not_eq_false] at hday
  obtain ⟨_, -, _, hvalid, -⟩ := hday
  exact hvalid

/-! ## What the ledgers write -/

/-- A reservation that a log holds was checked. -/
def ReservedWith (payload : Json) : Prop :=
  ∃ (args : ReserveArgs) (now : Instant) (r : Reservation),
    args.payload now = .ok r ∧ payload = r.toJson

/-- A call of the budget ledger writes no price, and only checked reservations. -/
theorem LedgerCall.additions_written {s : RuntimeStore} {now : Instant} {call : LedgerCall}
    {reply : LedgerReply} {st held : BudgetState} {additions : List (EventType × Json)}
    {choose : List Event → Except PyError ((LedgerReply × BudgetState) × List (EventType × Json))}
    (hst : budgetProjection (s.factsByType call.types) = .ok st)
    (hp : call.prepare s now = .ok choose)
    (h : choose (s.factsByType call.types) = .ok ((reply, held), additions)) :
    ∀ a ∈ additions, a.1 ≠ .priceRegistered ∧ (a.1 = .budgetReserved → ReservedWith a.2) := by
  have hrow (kind : EventType) (fact : Option Json) (hprice : kind ≠ .priceRegistered)
      (hreserved : kind ≠ .budgetReserved) : ∀ a ∈ modelRow kind fact,
      a.1 ≠ .priceRegistered ∧ (a.1 = .budgetReserved → ReservedWith a.2) := by
    intro a ha
    obtain ⟨f, -, rfl⟩ := List.mem_map.mp ha
    exact ⟨hprice, fun hkind => absurd hkind hreserved⟩
  cases call with
  | configure args =>
    obtain ⟨p, -, hp⟩ := bind_eq_ok.mp hp
    obtain rfl := Except.ok.inj hp
    obtain ⟨d, hd, -, -, rfl⟩ := Decision.map_pack h
    rcases decideConfigure_cases hst hd with ⟨-, rfl⟩ | ⟨-, rfl⟩ <;> simp
  | reserve args =>
    obtain ⟨r, hpay, hp⟩ := bind_eq_ok.mp hp
    obtain rfl := Except.ok.inj hp
    obtain ⟨d, hd, -, -, rfl⟩ := Decision.map_pack h
    rcases decideReserve_cases hst hd with ⟨_, -, -, -, -, rfl⟩ | ⟨-, -, -, rfl⟩
    · simp
    · refine List.forall_mem_cons.mpr ⟨⟨nofun, fun _ => ⟨args, now, r, hpay, rfl⟩⟩, ?_⟩
      exact hrow _ _ nofun nofun
  | settle args =>
    obtain ⟨observed, -, hp⟩ := bind_eq_ok.mp hp
    obtain rfl := Except.ok.inj hp
    obtain ⟨d, hd, -, -, rfl⟩ := Decision.map_pack h
    obtain ⟨item, p, -, -, hd⟩ := decideSettle_cases hst hd
    rcases hd with ⟨-, rfl⟩ | ⟨-, -, -, rfl⟩
    · simp
    · refine List.forall_mem_cons.mpr ⟨⟨nofun, nofun⟩, ?_⟩
      exact hrow _ _ nofun nofun
  | resolveUnknown args =>
    obtain ⟨p, -, hp⟩ := bind_eq_ok.mp hp
    obtain rfl := Except.ok.inj hp
    obtain ⟨d, hd, -, -, rfl⟩ := Decision.map_pack h
    obtain ⟨item, -, -, hd⟩ := decideResolve_cases hst hd
    rcases hd with ⟨-, rfl⟩ | ⟨-, -, rfl⟩ <;> simp

/-- A registered price is new in its slot, or on record already. -/
theorem decideRegister_cases {payload reply : Price} {events : List Event}
    {additions : List (EventType × Json)} {prices : List Price}
    (hprices : (events.filter fun e => e.type = .priceRegistered).map (·.payload) =
      prices.map Price.toJson)
    (h : CostLedger.decideRegister payload events = .ok (reply, additions)) :
    additions = [] ∨ additions = [(.priceRegistered, payload.toJson)] ∧
      ∀ old ∈ prices, ¬ old.sameSlot payload := by
  induction events generalizing prices with
  | nil =>
    obtain rfl : prices = [] := by simpa using hprices
    obtain ⟨-, rfl⟩ := Prod.mk.inj (Except.ok.inj h)
    exact .inr ⟨rfl, nofun⟩
  | cons e events ih =>
    rw [CostLedger.decideRegister] at h
    by_cases hkind : e.type = .priceRegistered
    · rw [List.filter_cons, if_pos (decide_eq_true hkind), List.map_cons] at hprices
      cases prices with
      | nil => cases hprices
      | cons old prices =>
        obtain ⟨hpayload, hrest⟩ := List.cons.inj hprices
        rw [if_neg (not_not_intro hkind), hpayload, Price.ofJson_toJson, ok_bind] at h
        split at h
        · simp only [bind_eq_ok, pure_eq_ok, Except.ok.injEq, Prod.mk.injEq] at h
          obtain ⟨_, -, -, rfl⟩ := h
          exact .inl rfl
        · obtain ⟨_, hslot, h⟩ := bind_eq_ok.mp h
          refine (ih hrest h).imp_right fun ⟨hadd, hold⟩ => ⟨hadd, ?_⟩
          exact List.forall_mem_cons.mpr ⟨raiseIf_eq_ok.mp hslot, hold⟩
    · rw [List.filter_cons, if_neg (by simpa using hkind)] at hprices
      rw [if_pos hkind] at h
      exact ih hprices h

theorem factsByType_sub {s : RuntimeStore} {kinds more : List EventType}
    (h : ∀ kind ∈ kinds, kind ∈ more) :
    s.factsByType kinds = (s.factsByType more).filter fun e => e.type ∈ kinds := by
  rw [factsByType, factsByType, List.filter_filter]
  apply List.filter_congr
  intro e _
  by_cases hkind : e.type ∈ kinds
  · simp [hkind, h _ hkind]
  · simp [hkind]

/-! ## Runs -/

/-- A step of the system: a transaction that writes no price and no budget fact, a call of the budget
ledger, or the registration of a price, accepted or not. -/
inductive PriceStep (s : RuntimeStore) : RuntimeStore → Prop
  | foreign {t : RuntimeStore} : Foreign s t →
      t.factsByType [.priceRegistered] = s.factsByType [.priceRegistered] → PriceStep s t
  | call (context : LedgerCall.Context) (call : LedgerCall) :
      PriceStep s (call.perform s context).2
  | register (env : Env) (sessionId : String) (price : PriceVersion) :
      PriceStep s (CostLedger.registerPrice s env sessionId price).2

/-- The stores that a run builds from one without prices and budget facts. -/
def PriceReachable (t : RuntimeStore) : Prop :=
  ∃ s : RuntimeStore, s.factsByType [.priceRegistered] = [] ∧ s.factsByType budgetFacts = [] ∧
    Relation.ReflTransGen PriceStep s t

/-- The prices and reservations of a log. -/
structure Registry (s : RuntimeStore) (versions : List (PriceVersion × Price)) : Prop where
  prices : (s.factsByType [.priceRegistered]).map (·.payload) = versions.map fun v => v.2.toJson
  accepted : ∀ v ∈ versions, v.1.payload = .ok v.2
  distinct : versions.Pairwise fun a b => ¬ a.2.sameSlot b.2
  reserved : ∀ e ∈ s.factsByType [.budgetReserved], ReservedWith e.payload

variable {s t : RuntimeStore} {versions : List (PriceVersion × Price)}

theorem Foreign.reserved (h : Foreign s t) :
    t.factsByType [.budgetReserved] = s.factsByType [.budgetReserved] := by
  have hkinds : ∀ kind ∈ [EventType.budgetReserved], kind ∈ budgetFacts := by decide
  rw [factsByType_sub hkinds, factsByType_sub hkinds, h.facts]

/-- What a registration did to the store. -/
theorem registerPrice_cases (hregistry : Registry s versions) (env : Env) (sessionId : String)
    (price : PriceVersion) :
    (CostLedger.registerPrice s env sessionId price).2 = s ∨
    ∃ (p : Price) (e : Event), price.payload = .ok p ∧ e.type = .priceRegistered ∧
      e.payload = p.toJson ∧ e.isPartial = false ∧
      (∀ v ∈ versions, ¬ v.2.sameSlot p) ∧
      (CostLedger.registerPrice s env sessionId price).2 = { s with events := s.events ++ [e] } := by
  rw [CostLedger.registerPrice]
  cases hpayload : price.payload with
  | error error => exact .inl rfl
  | ok p =>
    simp only
    generalize hrun : s.transactFacts env sessionId priceFacts (CostLedger.decideRegister p) "user" =
      result
    obtain ⟨reply, t⟩ := result
    cases reply with
    | error error => exact .inl (transactFacts_error hrun)
    | ok reply =>
      have hprices : ((s.factsByType priceFacts).filter fun e => e.type = .priceRegistered).map
          (·.payload) = (versions.map Prod.snd).map Price.toJson := by
        have hsub := @factsByType_sub s [.priceRegistered] priceFacts (by decide)
        simp only [List.mem_singleton] at hsub
        rw [← hsub, hregistry.prices, List.map_map]
        rfl
      obtain ⟨additions, rows, hchoose, rfl, hrows⟩ := transactFacts_ok hrun fun additions hchoose => by
        rcases decideRegister_cases hprices hchoose with rfl | ⟨rfl, -⟩ <;> simp [EventType.isTerminal]
      rcases decideRegister_cases hprices hchoose with rfl | ⟨rfl, hnew⟩
      · cases hrows
        simp
      · obtain ⟨e, rows, hadds, hnil, rfl⟩ := List.forall₂_cons_right_iff.mp hrows
        obtain rfl := List.forall₂_nil_right_iff.mp hnil
        refine .inr ⟨p, e, rfl, hadds.type_eq, hadds.payload_eq, hadds.isPartial_eq, ?_, rfl⟩
        intro v hv
        exact hnew v.2 (List.mem_map_of_mem hv)

theorem Registry.append (h : Registry s versions) {rows : List Event}
    (hprices : ∀ e ∈ rows, e.type ≠ .priceRegistered)
    (hreserved : ∀ e ∈ rows, e.type = .budgetReserved → ReservedWith e.payload) :
    Registry { s with events := s.events ++ rows } versions := by
  refine ⟨?_, h.accepted, h.distinct, fun e he => ?_⟩
  · have hnone : (rows.filter fun e => !e.isPartial ∧ e.type ∈ [EventType.priceRegistered]) = [] := by
      apply List.filter_eq_nil_iff.mpr
      intro e he
      simp [hprices e he]
    rw [factsByType_append, hnone, List.append_nil, h.prices]
  · rw [factsByType_append] at he
    rcases List.mem_append.mp he with he | he
    · exact h.reserved e he
    · obtain ⟨hmem, hkind⟩ := List.mem_filter.mp he
      simp only [List.mem_singleton, decide_eq_true_eq] at hkind
      exact hreserved e hmem hkind.2

/-- A step keeps the registry, with one version more after a registration. -/
theorem PriceStep.registry {st : BudgetState} (hst : Rebuilds s st) (k : PriceStep s t)
    (h : Registry s versions) : ∃ later, Registry t later := by
  cases k with
  | foreign hf hprices =>
    refine ⟨versions, ?_, h.accepted, h.distinct, ?_⟩
    · rw [hprices, h.prices]
    · rw [hf.reserved]
      exact h.reserved
  | call context call =>
    generalize hperform : call.perform s context = result
    obtain ⟨reply, t⟩ := result
    cases reply with
    | error error =>
      obtain rfl := LedgerCall.perform_error hperform
      exact ⟨versions, h⟩
    | ok reply =>
      obtain ⟨reply, held⟩ := reply
      obtain ⟨rebuilt, additions, rows, hperf⟩ := LedgerCall.perform_ok hst.1 hst.2 hperform
      obtain ⟨choose, hprepare, hchoose⟩ := hperf.decided
      have hwritten := LedgerCall.additions_written hperf.projected hprepare hchoose
      have hrow : ∀ e ∈ rows, e.type ≠ .priceRegistered ∧
          (e.type = .budgetReserved → ReservedWith e.payload) := by
        intro e he
        obtain ⟨a, ha, hadds⟩ := Sequence.mem_of_forall₂ hperf.adds he
        rw [hadds.type_eq, hadds.payload_eq]
        exact hwritten a ha
      refine ⟨versions, ?_⟩
      rw [hperf.log]
      exact h.append (fun e he => (hrow e he).1) fun e he => (hrow e he).2
  | register env sessionId price =>
    rcases registerPrice_cases h env sessionId price with heq | ⟨p, e, hp, hkind, hpayload, hwhole, hnew, heq⟩
    · rw [heq]
      exact ⟨versions, h⟩
    · rw [heq]
      refine ⟨versions ++ [(price, p)], ?_, ?_, ?_, ?_⟩
      · have hrow : ([e].filter fun e => !e.isPartial ∧ e.type ∈ [EventType.priceRegistered]) =
            [e] := by
          simp [hkind, hwhole]
        rw [factsByType_append, hrow, List.map_append, List.map_append, h.prices, List.map_singleton,
          List.map_singleton, hpayload]
      · intro v hv
        rcases List.mem_append.mp hv with hv | hv
        · exact h.accepted v hv
        · rw [List.mem_singleton.mp hv]
          exact hp
      · refine List.pairwise_append.mpr ⟨h.distinct, List.pairwise_singleton _ _, ?_⟩
        intro a ha b hb
        rw [List.mem_singleton.mp hb]
        exact hnew a ha
      · have hrow : ([e].filter fun e => !e.isPartial ∧ e.type ∈ [EventType.budgetReserved]) = [] := by
          simp [hkind]
        rw [factsByType_append, hrow, List.append_nil]
        exact h.reserved

/-- For the budget ledger, the registration of a price is a foreign transaction. -/
theorem PriceStep.budgetStep (k : PriceStep s t) (h : Registry s versions) : BudgetStep s t := by
  cases k with
  | foreign hf hprices => exact .foreign hf
  | call context call => exact .call context call
  | register env sessionId price =>
    apply BudgetStep.foreign
    rcases registerPrice_cases h env sessionId price with heq | ⟨p, e, -, hkind, -, -, -, heq⟩
    · rw [heq]
      exact ⟨List.prefix_rfl, rfl, fun _ hs => hs⟩
    · rw [heq]
      refine ⟨List.prefix_append _ _, ?_, fun _ hs => hs⟩
      have hrow : ([e].filter fun e => !e.isPartial ∧ e.type ∈ budgetFacts) = [] := by
        simp [hkind, budgetFacts]
      rw [factsByType_append, hrow, List.append_nil]

/-- Every reachable store has a registry. -/
theorem PriceReachable.registry (h : PriceReachable t) : ∃ versions, Registry t versions := by
  obtain ⟨origin, hprices, hbudget, hrun⟩ := h
  have hall : BudgetRun origin t ∧ ∃ versions, Registry t versions := by
    induction hrun with
    | refl =>
      refine ⟨.refl, [], by rw [hprices]; rfl, (fun _ hv => nomatch hv), .nil, fun e he => ?_⟩
      have hsub := @factsByType_sub origin [.budgetReserved] budgetFacts (by decide)
      rw [hsub, hbudget] at he
      cases he
    | tail _ hstep ih =>
      obtain ⟨hrun, versions, hregistry⟩ := ih
      obtain ⟨st, hst⟩ := BudgetReachable.rebuilds ⟨origin, hbudget, hrun⟩
      exact ⟨hrun.tail (hstep.budgetStep hregistry), hstep.registry hst hregistry⟩
  exact hall.2

end Eventide
