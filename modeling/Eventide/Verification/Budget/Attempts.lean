import Eventide.Model.ModelBudget
import Eventide.Verification.Budget.Replay

/-! # What a call of the ledger does to an attempt -/

namespace Eventide

open Outcome RuntimeStore

theorem Json.eq_str_of_pyEq {value : Json} {text : String} (h : value.pyEq (.str text) = true) :
    value = .str text := by
  cases value <;> simp_all [Json.pyEq, Json.numberEq, Json.number?]

theorem attemptIdOf_eq_some {payload : Json} {id : String} :
    attemptIdOf payload = some id ↔ payload.get? "attempt_id" = some (.str id) ∧ id ≠ "" := by
  unfold attemptIdOf
  split
  · rename_i text h
    rw [h]
    by_cases ht : text = ""
    · simp only [ht, if_true, Option.some.injEq, Json.str.injEq]
      constructor
      · intro hn
        cases hn
      · rintro ⟨rfl, hne⟩
        exact absurd rfl hne
    · simp only [ht, if_false, Option.some.injEq, Json.str.injEq]
      constructor
      · rintro rfl
        exact ⟨rfl, ht⟩
      · rintro ⟨rfl, -⟩
        rfl
  · rename_i hn
    constructor
    · intro h
      cases h
    · rintro ⟨h, -⟩
      exact absurd h (hn id)

/-- A fact that names a checked attempt. -/
theorem attemptIdOf_of_pyEq {payload : Json} {id : String} (hv : validText id = true)
    (h : (payload.getNull "attempt_id").pyEq (.str id) = true) : attemptIdOf payload = some id := by
  have heq := Json.eq_str_of_pyEq h
  unfold Json.getNull at heq
  refine attemptIdOf_eq_some.mpr ⟨?_, ?_⟩
  · cases hp : payload.get? "attempt_id" with
    | none =>
      rw [hp] at heq
      cases heq
    | some value =>
      rw [hp] at heq
      exact congrArg some heq
  · rintro rfl
    exact absurd hv (by decide)

/-! ## The arguments that name an attempt -/

theorem ReserveArgs.request_named {args : ReserveArgs} {r : Reservation}
    (h : args.request = .ok r) : validText args.attemptId = true ∧ validText args.runId = true ∧
      ∀ started, args.attemptStarted = some started →
        attemptIdOf started = some args.attemptId := by
  simp only [ReserveArgs.request, bind_eq_ok, pure_eq_ok, raiseIf_eq_ok] at h
  obtain ⟨a, ha, _, hid, _, _, _, _, _, _, runId, hr, -⟩ := h
  obtain ⟨hv, rfl⟩ := checkText_eq_ok.mp ha
  refine ⟨hv, (checkText_eq_ok.mp hr).1, fun started hs => attemptIdOf_of_pyEq hv ?_⟩
  simpa [hs] using hid

theorem ReserveArgs.payload_named {args : ReserveArgs} {now : Instant} {r : Reservation}
    (h : args.payload now = .ok r) : validText args.attemptId = true ∧
      validText args.runId = true ∧ ∀ started, args.attemptStarted = some started →
        attemptIdOf started = some args.attemptId := by
  simp only [ReserveArgs.payload, bind_eq_ok] at h
  obtain ⟨_, _, request, hr, -⟩ := h
  exact request_named hr

theorem SettleArgs.observed_named {args : SettleArgs} {observed : Dict String ℕ}
    (h : args.observed = .ok observed) : ∀ finished, args.attemptFinished = some finished →
      attemptIdOf finished = some args.attemptId := by
  simp only [SettleArgs.observed, bind_eq_ok, raiseIf_eq_ok, pure_eq_ok] at h
  obtain ⟨_, hid, _, _, _, _, _, _, a, ha, -⟩ := h
  intro finished hf
  refine attemptIdOf_of_pyEq (checkText_eq_ok.mp ha).1 ?_
  simp only [hf, Option.any_some, Bool.or_eq_true, not_or] at hid
  simpa using hid.2

/-! ## One case for each operation -/

/-- The reservations that an accepted call leaves of those it rebuilt, and what it appends. -/
inductive Touched (st : BudgetState) (now : Instant) :
    LedgerCall → Dict String BudgetItem → List (EventType × Json) → Prop
  | replay (call : LedgerCall) : Touched st now call st.reservations []
  | configured (args : ConfigureArgs) (p : Configured) :
      Touched st now (.configure args) st.reservations [(.budgetConfigured, p.toJson)]
  | reserved (args : ReserveArgs) (r : Reservation) (hpay : args.payload now = .ok r)
      (hn : st.reservations.get? args.attemptId = none) :
      Touched st now (.reserve args) (st.reservations.set args.attemptId { reservation := r })
        ((.budgetReserved, r.toJson) :: modelRow .modelAttemptStarted args.attemptStarted)
  | settled (args : SettleArgs) (observed : Dict String ℕ) (p : Settlement) (item : BudgetItem)
      (hobs : args.observed = .ok observed)
      (hi : st.reservations.get? args.attemptId = some item) (hf : args.Fits observed item p)
      (hn : item.resolution = none)
      (hprior : ∀ prior, item.settlement = some prior →
        prior.actualTokens = none ∧ p.actualTokens ≠ none) :
      Touched st now (.settle args)
        (st.reservations.set args.attemptId { item with settlement := some p })
        ((.budgetSettled, p.toJson) :: modelRow .modelAttemptFinished args.attemptFinished)
  | resolved (args : ResolveArgs) (p : Resolution) (item : BudgetItem)
      (hi : st.reservations.get? args.attemptId = some item) (hn : item.resolution = none) :
      Touched st now (.resolveUnknown args)
        (st.reservations.set args.attemptId { item with resolution := some p })
        [(.budgetResolved, p.toJson)]

theorem LedgerCall.touched {s : RuntimeStore} {st held : BudgetState} {events : List Event}
    {now : Instant} {call : LedgerCall} {reply : LedgerReply} {additions : List (EventType × Json)}
    {choose : List Event → Except PyError ((LedgerReply × BudgetState) × List (EventType × Json))}
    (hst : budgetProjection events = .ok st) (hp : call.prepare s now = .ok choose)
    (h : choose events = .ok ((reply, held), additions)) :
    Touched st now call held.reservations additions := by
  cases call with
  | configure args =>
    obtain ⟨payload, hpay, hp⟩ := bind_eq_ok.mp hp
    obtain rfl := Except.ok.inj hp
    obtain ⟨d, hd, rfl, rfl, rfl⟩ := Decision.map_pack h
    rcases decideConfigure_cases hst hd with ⟨-, rfl⟩ | ⟨-, rfl⟩
    · exact .replay _
    · exact .configured args payload
  | reserve args =>
    obtain ⟨payload, hpay, hp⟩ := bind_eq_ok.mp hp
    obtain rfl := Except.ok.inj hp
    obtain ⟨d, hd, rfl, rfl, rfl⟩ := Decision.map_pack h
    have hid := (ReserveArgs.payload_ok hpay).1
    rcases decideReserve_cases hst hd with ⟨item, -, -, -, -, rfl⟩ | ⟨hn, -, -, rfl⟩
    · exact .replay _
    · dsimp only
      rw [hid] at hn ⊢
      exact .reserved args payload hpay hn
  | settle args =>
    obtain ⟨observed, hobs, hp⟩ := bind_eq_ok.mp hp
    obtain rfl := Except.ok.inj hp
    obtain ⟨d, hd, rfl, rfl, rfl⟩ := Decision.map_pack h
    obtain ⟨item, payload, hi, hf, hd⟩ := decideSettle_cases hst hd
    rcases hd with ⟨-, rfl⟩ | ⟨-, hn, hprior, rfl⟩
    · exact .replay _
    · exact .settled args observed payload item hobs hi hf hn hprior
  | resolveUnknown args =>
    obtain ⟨payload, hpay, hp⟩ := bind_eq_ok.mp hp
    obtain rfl := Except.ok.inj hp
    obtain ⟨d, hd, rfl, rfl, rfl⟩ := Decision.map_pack h
    obtain ⟨item, hi, -, hd⟩ := decideResolve_cases hst hd
    rcases hd with ⟨-, rfl⟩ | ⟨hn, -, rfl⟩
    · exact .replay _
    · exact .resolved args payload item hi hn

theorem Performed.touched {s t : RuntimeStore} {now : Instant} {call : LedgerCall}
    {reply : LedgerReply} {st held rebuilt : BudgetState} {additions : List (EventType × Json)}
    {rows : List Event} (h : Performed s now call reply st held rebuilt additions rows t) :
    Touched st now call rebuilt.reservations additions := by
  obtain ⟨choose, hp, hc⟩ := h.decided
  rw [h.committed.reservations_eq]
  exact LedgerCall.touched h.projected hp hc

/-! ## Settled attempts -/

/-- A settlement that was seen is of an attempt that has one. -/
def BudgetState.Settled (st : BudgetState) : Prop :=
  ∀ p, st.seen (.settled p) = true →
    ∃ item, st.reservations.get? p.attemptId = some item ∧ item.settlement.isSome

theorem BudgetState.Settled.set {st : BudgetState} (h : st.Settled) {id : String}
    {item : BudgetItem} (item' : BudgetItem) (hi : st.reservations.get? id = some item)
    (hs : item.settlement.isSome → item'.settlement.isSome) {p : Settlement}
    (hp : st.seen (.settled p) = true) :
    ∃ found, (st.reservations.set id item').get? p.attemptId = some found ∧
      found.settlement.isSome := by
  obtain ⟨old, ho, hset⟩ := h p hp
  by_cases hid : p.attemptId = id
  · rw [hid, hi] at ho
    obtain rfl := Option.some.inj ho
    exact ⟨item', by simp [hid], hs hset⟩
  · exact ⟨old, by simp [hid, ho], hset⟩

theorem Committed.settled_rebuilt {st held rebuilt : BudgetState}
    {additions : List (EventType × Json)} (h : Committed st held rebuilt additions)
    (hs : st.Settled) : rebuilt.Settled := by
  intro q hq
  cases h with
  | replay => exact hs q hq
  | configured p hp => exact hs q hq
  | reserved r started hn =>
    obtain ⟨item, hi, hset⟩ := hs q hq
    have hne : q.attemptId ≠ r.attemptId := by
      intro he
      rw [he, hn] at hi
      cases hi
    exact ⟨item, by simp [hne, hi], hset⟩
  | settled p item finished hi hns hn hp =>
    rw [BudgetState.seen_concat rfl, Bool.or_eq_true] at hq
    rcases hq with hq | hq
    · exact hs.set _ hi (fun _ => rfl) hq
    · have hsame : p.attemptId = q.attemptId := by
        simp only [Change.same, Settlement.same, Bool.and_eq_true, decide_eq_true_eq] at hq
        exact hq.1.1.1
      exact ⟨{ item with settlement := some p }, by simp [hsame], rfl⟩
  | resolved p item hi hn ha =>
    rw [BudgetState.seen_concat rfl, Bool.or_eq_true] at hq
    exact hs.set { item with resolution := some p } hi id
      (hq.resolve_right (by simp [Change.same]))

/-- The ledger can be rebuilt, and knows what it has settled. -/
structure Ledgered (s : RuntimeStore) (st : BudgetState) : Prop where
  rebuilds : Rebuilds s st
  settled : st.Settled

/-! ## The fact of a reservation -/

theorem BudgetState.get?_set_reservation {st : BudgetState} {id j : String}
    {item found : BudgetItem} (item' : BudgetItem) (hi : st.reservations.get? id = some item)
    (hr : item'.reservation = item.reservation)
    (hj : (st.reservations.set id item').get? j = some found) :
    ∃ old, st.reservations.get? j = some old ∧ found.reservation = old.reservation := by
  by_cases hid : j = id
  · subst hid
    rw [Dict.get?_set_self, Option.some.injEq] at hj
    exact ⟨item, hi, hj ▸ hr⟩
  · rw [Dict.get?_set_of_ne hid] at hj
    exact ⟨found, hj, rfl⟩

/-- A reservation is that of the state before, or the event's. -/
theorem BudgetState.step_reservation {st later : BudgetState} {e : Event} {id : String}
    {item : BudgetItem} (h : st.step e = .ok later)
    (hi : later.reservations.get? id = some item) :
    (∃ old, st.reservations.get? id = some old ∧ item.reservation = old.reservation) ∨
      e.type = .budgetReserved ∧ Reservation.ofJson e.payload = .ok item.reservation ∧
        item.reservation.attemptId = id := by
  unfold step at h
  split at h
  · -- A configuration has no reservation.
    obtain ⟨p, -, h⟩ := bind_eq_ok.mp h
    unfold applyConfigured at h
    split at h
    · simp only [bind_eq_ok, pure_eq_ok, Except.ok.injEq] at h
      obtain ⟨_, -, rfl⟩ := h
      exact .inl ⟨item, hi, rfl⟩
    · obtain rfl := Except.ok.inj h
      exact .inl ⟨item, hi, rfl⟩
  · rename_i htype
    obtain ⟨r, hr, h⟩ := bind_eq_ok.mp h
    unfold applyReserved at h
    split at h
    · simp only [bind_eq_ok, pure_eq_ok, Except.ok.injEq] at h
      obtain ⟨_, -, rfl⟩ := h
      exact .inl ⟨item, hi, rfl⟩
    · obtain rfl := Except.ok.inj h
      by_cases hid : id = r.attemptId
      · rw [hid, Dict.get?_set_self, Option.some.injEq] at hi
        subst hi
        exact .inr ⟨htype, hr, hid.symm⟩
      · exact .inl ⟨item, by rwa [Dict.get?_set_of_ne hid] at hi, rfl⟩
  · obtain ⟨p, -, h⟩ := bind_eq_ok.mp h
    unfold applySettled at h
    split at h
    · obtain rfl := Except.ok.inj h
      exact .inl ⟨item, hi, rfl⟩
    · split at h
      · cases h
      · rename_i prior hprior
        simp only [bind_eq_ok, pure_eq_ok, Except.ok.injEq] at h
        obtain ⟨_, -, rfl⟩ := h
        exact .inl (get?_set_reservation { prior with settlement := some p } hprior rfl hi)
  · obtain ⟨p, -, h⟩ := bind_eq_ok.mp h
    unfold applyResolved at h
    split at h
    · obtain rfl := Except.ok.inj h
      exact .inl ⟨item, hi, rfl⟩
    · split at h
      · cases h
      · rename_i prior hprior
        simp only [bind_eq_ok, pure_eq_ok, Except.ok.injEq] at h
        obtain ⟨_, -, rfl⟩ := h
        exact .inl (get?_set_reservation { prior with resolution := some p } hprior rfl hi)
  · obtain rfl := Except.ok.inj h
    exact .inl ⟨item, hi, rfl⟩

/-- Every reservation of the ledger has its fact. -/
theorem budgetProjection_reserved {events : List Event} {st : BudgetState} {id : String}
    {item : BudgetItem} (h : budgetProjection events = .ok st)
    (hi : st.reservations.get? id = some item) :
    ∃ e ∈ events, e.type = .budgetReserved ∧
      Reservation.ofJson e.payload = .ok item.reservation ∧ item.reservation.attemptId = id := by
  unfold budgetProjection at h
  induction events using List.reverseRecOn generalizing st item with
  | nil =>
    obtain rfl := Except.ok.inj h
    cases hi
  | append_singleton events e ih =>
    obtain ⟨mid, hmid, hstep⟩ := foldlM_concat_eq_ok.mp h
    rcases BudgetState.step_reservation hstep hi with ⟨old, ho, hr⟩ | ⟨htype, hr, hid⟩
    · obtain ⟨e', he', htype, hr', hid⟩ := ih hmid ho
      rw [← hr] at hr' hid
      exact ⟨e', List.mem_append_left _ he', htype, hr', hid⟩
    · exact ⟨e, by simp, htype, hr, hid⟩

/-- The payload of a reservation names its attempt. -/
theorem Reservation.ofJson_named {payload : Json} {r : Reservation}
    (h : Reservation.ofJson payload = .ok r) :
    payload.get? "attempt_id" = some (.str r.attemptId) := by
  simp only [ofJson, bind_eq_ok, pure_eq_ok, Except.ok.injEq] at h
  obtain ⟨id, hid, _, _, _, _, _, _, _, _, _, _, _, _, _, _, _, _, _, _, rfl⟩ := h
  simp only [Json.readField, Json.require, bind_eq_ok] at hid
  obtain ⟨value, hvalue, hid⟩ := hid
  cases hget : payload.get? "attempt_id" with
  | none =>
    rw [hget] at hvalue
    cases hvalue
  | some found =>
    rw [hget] at hvalue
    obtain rfl := Except.ok.inj hvalue
    cases found with
    | str text => exact congrArg some (congrArg Json.str (Except.ok.inj hid))
    | _ => cases hid

/-! ## The facts of attempts -/

/-- The start and finish facts of some attempts, in log order. -/
def RuntimeStore.attemptRows (s : RuntimeStore) (ids : List String) : List Event :=
  s.events.filter fun e => e.type ∈ modelFacts ∧ ∃ id ∈ ids, attemptIdOf e.payload = some id

/-- The attempt that a call is about. -/
def LedgerCall.attemptId? : LedgerCall → Option String
  | configure _ => none
  | reserve args => some args.attemptId
  | settle args => some args.attemptId
  | resolveUnknown args => some args.attemptId

theorem mem_modelRow {kind : EventType} {fact : Option Json} {a : EventType × Json} :
    a ∈ modelRow kind fact ↔ a.1 = kind ∧ fact = some a.2 := by
  unfold modelRow
  rw [List.mem_map]
  constructor
  · rintro ⟨f, hf, rfl⟩
    exact ⟨rfl, Option.mem_toList.mp hf⟩
  · rintro ⟨rfl, hf⟩
    exact ⟨a.2, Option.mem_toList.mpr hf, rfl⟩

/-- The attempt facts of a call are of its own attempt. -/
theorem Touched.named {st : BudgetState} {now : Instant} {call : LedgerCall}
    {reservations : Dict String BudgetItem} {additions : List (EventType × Json)}
    (h : Touched st now call reservations additions) {a : EventType × Json} (ha : a ∈ additions)
    (hm : a.1 ∈ modelFacts) : attemptIdOf a.2 = call.attemptId? := by
  cases h with
  | replay call => simp at ha
  | configured args p =>
    rw [List.mem_singleton.mp ha] at hm
    exact absurd hm (by simp [modelFacts])
  | reserved args r hpay hn =>
    rcases List.mem_cons.mp ha with rfl | ha
    · exact absurd hm (by simp [modelFacts])
    · exact (ReserveArgs.payload_named hpay).2.2 _ (mem_modelRow.mp ha).2
  | settled args observed p item hobs hi hf hn hprior =>
    rcases List.mem_cons.mp ha with rfl | ha
    · exact absurd hm (by simp [modelFacts])
    · exact SettleArgs.observed_named hobs _ (mem_modelRow.mp ha).2
  | resolved args p item hi hn =>
    rw [List.mem_singleton.mp ha] at hm
    exact absurd hm (by simp [modelFacts])

theorem RuntimeStore.attemptRows_append (s : RuntimeStore) (rows : List Event)
    (ids : List String) :
    attemptRows { s with events := s.events ++ rows } ids = s.attemptRows ids ++
      rows.filter fun e => e.type ∈ modelFacts ∧ ∃ id ∈ ids, attemptIdOf e.payload = some id := by
  simp [attemptRows, List.filter_append]

/-- A call about another attempt adds none of their facts. -/
theorem Performed.attemptRows {s t : RuntimeStore} {now : Instant} {call : LedgerCall}
    {reply : LedgerReply} {st held rebuilt : BudgetState} {additions : List (EventType × Json)}
    {rows : List Event} (h : Performed s now call reply st held rebuilt additions rows t)
    {ids : List String} (hids : ∀ id ∈ ids, call.attemptId? = some id →
      ∀ a ∈ additions, a.1 ∉ modelFacts) : t.attemptRows ids = s.attemptRows ids := by
  rw [h.log, attemptRows_append, List.append_right_eq_self, List.filter_eq_nil_iff]
  intro e he hp
  obtain ⟨hm, id, hid, hname⟩ := of_decide_eq_true hp
  obtain ⟨a, ha, hadds⟩ := Sequence.mem_of_forall₂ h.adds he
  rw [hadds.type_eq] at hm
  rw [hadds.payload_eq, h.touched.named ha hm] at hname
  exact hids id hid hname a ha hm

end Eventide
