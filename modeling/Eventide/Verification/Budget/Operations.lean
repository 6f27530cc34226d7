import Eventide.Verification.Budget.Projection

/-! # What each operation decides -/

namespace Eventide

open Outcome RuntimeStore

theorem owned_eq_ok {st : BudgetState} {sessionId attemptId : String} {item : BudgetItem} :
    st.owned sessionId attemptId = .ok item ↔
      st.reservations.get? attemptId = some item ∧ item.reservation.sessionId = sessionId := by
  unfold BudgetState.owned
  cases h : st.reservations.get? attemptId with
  | none => simp
  | some found =>
    simp only [bind_eq_ok, raiseIf_eq_ok, not_not, pure_eq_ok, Except.ok.injEq, Option.some.injEq]
    constructor
    · rintro ⟨_, hs, rfl⟩
      exact ⟨rfl, hs⟩
    · rintro ⟨rfl, hs⟩
      exact ⟨(), hs, rfl⟩

/-- The checks that every settlement of an attempt passes before it is compared with the
changes seen so far. -/
structure SettleArgs.Fits (args : SettleArgs) (observed : Dict String ℕ) (item : BudgetItem)
    (payload : Settlement) : Prop where
  session : item.reservation.sessionId = args.sessionId
  run : ¬ args.runId.any (· ≠ item.reservation.runId)
  finished : ¬ args.attemptFinished.any fun finished =>
    otherBasis finished item.reservation.basis ||
      (item.reservation.basis = "input_only" &&
        !(finished.getNull "kind").pyEq (.str "embedding"))
  payload_eq : args.payload observed item.reservation.basis = .ok payload

section Cases

variable {s : RuntimeStore} {events : List Event} {st : BudgetState}
  (hst : budgetProjection events = .ok st)

include hst

theorem decideConfigure_cases {payload : Configured} {d : Decision Bucket}
    (h : decideConfigure payload events = .ok d) :
    (st.requests.get? payload.requestId = some payload ∧
      d = ⟨st.bucket payload.scope, st, []⟩) ∨
    (st.requests.get? payload.requestId = none ∧
      d = ⟨BudgetState.bucket { st with limits := st.limits.set payload.scope payload.tokenLimit }
          payload.scope,
        { st with limits := st.limits.set payload.scope payload.tokenLimit },
        [(.budgetConfigured, payload.toJson)]⟩) := by
  unfold decideConfigure at h
  rw [hst, ok_bind] at h
  cases hp : st.requests.get? payload.requestId with
  | none =>
    simp only [hp, pure_eq_ok, Except.ok.injEq] at h
    exact Or.inr ⟨rfl, h.symm⟩
  | some prior =>
    simp only [hp, bind_eq_ok, raiseIf_eq_ok, not_not, pure_eq_ok, Except.ok.injEq] at h
    obtain ⟨_, rfl, rfl⟩ := h
    exact Or.inl ⟨rfl, rfl⟩

theorem decideReserve_cases {args : ReserveArgs} {payload : Reservation} {d : Decision Receipt}
    (h : decideReserve s args payload events = .ok d) :
    (∃ item, st.reservations.get? payload.attemptId = some item ∧
      item.reservation.basis = args.usageBasis ∧ item.reservation.sameRequest payload = true ∧
      (args.at?.isSome → item.reservation.reservedAt = payload.reservedAt) ∧
      d = ⟨st.receipt payload.attemptId item, st, []⟩) ∨
    (st.reservations.get? payload.attemptId = none ∧
      validateContext s payload.sessionId payload.runId payload.context events st = .ok () ∧
      st.violations payload = [] ∧
      d = ⟨BudgetState.receipt
          { st with reservations :=
            st.reservations.set payload.attemptId { reservation := payload } }
          payload.attemptId { reservation := payload },
        { st with reservations :=
          st.reservations.set payload.attemptId { reservation := payload } },
        (.budgetReserved, payload.toJson) :: modelRow .modelAttemptStarted args.attemptStarted⟩) := by
  unfold decideReserve at h
  rw [hst, ok_bind] at h
  cases hp : st.reservations.get? payload.attemptId with
  | none =>
    simp only [hp, bind_eq_ok, raiseIf_eq_ok, not_not, pure_eq_ok, Except.ok.injEq] at h
    obtain ⟨_, hv, _, hn, rfl⟩ := h
    refine Or.inr ⟨rfl, hv, hn, ?_⟩
    cases args.attemptStarted <;> rfl
  | some item =>
    simp only [hp, bind_eq_ok, raiseIf_eq_ok, not_not, pure_eq_ok, Except.ok.injEq,
      Bool.not_eq_true', Bool.not_eq_false, not_and] at h
    obtain ⟨_, hb, _, hs, _, ha, rfl⟩ := h
    exact Or.inl ⟨item, rfl, hb, hs, ha, rfl⟩

theorem decideSettle_cases {args : SettleArgs} {observed : Dict String ℕ} {d : Decision Receipt}
    (h : decideSettle args observed events = .ok d) :
    ∃ item payload, st.reservations.get? args.attemptId = some item ∧
      args.Fits observed item payload ∧
      ((st.seen (.settled payload) = true ∧ d = ⟨st.receipt args.attemptId item, st, []⟩) ∨
      (st.seen (.settled payload) = false ∧ item.resolution = none ∧
        (∀ prior, item.settlement = some prior →
          prior.actualTokens = none ∧ payload.actualTokens ≠ none) ∧
        d = ⟨BudgetState.receipt
            { st with reservations :=
              st.reservations.set args.attemptId { item with settlement := some payload } }
            args.attemptId { item with settlement := some payload },
          { st with reservations :=
            st.reservations.set args.attemptId { item with settlement := some payload } },
          (.budgetSettled, payload.toJson) ::
            modelRow .modelAttemptFinished args.attemptFinished⟩)) := by
  unfold decideSettle at h
  rw [hst, ok_bind] at h
  obtain ⟨item, ho, h⟩ := bind_eq_ok.mp h
  obtain ⟨hi, hsession⟩ := owned_eq_ok.mp ho
  obtain ⟨_, hrun, h⟩ := bind_eq_ok.mp h
  obtain ⟨_, hfin, h⟩ := bind_eq_ok.mp h
  obtain ⟨payload, hp, h⟩ := bind_eq_ok.mp h
  rw [raiseIf_eq_ok] at hrun hfin
  refine ⟨item, payload, hi, ⟨hsession, hrun, hfin, hp⟩, ?_⟩
  by_cases hs : st.seen (.settled payload) = true
  · rw [if_pos hs, pure_eq_ok, Except.ok.injEq] at h
    exact Or.inl ⟨hs, h.symm⟩
  · rw [if_neg hs] at h
    simp only [bind_eq_ok, raiseIf_eq_ok, not_or, pure_eq_ok, Except.ok.injEq] at h
    obtain ⟨_, ⟨hn, hprior⟩, rfl⟩ := h
    refine Or.inr ⟨by simpa using hs, by simpa using hn, fun prior hpr => ?_, ?_⟩
    · simpa [hpr, Option.ne_none_iff_isSome] using hprior
    · cases args.attemptFinished <;> rfl

theorem decideResolve_cases {args : ResolveArgs} {payload : Resolution} {d : Decision Receipt}
    (h : decideResolve args payload events = .ok d) :
    ∃ item, st.reservations.get? args.attemptId = some item ∧
      item.reservation.sessionId = args.sessionId ∧
      ((item.resolution = some payload ∧ d = ⟨st.receipt args.attemptId item, st, []⟩) ∨
      (item.resolution = none ∧ item.amount.actual = none ∧
        d = ⟨BudgetState.receipt
            { st with reservations :=
              st.reservations.set args.attemptId { item with resolution := some payload } }
            args.attemptId { item with resolution := some payload },
          { st with reservations :=
            st.reservations.set args.attemptId { item with resolution := some payload } },
          [(.budgetResolved, payload.toJson)]⟩)) := by
  unfold decideResolve at h
  rw [hst, ok_bind] at h
  obtain ⟨item, ho, h⟩ := bind_eq_ok.mp h
  obtain ⟨hi, hsession⟩ := owned_eq_ok.mp ho
  refine ⟨item, hi, hsession, ?_⟩
  by_cases hr : item.resolution = some payload
  · rw [if_pos hr, pure_eq_ok, Except.ok.injEq] at h
    exact Or.inl ⟨hr, h.symm⟩
  · rw [if_neg hr] at h
    simp only [bind_eq_ok, raiseIf_eq_ok, not_or, pure_eq_ok, Except.ok.injEq] at h
    obtain ⟨_, ⟨hn, ha⟩, _, _, rfl⟩ := h
    exact Or.inr ⟨by simpa using hn, by simpa using ha, rfl⟩

end Cases

/-! ## Replays -/

theorem scopeRecord_day (now : Instant) :
    scopeRecord .day (utcDay now.micros) = .ok { kind := "day", identity := utcDay now.micros } := by
  simp [scopeRecord, checkText, now.valid.1, now.valid.2, raiseIf, ScopeKind.text]

theorem ContextRecord.scopes_now {context : ContextRecord} {runId : String} {micros : ℤ}
    {scopes : List ScopeRecord} (h : context.scopes runId micros = .ok scopes) (now : Instant) :
    ∃ scopes', context.scopes runId now.micros = .ok scopes' := by
  simp only [ContextRecord.scopes, bind_eq_ok] at h
  obtain ⟨root, hroot, own, hown, delivery, hdel, project, hproj, -⟩ := h
  exact ⟨_, by simp only [ContextRecord.scopes, hroot, hown, hdel, hproj, ok_bind,
    scopeRecord_day, pure_eq_ok]; rfl⟩

/-- The clock decides nothing but the time and the day of a reservation. -/
theorem ReserveArgs.payload_now {args : ReserveArgs} {now : Instant} {p : Reservation}
    (h : args.payload now = .ok p) (later : Instant) : ∃ q, args.payload later = .ok q ∧
      q.attemptId = p.attemptId ∧ (∀ r : Reservation, r.sameRequest p = r.sameRequest q) ∧
      (args.at?.isSome → q.reservedAt = p.reservedAt) := by
  cases hat : args.at? with
  | some t =>
    refine ⟨p, ?_, rfl, fun _ => rfl, fun _ => rfl⟩
    rw [← h]
    simp only [ReserveArgs.payload, utcTime, hat]
  | none =>
    simp only [ReserveArgs.payload, utcTime, hat, bind_eq_ok, pure_eq_ok, Except.ok.injEq] at h
    obtain ⟨_, _, request, hr, scopes, hs, rfl⟩ := h
    obtain ⟨scopes', hs'⟩ := ContextRecord.scopes_now hs later
    refine ⟨{ request with reservedAt := isoformat later.micros, scopes := scopes' }, ?_, rfl,
      fun r => by simp only [Reservation.sameRequest], by simp⟩
    simp only [ReserveArgs.payload, utcTime, hat, ok_bind, hr, hs', pure_eq_ok]

inductive LedgerSubject where
  | scope (scope : ScopeRecord)
  | attempt (attemptId : String)

/-- The bucket or the attempt that a call is about. -/
def LedgerCall.subject : LedgerCall → LedgerSubject
  | configure args => .scope args.scope.record
  | reserve args => .attempt args.attemptId
  | settle args => .attempt args.attemptId
  | resolveUnknown args => .attempt args.attemptId

def LedgerReply.subject : LedgerReply → LedgerSubject
  | bucket b => .scope b.scope
  | receipt r => .attempt r.attemptId

/-- What an accepted call leaves on record. -/
def LedgerCall.Recorded (st : BudgetState) : LedgerCall → Prop
  | configure args => ∃ payload, args.payload = .ok payload ∧
      st.requests.get? payload.requestId = some payload
  | reserve args => ∃ now payload item, args.payload now = .ok payload ∧
      st.reservations.get? payload.attemptId = some item ∧
      item.reservation.basis = args.usageBasis ∧ item.reservation.sameRequest payload = true ∧
      (args.at?.isSome → item.reservation.reservedAt = payload.reservedAt)
  | settle args => ∃ observed item payload, args.observed = .ok observed ∧
      st.reservations.get? args.attemptId = some item ∧ args.Fits observed item payload ∧
      st.seen (.settled payload) = true
  | resolveUnknown args => ∃ payload item, args.payload = .ok payload ∧
      st.reservations.get? args.attemptId = some item ∧
      item.reservation.sessionId = args.sessionId ∧ item.resolution = some payload

theorem LedgerCall.Recorded.mono {st later : BudgetState} {call : LedgerCall}
    (h : call.Recorded st) (he : st.Extends later) : call.Recorded later := by
  cases call with
  | configure args =>
    obtain ⟨payload, hp, hr⟩ := h
    exact ⟨payload, hp, he.requests _ _ hr⟩
  | reserve args =>
    obtain ⟨now, payload, item, hp, hi, hb, hs, ha⟩ := h
    obtain ⟨item', hi', hr', -⟩ := he.reservations _ _ hi
    exact ⟨now, payload, item', hp, hi', hr' ▸ hb, hr' ▸ hs, hr' ▸ ha⟩
  | settle args =>
    obtain ⟨observed, item, payload, ho, hi, hf, hs⟩ := h
    obtain ⟨item', hi', hr', -⟩ := he.reservations _ _ hi
    exact ⟨observed, item', payload, ho, hi', ⟨hr' ▸ hf.session, hr' ▸ hf.run, hr' ▸ hf.finished,
      hr' ▸ hf.payload_eq⟩, he.seen _ hs⟩
  | resolveUnknown args =>
    obtain ⟨payload, item, hp, hi, hs, hr⟩ := h
    obtain ⟨item', hi', hr', hp'⟩ := he.reservations _ _ hi
    exact ⟨payload, item', hp, hi', hr' ▸ hs, hp' _ hr⟩

theorem checkText_eq_ok {value name text : String} :
    checkText value name = .ok text ↔ validText value = true ∧ text = value := by
  simp only [checkText, bind_eq_ok, raiseIf_eq_ok, pure_eq_ok, Except.ok.injEq, Bool.not_eq_true',
    Bool.not_eq_false]
  constructor
  · rintro ⟨_, hv, rfl⟩
    exact ⟨hv, rfl⟩
  · rintro ⟨hv, rfl⟩
    exact ⟨(), hv, rfl⟩

theorem ConfigureArgs.payload_scope {args : ConfigureArgs} {p : Configured}
    (h : args.payload = .ok p) : p.scope = args.scope.record := by
  simp only [ConfigureArgs.payload, bind_eq_ok, pure_eq_ok, Except.ok.injEq] at h
  obtain ⟨_, _, _, _, rfl⟩ := h
  rfl

theorem ReserveArgs.request_ok {args : ReserveArgs} {p : Reservation}
    (h : args.request = .ok p) : p.attemptId = args.attemptId ∧ p.runId = args.runId ∧
      p.sessionId = args.sessionId ∧ p.context = args.context.toContextRecord ∧
      p.basis = args.usageBasis := by
  simp only [ReserveArgs.request, bind_eq_ok, pure_eq_ok, Except.ok.injEq] at h
  obtain ⟨a, ha, _, _, _, _, _, _, _, _, r, hr, _, _, _, _, _, _, rfl⟩ := h
  obtain ⟨-, rfl⟩ := checkText_eq_ok.mp ha
  obtain ⟨-, rfl⟩ := checkText_eq_ok.mp hr
  refine ⟨rfl, rfl, rfl, rfl, ?_⟩
  by_cases hb : args.usageBasis = "input_output" <;> simp [Reservation.basis, hb]

theorem ReserveArgs.payload_ok {args : ReserveArgs} {now : Instant} {p : Reservation}
    (h : args.payload now = .ok p) : p.attemptId = args.attemptId ∧ p.runId = args.runId ∧
      p.sessionId = args.sessionId ∧ p.context = args.context.toContextRecord ∧
      p.basis = args.usageBasis ∧
      ∃ micros, p.context.scopes p.runId micros = .ok p.scopes := by
  simp only [ReserveArgs.payload, bind_eq_ok, pure_eq_ok, Except.ok.injEq] at h
  obtain ⟨micros, _, request, hr, scopes, hs, rfl⟩ := h
  obtain ⟨hid, hrun, hsession, hcontext, hbasis⟩ := ReserveArgs.request_ok hr
  refine ⟨hid, hrun, hsession, hcontext, ?_, micros, hs⟩
  simpa only [Reservation.basis] using hbasis

theorem SettleArgs.payload_attempt {args : SettleArgs} {observed : Dict String ℕ}
    {basis : String} {p : Settlement} (h : args.payload observed basis = .ok p) :
    p.attemptId = args.attemptId := by
  simp only [SettleArgs.payload, bind_eq_ok, pure_eq_ok, Except.ok.injEq] at h
  obtain ⟨_, _, _, _, rfl⟩ := h
  rfl

theorem ResolveArgs.payload_attempt {args : ResolveArgs} {p : Resolution}
    (h : args.payload = .ok p) : p.attemptId = args.attemptId := by
  simp only [ResolveArgs.payload, bind_eq_ok, pure_eq_ok, Except.ok.injEq] at h
  obtain ⟨a, ha, _, _, _, _, _, _, rfl⟩ := h
  exact (checkText_eq_ok.mp ha).2

theorem Settlement.same_self (p : Settlement) : p.same p = true := by
  simp [Settlement.same, sameCounters]

theorem Reservation.sameRequest_self (r : Reservation) : r.sameRequest r = true := by
  simp [Reservation.sameRequest]

theorem Decision.map_pack {α : Type} {wrap : α → LedgerReply} {x : Except PyError (Decision α)}
    {reply : LedgerReply} {held : BudgetState} {additions : List (EventType × Json)}
    (h : x.map (·.pack wrap) = .ok ((reply, held), additions)) :
    ∃ d, x = .ok d ∧ reply = wrap d.reply ∧ held = d.state ∧ additions = d.additions := by
  obtain ⟨d, hd, hp⟩ := map_eq_ok.mp h
  obtain ⟨hr, ha⟩ := Prod.mk.inj hp
  obtain ⟨hw, hs⟩ := Prod.mk.inj hr
  exact ⟨d, hd, hw.symm, hs.symm, ha.symm⟩

/-- The request that `configure` does not enter into the state it holds. -/
def LedgerCall.missedRequest : LedgerCall → Option Configured
  | configure args => args.payload.toOption
  | _ => none

section Accepted

variable {s : RuntimeStore} {events : List Event} {st held : BudgetState} {call : LedgerCall}
  {now : Instant} {reply : LedgerReply} {additions : List (EventType × Json)}
  {choose : List Event → Except PyError ((LedgerReply × BudgetState) × List (EventType × Json))}

/-- What an accepted call commits, and that it is then on record. -/
theorem LedgerCall.accepted (hst : budgetProjection events = .ok st)
    (hp : call.prepare s now = .ok choose)
    (h : choose events = .ok ((reply, held), additions)) :
    ∃ rebuilt, Committed st held rebuilt additions ∧ call.Recorded rebuilt ∧
      reply.subject = call.subject ∧
      rebuilt.requests = match call.missedRequest with
        | some p => held.requests.setDefault p.requestId p
        | none => held.requests := by
  cases call with
  | configure args =>
    obtain ⟨payload, hpay, hp⟩ := bind_eq_ok.mp hp
    obtain rfl := Except.ok.inj hp
    obtain ⟨d, hd, rfl, rfl, rfl⟩ := Decision.map_pack h
    have hm : (LedgerCall.configure args).missedRequest = some payload := by
      simp [LedgerCall.missedRequest, hpay, Except.toOption]
    have hscope := ConfigureArgs.payload_scope hpay
    rw [hm]
    rcases decideConfigure_cases hst hd with ⟨hr, rfl⟩ | ⟨hr, rfl⟩
    · refine ⟨st, .replay, ⟨payload, hpay, hr⟩, congrArg LedgerSubject.scope hscope, ?_⟩
      exact (Dict.setDefault_of_mem (Dict.mem_keys.mpr (by simp [hr]))).symm
    · refine ⟨_, .configured payload hr, ⟨payload, hpay, by simp⟩,
        congrArg LedgerSubject.scope hscope, ?_⟩
      exact (Dict.setDefault_of_not_mem (Dict.get?_eq_none.mp hr)).symm
  | reserve args =>
    obtain ⟨payload, hpay, hp⟩ := bind_eq_ok.mp hp
    obtain rfl := Except.ok.inj hp
    obtain ⟨d, hd, rfl, rfl, rfl⟩ := Decision.map_pack h
    obtain ⟨hid, -, -, -, hbasis, -⟩ := ReserveArgs.payload_ok hpay
    have hsub := congrArg LedgerSubject.attempt hid
    rcases decideReserve_cases hst hd with ⟨item, hi, hb, hs, ha, rfl⟩ | ⟨hn, -, -, rfl⟩
    · exact ⟨st, .replay, ⟨now, payload, item, hpay, hi, hb, hs, ha⟩, hsub, rfl⟩
    · exact ⟨_, .reserved payload args.attemptStarted hn, ⟨now, payload, { reservation := payload },
        hpay, by simp, hbasis, Reservation.sameRequest_self _, fun _ => rfl⟩, hsub, rfl⟩
  | settle args =>
    obtain ⟨observed, hobs, hp⟩ := bind_eq_ok.mp hp
    obtain rfl := Except.ok.inj hp
    obtain ⟨d, hd, rfl, rfl, rfl⟩ := Decision.map_pack h
    obtain ⟨item, payload, hi, hf, hd⟩ := decideSettle_cases hst hd
    rcases hd with ⟨hs, rfl⟩ | ⟨hs, hn, hprior, rfl⟩
    · exact ⟨st, .replay, ⟨observed, item, payload, hobs, hi, hf, hs⟩, rfl, rfl⟩
    · have hid := SettleArgs.payload_attempt hf.payload_eq
      rw [← hid] at hi ⊢
      refine ⟨_, .settled payload item args.attemptFinished hi hs hn hprior,
        ⟨observed, { item with settlement := some payload }, payload, hobs, by simp [hid],
          ⟨hf.session, hf.run, hf.finished, hf.payload_eq⟩, ?_⟩, congrArg _ hid, rfl⟩
      rw [BudgetState.seen_concat rfl, Change.same, Settlement.same_self, Bool.or_true]
  | resolveUnknown args =>
    obtain ⟨payload, hpay, hp⟩ := bind_eq_ok.mp hp
    obtain rfl := Except.ok.inj hp
    obtain ⟨d, hd, rfl, rfl, rfl⟩ := Decision.map_pack h
    obtain ⟨item, hi, hs, hd⟩ := decideResolve_cases hst hd
    rcases hd with ⟨hr, rfl⟩ | ⟨hn, ha, rfl⟩
    · exact ⟨st, .replay, ⟨payload, item, hpay, hi, hs, hr⟩, rfl, rfl⟩
    · have hid := ResolveArgs.payload_attempt hpay
      rw [← hid] at hi ⊢
      exact ⟨_, .resolved payload item hi hn ha, ⟨payload, { item with resolution := some payload },
        hpay, by simp [hid], hs, rfl⟩, congrArg _ hid, rfl⟩

/-- A call on record only answers again. -/
theorem LedgerCall.replays (s : RuntimeStore) (now : Instant)
    (hst : budgetProjection events = .ok st) (h : call.Recorded st) :
    ∃ choose reply, call.prepare s now = .ok choose ∧
      choose events = .ok ((reply, st), []) ∧ reply.subject = call.subject := by
  cases call with
  | configure args =>
    obtain ⟨payload, hpay, hr⟩ := h
    refine ⟨_, .bucket (st.bucket payload.scope), by rw [LedgerCall.prepare, hpay]; rfl, ?_,
      congrArg LedgerSubject.scope (ConfigureArgs.payload_scope hpay)⟩
    simp [decideConfigure, hst, hr, raiseIf, Except.map, Decision.pack]
  | reserve args =>
    obtain ⟨before, payload, item, hpay, hi, hb, hs, ha⟩ := h
    obtain ⟨q, hq, hid, hsame, hat⟩ := ReserveArgs.payload_now hpay now
    have ha' : ¬ (args.at?.isSome ∧ item.reservation.reservedAt ≠ q.reservedAt) := by
      rintro ⟨h1, h2⟩
      exact h2 ((ha h1).trans (hat h1).symm)
    refine ⟨_, .receipt (st.receipt q.attemptId item), by rw [LedgerCall.prepare, hq]; rfl, ?_,
      congrArg LedgerSubject.attempt (ReserveArgs.payload_ok hq).1⟩
    have hb' : ¬ item.reservation.basis ≠ args.usageBasis := not_not.mpr hb
    have hs' : ¬ (!item.reservation.sameRequest q) = true := by simp [← hsame, hs]
    simp only [decideReserve, hst, hid, hi, ok_bind, raiseIf_of_not hb', raiseIf_of_not hs',
      raiseIf_of_not ha']
    rfl
  | settle args =>
    obtain ⟨observed, item, payload, hobs, hi, hf, hs⟩ := h
    refine ⟨_, .receipt (st.receipt args.attemptId item), by rw [LedgerCall.prepare, hobs]; rfl,
      ?_, rfl⟩
    have ho : st.owned args.sessionId args.attemptId = .ok item :=
      owned_eq_ok.mpr ⟨hi, hf.session⟩
    simp only [decideSettle, hst, ho, ok_bind, raiseIf_of_not hf.run, raiseIf_of_not hf.finished,
      hf.payload_eq, if_pos hs]
    rfl
  | resolveUnknown args =>
    obtain ⟨payload, item, hpay, hi, hs, hr⟩ := h
    refine ⟨_, .receipt (st.receipt args.attemptId item), by rw [LedgerCall.prepare, hpay]; rfl,
      ?_, rfl⟩
    have ho : st.owned args.sessionId args.attemptId = .ok item := owned_eq_ok.mpr ⟨hi, hs⟩
    simp only [decideResolve, hst, ho, ok_bind, if_pos hr]
    rfl

end Accepted

end Eventide
