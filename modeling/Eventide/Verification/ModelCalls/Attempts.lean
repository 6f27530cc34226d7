import Eventide.Verification.ModelCalls.Interference

/-! # What `begin` and `finish` do to an attempt -/

namespace Eventide

open Outcome RuntimeStore

/-- The reservation of an attempt that has not finished. -/
structure Pending (run : Run) (st : BudgetState) (id : String) (item : BudgetItem) : Prop where
  found : st.reservations.get? id = some item
  named : validText id = true
  runId : item.reservation.runId = run.id
  sessionId : item.reservation.sessionId = run.sessionId
  basis : item.reservation.basis = "input_output"
  settlement : item.settlement = none
  resolution : item.resolution = none

variable {run : Run} {ids : List String} {s t : RuntimeStore} {st : BudgetState}

/-- A pending reservation is left as it is while its attempt has not finished. -/
theorem Pending.framed {later : BudgetState} {id : String} {item : BudgetItem}
    (h : Pending run st id item) (hid : id ∈ ids)
    (hf : Framed run ids s t st later) (hn : ¬ Finished (s.attemptRows ids) id) :
    ∃ item', Pending run later id item' := by
  obtain ⟨item', hi', hr, hs, hp⟩ := hf.kept id hid item h.found
  exact ⟨item', hi', h.named, hr ▸ h.runId, hr ▸ h.sessionId, hr ▸ h.basis, hs ▸ h.settlement,
    (hp hn).trans h.resolution⟩

theorem RuntimeStore.Hosts.identity (h : s.Hosts run) :
    ∃ continuation, s.getRunIdentity run.id = some (run, continuation) := by
  obtain ⟨turn, hturn, hid⟩ := h.turn
  have hfound : (s.turns.find? (·.id = run.turnId)).isSome := by
    rw [List.find?_isSome]
    exact ⟨turn, hturn, by simpa using hid⟩
  obtain ⟨found, hf⟩ := Option.isSome_iff_exists.mp hfound
  exact ⟨found.continuationOf, by simp [getRunIdentity, h.row, hf]⟩

theorem RuntimeStore.budgetContext_session {runId sessionId : String} {owner : BudgetContext}
    {row : Run × Option String} (hrow : s.getRunIdentity runId = some row)
    (h : s.budgetContext runId = .ok (sessionId, owner)) : sessionId = row.1.sessionId := by
  unfold budgetContext at h
  rw [hrow] at h
  obtain ⟨owner', -, h⟩ := map_eq_ok.mp h
  exact (Prod.mk.inj h).1.symm

theorem RuntimeStore.reserveWith_ok {context : BeginContext} {args : Except PyError ReserveArgs}
    {receipt : Receipt} (h : s.reserveWith context args = (.ok receipt, t)) :
    ∃ a reply held, args = .ok a ∧
      (LedgerCall.reserve a).perform s context.toContext = (.ok (reply, held), t) := by
  unfold reserveWith at h
  cases args with
  | error e => cases (Prod.mk.inj h).1
  | ok a =>
    dsimp only at h
    split at h
    · rename_i found held u hp
      obtain ⟨-, rfl⟩ := Prod.mk.inj h
      exact ⟨a, .receipt found, held, rfl, hp⟩
    · cases (Prod.mk.inj h).1
    · cases (Prod.mk.inj h).1

theorem RuntimeStore.reserveWith_error {context : BeginContext}
    {args : Except PyError ReserveArgs} {error : PyError}
    (h : s.reserveWith context args = (.error error, t)) : t = s := by
  unfold reserveWith at h
  cases args with
  | error e => exact (Prod.mk.inj h).2.symm
  | ok a =>
    dsimp only at h
    split at h
    · cases (Prod.mk.inj h).1
    · exact (Prod.mk.inj h).2.symm
    · rename_i hp
      obtain ⟨-, rfl⟩ := Prod.mk.inj h
      exact LedgerCall.perform_error hp

/-- A new reservation commits with its start fact. -/
theorem reserve_new {context : LedgerCall.Context} {args : ReserveArgs} {reply : LedgerReply}
    {held : BudgetState} {started : Json} (hl : Ledgered s st)
    (hstarted : args.attemptStarted = some started)
    (hn : st.reservations.get? args.attemptId = none)
    (h : (LedgerCall.reserve args).perform s context = (.ok (reply, held), t)) :
    ∃ later r reserved row, Ledgered t later ∧ args.payload context.now = .ok r ∧
      later.reservations = st.reservations.set args.attemptId { reservation := r } ∧
      t = { s with events := s.events ++ [reserved, row] } ∧
      Adds args.sessionId (some args.runId) "runtime" reserved (.budgetReserved, r.toJson) ∧
      Adds args.sessionId (some args.runId) "runtime" row (.modelAttemptStarted, started) := by
  obtain ⟨rebuilt, additions, rows, hperf⟩ := LedgerCall.perform_ok hl.rebuilds.1 hl.rebuilds.2 h
  have hlater : Ledgered t rebuilt :=
    ⟨⟨hperf.state, hperf.committed.resolved_rebuilt hl.rebuilds.2⟩,
      hperf.committed.settled_rebuilt hl.settled⟩
  have hadds := hperf.adds
  have htouched := hperf.touched
  obtain ⟨now, payload, item, hpay, hfound, -⟩ := hperf.recorded
  rw [(ReserveArgs.payload_ok hpay).1] at hfound
  generalize hr : rebuilt.reservations = reservations at htouched hfound
  cases htouched with
  | replay call =>
    rw [hn] at hfound
    cases hfound
  | reserved _ r hpay' hn' =>
    rw [hstarted] at hadds
    have hrun : (LedgerCall.reserve args).runId = some args.runId := by
      simp [LedgerCall.runId, hstarted]
    rw [hrun] at hadds
    obtain ⟨reserved, rest, h1, hrest, rfl⟩ := List.forall₂_cons_right_iff.mp hadds
    have hone : modelRow .modelAttemptStarted (some started) =
        [(.modelAttemptStarted, started)] := rfl
    rw [hone] at hrest
    obtain ⟨row, last, h2, hlast, rfl⟩ := List.forall₂_cons_right_iff.mp hrest
    obtain rfl := List.forall₂_nil_right_iff.mp hlast
    exact ⟨rebuilt, r, reserved, row, hlater, hpay', hr, hperf.log, h1, h2⟩

/-- What a successful `begin` leaves: its attempt is pending, and its start fact is the only
new row of the attempts. -/
theorem beginAttempt_ok {context : BeginContext} {request : ModelRequest} {identity : Json}
    {receipt : Receipt} {id : String} (hl : Ledgered s st) (hh : s.Hosts run)
    (hid : identity.get? "attempt_id" = some (.str id)) (hmem : id ∈ ids)
    (hn : st.reservations.get? id = none)
    (h : s.beginAttempt context run.id request identity = (.ok receipt, t)) :
    ∃ later item started, Ledgered t later ∧ t.Hosts run ∧ Pending run later id item ∧
      later.reservations = st.reservations.set id item ∧
      t.attemptRows ids = s.attemptRows ids ++ [started] ∧
      started.type = .modelAttemptStarted ∧ started.runId = some run.id ∧
      attemptIdOf started.payload = some id ∧
      started.payload = identity.merge
        (.obj [("input_composition", context.measure.inputComposition request)]) := by
  obtain ⟨args, reply, held, hargs, hperf⟩ := reserveWith_ok h
  simp only [beginArgs, bind_eq_ok, pure_eq_ok, Except.ok.injEq] at hargs
  obtain ⟨⟨sessionId, owner⟩, howner, _, -, _, -, attemptId, hattempt, hargs⟩ := hargs
  obtain ⟨continuation, hrow⟩ := hh.identity
  obtain rfl := budgetContext_session hrow howner
  have hattemptId : attemptId = id := by
    simp only [Json.readField, Json.require, hid, bind_eq_ok] at hattempt
    obtain ⟨_, hv, hattempt⟩ := hattempt
    obtain rfl := Except.ok.inj hv
    exact (Except.ok.inj hattempt).symm
  subst hattemptId
  subst hargs
  obtain ⟨later, r, reserved, started, hlater, hpay, hres, rfl, hreserved, hstart⟩ :=
    reserve_new hl rfl hn hperf
  obtain ⟨hrid, hrun, hsession, -, hbasis, -⟩ := ReserveArgs.payload_ok hpay
  obtain ⟨hvalid, -, hnamed⟩ := ReserveArgs.payload_named hpay
  have hstartId := hnamed _ rfl
  refine ⟨later, { reservation := r }, started, hlater, ?_, ?_, hres, ?_, hstart.type_eq,
    hstart.runId_eq, ?_, hstart.payload_eq⟩
  · refine hh.append fun e he => ?_
    rcases List.mem_cons.mp he with rfl | he
    · rw [hreserved.type_eq]
      rfl
    · rw [List.mem_singleton.mp he, hstart.type_eq]
      rfl
  · exact ⟨by rw [hres]; simp, hvalid, hrun, hsession, hbasis, rfl, rfl⟩
  · rw [attemptRows_append, List.filter_cons_of_neg, List.filter_cons_of_pos, List.filter_nil]
    · simp only [decide_eq_true_eq]
      refine ⟨by simp [hstart.type_eq, modelFacts], attemptId, hmem, ?_⟩
      rw [hstart.payload_eq]
      exact hstartId
    · simp [hreserved.type_eq, modelFacts]
  · rw [hstart.payload_eq]
    exact hstartId

/-! ## Settlements -/

/-- The settlement of a pending attempt commits with its finish fact. -/
theorem settle_pending {context : LedgerCall.Context} {args : SettleArgs}
    {observed : Dict String ℕ} {p : Settlement} {item : BudgetItem} {finished : Json}
    (hl : Ledgered s st) (hh : s.Hosts run) (hs : s.Sound context.env)
    (hp : Pending run st args.attemptId item) (hsession : args.sessionId = run.sessionId)
    (hrun : args.runId = some run.id) (hfinished : args.attemptFinished = some finished)
    (hbasis : otherBasis finished "input_output" = false) (hobs : args.observed = .ok observed)
    (hpay : args.payload observed "input_output" = .ok p) :
    ∃ reply held t later settled row,
      (LedgerCall.settle args).perform s context = (.ok (.receipt reply, held), t) ∧
      Ledgered t later ∧
      later.reservations = st.reservations.set args.attemptId { item with settlement := some p } ∧
      t = { s with events := s.events ++ [settled, row] } ∧
      Adds run.sessionId (some run.id) "runtime" settled (.budgetSettled, p.toJson) ∧
      Adds run.sessionId (some run.id) "runtime" row (.modelAttemptFinished, finished) := by
  have howned : st.owned args.sessionId args.attemptId = .ok item :=
    owned_eq_ok.mpr ⟨hp.found, hp.sessionId.trans hsession.symm⟩
  have hsame : ¬ args.runId.any (· ≠ item.reservation.runId) = true := by simp [hrun, hp.runId]
  have hfits : ¬ ((some finished).any fun finished =>
      otherBasis finished "input_output" || (decide ("input_output" = "input_only") &&
        !(finished.getNull "kind").pyEq (.str "embedding"))) = true := by
    simp [hbasis]
  have hid := SettleArgs.payload_attempt hpay
  -- A settlement seen before would be of an attempt that has one.
  have hunseen : ¬ st.seen (.settled p) = true := by
    intro hseen
    obtain ⟨old, ho, hset⟩ := hl.settled p hseen
    rw [hid, hp.found] at ho
    rw [← Option.some.inj ho, hp.settlement] at hset
    cases hset
  have hopen : ¬ (item.resolution.isSome ∨ item.settlement.any fun prior =>
      prior.actualTokens.isSome || p.actualTokens.isNone) := by
    simp [hp.resolution, hp.settlement]
  obtain ⟨d, hdecide, hstate, hadditions⟩ : ∃ d,
      decideSettle args observed (s.factsByType budgetFacts) = .ok d ∧
      d.state.reservations =
        st.reservations.set args.attemptId { item with settlement := some p } ∧
      d.additions = [(.budgetSettled, p.toJson), (.modelAttemptFinished, finished)] := by
    have hst : budgetProjection (s.factsByType budgetFacts) = .ok st := hl.rebuilds.1
    simp only [decideSettle, hst, howned, ok_bind, raiseIf_of_not hsame, hfinished, hp.basis,
      raiseIf_of_not hfits, hpay, if_neg hunseen, raiseIf_of_not hopen]
    exact ⟨_, rfl, rfl, rfl⟩
  have hprepare : (LedgerCall.settle args).prepare s context.now = .ok fun events =>
      (decideSettle args observed events).map (·.pack .receipt) := by
    simp only [LedgerCall.prepare, hobs, ok_bind]
    rfl
  have hcommit : ∃ t, s.transactFacts context.env run.sessionId budgetFacts
      (fun events => (decideSettle args observed events).map (·.pack .receipt)) "runtime"
      (some run.id) = (.ok (.receipt d.reply, d.state), t) := by
    have hends : ∀ a ∈ d.additions, a.1.isTerminal = false := by
      simp [hadditions, EventType.isTerminal]
    refine transactFacts_open hh hs ?_ hends
    rw [hdecide]
    rfl
  obtain ⟨t, ht⟩ := hcommit
  have hperform : (LedgerCall.settle args).perform s context =
      (.ok (.receipt d.reply, d.state), t) := by
    unfold LedgerCall.perform
    rw [hprepare]
    change s.transactFacts context.env args.sessionId budgetFacts _ "runtime" args.runId = _
    rw [hsession, hrun]
    exact ht
  obtain ⟨rebuilt, additions, rows, hdone⟩ :=
    LedgerCall.perform_ok hl.rebuilds.1 hl.rebuilds.2 hperform
  obtain ⟨choose, hchoose, hc⟩ := hdone.decided
  obtain rfl := Except.ok.inj (hprepare.symm.trans hchoose)
  change (decideSettle args observed (s.factsByType budgetFacts)).map _ = _ at hc
  rw [hdecide] at hc
  obtain rfl : d.additions = additions := (Prod.mk.inj (Except.ok.inj hc)).2
  have hadds : List.Forall₂ (Adds run.sessionId (some run.id) "runtime") rows
      [(.budgetSettled, p.toJson), (.modelAttemptFinished, finished)] := by
    have h := hdone.adds
    change List.Forall₂ (Adds args.sessionId args.runId "runtime") rows _ at h
    rwa [hsession, hrun, hadditions] at h
  obtain ⟨settled, rest, h1, hrest, rfl⟩ := List.forall₂_cons_right_iff.mp hadds
  obtain ⟨row, last, h2, hlast, rfl⟩ := List.forall₂_cons_right_iff.mp hrest
  obtain rfl := List.forall₂_nil_right_iff.mp hlast
  exact ⟨_, _, t, rebuilt, settled, row, hperform,
    ⟨⟨hdone.state, hdone.committed.resolved_rebuilt hl.rebuilds.2⟩,
      hdone.committed.settled_rebuilt hl.settled⟩,
    hdone.committed.reservations_eq.trans hstate, hdone.log, h1, h2⟩

/-- Estimating a cost adds estimates, or nothing. -/
theorem RuntimeStore.estimateCost_adds {context : FinishContext} {sessionId : String}
    {result : Except PyError Unit} (h : s.estimateCost context sessionId = (result, t)) :
    ∃ rows, t = { s with events := s.events ++ rows } ∧ ∀ e ∈ rows, e.type = .costEstimated := by
  unfold estimateCost at h
  cases result with
  | error e => exact ⟨[], by simp [transactFacts_error h], by simp⟩
  | ok u =>
    have hcost : ∀ additions, (do
        let estimates ← context.estimateCost (s.factsByType
          [.budgetReserved, .budgetSettled, .priceRegistered, .costEstimated])
        return ((), estimates.map fun estimate => (EventType.costEstimated, estimate))) =
          Except.ok (u, additions) → ∀ a ∈ additions, a.1 = .costEstimated := by
      intro additions hadd a ha
      obtain ⟨estimates, -, hadd⟩ := bind_eq_ok.mp hadd
      obtain ⟨-, rfl⟩ := Prod.mk.inj (Except.ok.inj hadd)
      obtain ⟨estimate, -, rfl⟩ := List.mem_map.mp ha
      rfl
    obtain ⟨additions, rows, hc, ht, hadds⟩ := transactFacts_ok h fun additions hadd a ha => by
      rw [hcost additions hadd a ha]
      rfl
    refine ⟨rows, ht, fun e he => ?_⟩
    obtain ⟨a, ha, hrec⟩ := Sequence.mem_of_forall₂ hadds he
    rw [hrec.type_eq]
    exact hcost additions hc a ha

/-- After its settlement `finish` adds cost estimates at most. -/
theorem RuntimeStore.finishAttempt_settled {context : FinishContext} {runId : String}
    {identity : Json} {args : SettleArgs} {reply : LedgerReply × BudgetState}
    {result : Except PyError Receipt} {u : RuntimeStore}
    (hargs : s.finishArgs runId identity = .ok args)
    (hperform : (LedgerCall.settle args).perform s context.toContext = (.ok reply, u))
    (h : s.finishAttempt context runId identity = (result, t)) :
    ∃ rows, t = { u with events := u.events ++ rows } ∧ ∀ e ∈ rows, e.type = .costEstimated := by
  unfold finishAttempt at h
  rw [hargs] at h
  dsimp only at h
  rw [hperform] at h
  dsimp only at h
  generalize hc : u.estimateCost context args.sessionId = q at h
  obtain ⟨outcome, v⟩ := q
  obtain rfl : v = t := (Prod.mk.inj h).2
  exact estimateCost_adds hc

/-- What `finish` leaves of a pending attempt, whether or not its cost can be estimated. -/
theorem finishAttempt_pending {context : FinishContext} {identity : Json}
    {args : SettleArgs} {observed : Dict String ℕ} {p : Settlement} {item : BudgetItem}
    {result : Except PyError Receipt} (hl : Ledgered s st) (hh : s.Hosts run)
    (hs : s.Sound context.env) (hp : Pending run st args.attemptId item)
    (hmem : args.attemptId ∈ ids) (hargs : s.finishArgs run.id identity = .ok args)
    (hbasis : otherBasis identity "input_output" = false) (hobs : args.observed = .ok observed)
    (hpay : args.payload observed "input_output" = .ok p)
    (h : s.finishAttempt context run.id identity = (result, t)) :
    ∃ later finished, Ledgered t later ∧ t.Hosts run ∧
      later.reservations =
        st.reservations.set args.attemptId { item with settlement := some p } ∧
      t.attemptRows ids = s.attemptRows ids ++ [finished] ∧
      finished.type = .modelAttemptFinished ∧ finished.runId = some run.id ∧
      attemptIdOf finished.payload = some args.attemptId ∧ finished.payload = identity := by
  obtain ⟨continuation, hrow⟩ := hh.identity
  have hfields : args.sessionId = run.sessionId ∧ args.runId = some run.id ∧
      args.attemptFinished = some identity := by
    simp only [finishArgs, hrow, bind_eq_ok, pure_eq_ok, Except.ok.injEq,
      Option.elim_some] at hargs
    obtain ⟨row, rfl, attemptId, -, usage, -, rfl⟩ := hargs
    exact ⟨rfl, rfl, rfl⟩
  obtain ⟨hsession, hrun, hidentity⟩ := hfields
  obtain ⟨receipt, held, u, later, settled, finished, hperform, hlater, hres, rfl, hsettled,
    hfinished⟩ := settle_pending hl hh hs hp hsession hrun hidentity hbasis hobs hpay
  obtain ⟨rows, rfl, hrows⟩ := finishAttempt_settled hargs hperform h
  have hnamed := SettleArgs.observed_named hobs _ hidentity
  have hhost : Hosts { s with events := s.events ++ [settled, finished] } run := by
    refine hh.append fun e he => ?_
    rcases List.mem_cons.mp he with rfl | he
    · rw [hsettled.type_eq]
      rfl
    · rw [List.mem_singleton.mp he, hfinished.type_eq]
      rfl
  have haside : ∀ e ∈ rows, e.type.Aside := fun e he => by
    rw [hrows e he]
    decide
  refine ⟨later, finished, hlater.append haside, hhost.aside haside, hres, ?_, hfinished.type_eq,
    hfinished.runId_eq, ?_, hfinished.payload_eq⟩
  · rw [attemptRows_aside haside, attemptRows_append, List.filter_cons_of_neg,
      List.filter_cons_of_pos, List.filter_nil]
    · simp only [decide_eq_true_eq]
      refine ⟨by simp [hfinished.type_eq, modelFacts], args.attemptId, hmem, ?_⟩
      rw [hfinished.payload_eq]
      exact hnamed
    · simp [hsettled.type_eq, modelFacts]
  · rw [hfinished.payload_eq]
    exact hnamed

end Eventide
