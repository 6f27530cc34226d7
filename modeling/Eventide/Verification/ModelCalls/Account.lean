import Eventide.Verification.ModelCalls.Identity

/-! # The attempts of a call, as the log and the ledger account for them -/

namespace Eventide.ModelCalls

open Outcome Interaction Interaction.Program

/-- An attempt that has finished, with its two facts and the response of the provider. -/
structure AttemptFacts where
  id : String
  started : Event
  answer : Option ModelResponse
  finished : Event

namespace AttemptFacts

def rows (a : AttemptFacts) : List Event := [a.started, a.finished]

/-- What the provider has given during the attempt. -/
def given (a : AttemptFacts) : List (Option String × ModelResponse) :=
  a.answer.toList.map (some a.id, ·)

/-- The facts name the attempt, its run and its number. -/
structure Numbered (run : Run) (number : ℕ) (a : AttemptFacts) : Prop where
  startedType : a.started.type = .modelAttemptStarted
  finishedType : a.finished.type = .modelAttemptFinished
  startedRun : a.started.runId = some run.id
  finishedRun : a.finished.runId = some run.id
  startedId : attemptIdOf a.started.payload = some a.id
  finishedId : attemptIdOf a.finished.payload = some a.id
  startedNumber : a.started.payload.get? "attempt" = some (Json.ofNat number)
  finishedNumber : a.finished.payload.get? "attempt" = some (Json.ofNat number)

/-- The attempt failed or was cancelled: no response came, and no usage is reported. -/
structure Unreported (a : AttemptFacts) : Prop where
  answer : a.answer = none
  status : a.finished.payload.get? "status" = some (.str "failed") ∨
    a.finished.payload.get? "status" = some (.str "cancelled")
  source : a.finished.payload.get? "usage_source" = some (.str "unknown")
  usage : a.finished.payload.get? "usage" = none

/-- The attempt completed with the response that the provider gave it. -/
structure Completed (response : ModelResponse) (a : AttemptFacts) : Prop where
  answer : a.answer = some response
  status : a.finished.payload.get? "status" = some (.str "completed")
  usage : ∃ usage, response.reported? = some usage ∧
    a.finished.payload.get? "usage" = some (countersJson usage)
  stopReason : ∃ text, response.stopReason.string? = some text ∧
    a.finished.payload.get? "stop_reason" = some (.str text)

/-- The whole reservation is held, until a user resolves it. -/
def Held (st : BudgetState) (a : AttemptFacts) : Prop :=
  ∃ item, st.reservations.get? a.id = some item ∧ item.settlement.isSome ∧
    BudgetItem.amount { item with resolution := none } =
      ⟨item.reservation.reservedTokens, none, "unsettled"⟩

end AttemptFacts

/-- An attempt that has not finished. -/
structure OpenAttempt where
  id : String
  started : Event
  answer : Option ModelResponse := none

/-- What the provider has given during the attempt so far. -/
def OpenAttempt.given (p : OpenAttempt) : List (Option String × ModelResponse) :=
  p.answer.toList.map (some p.id, ·)

/-- The start fact of an attempt that has not finished. -/
structure Started (run : Run) (number : ℕ) (p : OpenAttempt) : Prop where
  type : p.started.type = .modelAttemptStarted
  runId : p.started.runId = some run.id
  named : attemptIdOf p.started.payload = some p.id
  number : p.started.payload.get? "attempt" = some (Json.ofNat number)

/-- What log, ledger and provider have of a call: its finished attempts, and one that has not
finished. -/
structure Account (run : Run) (attempts : List AttemptFacts) (pending : Option OpenAttempt)
    (st : BudgetState) (s : CallState) : Prop where
  ledger : Ledgered s.store st
  hosts : s.store.Hosts run
  rows : s.store.attemptRows s.ids =
    attempts.flatMap AttemptFacts.rows ++ pending.toList.map OpenAttempt.started
  begun : s.begun = attempts.map (·.id) ++ pending.toList.map OpenAttempt.id
  given : s.given = attempts.flatMap AttemptFacts.given ++ pending.toList.flatMap OpenAttempt.given
  drawn : ∀ id ∈ s.begun, id ∈ s.ids
  distinct : s.begun.Nodup
  numbered : ∀ (k : ℕ) (a : AttemptFacts), attempts[k]? = some a → a.Numbered run (k + 1)
  started : ∀ p ∈ pending, Started run (attempts.length + 1) p
  reserved : ∀ p ∈ pending, ∃ item, Pending run st p.id item
  held : ∀ a ∈ attempts, a.Unreported → a.Held st

/-- An identifier that was drawn for an attempt and is still free. -/
structure Fresh (st : BudgetState) (s : CallState) (id : String) : Prop where
  drawn : id ∈ s.ids
  unbegun : id ∉ s.begun
  free : st.reservations.get? id = none

variable {run : Run} {attempts : List AttemptFacts} {pending : Option OpenAttempt}
  {st later : BudgetState} {s t : CallState}

/-- The attempts that have finished are those of the account. -/
theorem Account.finished (h : Account run attempts pending st s) {id : String}
    (hf : Finished (s.store.attemptRows s.ids) id) : id ∈ attempts.map (·.id) := by
  obtain ⟨e, he, htype, hid⟩ := hf
  rw [h.rows] at he
  rcases List.mem_append.mp he with he | he
  · obtain ⟨a, ha, he⟩ := List.mem_flatMap.mp he
    obtain ⟨k, hk⟩ := List.mem_iff_getElem?.mp ha
    have hnum := h.numbered k a hk
    rcases List.mem_cons.mp he with rfl | he
    · rw [hnum.startedType] at htype
      cases htype
    · rw [List.mem_singleton.mp he, hnum.finishedId, Option.some.injEq] at hid
      exact List.mem_map.mpr ⟨a, ha, hid⟩
  · obtain ⟨p, hp, rfl⟩ := List.mem_map.mp he
    rw [(h.started p (Option.mem_toList.mp hp)).type] at htype
    cases htype

theorem AttemptFacts.Held.framed {ids : List String} {s t : RuntimeStore} {a : AttemptFacts}
    (h : a.Held st) (hid : a.id ∈ ids) (hf : Framed run ids s t st later) : a.Held later := by
  obtain ⟨item, hi, hset, hamount⟩ := h
  obtain ⟨item', hi', hr, hs, -⟩ := hf.kept a.id hid item hi
  refine ⟨item', hi', hs ▸ hset, ?_⟩
  rw [hr, hs]
  exact hamount

/-- A change of another reservation. -/
theorem AttemptFacts.Held.set {a : AttemptFacts} (h : a.Held st) {id : String} {item : BudgetItem}
    (hres : later.reservations = st.reservations.set id item) (hne : a.id ≠ id) : a.Held later := by
  obtain ⟨old, hold, hset, hamount⟩ := h
  refine ⟨old, ?_, hset, hamount⟩
  rw [hres, Dict.get?_set_of_ne hne]
  exact hold

/-- The attempts keep their numbers when one more has finished. -/
theorem numbered_concat {last : AttemptFacts}
    (h : ∀ (k : ℕ) (a : AttemptFacts), attempts[k]? = some a → a.Numbered run (k + 1))
    (hlast : last.Numbered run (attempts.length + 1)) (k : ℕ) (a : AttemptFacts)
    (hk : (attempts ++ [last])[k]? = some a) : a.Numbered run (k + 1) := by
  by_cases hlt : k < attempts.length
  · rw [List.getElem?_append_left hlt] at hk
    exact h k a hk
  · have hlength := (List.getElem?_eq_some_iff.mp hk).1
    rw [List.length_append, List.length_singleton] at hlength
    obtain rfl : k = attempts.length := by omega
    rw [List.getElem?_concat_length] at hk
    exact Option.some.inj hk ▸ hlast

/-- A pending attempt is none of those that have finished. -/
theorem Account.pending_not_mem (h : Account run attempts pending st s) {p : OpenAttempt}
    (hp : p ∈ pending) : p.id ∉ attempts.map (·.id) := by
  have hnodup := h.distinct
  rw [h.begun] at hnodup
  exact fun hmem => List.disjoint_of_nodup_append hnodup hmem
    (List.mem_map_of_mem (Option.mem_toList.mpr hp))

theorem Account.pending_drawn (h : Account run attempts pending st s) {p : OpenAttempt}
    (hp : p ∈ pending) : p.id ∈ s.ids := by
  refine h.drawn p.1 ?_
  rw [h.begun]
  exact List.mem_append_right _ (List.mem_map_of_mem (Option.mem_toList.mpr hp))

/-- The account of the attempts outlasts what concerns none of them. -/
theorem Account.keeps (h : Account run attempts pending st s) (hk : Keeps run s t) :
    ∃ later, Account run attempts pending later t ∧ ∀ id, Fresh st s id → Fresh later t id := by
  obtain ⟨later, hf⟩ := hk.frames st h.ledger h.hosts
  refine ⟨later, ⟨hf.ledger, hf.hosts, ?_, hk.begun.trans h.begun, hk.given.trans h.given, ?_,
    hk.begun ▸ h.distinct, h.numbered, h.started, fun p hp => ?_, fun a ha hu => ?_⟩, fun id hid => ?_⟩
  · rw [hk.ids, hf.rows, h.rows]
  · rw [hk.begun, hk.ids]
    exact h.drawn
  · obtain ⟨item, hitem⟩ := h.reserved p hp
    exact hitem.framed (h.pending_drawn hp) hf fun hfin => h.pending_not_mem hp (h.finished hfin)
  · refine (h.held a ha hu).framed (h.drawn a.id ?_) hf
    rw [h.begun]
    exact List.mem_append_left _ (List.mem_map_of_mem ha)
  · refine ⟨hk.ids ▸ hid.drawn, ?_, hf.unused id hid.drawn hid.free⟩
    rw [hk.begun]
    exact hid.unbegun

variable {c : CallConfig} {Admits : FinishContext → RuntimeStore → Prop}

/-- The steps of other tasks before an answer. -/
theorem Account.elsewhere (h : Account run attempts pending st s) {u : RuntimeStore}
    (hu : Elsewhere run s.ids s.store u) : ∃ later, Account run attempts pending later
      { s with store := u } ∧ ∀ id, Fresh st s id → Fresh later { s with store := u } id :=
  h.keeps ⟨rfl, rfl, rfl, hu.frames⟩

theorem Unused.attemptRows {u : RuntimeStore} {id : String} (h : Unused u id)
    (ids : List String) : u.attemptRows (ids ++ [id]) = u.attemptRows ids := by
  refine List.filter_congr fun e he => ?_
  have hne : attemptIdOf e.payload ≠ some id := fun heq => h e he (attemptIdOf_eq_some.mp heq).1
  simp [or_and_right, exists_or, hne]

theorem Unused.reservation {u : RuntimeStore} {id : String} (h : Unused u id)
    (hl : Ledgered u st) : st.reservations.get? id = none := by
  by_contra hn
  obtain ⟨item, hi⟩ := Option.ne_none_iff_exists'.mp hn
  obtain ⟨e, he, -, hr, rfl⟩ := budgetProjection_reserved hl.rebuilds.1 hi
  exact h e (List.mem_of_mem_filter he) (Reservation.ofJson_named hr)

/-- A new identifier, that nothing names. -/
theorem Account.draw (h : Account run attempts none st s) {answer : Except CallError String}
    (hstep : Step c run Admits .uuid answer s t) :
    ∃ hex later, answer = .ok hex ∧ Account run attempts none later t ∧
      Fresh later t ("attempt_" ++ hex) := by
  obtain ⟨⟨u, hother, ⟨hstore, hok⟩, hdraws⟩, hbegun, hgiven⟩ := hstep
  cases answer with
  | error error => cases hok
  | ok hex =>
    obtain ⟨hids, hnew, hunused⟩ := hdraws
    obtain ⟨later, ha, -⟩ := h.elsewhere hother
    have hbegun' : t.begun = s.begun := hbegun.trans (List.append_nil _)
    have hgiven' : t.given = s.given := hgiven.trans (List.append_nil _)
    refine ⟨hex, later, rfl, ⟨hstore ▸ ha.ledger, hstore ▸ ha.hosts, ?_, hbegun'.trans ha.begun,
      hgiven'.trans ha.given, ?_, hbegun' ▸ ha.distinct, ha.numbered, ha.started, ha.reserved, ha.held⟩, ⟨?_, ?_, ?_⟩⟩
    · rw [hids, hstore, hunused.attemptRows]
      exact ha.rows
    · rw [hbegun', hids]
      exact fun id hid => List.mem_append_left _ (ha.drawn id hid)
    · simp [hids]
    · rw [hbegun']
      exact fun hmem => hnew (h.drawn _ hmem)
    · exact hunused.reservation ha.ledger

/-- A reservation either opens the next attempt or leaves nothing. -/
theorem Account.begin (h : Account run attempts none st s) (hrun : run.id = c.runId)
    {request : ModelRequest} {identity : Json} {id : String} (hfresh : Fresh st s id)
    (hid : identity.get? "attempt_id" = some (.str id))
    (hnumber : identity.get? "attempt" = some (Json.ofNat (attempts.length + 1)))
    {answer : Except CallError Receipt}
    (hstep : Step c run Admits (.begin request identity) answer s t) :
    ∃ later, (∀ receipt, answer = .ok receipt →
        ∃ started, Account run attempts (some { id, started }) later t) ∧
      ∀ error, answer = .error error → Account run attempts none later t := by
  obtain ⟨⟨u, hother, ⟨context, result, hbegin, rfl⟩, hids⟩, hbegun, hgiven⟩ := hstep
  obtain ⟨mid, ha, hstill⟩ := h.elsewhere hother
  obtain ⟨hdrawn, hnew, hfree⟩ := hstill id hfresh
  have hids' : t.ids = s.ids := hids
  have hgiven' : t.given = s.given := hgiven.trans (List.append_nil _)
  cases result with
  | error error =>
    have hbegun' : t.begun = s.begun := hbegun.trans (List.append_nil _)
    have hstore : t.store = u := RuntimeStore.reserveWith_error hbegin
    obtain rfl : t = { s with store := u } := by
      cases t
      simp_all
    refine ⟨mid, fun receipt heq => ?_, fun _ _ => ha⟩
    cases heq
  | ok receipt =>
    rw [← hrun] at hbegin
    obtain ⟨later, item, started, hledger, hhosts, hpending, hres, hrows, htype, hrunId, hname,
      hpayload⟩ := beginAttempt_ok ha.ledger ha.hosts hid hdrawn hfree hbegin
    have hbegun' : t.begun = s.begun ++ [id] := by
      have hidentity : attemptIdOf identity = some id := by
        rw [attemptIdOf_eq_some] at hname ⊢
        exact ⟨hid, hname.2⟩
      rw [hbegun]
      simp [begins, hidentity, Except.mapError]
    refine ⟨later, fun _ _ => ⟨started, hledger, hhosts, ?_, ?_, ?_, ?_, ?_, ha.numbered, ?_, ?_,
      ?_⟩, fun error heq => ?_⟩
    · rw [hids', hrows, ha.rows]
      simp
    · rw [hbegun', h.begun]
      simp
    · rw [hgiven', h.given]
      simp [OpenAttempt.given]
    · rw [hbegun', hids']
      intro id' hid'
      rcases List.mem_append.mp hid' with hid' | hid'
      · exact h.drawn id' hid'
      · rwa [List.mem_singleton.mp hid']
    · rw [hbegun', ← List.concat_eq_append]
      exact h.distinct.concat hnew
    · intro p hp
      obtain rfl := Option.mem_some_iff.mp hp
      refine ⟨htype, hrunId, hname, ?_⟩
      rw [hpayload, get?_merge]
      exact hnumber
    · intro p hp
      obtain rfl := Option.mem_some_iff.mp hp
      exact ⟨item, hpending⟩
    · intro a hmem hu
      refine (ha.held a hmem hu).set hres ?_
      rintro rfl
      refine hnew ?_
      rw [h.begun]
      exact List.mem_append_left _ (List.mem_map_of_mem hmem)
    · cases heq

/-- A question to the provider: its response, if there is one, is that of the open attempt. -/
theorem Account.answer {q : Ask} {answer : Except CallError q.Reply} {id : String} {started : Event}
    (h : Account run attempts (some { id, started }) st s)
    (hq : (∃ request, q = .complete request) ∨ ∃ request, q = .stream request)
    (hstep : Step c run Admits q answer s t) :
    ∃ later, Account run attempts (some { id, started, answer := returned q answer }) later t := by
  obtain ⟨⟨u, hother, hanswer, hdraws⟩, hbegun, hgiven⟩ := hstep
  obtain ⟨later, ha, -⟩ := h.elsewhere hother
  have hquiet : t.store = u ∧ t.ids = s.ids ∧ t.begun = s.begun := by
    rcases hq with ⟨request, rfl⟩ | ⟨request, rfl⟩
    · exact ⟨hanswer, hdraws, hbegun.trans (List.append_nil _)⟩
    · exact ⟨hanswer, hdraws, hbegun.trans (List.append_nil _)⟩
  obtain ⟨hstore, hids, hbegun'⟩ := hquiet
  have hlast : s.begun.getLast? = some id := by simp [h.begun]
  refine ⟨later, hstore ▸ ha.ledger, hstore ▸ ha.hosts, ?_, ?_, ?_, ?_, hbegun' ▸ ha.distinct,
    ha.numbered, fun p hp => ?_, fun p hp => ?_, ha.held⟩
  · rw [hids, hstore]
    exact ha.rows
  · exact hbegun'.trans ha.begun
  · rw [hgiven, h.given, hlast]
    simp [OpenAttempt.given]
  · rw [hbegun', hids]
    exact h.drawn
  · obtain rfl := Option.mem_some_iff.mp hp
    obtain ⟨htype, hrun, hname, hnumber⟩ := ha.started { id, started } rfl
    exact ⟨htype, hrun, hname, hnumber⟩
  · obtain rfl := Option.mem_some_iff.mp hp
    exact ha.reserved { id, started } rfl

/-- A finish fact closes the pending attempt. -/
theorem Account.finish {id : String} {started : Event} {response : Option ModelResponse}
    (h : Account run attempts (some { id, started, answer := response }) st s) (hrun : run.id = c.runId)
    {finished : Json} {usage : Option (Dict String ℕ)}
    (hf : Finishes finished id (attempts.length + 1)) (hu : reportedBy finished usage)
    (hnamed : ∀ u ∈ usage, Named u) {answer : Except CallError Receipt}
    (hstep : Step c run Faultless (.finish (some finished)) answer s t) :
    ∃ later last, Account run (attempts ++ [last]) none later t ∧
      last.answer = response ∧ last.finished.payload = finished := by
  obtain ⟨⟨u, hother, ⟨context, result, hsound, hfinish, rfl⟩, hids⟩, hbegun, hgiven⟩ := hstep
  obtain ⟨mid, ha, -⟩ := h.elsewhere hother
  have hids' : t.ids = s.ids := hids
  have hbegun' : t.begun = s.begun := hbegun.trans (List.append_nil _)
  have hgiven' : t.given = s.given := hgiven.trans (List.append_nil _)
  have hp : { id, started, answer := response } ∈
    some { id, started, answer := response : OpenAttempt } := rfl
  obtain ⟨item, hpending⟩ := ha.reserved _ hp
  obtain ⟨args, hargs, rfl, hobs⟩ := finishArgs_ok ha.hosts hf hpending.named hu hnamed
  obtain ⟨p, hpay, hempty⟩ := payload_ok args (usage.getD Dict.empty)
  rw [← hrun] at hfinish
  obtain ⟨later, row, hledger, hhosts, hres, hrows, htype, hrunId, hname, hpayload⟩ :=
    finishAttempt_pending ha.ledger ha.hosts hsound hpending (ha.pending_drawn hp) hargs
      hf.otherBasis hobs hpay hfinish
  have hstart := ha.started _ hp
  have hnot := ha.pending_not_mem hp
  have hlast : AttemptFacts.Numbered run (attempts.length + 1)
      ⟨args.attemptId, started, response, row⟩ :=
    ⟨hstart.type, htype, hstart.runId, hrunId, hstart.named, hname, hstart.number,
      hpayload ▸ hf.attempt⟩
  refine ⟨later, ⟨args.attemptId, started, response, row⟩, ⟨hledger, hhosts, ?_, ?_, ?_, ?_,
    hbegun' ▸ ha.distinct, numbered_concat ha.numbered hlast, by simp, by simp, ?_⟩, rfl, hpayload⟩
  · rw [hids', hrows, ha.rows]
    simp [AttemptFacts.rows]
  · rw [hbegun', h.begun]
    simp
  · rw [hgiven', h.given]
    simp [OpenAttempt.given, AttemptFacts.given]
  · rw [hbegun', hids']
    exact h.drawn
  · intro a hmem hunreported
    rcases List.mem_append.mp hmem with hmem | hmem
    · exact (ha.held a hmem hunreported).set hres fun heq => hnot (heq ▸ List.mem_map_of_mem hmem)
    · obtain rfl := List.mem_singleton.mp hmem
      have hnone : usage = none := by
        have husage := hunreported.usage
        rw [hpayload, hu] at husage
        exact Option.map_eq_none_iff.mp husage
      obtain ⟨hactual, hobserved⟩ := hempty (by rw [hnone]; rfl)
      exact ⟨{ item with settlement := some p }, by rw [hres]; simp, rfl, by
        simp [BudgetItem.amount, hactual, hobserved]⟩

end Eventide.ModelCalls
