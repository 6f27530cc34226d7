import Eventide.Verification.ModelCalls.Account

/-! # The lifecycle of the attempts of a model call -/

namespace Eventide.ModelCalls

open Outcome Interaction Interaction.Program

variable {c : CallConfig} {run : Run} {s t : CallState}

/-! ## What neither starts nor finishes an attempt -/

theorem suppress_quiet {p : Call Unit} (hp : p.Uses Quiet) : (suppress p).Uses Quiet := by
  refine hp.attempt.bind fun r => ?_
  cases r with
  | ok value => trivial
  | error error => cases error <;> trivial

theorem notify_quiet : (notify c).Uses Quiet := by
  unfold notify
  split
  · exact suppress_quiet (uses_call trivial)
  · trivial

theorem emit_quiet {kind : EventType} (h : kind.Aside) (payload : Option Json) :
    (emit c kind payload).Uses Quiet := by
  have hask : (ask (.emit kind payload)).Uses Quiet := uses_call h
  exact hask.bind fun _ => notify_quiet

theorem warn_quiet (attemptId : String) (receipt : Receipt) :
    (warn c attemptId receipt).Uses Quiet := by
  unfold warn
  split
  · trivial
  · exact emit_quiet (by decide) _

theorem dispatchRequest_quiet {request : ModelRequest} {allowed : List String}
    {requestId attemptId : String} :
    (dispatchRequest c request allowed requestId attemptId).Uses Quiet := by
  unfold dispatchRequest
  split
  · split
    · exact (uses_call trivial).bind fun _ => trivial
    · trivial
  · trivial

theorem attemptRequest_quiet : (attemptRequest c).Uses Quiet := by
  unfold attemptRequest
  split
  · exact (uses_call trivial).bind fun _ => trivial
  · trivial

theorem streaming_quiet : (streaming c).Uses Quiet := by
  unfold streaming
  split
  · exact uses_call trivial
  · trivial

theorem retry_quiet {identity : Json} {limit attempt : ℕ} {transient : Bool} {message : PyStr}
    {raised : CallError} :
    (retry c identity limit attempt transient message raised).Uses Quiet := by
  refine streaming_quiet.bind fun streaming => (emit_quiet (by decide) _).bind fun _ => ?_
  split <;> trivial

/-! ## What the answers bring -/

/-- A request that a provider streams. -/
def Streams (c : CallConfig) : Prop := c.kind = "agent" ∧ c.streams = true

theorem streaming_answer : (streaming c).Leads (SoundStep c run) s
    fun r _ => ∀ answer, r = .ok answer → (answer = true ↔ Streams c) := by
  unfold streaming
  split
  · rename_i hkind
    refine leads_call.mpr fun answer t hstep streams h => ?_
    obtain ⟨⟨⟨u, -, ⟨-, hanswer⟩, -⟩, -, -⟩, -⟩ := hstep
    rw [hanswer streams h]
    exact ⟨fun hs => ⟨hkind, hs⟩, fun hs => hs.2⟩
  · rename_i hkind
    intro answer h
    obtain rfl := Except.ok.inj h
    exact iff_of_false (by decide) fun hs => hkind hs.1

/-- A call goes on to another attempt only where no stream was asked for, and only below its
limit. -/
theorem retry_goes_on {identity : Json} {limit attempt : ℕ} {transient : Bool} {message : PyStr}
    {raised : CallError} : (retry c identity limit attempt transient message raised).Leads
      (SoundStep c run) s fun r _ => r = .ok () → ¬ Streams c ∧ attempt ≠ limit := by
  refine streaming_answer.bind (fun streaming u hs => ?_) (fun _ _ _ h => by cases h)
  refine leads_true.bind (fun _ v _ => ?_) (fun _ _ _ h => by cases h)
  split
  · exact fun h => by cases h
  · rename_i hgo
    intro _
    obtain ⟨hretry, hlimit⟩ := not_or.mp hgo
    refine ⟨fun hstreams => hretry ?_, hlimit⟩
    simp [(hs streaming rfl).mpr hstreams]

/-! ## One attempt -/

variable {attempts : List AttemptFacts} {pending : Option OpenAttempt} {st : BudgetState}

/-- The account through questions that concern no attempt. -/
theorem Account.leads (h : Account run attempts pending st s) {α : Type} {p : Call α}
    (hp : p.Uses Quiet) : p.Leads (SoundStep c run) s fun _ t =>
      ∃ later, Account run attempts pending later t ∧
        ∀ id, Fresh st s id → Fresh later t id :=
  (keeps_of_uses hp).mono fun _ _ hk => h.keeps hk

/-- The clock that always answers. -/
theorem Account.clock (h : Account run attempts pending st s) :
    (ask .clock).Leads (SoundStep c run) s fun r t => r.isOk ∧
      ∃ later, Account run attempts pending later t ∧
        ∀ id, Fresh st s id → Fresh later t id := by
  have hquiet : Quiet .clock := trivial
  refine leads_call.mpr fun answer t hstep => ⟨?_, h.keeps (hstep.step.keeps hquiet)⟩
  obtain ⟨⟨⟨u, -, ⟨-, hok⟩, -⟩, -, -⟩, -⟩ := hstep
  exact hok

variable {requestId attemptId callKind : String} {limit : ℕ} {started : Event} {clock : ℚ}

/-- What the body of an attempt leaves: a response that it returns is the one that the provider
has given, and where it raises there is none. -/
def Sent (run : Run) (attempts : List AttemptFacts) (id : String) (started : Event)
    (r : Except CallError ModelResponse) (t : CallState) : Prop :=
  (∃ later, Account run attempts (some { id, started, answer := r.toOption }) later t) ∧
    ∀ response, r = .ok response → Recordable response

theorem Sent.raised {id : String} (h : Account run attempts (some { id, started }) st t)
    (error : CallError) : Sent run attempts id started (.error error) t :=
  ⟨⟨st, h⟩, fun _ hr => by cases hr⟩

/-- A question to the provider is the last of the body. -/
theorem completeRequest_leads {id : String} {request : ModelRequest} {allowed : List String}
    (h : Account run attempts (some { id, started }) st s) :
    (completeRequest c request allowed requestId attemptId).Leads (SoundStep c run) s
      (Sent run attempts id started) := by
  have hquiet : Quiet .provider := trivial
  have hprovider : (ask .provider).Uses Quiet := uses_call hquiet
  unfold completeRequest
  refine (h.leads dispatchRequest_quiet).bind (fun request' u hu => ?_) fun error u hu => ?_
  swap
  · obtain ⟨later, ha, -⟩ := hu
    exact .raised ha error
  obtain ⟨dispatched, hdispatched, -⟩ := hu
  refine (hdispatched.leads hprovider).bind (fun streams v hv => ?_) fun error v hv => ?_
  swap
  · obtain ⟨later, ha, -⟩ := hv
    exact .raised ha error
  obtain ⟨asked, hasked, -⟩ := hv
  split
  · rw [leads_bind]
    refine leads_call.mpr fun answer w hstep => ?_
    obtain ⟨later, ha⟩ := hasked.answer (.inr ⟨request', rfl⟩) hstep.step
    cases answer with
    | error error => exact .raised ha error
    | ok answer =>
      obtain ⟨events, stop⟩ := answer
      have hrecordable := hstep.recordable
      simp only [returned] at ha hrecordable
      dsimp only
      cases hout : streamOutcome events stop with
      | error error =>
        rw [hout] at ha
        exact .raised ha (sealed events error)
      | ok response =>
        rw [hout] at ha hrecordable
        refine ⟨⟨later, ha⟩, fun response' heq => hrecordable response' ?_⟩
        exact congrArg Except.toOption heq
  · refine leads_call.mpr fun answer w hstep => ?_
    obtain ⟨later, ha⟩ := hasked.answer (.inl ⟨request', rfl⟩) hstep.step
    cases answer with
    | error error => exact .raised ha error
    | ok response =>
      exact ⟨⟨later, ha⟩, fun response' heq =>
        hstep.recordable response' (congrArg Except.toOption heq)⟩

theorem send_leads {id : String} {request : ModelRequest} {refs : List String} {receipt : Receipt}
    (h : Account run attempts (some { id, started }) st s) :
    (send c request refs requestId attemptId receipt).Leads (SoundStep c run) s
      (Sent run attempts id started) := by
  unfold send
  refine (h.leads notify_quiet).bind (fun _ u hu => ?_) fun error u hu => ?_
  swap
  · obtain ⟨later, ha, -⟩ := hu
    exact .raised ha error
  obtain ⟨notified, hnotified, -⟩ := hu
  refine (hnotified.leads (warn_quiet attemptId receipt)).bind (fun _ v hv => ?_)
    fun error v hv => ?_
  swap
  · obtain ⟨later, ha, -⟩ := hv
    exact .raised ha error
  obtain ⟨warned, hwarned, -⟩ := hv
  exact completeRequest_leads hwarned

/-- An attempt whose body raises finishes without usage, whatever follows. -/
theorem settleFailed_leads {exc : CallError}
    (h : Account run attempts (some { id := attemptId, started }) st s) (hrun : run.id = c.runId) :
    (settleFailed c (identity c requestId attemptId callKind (attempts.length + 1)) limit
      (attempts.length + 1) clock exc).Leads (SoundStep c run) s fun r t =>
        (∃ later last, Account run (attempts ++ [last]) none later t ∧ last.Unreported) ∧
          (r = .ok () → ¬ Streams c ∧ attempts.length + 1 ≠ limit) := by
  have hpair : ∀ {t : CallState} {last : AttemptFacts} {later : BudgetState} {p : Call Unit},
      Account run (attempts ++ [last]) none later t → last.Unreported → p.Uses Quiet →
      (p.Leads (SoundStep c run) t fun r _ =>
        r = .ok () → ¬ Streams c ∧ attempts.length + 1 ≠ limit) →
      p.Leads (SoundStep c run) t fun r t =>
        (∃ later last, Account run (attempts ++ [last]) none later t ∧ last.Unreported) ∧
          (r = .ok () → ¬ Streams c ∧ attempts.length + 1 ≠ limit) := by
    intro t last later p ha hu hp hgo
    refine ((ha.leads hp).and hgo).mono fun r u hr => ?_
    obtain ⟨⟨later', ha', -⟩, hgo'⟩ := hr
    exact ⟨⟨later', last, ha', hu⟩, hgo'⟩
  unfold settleFailed
  refine h.clock.bind (fun stopped t ht => ?_) (fun _ _ ht => by cases ht.1)
  obtain ⟨-, mid, ha, -⟩ := ht
  rw [leads_bind]
  refine leads_call.mpr fun answer u hstep => ?_
  obtain ⟨later, last, hlast, hanswer, hpayload⟩ := ha.finish hrun finishes_failed
    reportedBy_failed (by simp) hstep.step
  have hu : last.Unreported := by
    refine ⟨hanswer, ?_, ?_, ?_⟩
    · rw [hpayload]
      unfold failedIdentity
      rw [get?_merge]
      cases exc with
      | cancelled => exact .inr rfl
      | _ => exact .inl rfl
    · rw [hpayload]
      unfold failedIdentity
      rw [get?_merge]
      rfl
    · rw [hpayload]
      exact reportedBy_failed
  cases answer with
  | error error => exact ⟨⟨later, last, hlast, hu⟩, fun heq => by cases heq⟩
  | ok receipt =>
    cases exc with
    | timeout | provider => exact hpair hlast hu retry_quiet retry_goes_on
    | cancelled | python => exact ⟨⟨later, last, hlast, hu⟩, fun heq => by cases heq⟩

/-- An attempt with a recordable response finishes with it. -/
theorem settleCompleted_leads {response : ModelResponse}
    (h : Account run attempts (some { id := attemptId, started, answer := some response }) st s)
    (hrun : run.id = c.runId) (hresponse : Recordable response) :
    (settleCompleted c (identity c requestId attemptId callKind (attempts.length + 1)) attemptId
      clock response).Leads (SoundStep c run) s fun _ t =>
        ∃ later last, Account run (attempts ++ [last]) none later t ∧ last.Completed response := by
  unfold settleCompleted
  refine h.clock.bind (fun stopped t ht => ?_) (fun _ _ ht => by cases ht.1)
  obtain ⟨-, mid, ha, -⟩ := ht
  obtain ⟨usage, stopReason, husage, hnamed, hstop, hidentity⟩ :=
    completedIdentity_of_recordable hresponse
      (identity c requestId attemptId callKind (attempts.length + 1)) clock stopped
  rw [hidentity, leads_bind]
  refine leads_call.mpr fun answer u hstep => ?_
  obtain ⟨later, last, hlast, hanswer, hpayload⟩ := ha.finish hrun (.merge rfl rfl rfl)
    (show reportedBy _ (some usage) by rw [reportedBy, get?_merge]; rfl) (by simpa using hnamed)
    hstep.step
  have hc : last.Completed response := by
    refine ⟨hanswer, ?_, ⟨usage, husage, ?_⟩, ⟨stopReason, hstop, ?_⟩⟩
    · rw [hpayload, get?_merge]
      rfl
    · rw [hpayload, get?_merge]
      rfl
    · rw [hpayload, get?_merge]
      rfl
  cases answer with
  | error error => exact ⟨later, last, hlast, hc⟩
  | ok receipt =>
    refine (hlast.leads (notify_quiet.bind fun _ => warn_quiet attemptId receipt)).mono
      fun _ v hv => ?_
    obtain ⟨later', hlater, -⟩ := hv
    exact ⟨later', last, hlater, hc⟩

/-- The reservation of an attempt, of whose refusal nothing is left but a report. -/
theorem reserve_leads {request : ModelRequest} {identity : Json} {id : String}
    (h : Account run attempts none st s) (hrun : run.id = c.runId)
    (hfresh : Fresh st s id) (hid : identity.get? "attempt_id" = some (.str id))
    (hnumber : identity.get? "attempt" = some (Json.ofNat (attempts.length + 1))) :
    (reserve c request requestId identity).Leads (SoundStep c run) s fun r t =>
      match r with
      | .ok _ => ∃ later started, Account run attempts (some { id, started }) later t
      | .error _ => ∃ later, Account run attempts none later t := by
  unfold reserve
  rw [leads_bind, leads_attempt]
  refine leads_call.mpr fun answer t hstep => ?_
  obtain ⟨later, hopen, hnone⟩ := h.begin hrun hfresh hid hnumber hstep.step
  cases answer with
  | ok receipt =>
    obtain ⟨started, ha⟩ := hopen receipt rfl
    exact ⟨later, started, ha⟩
  | error error =>
    have ha := hnone error rfl
    dsimp only
    split
    · rename_i heq
      cases heq
    · refine (ha.leads (emit_quiet (by decide) _)).bind (fun _ u hu => ?_) fun _ u hu => ?_
      · obtain ⟨later', hlater, -⟩ := hu
        exact ⟨later', hlater⟩
      · obtain ⟨later', hlater, -⟩ := hu
        exact ⟨later', hlater⟩
    · rename_i heq
      cases heq
      exact ⟨later, ha⟩

/-- What a round leaves: it goes on after a failed attempt, returns the response of a completed
one, or raises. -/
def RoundLeaves (c : CallConfig) (run : Run) (limit : ℕ) (attempts : List AttemptFacts)
    (r : Except CallError (Option ModelResponse)) (t : CallState) : Prop :=
  (∃ later, Account run attempts none later t ∧ ∃ error, r = .error error) ∨
    ∃ later last, Account run (attempts ++ [last]) none later t ∧
      ((last.Unreported ∧ ∀ returned, r = .ok returned →
          returned = none ∧ ¬ Streams c ∧ attempts.length + 1 ≠ limit) ∨
        ∃ response, last.Completed response ∧ ∀ returned, r = .ok returned →
          returned = some response)

theorem oneAttempt_leads (h : Account run attempts none st s) (hrun : run.id = c.runId) :
    (oneAttempt c requestId callKind limit (attempts.length + 1)).Leads (SoundStep c run) s
      (RoundLeaves c run limit attempts) := by
  have hraise : ∀ {t : CallState} {later : BudgetState} (error : CallError),
      Account run attempts none later t → RoundLeaves c run limit attempts (.error error) t :=
    fun error ha => .inl ⟨_, ha, error, rfl⟩
  have hquiet : Quiet .slot := trivial
  have hslot : (ask .slot).Uses Quiet := uses_call hquiet
  unfold oneAttempt
  refine (h.leads hslot).bind (fun _ t ht => ?_) fun error t ht => ?_
  swap
  · obtain ⟨later, ha, -⟩ := ht
    exact hraise error ha
  obtain ⟨first, hfirst, -⟩ := ht
  rw [leads_bind]
  refine leads_call.mpr fun answer u hstep => ?_
  obtain ⟨hex, drawn, rfl, hdraw, hfresh⟩ := hfirst.draw hstep.step
  dsimp only
  refine hdraw.clock.bind (fun clock v hv => ?_) (fun _ _ hv => by cases hv.1)
  obtain ⟨-, ticked, hticked, hstill⟩ := hv
  refine (hticked.leads attemptRequest_quiet).bind (fun sent w hw => ?_) fun error w hw => ?_
  swap
  · obtain ⟨later, ha, -⟩ := hw
    exact hraise error ha
  obtain ⟨ready, hready, hstill'⟩ := hw
  obtain ⟨request, refs⟩ := sent
  have hfree := hstill' _ (hstill _ hfresh)
  refine (reserve_leads hready hrun hfree identity_attemptId identity_attempt).bind
    (fun receipt x hx => ?_) fun error x hx => ?_
  swap
  · obtain ⟨later, ha⟩ := hx
    exact hraise error ha
  obtain ⟨opened, startedRow, hopen⟩ := hx
  rw [leads_bind, leads_attempt]
  refine (send_leads hopen).mono fun outcome y hy => ?_
  obtain ⟨⟨sending, hsending⟩, hrecordable⟩ := hy
  cases outcome with
  | error exc =>
    refine (settleFailed_leads hsending hrun).bind (fun _ z hz => ?_) fun error z hz => ?_
    · obtain ⟨⟨later, last, ha, hu⟩, hgo⟩ := hz
      refine .inr ⟨later, last, ha, .inl ⟨hu, fun returned hr => ?_⟩⟩
      exact ⟨(Except.ok.inj hr).symm, hgo rfl⟩
    · obtain ⟨⟨later, last, ha, hu⟩, -⟩ := hz
      exact .inr ⟨later, last, ha, .inl ⟨hu, fun _ hr => by cases hr⟩⟩
  | ok response =>
    refine (settleCompleted_leads hsending hrun (hrecordable response rfl)).bind
      (fun _ z hz => ?_) fun error z hz => ?_
    · obtain ⟨later, last, ha, hc⟩ := hz
      exact .inr ⟨later, last, ha, .inr ⟨response, hc, fun _ hr => (Except.ok.inj hr).symm⟩⟩
    · obtain ⟨later, last, ha, hc⟩ := hz
      exact .inr ⟨later, last, ha, .inr ⟨response, hc, fun _ hr => by cases hr⟩⟩

/-! ## The call -/

/-- The attempts of a call that has ended. -/
structure Lifecycle (c : CallConfig) (run : Run) (st : BudgetState)
    (attempts : List AttemptFacts) (outcome : Except CallError ModelResponse) (t : CallState) :
    Prop where
  ledger : t.store.budgetState = .ok st
  /-- Every attempt has a start and a finish, in the order of the log. -/
  rows : t.store.attemptRows t.ids = attempts.flatMap AttemptFacts.rows
  begun : t.begun = attempts.map (·.id)
  /-- Every response of the provider is that of its attempt, and an attempt has one at most. -/
  given : t.given = attempts.flatMap AttemptFacts.given
  drawn : ∀ id ∈ t.begun, id ∈ t.ids
  distinct : t.begun.Nodup
  numbered : ∀ (k : ℕ) (a : AttemptFacts), attempts[k]? = some a → a.Numbered run (k + 1)
  limit : attempts ≠ [] → ∃ n : ℕ, c.maxAttempts = .int n ∧ attempts.length ≤ n
  streaming : Streams c → attempts.length ≤ 1
  failed : ∀ a ∈ attempts.dropLast, a.Unreported ∧ a.Held st
  last : ∀ a ∈ attempts.getLast?, a.Unreported ∧ a.Held st ∨ ∃ response, a.Completed response
  returned : ∀ response, outcome = .ok response → ∃ a ∈ attempts.getLast?, a.Completed response

/-- What is left when the loop ends. -/
structure Ended (c : CallConfig) (run : Run) (limit : ℕ) (st : BudgetState)
    (attempts : List AttemptFacts) (outcome : Except CallError ModelResponse) (t : CallState) :
    Prop where
  account : Account run attempts none st t
  limited : attempts.length ≤ limit
  streaming : Streams c → attempts.length ≤ 1
  failed : ∀ a ∈ attempts.dropLast, a.Unreported
  last : ∀ a ∈ attempts.getLast?, a.Unreported ∨ ∃ response, a.Completed response
  returned : ∀ response, outcome = .ok response → ∃ a ∈ attempts.getLast?, a.Completed response

/-- The loop may raise wherever every attempt has failed. -/
theorem Ended.raised (h : Account run attempts none st t) (hu : ∀ a ∈ attempts, a.Unreported)
    (hlimit : attempts.length ≤ limit) (hstream : Streams c → attempts.length ≤ 1)
    (error : CallError) : Ended c run limit st attempts (.error error) t :=
  ⟨h, hlimit, hstream, fun a ha => hu a (List.dropLast_subset _ ha),
    fun a ha => .inl (hu a (List.mem_of_getLast? ha)), fun _ hr => by cases hr⟩

theorem Ended.concat {last : AttemptFacts} {outcome : Except CallError ModelResponse}
    (h : Account run (attempts ++ [last]) none st t) (hu : ∀ a ∈ attempts, a.Unreported)
    (hlimit : attempts.length < limit) (hstream : Streams c → attempts = [])
    (hlast : last.Unreported ∨ ∃ response, last.Completed response)
    (hreturned : ∀ response, outcome = .ok response → last.Completed response) :
    Ended c run limit st (attempts ++ [last]) outcome t := by
  refine ⟨h, by simpa [Nat.succ_le_iff] using hlimit, fun hs => by simp [hstream hs], ?_, ?_, fun response hr => ?_⟩
  · rwa [List.dropLast_concat]
  · intro a ha
    obtain rfl : last = a := by simpa using ha
    exact hlast
  · exact ⟨last, by simp, hreturned response hr⟩

/-- The loop, after attempts that have all failed. -/
theorem attempts_leads {left : ℕ} (h : Account run attempts none st s) (hrun : run.id = c.runId)
    (hu : ∀ a ∈ attempts, a.Unreported) (hleft : attempts.length + left = limit)
    (hstream : Streams c → attempts = []) :
    (ModelCalls.attempts c requestId callKind limit left (attempts.length + 1)).Leads
      (SoundStep c run) s fun r t => ∃ later all, Ended c run limit later all r t := by
  induction left generalizing attempts st s with
  | zero =>
    refine ⟨st, attempts, .raised h hu (by omega) (fun hs => ?_) _⟩
    simp [hstream hs]
  | succ left ih =>
    have hlimit : attempts.length < limit := by omega
    unfold ModelCalls.attempts
    refine (oneAttempt_leads h hrun).bind (fun returned t ht => ?_) fun error t ht => ?_
    · rcases ht with ⟨_, -, _, hr⟩ | ⟨later, last, ha, ⟨hlast, hgo⟩ | ⟨response, hc, hr⟩⟩
      · cases hr
      · obtain ⟨rfl, hnot, hne⟩ := hgo returned rfl
        have hsleep : Quiet (.sleep (2 ^ (attempts.length + 1 - 1))) := trivial
        have hall : ∀ a ∈ attempts ++ [last], a.Unreported := by
          intro a hmem
          rcases List.mem_append.mp hmem with hmem | hmem
          · exact hu a hmem
          · rwa [List.mem_singleton.mp hmem]
        refine (ha.leads (uses_call hsleep)).bind (fun _ u hv => ?_) fun error u hv => ?_
        · obtain ⟨later', hlater, -⟩ := hv
          have hnext := ih hlater hall (by simp; omega) fun hs => absurd hs hnot
          simpa using hnext
        · obtain ⟨later', hlater, -⟩ := hv
          exact ⟨later', _, .raised hlater hall (by simp; omega) (fun hs => absurd hs hnot) error⟩
      · obtain rfl := hr returned rfl
        refine ⟨later, _, .concat ha hu hlimit hstream (.inr ⟨response, hc⟩) fun response' hr' => ?_⟩
        obtain rfl := Except.ok.inj hr'
        exact hc
    · rcases ht with ⟨later, ha, -⟩ | ⟨later, last, ha, ⟨hlast, -⟩ | ⟨response, hc, -⟩⟩
      · exact ⟨later, attempts, .raised ha hu hlimit.le (fun hs => by simp [hstream hs]) error⟩
      · exact ⟨later, _, .concat ha hu hlimit hstream (.inl hlast) fun _ hr => by cases hr⟩
      · exact ⟨later, _, .concat ha hu hlimit hstream (.inr ⟨response, hc⟩) fun _ hr => by cases hr⟩

theorem attemptLimit_eq_ok {value : Json} {n : ℕ} (h : attemptLimit value = .ok n) :
    value = .int n := by
  cases value with
  | int k =>
    simp only [attemptLimit] at h
    by_cases hk : 1 ≤ k ∧ k ≤ 3
    · rw [if_pos hk] at h
      rw [← Except.ok.inj h, Int.toNat_of_nonneg (by omega)]
    · rw [if_neg hk] at h
      cases h
  | _ => cases h

theorem Ended.lifecycle {n : ℕ} {outcome : Except CallError ModelResponse}
    (h : Ended c run n st attempts outcome t) (hn : attempts ≠ [] → c.maxAttempts = .int n) :
    Lifecycle c run st attempts outcome t := by
  have ha := h.account
  refine ⟨ha.ledger.rebuilds.1, by simpa using ha.rows, by simpa using ha.begun,
    by simpa using ha.given, ha.drawn, ha.distinct, ha.numbered, fun hne => ⟨n, hn hne, h.limited⟩, h.streaming,
    fun a hmem => ?_, fun a hmem => ?_, h.returned⟩
  · have hu := h.failed a hmem
    exact ⟨hu, ha.held a (List.dropLast_subset _ hmem) hu⟩
  · rcases h.last a hmem with hu | hc
    · exact .inl ⟨hu, ha.held a (List.mem_of_getLast? hmem) hu⟩
    · exact .inr hc

theorem checkOrigin_quiet : (checkOrigin c).Uses Quiet := by
  unfold checkOrigin
  split <;> trivial

theorem completeWithRetry_leads (h : Account run [] none st s) (hrun : run.id = c.runId) :
    (completeWithRetry c).Leads (SoundStep c run) s fun r t =>
      ∃ later all, Lifecycle c run later all r t := by
  have hempty : ∀ {u : CallState} {later : BudgetState} (error : CallError),
      Account run [] none later u → ∃ later' all, Lifecycle c run later' all (.error error) u := by
    intro u later error ha
    have hended : Ended c run 0 later [] (.error error) u :=
      .raised ha (by simp) (by simp) (by simp) error
    exact ⟨later, [], hended.lifecycle (by simp)⟩
  unfold completeWithRetry
  refine (h.leads checkOrigin_quiet).bind (fun _ t ht => ?_) fun error t ht => ?_
  swap
  · obtain ⟨later, ha, -⟩ := ht
    exact hempty error ha
  obtain ⟨checked, hchecked, -⟩ := ht
  cases hlimit : attemptLimit c.maxAttempts with
  | error error => exact hempty error hchecked
  | ok limit =>
    change ((ask .uuid >>= _ : Call ModelResponse)).Leads _ _ _
    rw [leads_bind]
    refine leads_call.mpr fun answer u hstep => ?_
    obtain ⟨hex, drawn, rfl, hdraw, -⟩ := hchecked.draw hstep.step
    dsimp only
    have hquiet : Quiet .admitted := trivial
    refine (hdraw.leads (uses_call hquiet)).bind (fun admitted v hv => ?_) fun error v hv => ?_
    · obtain ⟨later, ha, -⟩ := hv
      refine (attempts_leads ha hrun (by simp) (Nat.zero_add limit) fun _ => rfl).mono
        fun r w hw => ?_
      obtain ⟨later', all, hended⟩ := hw
      exact ⟨later', all, hended.lifecycle fun _ => attemptLimit_eq_ok hlimit⟩
    · obtain ⟨later, ha, -⟩ := hv
      exact hempty error ha

/-- A call over a store that a run of the system builds, for a run in progress: if every response
of the provider can be recorded and no settlement meets a fault, every attempt is paired, and a
returned response is the one that the provider gave the last of them. -/
theorem completeWithRetry_lifecycle {store : RuntimeStore} {outcome : Except CallError ModelResponse}
    (hs : BudgetReachable store) (hh : store.Hosts run) (hrun : run.id = c.runId)
    (h : (completeWithRetry c).Executes (SoundStep c run) { store } outcome t) :
    ∃ st attempts, Lifecycle c run st attempts outcome t := by
  obtain ⟨st, hledger⟩ := hs.ledgered
  have haccount : Account run [] none st { store } :=
    ⟨hledger, hh, by simp [RuntimeStore.attemptRows], rfl, rfl, by simp, by simp, by simp,
      by simp, by simp, by simp⟩
  exact (completeWithRetry_leads haccount hrun).executes h

/-! ## A call that is answered -/

def openRun : Run := { id := "r", sessionId := "s", turnId := "t", startedAt := 0 }

/-- A run that has started. -/
def openStore : RuntimeStore where
  workspaces := [{ workspaceId := "w", name := "w", path := "/w", gitRoot := none, createdAt := 0 }]
  projects := [{ projectId := "p", sourceWorkspaceId := "w", name := "w", gitCommonDir := none
                 createdAt := 0 }]
  workspaceProjects := [{ workspaceId := "w", projectId := "p", kind := .source }]
  sessions := [{ id := "s", workspaceId := "w", createdAt := 0 }]
  turns := [{ id := "t", sessionId := "s", continuationOf := none, createdAt := 0 }]
  runs := [openRun]
  events := [{ eventId := "e", sessionId := "s", turnId := some "t", sessionSeq := 1
               runId := some "r", ts := 0, type := .runStarted, role := "system"
               author := "runtime", payload := .obj [] }]

def agentCall : CallConfig where
  runId := "r"
  request := { system := "", messages := .arr [], tools := .arr [], model := "m" }
  providerName := "scripted"

def beginContext : BeginContext where
  toContext := ledgerContext
  clock := 0
  measure := { floatText := fun _ => [], inputComposition := fun _ => .null }

def finishContext : FinishContext where
  toContext := { ledgerContext with env := RuntimeStore.plainEnv 'b' }
  costs := RuntimeStore.plainEnv 'c'
  estimateCost _ := .ok []

def firstIdentity : Json := identity agentCall "request_q" "attempt_h" "agent" 1

def begun : Except PyError Receipt × RuntimeStore :=
  openStore.beginAttempt beginContext "r" agentCall.request firstIdentity

/-- The first attempt finishes. -/
def finishedWith (identity : Json) : Except PyError Receipt × RuntimeStore :=
  begun.2.finishAttempt finishContext "r" identity

theorem openStore_hosts : openStore.Hosts openRun :=
  ⟨by decide, rfl, ⟨_, List.mem_singleton_self _, rfl⟩, rfl, rfl⟩

theorem begun_ok : ∃ receipt, begun.1 = .ok receipt ∧ receipt.warnings = [] := by
  have h : begun.1.toOption.any (·.warnings.isEmpty) = true := by decide +kernel
  obtain ⟨receipt, hreceipt, hwarnings⟩ := (Option.any_eq_true _ _).mp h
  exact ⟨receipt, eq_ok_of_toOption hreceipt, List.isEmpty_iff.mp hwarnings⟩

theorem begun_sound : begun.2.Sound finishContext.env := by
  have hids : begun.2.events.map (·.eventId) =
      ["e", "aaaaaaaaaaaaaaaa", "aaaaaaaaaaaaaaaa0"] := by decide +kernel
  have hname : ∀ k, (finishContext.env.tick k).uuid.toList =
      'b' :: (List.replicate 15 'b' ++ List.replicate k '0') := fun k => by
    simp [finishContext, RuntimeStore.plainEnv, List.replicate_succ]
  refine ⟨fun k => rfl, fun k e he heq => ?_, fun j k hjk => ?_⟩
  · have hmem := List.mem_map_of_mem (f := fun e : Event => e.eventId) he
    rw [hids, heq] at hmem
    have hchars := List.mem_map_of_mem (f := fun s : String => s.toList) hmem
    rw [hname] at hchars
    simp at hchars
  · have hlists := congrArg String.toList hjk
    rw [hname, hname] at hlists
    simpa using congrArg List.length hlists

theorem Step.still {q : Ask} {answer : Except CallError q.Reply} {c : CallConfig} {run : Run}
    {s : CallState} (h : Answers c Faultless s.store q answer s.store)
    (hids : Draws s.ids s.store q answer s.ids) (hbegins : begins q answer = [])
    (hgiven : returned q answer = none) : Step c run Faultless q answer s s :=
  ⟨⟨s.store, .refl, h, hids⟩, by rw [hbegins, List.append_nil],
    by rw [hgiven, Option.toList_none, List.map_nil, List.append_nil]⟩

/-- The first attempt is started. -/
def startedState : CallState := ⟨begun.2, ["attempt_q", "attempt_h"], ["attempt_h"], []⟩

/-- The provider has answered the first attempt. -/
def answeredState (response : ModelResponse) : CallState :=
  { startedState with given := [(some "attempt_h", response)] }

/-- The steps of a call around the settlement of its first attempt. -/
theorem agentCall_executes
    {step : (q : Ask) → Except CallError q.Reply → CallState → CallState → Prop}
    {response : ModelResponse} {r : Except CallError Unit} {t : CallState}
    (hstep : ∀ (q : Ask) (answer : Except CallError q.Reply) (s t : CallState),
      Step agentCall openRun Faultless q answer s t →
        (∀ given ∈ returned q answer, given = response) → step q answer s t)
    (hrest : (settleCompleted agentCall firstIdentity "attempt_h" 0 response).Executes step
      (answeredState response) r t) :
    (completeWithRetry agentCall).Executes step { store := openStore }
      (r.map fun _ => response) t := by
  obtain ⟨receipt, hbegun, hwarnings⟩ := begun_ok
  have hquiet : ∀ {q : Ask} {answer : Except CallError q.Reply} {s : CallState},
      Answers agentCall Faultless s.store q answer s.store → Draws s.ids s.store q answer s.ids →
      begins q answer = [] → returned q answer = none → (ask q).Executes step s answer s :=
    fun ha hd hb hr => executes_call <| hstep _ _ _ _ (Step.still ha hd hb hr) fun _ h => by
      rw [hr] at h
      cases h
  have hunused : ∀ id, Unused openStore id := by
    intro id e he
    rw [List.mem_singleton.mp he]
    exact fun h => by cases h
  have hrequest : (ask .uuid).Executes step { store := openStore } (.ok "q")
      ⟨openStore, ["attempt_q"], [], []⟩ :=
    executes_call <| hstep _ _ _ _ ⟨⟨openStore, .refl, ⟨rfl, rfl⟩, rfl, by simp,
      hunused "attempt_q"⟩, rfl, rfl⟩ fun _ h => by cases h
  have hattempt : (ask .uuid).Executes step ⟨openStore, ["attempt_q"], [], []⟩ (.ok "h")
      ⟨openStore, ["attempt_q", "attempt_h"], [], []⟩ :=
    executes_call <| hstep _ _ _ _ ⟨⟨openStore, .refl, ⟨rfl, rfl⟩, rfl, by decide,
      hunused "attempt_h"⟩, rfl, rfl⟩ fun _ h => by cases h
  have hbegin : (ask (.begin agentCall.request firstIdentity)).Executes step
      ⟨openStore, ["attempt_q", "attempt_h"], [], []⟩ (.ok receipt) startedState := by
    refine executes_call <| hstep _ _ _ _ ⟨⟨openStore, .refl,
      ⟨beginContext, .ok receipt, Prod.ext hbegun rfl, rfl⟩, rfl⟩, ?_, rfl⟩ fun _ h => by cases h
    have hname : attemptIdOf firstIdentity = some "attempt_h" :=
      attemptIdOf_eq_some.mpr ⟨identity_attemptId, by decide⟩
    simp [begins, hname, startedState]
  have hsend : (send agentCall agentCall.request [] "request_q" "attempt_h" receipt).Executes step
      startedState (.ok response) (answeredState response) := by
    have hwarn : (warn agentCall "attempt_h" receipt).Executes step startedState (.ok ())
        startedState := by
      unfold warn
      rw [if_pos hwarnings]
      exact .done () _
    have hprovider : (ask .provider).Executes step startedState (.ok false) startedState :=
      hquiet ⟨rfl, fun _ h => (Except.ok.inj h).symm⟩ rfl rfl rfl
    have hcomplete : (ask (.complete agentCall.request)).Executes step startedState (.ok response)
        (answeredState response) :=
      executes_call <| hstep _ _ _ _ ⟨⟨begun.2, .refl, rfl, rfl⟩, rfl, rfl⟩ fun _ h =>
        (Option.some.inj h).symm
    exact .bind (.done () _) (.bind hwarn (.bind (.done _ _) (.bind hprovider hcomplete)))
  have hround : (oneAttempt agentCall "request_q" "agent" 3 1).Executes step
      ⟨openStore, ["attempt_q"], [], []⟩ (r.map fun _ => some response) t := by
    have hslot : (ask .slot).Executes step ⟨openStore, ["attempt_q"], [], []⟩ (.ok ())
        ⟨openStore, ["attempt_q"], [], []⟩ := hquiet rfl rfl rfl rfl
    have hclock : (ask .clock).Executes step ⟨openStore, ["attempt_q", "attempt_h"], [], []⟩
        (.ok (0 : ℚ)) ⟨openStore, ["attempt_q", "attempt_h"], [], []⟩ :=
      hquiet ⟨rfl, rfl⟩ rfl rfl rfl
    refine .bind hslot (.bind hattempt (.bind hclock (.bind (.done _ _)
      (.bind (.bind hbegin.attempt (.done receipt _)) (.bind hsend.attempt ?_)))))
    cases r with
    | ok value => exact .bind hrest (.done (some response) t)
    | error error => exact .bind_error hrest
  have hadmitted : (ask .admitted).Executes step ⟨openStore, ["attempt_q"], [], []⟩ (.ok none)
      ⟨openStore, ["attempt_q"], [], []⟩ := hquiet rfl rfl rfl rfl
  refine .bind (.done () _) (.bind (.done 3 _) (.bind hrequest (.bind hadmitted ?_)))
  cases r with
  | ok value => exact .bind hround (.done response t)
  | error error => exact .bind_error hround

def answered : ModelResponse where
  text := .ofString "hi"
  usage := Dict.empty.set (.ofString "input_tokens") 1

def unnamed : ModelResponse := { usage := Dict.empty.set [] 1 }

/-- The finish of the attempt, with whatever the ledger makes of it. -/
theorem finishes_step {response : ModelResponse} {identity : Json} {result : Except PyError Receipt}
    (hi : completedIdentity firstIdentity response 0 0 = some identity)
    (h : (finishedWith identity).1 = result) :
    Step agentCall openRun Faultless (.finish (completedIdentity firstIdentity response 0 0))
      (result.mapError .python) (answeredState response)
      { answeredState response with store := (finishedWith identity).2 } := by
  rw [hi]
  refine ⟨⟨begun.2, .refl, ⟨finishContext, result, begun_sound, Prod.ext h rfl, rfl⟩, rfl⟩, ?_, ?_⟩
  · cases result <;> rfl
  · cases result <;> rfl

/-- A usage whose counters have names: the response is returned, and its attempt is paired. -/
theorem completeWithRetry_lifecycle_answered :
    ∃ t st attempts, (completeWithRetry agentCall).Executes (SoundStep agentCall openRun)
        { store := openStore } (.ok answered) t ∧
      Lifecycle agentCall openRun st attempts (.ok answered) t := by
  have hrecordable : Recordable answered := by
    refine ⟨by decide, fun name hname => ⟨"input_tokens", ?_, by decide⟩⟩
    obtain rfl : name = .ofString "input_tokens" := by
      simpa [answered, Dict.mem_keys_set] using hname
    decide
  have hlift : ∀ (q : Ask) (answer : Except CallError q.Reply) (s t : CallState),
      Step agentCall openRun Faultless q answer s t →
        (∀ given ∈ returned q answer, given = answered) →
        SoundStep agentCall openRun q answer s t := by
    intro q answer s t hs hr
    refine ⟨hs, fun given hg => ?_⟩
    rw [hr given hg]
    exact hrecordable
  have hclock : (ask .clock).Executes (SoundStep agentCall openRun) (answeredState answered)
      (.ok (0 : ℚ)) (answeredState answered) :=
    executes_call <| hlift _ _ _ _ (.still ⟨rfl, rfl⟩ rfl rfl rfl) fun _ h => by cases h
  have hok : (completedIdentity firstIdentity answered 0 0).any fun identity =>
      (finishedWith identity).1.toOption.any (·.warnings.isEmpty) := by
    decide +kernel
  obtain ⟨identity, hidentity, hok⟩ := (Option.any_eq_true _ _).mp hok
  obtain ⟨receipt, hreceipt, hwarnings⟩ := (Option.any_eq_true _ _).mp hok
  have hfinish := executes_call <| hlift _ _ _ _
    (finishes_step hidentity (eq_ok_of_toOption hreceipt)) fun _ h => by cases h
  have hwarn : ∀ s, (warn agentCall "attempt_h" receipt).Executes
      (SoundStep agentCall openRun) s (.ok ()) s := by
    intro s
    unfold warn
    rw [if_pos (List.isEmpty_iff.mp hwarnings)]
    exact .done () s
  have hrun := agentCall_executes hlift
    (.bind hclock (.bind hfinish (.bind (.done () _) (hwarn _))))
  obtain ⟨st, attempts, hlife⟩ := completeWithRetry_lifecycle ⟨openStore, rfl, .refl⟩
    openStore_hosts rfl hrun
  exact ⟨_, st, attempts, hrun, hlife⟩

/-- A counter whose name is blank: the finish raises, and its attempt is left without one. -/
theorem completeWithRetry_unnamed : ¬ ∀ (c : CallConfig) (run : Run) (store : RuntimeStore)
    (outcome : Except CallError ModelResponse) (t : CallState), BudgetReachable store →
    store.Hosts run → run.id = c.runId →
    (completeWithRetry c).Executes (Step c run Faultless) { store } outcome t →
    ∃ st attempts, Lifecycle c run st attempts outcome t := by
  intro hall
  have hclock : (ask .clock).Executes (Step agentCall openRun Faultless) (answeredState unnamed)
      (.ok (0 : ℚ)) (answeredState unnamed) :=
    executes_call <| .still ⟨rfl, rfl⟩ rfl rfl rfl
  have hfails : (completedIdentity firstIdentity unnamed 0 0).any fun identity =>
      !(finishedWith identity).1.isOk &&
        (finishedWith identity).2.events.all (·.type ≠ .modelAttemptFinished) := by
    decide +kernel
  obtain ⟨identity, hidentity, hfails⟩ := (Option.any_eq_true _ _).mp hfails
  obtain ⟨herror, hunfinished⟩ := Bool.and_eq_true_iff.mp hfails
  cases hf : (finishedWith identity).1 with
  | ok receipt =>
    rw [hf] at herror
    cases herror
  | error error =>
    have hfinish := executes_call (finishes_step hidentity hf)
    have hrun := agentCall_executes (fun _ _ _ _ hs _ => hs)
      (.bind hclock (Executes.bind_error hfinish))
    obtain ⟨st, attempts, hlife⟩ := hall agentCall openRun openStore _ _
      ⟨openStore, rfl, .refl⟩ openStore_hosts rfl hrun
    have hbegun : ["attempt_h"] = attempts.map (·.id) := hlife.begun
    cases attempts with
    | nil => cases hbegun
    | cons a rest =>
      have hmem : a.finished ∈ (finishedWith identity).2.attemptRows
          ["attempt_q", "attempt_h"] := by
        have hrows := hlife.rows
        dsimp only [answeredState, startedState] at hrows
        rw [hrows]
        simp [AttemptFacts.rows]
      have htype := (hlife.numbered 0 a rfl).finishedType
      simpa [htype] using List.all_eq_true.mp hunfinished _ (List.mem_of_mem_filter hmem)

end Eventide.ModelCalls
