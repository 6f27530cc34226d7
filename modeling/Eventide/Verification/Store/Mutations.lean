import Eventide.Model.HttpControl
import Eventide.Verification.Store.Log
import Eventide.Verification.Store.Transact

/-! # HTTP mutations run at most once

A mutation that has begun has a first row for good, which every repeat meets. -/

namespace Eventide

open Outcome RuntimeStore

/-! ## Rows of a mutation -/

/-- A row that settles the mutation. -/
inductive IsReceipt (identity : String) (e : Event) : Prop where
  | completed (fields : List (String × Json)) : e.type = .httpMutationCompleted →
      e.payload = (mutationReceipt identity (.obj fields)).payload → IsReceipt identity e
  | failed (message : String) (statusCode : ℤ) (rejected : Bool) : e.type = .httpMutationFailed →
      e.payload = failurePayload identity message statusCode rejected → IsReceipt identity e

/-- A row that the modelled calls add to a mutation that has begun. -/
def Settles (e : Event) : Prop :=
  e.type.isHttpMutation = true → ∃ identity, IsReceipt identity e

theorem settles_of_noReceipt {e : Event} (h : NoReceipt e.type) : Settles e := by
  intro hm
  rw [h] at hm
  cases hm

theorem text_failurePayload (identity message : String) (statusCode : ℤ) (rejected : Bool) :
    (failurePayload identity message statusCode rejected).text "identity" = some identity := rfl

theorem text_mutationReceipt (identity : String) (result : Json) :
    (mutationReceipt identity result).payload.text "identity" = some identity := rfl

/-- A receipt names the mutation that it settles. -/
theorem IsReceipt.identity {identity : String} {e : Event} (h : IsReceipt identity e) :
    e.payload.text "identity" = some identity := by
  cases h with
  | completed fields _ hp => rw [hp, text_mutationReceipt]
  | failed message statusCode rejected _ hp => rw [hp, text_failurePayload]

namespace RuntimeStore

/-- The log grew by rows that only settle mutations. -/
def Appends (s t : RuntimeStore) : Prop :=
  ∃ rows, t.events = s.events ++ rows ∧ ∀ e ∈ rows, Settles e

theorem Appends.refl (s : RuntimeStore) : s.Appends s := ⟨[], by simp, by simp⟩

theorem Appends.trans {s t u : RuntimeStore} (h : s.Appends t) (k : t.Appends u) :
    s.Appends u := by
  obtain ⟨rows, ht, hrows⟩ := h
  obtain ⟨more, hu, hmore⟩ := k
  refine ⟨rows ++ more, by rw [hu, ht, List.append_assoc], fun e he => ?_⟩
  exact (List.mem_append.mp he).elim (hrows e) (hmore e)

theorem Appends.of_events {s t : RuntimeStore} (h : t.events = s.events) : s.Appends t :=
  ⟨[], by simp [h], by simp⟩

/-- The promise of a call whose http rows are receipts. -/
def settling : Promise := ⟨fun _ e => Settles e, fun _ => True⟩

theorem Effect.appends {s t : RuntimeStore} (h : Effect settling s t) : s.Appends t := by
  induction h with
  | refl => exact .refl s
  | event _ _ hp ih =>
    refine ih.trans ⟨[_], rfl, fun e he => ?_⟩
    rw [List.mem_singleton.mp he]
    exact hp
  | run _ _ _ _ _ ih => exact ih.trans (.of_events rfl)
  | frame _ he _ _ ih => exact ih.trans (.of_events he)

/-- The mutation has begun: its first row carries the fingerprint, and the others settle it. -/
def Begun (owner identity fingerprint : String) (s : RuntimeStore) : Prop :=
  ∃ started rest, s.mutationEvents owner identity = started :: rest ∧
    started.type = .httpMutationStarted ∧
    started.payload.text "fingerprint" = some fingerprint ∧ ∀ e ∈ rest, IsReceipt identity e

theorem mutationEvents_append {s t : RuntimeStore} {rows : List Event} (owner identity : String)
    (h : t.events = s.events ++ rows) :
    t.mutationEvents owner identity = s.mutationEvents owner identity ++
      (rows.filter (·.sessionId = owner)).filter fun e =>
        e.type.isHttpMutation && e.payload.text "identity" = some identity := by
  simp [mutationEvents, sessionEvents, h]

/-- A mutation that has begun stays so: its first row is never another. -/
theorem Begun.appends {owner identity fingerprint : String} {s t : RuntimeStore}
    (h : Begun owner identity fingerprint s) (k : s.Appends t) :
    Begun owner identity fingerprint t := by
  obtain ⟨started, rest, hrows, hkind, hprint, hrest⟩ := h
  obtain ⟨rows, ht, hsettles⟩ := k
  have hnew := mutationEvents_append owner identity ht
  rw [hrows, List.cons_append] at hnew
  refine ⟨started, _, hnew, hkind, hprint, fun e he => ?_⟩
  rcases List.mem_append.mp he with he | he
  · exact hrest e he
  · obtain ⟨hin, hmatch⟩ := List.mem_filter.mp he
    simp only [Bool.and_eq_true, decide_eq_true_eq] at hmatch
    obtain ⟨other, hreceipt⟩ := hsettles e (List.mem_filter.mp hin).1 hmatch.1
    obtain rfl : other = identity := Option.some.inj (hreceipt.identity.symm.trans hmatch.2)
    exact hreceipt

/-! ## Commits -/

/-- The log grew by the rows of these facts, in their order. -/
def Committed (owner : String) (facts : List Fact) (s t : RuntimeStore) : Prop :=
  ∃ rows, t.events = s.events ++ rows ∧
    List.Forall₂ (fun e (fact : Fact) => Event.Records e owner fact none false) rows facts

theorem Committed.trans {owner : String} {facts more : List Fact} {s t u : RuntimeStore}
    (h : Committed owner facts s t) (k : Committed owner more t u) :
    Committed owner (facts ++ more) s u := by
  obtain ⟨rows, ht, hrows⟩ := h
  obtain ⟨later, hu, hlater⟩ := k
  exact ⟨rows ++ later, by rw [hu, ht, List.append_assoc], List.rel_append hrows hlater⟩

theorem Committed.of_events {owner : String} {facts : List Fact} {s t u : RuntimeStore}
    (h : Committed owner facts t u) (he : t.events = s.events) : Committed owner facts s u := by
  obtain ⟨rows, ht, hrows⟩ := h
  exact ⟨rows, by rw [ht, he], hrows⟩

theorem committed_one {s t : RuntimeStore} {tick : Tick} {owner : String} {fact : Fact}
    {e : Event} (h : s.appendFactLocked tick owner fact none = .ok (e, t)) :
    Committed owner [fact] s t := by
  rcases appendFactLocked_cases h with ⟨rfl, -, hrec⟩ | ⟨-, -, r, hgiven, -⟩
  · exact ⟨[e], rfl, .cons hrec .nil⟩
  · cases hgiven

/-- Rows of facts of other kinds settle no mutation. -/
theorem Committed.appends {owner : String} {facts : List Fact} {s t : RuntimeStore}
    (h : Committed owner facts s t)
    (hfacts : ∀ fact ∈ facts, ∀ e : Event, e.Records owner fact none false → Settles e) :
    s.Appends t := by
  obtain ⟨rows, ht, hrows⟩ := h
  refine ⟨rows, ht, fun e he => ?_⟩
  obtain ⟨fact, hfact, hrec⟩ := Sequence.mem_of_forall₂ hrows he
  exact hfacts fact hfact e hrec

/-- The receipt of a call that was given an identity. -/
def givenReceipt (mutationId : Option String) (response : Json) : List Fact :=
  if mutationId.any (· ≠ "") then [mutationReceipt (mutationId.getD "") response] else []

/-- The saved row after `provider_update`. -/
def updatedProvider (s : RuntimeStore) (env : Env) :
    Option (Option ProviderConfig) → Option ProviderConfig
  | some record => record.map ({ · with updatedAt := (env.tick 0).now })
  | none => s.providerConfig

/-- The facts of a configuration, as the store appends them. -/
def userFacts (facts : List (EventType × Json)) : List Fact :=
  facts.map fun f => { type := f.1, payload := f.2, author := "user" }

theorem commitConfiguration_spec {s t : RuntimeStore} {env : Env} {owner : String}
    {facts : List (EventType × Json)} {result : RuntimeStore → Except PyError Json}
    {mutationId : Option String} {update : Option (Option ProviderConfig)} {response : Json}
    (h : s.commitConfiguration env owner facts result mutationId update = (.ok response, t)) :
    (∃ u, result u = .ok response) ∧ t.providerConfig = s.updatedProvider env update ∧
      Committed owner (userFacts facts ++ givenReceipt mutationId response) s t := by
  unfold commitConfiguration at h
  rw [transaction_eq_ok] at h
  dsimp only at h
  obtain ⟨s2, ha, h⟩ := bind_eq_ok.mp h
  obtain ⟨r, hr, h⟩ := bind_eq_ok.mp h
  have hs2 : s2.providerConfig = s.updatedProvider env update ∧
      Committed owner (userFacts facts) s s2 := by
    obtain ⟨rows, rfl, hrows⟩ := appendFacts_eq (fun _ _ => .inr rfl) ha
    cases update <;> exact ⟨rfl, rows, rfl, hrows⟩
  unfold givenReceipt
  split at h
  case isTrue hgiven =>
    obtain ⟨⟨e, s3⟩, hl, h⟩ := bind_eq_ok.mp h
    cases h
    rw [if_pos hgiven]
    refine ⟨⟨s2, hr⟩, ?_, hs2.2.trans (committed_one hl)⟩
    rw [← hs2.1]
    rcases appendFactLocked_cases hl with ⟨rfl, -⟩ | ⟨rfl, -⟩ <;> rfl
  case isFalse hnone =>
    cases h
    rw [if_neg hnone, List.append_nil]
    exact ⟨⟨_, hr⟩, hs2⟩

theorem commitSessionMetadata_spec {s t : RuntimeStore} {env : Env}
    {owner sessionId expectedHash mutationId : String}
    {result : RuntimeStore → Except PyError Json} {delete : Bool} {title : Option String}
    {archived : Option Bool} {response : Json}
    (h : s.commitSessionMetadata env owner sessionId expectedHash mutationId result delete title
      archived = (.ok response, t)) :
    (∃ u, result u = .ok response) ∧ ∃ record kind metadata edited fact,
      s.getSession sessionId = some record ∧
      s.editSession record delete title archived = .ok ((kind, metadata), edited) ∧
      t.sessions = edited.sessions ∧ fact.type = kind ∧
      Committed owner [fact, mutationReceipt mutationId response] s t := by
  rw [commitSessionMetadata, transaction_eq_ok] at h
  split at h
  case h_1 => cases h
  case h_2 record hrecord =>
    obtain ⟨_, -, h⟩ := bind_eq_ok.mp h
    obtain ⟨⟨⟨kind, metadata⟩, edited⟩, he, h⟩ := bind_eq_ok.mp h
    obtain ⟨⟨e, s2⟩, hfact, h⟩ := bind_eq_ok.mp h
    obtain ⟨r, hr, h⟩ := bind_eq_ok.mp h
    obtain ⟨⟨e', s3⟩, hreceipt, h⟩ := bind_eq_ok.mp h
    cases h
    have hsame : ∀ {u v : RuntimeStore} {tick : Tick} {fact : Fact} {x : Event},
        u.appendFactLocked tick owner fact none = .ok (x, v) → v.sessions = u.sessions := by
      intro u v tick fact x hx
      rcases appendFactLocked_cases hx with ⟨rfl, -⟩ | ⟨rfl, -⟩ <;> rfl
    have hfirst := (committed_one hfact).of_events (editSession_sameLog he).1
    refine ⟨⟨_, hr⟩, record, kind, metadata, edited, _, hrecord, he,
      (hsame hreceipt).trans (hsame hfact), ?_, hfirst.trans (committed_one hreceipt)⟩
    rfl

theorem transactFacts_spec {α : Type} {s t : RuntimeStore} {env : Env} {owner : String}
    {types : List EventType} {choose : List Event → Except PyError (α × List (EventType × Json))}
    {author : String} {runId : Option String} {result : α}
    (h : s.transactFacts env owner types choose author runId = (.ok result, t)) :
    ∃ additions rows, choose (s.factsByType types) = .ok (result, additions) ∧
      t = { s with events := s.events ++ rows } ∧ ∀ a ∈ additions,
        (∃ e ∈ rows, Adds owner runId author e a) ∨
          (a.1.isTerminal = true ∧ ∃ r, givenRun runId = some r ∧ t.runIsTerminal r = true) := by
  rw [transactFacts, transaction_eq_ok] at h
  obtain ⟨_, -, h⟩ := bind_eq_ok.mp h
  obtain ⟨⟨chosen, additions⟩, hc, h⟩ := bind_eq_ok.mp h
  obtain ⟨last, ha, h⟩ := bind_eq_ok.mp h
  cases h
  obtain ⟨rows, ht, hall⟩ := appendFacts_all ha
  exact ⟨additions, rows, hc, ht, fun a hin => hall _ (List.mem_map_of_mem hin)⟩

/-! ## Calls -/

theorem settles_of_records {owner : String} {fact : Fact} {runId : Option String}
    {isPartial : Bool} {e : Event} (h : NoReceipt fact.type)
    (hrec : e.Records owner fact runId isPartial) : Settles e :=
  settles_of_noReceipt (by rw [NoReceipt, hrec.type_eq, h])

/-- The receipt of a dictionary settles its mutation. -/
theorem settles_of_receipt {owner author identity : String} {result : Json}
    {runId : Option String} {isPartial : Bool} {e : Event} (hr : result.isObj = true)
    (hrec : e.Records owner { type := .httpMutationCompleted, author
                              payload := (mutationReceipt identity result).payload }
      runId isPartial) : Settles e := by
  intro _
  cases result with
  | obj fields => exact ⟨identity, .completed fields hrec.type_eq hrec.payload_eq⟩
  | _ => cases hr

/-- A commit that raises writes nothing. -/
theorem commitConfiguration_unchanged {s : RuntimeStore} {env : Env} {owner : String}
    {facts : List (EventType × Json)} {result : RuntimeStore → Except PyError Json}
    {mutationId : Option String} {update : Option (Option ProviderConfig)} {error : PyError}
    (h : (s.commitConfiguration env owner facts result mutationId update).1 = .error error) :
    (s.commitConfiguration env owner facts result mutationId update).2 = s :=
  transaction_unchanged h

theorem commitSessionMetadata_unchanged {s : RuntimeStore} {env : Env}
    {owner sessionId expectedHash mutationId : String}
    {result : RuntimeStore → Except PyError Json} {delete : Bool} {title : Option String}
    {archived : Option Bool} {error : PyError}
    (h : (s.commitSessionMetadata env owner sessionId expectedHash mutationId result delete title
      archived).1 = .error error) :
    (s.commitSessionMetadata env owner sessionId expectedHash mutationId result delete title
      archived).2 = s :=
  transaction_unchanged h

theorem transactFacts_unchanged {α : Type} {s : RuntimeStore} {env : Env} {owner : String}
    {types : List EventType} {choose : List Event → Except PyError (α × List (EventType × Json))}
    {author : String} {runId : Option String} {error : PyError}
    (h : (s.transactFacts env owner types choose author runId).1 = .error error) :
    (s.transactFacts env owner types choose author runId).2 = s :=
  transaction_unchanged h

theorem commitConfiguration_appends {s : RuntimeStore} (env : Env) (owner : String)
    {facts : List (EventType × Json)} {result : RuntimeStore → Except PyError Json}
    (mutationId : Option String) (update : Option (Option ProviderConfig))
    (hfacts : ∀ fact ∈ facts, NoReceipt fact.1)
    (hresult : ∀ s response, result s = .ok response → response.isObj = true) :
    s.Appends (s.commitConfiguration env owner facts result mutationId update).2 := by
  cases hout : (s.commitConfiguration env owner facts result mutationId update).1 with
  | error error =>
    rw [commitConfiguration_unchanged hout]
    exact .refl s
  | ok response =>
    obtain ⟨⟨u, hu⟩, -, hcommitted⟩ := commitConfiguration_spec (Prod.ext hout rfl)
    refine hcommitted.appends fun fact hfact e hrec => ?_
    rcases List.mem_append.mp hfact with hfact | hfact
    · obtain ⟨f, hf, rfl⟩ := List.mem_map.mp hfact
      exact settles_of_records (hfacts f hf) hrec
    · unfold givenReceipt at hfact
      split at hfact
      · rw [List.mem_singleton.mp hfact] at hrec
        exact settles_of_receipt (hresult u response hu) hrec
      · simp at hfact

theorem editSession_noReceipt {s t : RuntimeStore} {record : Session} {delete : Bool}
    {title : Option String} {archived : Option Bool} {fact : EventType × Json}
    (h : s.editSession record delete title archived = .ok (fact, t)) : NoReceipt fact.1 := by
  unfold editSession at h
  split at h
  · obtain ⟨_, -, h⟩ := bind_eq_ok.mp h
    cases h
    rfl
  · obtain ⟨_, -, h⟩ := bind_eq_ok.mp h
    obtain ⟨_, -, h⟩ := bind_eq_ok.mp h
    cases h
    rfl

theorem commitSessionMetadata_appends {s : RuntimeStore} (env : Env)
    (owner sessionId expectedHash mutationId : String)
    {result : RuntimeStore → Except PyError Json} (delete : Bool) (title : Option String)
    (archived : Option Bool)
    (hresult : ∀ s response, result s = .ok response → response.isObj = true) :
    s.Appends (s.commitSessionMetadata env owner sessionId expectedHash mutationId result delete
      title archived).2 := by
  cases hout : (s.commitSessionMetadata env owner sessionId expectedHash mutationId result delete
      title archived).1 with
  | error error =>
    rw [commitSessionMetadata_unchanged hout]
    exact .refl s
  | ok response =>
    obtain ⟨⟨u, hu⟩, record, kind, metadata, edited, fact, -, he, -, hkind, hcommitted⟩ :=
      commitSessionMetadata_spec (Prod.ext hout rfl)
    refine hcommitted.appends fun other hother e hrec => ?_
    rcases List.mem_cons.mp hother with rfl | hother
    · exact settles_of_records (by rw [hkind]; exact editSession_noReceipt he) hrec
    · rw [List.mem_singleton.mp hother] at hrec
      exact settles_of_receipt (hresult u response hu) hrec

theorem transactFacts_appends {s : RuntimeStore} (env : Env) (owner : String)
    (types : List EventType)
    {choose : List Event → Except PyError (Json × List (EventType × Json))} (author : String)
    (runId : Option String)
    (hchoose : ∀ events result additions, choose events = .ok (result, additions) →
      result.isObj = true ∧ ∀ a ∈ additions, ReceiptOf result a) :
    s.Appends (s.transactFacts env owner types choose author runId).2 := by
  refine Effect.appends (transactFacts_effect ?_)
  intro result additions hc a ha u e _ hrec
  obtain ⟨hobj, hall⟩ := hchoose _ result additions hc
  rcases hall a ha with hnone | ⟨identity, rfl⟩
  · exact settles_of_records hnone hrec
  · exact settles_of_receipt hobj hrec

/-- A store call adds rows that settle mutations, and no others. -/
theorem perform_appends {s : RuntimeStore} (env : Env) {call : StoreCall}
    (h : call.WritesReceipts) : s.Appends (call.perform s env).2 := by
  cases call with
  | createRun runId sessionId continuationOf =>
    exact Effect.appends (createRun_effect s env trivial sessionId continuationOf)
  | admitRun runId sessionId facts continuationOf =>
    refine Effect.appends (admitRun_effect trivial fun done fact rest hd u e _ _ hrec => ?_)
    exact settles_of_records (h fact (by simp [hd])) hrec
  | appendFact sessionId fact runId isPartial =>
    exact Effect.appends (appendFact_effect fun e hrec => settles_of_records h hrec)
  | transactFacts sessionId types choose author runId =>
    exact transactFacts_appends env sessionId types author runId h
  | commitConfiguration owner facts result mutationId update =>
    exact commitConfiguration_appends env owner mutationId update h.1 h.2
  | commitSessionMetadata owner sessionId expectedHash mutationId result delete title archived =>
    exact commitSessionMetadata_appends env owner sessionId expectedHash mutationId delete title
      archived h

/-! ## Receipts -/

/-- What `begin_mutation` did: it answered from the rows, or began, or raised. -/
inductive Begins (d : Digests) (s : RuntimeStore) (header : Option String)
    (owner operation : String) (payload : Json) :
    Except HttpError MutationReceipt × RuntimeStore → Prop where
  | repeated {key : String} {first : Event} {rest : List Event} :
      mutationKey header = .ok key →
      s.mutationEvents owner (mutationIdentity d owner operation key) = first :: rest →
      Begins d s header owner operation payload
        (repeatedMutation (mutationIdentity d owner operation key) owner (d.digest payload)
          first rest, s)
  | fresh {key : String} {e : Event} : mutationKey header = .ok key →
      s.mutationEvents owner (mutationIdentity d owner operation key) = [] → s.Appendable e →
      e.Records owner (startedFact (mutationIdentity d owner operation key) operation
        (d.digest payload)) none false →
      Begins d s header owner operation payload
        (.ok { identity := mutationIdentity d owner operation key, owner },
          { s with events := s.events ++ [e] })
  | raised (error : HttpError) : Begins d s header owner operation payload (.error error, s)

theorem beginMutation_begins (s : RuntimeStore) (d : Digests) (env : Env) (header : Option String)
    (owner operation : String) (payload : Json) :
    Begins d s header owner operation payload
      (s.beginMutation d env header owner operation payload) := by
  unfold beginMutation
  split
  case h_1 error _ => exact .raised error
  case h_2 key hkey =>
    dsimp only
    split
    case h_1 first rest hrows => exact .repeated hkey hrows
    case h_2 hrows =>
      split
      case h_1 e t happ =>
        have ha := transaction_eq_ok.mp happ
        rcases appendFactLocked_cases ha with ⟨rfl, hopen, hrec⟩ | ⟨-, -, r, hgiven, -⟩
        · exact .fresh hkey hrows hopen hrec
        · cases hgiven
      case h_2 error t happ =>
        have ht : t = s := by
          have hsame := transaction_unchanged (congrArg Prod.fst happ)
          rwa [show (transaction s _).2 = t from congrArg Prod.snd happ] at hsame
        rw [ht]
        exact .raised _

/-- Every http row of the log is a first row or settles its mutation. -/
def WellFormed (s : RuntimeStore) : Prop :=
  ∀ e ∈ s.events, e.type = .httpMutationStarted ∨ Settles e

theorem WellFormed.appends {s t : RuntimeStore} (h : s.WellFormed) (k : s.Appends t) :
    t.WellFormed := by
  obtain ⟨rows, ht, hrows⟩ := k
  intro e he
  rw [ht] at he
  exact (List.mem_append.mp he).elim (h e) fun hin => .inr (hrows e hin)

theorem WellFormed.begins {d : Digests} {s : RuntimeStore} {header : Option String}
    {owner operation : String} {payload : Json}
    {out : Except HttpError MutationReceipt × RuntimeStore} (h : s.WellFormed)
    (hb : Begins d s header owner operation payload out) : out.2.WellFormed := by
  cases hb with
  | repeated _ _ => exact h
  | fresh _ _ _ hrec =>
    intro e he
    rcases List.mem_append.mp he with he | he
    · exact h e he
    · rw [List.mem_singleton.mp he]
      exact .inl hrec.type_eq
  | raised error => exact h

/-- A mutation that has begun stays so whatever another `begin_mutation` does. -/
theorem Begun.begins {d : Digests} {s : RuntimeStore} {header : Option String}
    {owner operation : String} {payload : Json} {other identity fingerprint : String}
    {out : Except HttpError MutationReceipt × RuntimeStore}
    (h : Begun other identity fingerprint s)
    (hb : Begins d s header owner operation payload out) :
    Begun other identity fingerprint out.2 := by
  cases hb with
  | repeated _ _ => exact h
  | raised error => exact h
  | @fresh key e hkey hnone _ hrec =>
    obtain ⟨started, rest, hrows, hkind, hprint, hrest⟩ := h
    refine ⟨started, rest, ?_, hkind, hprint, hrest⟩
    rw [mutationEvents_append other identity rfl, hrows, List.cons_append]
    congr 1
    rw [List.append_right_eq_self, List.filter_eq_nil_iff]
    intro x hx hmatch
    obtain ⟨hx, hsession⟩ := List.mem_filter.mp hx
    obtain rfl := List.mem_singleton.mp hx
    simp only [Bool.and_eq_true, decide_eq_true_eq] at hmatch hsession
    have howner : owner = other := hrec.sessionId_eq.symm.trans hsession
    have hid : mutationIdentity d owner operation key = identity := by
      have htext := hmatch.2
      rw [hrec.payload_eq] at htext
      exact Option.some.inj htext
    rw [howner] at hnone hid
    rw [hid, hrows] at hnone
    cases hnone

/-- The answer that a row of this fact keeps for a repeat. -/
inductive KeptAnswer (identity owner : String) :
    Fact → Except HttpError MutationReceipt → Prop where
  | completed (fields : List (String × Json)) :
      KeptAnswer identity owner (mutationReceipt identity (.obj fields))
        (.ok { identity, owner, result := .obj fields })
  | failed (message : String) (statusCode : ℤ) (rejected : Bool) :
      KeptAnswer identity owner
        { type := .httpMutationFailed, author := "user"
          payload := failurePayload identity message statusCode rejected }
        (.error (.http (.int statusCode) (.str message) rejected))

theorem KeptAnswer.text {identity owner : String} {fact : Fact}
    {answer : Except HttpError MutationReceipt} (h : KeptAnswer identity owner fact answer) :
    fact.type.isHttpMutation = true ∧ fact.payload.text "identity" = some identity := by
  cases h with
  | completed fields => exact ⟨rfl, text_mutationReceipt _ _⟩
  | failed message statusCode rejected => exact ⟨rfl, text_failurePayload _ _ _ _⟩

/-- A repeat with the content of the first call is answered from the last row. -/
theorem repeatedMutation_keeps {identity owner fingerprint : String} {first last : Event}
    {rows : List Event} {fact : Fact} {answer : Except HttpError MutationReceipt}
    (hprint : first.payload.text "fingerprint" = some fingerprint)
    (hkeeps : KeptAnswer identity owner fact answer) (htype : last.type = fact.type)
    (hpayload : last.payload = fact.payload) :
    repeatedMutation identity owner fingerprint first (rows ++ [last]) = answer := by
  have hlast : (first :: (rows ++ [last])).getLast (List.cons_ne_nil _ _) = last := by
    rw [List.getLast_cons (by simp), List.getLast_append_singleton]
  unfold repeatedMutation
  rw [if_neg (not_not.mpr hprint)]
  simp only [hlast]
  cases hkeeps with
  | completed fields =>
    rw [htype, hpayload]
    rfl
  | failed message statusCode rejected =>
    rw [htype, hpayload]
    cases rejected with
    | true => rfl
    | false => rfl

/-- What the rows after the first one have recorded. -/
inductive Answers (identity owner : String) :
    List Event → Except HttpError MutationReceipt → Prop where
  | unknown : Answers identity owner [] (.error .outcomeUnknown)
  | completed {rows : List Event} {e : Event} (fields : List (String × Json)) :
      e.type = .httpMutationCompleted →
      e.payload = (mutationReceipt identity (.obj fields)).payload →
      Answers identity owner (rows ++ [e]) (.ok { identity, owner, result := .obj fields })
  | failed {rows : List Event} {e : Event} (message : String) (statusCode : ℤ) (rejected : Bool) :
      e.type = .httpMutationFailed →
      e.payload = failurePayload identity message statusCode rejected →
      Answers identity owner (rows ++ [e])
        (.error (.http (.int statusCode) (.str message) rejected))

/-- An answer is never a fresh receipt. -/
theorem Answers.not_fresh {identity owner : String} {rows : List Event}
    {out : Except HttpError MutationReceipt} (h : Answers identity owner rows out)
    {receipt : MutationReceipt} (hr : out = .ok receipt) : receipt.result ≠ .null := by
  cases h with
  | unknown => cases hr
  | completed fields _ _ =>
    cases hr
    simp
  | failed => cases hr

theorem repeatedMutation_answers {identity owner fingerprint : String} {first : Event}
    {rest : List Event} (hkind : first.type = .httpMutationStarted)
    (hprint : first.payload.text "fingerprint" = some fingerprint)
    (hrest : ∀ e ∈ rest, IsReceipt identity e) :
    Answers identity owner rest (repeatedMutation identity owner fingerprint first rest) := by
  rcases List.eq_nil_or_concat rest with rfl | ⟨rows, e, rfl⟩
  · unfold repeatedMutation
    rw [if_neg (not_not.mpr hprint)]
    simp only [List.getLast_singleton, hkind]
    exact .unknown
  · rw [List.concat_eq_append] at *
    cases hrest e (by simp) with
    | completed fields hdone hp =>
      rw [repeatedMutation_keeps hprint (.completed fields) hdone hp]
      exact .completed fields hdone hp
    | failed message statusCode rejected hdone hp =>
      rw [repeatedMutation_keeps hprint (.failed message statusCode rejected) hdone hp]
      exact .failed message statusCode rejected hdone hp

/-- The rows of a well-formed log that a mutation has are answered without a fresh receipt. -/
theorem repeatedMutation_not_fresh {s : RuntimeStore} (h : s.WellFormed)
    {identity owner fingerprint : String} {first : Event} {rest : List Event}
    (hrows : s.mutationEvents owner identity = first :: rest) {receipt : MutationReceipt}
    (hr : repeatedMutation identity owner fingerprint first rest = .ok receipt) :
    receipt.result ≠ .null := by
  unfold repeatedMutation at hr
  split at hr
  · cases hr
  · dsimp only at hr
    generalize hlast : (first :: rest).getLast (List.cons_ne_nil first rest) = terminal at hr
    have hin : terminal ∈ s.mutationEvents owner identity := by
      rw [hrows, ← hlast]
      exact List.getLast_mem _
    split at hr
    case h_1 hkind =>
      have hsettles := (h terminal (List.mem_filter.mp (List.mem_filter.mp hin).1).1).resolve_left
        (by rw [hkind]; simp)
      obtain ⟨other, hreceipt⟩ := hsettles (by rw [hkind]; rfl)
      cases hreceipt with
      | completed fields _ hp =>
        rw [hp] at hr
        cases hr
        simp
      | failed message statusCode rejected hdone hp =>
        rw [hkind] at hdone
        cases hdone
    case h_2 => split at hr <;> cases hr
    case h_3 => cases hr

end RuntimeStore

namespace HttpCall

theorem appendFact_appends {s : RuntimeStore} {env : Env} {owner : String} {fact : Fact}
    (h : ∀ e : Event, e.Records owner fact none false → Settles e) :
    s.Appends (s.appendFact env owner fact).2 :=
  Effect.appends (appendFact_effect h)

theorem finish_appends (s : RuntimeStore) (env : Env) (receipt : MutationReceipt)
    (result : List (String × Json)) : s.Appends (s.finishMutation env receipt result).2 := by
  refine appendFact_appends fun e hrec => ?_
  have hobj : (Json.obj result).isObj = true := rfl
  exact settles_of_receipt hobj hrec

theorem fail_appends (s : RuntimeStore) (env : Env) (receipt : MutationReceipt) (message : String)
    (statusCode : ℤ) (rejected : Bool) :
    s.Appends (s.failMutation env receipt message statusCode rejected).2 :=
  appendFact_appends fun _ hrec _ =>
    ⟨receipt.identity, .failed message statusCode rejected hrec.type_eq hrec.payload_eq⟩

/-- A call begins a mutation, or adds rows that settle mutations. -/
theorem perform_cases (d : Digests) (s : RuntimeStore) (env : Env) (call : HttpCall) :
    s.Appends (call.perform d s env) ∨ ∃ header owner operation payload out,
      Begins d s header owner operation payload out ∧ call.perform d s env = out.2 := by
  cases call with
  | begin header owner operation payload =>
    exact .inr ⟨header, owner, operation, payload, _,
      beginMutation_begins s d env header owner operation payload, rfl⟩
  | finish receipt result => exact .inl (finish_appends s env receipt result)
  | fail receipt message statusCode rejected =>
    exact .inl (fail_appends s env receipt message statusCode rejected)
  | commit call receipts => exact .inl (perform_appends env receipts)

theorem wellFormed_after (d : Digests) (stateRoot : String) (calls : List (Env × HttpCall)) :
    (after d { stateRoot } calls).WellFormed := by
  refine runCalls_invariant (I := WellFormed) (fun s c h => ?_) (by intro e he; cases he) calls
  rcases perform_cases d s c.1 c.2 with happ | ⟨_, _, _, _, out, hb, heq⟩
  · exact h.appends happ
  · rw [heq]
    exact h.begins hb

theorem begun_after {d : Digests} {s : RuntimeStore} {owner identity fingerprint : String}
    (h : Begun owner identity fingerprint s) (calls : List (Env × HttpCall)) :
    Begun owner identity fingerprint (after d s calls) := by
  refine runCalls_invariant (I := Begun owner identity fingerprint) (fun s c h => ?_) h calls
  rcases perform_cases d s c.1 c.2 with happ | ⟨_, _, _, _, out, hb, heq⟩
  · exact h.appends happ
  · rw [heq]
    exact h.begins hb

theorem logInvariant_after (d : Digests) (stateRoot : String) (calls : List (Env × HttpCall)) :
    LogInvariant (after d { stateRoot } calls) := by
  refine runCalls_invariant (I := LogInvariant) (fun s c h => ?_) (.empty stateRoot) calls
  obtain ⟨env, call⟩ := c
  let anything : Promise := ⟨fun _ _ => True, fun _ => True⟩
  cases call with
  | begin header owner operation payload =>
    have hb := beginMutation_begins s d env header owner operation payload
    change LogInvariant (s.beginMutation d env header owner operation payload).2
    generalize s.beginMutation d env header owner operation payload = out at hb
    cases hb with
    | repeated _ _ => exact h
    | fresh _ _ hopen _ => exact h.event hopen
    | raised error => exact h
  | finish receipt result =>
    exact h.effect (P := anything) (appendFact_effect fun _ _ => trivial)
  | fail receipt message statusCode rejected =>
    exact h.effect (P := anything) (appendFact_effect fun _ _ => trivial)
  | commit call receipts => exact h.effect (call.perform_effect env (call.writes_any s))

end HttpCall

namespace RuntimeStore

/-! ## The guarantee -/

/-- What a repeat of a begun mutation meets in a later store. -/
structure Repeated (d : Digests) (u : RuntimeStore) (receipt : MutationReceipt)
    (payload payload' : Json) (out : Except HttpError MutationReceipt × RuntimeStore) :
    Prop where
  unchanged : out.2 = u
  not_fresh : ∀ again, out.1 = .ok again → again.result ≠ .null
  same : d.text payload' = d.text payload → ∃ first rest,
    u.mutationEvents receipt.owner receipt.identity = first :: rest ∧
      first.type = .httpMutationStarted ∧ Answers receipt.identity receipt.owner rest out.1
  /-- SHA-256 tells the two payloads apart. -/
  other : (d.digest payload' = d.digest payload → d.text payload' = d.text payload) →
    d.text payload' ≠ d.text payload → out.1 = .error .otherContent

/-- A begun mutation is met by every repeat of it. -/
theorem Begun.repeated {d : Digests} {u : RuntimeStore} {header : Option String}
    {owner operation key : String} {payload : Json} (hkey : mutationKey header = .ok key)
    (h : Begun owner (mutationIdentity d owner operation key) (d.digest payload) u) (env : Env)
    (payload' : Json) :
    Repeated d u { identity := mutationIdentity d owner operation key, owner } payload payload'
      (u.beginMutation d env header owner operation payload') := by
  obtain ⟨started, rest, hrows, hkind, hprint, hrest⟩ := h
  have heq : u.beginMutation d env header owner operation payload' =
      (repeatedMutation (mutationIdentity d owner operation key) owner (d.digest payload')
        started rest, u) := by
    simp only [beginMutation, hkey, hrows]
  have hsame : d.digest payload' = d.digest payload →
      Answers (mutationIdentity d owner operation key) owner rest
        (repeatedMutation (mutationIdentity d owner operation key) owner (d.digest payload')
          started rest) := by
    intro hd
    rw [hd]
    exact repeatedMutation_answers hkind hprint hrest
  have hother : d.digest payload' ≠ d.digest payload →
      repeatedMutation (mutationIdentity d owner operation key) owner (d.digest payload')
        started rest = .error .otherContent := by
    intro hd
    unfold repeatedMutation
    rw [if_pos]
    intro hp
    exact hd (Option.some.inj (hp.symm.trans hprint))
  rw [heq]
  refine ⟨rfl, fun again hok => ?_, fun htext => ?_, fun hcollision htext => ?_⟩
  · by_cases hd : d.digest payload' = d.digest payload
    · exact (hsame hd).not_fresh hok
    · rw [show repeatedMutation _ _ _ _ _ = .error .otherContent from hother hd] at hok
      cases hok
  · exact ⟨started, rest, hrows, hkind, hsame (congrArg d.sha256 htext)⟩
  · exact hother fun hd => htext (hcollision hd)

/-! ## What a settled mutation answers -/

/-- New rows that settle the mutation by this fact, perhaps more than once, and by no other. -/
structure Closes (owner identity : String) (fact : Fact) (rows : List Event) : Prop where
  some : ∃ e ∈ rows, e.sessionId = owner ∧ e.type = fact.type ∧ e.payload = fact.payload
  only : ∀ e ∈ rows, e.type.isHttpMutation = true → e.payload.text "identity" = .some identity →
    e.type = fact.type ∧ e.payload = fact.payload

/-- As long as no further row of the mutation comes, every repeat with the content of the first
call has this answer, and changes nothing. -/
def Recalled (d : Digests) (u : RuntimeStore) (receipt : MutationReceipt) (header : Option String)
    (operation : String) (payload : Json) (answer : Except HttpError MutationReceipt) : Prop :=
  ∀ more : List (Env × HttpCall),
    (HttpCall.after d u more).mutationEvents receipt.owner receipt.identity =
      u.mutationEvents receipt.owner receipt.identity →
    ∀ (env : Env) (payload' : Json), d.text payload' = d.text payload →
      (HttpCall.after d u more).beginMutation d env header receipt.owner operation payload' =
        (answer, HttpCall.after d u more)

theorem Begun.recalled {d : Digests} {s u : RuntimeStore} {header : Option String}
    {owner operation key : String} {payload : Json} (hkey : mutationKey header = .ok key)
    (h : Begun owner (mutationIdentity d owner operation key) (d.digest payload) s)
    {rows : List Event} (hu : u.events = s.events ++ rows) {fact : Fact}
    {answer : Except HttpError MutationReceipt}
    (hkeeps : KeptAnswer (mutationIdentity d owner operation key) owner fact answer)
    (hcloses : Closes owner (mutationIdentity d owner operation key) fact rows) :
    Recalled d u { identity := mutationIdentity d owner operation key, owner } header operation
      payload answer := by
  obtain ⟨started, rest, hrows, -, hprint, -⟩ := h
  have hnew := mutationEvents_append owner (mutationIdentity d owner operation key) hu
  obtain ⟨e, he, howner, htype, hpayload⟩ := hcloses.some
  obtain ⟨hkind, htext⟩ := hkeeps.text
  -- the last row of the mutation is one of the new ones
  have hmem : e ∈ (rows.filter (·.sessionId = owner)).filter fun e => e.type.isHttpMutation &&
      e.payload.text "identity" = some (mutationIdentity d owner operation key) := by
    simp [he, howner, htype, hpayload, hkind, htext]
  obtain ⟨more, last, hlast⟩ := List.eq_nil_or_concat _ |>.resolve_left (List.ne_nil_of_mem hmem)
  rw [List.concat_eq_append] at hlast
  have hin : last ∈ (rows.filter (·.sessionId = owner)).filter fun e => e.type.isHttpMutation &&
      e.payload.text "identity" = some (mutationIdentity d owner operation key) :=
    hlast ▸ List.mem_append_right _ List.mem_cons_self
  obtain ⟨hin, hmatch⟩ := List.mem_filter.mp hin
  simp only [Bool.and_eq_true, decide_eq_true_eq] at hmatch
  obtain ⟨hlasttype, hlastpayload⟩ :=
    hcloses.only last (List.mem_filter.mp hin).1 hmatch.1 hmatch.2
  rw [hlast, hrows, List.cons_append, ← List.append_assoc] at hnew
  intro calls hsame env payload' hcontent
  dsimp only at hsame ⊢
  have hdigest : d.digest payload' = d.digest payload := congrArg d.sha256 hcontent
  simp only [beginMutation, hkey, hsame.trans hnew, hdigest,
    repeatedMutation_keeps hprint hkeeps hlasttype hlastpayload]

theorem closes_of_committed {owner identity : String} {fact : Fact} {facts : List Fact}
    {rows : List Event}
    (h : List.Forall₂ (fun e (fact : Fact) => Event.Records e owner fact none false) rows facts)
    (hmem : fact ∈ facts) (honly : ∀ other ∈ facts, other = fact ∨ NoReceipt other.type) :
    Closes owner identity fact rows where
  some := by
    obtain ⟨e, he, hrec⟩ := Sequence.mem_of_forall₂ h.flip hmem
    exact ⟨e, he, hrec.sessionId_eq, hrec.type_eq, hrec.payload_eq⟩
  only := by
    intro e he hkind _
    obtain ⟨other, hother, hrec⟩ := Sequence.mem_of_forall₂ h he
    rcases honly other hother with rfl | hnone
    · exact ⟨hrec.type_eq, hrec.payload_eq⟩
    · rw [hrec.type_eq, hnone] at hkind
      cases hkind

/-- A mutation is settled by the commit of its fact, among facts that are no receipts. -/
theorem Begun.committed {d : Digests} {s u : RuntimeStore} {header : Option String}
    {owner operation key : String} {payload : Json} (hkey : mutationKey header = .ok key)
    (h : Begun owner (mutationIdentity d owner operation key) (d.digest payload) s)
    {facts : List Fact} (hu : Committed owner facts s u) {fact : Fact}
    {answer : Except HttpError MutationReceipt}
    (hkeeps : KeptAnswer (mutationIdentity d owner operation key) owner fact answer)
    (hmem : fact ∈ facts) (honly : ∀ other ∈ facts, other = fact ∨ NoReceipt other.type) :
    Recalled d u { identity := mutationIdentity d owner operation key, owner } header operation
      payload answer := by
  obtain ⟨rows, hevents, hrows⟩ := hu
  exact h.recalled hkey hevents hkeeps (closes_of_committed hrows hmem honly)

/-- A fact of a session is committed, or the store raises and nothing changes. -/
theorem appendFact_committed (s : RuntimeStore) (env : Env) (owner : String) (fact : Fact) :
    (∃ e u, s.appendFact env owner fact = (.ok e, u) ∧ Committed owner [fact] s u) ∨
      ∃ error, s.appendFact env owner fact = (.error error, s) := by
  rcases transaction_eq s (s.appendFactLocked (env.tick 0) owner fact none false) with
    ⟨e, u, hbody, happ⟩ | ⟨error, -, happ⟩
  · exact .inl ⟨e, u, happ, committed_one hbody⟩
  · exact .inr ⟨error, happ⟩

/-- The rows of a transaction whose receipts are for its result. -/
def receiptRows (identity : String) (result : Json) : Promise :=
  ⟨fun _ e => e.type.isHttpMutation = true → e.payload.text "identity" = some identity →
    e.type = .httpMutationCompleted ∧ e.payload = (mutationReceipt identity result).payload,
    fun _ => True⟩

theorem Effect.receiptRows {identity : String} {result : Json} {s u : RuntimeStore}
    (h : Effect (RuntimeStore.receiptRows identity result) s u) :
    ∃ rows, u.events = s.events ++ rows ∧ ∀ e ∈ rows, e.type.isHttpMutation = true →
      e.payload.text "identity" = some identity →
      e.type = .httpMutationCompleted ∧ e.payload = (mutationReceipt identity result).payload := by
  induction h with
  | refl => exact ⟨[], by simp, by simp⟩
  | @event t e _ _ hp ih =>
    obtain ⟨rows, ht, hrows⟩ := ih
    refine ⟨rows ++ [e], by simp [ht], fun x hx => ?_⟩
    rcases List.mem_append.mp hx with hx | hx
    · exact hrows x hx
    · rw [List.mem_singleton.mp hx]
      exact hp
  | run _ _ _ _ _ ih => exact ih
  | frame _ he _ _ ih =>
    obtain ⟨rows, ht, hrows⟩ := ih
    exact ⟨rows, he.trans ht, hrows⟩

/-- A transaction settles the mutation whose receipt is among its additions. -/
theorem Begun.transacted {d : Digests} {s u : RuntimeStore} {header : Option String}
    {owner operation key : String} {payload : Json} (hkey : mutationKey header = .ok key)
    (h : Begun owner (mutationIdentity d owner operation key) (d.digest payload) s) {env : Env}
    {types : List EventType}
    {choose : List Event → Except PyError (Json × List (EventType × Json))} {author : String}
    {runId : Option String} {fields : List (String × Json)} {additions : List (EventType × Json)}
    (hchoose : choose (s.factsByType types) = .ok (.obj fields, additions))
    (hreceipts : ∀ a ∈ additions, ReceiptOf (.obj fields) a)
    (hmem : (.httpMutationCompleted, (mutationReceipt (mutationIdentity d owner operation key)
      (.obj fields)).payload) ∈ additions)
    (hok : s.transactFacts env owner types choose author runId = (.ok (.obj fields), u)) :
    Recalled d u { identity := mutationIdentity d owner operation key, owner } header operation
      payload (.ok { identity := mutationIdentity d owner operation key, owner
                     result := .obj fields }) := by
  have heffect : Effect
      (RuntimeStore.receiptRows (mutationIdentity d owner operation key) (.obj fields)) s u := by
    have hrows : Effect
        (RuntimeStore.receiptRows (mutationIdentity d owner operation key) (.obj fields)) s
        (s.transactFacts env owner types choose author runId).2 := transactFacts_effect
      fun result others hothers a ha _ e _ hrec hkind htext => by
        rw [hchoose] at hothers
        cases hothers
        rcases hreceipts a ha with hnone | ⟨identity, rfl⟩
        · rw [hrec.type_eq, hnone] at hkind
          cases hkind
        · rw [hrec.payload_eq, text_mutationReceipt] at htext
          obtain rfl := Option.some.inj htext
          exact ⟨hrec.type_eq, hrec.payload_eq⟩
    rwa [hok] at hrows
  obtain ⟨rows, hu, honly⟩ := heffect.receiptRows
  obtain ⟨others, added, hothers, ht, hall⟩ := transactFacts_spec hok
  rw [hchoose] at hothers
  cases hothers
  obtain rfl : added = rows := by
    rw [ht] at hu
    exact List.append_cancel_left hu
  refine h.recalled hkey hu (.completed fields) ⟨?_, honly⟩
  rcases hall _ hmem with ⟨e, he, hrec⟩ | ⟨hterminal, -⟩
  · exact ⟨e, he, hrec.sessionId_eq, hrec.type_eq, hrec.payload_eq⟩
  · cases hterminal

/-- A fresh receipt is for a mutation that has begun. -/
theorem begun_of_fresh {d : Digests} {s t : RuntimeStore} (hwell : s.WellFormed) {env : Env}
    {header : Option String} {owner operation : String} {payload : Json}
    {receipt : MutationReceipt}
    (hbegin : s.beginMutation d env header owner operation payload = (.ok receipt, t))
    (hfresh : receipt.result = .null) : ∃ key, mutationKey header = .ok key ∧
      receipt = { identity := mutationIdentity d owner operation key, owner } ∧
      Begun owner (mutationIdentity d owner operation key) (d.digest payload) t := by
  have hb := beginMutation_begins s d env header owner operation payload
  rw [hbegin] at hb
  generalize hout : (Except.ok receipt, t) = out at hb
  cases hb with
  | repeated hkey hrows =>
    exact absurd hfresh (repeatedMutation_not_fresh hwell hrows (Prod.mk.inj hout).1.symm)
  | raised error => cases hout
  | @fresh key e hkey hnone _ hrec =>
    cases hout
    refine ⟨key, hkey, rfl, e, [], ?_, hrec.type_eq, ?_, by simp⟩
    · rw [mutationEvents_append owner _ rfl, hnone, List.nil_append, List.filter_filter,
        List.filter_singleton]
      simp [hrec.sessionId_eq, hrec.type_eq, hrec.payload_eq, startedFact,
        EventType.isHttpMutation, Json.text, Json.str?]
    · rw [hrec.payload_eq]
      rfl

/-- A run that is there has its turn, so its identity is found. -/
theorem LogInvariant.getRunIdentity_none {s : RuntimeStore} (h : s.LogInvariant) {r : String}
    (hnone : s.getRunIdentity r = none) : ∀ run ∈ s.runs, run.id ≠ r := by
  rintro run hrun rfl
  obtain ⟨found, hfound⟩ : ∃ found, s.getRunRow run.id = some found :=
    Option.isSome_iff_exists.mp (List.find?_isSome.mpr ⟨run, hrun, by simp⟩)
  obtain ⟨turn, hturn, hid⟩ := h.turned found (List.mem_of_find?_eq_some hfound)
  obtain ⟨row, hrow⟩ : ∃ row, s.turns.find? (·.id = found.turnId) = some row :=
    Option.isSome_iff_exists.mp (List.find?_isSome.mpr ⟨turn, hturn, by simpa using hid⟩)
  simp [getRunIdentity, hfound, hrow] at hnone

theorem runReceipt_new {d : Digests} {s : RuntimeStore} (h : s.LogInvariant) {uuid key : String}
    {sessionId operation : String} {payload : Json} {receipt : RunReceipt}
    (hr : s.runReceipt d uuid (some key) sessionId operation payload = .ok receipt)
    (hnew : receipt.existing = false) : ∀ run ∈ s.runs, run.id ≠ receipt.runId := by
  unfold runReceipt at hr
  dsimp only at hr
  split at hr
  · cases hr
  · split at hr
    case h_1 hnone =>
      cases hr
      exact h.getRunIdentity_none hnone
    case h_2 =>
      split at hr
      · cases hr
      · cases hr
        cases hnew

/-- A call settles a begun mutation by this fact, or raises what the store does. -/
def Settled {α : Type} (d : Digests) (s : RuntimeStore) (env : Env) (receipt : MutationReceipt)
    (header : Option String) (operation : String) (payload : Json) (fact : Fact) (value : α)
    (out : Except PyError α × RuntimeStore) (answer : Except HttpError MutationReceipt) : Prop :=
  (∃ u, out = (.ok value, u) ∧ Committed receipt.owner [fact] s u ∧
    Recalled d u receipt header operation payload answer) ∨
  ∃ error, s.appendFact env receipt.owner fact = (.error error, s) ∧ out = (.error error, s)

/-- A store call has committed the receipt of the mutation with its own write. -/
inductive CommitsReceipt (s : RuntimeStore) (env : Env) (receipt : MutationReceipt)
    (fields : List (String × Json)) (u : RuntimeStore) : Prop where
  | configuration (facts : List (EventType × Json)) (result : RuntimeStore → Except PyError Json)
      (update : Option (Option ProviderConfig)) (hfacts : ∀ fact ∈ facts, NoReceipt fact.1) :
      s.commitConfiguration env receipt.owner facts result (some receipt.identity) update =
        (.ok (.obj fields), u) → CommitsReceipt s env receipt fields u
  | metadata (sessionId expectedHash : String) (result : RuntimeStore → Except PyError Json)
      (delete : Bool) (title : Option String) (archived : Option Bool) :
      s.commitSessionMetadata env receipt.owner sessionId expectedHash receipt.identity result
        delete title archived = (.ok (.obj fields), u) → CommitsReceipt s env receipt fields u
  | facts (types : List EventType)
      (choose : List Event → Except PyError (Json × List (EventType × Json))) (author : String)
      (runId : Option String) (additions : List (EventType × Json)) :
      choose (s.factsByType types) = .ok (.obj fields, additions) →
      (∀ a ∈ additions, ReceiptOf (.obj fields) a) →
      (.httpMutationCompleted, (mutationReceipt receipt.identity (.obj fields)).payload) ∈
        additions →
      s.transactFacts env receipt.owner types choose author runId = (.ok (.obj fields), u) →
      CommitsReceipt s env receipt fields u

theorem finishMutation_settled {d : Digests} {s : RuntimeStore} {header : Option String}
    {owner operation key : String} {payload : Json} (hkey : mutationKey header = .ok key)
    (h : Begun owner (mutationIdentity d owner operation key) (d.digest payload) s) (env : Env)
    (fields : List (String × Json)) :
    Settled d s env { identity := mutationIdentity d owner operation key, owner } header operation
      payload (mutationReceipt (mutationIdentity d owner operation key) (.obj fields)) (.obj fields)
      (s.finishMutation env { identity := mutationIdentity d owner operation key, owner } fields)
      (.ok { identity := mutationIdentity d owner operation key, owner, result := .obj fields }) := by
  rcases appendFact_committed s env owner
    (mutationReceipt (mutationIdentity d owner operation key) (.obj fields)) with
    ⟨e, u, happ, hcommitted⟩ | ⟨error, happ⟩
  · refine .inl ⟨u, ?_, hcommitted, h.committed hkey hcommitted (.completed fields)
      List.mem_cons_self fun other hother => .inl (List.mem_singleton.mp hother)⟩
    rw [finishMutation, happ]
    rfl
  · refine .inr ⟨error, happ, ?_⟩
    rw [finishMutation, happ]
    rfl

theorem failMutation_settled {d : Digests} {s : RuntimeStore} {header : Option String}
    {owner operation key : String} {payload : Json} (hkey : mutationKey header = .ok key)
    (h : Begun owner (mutationIdentity d owner operation key) (d.digest payload) s) (env : Env)
    (message : String) (statusCode : ℤ) (rejected : Bool) :
    Settled d s env { identity := mutationIdentity d owner operation key, owner } header operation
      payload
      { type := .httpMutationFailed, author := "user"
        payload := failurePayload (mutationIdentity d owner operation key) message statusCode
          rejected } ()
      (s.failMutation env { identity := mutationIdentity d owner operation key, owner } message
        statusCode rejected)
      (.error (.http (.int statusCode) (.str message) rejected)) := by
  rcases appendFact_committed s env owner
    { type := .httpMutationFailed, author := "user"
      payload := failurePayload (mutationIdentity d owner operation key) message statusCode
        rejected } with ⟨e, u, happ, hcommitted⟩ | ⟨error, happ⟩
  · refine .inl ⟨u, ?_, hcommitted, h.committed hkey hcommitted
      (.failed message statusCode rejected) List.mem_cons_self
      fun other hother => .inl (List.mem_singleton.mp hother)⟩
    rw [failMutation, happ]
    rfl
  · refine .inr ⟨error, happ, ?_⟩
    rw [failMutation, happ]
    rfl

theorem CommitsReceipt.recalled {d : Digests} {s u : RuntimeStore} {header : Option String}
    {owner operation key : String} {payload : Json} (hkey : mutationKey header = .ok key)
    (h : Begun owner (mutationIdentity d owner operation key) (d.digest payload) s) {env : Env}
    {fields : List (String × Json)}
    (hcommits : CommitsReceipt s env
      { identity := mutationIdentity d owner operation key, owner } fields u) :
    Recalled d u { identity := mutationIdentity d owner operation key, owner } header operation
      payload (.ok { identity := mutationIdentity d owner operation key, owner
                     result := .obj fields }) := by
  cases hcommits with
  | configuration facts result update hfacts hok =>
    obtain ⟨-, -, hcommitted⟩ := commitConfiguration_spec hok
    have hgiven : givenReceipt (some (mutationIdentity d owner operation key)) (.obj fields) =
        [mutationReceipt (mutationIdentity d owner operation key) (.obj fields)] := by
      simp [givenReceipt, mutationIdentity]
    rw [hgiven] at hcommitted
    refine h.committed hkey hcommitted (.completed fields) (by simp) fun other hother => ?_
    rcases List.mem_append.mp hother with hother | hother
    · obtain ⟨f, hf, rfl⟩ := List.mem_map.mp hother
      exact .inr (hfacts f hf)
    · exact .inl (List.mem_singleton.mp hother)
  | metadata sessionId expectedHash result delete title archived hok =>
    obtain ⟨-, record, kind, metadata, edited, fact, -, hedit, -, hkind, hcommitted⟩ :=
      commitSessionMetadata_spec hok
    refine h.committed hkey hcommitted (.completed fields) (by simp) fun other hother => ?_
    rcases List.mem_cons.mp hother with rfl | hother
    · exact .inr (by rw [hkind]; exact editSession_noReceipt hedit)
    · exact .inl (List.mem_singleton.mp hother)
  | facts types choose author runId additions hchoose hreceipts hmem hok =>
    exact h.transacted hkey hchoose hreceipts hmem hok

/-- Whatever the calls were, in the state they leave. -/
structure MutationGuarantee (d : Digests) (s : RuntimeStore) : Prop where
  /-- A fresh receipt is given once: no later repeat starts again. -/
  once : ∀ (env : Env) (header : Option String) (owner operation : String) (payload : Json)
    (receipt : MutationReceipt) (t : RuntimeStore),
    s.beginMutation d env header owner operation payload = (.ok receipt, t) →
    receipt.result = .null → ∀ (more : List (Env × HttpCall)) (env' : Env) (payload' : Json),
      Repeated d (HttpCall.after d t more) receipt payload payload'
        ((HttpCall.after d t more).beginMutation d env' header owner operation payload')
  /-- A begun mutation that finishes is answered with its result from then on, and one that fails
  with its failure. The two raise, and change nothing, where the store does not take the fact. -/
  finished : ∀ (env : Env) (header : Option String) (owner operation : String) (payload : Json)
    (receipt : MutationReceipt) (t : RuntimeStore),
    s.beginMutation d env header owner operation payload = (.ok receipt, t) →
    receipt.result = .null →
    ∀ (more : List (Env × HttpCall)) (env' : Env) (fields : List (String × Json)),
      Settled d (HttpCall.after d t more) env' receipt header operation payload
        (mutationReceipt receipt.identity (.obj fields)) (.obj fields)
        ((HttpCall.after d t more).finishMutation env' receipt fields)
        (.ok { receipt with result := .obj fields })
  failed : ∀ (env : Env) (header : Option String) (owner operation : String) (payload : Json)
    (receipt : MutationReceipt) (t : RuntimeStore),
    s.beginMutation d env header owner operation payload = (.ok receipt, t) →
    receipt.result = .null →
    ∀ (more : List (Env × HttpCall)) (env' : Env) (message : String) (statusCode : ℤ)
      (rejected : Bool),
      Settled d (HttpCall.after d t more) env' receipt header operation payload
        { type := .httpMutationFailed, author := "user"
          payload := failurePayload receipt.identity message statusCode rejected } ()
        ((HttpCall.after d t more).failMutation env' receipt message statusCode rejected)
        (.error (.http (.int statusCode) (.str message) rejected))
  /-- So is one that is committed together with a store write. -/
  committed : ∀ (env : Env) (header : Option String) (owner operation : String) (payload : Json)
    (receipt : MutationReceipt) (t : RuntimeStore),
    s.beginMutation d env header owner operation payload = (.ok receipt, t) →
    receipt.result = .null →
    ∀ (more : List (Env × HttpCall)) (env' : Env) (fields : List (String × Json))
      (u : RuntimeStore), CommitsReceipt (HttpCall.after d t more) env' receipt fields u →
      Recalled d u receipt header operation payload (.ok { receipt with result := .obj fields })
  /-- A receipt is committed with its configuration, or neither is. -/
  configuration : ∀ (env : Env) (owner : String) (facts : List (EventType × Json))
    (result : RuntimeStore → Except PyError Json) (mutationId : Option String)
    (update : Option (Option ProviderConfig)),
    (∃ response t,
      s.commitConfiguration env owner facts result mutationId update = (.ok response, t) ∧
      t.providerConfig = s.updatedProvider env update ∧
      Committed owner (userFacts facts ++ givenReceipt mutationId response) s t) ∨
    ∃ error, s.commitConfiguration env owner facts result mutationId update = (.error error, s)
  /-- A receipt is committed with the change of its session, or neither is. -/
  metadata : ∀ (env : Env) (owner sessionId expectedHash mutationId : String)
    (result : RuntimeStore → Except PyError Json) (delete : Bool) (title : Option String)
    (archived : Option Bool),
    (∃ response t record kind payload edited fact,
      s.commitSessionMetadata env owner sessionId expectedHash mutationId result delete title
        archived = (.ok response, t) ∧ s.getSession sessionId = some record ∧
      s.editSession record delete title archived = .ok ((kind, payload), edited) ∧
      t.sessions = edited.sessions ∧ fact.type = kind ∧
      Committed owner [fact, mutationReceipt mutationId response] s t) ∨
    ∃ error, s.commitSessionMetadata env owner sessionId expectedHash mutationId result delete
      title archived = (.error error, s)
  /-- A receipt among the additions of a decision is committed with the others, or none is. -/
  facts : ∀ (env : Env) (owner : String) (types : List EventType)
    (choose : List Event → Except PyError (Json × List (EventType × Json))) (author : String)
    (runId : Option String),
    (∃ result t additions rows,
      s.transactFacts env owner types choose author runId = (.ok result, t) ∧
      choose (s.factsByType types) = .ok (result, additions) ∧
      t = { s with events := s.events ++ rows } ∧ ∀ a ∈ additions,
        (∃ e ∈ rows, Adds owner runId author e a) ∨
          (a.1.isTerminal = true ∧
            ∃ r, givenRun runId = some r ∧ t.runIsTerminal r = true)) ∨
    ∃ error, s.transactFacts env owner types choose author runId = (.error error, s)
  /-- A run receipt that is not for an existing run has an unused id. -/
  runs : ∀ (uuid key sessionId operation : String) (payload : Json) (receipt : RunReceipt),
    s.runReceipt d uuid (some key) sessionId operation payload = .ok receipt →
    receipt.existing = false → ∀ run ∈ s.runs, run.id ≠ receipt.runId

/-- A call that returns has done all of it, and one that raises nothing. -/
theorem transaction_dichotomy {α : Type} {s : RuntimeStore}
    {out : Except PyError α × RuntimeStore} {P : α → RuntimeStore → Prop}
    (hok : ∀ a t, out = (.ok a, t) → P a t)
    (herror : ∀ error, out.1 = .error error → out.2 = s) :
    (∃ a t, out = (.ok a, t) ∧ P a t) ∨ ∃ error, out = (.error error, s) := by
  obtain ⟨a | a, t⟩ := out
  · obtain rfl : t = s := herror a rfl
    exact .inr ⟨a, rfl⟩
  · exact .inl ⟨a, t, rfl, hok a t rfl⟩

theorem mutationGuarantee_after (d : Digests) (stateRoot : String)
    (calls : List (Env × HttpCall)) :
    MutationGuarantee d (HttpCall.after d { stateRoot } calls) where
  once := by
    intro env header owner operation payload receipt t hbegin hfresh more env' payload'
    obtain ⟨key, hkey, rfl, hbegun⟩ :=
      begun_of_fresh (HttpCall.wellFormed_after d stateRoot calls) hbegin hfresh
    exact Begun.repeated hkey (HttpCall.begun_after hbegun more) env' payload'
  finished := by
    intro env header owner operation payload receipt t hbegin hfresh more env' fields
    obtain ⟨key, hkey, rfl, hbegun⟩ :=
      begun_of_fresh (HttpCall.wellFormed_after d stateRoot calls) hbegin hfresh
    exact finishMutation_settled hkey (HttpCall.begun_after hbegun more) env' fields
  failed := by
    intro env header owner operation payload receipt t hbegin hfresh more env' message statusCode
      rejected
    obtain ⟨key, hkey, rfl, hbegun⟩ :=
      begun_of_fresh (HttpCall.wellFormed_after d stateRoot calls) hbegin hfresh
    exact failMutation_settled hkey (HttpCall.begun_after hbegun more) env' message statusCode
      rejected
  committed := by
    intro env header owner operation payload receipt t hbegin hfresh more env' fields u hcommits
    obtain ⟨key, hkey, rfl, hbegun⟩ :=
      begun_of_fresh (HttpCall.wellFormed_after d stateRoot calls) hbegin hfresh
    exact hcommits.recalled hkey (HttpCall.begun_after hbegun more)
  configuration := by
    intro env owner facts result mutationId update
    exact transaction_dichotomy (fun _ _ hok => (commitConfiguration_spec hok).2)
      fun _ => commitConfiguration_unchanged
  metadata := by
    intro env owner sessionId expectedHash mutationId result delete title archived
    rcases transaction_dichotomy (fun _ _ hok => (commitSessionMetadata_spec hok).2)
      (fun _ => commitSessionMetadata_unchanged) with
      ⟨response, t, hok, record, kind, payload, edited, fact, hrest⟩ | herror
    · exact .inl ⟨response, t, record, kind, payload, edited, fact, hok, hrest⟩
    · exact .inr herror
  facts := by
    intro env owner types choose author runId
    rcases transaction_dichotomy (fun _ _ hok => transactFacts_spec hok)
      (fun _ => transactFacts_unchanged) with ⟨result, t, hok, additions, rows, hrest⟩ | herror
    · exact .inl ⟨result, t, additions, rows, hok, hrest⟩
    · exact .inr herror
  runs := fun _ _ _ _ _ _ hr hnew =>
    runReceipt_new (HttpCall.logInvariant_after d stateRoot calls) hr hnew

/-- A hash without collisions, for a run on fixed input. -/
def plainDigests : Digests := { sha256 := id, floatText := fun _ => [] }

example : ∃ receipt t, (HttpCall.after plainDigests {}
    [(plainEnv 'a', .commit (.createRun "run" "owner" none) trivial)]).beginMutation plainDigests
      (plainEnv 'b') (some "key") "owner" "rename" (.obj []) = (.ok receipt, t) ∧
        receipt.result = .null := ⟨_, _, rfl, rfl⟩

end RuntimeStore

end Eventide
