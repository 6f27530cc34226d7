import Eventide.Model.Recovery
import Eventide.Model.SessionHistory
import Eventide.Verification.AgentLoop.Pairing
import Eventide.Verification.Projection.Pairing

/-! # The messages of a session

The log of a session is the logs of its runs. A request is refused after an interrupted run, but
not after a failed one, which may have left calls unanswered. As long as none is made there, the
messages can always be read, and what a Continue or an abandonment commits first answers exactly
the calls that are left. -/

namespace Eventide

open Interaction Program Outcome
open AgentLoop (RunConfig runTask responseContent responseFact Responds
  left_of_reaches gateSample gateAnswers)

/-! ## Events and facts -/

/-- The kinds that the messages and the recovery are read from. -/
def historyKinds : List EventType := pairKinds ++ approvalKinds

/-- The events of these kinds are the facts of a log. -/
def Logs (events : List Event) (facts : List Fact) : Prop :=
  List.Forall₂ (fun e fact => e.type = fact.type ∧ e.payload = fact.payload)
    (events.filter fun e => !e.isPartial && e.type ∈ historyKinds)
    (facts.filter fun fact => fact.type ∈ historyKinds)

namespace SessionHistory

variable {content : Option (Event → Json)} {events : List Event}

theorem step_other {st : MessagesProjection} {e : Event}
    (h : (!e.isPartial && e.type ∈ historyKinds) = false) :
    MessagesProjection.step content st e = .ok st := by
  unfold MessagesProjection.step
  cases hfinal : e.isPartial with
  | true => rfl
  | false =>
    simp only [hfinal, Bool.not_false, Bool.true_and, decide_eq_false_iff_not] at h
    rw [if_neg Bool.false_ne_true]
    cases htype : e.type <;> simp_all [historyKinds, pairKinds, EventType.holdsMessage,
      EventType.pairsCall]

theorem openStep_other {st : OpenHistory} {e : Event}
    (h : (!e.isPartial && e.type ∈ historyKinds) = false) : openStep st e = .ok st := by
  unfold openStep
  cases hfinal : e.isPartial with
  | true => rfl
  | false =>
    simp only [hfinal, Bool.not_false, Bool.true_and, decide_eq_false_iff_not] at h
    rw [if_neg Bool.false_ne_true]
    cases htype : e.type <;> simp_all [historyKinds, pairKinds, approvalKinds]

/-- Other events take no part in the messages. -/
theorem run_filter (st : MessagesProjection) : MessagesProjection.run content events st =
    MessagesProjection.run content
      (events.filter fun e => !e.isPartial && e.type ∈ historyKinds) st := by
  rw [MessagesProjection.run, MessagesProjection.run, foldlM_filter]
  intro st e he
  exact step_other (by simpa using he)

theorem openSteps_filter (st : OpenHistory) : events.foldlM openStep st =
    (events.filter fun e => !e.isPartial && e.type ∈ historyKinds).foldlM openStep st :=
  (foldlM_filter (fun _ _ => openStep_other) events st).symm

/-! ## Responses -/

/-- The blocks call tools with these ids. -/
structure Calls (blocks : List Json) (ids : List String) : Prop where
  obj : ∀ block ∈ blocks, block.isObj = true
  call : ∀ block ∈ blocks, block.fieldIs "type" "tool_use" = true →
    ∃ id name, block.get? "id" = some (.str id) ∧ block.get? "name" = some name
  ids : MessagesProjection.toolUseIds blocks = ids.map .str

/-- A fact of a response whose calls can be read back. -/
def Legible (fact : Fact) (ids : List String) : Prop :=
  ids.Nodup ∧ ∃ blocks, Calls blocks ids ∧
    fact.payload.get? "message" = some (.obj [("role", .str "assistant"), ("content", .arr blocks)])

theorem Calls.tail {block : Json} {blocks : List Json} {ids : List String}
    (h : Calls (block :: blocks) ids) :
    (block.fieldIs "type" "tool_use" = false ∧ Calls blocks ids) ∨
      ∃ id name rest, block.fieldIs "type" "tool_use" = true ∧ block.get? "id" = some (.str id) ∧
        block.get? "name" = some name ∧ ids = id :: rest ∧ Calls blocks rest := by
  obtain ⟨hobj, hobjs⟩ := List.forall_mem_cons.mp h.obj
  obtain ⟨hcall, hcalls⟩ := List.forall_mem_cons.mp h.call
  have hids := h.ids
  cases huse : block.fieldIs "type" "tool_use" with
  | false =>
    refine .inl ⟨rfl, hobjs, hcalls, ?_⟩
    simpa [MessagesProjection.toolUseIds, huse] using hids
  | true =>
    obtain ⟨id, name, hid, hname⟩ := hcall huse
    have hcons : MessagesProjection.toolUseIds (block :: blocks) =
        .str id :: MessagesProjection.toolUseIds blocks := by
      simp [MessagesProjection.toolUseIds, huse, hid]
    rw [hcons] at hids
    cases ids with
    | nil => cases hids
    | cons first rest =>
      obtain ⟨hfirst, hrest⟩ := List.cons.inj hids
      obtain rfl : id = first := Json.str.inj hfirst
      exact .inr ⟨id, name, rest, rfl, hid, hname, rfl, hobjs, hcalls, hrest⟩

theorem inSet_map_str {ids : List String} {id : String} :
    Json.inSet (ids.map .str) (.str id) = true ↔ id ∈ ids := by
  simp [Json.inSet, Json.pyEq]

/-- The set of the ids of the calls. -/
theorem foldlM_toolUses {blocks : List Json} {acc ids : List String} (h : Calls blocks ids)
    (hnodup : (acc ++ ids).Nodup) :
    blocks.foldlM MessagesProjection.addToolUse (acc.map .str) = .ok ((acc ++ ids).map .str) := by
  induction blocks generalizing acc ids with
  | nil =>
    have hnil : ids = [] := by simpa [MessagesProjection.toolUseIds] using h.ids.symm
    simp [hnil]
  | cons block blocks ih =>
    have hobj := h.obj block List.mem_cons_self
    rw [List.foldlM_cons]
    rcases h.tail with ⟨huse, hrest⟩ | ⟨id, name, rest, huse, hid, hname, rfl, hrest⟩
    · simp only [MessagesProjection.addToolUse, hobj, huse, if_true, Bool.false_eq_true, if_false,
        ok_bind]
      exact ih hrest hnodup
    · have hnew : id ∉ acc := fun hmem =>
        (List.nodup_append.mp hnodup).2.2 id hmem id List.mem_cons_self rfl
      have hin : Json.inSet (acc.map .str) (.str id) = false := by
        rw [← Bool.not_eq_true, inSet_map_str]
        exact hnew
      simp only [MessagesProjection.addToolUse, hobj, huse, hid, Json.hashError?, hin, if_true,
        Bool.false_eq_true, if_false, ok_bind]
      rw [List.append_cons acc] at hnodup ⊢
      rw [show acc.map Json.str ++ [Json.str id] = (acc ++ [id]).map Json.str by simp]
      exact ih hrest hnodup

/-- The calls that are open, in the order of their ids. -/
structure Opened (pending : Dict String Json) (ids : List String) : Prop where
  keys : pending.keys = ids
  block : ∀ id block, pending.get? id = some block →
    block.get? "id" = some (.str id) ∧ ∃ name, block.get? "name" = some name

theorem foldlM_addBlock {blocks : List Json} {pending : Dict String Json} {acc ids : List String}
    (h : Calls blocks ids) (ho : Opened pending acc) (hnodup : (acc ++ ids).Nodup) :
    ∃ pending', blocks.foldlM addBlock pending = .ok pending' ∧ Opened pending' (acc ++ ids) := by
  induction blocks generalizing acc ids pending with
  | nil =>
    have hnil : ids = [] := by simpa [MessagesProjection.toolUseIds] using h.ids.symm
    exact ⟨pending, rfl, by simpa [hnil] using ho⟩
  | cons block blocks ih =>
    have hobj := h.obj block List.mem_cons_self
    rw [List.foldlM_cons]
    rcases h.tail with ⟨huse, hrest⟩ | ⟨id, name, rest, huse, hid, hname, rfl, hrest⟩
    · simp only [addBlock, hobj, huse, if_true, Bool.false_eq_true, if_false, ok_bind]
      exact ih hrest ho hnodup
    · have hnew : id ∉ pending.keys := fun hmem =>
        (List.nodup_append.mp hnodup).2.2 id (ho.keys ▸ hmem) id List.mem_cons_self rfl
      have hset : Opened (pending.set id block) (acc ++ [id]) := by
        refine ⟨by rw [Dict.keys_set, if_neg hnew, ho.keys], fun j b hj => ?_⟩
        rw [Dict.get?_set] at hj
        split at hj
        · rename_i heq
          obtain rfl := Option.some.inj hj
          exact heq ▸ ⟨hid, name, hname⟩
        · exact ho.block j b hj
      simp only [addBlock, hobj, huse, if_true, Json.require, hid, ok_bind]
      rw [List.append_cons] at hnodup ⊢
      exact ih hrest hset hnodup

/-! ## The two readings of a log -/

/-- What the messages and the recovery have of the events. -/
structure Follows (content : Option (Event → Json)) (events : List Event) (pending : List String) :
    Prop where
  messages : ∃ st, MessagesProjection.run content events {} = .ok st ∧
    st.pending = pending.map .str
  calls : ∃ st, events.foldlM openStep {} = .ok st ∧ Opened st.pending pending
  nodup : pending.Nodup

variable {pending : List String} {e : Event} {fact : Fact}

theorem Follows.step (h : Follows content events pending) {ids : List String}
    (hmessages : ∀ st : MessagesProjection, st.pending = pending.map .str →
      ∃ st', MessagesProjection.step content st e = .ok st' ∧ st'.pending = ids.map .str)
    (hcalls : ∀ st : OpenHistory, Opened st.pending pending →
      ∃ st', openStep st e = .ok st' ∧ Opened st'.pending ids)
    (hnodup : ids.Nodup) : Follows content (events ++ [e]) ids := by
  obtain ⟨st, hst, hpending⟩ := h.messages
  obtain ⟨open', hopen, hopened⟩ := h.calls
  obtain ⟨st', hstep, hpending'⟩ := hmessages st hpending
  obtain ⟨next, hnext, hopened'⟩ := hcalls open' hopened
  exact ⟨⟨st', foldlM_concat_eq_ok.mpr ⟨st, hst, hstep⟩, hpending'⟩,
    ⟨next, foldlM_concat_eq_ok.mpr ⟨open', hopen, hnext⟩, hopened'⟩, hnodup⟩

theorem Follows.identified (h : Follows content events pending) (hfinal : e.isPartial = false)
    (hkind : e.type ∈ approvalKinds)
    (hid : ((e.payload.get? "approval_id").bind Json.str?).isSome = true) :
    Follows content (events ++ [e]) pending := by
  obtain ⟨id, hsome⟩ := Option.isSome_iff_exists.mp hid
  obtain ⟨value, hvalue, hstr⟩ := Option.bind_eq_some_iff.mp hsome
  have hmember : memberId e.payload "approval_id" = .ok (some id) := by
    cases value with
    | str text => simp [memberId, Json.require, hvalue, Json.hashError?, ← hstr]
    | _ => cases hstr
  simp only [approvalKinds, List.mem_cons, List.not_mem_nil, or_false] at hkind
  refine h.step (fun st hst => ⟨st, ?_, hst⟩) (fun st hst => ?_) h.nodup
  · rcases hkind with htype | htype <;>
      simp [MessagesProjection.step, hfinal, htype, EventType.holdsMessage, EventType.pairsCall]
  · rcases hkind with htype | htype <;>
      simp [openStep, hfinal, htype, hmember, hst]

theorem Follows.said (h : Follows content events []) (hfinal : e.isPartial = false)
    (htype : e.type = .messageUser) (huser : ∀ message, e.payload.get? "message" = some message →
      MessagesProjection.assistantContent message = .ok none) :
    Follows content (events ++ [e]) [] := by
  refine h.step (fun st hst => ?_) (fun st hst => ⟨st, ?_, hst⟩) h.nodup
  · simp only [MessagesProjection.step, hfinal, htype, EventType.holdsMessage]
    cases hmessage : MessagesProjection.message? e with
    | none => exact ⟨st, rfl, hst⟩
    | some message =>
      have hget := (Option.filter_eq_some_iff.mp hmessage).1
      refine ⟨{ st with messages := st.messages ++ [message] }, ?_, hst⟩
      simp [MessagesProjection.addMessage, huser message hget]
  · simp [openStep, hfinal, htype]

theorem assistantContent_response (blocks : List Json) :
    MessagesProjection.assistantContent
      (.obj [("role", .str "assistant"), ("content", .arr blocks)]) = .ok (some blocks) := by
  simp [MessagesProjection.assistantContent, List.lookup_cons, Json.pyEq, Json.arr?]

theorem messageContent_response {payload : Json} {blocks : List Json}
    (h : payload.get? "message" =
      some (.obj [("role", .str "assistant"), ("content", .arr blocks)])) :
    messageContent payload = .ok blocks := by
  simp [messageContent, h, Json.getAttr, List.lookup_cons, Json.iterate]

theorem Follows.response {ids : List String} (h : Follows content events [])
    (hfinal : e.isPartial = false) (htype : e.type = .modelResponse) {blocks : List Json}
    (hcalls : Calls blocks ids) (hnodup : ids.Nodup)
    (hmessage : e.payload.get? "message" =
      some (.obj [("role", .str "assistant"), ("content", .arr blocks)])) :
    Follows content (events ++ [e]) ids := by
  refine h.step (fun st hst => ?_) (fun st hst => ?_) hnodup
  · have huses : MessagesProjection.toolUses blocks = .ok (ids.map .str) :=
      @foldlM_toolUses blocks [] ids hcalls hnodup
    have hsaid : MessagesProjection.message? e =
        some (.obj [("role", .str "assistant"), ("content", .arr blocks)]) := by
      rw [MessagesProjection.message?, hmessage]
      rfl
    refine ⟨{ st with
      messages := st.messages ++ [.obj [("role", .str "assistant"), ("content", .arr blocks)]]
      pending := ids.map .str }, ?_, rfl⟩
    simp [MessagesProjection.step, hfinal, htype, EventType.holdsMessage, hsaid,
      MessagesProjection.addMessage, assistantContent_response, huses]
  · obtain ⟨next, hnext, hopened⟩ := foldlM_addBlock hcalls hst (by simpa using hnodup)
    refine ⟨{ st with pending := next }, ?_, hopened⟩
    simp [openStep, hfinal, htype, messageContent_response hmessage, hnext]

theorem Follows.answered {id : String} {rest : List String} (h : Follows content events (id :: rest))
    (hfinal : e.isPartial = false) (hkind : e.type.pairsCall = true)
    (hid : e.payload.get? "call_id" = some (.str id)) : Follows content (events ++ [e]) rest := by
  obtain ⟨hnew, hrest⟩ := List.nodup_cons.mp h.nodup
  have htype : e.type = .toolCompleted ∨ e.type = .toolAbandoned := by
    cases hcase : e.type <;> simp_all [EventType.pairsCall]
  refine h.step (fun st hst => ?_) (fun st hst => ?_) hrest
  · have hin : Json.inSet st.pending (.str id) = true := by
      rw [hst, inSet_map_str]
      exact List.mem_cons_self
    have hfilter : (st.pending.filter fun other => !Json.pyEq other (.str id)) = rest.map .str := by
      rw [hst, List.map_cons, List.filter_cons]
      have hself : Json.pyEq (.str id) (.str id) = true := Json.pyEq_refl _
      rw [hself, Bool.not_true, if_neg Bool.false_ne_true, List.filter_eq_self]
      intro other hother
      obtain ⟨j, hj, rfl⟩ := List.mem_map.mp hother
      have hne : j ≠ id := fun heq => hnew (heq ▸ hj)
      simpa [Json.pyEq] using hne
    have hstep : MessagesProjection.step content st e =
        .ok (MessagesProjection.addResult content st e (.str id)) := by
      rcases htype with htype | htype <;>
        simp [MessagesProjection.step, hfinal, htype, EventType.holdsMessage,
          EventType.pairsCall, MessagesProjection.pairCall, Json.require, hid, Json.hashError?, hin]
    refine ⟨_, hstep, ?_⟩
    unfold MessagesProjection.addResult
    dsimp only
    rw [hfilter]
    split
    · rename_i hempty
      rw [List.isEmpty_iff] at hempty
      exact hempty.symm
    · rfl
  · have hmember : memberId e.payload "call_id" = .ok (some id) := by
      simp [memberId, Json.require, hid, Json.hashError?, Json.str?]
    refine ⟨{ st with pending := st.pending.erase id }, ?_, ?_, ?_⟩
    · rcases htype with htype | htype <;> simp [openStep, hfinal, htype, hmember]
    · rw [Dict.keys_erase, hst.keys, List.filter_cons, if_neg (by simp), List.filter_eq_self]
      intro j hj
      exact decide_eq_true fun heq => hnew (heq ▸ hj)
    · intro j block hj
      rw [Dict.get?_erase] at hj
      split at hj
      · cases hj
      · exact hst.block j block hj

/-! ## Logs -/

theorem not_history_of_pair {kind : EventType} (h : kind ∈ pairKinds) : kind ∈ historyKinds :=
  List.mem_append_left _ h

/-- The event stands for the fact. -/
def Stands (e : Event) (fact : Fact) : Prop :=
  e.isPartial = false ∧ e.type = fact.type ∧ e.payload = fact.payload

/-- The last event is that of the last fact, where the fact is of a kind that counts. -/
theorem stands_concat {facts : List Fact}
    (hlog : List.Forall₂ Stands events
      ((facts ++ [fact]).filter fun fact => fact.type ∈ historyKinds))
    (hkind : fact.type ∈ historyKinds) : ∃ init e, events = init ++ [e] ∧
      List.Forall₂ Stands init (facts.filter fun fact => fact.type ∈ historyKinds) ∧
      Stands e fact := by
  rw [List.filter_append, List.filter_cons, if_pos (decide_eq_true hkind), List.filter_nil] at hlog
  exact Sequence.forall₂_concat hlog

/-- The events of a log go along with its batches. -/
theorem follows_of_batches {facts : List Fact} (h : Batches Legible [] facts pending)
    (hlog : List.Forall₂ Stands events
      (facts.filter fun fact => fact.type ∈ historyKinds)) : Follows content events pending := by
  induction h generalizing events with
  | nil =>
    cases hlog
    exact ⟨⟨{}, rfl, rfl⟩, ⟨{}, rfl, rfl, nofun⟩, .nil⟩
  | @other facts pending fact _ hkind hid _ ih =>
    by_cases happroval : fact.type ∈ approvalKinds
    · obtain ⟨init, e, rfl, hinit, hfinal, htype, hpayload⟩ :=
        stands_concat hlog (List.mem_append_right _ happroval)
      refine (ih hinit).identified hfinal (htype ▸ happroval) ?_
      rw [hpayload]
      simpa [Fact.identified, happroval] using hid
    · have hnot : fact.type ∉ historyKinds := by
        rw [historyKinds, List.mem_append, not_or]
        exact ⟨hkind, happroval⟩
      rw [List.filter_append, List.filter_cons, if_neg fun hc => hnot (of_decide_eq_true hc),
        List.filter_nil, List.append_nil] at hlog
      exact ih hlog
  | @said facts fact _ huser ih =>
    obtain ⟨init, e, rfl, hinit, hfinal, htype, hpayload⟩ := stands_concat hlog
      (huser.1 ▸ not_history_of_pair (by decide))
    exact (ih hinit).said hfinal (htype.trans huser.1) (hpayload ▸ huser.2)
  | @response facts fact ids _ hkind hids ih =>
    obtain ⟨init, e, rfl, hinit, hfinal, htype, hpayload⟩ := stands_concat hlog
      (hkind ▸ not_history_of_pair (by decide))
    obtain ⟨hnodup, blocks, hcalls, hmessage⟩ := hids
    exact (ih hinit).response hfinal (htype.trans hkind) hcalls hnodup (hpayload ▸ hmessage)
  | @answered facts fact id pending _ hkind hid ih =>
    have hpairs : fact.type ∈ pairKinds := by
      cases htype : fact.type <;> simp_all [EventType.pairsCall, pairKinds]
    obtain ⟨init, e, rfl, hinit, hfinal, htype, hpayload⟩ := stands_concat hlog
      (not_history_of_pair hpairs)
    exact (ih hinit).answered hfinal (htype ▸ hkind) (hpayload ▸ hid)

/-- What the messages and the recovery have of any events that log these facts. -/
theorem follows_of_logs {facts : List Fact} (h : Batches Legible [] facts pending)
    (hlogs : Logs events facts) : Follows content events pending := by
  have hfollows : Follows content
      (events.filter fun e => !e.isPartial && e.type ∈ historyKinds) pending := by
    refine follows_of_batches h ?_
    refine (List.forall₂_and_left _ _).mpr ⟨?_, hlogs⟩
    intro e he
    have hkept := (List.mem_filter.mp he).2
    rw [Bool.and_eq_true, Bool.not_eq_true'] at hkept
    exact hkept.1
  obtain ⟨⟨st, hst, hpending⟩, ⟨open', hopen, hopened⟩, hnodup⟩ := hfollows
  exact ⟨⟨st, run_filter {} ▸ hst, hpending⟩, ⟨open', openSteps_filter {} ▸ hopen, hopened⟩, hnodup⟩

/-! ## Recovery -/

theorem batches_abandoned (text : String) {entries : List (String × Json)}
    (h : ∀ entry ∈ entries, entry.2.get? "id" = some (.str entry.1) ∧
      ∃ name, entry.2.get? "name" = some name) :
    ∃ answers, (entries.map Prod.snd).mapM (abandonedFact text) = .ok answers ∧
      Batches (fun _ _ => False) (entries.map Prod.fst) answers [] := by
  induction entries with
  | nil => exact ⟨[], rfl, .nil⟩
  | cons entry entries ih =>
    obtain ⟨⟨hid, name, hname⟩, hentries⟩ := List.forall_mem_cons.mp h
    obtain ⟨answers, hanswers, hbatches⟩ := ih hentries
    obtain ⟨fact, hfact, hkind, hcall⟩ : ∃ fact, abandonedFact text entry.2 = .ok fact ∧
        fact.type.pairsCall = true ∧ fact.payload.get? "call_id" = some (.str entry.1) := by
      rw [abandonedFact, Json.require, hid, Json.require, hname]
      exact ⟨_, rfl, rfl, rfl⟩
    refine ⟨fact :: answers, ?_, ?_⟩
    · rw [List.map_cons, List.mapM_cons, hfact, ok_bind, hanswers]
      rfl
    · exact (Batches.answered .nil hkind hcall).append hbatches

theorem batches_closedApprovals {start : List String} {facts : List Fact} {pending : List String}
    (h : Batches (fun _ _ => False) start facts pending) (identities : List String) :
    Batches (fun _ _ => False) start (facts ++ identities.map closedApproval) pending := by
  induction identities generalizing facts with
  | nil => exact (List.append_nil facts).symm ▸ h
  | cons identity identities ih =>
    rw [List.map_cons, List.append_cons]
    exact ih (h.other_of_kind (show EventType.approvalResolved ∉ _ by decide) rfl)

/-- What is recovered answers exactly the calls that are left, in their order. -/
theorem batches_recoveryFacts {facts : List Fact} (h : Batches Legible [] facts pending)
    (hlogs : Logs events facts) (text : String) : ∃ opening,
      recoveryFacts events text = .ok opening ∧ Batches (fun _ _ => False) pending opening [] := by
  obtain ⟨-, ⟨st, hst, hopened⟩, -⟩ := (follows_of_logs h hlogs : Follows none events pending)
  obtain ⟨answers, hanswers, hbatches⟩ := batches_abandoned text fun entry hentry =>
    hopened.block entry.1 entry.2 (Dict.mem_entries.mp hentry)
  rw [← Dict.keys, hopened.keys] at hbatches
  rw [← Dict.values] at hanswers
  refine ⟨answers ++ (st.approvals.insertionSort (· ≤ ·)).map closedApproval, ?_,
    batches_closedApprovals hbatches _⟩
  rw [recoveryFacts, hst, ok_bind, hanswers]
  rfl

/-! ## Sessions -/

/-- A run is opened where it is admitted, or where it is executed. -/
def OpensWith (c : RunConfig) (admission opening : List Fact) : Prop :=
  admission = [] ∧ c.opening = opening ∨
    c.opening = [] ∧ ∃ admitted checkpoint : Fact, admitted.type = .runAdmitted ∧
      checkpoint.type = .workspaceCheckpoint ∧ admission = [admitted] ++ opening ++ [checkpoint]

/-- The cleaning of what is stored leaves the calls of the responses that a run was given. -/
def Readable (c : RunConfig) (asked : History) : Prop :=
  ∀ tools r, ⟨.complete tools, .ok r⟩ ∈ asked → ∃ blocks,
    c.semantic (.arr (AgentLoop.ModelResponse.contentBlocks r)) = .arr blocks ∧
      Calls blocks (r.toolCalls.map ToolCall.id)

theorem Readable.legible {c : RunConfig} {asked : History} (h : Readable c asked) {fact : Fact}
    {ids : List String} (hr : Responds c asked fact ids) : Legible fact ids := by
  obtain ⟨st, tools, r, hmem, rfl, rfl, hnodup⟩ := hr
  obtain ⟨blocks, hblocks, hcalls⟩ := h tools r hmem
  refine ⟨hnodup, blocks, hcalls, ?_⟩
  rw [← hblocks]
  rfl

/-- The last run was completed, or the messages of the log are defined. -/
def Readied (facts : List Fact) : Prop :=
  (∃ init fact, facts = init ++ [fact] ∧ fact.type = .runCompleted) ∨
    ∃ events messages, Logs events facts ∧ MessagesProjection.project none events = .ok messages

/-- The facts of a session. Its runs stop wherever they stop, and the Host may add to the last one
when it starts again. -/
inductive SessionLog : List Fact → Prop
  | nil : SessionLog []
  /-- A new request. -/
  | request {facts admission : List Fact} {message : Fact} {c : RunConfig} {asked : History}
      {p : Task Unit} (h : SessionLog facts) (hready : Readied facts) (huser : message.SaysUser)
      (hopens : OpensWith c admission [message]) (hr : Reaches (runTask c) asked p)
      (hreadable : Readable c asked) : SessionLog (facts ++ (admission ++ asked.facts))
  /-- A Continue. -/
  | continued {facts admission opening : List Fact} {events : List Event} {c : RunConfig}
      {asked : History} {p : Task Unit} (h : SessionLog facts) (hlogs : Logs events facts)
      (hopening : recoveryFacts events continueContent = .ok opening)
      (hopens : OpensWith c admission opening) (hr : Reaches (runTask c) asked p)
      (hreadable : Readable c asked) : SessionLog (facts ++ (admission ++ asked.facts))
  /-- An abandonment, or the part of it that was committed. -/
  | abandoned {facts opening : List Fact} {events : List Event} {started duration : Json}
      {source : String} (n : ℕ) (h : SessionLog facts) (hlogs : Logs events facts)
      (hopening : recoveryFacts events abandonContent = .ok opening) :
      SessionLog (facts ++ (abandonFacts started duration source opening).take n)
  /-- A restart of the Host. -/
  | restarted {facts run : List Fact} {sandbox : Option String}
      {evidence : Option Recovery.Evidence} (n : ℕ) (h : SessionLog facts) :
      SessionLog (facts ++ (Recovery.recoveryFacts sandbox evidence run).take n)

theorem identified_of_kind {fact : Fact} (h : fact.type ∉ approvalKinds) :
    fact.identified = true := by
  rw [Fact.identified, decide_eq_true h, Bool.true_or]

/-- A fact of a kind that no batch is about. -/
theorem batches_aside {responds : Fact → List String → Prop} {start : List String}
    {log : List Fact} (h : Batches responds start log pending) (fact : Fact) (kind : EventType)
    (hkind : fact.type = kind)
    (hnone : kind ∉ pairKinds ++ [.runCompleted, .runInterrupted] ∧ kind ∉ approvalKinds) :
    Batches responds start (log ++ [fact]) pending :=
  h.other_of_kind (hkind ▸ hnone.1) (identified_of_kind (hkind ▸ hnone.2))

/-- What is admitted before a run. -/
theorem batches_admission {responds : Fact → List String → Prop} {c : RunConfig}
    {admission opening : List Fact} {start : List String} (hopens : OpensWith c admission opening)
    (h : Batches (fun _ _ => False) start opening []) :
    ∃ mid, Batches responds start admission mid ∧ Batches (fun _ _ => False) mid c.opening [] := by
  rcases hopens with ⟨rfl, heq⟩ | ⟨heq, admitted, checkpoint, hadmitted, hcheckpoint, rfl⟩
  · exact ⟨start, .nil, heq ▸ h⟩
  · have hfirst : Batches responds start [admitted] start :=
      batches_aside .nil admitted _ hadmitted (by decide)
    have hopened := hfirst.append (h.mono fun _ _ hfalse => hfalse.elim)
    exact ⟨[], batches_aside hopened checkpoint _ hcheckpoint (by decide), heq ▸ .nil⟩

/-- A run after a session, from the calls that it leaves. -/
theorem batches_run {facts admission opening : List Fact} {c : RunConfig} {asked : History}
    {p : Task Unit} (h : Batches Legible [] facts pending)
    (hb : Batches (fun _ _ => False) pending opening []) (hopens : OpensWith c admission opening)
    (hr : Reaches (runTask c) asked p) (hreadable : Readable c asked) :
    ∃ pending', Batches Legible [] (facts ++ (admission ++ asked.facts)) pending' := by
  obtain ⟨mid, hadmission, hopening⟩ := batches_admission hopens hb
  obtain ⟨pending', hrun⟩ := left_of_reaches hopening hr
  exact ⟨pending', h.append (hadmission.append (hrun.mono fun _ _ => hreadable.legible))⟩

/-- Every beginning of a log is one of batches. -/
theorem batches_take {responds : Fact → List String → Prop} {start last : List String}
    {facts : List Fact} (h : Batches responds start facts last) (n : ℕ) :
    ∃ mid, Batches responds start (facts.take n) mid := by
  rw [← List.take_append_drop n facts] at h
  obtain ⟨mid, hfirst, -⟩ := h.split
  exact ⟨mid, hfirst⟩

theorem batches_abandonFacts {responds : Fact → List String → Prop} {opening : List Fact}
    {start : List String} (h : Batches (fun _ _ => False) start opening [])
    (started duration : Json) (source : String) :
    Batches responds start (abandonFacts started duration source opening) [] := by
  have hstarted : Batches responds start
      [{ type := .runStarted, payload := started, author := "user" }] start :=
    batches_aside .nil _ .runStarted rfl (by decide)
  have hopened := hstarted.append (h.mono fun _ _ hfalse => hfalse.elim)
  have hclosed := batches_aside hopened
    { type := .recoveryAbandoned, payload := .obj [("source_run_id", .str source)],
      author := "user" } .recoveryAbandoned rfl (by decide)
  rw [abandonFacts, List.append_cons _ _ [_]]
  exact hclosed.other (show EventType.runCompleted ∉ pairKinds by decide) rfl fun _ => rfl

theorem not_settles_restart (queued : Bool) (evidence : Option Recovery.Evidence) :
    ¬ Fact.Settles (Recovery.interruptedFact queued evidence) := by
  cases queued with
  | true => exact AgentLoop.not_settles_of_reason rfl rfl (by decide)
  | false =>
    rintro (hc | ⟨-, reason, -, hreason⟩)
    · cases hc
    · rcases evidence with _ | ⟨_ | ⟨file, files⟩, checkpoint⟩
      · cases hreason
      · cases hreason
      · cases hreason

/-- What a restart adds leaves the same calls. -/
theorem batches_restart {responds : Fact → List String → Prop} {facts : List Fact}
    {start : List String} (sandbox : Option String) (evidence : Option Recovery.Evidence) :
    Batches responds start (Recovery.recoveryFacts sandbox evidence facts) start := by
  have hothers {log more : List Fact} (h : Batches responds start log start)
      (hmore : ∀ fact ∈ more, fact.type ∉ pairKinds ++ [.runCompleted, .runInterrupted] ∧
        fact.identified = true) : Batches responds start (log ++ more) start := by
    induction more generalizing log with
    | nil => exact (List.append_nil log).symm ▸ h
    | cons fact more ih =>
      rw [List.append_cons]
      obtain ⟨⟨hkind, hid⟩, hrest⟩ := List.forall_mem_cons.mp hmore
      exact ih (h.other_of_kind hkind hid) hrest
  have hstopped : ∀ fact ∈ sandbox.elim [] fun id =>
      (facts.filter (Recovery.unsettled facts)).map (Recovery.stoppedFact id),
      fact.type ∉ pairKinds ++ [.runCompleted, .runInterrupted] ∧ fact.identified = true := by
    intro fact hfact
    cases sandbox with
    | none => cases hfact
    | some id =>
      obtain ⟨prepared, -, rfl⟩ := List.mem_map.mp hfact
      exact ⟨show EventType.toolOutcomeUnknown ∉ _ by decide, rfl⟩
  have hevidence : ∀ fact ∈ Recovery.evidenceFacts (Recovery.evidenceFor facts evidence),
      fact.type ∉ pairKinds ++ [.runCompleted, .runInterrupted] ∧ fact.identified = true := by
    intro fact hfact
    unfold Recovery.evidenceFacts at hfact
    split at hfact
    · obtain rfl := List.mem_singleton.mp hfact
      exact ⟨show EventType.workspaceCheckpoint ∉ _ by decide, rfl⟩
    · cases hfact
  exact (hothers (hothers .nil hstopped) hevidence).other
    (show EventType.runInterrupted ∉ pairKinds by decide) rfl fun hsettles =>
      absurd hsettles (not_settles_restart _ _)

theorem batches_completed {responds : Fact → List String → Prop} {start : List String}
    {init : List Fact} {fact : Fact} (h : Batches responds start (init ++ [fact]) pending)
    (hkind : fact.type = .runCompleted) : pending = [] := by
  generalize hlog : init ++ [fact] = log at h
  cases h with
  | nil => simp at hlog
  | other _ _ _ hsettles =>
    obtain rfl := (List.cons.inj (List.append_inj' hlog rfl).2).1
    exact hsettles (.inl hkind)
  | said => rfl
  | response _ hresponse =>
    obtain rfl := (List.cons.inj (List.append_inj' hlog rfl).2).1
    rw [hkind] at hresponse
    cases hresponse
  | answered _ hpairs =>
    obtain rfl := (List.cons.inj (List.append_inj' hlog rfl).2).1
    rw [hkind] at hpairs
    cases hpairs

/-- Where the messages are defined, no call is left. -/
theorem Readied.pending_nil {facts : List Fact} (h : Readied facts)
    (hb : Batches Legible [] facts pending) : pending = [] := by
  rcases h with ⟨init, fact, rfl, hkind⟩ | ⟨events, messages, hlogs, hproject⟩
  · exact batches_completed hb hkind
  · obtain ⟨⟨st, hst, hpending⟩, -, -⟩ := (follows_of_logs hb hlogs : Follows none events pending)
    rw [MessagesProjection.project, hst, ok_bind, MessagesProjection.finish] at hproject
    split at hproject
    · rename_i hempty
      simpa [hpending] using hempty
    · cases hproject

/-- The log of a session is one of batches. The induction is on what has been done to it. -/
theorem batches_sessionLog {facts : List Fact} (h : SessionLog facts) :
    ∃ pending, Batches Legible [] facts pending := by
  induction h with
  | nil => exact ⟨[], .nil⟩
  | request _ hready huser hopens hr hreadable ih =>
    obtain ⟨pending, hb⟩ := ih
    obtain rfl := hready.pending_nil hb
    exact batches_run hb (.said .nil huser) hopens hr hreadable
  | continued _ hlogs hopening hopens hr hreadable ih =>
    obtain ⟨pending, hb⟩ := ih
    obtain ⟨opening, hok, hbatches⟩ := batches_recoveryFacts hb hlogs continueContent
    rw [hopening] at hok
    cases hok
    exact batches_run hb hbatches hopens hr hreadable
  | abandoned n _ hlogs hopening ih =>
    obtain ⟨pending, hb⟩ := ih
    obtain ⟨opening, hok, hbatches⟩ := batches_recoveryFacts hb hlogs abandonContent
    rw [hopening] at hok
    cases hok
    obtain ⟨mid, htaken⟩ := batches_take (batches_abandonFacts hbatches _ _ _) n
    exact ⟨mid, hb.append htaken⟩
  | restarted n _ ih =>
    obtain ⟨pending, hb⟩ := ih
    obtain ⟨mid, htaken⟩ := batches_take (batches_restart _ _) n
    exact ⟨mid, hb.append htaken⟩

/-- The messages of a log can be read up to the calls that are left, and what is recovered answers
just these calls, in their order. -/
def Resumable (facts : List Fact) : Prop :=
  ∃ pending, Batches Legible [] facts pending ∧ ∀ content events, Logs events facts →
    (∃ st, MessagesProjection.run content events {} = .ok st ∧ st.pending = pending.map .str) ∧
    ∀ text, ∃ opening, recoveryFacts events text = .ok opening ∧
      Batches (fun _ _ => False) pending opening []

/-- In any order of requests, Continues, abandonments and restarts, and wherever each run stopped,
a session can be read and continued. -/
theorem session_resumable {facts : List Fact} (h : SessionLog facts) : Resumable facts := by
  obtain ⟨pending, hb⟩ := batches_sessionLog h
  refine ⟨pending, hb, fun content events hlogs => ⟨?_, fun text => ?_⟩⟩
  · exact (follows_of_logs hb hlogs).messages
  · exact batches_recoveryFacts hb hlogs text

theorem Calls.nil : Calls [] [] where
  obj _ h := absurd h List.not_mem_nil
  call _ h := absurd h List.not_mem_nil
  ids := rfl

theorem Calls.append {blocks more : List Json} {ids ids' : List String} (h : Calls blocks ids)
    (h' : Calls more ids') : Calls (blocks ++ more) (ids ++ ids') where
  obj block hblock := (List.mem_append.mp hblock).elim (h.obj block) (h'.obj block)
  call block hblock := (List.mem_append.mp hblock).elim (h.call block) (h'.call block)
  ids := by
    rw [List.map_append, ← h.ids, ← h'.ids, MessagesProjection.toolUseIds,
      MessagesProjection.toolUseIds, MessagesProjection.toolUseIds, List.filter_append, List.filterMap_append]

theorem calls_map_block (calls : List ToolCall) :
    Calls (calls.map AgentLoop.ToolCall.block) (calls.map ToolCall.id) := by
  induction calls with
  | nil => exact .nil
  | cons call calls ih =>
    have hone : Calls [AgentLoop.ToolCall.block call] [call.id] := by
      refine ⟨fun block hblock => ?_, fun block hblock _ => ?_, rfl⟩
      · obtain rfl := List.mem_singleton.mp hblock
        rfl
      · obtain rfl := List.mem_singleton.mp hblock
        exact ⟨call.id, .str call.name, rfl, rfl⟩
    exact hone.append ih

/-- The blocks of a response hold its calls. -/
theorem calls_contentBlocks (r : ModelResponse) : Calls
    (AgentLoop.ModelResponse.contentBlocks r) (r.toolCalls.map ToolCall.id) := by
  have hplain {block : Json} (hobj : block.isObj = true)
      (huse : block.fieldIs "type" "tool_use" = false) : Calls [block] [] := by
    refine ⟨fun other hother => ?_, fun other hother hcall => ?_, ?_⟩
    · exact List.mem_singleton.mp hother ▸ hobj
    · rw [List.mem_singleton.mp hother, huse] at hcall
      cases hcall
    · simp [MessagesProjection.toolUseIds, huse]
  have hoptional (skip : Prop) [Decidable skip] (block : Json) (hobj : block.isObj = true)
      (huse : block.fieldIs "type" "tool_use" = false) : Calls (if skip then [] else [block]) [] := by
    split
    · exact .nil
    · exact hplain hobj huse
  have hstate := hoptional (r.providerItems = []) (.obj [("type", .str "provider_state"),
    ("provider", .str r.stateProvider), ("items", .arr r.providerItems)]) rfl rfl
  have htext := hoptional (r.text = "")
    (.obj [("type", .str "text"), ("text", .str r.text)]) rfl rfl
  exact (hstate.append htext).append (calls_map_block r.toolCalls)

/-- A request to the sample of the gate. -/
def sessionSample : RunConfig :=
  { gateSample with opening := [{
      type := .messageUser, author := "user", role := "user"
      payload := .obj [("message", .obj [("role", .str "user"), ("content", .str "Read a.py")])] }] }

def eventOf (fact : Fact) : Event where
  eventId := ""
  sessionId := "main"
  sessionSeq := 0
  turnId := none
  runId := none
  ts := 0
  type := fact.type
  role := fact.role
  author := fact.author
  payload := fact.payload

theorem logs_map_eventOf (facts : List Fact) : Logs (facts.map eventOf) facts := by
  rw [Logs, List.filter_map, List.forall₂_map_left_iff]
  refine List.forall₂_same.mpr fun fact _ => ⟨rfl, rfl⟩

/-- The Host dies before the approval of the call is granted, and starts again. -/
def restartedFacts : List Fact :=
  let stopped := [] ++ ([] ++ History.facts ((runTask sessionSample).runWith gateAnswers 24).1)
  stopped ++ (Recovery.recoveryFacts none none stopped).take 1

/-- What a Continue pairs. -/
def continueOpening : List Fact :=
  [{ type := .toolAbandoned
     payload := .obj [("call_id", .str "call_1"), ("name", .str "read_file"),
       ("is_error", .bool true), ("content", .str continueContent)] },
   closedApproval "approval_call_1_5"]

/-- The run of the Continue, which is stopped in its turn. -/
def continuedFacts : List Fact :=
  restartedFacts ++ ([] ++ History.facts
    ((runTask { gateSample with opening := continueOpening }).runWith gateAnswers 24).1)

theorem session_resumable_sample :
    recoveryFacts (restartedFacts.map eventOf) continueContent = .ok continueOpening ∧
    Resumable continuedFacts := by
  have hopening : recoveryFacts (restartedFacts.map eventOf) continueContent =
      .ok continueOpening := rfl
  have huser : ∀ fact ∈ sessionSample.opening, fact.SaysUser := by
    intro fact hfact
    obtain rfl := List.mem_singleton.mp hfact
    exact ⟨rfl, fun message hmessage => by cases hmessage; rfl⟩
  have hrequest := SessionLog.request .nil (.inr ⟨[], [], .nil, rfl⟩)
    (huser _ List.mem_cons_self) (.inl ⟨rfl, rfl⟩)
    (reaches_runWith gateAnswers 24 (runTask sessionSample))
    fun tools r _ => ⟨_, rfl, calls_contentBlocks r⟩
  have hrestarted : SessionLog restartedFacts := .restarted 1 hrequest
  refine ⟨hopening, session_resumable (.continued hrestarted (logs_map_eventOf _) hopening
    (.inl ⟨rfl, rfl⟩) (reaches_runWith gateAnswers 24 _) ?_)⟩
  exact fun tools r _ => ⟨_, rfl, calls_contentBlocks r⟩

end SessionHistory

end Eventide
