import Eventide.Verification.Projection.Closed

/-! # Calls and their results

In an orderly log every assistant message with calls is answered by the message right after
it, with one result for each of its ids. -/

namespace Eventide.MessagesProjection

open Outcome

/-- `b["id"]` of every `tool_use` block, repetitions included. -/
def toolUseIds (blocks : List Json) : List Json :=
  (blocks.filter (·.fieldIs "type" "tool_use")).filterMap (·.get? "id")

/-- No two ids are equal. -/
def Distinct (ids : List Json) : Prop := ids.Pairwise fun a b => Json.pyEq a b = false

variable (content : Option (Event → Json)) (log : List Event)

/-- The block is the result that an event of the log gives to a call. -/
def ResultOf (callId block : Json) : Prop :=
  ∃ e ∈ log, ∃ given, e.type.pairsCall = true ∧ e.payload.get? "call_id" = some given ∧
    Json.pyEq callId given = true ∧ block = resultBlock content e given

/-- The results answer the ids, each once. -/
def Answers (ids results : List Json) : Prop :=
  ∃ order, order.Perm ids ∧ List.Forall₂ (ResultOf content log) order results

/-- An event commits the message behind these ones, and the later events come after it. -/
def Committed (before : List Json) (message : Json) (later : List Event) : Prop :=
  ∃ earlier commit st, log = earlier ++ commit :: later ∧ run content earlier {} = .ok st ∧
    st.messages = before ∧ Says commit ∧ message? commit = some message

/-- An assistant message with calls, as it stands in a list of messages. -/
def CallsAt (messages before : List Json) (message : Json) (blocks ids rest : List Json) : Prop :=
  messages = before ++ message :: rest ∧ assistantContent message = .ok (some blocks) ∧
    toolUses blocks = .ok ids ∧ ids ≠ []

/-- Every such message is answered by the events after it, the last one perhaps only in part. -/
structure Paired (st : MessagesProjection) : Prop where
  distinct : Distinct st.pending
  defined : ∀ message ∈ st.messages, ∀ blocks, assistantContent message = .ok (some blocks) →
    ∃ ids, toolUses blocks = .ok ids
  answered : ∀ before message blocks ids rest, CallsAt st.messages before message blocks ids rest →
    ∃ later, Committed content log before message later ∧
      ((∃ results more, rest = resultMessage results :: more ∧ Answers content later ids results) ∨
      (rest = [] ∧ st.pending ≠ [] ∧ ∃ order, (order ++ st.pending).Perm ids ∧
        List.Forall₂ (ResultOf content later) order st.results))

variable {content log} {st st' : MessagesProjection} {e : Event}

/-! ## Ids -/

theorem inSet_iff {ids : List Json} {callId : Json} :
    Json.inSet ids callId = true ↔ ∃ p ∈ ids, Json.pyEq p callId = true := by
  simp [Json.inSet]

theorem Distinct.concat {ids : List Json} {callId : Json} (h : Distinct ids)
    (hnew : Json.inSet ids callId = false) : Distinct (ids ++ [callId]) := by
  refine List.pairwise_append.mpr ⟨h, List.pairwise_singleton _ _, ?_⟩
  intro p hp q hq
  obtain rfl := List.mem_singleton.mp hq
  by_contra hne
  have hin : Json.inSet ids q = true := inSet_iff.mpr ⟨p, hp, by simpa using hne⟩
  rw [hin] at hnew
  cases hnew

theorem addToolUse_eq_ok {ids ids' : List Json} {block : Json}
    (h : addToolUse ids block = .ok ids') :
    (block.fieldIs "type" "tool_use" = false ∧ ids' = ids) ∨
    ∃ callId, block.fieldIs "type" "tool_use" = true ∧ block.get? "id" = some callId ∧
      ids' = if Json.inSet ids callId then ids else ids ++ [callId] := by
  unfold addToolUse at h
  split at h
  case isFalse => cases h
  split at h
  case isFalse htype =>
    cases h
    exact .inl ⟨by simpa using htype, rfl⟩
  case isTrue htype =>
    split at h
    · cases h
    · rename_i callId hid
      split at h
      · cases h
      · cases h
        exact .inr ⟨callId, htype, hid, rfl⟩

/-- The set of the ids has no repetition, and is the list of them where that has none. -/
theorem foldlM_addToolUse {acc ids blocks : List Json} (hacc : Distinct acc)
    (h : blocks.foldlM addToolUse acc = .ok ids) :
    Distinct ids ∧ (Distinct (acc ++ toolUseIds blocks) → ids = acc ++ toolUseIds blocks) := by
  induction blocks generalizing acc with
  | nil =>
    cases h
    exact ⟨hacc, fun _ => (List.append_nil _).symm⟩
  | cons block blocks ih =>
    rw [List.foldlM_cons] at h
    obtain ⟨next, hnext, hrest⟩ := bind_eq_ok.mp h
    obtain ⟨htype, rfl⟩ | ⟨callId, htype, hid, rfl⟩ := addToolUse_eq_ok hnext
    · have hsame : toolUseIds (block :: blocks) = toolUseIds blocks := by
        simp [toolUseIds, htype]
      rw [hsame]
      exact ih hacc hrest
    · have hcons : toolUseIds (block :: blocks) = callId :: toolUseIds blocks := by
        simp [toolUseIds, htype, hid]
      rw [hcons]
      cases hin : Json.inSet acc callId with
      | false =>
        rw [hin] at hrest
        obtain ⟨hd, heq⟩ := ih (hacc.concat hin) hrest
        refine ⟨hd, fun hall => ?_⟩
        rw [← List.singleton_append, ← List.append_assoc] at hall ⊢
        exact heq hall
      | true =>
        rw [hin] at hrest
        refine ⟨(ih hacc hrest).1, fun hall => ?_⟩
        obtain ⟨p, hp, hpq⟩ := inSet_iff.mp hin
        have hne := (List.pairwise_append.mp hall).2.2 p hp callId List.mem_cons_self
        rw [hpq] at hne
        cases hne

theorem toolUses_distinct {blocks ids : List Json} (h : toolUses blocks = .ok ids) : Distinct ids :=
  (foldlM_addToolUse List.Pairwise.nil h).1

theorem toolUses_eq {blocks ids : List Json} (h : toolUses blocks = .ok ids)
    (hd : Distinct (toolUseIds blocks)) : ids = toolUseIds blocks :=
  (foldlM_addToolUse List.Pairwise.nil h).2 hd

/-- Of distinct pending ids a result takes away exactly one. -/
theorem pending_perm {ids : List Json} {callId p : Json} (hd : Distinct ids) (hp : p ∈ ids)
    (heq : Json.pyEq p callId = true) :
    ids.Perm (p :: ids.filter fun other => !Json.pyEq other callId) := by
  induction ids with
  | nil => cases hp
  | cons q ids ih =>
    obtain ⟨hq, hd⟩ := List.pairwise_cons.mp hd
    rcases List.mem_cons.mp hp with rfl | hp
    · have hall : ids.filter (fun other => !Json.pyEq other callId) = ids := by
        refine List.filter_eq_self.mpr fun other hother => ?_
        have hne := hq other hother
        by_contra hsame
        have hother' : Json.pyEq other callId = true := by simpa using hsame
        rw [Json.pyEq_trans heq (Json.pyEq_symm hother')] at hne
        cases hne
      simp [heq, hall]
    · have hne : Json.pyEq q callId = false := by
        by_contra hsame
        have hq' : Json.pyEq q callId = true := by simpa using hsame
        have := hq p hp
        rw [Json.pyEq_trans hq' (Json.pyEq_symm heq)] at this
        cases this
      simp only [List.filter_cons, hne, Bool.not_false, if_true]
      exact ((ih hd hp).cons q).trans (List.Perm.swap p q _)

/-! ## The invariant -/

theorem ResultOf.mono {more : List Event} {callId block : Json}
    (h : ResultOf content log callId block) : ResultOf content (log ++ more) callId block := by
  obtain ⟨e, he, hrest⟩ := h
  exact ⟨e, List.mem_append_left _ he, hrest⟩

theorem Answers.mono {more : List Event} {ids results : List Json}
    (h : Answers content log ids results) : Answers content (log ++ more) ids results := by
  obtain ⟨order, hperm, hall⟩ := h
  exact ⟨order, hperm, hall.imp fun _ _ hr => hr.mono⟩

theorem Committed.mono {more later : List Event} {before : List Json} {message : Json}
    (h : Committed content log before message later) :
    Committed content (log ++ more) before message (later ++ more) := by
  obtain ⟨earlier, commit, st, rfl, hrest⟩ := h
  exact ⟨earlier, commit, st, by rw [List.append_assoc, List.cons_append], hrest⟩

theorem Paired.mono {more : List Event} (h : Paired content log st) :
    Paired content (log ++ more) st := by
  refine ⟨h.distinct, h.defined, fun before message blocks ids rest hcalls => ?_⟩
  obtain ⟨later, hcommitted, hanswered⟩ := h.answered before message blocks ids rest hcalls
  refine ⟨later ++ more, hcommitted.mono, ?_⟩
  obtain ⟨results, after, hrest, ha⟩ | ⟨hrest, hp, order, hperm, hall⟩ := hanswered
  · exact .inl ⟨results, after, hrest, ha.mono⟩
  · exact .inr ⟨hrest, hp, order, hperm, hall.imp fun _ _ hr => hr.mono⟩

/-- The last message of a list is one of the earlier ones or the one just added. -/
theorem CallsAt.concat {messages before blocks ids rest : List Json} {added message : Json}
    (h : CallsAt (messages ++ [added]) before message blocks ids rest) :
    (∃ rest', rest = rest' ++ [added] ∧ CallsAt messages before message blocks ids rest') ∨
    (rest = [] ∧ message = added ∧ before = messages) := by
  obtain ⟨hmessages, hrest⟩ := h
  rcases List.eq_nil_or_concat rest with rfl | ⟨rest', last, rfl⟩
  · obtain ⟨hinit, hlast⟩ := List.append_inj' hmessages rfl
    exact .inr ⟨rfl, (List.cons.inj hlast).1.symm, hinit.symm⟩
  · rw [List.concat_eq_append, ← List.cons_append, ← List.append_assoc] at hmessages
    obtain ⟨hinit, hlast⟩ := List.append_inj' hmessages rfl
    obtain rfl : added = last := (List.cons.inj hlast).1
    exact .inl ⟨rest', List.concat_eq_append, hinit, hrest⟩

theorem assistantContent_resultMessage (results : List Json) :
    assistantContent (resultMessage results) = .ok none := by
  simp [assistantContent, resultMessage, Json.pyEq]

/-- A message added to those whose blocks are sound. -/
theorem Paired.defined_concat {message : Json} (h : Paired content log st)
    (hm : ∀ blocks, assistantContent message = .ok (some blocks) → ∃ ids, toolUses blocks = .ok ids) :
    ∀ m ∈ st.messages ++ [message], ∀ blocks, assistantContent m = .ok (some blocks) →
      ∃ ids, toolUses blocks = .ok ids := by
  intro m hin
  rcases List.mem_append.mp hin with hin | hin
  · exact h.defined m hin
  · obtain rfl := List.mem_singleton.mp hin
    exact hm

theorem Paired.said {message : Json} (h : Paired content log st) (hquiet : st.pending = [])
    (hcontent : assistantContent message = .ok none) :
    Paired content log { st with messages := st.messages ++ [message] } := by
  have hnone (blocks : List Json) : assistantContent message ≠ .ok (some blocks) := by
    rw [hcontent]
    exact nofun
  refine ⟨h.distinct, h.defined_concat fun blocks hb => absurd hb (hnone blocks),
    fun before m blocks ids rest hcalls => ?_⟩
  obtain ⟨rest', rfl, hcalls'⟩ | ⟨rfl, rfl, -⟩ := hcalls.concat
  · obtain ⟨later, hcommitted, ⟨results, more, rfl, ha⟩ | ⟨-, hp, -⟩⟩ :=
      h.answered before m blocks ids rest' hcalls'
    · exact ⟨later, hcommitted, .inl ⟨results, more ++ [message], rfl, ha⟩⟩
    · exact absurd hquiet hp
  · exact absurd hcalls.2.1 (hnone blocks)

theorem Paired.called {message : Json} {blocks ids : List Json} (h : Paired content log st)
    (hquiet : st.pending = []) (hresults : st.results = [])
    (hcommitted : Committed content log st.messages message [])
    (hcontent : assistantContent message = .ok (some blocks)) (hids : toolUses blocks = .ok ids) :
    Paired content log { st with messages := st.messages ++ [message], pending := ids } := by
  have hdefined (blocks' : List Json) (hb : assistantContent message = .ok (some blocks')) :
      ∃ ids, toolUses blocks' = .ok ids := by
    obtain rfl : blocks = blocks' := Option.some.inj (Except.ok.inj (hcontent.symm.trans hb))
    exact ⟨ids, hids⟩
  refine ⟨toolUses_distinct hids, h.defined_concat hdefined,
    fun before m blocks' ids' rest hcalls => ?_⟩
  obtain ⟨rest', rfl, hcalls'⟩ | ⟨rfl, rfl, rfl⟩ := hcalls.concat
  · obtain ⟨later, hearlier, ⟨results, more, rfl, ha⟩ | ⟨-, hp, -⟩⟩ :=
      h.answered before m blocks' ids' rest' hcalls'
    · exact ⟨later, hearlier, .inl ⟨results, more ++ [message], rfl, ha⟩⟩
    · exact absurd hquiet hp
  · obtain ⟨-, hcontent', hids', hne⟩ := hcalls
    obtain rfl : blocks = blocks' := Option.some.inj (Except.ok.inj (hcontent.symm.trans hcontent'))
    obtain rfl : ids = ids' := Except.ok.inj (hids.symm.trans hids')
    refine ⟨[], hcommitted, .inr ⟨rfl, hne, [], List.Perm.refl _, ?_⟩⟩
    rw [hresults]
    exact .nil

/-- A result that leaves calls pending, and the one that closes the batch. -/
theorem Paired.paired {callId : Json} (h : Paired content log st)
    (htype : e.type.pairsCall = true) (hid : e.payload.get? "call_id" = some callId)
    (hin : Json.inSet st.pending callId = true) :
    Paired content (log ++ [e]) (addResult content st e callId) := by
  obtain ⟨p, hp, heq⟩ := inSet_iff.mp hin
  have hperm := pending_perm h.distinct hp heq
  have hresult (later : List Event) :
      ResultOf content (later ++ [e]) p (resultBlock content e callId) :=
    ⟨e, by simp, callId, htype, hid, heq, rfl⟩
  have hnext {order ids : List Json} {later : List Event} (ho : (order ++ st.pending).Perm ids)
      (hall : List.Forall₂ (ResultOf content later) order st.results) :
      ((order ++ [p]) ++ st.pending.filter fun other => !Json.pyEq other callId).Perm ids ∧
        List.Forall₂ (ResultOf content (later ++ [e])) (order ++ [p])
          (st.results ++ [resultBlock content e callId]) := by
    refine ⟨?_, List.rel_append (hall.imp fun _ _ hr => hr.mono) (.cons (hresult later) .nil)⟩
    rw [List.append_assoc, List.singleton_append]
    exact (List.Perm.append_left order hperm.symm).trans ho
  unfold addResult
  dsimp only
  split
  case isTrue hlast =>
    rw [List.isEmpty_iff] at hlast
    have hnone (blocks : List Json) : assistantContent (resultMessage
        (st.results ++ [resultBlock content e callId])) ≠ .ok (some blocks) := by
      rw [assistantContent_resultMessage]
      exact nofun
    refine ⟨List.Pairwise.nil, h.defined_concat fun blocks hb => absurd hb (hnone blocks),
      fun before m blocks ids rest hcalls => ?_⟩
    obtain ⟨rest', rfl, hcalls'⟩ | ⟨rfl, rfl, -⟩ := hcalls.concat
    · obtain ⟨later, hcommitted, ⟨results, more, rfl, ha⟩ | ⟨rfl, -, order, ho, hall⟩⟩ :=
        h.answered before m blocks ids rest' hcalls'
      · exact ⟨_, hcommitted.mono, .inl ⟨results, more ++ [_], rfl, ha.mono⟩⟩
      · obtain ⟨hperm', hall'⟩ := hnext ho hall
        rw [hlast, List.append_nil] at hperm'
        exact ⟨_, hcommitted.mono, .inl ⟨_, [], rfl, _, hperm', hall'⟩⟩
    · exact absurd hcalls.2.1 (hnone blocks)
  case isFalse hmore =>
    refine ⟨h.distinct.filter _, h.defined, fun before m blocks ids rest hcalls => ?_⟩
    obtain ⟨later, hcommitted, ⟨results, more, rfl, ha⟩ | ⟨rfl, -, order, ho, hall⟩⟩ :=
      h.answered before m blocks ids rest hcalls
    · exact ⟨_, hcommitted.mono, .inl ⟨results, more, rfl, ha.mono⟩⟩
    · obtain ⟨hperm', hall'⟩ := hnext ho hall
      exact ⟨_, hcommitted.mono,
        .inr ⟨rfl, fun hnil => hmore (List.isEmpty_iff.mpr hnil), _, hperm', hall'⟩⟩

theorem paired_run (ho : Orderly content log) (h : run content log {} = .ok st) :
    Paired content log st := by
  induction log using List.reverseRecOn generalizing st with
  | nil =>
    cases h
    refine ⟨List.Pairwise.nil, by simp, fun before m blocks ids rest hcalls => ?_⟩
    exact absurd hcalls.1 (by simp)
  | append_singleton log e ih =>
    obtain ⟨mid, hmid, hstep⟩ := run_concat.mp h
    have hpaired : Paired content log mid := ih ho.left hmid
    have hquiet : Says e → mid.pending = [] := fun hs => ho log e [] rfl hs mid hmid
    cases step_effect hstep with
    | none => exact hpaired.mono
    | said hs hcontent => exact hpaired.mono.said (hquiet hs) hcontent
    | called hs hmessage hcontent hids =>
      exact hpaired.mono.called (hquiet hs) (results_of_closed ho.left hmid (hquiet hs))
        ⟨log, e, mid, rfl, hmid, rfl, hs, hmessage⟩ hcontent hids
    | paired htype hid hin => exact hpaired.paired htype hid hin

/-- In a defined projection every assistant message with calls is answered by the next one, from
events that come after it. -/
theorem project_answered {messages before blocks rest : List Json} {message : Json}
    (ho : Orderly content log) (h : project content log = .ok messages)
    (hm : messages = before ++ message :: rest)
    (hblocks : assistantContent message = .ok (some blocks)) (hne : toolUseIds blocks ≠ [])
    (hd : Distinct (toolUseIds blocks)) :
    ∃ later results more, Committed content log before message later ∧
      rest = resultMessage results :: more ∧ Answers content later (toolUseIds blocks) results := by
  obtain ⟨st, hrun, hfinish⟩ := bind_eq_ok.mp h
  have hpaired := paired_run ho hrun
  unfold finish at hfinish
  split at hfinish
  case isFalse => cases hfinish
  case isTrue hp =>
    obtain rfl : st.messages = messages := Except.ok.inj hfinish
    obtain ⟨ids, hids⟩ := hpaired.defined message (by simp [hm]) blocks hblocks
    obtain rfl : ids = toolUseIds blocks := toolUses_eq hids hd
    obtain ⟨later, hcommitted, ⟨results, more, hrest, ha⟩ | ⟨-, hpending, -⟩⟩ :=
      hpaired.answered before message blocks _ rest ⟨hm, hblocks, hids, hne⟩
    · exact ⟨later, results, more, hcommitted, hrest, ha⟩
    · exact absurd (List.isEmpty_iff.mp hp) hpending

end Eventide.MessagesProjection
