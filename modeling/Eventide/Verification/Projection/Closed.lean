import Eventide.Library.Outcome
import Eventide.Model.Projections
import Eventide.Verification.Json.Equality

/-! # Closed cuts of a log

Where no message is committed while calls are pending, a prefix without pending calls leaves
nothing behind for the events after it. -/

namespace Eventide.MessagesProjection

open Outcome

variable (content : Option (Event → Json))

/-- No tool call of the log is pending at its end. -/
def Closed (log : List Event) : Prop := ∀ st, run content log {} = .ok st → st.pending = []

/-- The event commits a message. -/
def Says (e : Event) : Prop :=
  e.isPartial = false ∧ e.type.holdsMessage = true ∧ (message? e).isSome

/-- No message is committed while tool calls of an earlier one are pending. -/
def Orderly (log : List Event) : Prop :=
  ∀ before e after, log = before ++ e :: after → Says e → Closed content before

variable {content} {log : List Event} {st st' : MessagesProjection} {e : Event}

theorem Orderly.left {more : List Event} (h : Orderly content (log ++ more)) :
    Orderly content log := by
  intro before e after hlog
  exact h before e (after ++ more) (by simp [hlog])

theorem orderly_nil : Orderly content [] := by
  intro before e after hlog
  simp at hlog

theorem Orderly.concat (h : Orderly content log) (he : Says e → Closed content log) :
    Orderly content (log ++ [e]) := by
  intro before other after hlog hsays
  rcases List.eq_nil_or_concat after with rfl | ⟨after, last, rfl⟩
  · obtain ⟨rfl, hlast⟩ := List.append_inj' hlog rfl
    exact he ((List.singleton_inj.mp hlast) ▸ hsays)
  · rw [List.concat_eq_append, ← List.cons_append, ← List.append_assoc] at hlog
    exact h before other after (List.append_inj' hlog rfl).1 hsays

theorem run_concat : run content (log ++ [e]) st = .ok st' ↔
    ∃ mid, run content log st = .ok mid ∧ step content mid e = .ok st' :=
  foldlM_concat_eq_ok

/-! ## What one event does -/

/-- Every effect of an event on the state of the fold. -/
inductive Effect (content : Option (Event → Json)) (e : Event) (st : MessagesProjection) :
    MessagesProjection → Prop
  | none : Effect content e st st
  | said {message : Json} (hs : Says e) (hcontent : assistantContent message = .ok none) :
      Effect content e st { st with messages := st.messages ++ [message] }
  | called {message : Json} {blocks ids : List Json} (hs : Says e)
      (hmessage : message? e = some message)
      (hcontent : assistantContent message = .ok (some blocks)) (hids : toolUses blocks = .ok ids) :
      Effect content e st { st with messages := st.messages ++ [message], pending := ids }
  | paired {callId : Json} (htype : e.type.pairsCall = true)
      (hid : e.payload.get? "call_id" = some callId)
      (hin : Json.inSet st.pending callId = true) :
      Effect content e st (addResult content st e callId)

theorem addMessage_eq_ok {message : Json} : addMessage st message = .ok st' ↔
    (assistantContent message = .ok none ∧
      st' = { st with messages := st.messages ++ [message] }) ∨
    ∃ blocks ids, assistantContent message = .ok (some blocks) ∧ toolUses blocks = .ok ids ∧
      st' = { st with messages := st.messages ++ [message], pending := ids } := by
  unfold addMessage
  rw [bind_eq_ok]
  constructor
  · rintro ⟨blocks, hblocks, h⟩
    cases blocks with
    | none =>
      cases h
      exact .inl ⟨hblocks, rfl⟩
    | some blocks =>
      obtain ⟨ids, hids, h⟩ := bind_eq_ok.mp h
      cases h
      exact .inr ⟨blocks, ids, hblocks, hids, rfl⟩
  · rintro (⟨hblocks, rfl⟩ | ⟨blocks, ids, hblocks, hids, rfl⟩)
    · exact ⟨none, hblocks, rfl⟩
    · exact ⟨some blocks, hblocks, bind_eq_ok.mpr ⟨ids, hids, rfl⟩⟩

theorem step_effect (h : step content st e = .ok st') : Effect content e st st' := by
  unfold step at h
  split at h
  · cases h
    exact .none
  rename_i hpartial
  split at h
  · rename_i htype
    split at h
    · rename_i message hmessage
      have hs : Says e := ⟨by simpa using hpartial, htype, by simp [hmessage]⟩
      obtain ⟨hcontent, rfl⟩ | ⟨blocks, ids, hcontent, hids, rfl⟩ := addMessage_eq_ok.mp h
      · exact .said hs hcontent
      · exact .called hs hmessage hcontent hids
    · cases h
      exact .none
  split at h
  · rename_i htype
    obtain ⟨callId, hid, h⟩ := bind_eq_ok.mp h
    have hget : e.payload.get? "call_id" = some callId := by
      unfold Json.require at hid
      split at hid
      · rename_i value hvalue
        rw [hvalue, Except.ok.inj hid]
      · cases hid
    split at h
    · cases h
    split at h
    · rename_i hin
      cases h
      exact .paired htype hget hin
    · cases h
      exact .none
  · cases h
    exact .none

/-! ## The messages so far do not matter -/

/-- The state with other messages in front. -/
def after (earlier : List Json) (st : MessagesProjection) : MessagesProjection :=
  { st with messages := earlier ++ st.messages }

theorem addResult_after (earlier : List Json) (callId : Json) :
    addResult content (after earlier st) e callId = after earlier (addResult content st e callId) := by
  unfold addResult after
  dsimp only
  split
  · simp
  · rfl

theorem addMessage_after (earlier : List Json) (message : Json) :
    addMessage (after earlier st) message = (addMessage st message).map (after earlier) := by
  unfold addMessage after
  cases assistantContent message with
  | error e => rfl
  | ok blocks =>
    cases blocks with
    | none => simp [Except.map]
    | some blocks => cases hids : toolUses blocks <;> simp [hids, Except.map]

theorem pairCall_after (earlier : List Json) :
    pairCall content (after earlier st) e = (pairCall content st e).map (after earlier) := by
  unfold pairCall
  cases e.payload.require "call_id" with
  | error e => rfl
  | ok callId =>
    simp only [ok_bind]
    cases callId.hashError? with
    | some error => rfl
    | none =>
      change Except.ok (if Json.inSet st.pending callId then
          addResult content (after earlier st) e callId else after earlier st) =
        .ok (after earlier (if Json.inSet st.pending callId then addResult content st e callId
          else st))
      split
      · exact congrArg Except.ok (addResult_after earlier callId)
      · rfl

theorem step_after (earlier : List Json) :
    step content (after earlier st) e = (step content st e).map (after earlier) := by
  unfold step
  split
  · rfl
  split
  · cases message? e with
    | none => rfl
    | some message => exact addMessage_after earlier message
  split
  · exact pairCall_after earlier
  · rfl

theorem run_after (earlier : List Json) (log : List Event) :
    run content log (after earlier st) = (run content log st).map (after earlier) := by
  induction log generalizing st with
  | nil => rfl
  | cons e log ih =>
    unfold run at ih ⊢
    rw [List.foldlM_cons, List.foldlM_cons, step_after]
    cases step content st e with
    | error error => rfl
    | ok next => exact ih

/-! ## Nothing is buffered at a closed cut -/

theorem results_of_closed (ho : Orderly content log) (h : run content log {} = .ok st)
    (hp : st.pending = []) : st.results = [] := by
  induction log using List.reverseRecOn generalizing st with
  | nil =>
    cases h
    rfl
  | append_singleton log e ih =>
    obtain ⟨mid, hmid, hstep⟩ := run_concat.mp h
    have hquiet : Says e → mid.pending = [] := fun hs => ho log e [] rfl hs mid hmid
    cases step_effect hstep with
    | none => exact ih ho.left hmid hp
    | said hs =>
      have hresults := ih ho.left hmid hp
      exact hresults
    | called hs =>
      have hresults := ih ho.left hmid (hquiet hs)
      exact hresults
    | paired =>
      unfold addResult at hp ⊢
      dsimp only at hp ⊢
      split
      · rfl
      · rename_i hne
        rw [if_neg hne] at hp
        exact absurd (List.isEmpty_iff.mpr hp) hne

theorem project_of_run (h : run content log {} = .ok st) : project content log = finish st := by
  rw [project, h, ok_bind]

/-- The projection of a log that was cut where no call was pending. -/
theorem project_append (content : Option (Event → Json)) {before tail : List Event}
    (ho : Orderly content (before ++ tail)) (hc : Closed content before) :
    project content (before ++ tail) = do
      let first ← project content before
      let rest ← project content tail
      return first ++ rest := by
  cases hrun : run content before {} with
  | error e =>
    have hall : run content (before ++ tail) {} = .error e := by
      unfold run at hrun ⊢
      rw [List.foldlM_append, hrun]
      rfl
    rw [project, hall, project, hrun]
    rfl
  | ok st =>
    have hpending : st.pending = [] := hc st hrun
    have hresults : st.results = [] := results_of_closed ho.left hrun hpending
    have hst : st = after st.messages {} := by
      cases st
      simp_all [after]
    have hall : run content (before ++ tail) {} =
        (run content tail {}).map (after st.messages) := by
      have hsplit : run content (before ++ tail) {} = run content tail st := by
        unfold run at hrun ⊢
        rw [List.foldlM_append, hrun]
        rfl
      calc run content (before ++ tail) {} = run content tail (after st.messages {}) := by
            rw [hsplit, ← hst]
        _ = (run content tail {}).map (after st.messages) := run_after st.messages tail
    rw [project_of_run hrun, project, hall, project, finish, hpending]
    cases run content tail {} with
    | error e => rfl
    | ok last =>
      simp only [Except.map, ok_bind, finish, after, List.isEmpty_nil, if_true]
      split <;> rfl

end Eventide.MessagesProjection
