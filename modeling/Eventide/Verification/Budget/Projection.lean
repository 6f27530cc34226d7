import Eventide.Verification.Budget.Codec
import Eventide.Verification.Store.Transact

/-! # What an accepted operation commits, and what it leaves to rebuild -/

namespace Eventide

open Outcome RuntimeStore

namespace BudgetState

/-- A step reads the type and the payload of an event. -/
def stepFact (st : BudgetState) (fact : EventType × Json) : Except PyError BudgetState :=
  match fact.1 with
  | .budgetConfigured => Configured.ofJson fact.2 >>= st.applyConfigured
  | .budgetReserved => Reservation.ofJson fact.2 >>= st.applyReserved
  | .budgetSettled => Settlement.ofJson fact.2 >>= st.applySettled
  | .budgetResolved => Resolution.ofJson fact.2 >>= st.applyResolved
  | _ => .ok st

theorem step_eq (st : BudgetState) (e : Event) : st.step e = st.stepFact (e.type, e.payload) := rfl

theorem step_other {st : BudgetState} {e : Event} (h : e.type ∉ budgetFacts) :
    st.step e = .ok st := by
  unfold step
  split <;> simp_all [budgetFacts]

theorem foldlM_adds {sid author : String} {runId : Option String} {rows : List Event}
    {additions : List (EventType × Json)} (h : List.Forall₂ (Adds sid runId author) rows additions)
    (st : BudgetState) : rows.foldlM step st = additions.foldlM stepFact st := by
  induction h generalizing st with
  | nil => rfl
  | cons hr _ ih =>
    simp only [List.foldlM_cons, ih, step_eq, hr.type_eq, hr.payload_eq]

end BudgetState

namespace RuntimeStore

/-- The state that `_projection` rebuilds from the committed facts. -/
def budgetState (s : RuntimeStore) : Except PyError BudgetState :=
  budgetProjection (s.factsByType budgetFacts)

/-- Facts of other types do not change what is rebuilt. -/
theorem budgetProjection_factsByType (s : RuntimeStore) {types : List EventType}
    (h : ∀ kind ∈ budgetFacts, kind ∈ types) :
    budgetProjection (s.factsByType types) = s.budgetState := by
  have hall : ∀ kinds : List EventType, (∀ kind ∈ budgetFacts, kind ∈ kinds) →
      budgetProjection (s.factsByType kinds) = budgetProjection (s.events.filter (!·.isPartial)) := by
    intro kinds hk
    have hf : s.factsByType kinds =
        (s.events.filter (!·.isPartial)).filter (·.type ∈ kinds) := by
      simp only [factsByType, List.filter_filter]
      exact List.filter_congr fun e _ => by simp [Bool.and_comm]
    rw [hf]
    refine foldlM_filter (fun st e he => BudgetState.step_other fun hm => ?_) _ _
    simp [hk _ hm] at he
  rw [budgetState, hall types h, hall budgetFacts fun _ h => h]

theorem factsByType_append (s : RuntimeStore) (rows : List Event) (types : List EventType) :
    factsByType { s with events := s.events ++ rows } types =
      s.factsByType types ++ rows.filter fun e => !e.isPartial ∧ e.type ∈ types := by
  simp [factsByType, List.filter_append]

theorem budgetState_append {s : RuntimeStore} {st : BudgetState} (h : s.budgetState = .ok st)
    {rows : List Event} (hw : ∀ e ∈ rows, e.isPartial = false) :
    budgetState { s with events := s.events ++ rows } = rows.foldlM BudgetState.step st := by
  have hf : rows.filter (fun e => !e.isPartial ∧ e.type ∈ budgetFacts) =
      rows.filter (·.type ∈ budgetFacts) :=
    List.filter_congr fun e he => by simp [hw e he]
  rw [budgetState, factsByType_append, hf, budgetProjection, List.foldlM_append,
    ← budgetProjection, ← budgetState, h, ok_bind]
  exact foldlM_filter (fun st e he => BudgetState.step_other (by simpa using he)) rows st

end RuntimeStore

/-- The row that a model fact of the same transaction adds. -/
def modelRow (kind : EventType) (fact : Option Json) : List (EventType × Json) :=
  fact.toList.map (kind, ·)

/-- What an accepted operation makes of the state `st` that it rebuilt: the state it then holds,
the state that the next operation will rebuild, and the facts it appends. -/
inductive Committed (st : BudgetState) :
    BudgetState → BudgetState → List (EventType × Json) → Prop
  | replay : Committed st st st []
  | configured (p : Configured) : st.requests.get? p.requestId = none →
      Committed st { st with limits := st.limits.set p.scope p.tokenLimit }
        { st with
          requests := st.requests.set p.requestId p
          limits := st.limits.set p.scope p.tokenLimit }
        [(.budgetConfigured, p.toJson)]
  | reserved (r : Reservation) (started : Option Json) :
      st.reservations.get? r.attemptId = none →
      Committed st
        { st with reservations := st.reservations.set r.attemptId { reservation := r } }
        { st with reservations := st.reservations.set r.attemptId { reservation := r } }
        ((.budgetReserved, r.toJson) :: modelRow .modelAttemptStarted started)
  | settled (p : Settlement) (item : BudgetItem) (finished : Option Json) :
      st.reservations.get? p.attemptId = some item → st.seen (.settled p) = false →
      item.resolution = none →
      (∀ prior, item.settlement = some prior →
        prior.actualTokens = none ∧ p.actualTokens ≠ none) →
      Committed st
        { st with
          reservations := st.reservations.set p.attemptId { item with settlement := some p } }
        { st with
          seenChanges := st.seenChanges ++ [.settled p]
          reservations := st.reservations.set p.attemptId { item with settlement := some p } }
        ((.budgetSettled, p.toJson) :: modelRow .modelAttemptFinished finished)
  | resolved (p : Resolution) (item : BudgetItem) :
      st.reservations.get? p.attemptId = some item → item.resolution = none →
      item.amount.actual = none →
      Committed st
        { st with
          reservations := st.reservations.set p.attemptId { item with resolution := some p } }
        { st with
          seenChanges := st.seenChanges ++ [.resolved p]
          reservations := st.reservations.set p.attemptId { item with resolution := some p } }
        [(.budgetResolved, p.toJson)]

namespace BudgetState

theorem seen_concat {st later : BudgetState} {change : Change}
    (h : later.seenChanges = st.seenChanges ++ [change]) (c : Change) :
    later.seen c = (st.seen c || change.same c) := by
  simp [seen, h]

/-- A resolution that was seen is the one its attempt keeps. -/
def Resolved (st : BudgetState) : Prop :=
  ∀ p, st.seen (.resolved p) = true →
    ∃ item, st.reservations.get? p.attemptId = some item ∧ item.resolution = some p

/-- Nothing that a state records is lost in a later one. -/
structure Extends (st later : BudgetState) : Prop where
  requests : ∀ id p, st.requests.get? id = some p → later.requests.get? id = some p
  reservations : ∀ id item, st.reservations.get? id = some item →
    ∃ item', later.reservations.get? id = some item' ∧ item'.reservation = item.reservation ∧
      ∀ p, item.resolution = some p → item'.resolution = some p
  seen : ∀ c, st.seen c = true → later.seen c = true

theorem Extends.refl (st : BudgetState) : st.Extends st :=
  ⟨fun _ _ h => h, fun _ item h => ⟨item, h, rfl, fun _ hp => hp⟩, fun _ h => h⟩

theorem Extends.trans {a b c : BudgetState} (h : a.Extends b) (k : b.Extends c) : a.Extends c := by
  refine ⟨fun id p hp => k.requests id p (h.requests id p hp), fun id item hi => ?_,
    fun c hc => k.seen c (h.seen c hc)⟩
  obtain ⟨item', hi', hr', hp'⟩ := h.reservations id item hi
  obtain ⟨item'', hi'', hr'', hp''⟩ := k.reservations id item' hi'
  exact ⟨item'', hi'', hr''.trans hr', fun p hp => hp'' p (hp' p hp)⟩

/-- Writing an attempt's item anew keeps its reservation and its resolution. -/
theorem reservations_set {st : BudgetState} {id : String} {item : BudgetItem}
    (item' : BudgetItem) (h : st.reservations.get? id = some item) (hr : item'.reservation = item.reservation)
    (hp : ∀ p, item.resolution = some p → item'.resolution = some p) (j : String)
    (old : BudgetItem) (hj : st.reservations.get? j = some old) :
    ∃ new, (st.reservations.set id item').get? j = some new ∧
      new.reservation = old.reservation ∧
      ∀ p, old.resolution = some p → new.resolution = some p := by
  by_cases hid : j = id
  · subst hid
    obtain rfl := Option.some.inj (hj.symm.trans h)
    exact ⟨item', by simp, hr, hp⟩
  · exact ⟨old, by simp [hid, hj], rfl, fun _ h => h⟩

end BudgetState

namespace Committed

variable {st held rebuilt : BudgetState} {additions : List (EventType × Json)}

theorem modelRow_foldlM (kind : EventType) (hk : kind ∉ budgetFacts) (fact : Option Json) :
    (modelRow kind fact).foldlM BudgetState.stepFact st = .ok st := by
  cases fact with
  | none => rfl
  | some fact =>
    have hs : st.stepFact (kind, fact) = .ok st := by
      unfold BudgetState.stepFact
      split <;> simp_all [budgetFacts]
    simp [modelRow, hs]

/-- The fold accepts every fact that an operation appends. -/
theorem foldlM (h : Committed st held rebuilt additions) (hr : st.Resolved) :
    additions.foldlM BudgetState.stepFact st = .ok rebuilt := by
  cases h with
  | replay => rfl
  | configured p hp =>
    simp [BudgetState.stepFact, Configured.ofJson_toJson, BudgetState.applyConfigured, hp]
  | reserved r started hn =>
    rw [List.foldlM_cons]
    simp only [BudgetState.stepFact, Reservation.ofJson_toJson, ok_bind,
      BudgetState.applyReserved, hn]
    exact modelRow_foldlM _ (by decide) _
  | settled p item finished hi hs hn hp =>
    have hc : ¬ (item.settlement.any fun prior =>
        !prior.same p && (prior.actualTokens.isSome || p.actualTokens.isNone)) = true := by
      cases hprior : item.settlement with
      | none => simp
      | some prior =>
        obtain ⟨ha, hb⟩ := hp prior hprior
        simp [ha, hb]
    rw [List.foldlM_cons]
    simp only [BudgetState.stepFact, Settlement.ofJson_toJson, ok_bind,
      BudgetState.applySettled, hs, hi, raiseIf_of_not hc, Bool.false_eq_true, if_false]
    exact modelRow_foldlM _ (by decide) _
  | resolved p item hi hn ha =>
    have hs : ¬ st.seen (.resolved p) = true := by
      intro hs
      obtain ⟨item', hi', hp⟩ := hr p hs
      obtain rfl := Option.some.inj (hi.symm.trans hi')
      rw [hn] at hp
      cases hp
    simp [BudgetState.stepFact, Resolution.ofJson_toJson, BudgetState.applyResolved, hs, hi, hn,
      raiseIf]

theorem extends_ (h : Committed st held rebuilt additions) : st.Extends rebuilt := by
  cases h with
  | replay => exact .refl _
  | configured p hp =>
    refine ⟨fun id q hq => ?_, fun id item hi => ⟨item, hi, rfl, fun _ h => h⟩, fun _ h => h⟩
    have hne : id ≠ p.requestId := by
      rintro rfl
      rw [hp] at hq
      cases hq
    simpa [hne] using hq
  | reserved r started hn =>
    refine ⟨fun _ _ h => h, fun id item hi => ⟨item, ?_, rfl, fun _ h => h⟩, fun _ h => h⟩
    have hne : id ≠ r.attemptId := by
      rintro rfl
      rw [hn] at hi
      cases hi
    simpa [hne] using hi
  | settled p item finished hi hs hn hp =>
    refine ⟨fun _ _ h => h, fun j old hj => ?_, fun c hc => ?_⟩
    · exact BudgetState.reservations_set { item with settlement := some p } hi rfl (fun _ h => h) j old hj
    · rw [BudgetState.seen_concat rfl, hc, Bool.true_or]
  | resolved p item hi hn ha =>
    refine ⟨fun _ _ h => h, fun j old hj => ?_, fun c hc => ?_⟩
    · exact BudgetState.reservations_set { item with resolution := some p } hi rfl (by simp [hn]) j old hj
    · rw [BudgetState.seen_concat rfl, hc, Bool.true_or]

theorem resolved_rebuilt (h : Committed st held rebuilt additions) (hr : st.Resolved) :
    rebuilt.Resolved := by
  have hext := extends_ h
  -- A resolution seen before keeps its place; the only new one is the one just written.
  have hkeep : ∀ q, st.seen (.resolved q) = true →
      ∃ item, rebuilt.reservations.get? q.attemptId = some item ∧ item.resolution = some q := by
    intro q hq
    obtain ⟨item, hi, hp⟩ := hr q hq
    obtain ⟨item', hi', -, hp'⟩ := hext.reservations _ _ hi
    exact ⟨item', hi', hp' q hp⟩
  intro q hq
  cases h with
  | replay => exact hkeep q hq
  | configured p hp => exact hkeep q hq
  | reserved r started hn => exact hkeep q hq
  | settled p item finished hi hs hn hp =>
    rw [BudgetState.seen_concat rfl, Bool.or_eq_true] at hq
    exact hkeep q (hq.resolve_right Bool.false_ne_true)
  | resolved p item hi hn ha =>
    rw [BudgetState.seen_concat rfl, Bool.or_eq_true] at hq
    rcases hq with hq | hq
    · exact hkeep q hq
    · obtain rfl : p = q := of_decide_eq_true hq
      exact ⟨{ item with resolution := some p }, by simp, rfl⟩

end Committed

end Eventide
