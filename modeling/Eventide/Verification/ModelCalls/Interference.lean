import Eventide.Model.ModelCalls
import Eventide.Verification.Budget.Attempts
import Eventide.Verification.Store.Open

/-! # What other tasks leave of the attempts of a call -/

namespace Eventide

open Outcome RuntimeStore

/-- The log has the finish fact of an attempt. -/
def Finished (events : List Event) (id : String) : Prop :=
  ∃ e ∈ events, e.type = .modelAttemptFinished ∧ attemptIdOf e.payload = some id

theorem RuntimeStore.finished_attemptRows {s : RuntimeStore} {ids : List String} {id : String}
    (h : id ∈ ids) : Finished (s.attemptRows ids) id ↔ Finished s.events id := by
  constructor
  · rintro ⟨e, he, ht, hid⟩
    exact ⟨e, List.mem_of_mem_filter he, ht, hid⟩
  · rintro ⟨e, he, ht, hid⟩
    refine ⟨e, List.mem_filter.mpr ⟨he, ?_⟩, ht, hid⟩
    exact decide_eq_true ⟨by simp [ht, modelFacts], id, h, hid⟩

/-- Identifiers are unique, so other tasks reserve and settle attempts of their own; a user
resolves an attempt only once it has finished. -/
def Spares (s : RuntimeStore) (ids : List String) : LedgerCall → Prop
  | .configure _ => True
  | .reserve args => args.attemptId ∉ ids
  | .settle args => args.attemptId ∉ ids
  | .resolveUnknown args => args.attemptId ∈ ids → Finished s.events args.attemptId

/-- A step of another task: a call of the ledger, or a transaction without budget facts. The
run of a call in progress is ended by nobody else. -/
inductive OtherStep (run : Run) (ids : List String) (s : RuntimeStore) : RuntimeStore → Prop
  | foreign {t : RuntimeStore} (h : Foreign s t) (hosts : s.Hosts run → t.Hosts run)
      (hrows : t.attemptRows ids = s.attemptRows ids) : OtherStep run ids s t
  | call (context : LedgerCall.Context) (call : LedgerCall) (h : Spares s ids call) :
      OtherStep run ids s (call.perform s context).2

/-- Any number of steps of other tasks. -/
def Elsewhere (run : Run) (ids : List String) : RuntimeStore → RuntimeStore → Prop :=
  Relation.ReflTransGen (OtherStep run ids)

/-- Nothing happens to the attempts of `ids`, but that a finished one may be resolved. -/
structure Framed (run : Run) (ids : List String) (s t : RuntimeStore) (st later : BudgetState) :
    Prop where
  ledger : Ledgered t later
  hosts : t.Hosts run
  rows : t.attemptRows ids = s.attemptRows ids
  unused : ∀ id ∈ ids, st.reservations.get? id = none → later.reservations.get? id = none
  kept : ∀ id ∈ ids, ∀ item, st.reservations.get? id = some item →
    ∃ item', later.reservations.get? id = some item' ∧ item'.reservation = item.reservation ∧
      item'.settlement = item.settlement ∧
      (¬ Finished (s.attemptRows ids) id → item'.resolution = item.resolution)

/-- The frame of a step, whatever the ledger was before it. -/
def Frames (run : Run) (ids : List String) (s t : RuntimeStore) : Prop :=
  ∀ st, Ledgered s st → s.Hosts run → ∃ later, Framed run ids s t st later

variable {run : Run} {ids : List String} {s t u : RuntimeStore} {st : BudgetState}

theorem Framed.same (hl : Ledgered t st) (hh : t.Hosts run)
    (hrows : t.attemptRows ids = s.attemptRows ids) : Framed run ids s t st st :=
  ⟨hl, hh, hrows, fun _ _ h => h, fun _ _ item hi => ⟨item, hi, rfl, rfl, fun _ => rfl⟩⟩

theorem Frames.refl (run : Run) (ids : List String) (s : RuntimeStore) : Frames run ids s s :=
  fun st hl hh => ⟨st, .same hl hh rfl⟩

theorem Frames.trans (h : Frames run ids s t) (k : Frames run ids t u) : Frames run ids s u := by
  intro st hl hh
  obtain ⟨mid, hm⟩ := h st hl hh
  obtain ⟨later, hk⟩ := k mid hm.ledger hm.hosts
  refine ⟨later, hk.ledger, hk.hosts, hk.rows.trans hm.rows,
    fun id hid hn => hk.unused id hid (hm.unused id hid hn), fun id hid item hi => ?_⟩
  obtain ⟨item', hi', hr', hs', hp'⟩ := hm.kept id hid item hi
  obtain ⟨item'', hi'', hr'', hs'', hp''⟩ := hk.kept id hid item' hi'
  refine ⟨item'', hi'', hr''.trans hr', hs''.trans hs', fun hn => ?_⟩
  exact (hp'' (by rwa [hm.rows])).trans (hp' hn)

/-- Rows that say nothing of budgets, attempts or the end of a run. -/
def EventType.Aside (kind : EventType) : Prop :=
  kind ∉ budgetFacts ∧ kind ∉ modelFacts ∧ kind.isTerminal = false

instance (kind : EventType) : Decidable kind.Aside :=
  inferInstanceAs (Decidable (_ ∧ _ ∧ _))

/-- The ledger does not read them. -/
theorem Ledgered.append {rows : List Event} (h : ∀ e ∈ rows, e.type.Aside)
    (hl : Ledgered s st) : Ledgered { s with events := s.events ++ rows } st := by
  have hnil : rows.filter (fun e => !e.isPartial ∧ e.type ∈ budgetFacts) = [] := by
    rw [List.filter_eq_nil_iff]
    intro e he
    simp [(h e he).1]
  refine ⟨⟨?_, hl.rebuilds.2⟩, hl.settled⟩
  rw [budgetState, factsByType_append, hnil, List.append_nil]
  exact hl.rebuilds.1

theorem RuntimeStore.attemptRows_aside {rows : List Event} (h : ∀ e ∈ rows, e.type.Aside) :
    attemptRows { s with events := s.events ++ rows } ids = s.attemptRows ids := by
  rw [attemptRows_append, List.append_right_eq_self, List.filter_eq_nil_iff]
  intro e he
  simp [(h e he).2.1]

theorem RuntimeStore.Hosts.aside {rows : List Event} (h : ∀ e ∈ rows, e.type.Aside)
    (hh : s.Hosts run) : Hosts { s with events := s.events ++ rows } run :=
  hh.append fun e he => (h e he).2.2

theorem Frames.append {rows : List Event} (h : ∀ e ∈ rows, e.type.Aside) :
    Frames run ids s { s with events := s.events ++ rows } := fun st hl hh =>
  ⟨st, .same (hl.append h) (hh.aside h) (attemptRows_aside h)⟩

/-- The reservations that a call leaves of the attempts it spares. -/
theorem Touched.spares {now : Instant} {call : LedgerCall}
    {reservations : Dict String BudgetItem} {additions : List (EventType × Json)}
    (h : Touched st now call reservations additions) (hs : Spares s ids call) {id : String}
    (hid : id ∈ ids) : (st.reservations.get? id = none → reservations.get? id = none) ∧
      ∀ item, st.reservations.get? id = some item →
        ∃ item', reservations.get? id = some item' ∧ item'.reservation = item.reservation ∧
          item'.settlement = item.settlement ∧
          (¬ Finished (s.attemptRows ids) id → item'.resolution = item.resolution) := by
  have hsame : ∀ item : BudgetItem, st.reservations.get? id = some item →
      ∃ item', st.reservations.get? id = some item' ∧ item'.reservation = item.reservation ∧
        item'.settlement = item.settlement ∧
        (¬ Finished (s.attemptRows ids) id → item'.resolution = item.resolution) :=
    fun item hi => ⟨item, hi, rfl, rfl, fun _ => rfl⟩
  cases h with
  | replay call => exact ⟨fun hn => hn, hsame⟩
  | configured args p => exact ⟨fun hn => hn, hsame⟩
  | reserved args r hpay hn =>
    have hne : id ≠ args.attemptId := fun he => hs (he ▸ hid)
    simpa [hne] using hsame
  | settled args observed p item hobs hi hf hn hprior =>
    have hne : id ≠ args.attemptId := fun he => hs (he ▸ hid)
    simpa [hne] using hsame
  | resolved args p item hi hn =>
    by_cases he : id = args.attemptId
    · subst he
      have hfin := (finished_attemptRows hid).mpr (hs hid)
      refine ⟨fun hnone => ?_, fun old ho => ?_⟩
      · rw [hi] at hnone
        cases hnone
      · obtain rfl := Option.some.inj (hi.symm.trans ho)
        exact ⟨{ item with resolution := some p }, by simp, rfl, rfl, fun hn => absurd hfin hn⟩
    · simpa [he] using hsame

/-- A call that spares the attempts adds none of their facts. -/
theorem Touched.adds_none {now : Instant} {call : LedgerCall}
    {reservations : Dict String BudgetItem} {additions : List (EventType × Json)}
    (h : Touched st now call reservations additions) (hs : Spares s ids call) :
    ∀ id ∈ ids, call.attemptId? = some id → ∀ a ∈ additions, a.1 ∉ modelFacts := by
  intro id hid hcall a ha
  cases h with
  | replay call => simp at ha
  | configured args p => cases hcall
  | reserved args r hpay hn => exact absurd (Option.some.inj hcall ▸ hid) hs
  | settled args observed p item hobs hi hf hn hprior =>
    exact absurd (Option.some.inj hcall ▸ hid) hs
  | resolved args p item hi hn =>
    rw [List.mem_singleton.mp ha]
    simp [modelFacts]

theorem OtherStep.frames (h : OtherStep run ids s t) : Frames run ids s t := by
  intro st hl hh
  cases h with
  | foreign hf hosts hrows =>
    refine ⟨st, .same ⟨⟨?_, hl.rebuilds.2⟩, hl.settled⟩ (hosts hh) hrows⟩
    rw [budgetState, hf.facts]
    exact hl.rebuilds.1
  | call context call hs =>
    generalize hp : call.perform s context = p
    obtain ⟨result, t⟩ := p
    cases result with
    | error e =>
      obtain rfl := LedgerCall.perform_error hp
      exact Frames.refl run ids t st hl hh
    | ok result =>
      obtain ⟨reply, held⟩ := result
      obtain ⟨rebuilt, additions, rows, hperf⟩ :=
        LedgerCall.perform_ok hl.rebuilds.1 hl.rebuilds.2 hp
      have htouched := hperf.touched
      refine ⟨rebuilt, ⟨⟨hperf.state, hperf.committed.resolved_rebuilt hl.rebuilds.2⟩,
        hperf.committed.settled_rebuilt hl.settled⟩, ?_,
        hperf.attemptRows (htouched.adds_none hs),
        fun id hid => (htouched.spares hs hid).1, fun id hid => (htouched.spares hs hid).2⟩
      rw [hperf.log]
      refine hh.append fun e he => ?_
      obtain ⟨a, ha, hadds⟩ := Sequence.mem_of_forall₂ hperf.adds he
      rw [hadds.type_eq]
      exact hperf.committed.nonterminal a ha

theorem Elsewhere.frames (h : Elsewhere run ids s t) : Frames run ids s t := by
  induction h with
  | refl => exact .refl run ids s
  | tail _ hstep ih => exact ih.trans hstep.frames

/-- The ledger of every store that a run of the system builds. -/
theorem BudgetReachable.ledgered (h : BudgetReachable s) : ∃ st, Ledgered s st := by
  obtain ⟨origin, hempty, hrun⟩ := h
  induction hrun with
  | refl =>
    refine ⟨{}, ⟨⟨?_, fun p hp => ?_⟩, fun p hp => ?_⟩⟩
    · rw [budgetState, hempty]
      rfl
    · simp [BudgetState.seen] at hp
    · simp [BudgetState.seen] at hp
  | tail _ hstep ih =>
    obtain ⟨st, hl⟩ := ih
    cases hstep with
    | foreign hf =>
      refine ⟨st, ⟨?_, hl.rebuilds.2⟩, hl.settled⟩
      rw [budgetState, hf.facts]
      exact hl.rebuilds.1
    | call context call =>
      generalize hp : call.perform _ context = p
      obtain ⟨result, t⟩ := p
      cases result with
      | error e =>
        obtain rfl := LedgerCall.perform_error hp
        exact ⟨st, hl⟩
      | ok result =>
        obtain ⟨reply, held⟩ := result
        obtain ⟨rebuilt, additions, rows, hperf⟩ :=
          LedgerCall.perform_ok hl.rebuilds.1 hl.rebuilds.2 hp
        exact ⟨rebuilt, ⟨hperf.state, hperf.committed.resolved_rebuilt hl.rebuilds.2⟩,
          hperf.committed.settled_rebuilt hl.settled⟩

end Eventide
