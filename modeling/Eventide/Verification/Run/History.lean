import Eventide.Verification.Store.Log
import Eventide.Verification.Run.State
import Eventide.Model.RunViews

/-! # The history of a run

Host admits a run with its first fact, starts it at most once and asks for approvals only
while it runs. Every store it can build holds such a history for every run. -/

namespace Eventide

open Outcome RunState

/-- What Host may append to a run whose events so far are `h`. -/
structure Follows (h : List Event) (e : Event) : Prop where
  shaped : WellShaped e.type e.payload
  whole : e.type ∈ RuntimeStore.summaryTypes → e.isPartial = false
  admitted : e.type = .runAdmitted → h = []
  started : e.type = .runStarted → ∀ a ∈ h, a.type ≠ .runStarted
  approval : e.type = .approvalRequired → ∃ a ∈ h, a.type = .runStarted

inductive RunHistory : List Event → Prop
  | nil : RunHistory []
  | snoc {h : List Event} {e : Event} : RunHistory h → (∀ a ∈ h, a.type.isTerminal = false) →
      Follows h e → RunHistory (h ++ [e])

/-! ## The projection of a history -/

/-- A fold over facts of the right shape meets no error before the terminal event, which
is the last. -/
theorem foldlM_step_ok {events : List Event} {st : RunState} (h : Open st)
    (hw : ∀ e ∈ events, WellShaped e.type e.payload)
    (hc : events.Pairwise fun a _ => a.type.isTerminal = false) :
    ∃ st', events.foldlM step st = .ok st' := by
  induction events generalizing st with
  | nil => exact ⟨st, rfl⟩
  | cons e events ih =>
    obtain ⟨st', he, ho⟩ := h.step (hw e (by simp))
    rw [List.foldlM_cons, he]
    cases events with
    | nil => exact ⟨st', rfl⟩
    | cons b events =>
      have hopen : e.type.isTerminal = false := List.rel_of_pairwise_cons hc (List.mem_cons_self ..)
      exact ih (ho fun _ => hopen) (fun a ha => hw a (List.mem_cons_of_mem _ ha)) hc.tail

theorem RunHistory.closed {h : List Event} (hh : RunHistory h) :
    h.Pairwise fun a _ => a.type.isTerminal = false := by
  induction hh with
  | nil => exact .nil
  | snoc _ ho _ ih => exact Sequence.pairwise_concat ih ho

theorem RunHistory.shaped {h : List Event} (hh : RunHistory h) :
    ∀ e ∈ h, WellShaped e.type e.payload := by
  induction hh with
  | nil => simp
  | snoc _ _ hf ih =>
    intro e he
    rcases List.mem_append.mp he with he | he
    · exact ih e he
    · exact List.mem_singleton.mp he ▸ hf.shaped

/-- Every selection of the events of a history has a projection. -/
theorem RunHistory.project_filter {h : List Event} (hh : RunHistory h) (p : Event → Bool) :
    ∃ state, project (h.filter p) = .ok state ∧
      state.get? "status" = some (.str (statusOf (h.filter p)).1) := by
  obtain ⟨st, hst⟩ := foldlM_step_ok Open.initial
    (fun e he => hh.shaped e (List.mem_of_mem_filter he)) (hh.closed.filter p)
  have hp : project (h.filter p) = .ok st.fields := by
    unfold project
    rw [hst]
    rfl
  exact ⟨st.fields, hp, project_status hp⟩

/-! ## The statuses of a history -/

theorem statusStep_of_not_mem {e : Event} (h : e.type ∉ RuntimeStore.summaryTypes)
    (s : String × Bool) : statusStep s e = s := by
  unfold statusStep
  split
  · rfl
  · split <;> simp_all [RuntimeStore.summaryTypes]

/-- Dropping events that do not bear on the status does not change it. -/
theorem statusOf_filter {events : List Event} {p : Event → Bool}
    (hp : ∀ e ∈ events, p e = false → e.type ∉ RuntimeStore.summaryTypes) :
    statusOf (events.filter p) = statusOf events := by
  unfold statusOf
  generalize ("running", false) = s
  induction events generalizing s with
  | nil => rfl
  | cons e events ih =>
    have ht := fun s => ih (fun a ha => hp a (List.mem_cons_of_mem _ ha)) s
    by_cases he : p e = true
    · rw [List.filter_cons_of_pos he]
      exact ht _
    · rw [List.filter_cons_of_neg he, ht, List.foldl_cons]
      have hn := hp e (List.mem_cons_self ..) (by simpa using he)
      rw [statusStep_of_not_mem hn]

theorem statusOf_concat (events : List Event) (e : Event) :
    statusOf (events ++ [e]) = statusStep (statusOf events) e := by
  simp [statusOf]

/-- The status that `list_runs` projects. -/
def listStatus (events : List Event) : String × Bool :=
  statusOf (events.filter (·.type ∈ RuntimeStore.listTypes))

theorem listStatus_concat (events : List Event) (e : Event) :
    listStatus (events ++ [e]) =
      if e.type ∈ RuntimeStore.listTypes then statusStep (listStatus events) e
      else listStatus events := by
  unfold listStatus
  rw [List.filter_append, statusOf, List.foldl_append]
  by_cases h : e.type ∈ RuntimeStore.listTypes <;> simp [h, statusOf]

/-- Where the two folds stand: apart until the run starts, together from then on. -/
structure Statuses (h : List Event) : Prop where
  ended : ∀ e ∈ h, e.type.isTerminal = true →
    statusOf h = (e.type.terminalStatus, true) ∧ listStatus h = (e.type.terminalStatus, true)
  started : (∀ e ∈ h, e.type.isTerminal = false) → (∃ e ∈ h, e.type = .runStarted) →
    statusOf h = listStatus h ∧
      (statusOf h = ("running", false) ∨ statusOf h = ("waiting_for_user", false))
  queued : (∀ e ∈ h, e.type.isTerminal = false) → (∀ e ∈ h, e.type ≠ .runStarted) →
    listStatus h = ("running", false) ∧
      (statusOf h = ("queued", false) ∨ statusOf h = ("running", false))

theorem Statuses.running {h : List Event} (hs : Statuses h)
    (ho : ∀ e ∈ h, e.type.isTerminal = false) :
    (statusOf h).2 = false ∧ (listStatus h).2 = false := by
  by_cases hst : ∃ e ∈ h, e.type = .runStarted
  · obtain ⟨he, hr | hr⟩ := hs.started ho hst <;> exact ⟨by simp [hr], by simp [← he, hr]⟩
  · obtain ⟨hl, hr | hr⟩ := hs.queued ho (by simpa using hst) <;>
      exact ⟨by simp [hr], by simp [hl]⟩

/-- A list without a terminal event has only the two live cases to answer for. -/
theorem Statuses.live {h : List Event} (ho : ∀ e ∈ h, e.type.isTerminal = false)
    (hs : (∃ e ∈ h, e.type = .runStarted) → statusOf h = listStatus h ∧
      (statusOf h = ("running", false) ∨ statusOf h = ("waiting_for_user", false)))
    (hq : (∀ e ∈ h, e.type ≠ .runStarted) → listStatus h = ("running", false) ∧
      (statusOf h = ("queued", false) ∨ statusOf h = ("running", false))) : Statuses h where
  ended e he ht := by simp [ho e he] at ht
  started _ := hs
  queued _ := hq

theorem RunHistory.statuses {h : List Event} (hh : RunHistory h) : Statuses h := by
  induction hh with
  | nil => exact ⟨by simp, by simp, fun _ _ => ⟨rfl, Or.inr rfl⟩⟩
  | @snoc h e _ ho hf ih =>
    obtain ⟨hs2, hl2⟩ := ih.running ho
    have hlive (ht : e.type.isTerminal = false) : ∀ a ∈ h ++ [e], a.type.isTerminal = false := by
      simpa [ht, or_imp, forall_and] using ho
    by_cases hm : e.type ∈ RuntimeStore.summaryTypes
    · have hw := hf.whole hm
      simp only [RuntimeStore.summaryTypes, List.mem_cons, List.not_mem_nil, or_false] at hm
      rcases hm with hk | hk | hk | hk | hk | hk | hk
      · obtain rfl := hf.admitted hk
        refine .live (by simp [hk, EventType.isTerminal]) (by simp [hk]) fun _ => ⟨?_, Or.inl ?_⟩
        · simp [listStatus, RuntimeStore.listTypes, hk, statusOf]
        · simp [statusOf, statusStep, hw, hk]
      · have hn := hf.started hk
        obtain ⟨hl, -⟩ := ih.queued ho hn
        have hg : statusOf (h ++ [e]) = ("running", false) := by
          simp [statusOf_concat, statusStep, hw, hs2, hk]
        have hl : listStatus (h ++ [e]) = ("running", false) := by
          simp [listStatus_concat, RuntimeStore.listTypes, hk, hl]
        exact .live (hlive (by simp [hk, EventType.isTerminal]))
          (fun _ => ⟨hg.trans hl.symm, Or.inl hg⟩) fun hq => absurd hk (hq e (by simp))
      · obtain ⟨a, ha, hst⟩ := hf.approval hk
        have hg : statusOf (h ++ [e]) = ("waiting_for_user", false) := by
          simp [statusOf_concat, statusStep, hw, hs2, hk]
        have hl : listStatus (h ++ [e]) = ("waiting_for_user", false) := by
          simp [listStatus_concat, RuntimeStore.listTypes, statusStep, hw, hl2, hk]
        exact .live (hlive (by simp [hk, EventType.isTerminal]))
          (fun _ => ⟨hg.trans hl.symm, Or.inr hg⟩) fun hq => absurd hst (hq a (by simp [ha]))
      · have hg : statusOf (h ++ [e]) = ("running", false) := by
          simp [statusOf_concat, statusStep, hw, hs2, hk]
        have hl : listStatus (h ++ [e]) = ("running", false) := by
          simp [listStatus_concat, RuntimeStore.listTypes, statusStep, hw, hl2, hk]
        exact .live (hlive (by simp [hk, EventType.isTerminal]))
          (fun _ => ⟨hg.trans hl.symm, Or.inl hg⟩) fun _ => ⟨hl, Or.inr hg⟩
      all_goals
        have hg : statusOf (h ++ [e]) = (e.type.terminalStatus, true) := by
          simp [statusOf_concat, statusStep, hw, hs2, hk]
        have hl : listStatus (h ++ [e]) = (e.type.terminalStatus, true) := by
          simp [listStatus_concat, RuntimeStore.listTypes, statusStep, hw, hl2, hk]
        have ht : e.type.isTerminal = true := by simp [hk, EventType.isTerminal]
        refine ⟨fun a ha hta => ?_, fun hn => ?_, fun hn => ?_⟩
        · rcases List.mem_append.mp ha with ha | ha
          · simp [ho a ha] at hta
          · obtain rfl := List.mem_singleton.mp ha
            exact ⟨hg, hl⟩
        · simp [hn e (by simp)] at ht
        · simp [hn e (by simp)] at ht
    · have hg : statusOf (h ++ [e]) = statusOf h := by
        rw [statusOf_concat, statusStep_of_not_mem hm]
      have hl : listStatus (h ++ [e]) = listStatus h := by
        rw [listStatus_concat, if_neg]
        intro hn
        simp_all [RuntimeStore.summaryTypes, RuntimeStore.listTypes]
      have hns : e.type ≠ .runStarted := by
        rintro hk
        exact hm (by simp [hk, RuntimeStore.summaryTypes])
      have ht : e.type.isTerminal = false := by
        by_contra hc
        rcases (EventType.isTerminal_iff _).mp (by simpa using hc) with hk | hk | hk <;>
          exact hm (by simp [hk, RuntimeStore.summaryTypes])
      refine .live (hlive ht) ?_ ?_
      · rintro ⟨a, ha, hk⟩
        rw [hg, hl]
        refine ih.started ho ⟨a, ?_, hk⟩
        rcases List.mem_append.mp ha with ha | ha
        · exact ha
        · exact absurd (List.mem_singleton.mp ha ▸ hk) hns
      · intro hq
        rw [hg, hl]
        exact ih.queued ho fun a ha => hq a (List.mem_append_left _ ha)

end Eventide
