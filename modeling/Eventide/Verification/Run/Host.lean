import Eventide.Verification.Run.History

/-! # The stores that Host builds -/

namespace Eventide

open RuntimeStore RunState

/-- A fact that neither admits nor starts a run, nor asks for an approval. -/
structure Fact.Neutral (fact : Fact) : Prop where
  shaped : WellShaped fact.type fact.payload
  kind : fact.type ∉ [.runAdmitted, .runStarted, .approvalRequired]

/-- The calls of Host: a run is admitted by the first fact of `admit_run` and by no other,
is started once, and asks for approvals after its start. -/
def HostCall (s : RuntimeStore) : StoreCall → Prop
  | .createRun r _ _ => r ≠ ""
  | .admitRun r _ facts _ => r ≠ "" ∧ ∃ intent rest, facts = intent :: rest ∧
      intent.type = .runAdmitted ∧ ∀ fact ∈ rest, fact.Neutral
  | .appendFact _ fact runId isPartial =>
      WellShaped fact.type fact.payload ∧
      (fact.type ∈ summaryTypes → isPartial = false) ∧
      fact.type ≠ .runAdmitted ∧
      (fact.type = .runStarted → ∀ r, runId = some r →
        ∀ a ∈ s.runEvents r, a.type ≠ .runStarted) ∧
      (fact.type = .approvalRequired → ∀ r, runId = some r →
        ∃ a ∈ s.runEvents r, a.type = .runStarted)
  | .transactFacts _ types choose author _ => ∀ result additions,
      choose (s.factsByType types) = .ok (result, additions) →
      ∀ a ∈ additions, Fact.Neutral { type := a.1, payload := a.2, author }
  | .commitConfiguration _ _ _ _ _ | .commitSessionMetadata _ _ _ _ _ _ _ _ => True

/-- The stores that a run of such calls can build, whichever of them raise. -/
inductive HostReachable : RuntimeStore → Prop
  | empty (stateRoot : String) : HostReachable { stateRoot }
  | call {s : RuntimeStore} (env : Env) (c : StoreCall) : HostReachable s → HostCall s c →
      HostReachable (c.perform s env).2

/-- Every event follows the history of its run, and no run has the empty id. -/
def hostPromise : Promise where
  event s e := ∀ r, r ≠ "" → e.runId = some r → Follows (s.runEvents r) e
  run r := r ≠ ""

theorem Fact.Neutral.follows {fact : Fact} (h : fact.Neutral) {e : Event} {sid : String}
    {runId : Option String} (he : e.Records sid fact runId false) (events : List Event) :
    Follows events e := by
  have hk := h.kind
  rw [← he.type_eq] at hk
  simp only [List.mem_cons, List.not_mem_nil, or_false, not_or] at hk
  refine ⟨?_, fun _ => he.isPartial_eq, fun ha => absurd ha hk.1, fun hs => absurd hs hk.2.1,
    fun hr => absurd hr hk.2.2⟩
  rw [he.type_eq, he.payload_eq]
  exact h.shaped

/-- A run that the store does not hold has no events yet. -/
theorem RuntimeStore.LogInvariant.runEvents_fresh {s : RuntimeStore} (h : s.LogInvariant)
    {r : String} (hr : r ≠ "") (hf : ∀ run ∈ s.runs, run.id ≠ r) : s.runEvents r = [] := by
  simp only [runEvents, List.filter_eq_nil_iff, decide_eq_true_eq]
  intro e he hrun
  obtain ⟨run, hm, hid, -⟩ := h.owned e he r (givenRun_eq_some.mpr ⟨hrun, hr⟩)
  exact hf run hm hid

theorem HostCall.writes {s : RuntimeStore} (hl : s.LogInvariant) {c : StoreCall}
    (h : HostCall s c) : c.Writes hostPromise s := by
  cases c with
  | createRun r sid c => exact h
  | admitRun r sid facts c =>
    obtain ⟨hr, intent, rest, rfl, hi, hrest⟩ := h
    refine ⟨hr, fun done fact more hd u e hfirst _ he q hq hrun => ?_⟩
    obtain rfl : r = q := Option.some.inj (he.runId_eq.symm.trans hrun)
    cases done with
    | nil =>
      obtain ⟨rfl, -⟩ := List.cons.inj hd
      obtain ⟨hevents, hfresh⟩ := hfirst rfl
      have hnil : u.runEvents r = [] := by
        have hn := hl.runEvents_fresh hr hfresh
        simpa only [runEvents, hevents] using hn
      have hk := he.type_eq.trans hi
      refine ⟨⟨by simp [hk], by simp [hk], by simp [hk]⟩, fun _ => he.isPartial_eq,
        fun _ => hnil, by simp [hk], by simp [hk]⟩
    | cons d done =>
      obtain ⟨-, rfl⟩ := List.cons.inj hd
      exact (hrest fact (by simp)).follows he _
  | appendFact sid fact runId isPartial =>
    obtain ⟨hshape, hwhole, hadm, hstart, happ⟩ := h
    intro e he q hq hrun
    have hr : runId = some q := he.runId_eq.symm.trans hrun
    refine ⟨?_, ?_, ?_, ?_, ?_⟩
    · rw [he.type_eq, he.payload_eq]
      exact hshape
    · rw [he.type_eq, he.isPartial_eq]
      exact hwhole
    · rw [he.type_eq]
      exact fun hk => absurd hk hadm
    · rw [he.type_eq]
      exact fun hk => hstart hk q hr
    · rw [he.type_eq]
      exact fun hk => happ hk q hr
  | transactFacts sid types choose author runId =>
    intro result additions hc a ha u e _ he q _ _
    exact (h result additions hc a ha).follows he _
  | commitConfiguration owner facts result m p =>
    intro u e hrun _ q _ hq
    simp [hrun] at hq
  | commitSessionMetadata owner sid expected m result d t a =>
    intro u e hrun _ q _ hq
    simp [hrun] at hq

/-- What holds of every store that Host builds. -/
structure HostInvariant (s : RuntimeStore) : Prop where
  log : s.LogInvariant
  histories : ∀ r, r ≠ "" → RunHistory (s.runEvents r)
  named : ∀ run ∈ s.runs, run.id ≠ ""

theorem RuntimeStore.runEvents_concat (s : RuntimeStore) (e : Event) (r : String) :
    runEvents { s with events := s.events ++ [e] } r =
      if e.runId = some r then s.runEvents r ++ [e] else s.runEvents r := by
  by_cases h : e.runId = some r <;> simp [runEvents, h]

theorem HostInvariant.effect {s t : RuntimeStore} (h : HostInvariant s)
    (k : Effect hostPromise s t) : HostInvariant t := by
  induction k with
  | refl => exact h
  | @event t e _ ha hp ih =>
    refine ⟨ih.log.event ha, fun r hr => ?_, ih.named⟩
    rw [runEvents_concat]
    split
    · rename_i he
      have hopen := (ha.run r (givenRun_eq_some.mpr ⟨he, hr⟩)).1
      refine (ih.histories r hr).snoc ?_ (hp r hr he)
      intro a ham
      simp only [runEvents, List.mem_filter, decide_eq_true_eq] at ham
      exact terminalOf_eq_none.mp hopen a ham.1 ham.2
    · exact ih.histories r hr
  | run _ hn hf ht _ ih =>
    refine ⟨ih.log.run hf ht, ih.histories, fun q hq => ?_⟩
    rcases List.mem_append.mp hq with hq | hq
    · exact ih.named q hq
    · exact List.mem_singleton.mp hq ▸ hn
  | @frame t u k he hr ht ih =>
    have hf : Effect hostPromise t u := Effect.refl.frame he hr ht
    refine ⟨ih.log.effect hf, ?_, hr ▸ ih.named⟩
    simpa only [runEvents, he] using ih.histories

theorem HostReachable.invariant {s : RuntimeStore} (h : HostReachable s) : HostInvariant s := by
  induction h with
  | empty stateRoot => exact ⟨.empty stateRoot, fun _ _ => .nil, by simp⟩
  | call env c _ hc ih => exact ih.effect (StoreCall.perform_effect env (hc.writes ih.log))

end Eventide
