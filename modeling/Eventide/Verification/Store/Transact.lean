import Eventide.Verification.Store.Effects

/-! # What a committed transaction leaves in the log -/

namespace Eventide

open Outcome

namespace RuntimeStore

variable {s t : RuntimeStore} {env : Env} {sid : String} {runId : Option String}

/-- Facts that end no run are appended one by one, to the end of the log. -/
theorem appendFacts_eq {k : ℕ} {facts : List Fact}
    (hn : ∀ fact ∈ facts, fact.type.isTerminal = false ∨ givenRun runId = none)
    (h : appendFacts env sid runId k facts s = .ok t) :
    ∃ rows, t = { s with events := s.events ++ rows } ∧
      List.Forall₂ (fun e (fact : Fact) => Event.Records e sid fact runId false) rows facts := by
  induction facts generalizing k s with
  | nil =>
    obtain rfl : s = t := by simpa [appendFacts] using h
    exact ⟨[], by simp, .nil⟩
  | cons fact facts ih =>
    obtain ⟨⟨e, s'⟩, ha, ht⟩ := bind_eq_ok.mp h
    rcases appendFactLocked_cases ha with ⟨rfl, -, hr⟩ | ⟨-, hterm, r, hgiven, -⟩
    · obtain ⟨rows, rfl, hrows⟩ := ih (fun f hf => hn f (by simp [hf])) ht
      exact ⟨e :: rows, by simp, .cons hr hrows⟩
    · rcases hn fact (by simp) with hopen | hnone
      · rw [hopen] at hterm
        cases hterm
      · rw [hnone] at hgiven
        cases hgiven

/-- Whatever the facts are, each is in the log or finds its run ended. -/
theorem appendFacts_all {k : ℕ} {facts : List Fact}
    (h : appendFacts env sid runId k facts s = .ok t) :
    ∃ rows, t = { s with events := s.events ++ rows } ∧ ∀ fact ∈ facts,
      (∃ e ∈ rows, Event.Records e sid fact runId false) ∨
        (fact.type.isTerminal = true ∧ ∃ r, givenRun runId = some r ∧ t.runIsTerminal r = true) := by
  induction facts generalizing k s with
  | nil =>
    obtain rfl : s = t := by simpa [appendFacts] using h
    exact ⟨[], by simp, by simp⟩
  | cons fact facts ih =>
    obtain ⟨⟨e, s'⟩, ha, ht⟩ := bind_eq_ok.mp h
    obtain ⟨rows, heq, hrows⟩ := ih ht
    rcases appendFactLocked_cases ha with ⟨rfl, -, hr⟩ | ⟨rfl, hterm, r, hgiven, hended⟩
    · refine ⟨e :: rows, by simp [heq], fun other hother => ?_⟩
      rcases List.mem_cons.mp hother with rfl | hother
      · exact .inl ⟨e, by simp, hr⟩
      · refine (hrows other hother).imp_left ?_
        rintro ⟨e', he', hrec⟩
        exact ⟨e', List.mem_cons_of_mem _ he', hrec⟩
    · refine ⟨rows, heq, fun other hother => ?_⟩
      rcases List.mem_cons.mp hother with rfl | hother
      · refine .inr ⟨hterm, r, hgiven, ?_⟩
        rw [runIsTerminal, terminalOf] at *
        rw [heq, List.find?_append, hended]
        rfl
      · exact hrows other hother

variable {α : Type} {types : List EventType} {author : String}
  {choose : List Event → Except PyError (α × List (EventType × Json))}

/-- The row that records an addition of a transaction. -/
def Adds (sid : String) (runId : Option String) (author : String) (e : Event)
    (addition : EventType × Json) : Prop :=
  e.Records sid { type := addition.1, payload := addition.2, author } runId false

theorem transactFacts_ok {result : α}
    (h : s.transactFacts env sid types choose author runId = (.ok result, t))
    (hn : ∀ additions, choose (s.factsByType types) = .ok (result, additions) →
      ∀ a ∈ additions, a.1.isTerminal = false) :
    ∃ additions rows, choose (s.factsByType types) = .ok (result, additions) ∧
      t = { s with events := s.events ++ rows } ∧
      List.Forall₂ (Adds sid runId author) rows additions := by
  unfold transactFacts at h
  rcases transaction_eq s _ with ⟨a, u, hb, he⟩ | ⟨error, -, he⟩
  · rw [he] at h
    obtain ⟨ha, rfl⟩ := Prod.mk.inj h
    obtain rfl := Except.ok.inj ha
    obtain ⟨_, -, hb⟩ := bind_eq_ok.mp hb
    obtain ⟨⟨r, additions⟩, hc, hb⟩ := bind_eq_ok.mp hb
    obtain ⟨s', happ, hb⟩ := bind_eq_ok.mp hb
    obtain ⟨rfl, rfl⟩ : r = a ∧ s' = u := by simpa using hb
    obtain ⟨rows, rfl, hrows⟩ := appendFacts_eq (fun f hf => by
      obtain ⟨a, ha, rfl⟩ := List.mem_map.mp hf
      exact .inl (hn additions hc a ha)) happ
    refine ⟨additions, rows, hc, rfl, ?_⟩
    rw [List.forall₂_map_right_iff] at hrows
    exact hrows
  · rw [he] at h
    cases (Prod.mk.inj h).1

theorem transactFacts_error {error : PyError}
    (h : s.transactFacts env sid types choose author runId = (.error error, t)) : t = s := by
  unfold transactFacts at h
  rcases transaction_eq s _ with ⟨a, u, -, he⟩ | ⟨error, -, he⟩
  · rw [he] at h
    cases (Prod.mk.inj h).1
  · rw [he] at h
    exact (Prod.mk.inj h).2.symm

/-- A decision that adds nothing commits whenever its session exists. -/
theorem transactFacts_nothing {result : α} (hs : (s.getSession sid).isSome)
    (h : choose (s.factsByType types) = .ok (result, [])) :
    s.transactFacts env sid types choose author runId = (.ok result, s) := by
  have hn : (s.getSession sid).isNone = false := by
    rw [← Option.not_isSome, hs]
    rfl
  simp [transactFacts, h, hn, raiseIf, appendFacts]

theorem transactFacts_session {result : α}
    (h : s.transactFacts env sid types choose author runId = (.ok result, t)) :
    (s.getSession sid).isSome := by
  unfold transactFacts at h
  rcases transaction_eq s _ with ⟨a, u, hb, he⟩ | ⟨error, -, he⟩
  · rw [he] at h
    obtain ⟨_, hg, -⟩ := bind_eq_ok.mp hb
    exact Option.isSome_iff_ne_none.mpr (by simpa using hg)
  · rw [he] at h
    cases (Prod.mk.inj h).1

end RuntimeStore

end Eventide
