import Eventide.Verification.Store.Transact
import Eventide.Verification.Store.Log

/-! # What can always be appended to an open run -/

namespace Eventide

open Outcome

namespace RuntimeStore

/-- A run whose facts can be appended: its rows are there and it has not ended. -/
structure Hosts (s : RuntimeStore) (run : Run) : Prop where
  named : run.id ≠ ""
  row : s.getRunRow run.id = some run
  turn : ∃ turn ∈ s.turns, turn.id = run.turnId
  session : (s.getSession run.sessionId).isSome
  running : s.terminalOf run.id = none

/-- What a store that works gives to its statements: no fault, and identifiers that are new. -/
structure Sound (s : RuntimeStore) (env : Env) : Prop where
  fault : ∀ k, (env.tick k).fault = none
  fresh : ∀ k, ∀ e ∈ s.events, e.eventId ≠ (env.tick k).uuid
  distinct : ∀ j k, (env.tick j).uuid = (env.tick k).uuid → j = k

variable {s t : RuntimeStore} {env : Env} {run : Run}

theorem le_lastSeq {e : Event} (h : e ∈ s.events) : e.sessionSeq ≤ s.lastSeq e.sessionId := by
  have hbound : ∀ (ns : List ℕ) (start n : ℕ), n ∈ ns ∨ n ≤ start → n ≤ ns.foldl max start := by
    intro ns
    induction ns with
    | nil => simp
    | cons m ns ih =>
      intro start n hn
      refine ih _ _ ?_
      rcases hn with hn | hn
      · rcases List.mem_cons.mp hn with rfl | hn
        · exact .inr (le_max_right _ _)
        · exact .inl hn
      · exact .inr (hn.trans (le_max_left _ _))
  refine hbound _ _ _ (.inl (List.mem_map_of_mem ?_))
  exact List.mem_filter.mpr ⟨h, by simp⟩

/-- A fact that ends no run is appended to an open one. -/
theorem appendFactLocked_open {tick : Tick} {fact : Fact} (h : s.Hosts run)
    (hfact : fact.type.isTerminal = false) (hfault : tick.fault = none)
    (hfresh : ∀ e ∈ s.events, e.eventId ≠ tick.uuid) :
    ∃ e, s.appendFactLocked tick run.sessionId fact (some run.id) =
      .ok (e, { s with events := s.events ++ [e] }) ∧ e.eventId = tick.uuid := by
  have hgiven : givenRun (some run.id) = some run.id := givenRun_eq_some.mpr ⟨rfl, h.named⟩
  obtain ⟨hrun, -⟩ := getRunRow_eq_some h.row
  obtain ⟨session, hsession⟩ := Option.isSome_iff_exists.mp h.session
  have hrow : ∃ row ∈ s.sessions, row.id = run.sessionId :=
    ⟨session, List.mem_of_find?_eq_some hsession, by simpa using List.find?_some hsession⟩
  have hturns : s.turns.any (·.id = run.turnId) = true := by simpa using h.turn
  have hruns : s.runs.any (·.id = run.id) = true := by simpa using ⟨run, hrun, rfl⟩
  have hseq : ¬ ∃ e ∈ s.events, e.sessionId = run.sessionId ∧
      e.sessionSeq = s.lastSeq run.sessionId + 1 := by
    rintro ⟨e, he, hsid, heq⟩
    have hle := le_lastSeq he
    rw [hsid] at hle
    omega
  have hid : ¬ ∃ e ∈ s.events, e.eventId = tick.uuid := fun ⟨e, he, heq⟩ => hfresh e he heq
  refine ⟨{ eventId := tick.uuid, sessionId := run.sessionId, turnId := some run.turnId
            sessionSeq := s.lastSeq run.sessionId + 1, runId := some run.id, ts := tick.now
            type := fact.type, role := fact.role, author := fact.author
            payload := fact.payload }, ?_, rfl⟩
  simp only [appendFactLocked, hgiven, h.row, h.running, insertEvent, Tick.check, hfault,
    raiseIf, hid, hseq, hrow, hturns, hruns, hfact, Option.all_some, not_true_eq_false,
    if_false, false_and, and_false, Bool.false_eq_true, ne_eq]
  rfl

/-- What stays of a host when rows are appended that end no run. -/
theorem Hosts.append {rows : List Event} (h : s.Hosts run)
    (hrows : ∀ e ∈ rows, e.type.isTerminal = false) :
    Hosts { s with events := s.events ++ rows } run := by
  refine ⟨h.named, h.row, h.turn, h.session, ?_⟩
  rw [terminalOf_eq_none]
  intro e he hrun
  rcases List.mem_append.mp he with he | he
  · exact terminalOf_eq_none.mp h.running e he hrun
  · exact hrows e he

/-- The facts of an open run commit. -/
theorem appendFacts_open {facts : List Fact} {k : ℕ} (h : s.Hosts run)
    (hfacts : ∀ fact ∈ facts, fact.type.isTerminal = false)
    (hfault : ∀ j, k ≤ j → (env.tick j).fault = none)
    (hfresh : ∀ j, k ≤ j → ∀ e ∈ s.events, e.eventId ≠ (env.tick j).uuid)
    (hdistinct : ∀ i j, (env.tick i).uuid = (env.tick j).uuid → i = j) :
    ∃ t, appendFacts env run.sessionId (some run.id) k facts s = .ok t := by
  induction facts generalizing k s with
  | nil => exact ⟨s, rfl⟩
  | cons fact facts ih =>
    obtain ⟨e, he, hid⟩ := appendFactLocked_open h (hfacts fact (by simp)) (hfault k le_rfl)
      (hfresh k le_rfl)
    have hterm : e.type.isTerminal = false := by
      rcases appendFactLocked_cases he with ⟨-, -, hr⟩ | ⟨-, hterm, -⟩
      · rw [hr.type_eq]
        exact hfacts fact (by simp)
      · rw [hfacts fact (by simp)] at hterm
        cases hterm
    have hopen : Hosts { s with events := s.events ++ [e] } run :=
      h.append (by simpa using hterm)
    obtain ⟨t, ht⟩ := ih (k := k + 1) hopen (fun f hf => hfacts f (by simp [hf]))
      (fun j hj => hfault j (by omega)) (fun j hj x hx => by
        rcases List.mem_append.mp hx with hx | hx
        · exact hfresh j (by omega) x hx
        · rw [List.mem_singleton.mp hx, hid]
          intro heq
          have := hdistinct _ _ heq
          omega)
    exact ⟨t, by simp only [appendFacts, he, ok_bind, ht]⟩

/-- A decision about an open run commits. -/
theorem transactFacts_open {α : Type} {types : List EventType} {author : String} {result : α}
    {choose : List Event → Except PyError (α × List (EventType × Json))}
    {additions : List (EventType × Json)} (h : s.Hosts run) (hs : s.Sound env)
    (hc : choose (s.factsByType types) = .ok (result, additions))
    (hadds : ∀ a ∈ additions, a.1.isTerminal = false) :
    ∃ t, s.transactFacts env run.sessionId types choose author (some run.id) =
      (.ok result, t) := by
  have hcommit : ∃ t, appendFacts env run.sessionId (some run.id) 0
      (additions.map fun a => { type := a.1, payload := a.2, author }) s = .ok t := by
    refine appendFacts_open h (fun fact hfact => ?_) (fun j _ => hs.fault j)
      (fun j _ => hs.fresh j) hs.distinct
    obtain ⟨a, ha, rfl⟩ := List.mem_map.mp hfact
    exact hadds a ha
  obtain ⟨t, ht⟩ := hcommit
  have hsession : ¬ (s.getSession run.sessionId).isNone = true := by
    rw [← Option.not_isSome, h.session]
    simp
  refine ⟨t, ?_⟩
  unfold transactFacts
  rw [transaction_eq_ok, raiseIf_of_not hsession, ok_bind, hc, ok_bind]
  dsimp only
  rw [ht]
  rfl

end RuntimeStore

end Eventide
