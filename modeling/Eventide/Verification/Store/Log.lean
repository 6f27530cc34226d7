import Eventide.Verification.Store.Effects
import Eventide.Library.Sequence

/-! # The event log of every reachable store -/

namespace Eventide

open Outcome Sequence

namespace RuntimeStore

/-! ## Session numbering -/

/-- The numbers of each session are `1..n`, in log order. -/
def Contiguous (s : RuntimeStore) : Prop :=
  ∀ sid, (s.sessionEvents sid).map (·.sessionSeq) = List.range' 1 (s.sessionEvents sid).length

theorem Contiguous.lastSeq_eq {s : RuntimeStore} (h : s.Contiguous) (sid : String) :
    s.lastSeq sid = (s.sessionEvents sid).length := by
  unfold lastSeq
  rw [h sid]
  simpa using foldl_max_range' 0 (s.sessionEvents sid).length

theorem Contiguous.append {s : RuntimeStore} {e : Event} (h : s.Contiguous)
    (hseq : e.sessionSeq = s.lastSeq e.sessionId + 1) :
    Contiguous { s with events := s.events ++ [e] } := by
  intro sid
  rw [h.lastSeq_eq] at hseq
  have hs := h sid
  simp only [sessionEvents] at hs hseq ⊢
  by_cases he : e.sessionId = sid
  · subst he
    simp only [List.filter_append, List.map_append, hs, List.filter_cons, List.filter_nil,
      decide_true, if_true, List.map_cons, List.map_nil, hseq, List.length_append,
      List.length_cons, List.length_nil, Nat.zero_add, List.range'_append_1 |>.symm]
    rw [List.range'_succ]
    simp [Nat.add_comm]
  · simpa [List.filter_append, he] using hs

/-- Earlier events of a session carry smaller numbers. -/
theorem Contiguous.increasing {s : RuntimeStore} (h : s.Contiguous) (sid : String) :
    s.events.Pairwise fun a b => a.sessionId = sid → b.sessionId = sid →
      a.sessionSeq < b.sessionSeq := by
  have hp : ((s.sessionEvents sid).map (·.sessionSeq)).Pairwise (· < ·) := by
    rw [h sid]
    exact List.pairwise_lt_range'
  rw [List.pairwise_map, sessionEvents, List.pairwise_filter] at hp
  simpa using hp

/-! ## Ownership and closure -/

/-- An event that names a run carries that run's session and turn. -/
def Owned (s : RuntimeStore) (e : Event) : Prop :=
  ∀ r, givenRun e.runId = some r →
    ∃ run ∈ s.runs, run.id = r ∧ run.sessionId = e.sessionId ∧ e.turnId = some run.turnId

/-- No event of a run follows a terminal event of that run. -/
def ClosedBy (a b : Event) : Prop :=
  a.type.isTerminal = true → ∀ r, givenRun a.runId = some r → b.runId ≠ some r

structure LogInvariant (s : RuntimeStore) : Prop where
  contiguous : s.Contiguous
  owned : ∀ e ∈ s.events, s.Owned e
  closed : s.events.Pairwise ClosedBy
  runs_nodup : (s.runs.map (·.id)).Nodup
  turned : ∀ run ∈ s.runs, ∃ turn ∈ s.turns, turn.id = run.turnId
  whole : ∀ e ∈ s.events, e.type.isTerminal = true → e.isPartial = false

theorem LogInvariant.empty (stateRoot : String) : LogInvariant { stateRoot } :=
  ⟨fun _ => rfl, by simp, List.Pairwise.nil, List.nodup_nil, by simp, by simp⟩

theorem terminalOf_eq_none {s : RuntimeStore} {r : String} :
    s.terminalOf r = none ↔ ∀ e ∈ s.events, e.runId = some r → e.type.isTerminal = false := by
  simp [terminalOf]

/-- The rule for one appended event. -/
theorem LogInvariant.event {s : RuntimeStore} {e : Event} (h : s.LogInvariant)
    (ha : s.Appendable e) : LogInvariant { s with events := s.events ++ [e] } where
  contiguous := h.contiguous.append ha.seq
  owned := by
    intro x hx r hr
    rcases List.mem_append.mp hx with hx | hx
    · exact h.owned x hx r hr
    · obtain rfl := List.mem_singleton.mp hx
      exact (ha.run r hr).2
  closed := by
    refine pairwise_concat h.closed ?_
    intro a hm hterm r hr hrun
    obtain ⟨hara, hne⟩ := givenRun_eq_some.mp hr
    have hopen := (ha.run r (givenRun_eq_some.mpr ⟨hrun, hne⟩)).1
    simp [terminalOf_eq_none.mp hopen a hm hara] at hterm
  runs_nodup := h.runs_nodup
  turned := h.turned
  whole := by
    intro x hx
    rcases List.mem_append.mp hx with hx | hx
    · exact h.whole x hx
    · exact List.mem_singleton.mp hx ▸ ha.whole

/-- The rule for one inserted run. -/
theorem LogInvariant.run {s : RuntimeStore} {turn : Turn} {run : Run} (h : s.LogInvariant)
    (hf : ∀ r ∈ s.runs, r.id ≠ run.id) (ht : run.turnId = turn.id) :
    LogInvariant { s with turns := s.turns ++ [turn], runs := s.runs ++ [run] } where
  contiguous := h.contiguous
  owned := by
    intro e he r hr
    obtain ⟨q, hq, hrest⟩ := h.owned e he r hr
    exact ⟨q, List.mem_append_left _ hq, hrest⟩
  closed := h.closed
  runs_nodup := by
    simp only [List.map_append, List.map_cons, List.map_nil]
    refine List.Nodup.append h.runs_nodup (List.nodup_singleton _) ?_
    simp only [List.disjoint_singleton, List.mem_map, not_exists, not_and]
    exact hf
  turned := by
    intro q hq
    rcases List.mem_append.mp hq with hq | hq
    · obtain ⟨t, hm, he⟩ := h.turned q hq
      exact ⟨t, List.mem_append_left _ hm, he⟩
    · obtain rfl := List.mem_singleton.mp hq
      exact ⟨turn, by simp, ht.symm⟩
  whole := h.whole

theorem LogInvariant.effect {P : Promise} {s t : RuntimeStore}
    (h : s.LogInvariant) (k : Effect P s t) : t.LogInvariant := by
  induction k with
  | refl => exact h
  | event _ ha _ ih => exact ih.event ha
  | run _ _ hf ht _ ih => exact ih.run hf ht
  | @frame t u _ he hr ht ih =>
    refine ⟨?_, ?_, ?_, hr ▸ ih.runs_nodup, by simpa only [hr, ht] using ih.turned,
      he ▸ ih.whole⟩
    · have hc := ih.contiguous
      simp only [Contiguous, sessionEvents, he] at hc ⊢
      exact hc
    · have ho := ih.owned
      simp only [Owned, he, hr] at ho ⊢
      exact ho
    · rw [he]
      exact ih.closed

theorem logInvariant_after (stateRoot : String) (calls : List (Env × StoreCall)) :
    (StoreCall.after { stateRoot } calls).LogInvariant :=
  runCalls_invariant (fun s c h => h.effect (StoreCall.perform_effect c.1 (c.2.writes_any s)))
    (LogInvariant.empty stateRoot) calls

/-! ## Consequences -/

/-- The terminal event of a run is its only one and its last event. -/
theorem LogInvariant.terminal_last {s : RuntimeStore} (h : s.LogInvariant) {r : String}
    (hr : r ≠ "") {e : Event} (he : e ∈ s.runEvents r) (ht : e.type.isTerminal = true) :
    ∀ e' ∈ s.runEvents r, e'.sessionSeq ≤ e.sessionSeq := by
  intro e' he'
  simp only [runEvents, List.mem_filter, decide_eq_true_eq] at he he'
  obtain ⟨run, hm, hid, hsid, -⟩ := h.owned e he.1 r (givenRun_eq_some.mpr ⟨he.2, hr⟩)
  obtain ⟨run', hm', hid', hsid', -⟩ := h.owned e' he'.1 r (givenRun_eq_some.mpr ⟨he'.2, hr⟩)
  have hsame : run = run' :=
    List.inj_on_of_nodup_map h.runs_nodup hm hm' (hid.trans hid'.symm)
  subst hsame
  rcases pairwise_trichotomy (h.closed.and (h.contiguous.increasing run.sessionId)) he.1 he'.1
    with rfl | hb | hb
  · exact le_rfl
  · exact absurd he'.2 (hb.1 ht r (givenRun_eq_some.mpr ⟨he.2, hr⟩))
  · exact (hb.2 hsid'.symm hsid.symm).le

theorem LogInvariant.terminal_unique {s : RuntimeStore} (h : s.LogInvariant) {r : String}
    (hr : r ≠ "") : ((s.runEvents r).filter (·.type.isTerminal)).length ≤ 1 := by
  refine filter_length_le_one (List.pairwise_filter.mpr (h.closed.imp ?_))
  intro a b hab ha hb hterm
  simp only [decide_eq_true_eq] at ha hb
  exact absurd hb (hab hterm r (givenRun_eq_some.mpr ⟨ha, hr⟩))

/-- A terminal append to a closed run returns the terminal event and writes nothing. -/
theorem LogInvariant.appendFactLocked_closed {s : RuntimeStore} (h : s.LogInvariant)
    {r : String} (hr : r ≠ "") {e : Event} (he : s.terminalOf r = some e) (tick : Tick)
    {fact : Fact} (hf : fact.type.isTerminal = true) :
    s.appendFactLocked tick e.sessionId fact (some r) = .ok (e, s) := by
  have hm := List.mem_of_find?_eq_some he
  have hp : e.runId = some r ∧ e.type.isTerminal = true := by
    simpa using List.find?_some he
  obtain ⟨run, hrun, hid, hsid, -⟩ := h.owned e hm r (givenRun_eq_some.mpr ⟨hp.1, hr⟩)
  have hrow : s.getRunRow r = some run := by
    obtain ⟨q, hq⟩ : ∃ q, s.getRunRow r = some q :=
      Option.isSome_iff_exists.mp (List.find?_isSome.mpr ⟨run, hrun, by simpa using hid⟩)
    obtain ⟨hqm, hqid⟩ := getRunRow_eq_some hq
    rw [hq, List.inj_on_of_nodup_map h.runs_nodup hqm hrun (hqid.trans hid.symm)]
  unfold appendFactLocked
  rw [raiseIf_of_not (by simp), givenRun_eq_some.mpr ⟨rfl, hr⟩]
  simp only [ok_bind, hrow, he]
  rw [raiseIf_of_not (by simp [hsid]), raiseIf_of_not (by simp [hf])]
  rfl

/-- What the log promises about the runs that `named` picks out. -/
structure LogGuarantee (named : String → Prop) (s : RuntimeStore) : Prop where
  numbered : ∀ sid, (s.sessionEvents sid).map (·.sessionSeq) =
    List.range' 1 (s.sessionEvents sid).length
  terminal_once : ∀ r, named r → ((s.runEvents r).filter (·.type.isTerminal)).length ≤ 1
  terminal_last : ∀ r, named r → ∀ e ∈ s.runEvents r, e.type.isTerminal = true →
    ∀ e' ∈ s.runEvents r, e'.sessionSeq ≤ e.sessionSeq
  owned : ∀ e ∈ s.events, ∀ r, named r → e.runId = some r →
    ∃ run ∈ s.runs, run.id = r ∧ run.sessionId = e.sessionId ∧ e.turnId = some run.turnId
  extended : ∀ env (call : StoreCall), s.events <+: (call.perform s env).2.events
  rolled_back : ∀ env (call : StoreCall) error, (call.perform s env).1 = .error error →
    (call.perform s env).2.events = s.events ∧ (call.perform s env).2.runs = s.runs ∧
      (call.perform s env).2.turns = s.turns
  terminal_again : ∀ r, named r → ∀ e, s.terminalOf r = some e →
    ∀ env (fact : Fact), fact.type.isTerminal = true →
      s.appendFact env e.sessionId fact (some r) = (.ok e, s)

/-- Every store that a sequence of calls can build keeps its log numbered, owned, closed
after a terminal event, append-only and untouched by a call that raises. -/
theorem logGuarantee_after (stateRoot : String) (calls : List (Env × StoreCall)) :
    LogGuarantee (· ≠ "") (StoreCall.after { stateRoot } calls) := by
  have h := logInvariant_after stateRoot calls
  refine ⟨h.contiguous, fun r hr => h.terminal_unique hr,
    fun r hr e he ht => h.terminal_last hr he ht, ?_,
    fun env call => (StoreCall.perform_effect env (call.writes_any _)).extends_log,
    fun env call error he => StoreCall.perform_error he, ?_⟩
  · intro e he r hr hrun
    exact h.owned e he r (givenRun_eq_some.mpr ⟨hrun, hr⟩)
  · intro r hr e he env fact hf
    unfold appendFact
    rw [h.appendFactLocked_closed hr he _ hf]
    rfl

/-- Ticks whose identifiers differ, outside any Git repository. -/
def plainEnv (name : Char) : Env where
  tick k := { uuid := String.ofList (List.replicate 16 name ++ List.replicate k '0'), now := k }
  digest _ := ""
  projectSource path _ := .ok (path, none)

/-- A run with the empty id is created, but `if run_id:` then reads its id as no run at
all: its events carry no turn. -/
def emptyRunCalls : List (Env × StoreCall) :=
  [(plainEnv 'a', .createRun "" "main" none),
   (plainEnv 'b', .appendFact "main" { type := .runStarted, payload := .obj [] } (some "") false)]

theorem logGuarantee_emptyRun_false :
    ¬ LogGuarantee (fun _ => True) (StoreCall.after {} emptyRunCalls) := by
  intro h
  obtain ⟨e, he, hr, ht⟩ : ∃ e ∈ (StoreCall.after {} emptyRunCalls).events,
      e.runId = some "" ∧ e.turnId = none := by decide
  obtain ⟨run, -, -, -, hturn⟩ := h.owned e he "" trivial hr
  simp [ht] at hturn

/-- A run that has ended stays so in a longer log. -/
theorem runIsTerminal_mono {s t : RuntimeStore} {r : String} (h : s.events <+: t.events)
    (hr : s.runIsTerminal r = true) : t.runIsTerminal r = true := by
  obtain ⟨rows, hrows⟩ := h
  obtain ⟨e, he⟩ := Option.isSome_iff_exists.mp hr
  rw [runIsTerminal, terminalOf, ← hrows, List.find?_append, ← terminalOf, he]
  rfl

end RuntimeStore

end Eventide
