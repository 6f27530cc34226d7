import Eventide.Model.StoreCalls

/-! # What the statements of a transaction can do

Every write path is a sequence of three primitive effects: appending one event the log
admits, inserting a run with a fresh id, and changes to tables the log does not read. -/

namespace Eventide

open Outcome

/-- The columns of a row that the appended fact decides. -/
structure Event.Records (e : Event) (sessionId : String) (fact : Fact) (runId : Option String)
    (isPartial : Bool) : Prop where
  sessionId_eq : e.sessionId = sessionId
  runId_eq : e.runId = runId
  type_eq : e.type = fact.type
  payload_eq : e.payload = fact.payload
  author_eq : e.author = fact.author
  isPartial_eq : e.isPartial = isPartial

namespace RuntimeStore

theorem givenRun_eq_some {runId : Option String} {r : String} :
    givenRun runId = some r ↔ runId = some r ∧ r ≠ "" := by
  cases runId with
  | none => simp [givenRun]
  | some q =>
    by_cases hq : q = ""
    · simp only [givenRun, hq, if_true, reduceCtorEq, Option.some.injEq, false_iff, not_and,
        not_not]
      exact fun h => h.symm
    · simp only [givenRun, hq, if_false, Option.some.injEq]
      exact ⟨fun h => ⟨h, h ▸ hq⟩, fun h => h.1⟩

theorem insertEvent_eq {s t : RuntimeStore} {tick : Tick} {e : Event}
    (h : s.insertEvent tick e = .ok t) :
    t = { s with events := s.events ++ [e] } ∧ ∃ row ∈ s.sessions, row.id = e.sessionId := by
  unfold insertEvent at h
  simp only [bind_eq_ok, raiseIf_eq_ok, pure_eq_ok, Except.ok.injEq] at h
  obtain ⟨_, _, _, _, _, hs, _, _, _, _, _, _, _, _, rfl⟩ := h
  exact ⟨rfl, not_not.mp hs⟩

/-- The rows an event may join: it takes the next number of its session, and a run it
names is a run of that session whose log is still open. -/
structure Appendable (s : RuntimeStore) (e : Event) : Prop where
  whole : e.type.isTerminal = true → e.isPartial = false
  session : ∃ row ∈ s.sessions, row.id = e.sessionId
  seq : e.sessionSeq = s.lastSeq e.sessionId + 1
  run : ∀ r, givenRun e.runId = some r → s.terminalOf r = none ∧
    ∃ run ∈ s.runs, run.id = r ∧ run.sessionId = e.sessionId ∧ e.turnId = some run.turnId

theorem getRunRow_eq_some {s : RuntimeStore} {r : String} {run : Run}
    (h : s.getRunRow r = some run) : run ∈ s.runs ∧ run.id = r :=
  ⟨List.mem_of_find?_eq_some h, by simpa using List.find?_some h⟩

/-- An append either writes one appendable event, or returns the terminal event that an
earlier append of the run has written. -/
theorem appendFactLocked_cases {s t : RuntimeStore} {tick : Tick} {sid : String} {fact : Fact}
    {runId : Option String} {isPartial : Bool} {e : Event}
    (h : s.appendFactLocked tick sid fact runId isPartial = .ok (e, t)) :
    (t = { s with events := s.events ++ [e] } ∧ s.Appendable e ∧
        e.Records sid fact runId isPartial) ∨
      (t = s ∧ fact.type.isTerminal ∧ ∃ r, givenRun runId = some r ∧ s.terminalOf r = some e) := by
  unfold appendFactLocked at h
  obtain ⟨_, hpart, h⟩ := bind_eq_ok.mp h
  simp only [raiseIf_eq_ok, not_and, Bool.not_eq_true] at hpart
  have hwhole : fact.type.isTerminal = true → isPartial = false := fun ht => by
    by_contra hp
    simp [hpart (by simpa using hp)] at ht
  cases hg : givenRun runId with
  | none =>
    simp only [hg, bind_eq_ok, pure_eq_ok, Except.ok.injEq, Prod.mk.injEq] at h
    obtain ⟨s', hi, rfl, rfl⟩ := h
    obtain ⟨rfl, hs⟩ := insertEvent_eq hi
    exact Or.inl ⟨rfl, ⟨hwhole, hs, rfl, by simp [hg]⟩, ⟨rfl, rfl, rfl, rfl, rfl, rfl⟩⟩
  | some r =>
    simp only [hg] at h
    cases hr : s.getRunRow r with
    | none => simp [hr] at h
    | some run =>
      simp only [hr, bind_eq_ok, raiseIf_eq_ok, not_not] at h
      obtain ⟨_, hsid, h⟩ := h
      cases ht : s.terminalOf r with
      | some terminal =>
        simp only [ht, bind_eq_ok, raiseIf_eq_ok, not_not, pure_eq_ok, Except.ok.injEq,
          Prod.mk.injEq] at h
        obtain ⟨_, hterm, rfl, rfl⟩ := h
        exact Or.inr ⟨rfl, hterm, r, rfl, ht⟩
      | none =>
        simp only [ht, bind_eq_ok, pure_eq_ok, Except.ok.injEq, Prod.mk.injEq] at h
        obtain ⟨s', hi, rfl, rfl⟩ := h
        obtain ⟨rfl, hs⟩ := insertEvent_eq hi
        obtain ⟨hm, hid⟩ := getRunRow_eq_some hr
        refine Or.inl ⟨rfl, ⟨hwhole, hs, rfl, ?_⟩, ⟨rfl, rfl, rfl, rfl, rfl, rfl⟩⟩
        intro q hq
        obtain rfl : r = q := by simpa [hg] using hq
        exact ⟨ht, run, hm, hid, hsid, rfl⟩

/-- What a caller promises of the events it appends, each in the state it is appended to,
and of the runs it creates. -/
structure Promise where
  event : RuntimeStore → Event → Prop
  run : String → Prop

/-- A transaction body is a chain of primitive effects that keep the promise. -/
inductive Effect (P : Promise) (s : RuntimeStore) : RuntimeStore → Prop where
  | refl : Effect P s s
  | event {t e} : Effect P s t → t.Appendable e → P.event t e →
      Effect P s { t with events := t.events ++ [e] }
  | run {t : RuntimeStore} {turn : Turn} {run : Run} : Effect P s t → P.run run.id →
      (∀ r ∈ t.runs, r.id ≠ run.id) → run.turnId = turn.id → run.sessionId = turn.sessionId →
      Effect P s { t with turns := t.turns ++ [turn], runs := t.runs ++ [run] }
  | frame {t u : RuntimeStore} : Effect P s t → u.events = t.events → u.runs = t.runs →
      u.turns = t.turns → Effect P s u

variable {P : Promise}

theorem Effect.trans {s t u : RuntimeStore} (h : Effect P s t) (k : Effect P t u) :
    Effect P s u := by
  induction k with
  | refl => exact h
  | event _ ha hp ih => exact ih.event ha hp
  | run _ hn hf ht hs ih => exact ih.run hn hf ht hs
  | frame _ he hr ht ih => exact ih.frame he hr ht

/-- A promise may be weakened. -/
theorem Effect.mono {Q : Promise} {s t : RuntimeStore} (h : Effect P s t)
    (he : ∀ s e, P.event s e → Q.event s e) (hr : ∀ r, P.run r → Q.run r) : Effect Q s t := by
  induction h with
  | refl => exact .refl
  | event _ ha hp ih => exact ih.event ha (he _ _ hp)
  | run _ hn hf ht hs ih => exact ih.run (hr _ hn) hf ht hs
  | frame _ hev hru htu ih => exact ih.frame hev hru htu

theorem Effect.extends_log {s t : RuntimeStore} (h : Effect P s t) : s.events <+: t.events := by
  induction h with
  | refl => exact List.prefix_refl _
  | event _ _ _ ih => exact ih.trans (List.prefix_append _ _)
  | run _ _ _ _ _ ih => exact ih
  | frame _ he _ _ ih => exact he ▸ ih

theorem appendFactLocked_effect {s t : RuntimeStore} {tick : Tick} {sid : String} {fact : Fact}
    {runId : Option String} {isPartial : Bool} {e : Event}
    (hP : ∀ e : Event, e.Records sid fact runId isPartial → P.event s e)
    (h : s.appendFactLocked tick sid fact runId isPartial = .ok (e, t)) : Effect P s t := by
  rcases appendFactLocked_cases h with ⟨rfl, ha, hr⟩ | ⟨rfl, -⟩
  · exact Effect.refl.event ha (hP e hr)
  · exact Effect.refl

/-- The facts of a loop are appended in order, the first of them to the state given. -/
theorem appendFacts_effect {env : Env} {sid : String} {runId : Option String} {k : ℕ}
    {facts : List Fact} {s t : RuntimeStore}
    (hP : ∀ done fact rest, facts = done ++ fact :: rest → ∀ (u : RuntimeStore) (e : Event),
      (done = [] → u = s) → Effect P s u → e.Records sid fact runId false → P.event u e)
    (h : appendFacts env sid runId k facts s = .ok t) : Effect P s t := by
  induction facts generalizing k s with
  | nil =>
    obtain rfl : s = t := by simpa [appendFacts] using h
    exact .refl
  | cons fact facts ih =>
    obtain ⟨⟨e, s'⟩, ha, ht⟩ := bind_eq_ok.mp h
    have hs : Effect P s s' :=
      appendFactLocked_effect (fun e => hP [] fact facts rfl s e (fun _ => rfl) .refl) ha
    refine hs.trans (ih ?_ ht)
    intro done next rest hd u e _ hu he
    exact hP (fact :: done) next rest (by simp [hd]) u e (by simp) (hs.trans hu) he

theorem createRunLocked_effect {s t : RuntimeStore} {env : Env} {r sid turnId : String}
    {c : Option String} (hr : P.run r) (h : s.createRunLocked env r sid c = .ok (turnId, t)) :
    Effect P s t ∧ t.events = s.events ∧ ∀ run ∈ s.runs, run.id ≠ r := by
  unfold createRunLocked insertTurn insertRun at h
  simp only [bind_eq_ok, raiseIf_eq_ok, pure_eq_ok, Except.ok.injEq, Prod.mk.injEq] at h
  obtain ⟨s1, ⟨_, _, _, _, _, _, _, _, _, _, rfl⟩, s2, ⟨_, _, _, hf, _, _, _, _, rfl⟩, -, rfl⟩ := h
  have hfresh : ∀ run ∈ s.runs, run.id ≠ r := fun run hq he => hf ⟨run, hq, he⟩
  exact ⟨Effect.refl.run hr hfresh rfl rfl, rfl, hfresh⟩

/-- The tables the log invariants read are the same in both states. -/
def SameLog (s t : RuntimeStore) : Prop :=
  t.events = s.events ∧ t.runs = s.runs ∧ t.turns = s.turns

theorem SameLog.refl (s : RuntimeStore) : SameLog s s := ⟨rfl, rfl, rfl⟩

theorem SameLog.trans {s t u : RuntimeStore} (h : SameLog s t) (k : SameLog t u) : SameLog s u :=
  ⟨k.1.trans h.1, k.2.1.trans h.2.1, k.2.2.trans h.2.2⟩

theorem SameLog.effect {s t : RuntimeStore} (h : SameLog s t) : Effect P s t :=
  Effect.refl.frame h.1 h.2.1 h.2.2

/-! ## Registration and sessions leave the log alone -/

theorem insertWorkspace_sameLog {s t : RuntimeStore} {row : Workspace}
    (h : s.insertWorkspace row = .ok t) : SameLog s t := by
  simp only [insertWorkspace, bind_eq_ok, raiseIf_eq_ok, pure_eq_ok, Except.ok.injEq] at h
  obtain ⟨_, _, _, _, rfl⟩ := h
  exact .refl _

theorem insertProject_sameLog {s t : RuntimeStore} {row : Project}
    (h : s.insertProject row = .ok t) : SameLog s t := by
  simp only [insertProject, bind_eq_ok, raiseIf_eq_ok, pure_eq_ok, Except.ok.injEq] at h
  obtain ⟨_, _, _, _, _, _, rfl⟩ := h
  exact .refl _

theorem insertBinding_sameLog (s : RuntimeStore) (row : ProjectBinding) :
    SameLog s (s.insertBinding row) := by
  unfold insertBinding
  split <;> exact ⟨rfl, rfl, rfl⟩

theorem sourceRow_sameLog {s t : RuntimeStore} {tick : Tick} {source : String}
    {common : Option String} {row : Workspace}
    (h : s.sourceRow tick source common = .ok (row, t)) : SameLog s t := by
  unfold sourceRow at h
  split at h
  · simp only [pure_eq_ok, Except.ok.injEq, Prod.mk.injEq] at h
    exact h.2 ▸ .refl s
  · simp only [bind_eq_ok, pure_eq_ok, Except.ok.injEq, Prod.mk.injEq] at h
    obtain ⟨_, _, s', hi, -, rfl⟩ := h
    exact insertWorkspace_sameLog hi

theorem sourceProject_sameLog {s t : RuntimeStore} {tick : Tick} {row : Workspace}
    {common : Option String} {project : Project}
    (h : s.sourceProject tick row common = .ok (project, t)) : SameLog s t := by
  unfold sourceProject at h
  dsimp only at h
  split at h
  · simp only [bind_eq_ok, raiseIf_eq_ok, pure_eq_ok, Except.ok.injEq, Prod.mk.injEq] at h
    obtain ⟨_, _, s', hi, _, _, -, rfl⟩ := h
    exact (insertProject_sameLog hi).trans ⟨rfl, rfl, rfl⟩
  · split at h
    · simp only [bind_eq_ok, raiseIf_eq_ok, pure_eq_ok, Except.ok.injEq, Prod.mk.injEq] at h
      obtain ⟨_, _, -, rfl⟩ := h
      exact ⟨rfl, rfl, rfl⟩
    · simp only [bind_eq_ok, raiseIf_eq_ok, pure_eq_ok, Except.ok.injEq, Prod.mk.injEq] at h
      obtain ⟨_, _, -, rfl⟩ := h
      exact .refl _

theorem owningProject_sameLog {s t : RuntimeStore} {env : Env} {source : String}
    {common : Option String} {project : Project}
    (h : s.owningProject env source common = .ok (project, t)) : SameLog s t := by
  unfold owningProject at h
  dsimp only at h
  split at h
  · obtain ⟨-, rfl⟩ : _ ∧ s = t := by simpa using h
    exact .refl s
  · obtain ⟨⟨origin, s1⟩, hr, hq⟩ := bind_eq_ok.mp h
    exact (sourceRow_sameLog hr).trans (sourceProject_sameLog hq)

theorem bindProject_sameLog {s t : RuntimeStore} {env : Env} {row : Workspace}
    {source : String} {common : Option String}
    (h : s.bindProject env row source common = .ok t) : SameLog s t := by
  unfold bindProject at h
  split at h
  · obtain rfl : s = t := by simpa using h
    exact .refl s
  · obtain ⟨⟨project, s'⟩, hp, ht⟩ := bind_eq_ok.mp h
    obtain rfl : _ = t := by simpa using ht
    exact (owningProject_sameLog hp).trans (insertBinding_sameLog _ _)

theorem registerWorkspaceLocked_sameLog {s t : RuntimeStore} {env : Env} {path : String}
    {gitRoot : Option String} {onRegistered : WorkspaceRecord → Except PyError Unit}
    {record : WorkspaceRecord}
    (h : s.registerWorkspaceLocked env path gitRoot onRegistered = .ok (record, t)) :
    SameLog s t := by
  unfold registerWorkspaceLocked at h
  split at h
  · simp only [bind_eq_ok, pure_eq_ok, Except.ok.injEq, Prod.mk.injEq] at h
    obtain ⟨_, _, _, _, -, rfl⟩ := h
    exact .refl _
  · obtain ⟨⟨source, common⟩, _, h⟩ := bind_eq_ok.mp h
    obtain ⟨_, _, h⟩ := bind_eq_ok.mp h
    dsimp only at h
    split at h
    · cases h
    · simp only [bind_eq_ok, pure_eq_ok, Except.ok.injEq, Prod.mk.injEq] at h
      obtain ⟨s2, hb, _, _, _, _, -, rfl⟩ := h
      refine SameLog.trans ?_ (bindProject_sameLog hb)
      split
      · rename_i hi
        exact insertWorkspace_sameLog hi
      · exact .refl s

theorem registerWorkspace_sameLog (s : RuntimeStore) (env : Env) (path : String)
    (gitRoot : Option String) (onRegistered : WorkspaceRecord → Except PyError Unit) :
    SameLog s (s.registerWorkspace env path gitRoot onRegistered).2 :=
  transaction_relates (R := SameLog) SameLog.refl s fun _ _ h =>
    registerWorkspaceLocked_sameLog h

theorem insertSession_sameLog {s t : RuntimeStore} {env : Env} {sid w : String}
    {d : Option String} {u : Unit} (h : s.insertSession env sid w d none = .ok (u, t)) :
    SameLog s t := by
  unfold insertSession at h
  simp only [bind_eq_ok, pure_eq_ok, Except.ok.injEq, Prod.mk.injEq] at h
  obtain ⟨_, _, _, _, -, rfl⟩ := h
  exact ⟨rfl, rfl, rfl⟩

/-- Without a mutation to record, creating a session writes no fact. -/
theorem createSession_sameLog (s : RuntimeStore) (env : Env) (sid : String)
    (w d : Option String) : SameLog s (s.createSession env sid w d).2 := by
  unfold createSession
  split
  · refine transaction_relates (R := SameLog) SameLog.refl s fun _ _ h => ?_
    simp only [bind_eq_ok, raiseIf_eq_ok, pure_eq_ok, Except.ok.injEq, Prod.mk.injEq] at h
    obtain ⟨_, _, _, _, _, _, -, rfl⟩ := h
    exact .refl _
  · split
    · exact transaction_relates (R := SameLog) SameLog.refl s fun _ _ h =>
        insertSession_sameLog h
    · simp only [Option.isSome_none, Bool.false_eq_true, if_false]
      have hw := registerWorkspace_sameLog s env s.stateRoot none (fun _ => .ok ())
      split
      · rename_i he
        rwa [he] at hw
      · rename_i he
        rw [he] at hw
        exact hw.trans (transaction_relates (R := SameLog) SameLog.refl _ fun _ _ h =>
          insertSession_sameLog h)

/-! ## The effect of each write path -/

theorem createRun_effect (s : RuntimeStore) (env : Env) {r : String} (hr : P.run r)
    (sid : String) (c : Option String) : Effect P s (s.createRun env r sid c).2 := by
  have hc := createSession_sameLog s env sid none none
  unfold createRun
  split
  · rename_i he
    rw [he] at hc
    exact hc.effect
  · rename_i he
    rw [he] at hc
    exact hc.effect.trans (transaction_relates (R := Effect P) (fun _ => .refl) _ fun _ _ h =>
      (createRunLocked_effect hr h).1)

theorem createRun_error {s : RuntimeStore} {env : Env} {r sid : String} {c : Option String}
    {error : PyError} (h : (s.createRun env r sid c).1 = .error error) :
    SameLog s (s.createRun env r sid c).2 := by
  have hc := createSession_sameLog s env sid none none
  unfold createRun at h ⊢
  split
  · rename_i he
    rwa [he] at hc
  · rename_i s' he
    rw [he] at hc h
    rcases transaction_eq s' (s'.createRunLocked (env.shift 6) r sid c) with ⟨a, t, -, ht⟩ | ⟨e, -, ht⟩
    · simp [ht] at h
    · rw [ht]
      exact hc

/-- The first fact of an admission joins a run that the log has not seen. -/
theorem admitRun_effect {s : RuntimeStore} {env : Env} {r sid : String} {facts : List Fact}
    {c : Option String} (hn : P.run r)
    (hP : ∀ done fact rest, facts = done ++ fact :: rest → ∀ (u : RuntimeStore) (e : Event),
      (done = [] → u.events = s.events ∧ ∀ run ∈ s.runs, run.id ≠ r) → s.events <+: u.events →
      e.Records sid fact (some r) false → P.event u e) :
    Effect P s (s.admitRun env r sid facts c).2 := by
  unfold admitRun
  split
  · exact .refl
  · refine transaction_relates (R := Effect P) (fun _ => .refl) s fun turnId t h => ?_
    obtain ⟨⟨_, s1⟩, hr, h⟩ := bind_eq_ok.mp h
    obtain ⟨s2, ha, h⟩ := bind_eq_ok.mp h
    obtain ⟨-, rfl⟩ : _ ∧ s2 = t := by simpa using h
    obtain ⟨hrun, hevents, hfresh⟩ := createRunLocked_effect hn hr
    refine hrun.trans (appendFacts_effect ?_ ha)
    intro done fact rest hd u e hu hs he
    refine hP done fact rest hd u e (fun hn => ⟨hu hn ▸ hevents, hfresh⟩) ?_ he
    exact hevents ▸ hs.extends_log

theorem transaction_error_sameLog {α : Type} {s : RuntimeStore}
    {body : Except PyError (α × RuntimeStore)} {error : PyError}
    (h : (transaction s body).1 = .error error) : SameLog s (transaction s body).2 := by
  rcases transaction_eq s body with ⟨a, t, -, ht⟩ | ⟨e, -, ht⟩
  · simp [ht] at h
  · rw [ht]
    exact .refl s

theorem admitRun_error {s : RuntimeStore} {env : Env} {r sid : String} {facts : List Fact}
    {c : Option String} {error : PyError}
    (h : (s.admitRun env r sid facts c).1 = .error error) :
    SameLog s (s.admitRun env r sid facts c).2 := by
  unfold admitRun at h ⊢
  split
  · exact .refl s
  · rename_i hs
    rw [if_neg hs] at h
    exact transaction_error_sameLog h

theorem appendFact_effect {s : RuntimeStore} {env : Env} {sid : String} {fact : Fact}
    {r : Option String} {p : Bool} (hP : ∀ e : Event, e.Records sid fact r p → P.event s e) :
    Effect P s (s.appendFact env sid fact r p).2 :=
  transaction_relates (R := Effect P) (fun _ => .refl) s fun _ _ h =>
    appendFactLocked_effect hP h

theorem transactFacts_effect {α : Type} {s : RuntimeStore} {env : Env} {sid : String}
    {types : List EventType} {choose : List Event → Except PyError (α × List (EventType × Json))}
    {author : String} {r : Option String}
    (hP : ∀ result additions, choose (s.factsByType types) = .ok (result, additions) →
      ∀ a ∈ additions, ∀ (u : RuntimeStore) (e : Event), s.events <+: u.events →
        e.Records sid { type := a.1, payload := a.2, author } r false → P.event u e) :
    Effect P s (s.transactFacts env sid types choose author r).2 := by
  refine transaction_relates (R := Effect P) (fun _ => .refl) s fun _ t h => ?_
  obtain ⟨_, _, h⟩ := bind_eq_ok.mp h
  obtain ⟨⟨result, additions⟩, hc, h⟩ := bind_eq_ok.mp h
  obtain ⟨s1, ha, h⟩ := bind_eq_ok.mp h
  obtain ⟨-, rfl⟩ : _ ∧ s1 = t := by simpa using h
  refine appendFacts_effect ?_ ha
  intro done fact rest hd u e _ hs he
  have hm : fact ∈ additions.map fun a =>
      ({ type := a.1, payload := a.2, author } : Fact) := by simp [hd]
  obtain ⟨a, ham, rfl⟩ := List.mem_map.mp hm
  exact hP result additions hc a ham u e hs.extends_log he

theorem commitConfiguration_effect {s : RuntimeStore} {env : Env} {owner : String}
    {facts : List (EventType × Json)} {result : RuntimeStore → Except PyError Json}
    {m : Option String} {p : Option (Option ProviderConfig)}
    (hP : ∀ (u : RuntimeStore) (e : Event), e.runId = none → e.isPartial = false → P.event u e) :
    Effect P s (s.commitConfiguration env owner facts result m p).2 := by
  refine transaction_relates (R := Effect P) (fun _ => .refl) s fun _ t h => ?_
  dsimp only at h
  obtain ⟨s2, ha, h⟩ := bind_eq_ok.mp h
  have hs : Effect P s s2 := by
    refine Effect.trans ?_ (appendFacts_effect
      (fun _ _ _ _ u e _ _ he => hP u e he.runId_eq he.isPartial_eq) ha)
    split <;> exact SameLog.effect ⟨rfl, rfl, rfl⟩
  obtain ⟨response, _, h⟩ := bind_eq_ok.mp h
  split at h
  · obtain ⟨⟨_, s3⟩, hl, h⟩ := bind_eq_ok.mp h
    obtain ⟨-, rfl⟩ : _ ∧ s3 = t := by simpa using h
    exact hs.trans (appendFactLocked_effect
      (fun e he => hP s2 e he.runId_eq he.isPartial_eq) hl)
  · obtain ⟨-, rfl⟩ : _ ∧ s2 = t := by simpa using h
    exact hs

theorem editSession_sameLog {s t : RuntimeStore} {record : Session} {delete : Bool}
    {title : Option String} {archived : Option Bool} {fact : EventType × Json}
    (h : s.editSession record delete title archived = .ok (fact, t)) : SameLog s t := by
  unfold editSession deleteSession at h
  split at h
  · simp only [bind_eq_ok, raiseIf_eq_ok, pure_eq_ok, Except.ok.injEq, Prod.mk.injEq] at h
    obtain ⟨_, ⟨_, _, _, _, rfl⟩, -, rfl⟩ := h
    exact ⟨rfl, rfl, rfl⟩
  · simp only [bind_eq_ok, raiseIf_eq_ok, pure_eq_ok, Except.ok.injEq, Prod.mk.injEq] at h
    obtain ⟨_, _, _, _, -, rfl⟩ := h
    exact ⟨rfl, rfl, rfl⟩

theorem commitSessionMetadata_effect {s : RuntimeStore} {env : Env}
    {owner sid expected m : String} {result : RuntimeStore → Except PyError Json}
    {delete : Bool} {title : Option String} {archived : Option Bool}
    (hP : ∀ (u : RuntimeStore) (e : Event), e.runId = none → e.isPartial = false → P.event u e) :
    Effect P s
      (s.commitSessionMetadata env owner sid expected m result delete title archived).2 := by
  refine transaction_relates (R := Effect P) (fun _ => .refl) s fun _ t h => ?_
  split at h
  · cases h
  · obtain ⟨_, _, h⟩ := bind_eq_ok.mp h
    obtain ⟨⟨⟨kind, metadata⟩, s1⟩, he, h⟩ := bind_eq_ok.mp h
    obtain ⟨⟨_, s2⟩, h2, h⟩ := bind_eq_ok.mp h
    obtain ⟨response, _, h⟩ := bind_eq_ok.mp h
    obtain ⟨⟨_, s3⟩, h3, h⟩ := bind_eq_ok.mp h
    obtain ⟨-, rfl⟩ : _ ∧ s3 = t := by simpa using h
    have hs2 : Effect P s1 s2 :=
      appendFactLocked_effect (fun e he => hP s1 e he.runId_eq he.isPartial_eq) h2
    have hs3 : Effect P s2 s3 :=
      appendFactLocked_effect (fun e he => hP s2 e he.runId_eq he.isPartial_eq) h3
    exact ((editSession_sameLog he).effect.trans hs2).trans hs3

end RuntimeStore

open RuntimeStore

/-- The call keeps the promise when it is made in state `s`. -/
def StoreCall.Writes (P : Promise) (s : RuntimeStore) : StoreCall → Prop
  | createRun r _ _ => P.run r
  | admitRun r sid facts _ => P.run r ∧ ∀ done fact rest, facts = done ++ fact :: rest →
      ∀ (u : RuntimeStore) (e : Event),
      (done = [] → u.events = s.events ∧ ∀ run ∈ s.runs, run.id ≠ r) → s.events <+: u.events →
      e.Records sid fact (some r) false → P.event u e
  | appendFact sid fact r p => ∀ e : Event, e.Records sid fact r p → P.event s e
  | transactFacts sid types choose author r => ∀ result additions,
      choose (s.factsByType types) = .ok (result, additions) → ∀ a ∈ additions,
      ∀ (u : RuntimeStore) (e : Event), s.events <+: u.events →
      e.Records sid { type := a.1, payload := a.2, author } r false → P.event u e
  | commitConfiguration _ _ _ _ _ | commitSessionMetadata _ _ _ _ _ _ _ _ =>
      ∀ (u : RuntimeStore) (e : Event), e.runId = none → e.isPartial = false → P.event u e

theorem StoreCall.perform_effect {P : Promise} {s : RuntimeStore} (env : Env)
    {call : StoreCall} (h : call.Writes P s) : Effect P s (call.perform s env).2 := by
  cases call with
  | createRun r sid c => exact createRun_effect s env h sid c
  | admitRun r sid facts c => exact admitRun_effect h.1 h.2
  | appendFact sid fact r p => exact appendFact_effect h
  | transactFacts sid types choose author r => exact transactFacts_effect h
  | commitConfiguration owner facts result m p => exact commitConfiguration_effect h
  | commitSessionMetadata owner sid expected m result delete title archived =>
    exact commitSessionMetadata_effect h

/-- Every call keeps the empty promise. -/
theorem StoreCall.writes_any (s : RuntimeStore) (call : StoreCall) :
    call.Writes ⟨fun _ _ => True, fun _ => True⟩ s := by
  cases call <;> simp [StoreCall.Writes]

/-- A call that raises leaves the log, the runs and the turns as they were. -/
theorem StoreCall.perform_error {s : RuntimeStore} {env : Env} {call : StoreCall}
    {error : PyError} (h : (call.perform s env).1 = .error error) :
    SameLog s (call.perform s env).2 := by
  cases call with
  | createRun r sid c => exact createRun_error (map_eq_error h)
  | admitRun r sid facts c => exact admitRun_error (map_eq_error h)
  | appendFact sid fact r p => exact transaction_error_sameLog (map_eq_error h)
  | transactFacts sid types choose author r => exact transaction_error_sameLog (map_eq_error h)
  | commitConfiguration owner facts result m p =>
    exact transaction_error_sameLog (map_eq_error h)
  | commitSessionMetadata owner sid expected m result delete title archived =>
    exact transaction_error_sameLog (map_eq_error h)

end Eventide
