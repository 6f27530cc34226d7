import Eventide.Model.Continuation
import Eventide.Verification.Store.Log
import Eventide.Verification.Store.Transact

/-! # What a call adds to the tables

A call adds rows to the log and at most one run with its turn, so the runs that an earlier run
continues stay as they are. -/

namespace Eventide

open Outcome

namespace RuntimeStore

variable {s t : RuntimeStore}

/-- The rows that a store has more than another. -/
structure Grown (s t : RuntimeStore) (rows : List Event) (begun : Option (Turn × Run)) : Prop where
  events : t.events = s.events ++ rows
  turns : t.turns = s.turns ++ begun.toList.map Prod.fst
  runs : t.runs = s.runs ++ begun.toList.map Prod.snd
  fresh : ∀ p ∈ begun, (∀ turn ∈ s.turns, turn.id ≠ p.1.id) ∧ (∀ run ∈ s.runs, run.id ≠ p.2.id) ∧
    p.2.turnId = p.1.id

theorem SameLog.grown (h : SameLog s t) : Grown s t [] none :=
  ⟨h.1.trans (List.append_nil _).symm, h.2.2.trans (List.append_nil _).symm,
    h.2.1.trans (List.append_nil _).symm, nofun⟩

theorem Grown.append {u : RuntimeStore} {rows more : List Event} {begun : Option (Turn × Run)}
    (h : Grown s t rows begun) (he : u.events = t.events ++ more) (ht : u.turns = t.turns)
    (hr : u.runs = t.runs) : Grown s u (rows ++ more) begun :=
  ⟨by rw [he, h.events, List.append_assoc], by rw [ht, h.turns], by rw [hr, h.runs], h.fresh⟩

theorem SameLog.trans_grown {u : RuntimeStore} {rows : List Event} {begun : Option (Turn × Run)}
    (h : SameLog s t) (k : Grown t u rows begun) : Grown s u rows begun :=
  ⟨by rw [k.events, h.1], by rw [k.turns, h.2.2], by rw [k.runs, h.2.1], by
    rw [← h.2.1, ← h.2.2]
    exact k.fresh⟩

theorem createRunLocked_grown {env : Env} {r sid turnId : String} {c : Option String}
    (h : s.createRunLocked env r sid c = .ok (turnId, t)) :
    ∃ turn run, Grown s t [] (some (turn, run)) ∧ run.id = r ∧ turn.continuationOf = c ∧
      run.sessionId = sid := by
  unfold createRunLocked insertTurn insertRun at h
  simp only [bind_eq_ok, raiseIf_eq_ok, pure_eq_ok, Except.ok.injEq, Prod.mk.injEq] at h
  obtain ⟨s1, ⟨_, _, _, hturn, _, _, _, _, _, _, rfl⟩, s2, ⟨_, _, _, hrun, _, _, _, _, rfl⟩, -,
    rfl⟩ := h
  refine ⟨_, _, ⟨(List.append_nil _).symm, rfl, rfl, fun p hp => ?_⟩, rfl, rfl, rfl⟩
  obtain rfl := Option.some.inj hp
  exact ⟨fun turn hm he => hturn ⟨turn, hm, he⟩, fun run hm he => hrun ⟨run, hm, he⟩, rfl⟩

/-- A call that creates no run. -/
theorem Effect.grown {P : Promise} (h : Effect P s t) (hP : ∀ r, ¬ P.run r) :
    ∃ rows, Grown s t rows none := by
  induction h with
  | refl => exact ⟨[], (SameLog.refl s).grown⟩
  | @event t e _ _ _ ih =>
    obtain ⟨rows, ih⟩ := ih
    exact ⟨rows ++ [e], ih.append rfl rfl rfl⟩
  | run _ hrun _ _ _ _ => exact absurd hrun (hP _)
  | frame _ he hr ht ih =>
    obtain ⟨rows, ih⟩ := ih
    exact ⟨rows ++ [], ih.append (by rw [he, List.append_nil]) ht hr⟩

/-- What `admit_run` adds when it commits: the run, and a row for each fact that ends no run. -/
theorem admitRun_grown {env : Env} {r sid turnId : String} {c : Option String} {facts : List Fact}
    (h : s.admitRun env r sid facts c = (.ok turnId, t)) :
    ∃ turn run rows, Grown s t rows (some (turn, run)) ∧ run.id = r ∧ turn.continuationOf = c ∧
      ((∀ fact ∈ facts, fact.type.isTerminal = false) →
        List.Forall₂ (fun e (fact : Fact) => e.Records sid fact (some r) false) rows facts) := by
  rw [admitRun] at h
  split at h
  · cases (Prod.mk.inj h).1
  · obtain ⟨⟨turn', s'⟩, hcreate, h⟩ := bind_eq_ok.mp (transaction_eq_ok.mp h)
    obtain ⟨s'', hfacts, h⟩ := bind_eq_ok.mp h
    obtain ⟨-, rfl⟩ := Prod.mk.inj (Except.ok.inj h)
    obtain ⟨turn, run, hgrown, hr, hc, -⟩ := createRunLocked_grown hcreate
    obtain ⟨rows, heq, -⟩ := appendFacts_all hfacts
    refine ⟨turn, run, [] ++ rows, hgrown.append (by rw [heq]) (by rw [heq]) (by rw [heq]), hr, hc,
      fun hopen => ?_⟩
    obtain ⟨rows', heq', hrecords⟩ := appendFacts_eq (fun fact hf => .inl (hopen fact hf)) hfacts
    have hrows : rows' = rows := by
      have hevents := congrArg RuntimeStore.events (heq'.symm.trans heq)
      exact List.append_cancel_left hevents
    rw [List.nil_append, ← hrows]
    exact hrecords

theorem createRun_grown {env : Env} {r sid turnId : String} {c : Option String}
    (h : s.createRun env r sid c = (.ok turnId, t)) :
    ∃ turn run, Grown s t [] (some (turn, run)) ∧ run.id = r ∧ turn.continuationOf = c := by
  have hsame := createSession_sameLog s env sid none none
  rw [createRun] at h
  split at h
  · cases (Prod.mk.inj h).1
  · rename_i s' hsession
    rw [hsession] at hsame
    obtain ⟨turn, run, hgrown, hr, hc, -⟩ := createRunLocked_grown (transaction_eq_ok.mp h)
    exact ⟨turn, run, hsame.trans_grown hgrown, hr, hc⟩

theorem mem_grown_runs {rows : List Event} {begun : Option (Turn × Run)} {run : Run}
    (h : Grown s t rows begun) :
    run ∈ t.runs ↔ run ∈ s.runs ∨ ∃ p, begun = some p ∧ run = p.2 := by
  rw [h.runs, List.mem_append, List.mem_map]
  simp only [Option.mem_toList, eq_comm]

theorem mem_grown_turns {rows : List Event} {begun : Option (Turn × Run)} {turn : Turn}
    (h : Grown s t rows begun) :
    turn ∈ t.turns ↔ turn ∈ s.turns ∨ ∃ p, begun = some p ∧ turn = p.1 := by
  rw [h.turns, List.mem_append, List.mem_map]
  simp only [Option.mem_toList, eq_comm]

theorem Grown.terminal {rows : List Event} {begun : Option (Turn × Run)} {r : String}
    (h : Grown s t rows begun) (hr : s.runIsTerminal r = true) : t.runIsTerminal r = true :=
  runIsTerminal_mono ⟨rows, h.events.symm⟩ hr

end RuntimeStore

open RuntimeStore

/-- The rows that a call adds, and the run that it creates where it returns. -/
def StoreCall.Leaves (call : StoreCall) (result : Except PyError Returned) (s t : RuntimeStore) :
    Prop :=
  ∃ rows begun, Grown s t rows begun ∧
    (∀ p, begun = some p → call.creates = some (p.2.id, p.1.continuationOf)) ∧
    ∀ c returned, call.creates = some c → result = .ok returned → begun.isSome = true

theorem StoreCall.leaves_failed {s : RuntimeStore} {env : Env} {call : StoreCall}
    {error : PyError} (h : (call.perform s env).1 = .error error) :
    call.Leaves (call.perform s env).1 s (call.perform s env).2 := by
  refine ⟨[], none, (StoreCall.perform_error h).grown, nofun, fun c returned _ hok => ?_⟩
  rw [h] at hok
  cases hok

theorem StoreCall.leaves_quiet {s : RuntimeStore} {env : Env} {call : StoreCall}
    (h : call.creates = none) (hwrites : call.Writes ⟨fun _ _ => True, fun _ => False⟩ s) :
    call.Leaves (call.perform s env).1 s (call.perform s env).2 := by
  obtain ⟨rows, hrows⟩ := (StoreCall.perform_effect env hwrites).grown fun _ h => h
  refine ⟨rows, none, hrows, nofun, fun c returned hc _ => ?_⟩
  rw [h] at hc
  cases hc

theorem StoreCall.perform_leaves (s : RuntimeStore) (env : Env) (call : StoreCall) :
    call.Leaves (call.perform s env).1 s (call.perform s env).2 := by
  cases call with
  | createRun r sid c =>
    cases hresult : s.createRun env r sid c with
    | mk result t =>
      cases result with
      | error error => exact StoreCall.leaves_failed (by rw [perform, hresult]; rfl)
      | ok turnId =>
        obtain ⟨turn, run, hgrown, rfl, rfl⟩ := createRun_grown hresult
        rw [perform, hresult]
        exact ⟨[], some (turn, run), hgrown, fun p hp => Option.some.inj hp ▸ rfl,
          fun _ _ _ _ => rfl⟩
  | admitRun r sid facts c =>
    cases hresult : s.admitRun env r sid facts c with
    | mk result t =>
      cases result with
      | error error => exact StoreCall.leaves_failed (by rw [perform, hresult]; rfl)
      | ok turnId =>
        obtain ⟨turn, run, rows, hgrown, rfl, rfl, -⟩ := admitRun_grown hresult
        rw [perform, hresult]
        exact ⟨rows, some (turn, run), hgrown, fun p hp => Option.some.inj hp ▸ rfl,
          fun _ _ _ _ => rfl⟩
  | appendFact sid fact r p => exact StoreCall.leaves_quiet rfl fun _ _ => trivial
  | transactFacts sid types choose author r =>
    exact StoreCall.leaves_quiet rfl fun _ _ _ _ _ _ _ _ _ => trivial
  | commitConfiguration owner facts result m p =>
    exact StoreCall.leaves_quiet rfl fun _ _ _ _ => trivial
  | commitSessionMetadata owner sid expected m result delete title archived =>
    exact StoreCall.leaves_quiet rfl fun _ _ _ _ => trivial

namespace RuntimeStore

/-! ## Identities -/

theorem getRunIdentity_of_rows {s : RuntimeStore} {run : Run} {turn : Turn}
    (hrun : s.getRunRow run.id = some run) (hturn : s.turns.find? (·.id = run.turnId) = some turn) :
    s.getRunIdentity run.id = some (run, turn.continuationOf) := by
  rw [getRunIdentity, hrun, Option.bind_eq_bind, Option.bind_some, hturn]
  rfl

theorem getRunIdentity_eq_some {s : RuntimeStore} {r : String} {identity : Run × Option String}
    (h : s.getRunIdentity r = some identity) :
    ∃ turn, s.getRunRow r = some identity.1 ∧
      s.turns.find? (·.id = identity.1.turnId) = some turn ∧ turn.continuationOf = identity.2 := by
  obtain ⟨run, hrun, h⟩ := Option.bind_eq_some_iff.mp h
  obtain ⟨turn, hturn, h⟩ := Option.bind_eq_some_iff.mp h
  obtain rfl := Option.some.inj h
  exact ⟨turn, hrun, hturn, rfl⟩

variable {s t : RuntimeStore} {rows : List Event} {begun : Option (Turn × Run)}

/-- A run keeps its identity. -/
theorem Grown.identity (h : Grown s t rows begun) {r : String} {identity : Run × Option String}
    (hr : s.getRunIdentity r = some identity) : t.getRunIdentity r = some identity := by
  obtain ⟨turn, hrow, hturn, hc⟩ := getRunIdentity_eq_some hr
  have hrow' : t.getRunRow r = some identity.1 := by
    rw [getRunRow, h.runs, List.find?_append, ← getRunRow, hrow]
    rfl
  have hturn' : t.turns.find? (·.id = identity.1.turnId) = some turn := by
    rw [h.turns, List.find?_append, hturn]
    rfl
  obtain rfl := (getRunRow_eq_some hrow).2
  rw [getRunIdentity_of_rows hrow' hturn', hc]

/-- The run that is created has its turn's source. -/
theorem Grown.identity_new {turn : Turn} {run : Run} (h : Grown s t rows (some (turn, run))) :
    t.getRunIdentity run.id = some (run, turn.continuationOf) := by
  obtain ⟨hturns, hruns, hid⟩ := h.fresh _ rfl
  apply getRunIdentity_of_rows
  · have hnone : s.runs.find? (·.id = run.id) = none := by
      apply List.find?_eq_none.mpr
      intro other hmem
      simpa using hruns other hmem
    rw [getRunRow, h.runs, List.find?_append, hnone]
    simp
  · have hnone : s.turns.find? (·.id = run.turnId) = none := by
      apply List.find?_eq_none.mpr
      intro other hmem
      rw [hid]
      simpa using hturns other hmem
    rw [h.turns, List.find?_append, hnone]
    simpa using hid.symm

/-! ## Chains -/

/-- The sources of the turns are runs. -/
def Sourced (s : RuntimeStore) : Prop :=
  ∀ turn ∈ s.turns, ∀ source, turn.continuationOf = some source → source ≠ "" →
    ∃ run ∈ s.runs, run.id = source

theorem getRunIdentity_of_mem (h : s.LogInvariant) {run : Run} (hr : run ∈ s.runs) :
    ∃ continuationOf, s.getRunIdentity run.id = some (run, continuationOf) := by
  obtain ⟨found, hfound⟩ : ∃ found, s.getRunRow run.id = some found :=
    Option.isSome_iff_exists.mp (List.find?_isSome.mpr ⟨run, hr, by simp⟩)
  obtain ⟨hmem, hid⟩ := getRunRow_eq_some hfound
  obtain rfl : found = run := List.inj_on_of_nodup_map h.runs_nodup hmem hr hid
  obtain ⟨turn, hturn, hturnId⟩ := h.turned found hr
  obtain ⟨first, hfirst⟩ : ∃ first, s.turns.find? (·.id = found.turnId) = some first :=
    Option.isSome_iff_exists.mp (List.find?_isSome.mpr ⟨turn, hturn, by simpa using hturnId⟩)
  exact ⟨first.continuationOf, getRunIdentity_of_rows hfound hfirst⟩

theorem source_mem {r source : String} {run : Run}
    (h : s.getRunIdentity r = some (run, some source)) :
    ∃ turn ∈ s.turns, turn.continuationOf = some source := by
  obtain ⟨turn, -, hturn, hc⟩ := getRunIdentity_eq_some h
  exact ⟨turn, List.mem_of_find?_eq_some hturn, hc⟩

/-- The chain of an earlier run stays as it is. -/
theorem Grown.chain (h : Grown s t rows begun) (hlog : s.LogInvariant) (hsourced : s.Sourced)
    {seen : List String} {r : String} (hr : r = "" ∨ ∃ run ∈ s.runs, run.id = r) :
    t.chain seen r = s.chain seen r := by
  induction seen, r using chain.induct s with
  | case1 seen r hseen => rw [chain_seen hseen, chain_seen hseen]
  | case2 seen r hseen hnone =>
    rcases hr with rfl | ⟨run, hrun, rfl⟩
    · exact absurd (.inl rfl) hseen
    · obtain ⟨source, hidentity⟩ := getRunIdentity_of_mem hlog hrun
      rw [hnone] at hidentity
      cases hidentity
  | case3 seen r hseen identity hidentity ih =>
    rw [chain_step hseen hidentity, chain_step hseen (h.identity hidentity), ih]
    obtain ⟨run, source⟩ := identity
    cases source with
    | none => exact .inl rfl
    | some source =>
      by_cases hempty : source = ""
      · exact .inl hempty
      · obtain ⟨turn, hturn, hc⟩ := source_mem hidentity
        exact .inr (hsourced turn hturn source hc hempty)

/-- Runs that the chain does not reach can count as visited. -/
theorem chain_visited {seen visited : List String} {r : String}
    (hsub : ∀ q ∈ seen, q ∈ visited) (hout : ∀ q ∈ visited, q ∈ seen ∨ q ∉ s.chain seen r) :
    s.chain visited r = s.chain seen r := by
  induction seen, r using chain.induct s generalizing visited with
  | case1 seen r hseen => rw [chain_seen hseen, chain_seen (hseen.imp_right (hsub r))]
  | case2 seen r hseen hnone =>
    rw [chain_missing hseen hnone]
    by_cases hvisited : r = "" ∨ r ∈ visited
    · exact chain_seen hvisited
    · exact chain_missing hvisited hnone
  | case3 seen r hseen identity hidentity ih =>
    rw [chain_step hseen hidentity] at hout ⊢
    have hvisited : ¬ (r = "" ∨ r ∈ visited) := by
      rintro (hempty | hmem)
      · exact hseen (.inl hempty)
      · rcases hout r hmem with hmem | hnot
        · exact hseen (.inr hmem)
        · exact hnot List.mem_cons_self
    rw [chain_step hvisited hidentity]
    refine congrArg (r :: ·) (ih ?_ ?_)
    · intro q hq
      rcases List.mem_cons.mp hq with rfl | hq
      · exact List.mem_cons_self
      · exact List.mem_cons_of_mem _ (hsub q hq)
    · intro q hq
      rcases List.mem_cons.mp hq with rfl | hq
      · exact .inl List.mem_cons_self
      · refine (hout q hq).imp (List.mem_cons_of_mem _) fun hnot hmem => ?_
        exact hnot (List.mem_cons_of_mem _ hmem)

/-- The chain of a run that is created goes on with the run that it continues. -/
theorem Grown.chain_new {turn : Turn} {run : Run} (h : Grown s t rows (some (turn, run)))
    (hlog : s.LogInvariant) (hsourced : s.Sourced) (hne : run.id ≠ "")
    (hsource : turn.continuationOf.getD "" = "" ∨
      ∃ old ∈ s.runs, old.id = turn.continuationOf.getD "") :
    t.chain [] run.id = run.id :: s.chain [] (turn.continuationOf.getD "") := by
  have hfirst : ¬ (run.id = "" ∨ run.id ∈ ([] : List String)) :=
    not_or.mpr ⟨hne, List.not_mem_nil⟩
  rw [chain_step hfirst h.identity_new, h.chain hlog hsourced hsource]
  refine congrArg (run.id :: ·) (chain_visited (fun q hq => nomatch hq) fun q hq => .inr ?_)
  obtain rfl := List.mem_singleton.mp hq
  intro hmem
  obtain ⟨identity, hidentity⟩ := chain_exists _ hmem
  obtain ⟨old, hold, hid⟩ := mem_of_getRunIdentity hidentity
  exact (h.fresh _ rfl).2.1 old hold hid

theorem not_seen_of_mem_chain {seen : List String} {r q : String} (h : q ∈ s.chain seen r) :
    q ≠ "" ∧ q ∉ seen := by
  induction seen, r using chain.induct s with
  | case1 seen r hseen =>
    rw [chain_seen hseen] at h
    cases h
  | case2 seen r hseen hnone =>
    rw [chain_missing hseen hnone] at h
    cases h
  | case3 seen r hseen identity hidentity ih =>
    rw [chain_step hseen hidentity] at h
    rcases List.mem_cons.mp h with rfl | h
    · exact not_or.mp hseen
    · obtain ⟨hne, hnot⟩ := ih h
      exact ⟨hne, fun hmem => hnot (List.mem_cons_of_mem _ hmem)⟩

/-- A run of a chain is its first, or some turn continues it. -/
theorem continued_of_mem_chain {seen : List String} {r q : String} (h : q ∈ s.chain seen r) :
    q = r ∨ ∃ turn ∈ s.turns, turn.continuationOf = some q := by
  induction seen, r using chain.induct s with
  | case1 seen r hseen =>
    rw [chain_seen hseen] at h
    cases h
  | case2 seen r hseen hnone =>
    rw [chain_missing hseen hnone] at h
    cases h
  | case3 seen r hseen identity hidentity ih =>
    rw [chain_step hseen hidentity] at h
    rcases List.mem_cons.mp h with rfl | h
    · exact .inl rfl
    · rcases ih h with rfl | hturn
      · obtain ⟨run, source⟩ := identity
        cases source with
        | none => exact absurd rfl (not_seen_of_mem_chain h).1
        | some source => exact .inr (source_mem hidentity)
      · exact .inr hturn

end RuntimeStore

end Eventide
