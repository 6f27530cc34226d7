import Eventide.Verification.Delegation.Children

/-! # Workers are delegated once

Over any run of the Host, no task of a chain is given to two workers on the same source, and no run
has more than four. -/

namespace Eventide

open Outcome RuntimeStore

namespace Delegation

/-! ## The invariant -/

namespace Phase

/-- The tasks that wait for copies of the source. -/
def goals : Phase → List WorkerTask
  | copying goals => goals
  | _ => []

/-- The workers that wait for their admission. -/
def waiting : Phase → List Child
  | starting children _ => children
  | _ => []

end Phase

/-- What is known of a run that is executed. -/
structure Executed (digest : Json → HexDigest) (s : RuntimeStore) (x : Execution) : Prop where
  named : x.runId ≠ ""
  known : ∃ run ∈ s.runs, run.id = x.runId
  live : s.runIsTerminal x.runId = false
  limit : x.delegated + x.phase.goals.length ≤ 4
  spent : (children s x.runId).length + x.phase.waiting.length ≤ x.delegated
  roles : ∀ goal ∈ x.phase.goals, goal.role ∈ workerRoles
  waiting : ∀ child ∈ x.phase.waiting, child.task.role ∈ workerRoles ∧
    child.signature = delegationFingerprint digest child.task child.snapshot.identity ∧
    some child.signature ∉ (lineage s x.runId).map fingerprint
  distinct : (x.phase.waiting.map (·.signature)).Nodup
  called : ∀ children prepared, x.phase = .starting children prepared →
    ∃ event ∈ s.runEvents x.runId, isDelegateCall event = true ∧ event.payload = prepared

/-- An admission that counts, with the fingerprint of its task and its source. -/
def IsWorker (digest : Json → HexDigest) (s : RuntimeStore) (runId : String) (e : Event) : Prop :=
  ∃ task snapshotId, (e.payload.get? "worker_role").bind Json.str? = some task.role ∧
    (e.payload.get? "snapshot_id").bind Json.str? = some snapshotId ∧
    Counts s runId e (delegationFingerprint digest task snapshotId)

/-- What is known of the store. -/
structure Delegated (digest : Json → HexDigest) (s : RuntimeStore) : Prop where
  log : s.LogInvariant
  ended : ∀ turn ∈ s.turns, ∀ source, turn.continuationOf = some source →
    s.runIsTerminal source = true
  known : ∀ runId, ∀ e ∈ children s runId, ∃ run ∈ s.runs, run.id = runId
  counted : ∀ runId, ∀ e ∈ children s runId, IsWorker digest s runId e
  bounded : ∀ runId, (children s runId).length ≤ 4
  distinct : ∀ runId, ((lineage s runId).map fingerprint).Nodup
  called : ∀ e ∈ s.events, e.type = .toolPrepared →
    ((e.payload.get? "call_id").bind Json.str?).isSome = true

structure Invariant (digest : Json → HexDigest) (h : Host) : Prop where
  store : Delegated digest h.store
  ids : (h.executing.map (·.runId)).Nodup
  executed : ∀ x ∈ h.executing, Executed digest h.store x

variable {digest : Json → HexDigest} {s t : RuntimeStore} {rows : List Event}
  {begun : Option (Turn × Run)} {x : Execution}

theorem IsWorker.grown {runId : String} {e : Event} (h : Grown s t rows begun)
    (he : IsWorker digest s runId e) : IsWorker digest t runId e := by
  obtain ⟨task, snapshotId, hrole, hsnapshot, hcounts⟩ := he
  exact ⟨task, snapshotId, hrole, hsnapshot, hcounts.grown h⟩

theorem Delegated.sourced (h : Delegated digest s) : s.Sourced := by
  intro turn hturn source hsource hne
  obtain ⟨e, he⟩ := Option.isSome_iff_exists.mp (h.ended turn hturn source hsource)
  have hmem := List.mem_of_find?_eq_some he
  have hrun := List.find?_some he
  simp only [decide_eq_true_eq] at hrun
  obtain ⟨run, hknown, hid, -⟩ := h.log.owned e hmem source (givenRun_eq_some.mpr ⟨hrun.1, hne⟩)
  exact ⟨run, hknown, hid⟩

theorem Delegated.children_of_not_known (h : Delegated digest s) {runId : String}
    (hnew : ∀ run ∈ s.runs, run.id ≠ runId) : children s runId = [] := by
  apply List.eq_nil_iff_forall_not_mem.mpr
  intro e he
  obtain ⟨run, hrun, hid⟩ := h.known runId e he
  exact hnew run hrun hid

/-- A run that is executed is in no chain but its own. -/
theorem Delegated.not_mem_chain (h : Delegated digest s) (hx : Executed digest s x)
    {runId : String} (hne : runId ≠ x.runId) {seen : List String} :
    x.runId ∉ s.chain seen runId := by
  intro hmem
  rcases continued_of_mem_chain hmem with heq | ⟨turn, hturn, hsource⟩
  · exact hne heq.symm
  · have hended := h.ended turn hturn _ hsource
    rw [hx.live] at hended
    cases hended

/-- The chain of a run that is executed begins with it, and does not come back to it. -/
theorem Executed.chain (hs : Delegated digest s) (hx : Executed digest s x) :
    ∃ rest, s.chain [] x.runId = x.runId :: rest ∧ x.runId ∉ rest := by
  obtain ⟨run, hrun, hid⟩ := hx.known
  obtain ⟨source, hidentity⟩ := getRunIdentity_of_mem hs.log hrun
  rw [hid] at hidentity
  refine ⟨_, chain_step (not_or.mpr ⟨hx.named, List.not_mem_nil⟩) hidentity, fun hmem => ?_⟩
  exact (not_seen_of_mem_chain hmem).2 List.mem_cons_self

/-! ## Growth of the store -/

theorem lineage_grown (h : Grown s t rows begun) (hs : Delegated digest s) {runId : String}
    (hknown : ∃ run ∈ s.runs, run.id = runId)
    (hsame : ∀ run ∈ s.chain [] runId, children t run = children s run) :
    lineage t runId = lineage s runId := by
  rw [lineage, lineage, h.chain hs.log hs.sourced (.inr hknown)]
  exact List.flatMap_congr hsame

/-- The workers of a run that is created are those of the runs that it continues. -/
theorem lineage_new {turn : Turn} {run : Run} (h : Grown s t rows (some (turn, run)))
    (hs : Delegated digest s) (hne : run.id ≠ "")
    (hsource : ∀ source, turn.continuationOf = some source → s.runIsTerminal source = true)
    (hnew : children t run.id = [])
    (hsame : ∀ r ∈ s.chain [] (turn.continuationOf.getD ""), children t r = children s r) :
    lineage t run.id = lineage s (turn.continuationOf.getD "") := by
  have hknown : turn.continuationOf.getD "" = "" ∨
      ∃ old ∈ s.runs, old.id = turn.continuationOf.getD "" := by
    cases hc : turn.continuationOf with
    | none => exact .inl rfl
    | some source =>
      by_cases hempty : source = ""
      · exact .inl hempty
      · obtain ⟨e, he⟩ := Option.isSome_iff_exists.mp (hsource source hc)
        have hrun := List.find?_some he
        simp only [decide_eq_true_eq] at hrun
        obtain ⟨old, hold, hid, -⟩ := hs.log.owned e (List.mem_of_find?_eq_some he) source
          (givenRun_eq_some.mpr ⟨hrun.1, hempty⟩)
        exact .inr ⟨old, hold, hid⟩
  rw [lineage, h.chain_new hs.log hs.sourced hne hknown, List.flatMap_cons, hnew, List.nil_append,
    lineage]
  exact List.flatMap_congr hsame

/-- A run stays executed while nothing changes for it. -/
theorem Executed.grown (hx : Executed digest s x) (h : Grown s t rows begun)
    (hlive : t.runIsTerminal x.runId = false) (hsame : children t x.runId = children s x.runId)
    (hlineage : lineage t x.runId = lineage s x.runId) : Executed digest t x where
  named := hx.named
  known := by
    obtain ⟨run, hrun, hid⟩ := hx.known
    exact ⟨run, (mem_grown_runs h).mpr (.inl hrun), hid⟩
  live := hlive
  limit := hx.limit
  spent := by
    rw [hsame]
    exact hx.spent
  roles := hx.roles
  waiting := by
    rw [hlineage]
    exact hx.waiting
  distinct := hx.distinct
  called := by
    intro waiting prepared hphase
    obtain ⟨event, hevent, hcall⟩ := hx.called waiting prepared hphase
    exact ⟨event, runEvents_grown h hevent, hcall⟩

/-! ## The rest of the program -/

theorem childRows_ordinary (hrows : ∀ e ∈ rows, isOrdinary e = true) (runId : String) :
    childRows rows runId = [] := by
  apply childRows_eq_nil
  intro e he
  have hordinary := hrows e he
  simp only [isOrdinary, Bool.not_eq_true', decide_eq_true_eq] at hordinary
  exact hordinary.1

/-- What a call of the rest of the program keeps. -/
theorem Delegated.ordinary (hs : Delegated digest s) (h : Grown s t rows begun)
    (hlog : t.LogInvariant) (hrows : ∀ e ∈ rows, isOrdinary e = true)
    (hbegun : ∀ p, begun = some p → p.2.id ≠ "" ∧
      ∀ source, p.1.continuationOf = some source → s.runIsTerminal source = true) :
    Delegated digest t := by
  have hsame (runId : String) : children t runId = children s runId := by
    rw [children_grown h, childRows_ordinary hrows, List.append_nil]
  refine ⟨hlog, ?_, ?_, ?_, fun runId => hsame runId ▸ hs.bounded runId, ?_, ?_⟩
  · intro turn hturn source hsource
    rcases (mem_grown_turns h).mp hturn with hold | ⟨p, hp, rfl⟩
    · exact h.terminal (hs.ended turn hold source hsource)
    · exact h.terminal ((hbegun p hp).2 source hsource)
  · intro runId e he
    rw [hsame] at he
    obtain ⟨run, hrun, hid⟩ := hs.known runId e he
    exact ⟨run, (mem_grown_runs h).mpr (.inl hrun), hid⟩
  · intro runId e he
    rw [hsame] at he
    exact (hs.counted runId e he).grown h
  · intro runId
    by_cases hknown : ∃ run ∈ s.runs, run.id = runId
    · rw [lineage_grown h hs hknown fun run _ => hsame run]
      exact hs.distinct runId
    · have hnew : ∀ run ∈ s.runs, run.id ≠ runId := fun run hrun hid => hknown ⟨run, hrun, hid⟩
      by_cases hbegin : ∃ p, begun = some p ∧ p.2.id = runId
      · obtain ⟨⟨turn, run⟩, rfl, rfl⟩ := hbegin
        obtain ⟨hne, hsource⟩ := hbegun _ rfl
        rw [lineage_new h hs hne hsource (by rw [hsame, hs.children_of_not_known hnew])
          fun run _ => hsame run]
        exact hs.distinct _
      · have hnone : ∀ run ∈ t.runs, run.id ≠ runId := by
          intro run hrun hid
          rcases (mem_grown_runs h).mp hrun with hold | ⟨p, hp, rfl⟩
          · exact hnew run hold hid
          · exact hbegin ⟨p, hp, hid⟩
        rw [lineage_of_not_known hnone]
        exact List.nodup_nil
  · intro e he hkind
    rw [h.events] at he
    rcases List.mem_append.mp he with he | he
    · exact hs.called e he hkind
    · have hordinary := hrows e he
      simp only [isOrdinary, decide_eq_true_eq] at hordinary
      exact hordinary.2 hkind

/-- A run that has begun. -/
theorem executed_new {run : Run} (hrun : run ∈ t.runs) (hne : run.id ≠ "")
    (hlive : t.runIsTerminal run.id = false) (hnone : children t run.id = []) :
    Executed digest t { runId := run.id } where
  named := hne
  known := ⟨run, hrun, rfl⟩
  live := hlive
  limit := Nat.zero_le 4
  spent := by
    rw [hnone]
    exact Nat.le_refl 0
  roles := fun _ hmem => nomatch hmem
  waiting := fun _ hmem => nomatch hmem
  distinct := List.nodup_nil
  called := fun _ _ hphase => nomatch hphase

/-! ## The admission of a worker -/

/-- The workers of a chain after one more of its runs. -/
theorem lineage_child (hs : Delegated digest s) (hx : Executed digest s x)
    (h : Grown s t rows begun) {child : Child} {callId : Json} {e : Event}
    (ha : Admits x.runId child callId rows e) :
    (lineage t x.runId).Perm (e :: lineage s x.runId) := by
  obtain ⟨rest, hchain, hnot⟩ := hx.chain hs
  have hsame : ∀ run ∈ rest, children t run = children s run := by
    intro run hrun
    have hne : run ≠ x.runId := fun heq => hnot (heq ▸ hrun)
    rw [children_grown h, ha.only, if_neg hne, List.append_nil]
  rw [lineage, h.chain hs.log hs.sourced (.inr hx.known), lineage, hchain, List.flatMap_cons,
    List.flatMap_cons, children_grown h, ha.only, if_pos rfl, List.flatMap_congr hsame,
    List.append_assoc]
  exact List.perm_middle

/-- A run that continues none, and has no worker, has none in its chain. -/
theorem lineage_none {turn : Turn} {run : Run} {runId : String}
    (h : Grown s t rows (some (turn, run))) (hs : Delegated digest s)
    (hnew : ∀ old ∈ s.runs, old.id ≠ runId) (hc : turn.continuationOf = none)
    (hnone : children t runId = []) : lineage t runId = [] := by
  by_cases hid : run.id = runId
  · subst hid
    by_cases hempty : run.id = ""
    · rw [lineage, chain_seen (.inl hempty)]
      rfl
    · have hend : s.chain [] (turn.continuationOf.getD "") = [] := by
        rw [hc]
        exact chain_seen (.inl rfl)
      rw [lineage_new h hs hempty (fun source hsource => ?_) hnone (fun r hr => ?_), lineage, hend]
      · rfl
      · rw [hc] at hsource
        cases hsource
      · rw [hend] at hr
        cases hr
  · apply lineage_of_not_known
    intro old hold heq
    rcases (mem_grown_runs h).mp hold with hold | ⟨p, hp, rfl⟩
    · exact hnew old hold heq
    · obtain rfl := Option.some.inj hp
      exact hid heq

theorem Delegated.child (hs : Delegated digest s) (hx : Executed digest s x) {turn : Turn}
    {run : Run} (h : Grown s t rows (some (turn, run))) (hlog : t.LogInvariant)
    (hc : turn.continuationOf = none) {child : Child} {callId : Json} {e : Event}
    (ha : Admits x.runId child callId rows e)
    (hfew : (children s x.runId).length < 4)
    (hfresh : some child.signature ∉ (lineage s x.runId).map fingerprint)
    (hworker : IsWorker digest t x.runId e) : Delegated digest t := by
  have hother {runId : String} (hne : runId ≠ x.runId) : children t runId = children s runId := by
    rw [children_grown h, ha.only, if_neg hne, List.append_nil]
  have hown : children t x.runId = children s x.runId ++ [e] := by
    rw [children_grown h, ha.only, if_pos rfl]
  refine ⟨hlog, ?_, ?_, ?_, ?_, ?_, ?_⟩
  · intro turn' hturn source hsource
    rcases (mem_grown_turns h).mp hturn with hold | ⟨p, hp, rfl⟩
    · exact h.terminal (hs.ended turn' hold source hsource)
    · obtain rfl := Option.some.inj hp
      rw [hc] at hsource
      cases hsource
  · intro runId e' he
    by_cases hrun : runId = x.runId
    · subst hrun
      obtain ⟨old, hold, hid⟩ := hx.known
      exact ⟨old, (mem_grown_runs h).mpr (.inl hold), hid⟩
    · rw [hother hrun] at he
      obtain ⟨old, hold, hid⟩ := hs.known runId e' he
      exact ⟨old, (mem_grown_runs h).mpr (.inl hold), hid⟩
  · intro runId e' he
    by_cases hrun : runId = x.runId
    · subst hrun
      rw [hown] at he
      rcases List.mem_append.mp he with he | he
      · exact (hs.counted _ e' he).grown h
      · obtain rfl := List.mem_singleton.mp he
        exact hworker
    · rw [hother hrun] at he
      exact (hs.counted runId e' he).grown h
  · intro runId
    by_cases hrun : runId = x.runId
    · subst hrun
      rw [hown, List.length_append]
      exact hfew
    · rw [hother hrun]
      exact hs.bounded runId
  · intro runId
    by_cases hrun : runId = x.runId
    · subst hrun
      rw [((lineage_child hs hx h ha).map fingerprint).nodup_iff, List.map_cons, List.nodup_cons,
        ha.fingerprint]
      exact ⟨hfresh, hs.distinct _⟩
    · by_cases hknown : ∃ old ∈ s.runs, old.id = runId
      · have hsame : ∀ r ∈ s.chain [] runId, children t r = children s r := by
          intro r hr
          exact hother fun heq => hs.not_mem_chain hx hrun (heq ▸ hr)
        rw [lineage_grown h hs hknown hsame]
        exact hs.distinct runId
      · have hnew : ∀ old ∈ s.runs, old.id ≠ runId := fun old hold hid => hknown ⟨old, hold, hid⟩
        rw [lineage_none h hs hnew hc (by rw [hother hrun, hs.children_of_not_known hnew])]
        exact List.nodup_nil
  · intro e' he hkind
    rw [h.events] at he
    rcases List.mem_append.mp he with he | he
    · exact hs.called e' he hkind
    · exact absurd hkind (ha.quiet e' he).2

/-! ## The steps -/

theorem ids_update (h : Host) (y : Execution) :
    (h.update y).executing.map (·.runId) = h.executing.map (·.runId) := by
  rw [Host.update, List.map_map]
  apply List.map_congr_left
  intro z _
  dsimp only [Function.comp]
  split
  · exact (by assumption : z.runId = y.runId).symm
  · rfl

theorem mem_update {h : Host} {y z : Execution} (hz : z ∈ (h.update y).executing) :
    z = y ∨ z ∈ h.executing ∧ z.runId ≠ y.runId := by
  obtain ⟨old, hold, rfl⟩ := List.mem_map.mp hz
  split
  · exact .inl rfl
  · exact .inr ⟨hold, by assumption⟩

theorem Invariant.update {h : Host} (hi : Invariant digest h) {y : Execution}
    (hy : Executed digest h.store y) : Invariant digest (h.update y) where
  store := hi.store
  ids := (ids_update h y).symm ▸ hi.ids
  executed := by
    intro z hz
    rcases mem_update hz with rfl | ⟨hold, -⟩
    · exact hy
    · exact hi.executed z hold

theorem runIsTerminal_grown (h : Grown s t rows begun) {runId : String}
    (hopen : ∀ e ∈ rows, e.type.isTerminal = false) (hlive : s.runIsTerminal runId = false) :
    t.runIsTerminal runId = false := by
  have hnone := Option.isSome_eq_false_iff.mp hlive
  have hrows : rows.find? (fun e => e.runId = some runId ∧ e.type.isTerminal) = none := by
    apply List.find?_eq_none.mpr
    intro e he
    simp [hopen e he]
  rw [runIsTerminal, terminalOf, h.events, List.find?_append, ← terminalOf,
    Option.isNone_iff_eq_none.mp hnone, hrows]
  rfl

/-- The run that a call begins is the one that it creates. -/
theorem started_cases {call : StoreCall} {result : Except PyError Returned}
    (hcreates : ∀ p, begun = some p → call.creates = some (p.2.id, p.1.continuationOf))
    (hbegun : ∀ c returned, call.creates = some c → result = .ok returned → begun.isSome = true) :
    Host.started call result = [] ∨
      ∃ p, begun = some p ∧ Host.started call result = [{ runId := p.2.id }] := by
  unfold Host.started
  split
  · rename_i c returned hc
    obtain ⟨p, hp⟩ := Option.isSome_iff_exists.mp (hbegun c returned hc rfl)
    refine .inr ⟨p, hp, ?_⟩
    obtain rfl := Option.some.inj (hc.symm.trans (hcreates p hp))
    rfl
  · exact .inl rfl

theorem Invariant.perform {h : Host} (hi : Invariant digest h) (env : Env) (call : StoreCall) :
    Invariant digest (h.perform env call) := by
  obtain ⟨rows, begun, hgrown, hcreates, hbegun⟩ := StoreCall.perform_leaves h.store env call
  have hlog := hi.store.log.effect (StoreCall.perform_effect env (call.writes_any h.store))
  rw [Host.perform]
  split
  · rename_i hpermitted
    obtain ⟨hnew, hrows⟩ := hpermitted
    rw [hgrown.events, List.drop_left, List.all_eq_true] at hrows
    have hsource : ∀ p, begun = some p → p.2.id ≠ "" ∧ ∀ source,
        p.1.continuationOf = some source → h.store.runIsTerminal source = true := by
      intro p hp
      rw [hcreates p hp, Option.all_some, decide_eq_true_eq] at hnew
      refine ⟨hnew.1, fun source hsource => ?_⟩
      rw [hsource] at hnew
      exact hnew.2
    have ht := hi.store.ordinary hgrown hlog hrows hsource
    have hsame (runId : String) :
        children (call.perform h.store env).2 runId = children h.store runId := by
      rw [children_grown hgrown, childRows_ordinary hrows, List.append_nil]
    have hlist := started_cases hcreates hbegun
    generalize Host.started call (call.perform h.store env).1 = started at hlist ⊢
    refine ⟨ht, ?_, fun z hz => ?_⟩
    · refine List.Nodup.sublist (List.filter_sublist.map _) ?_
      rcases hlist with rfl | ⟨p, hp, rfl⟩
      · rw [List.append_nil]
        exact hi.ids
      · rw [List.map_append, List.map_singleton, List.nodup_append_comm, List.singleton_append,
          List.nodup_cons]
        refine ⟨fun hmem => ?_, hi.ids⟩
        obtain ⟨x, hx, hid⟩ := List.mem_map.mp hmem
        obtain ⟨run, hrun, hknown⟩ := (hi.executed x hx).known
        exact (hgrown.fresh p hp).2.1 run hrun (hknown.trans hid)
    · obtain ⟨hz, hlive⟩ := List.mem_filter.mp hz
      have hlive' : (call.perform h.store env).2.runIsTerminal z.runId = false := by
        simpa using hlive
      rcases List.mem_append.mp hz with hz | hz
      · have hx := hi.executed z hz
        exact hx.grown hgrown hlive' (hsame _)
          (lineage_grown hgrown hi.store hx.known fun run _ => hsame run)
      · rcases hlist with rfl | ⟨p, hp, rfl⟩
        · cases hz
        · obtain rfl := List.mem_singleton.mp hz
          refine executed_new ((mem_grown_runs hgrown).mpr (.inr ⟨p, hp, rfl⟩)) (hsource p hp).1
            hlive' ?_
          rw [hsame, hi.store.children_of_not_known (hgrown.fresh p hp).2.1]
  · exact hi

/-- A phase with nothing in it. -/
theorem Executed.park (hx : Executed digest s x) : Executed digest s { x with phase := .idle } where
  named := hx.named
  known := hx.known
  live := hx.live
  limit := by
    have hle := hx.limit
    exact Nat.le_trans (Nat.le_add_right _ _) hle
  spent := by
    have hle := hx.spent
    exact Nat.le_trans (Nat.le_add_right _ _) hle
  roles := fun _ hmem => nomatch hmem
  waiting := fun _ hmem => nomatch hmem
  distinct := List.nodup_nil
  called := fun _ _ hphase => nomatch hphase

theorem validateTask_spec {task : Json} {goal : WorkerTask} (h : validateTask task = .ok goal) :
    goal.role ∈ workerRoles := by
  unfold validateTask at h
  split at h
  · obtain ⟨role, hrole, h⟩ := bind_eq_ok.mp h
    obtain ⟨text, -, h⟩ := bind_eq_ok.mp h
    obtain rfl := Except.ok.inj h
    unfold validateRole at hrole
    split at hrole
    · split at hrole
      · obtain rfl := Except.ok.inj hrole
        assumption
      · cases hrole
    · cases hrole
  · cases h

theorem validateTasks_spec {tasks : Json} {goals : List WorkerTask}
    (h : validateTasks tasks = .ok goals) : ∀ goal ∈ goals, goal.role ∈ workerRoles := by
  unfold validateTasks at h
  split at h
  · split at h
    · intro goal hgoal
      obtain ⟨task, -, htask⟩ := mem_of_mapM h hgoal
      exact validateTask_spec htask
    · cases h
  · cases h

theorem Executed.begin (hx : Executed digest s x) {tasks : Json} {tokenLimit used : ℤ}
    {goals : List WorkerTask}
    (h : beginBatch x tasks tokenLimit used = .ok goals) :
    Executed digest s { x with phase := .copying goals } := by
  obtain ⟨checked, htasks, h⟩ := bind_eq_ok.mp h
  obtain ⟨_, hlimit, h⟩ := bind_eq_ok.mp h
  obtain ⟨_, -, h⟩ := bind_eq_ok.mp h
  obtain rfl := Except.ok.inj h
  have hspent := hx.spent
  exact {
    named := hx.named
    known := hx.known
    live := hx.live
    limit := Nat.not_lt.mp (raiseIf_eq_ok.mp hlimit)
    spent := Nat.le_trans (Nat.le_add_right _ _) hspent
    roles := validateTasks_spec htasks
    waiting := fun _ hmem => nomatch hmem
    distinct := List.nodup_nil
    called := fun _ _ hphase => nomatch hphase }

/-- A batch that is accepted repeats no worker of the chain. -/
theorem fresh_of_accepted (hs : Delegated digest s) {runId : String} (hne : runId ≠ "")
    {goals : List WorkerTask} {snapshots : List SourceSnapshot} {waiting : List Child}
    {prepared : Json}
    (h : Accepted digest s runId goals snapshots waiting prepared) {child : Child}
    (hchild : child ∈ waiting) : some child.signature ∉ (lineage s runId).map fingerprint := by
  intro hmem
  obtain ⟨e, he, hsignature⟩ := List.mem_map.mp hmem
  obtain ⟨run, hrun, he⟩ := List.mem_flatMap.mp he
  obtain ⟨task, snapshotId, -, -, hcounts⟩ := hs.counted run e he
  obtain ⟨history, hhistory, hnew⟩ := h.fresh
  have heq : delegationFingerprint digest task snapshotId = child.signature :=
    Option.some.inj (hcounts.fingerprint.symm.trans hsignature)
  apply hnew child hchild
  rw [← heq]
  exact delegationHistory_spec hne hhistory hrun (isChild_of_mem he) hcounts

theorem mem_signed {goals : List WorkerTask}
    {snapshots : List SourceSnapshot} {child : Child} (h : child ∈ signed digest goals snapshots) :
    child.task ∈ goals ∧
      child.signature = delegationFingerprint digest child.task child.snapshot.identity := by
  induction goals generalizing snapshots with
  | nil => cases h
  | cons goal goals ih =>
    cases snapshots with
    | nil => cases h
    | cons snapshot snapshots =>
      rcases List.mem_cons.mp h with rfl | h
      · exact ⟨List.mem_cons_self, rfl⟩
      · obtain ⟨htask, hsigned⟩ := ih h
        exact ⟨List.mem_cons_of_mem _ htask, hsigned⟩

theorem Executed.dispatch (hs : Delegated digest s) (hx : Executed digest s x)
    {goals : List WorkerTask} {snapshots : List SourceSnapshot} {waiting : List Child}
    {prepared : Json} (hphase : x.phase = .copying goals)
    (h : Accepted digest s x.runId goals snapshots waiting prepared) :
    Executed digest s { x with
      delegated := x.delegated + goals.length, phase := .starting waiting prepared } := by
  have hlimit := hx.limit
  have hspent := hx.spent
  have hroles := hx.roles
  rw [hphase] at hlimit hspent hroles
  exact {
    named := hx.named
    known := hx.known
    live := hx.live
    limit := hlimit
    spent := by
      change (children s x.runId).length + waiting.length ≤ x.delegated + goals.length
      rw [h.length]
      exact Nat.add_le_add_right hspent _
    roles := fun _ hmem => nomatch hmem
    waiting := by
      intro child hchild
      have hsigned := mem_signed (h.signed ▸ hchild)
      exact ⟨hroles _ hsigned.1, hsigned.2, fresh_of_accepted hs hx.named h hchild⟩
    distinct := h.distinct
    called := by
      intro waiting' prepared' heq
      obtain ⟨-, rfl⟩ := Phase.starting.inj heq
      exact h.called }

/-- The admission of a worker that waits counts. -/
theorem Executed.worker (hs : Delegated digest s) (hx : Executed digest s x)
    (h : Grown s t rows begun) {child : Child} {more : List Child} {prepared callId : Json}
    {e : Event} (hphase : x.phase = .starting (child :: more) prepared)
    (hcall : prepared.get? "call_id" = some callId) (ha : Admits x.runId child callId rows e) :
    IsWorker digest t x.runId e := by
  obtain ⟨event, hevent, hkind, rfl⟩ := hx.called _ _ hphase
  have hwaiting := hx.waiting
  rw [hphase] at hwaiting
  obtain ⟨hrole, hsigned, -⟩ := hwaiting child List.mem_cons_self
  have htype : event.type = .toolPrepared := by
    simp only [isDelegateCall, decide_eq_true_eq] at hkind
    exact hkind.1
  obtain ⟨name, hname⟩ := Option.isSome_iff_exists.mp
    (hs.called event (List.mem_of_mem_filter hevent) htype)
  rw [hcall, Option.bind_some] at hname
  refine ⟨child.task, child.snapshot.identity, ha.role, ha.snapshot, name, ?_⟩
  have hfingerprint := ha.fingerprint
  rw [hsigned] at hfingerprint
  refine recognized_eq_some.mpr ⟨hfingerprint, ha.call.trans hname, ⟨_, ha.role, hrole⟩,
    ⟨_, ha.snapshot⟩, HexDigest.length_eq _, ?_⟩
  refine List.mem_filterMap.mpr ⟨event, List.mem_filter.mpr ⟨runEvents_grown h hevent, hkind⟩, ?_⟩
  rw [hcall, Option.bind_some, hname]

/-- The run goes on with the workers that are left. -/
theorem Executed.started (hs : Delegated digest s) (hx : Executed digest s x)
    (h : Grown s t rows begun) {child : Child} {more : List Child} {prepared callId : Json}
    {e : Event}
    (hphase : x.phase = .starting (child :: more) prepared)
    (ha : Admits x.runId child callId rows e) :
    Executed digest t { x with phase := .starting more prepared } := by
  have hlimit := hx.limit
  have hspent := hx.spent
  have hwaiting := hx.waiting
  have hdistinct := hx.distinct
  have hcalled := hx.called
  rw [hphase] at hlimit hspent hwaiting hdistinct
  obtain ⟨hnot, hdistinct⟩ := List.nodup_cons.mp hdistinct
  exact {
    named := hx.named
    known := by
      obtain ⟨run, hrun, hid⟩ := hx.known
      exact ⟨run, (mem_grown_runs h).mpr (.inl hrun), hid⟩
    live := runIsTerminal_grown h (fun row hrow => (ha.quiet row hrow).1) hx.live
    limit := hlimit
    spent := by
      change (children t x.runId).length + more.length ≤ x.delegated
      have hle : (children s x.runId).length + (more.length + 1) ≤ x.delegated := hspent
      rw [children_grown h, ha.only, if_pos rfl, List.length_append, List.length_singleton]
      omega
    roles := fun _ hmem => nomatch hmem
    waiting := by
      intro other hother
      obtain ⟨hrole, hlength, hfresh⟩ := hwaiting other (List.mem_cons_of_mem _ hother)
      refine ⟨hrole, hlength, fun hmem => ?_⟩
      rw [((lineage_child hs hx h ha).map fingerprint).mem_iff, List.map_cons,
        ha.fingerprint] at hmem
      rcases List.mem_cons.mp hmem with heq | hmem
      · exact hnot (List.mem_map.mpr ⟨other, hother, Option.some.inj heq⟩)
      · exact hfresh hmem
    distinct := hdistinct
    called := by
      intro waiting' prepared' heq
      obtain ⟨-, rfl⟩ := Phase.starting.inj heq
      obtain ⟨event, hevent, hcall⟩ := hcalled _ _ hphase
      exact ⟨event, runEvents_grown h hevent, hcall⟩ }

/-- The other runs go on. -/
theorem Executed.beside (hs : Delegated digest s) (hx : Executed digest s x) {z : Execution}
    (hz : Executed digest s z) (hne : z.runId ≠ x.runId) (h : Grown s t rows begun)
    {child : Child} {callId : Json} {e : Event} (ha : Admits x.runId child callId rows e) : Executed digest t z := by
  have hother {runId : String} (hne : runId ≠ x.runId) : children t runId = children s runId := by
    rw [children_grown h, ha.only, if_neg hne, List.append_nil]
  refine hz.grown h (runIsTerminal_grown h (fun row hrow => (ha.quiet row hrow).1) hz.live)
    (hother hne) (lineage_grown h hs hz.known fun run hrun => hother fun heq => ?_)
  exact hs.not_mem_chain hx hne (heq ▸ hrun)

theorem Invariant.sameLog {h : Host} (hi : Invariant digest h) (hsame : SameLog h.store t) :
    Invariant digest { h with store := t } := by
  have hgrown := hsame.grown
  have hlog : t.LogInvariant :=
    hi.store.log.effect (P := ⟨fun _ _ => True, fun _ => True⟩) hsame.effect
  have hchildren (runId : String) : children t runId = children h.store runId := by
    rw [children_grown hgrown]
    exact List.append_nil _
  have hstore := hi.store.ordinary hgrown hlog (fun _ hmem => nomatch hmem)
    fun _ hbegun => nomatch hbegun
  refine ⟨hstore, hi.ids, fun z hz => ?_⟩
  have hx := hi.executed z hz
  have hlive := runIsTerminal_grown hgrown (fun _ hmem => nomatch hmem) hx.live
  exact hx.grown hgrown hlive (hchildren _)
    (lineage_grown hgrown hi.store hx.known fun run _ => hchildren run)

/-- One more worker of a run that is executed. -/
theorem Invariant.start {h : Host} (hi : Invariant digest h) (hx : x ∈ h.executing) {turn : Turn}
    {run : Run} (hgrown : Grown h.store t rows (some (turn, run))) (hlog : t.LogInvariant)
    (hc : turn.continuationOf = none) {child : Child} {more : List Child}
    {prepared callId : Json} {e : Event} (hphase : x.phase = .starting (child :: more) prepared)
    (hcall : prepared.get? "call_id" = some callId) (ha : Admits x.runId child callId rows e) :
    Invariant digest
      ({ h with store := t }.update { x with phase := .starting more prepared }) := by
  have he := hi.executed x hx
  have hspent := he.spent
  have hlimit := he.limit
  have hwaiting := he.waiting
  rw [hphase] at hspent hlimit hwaiting
  have hfew : (children h.store x.runId).length < 4 := by
    have hle : (children h.store x.runId).length + (more.length + 1) ≤ x.delegated := hspent
    have hle' : x.delegated + 0 ≤ 4 := hlimit
    omega
  refine ⟨?_, ?_, fun z hz => ?_⟩
  · exact hi.store.child he hgrown hlog hc ha hfew (hwaiting child List.mem_cons_self).2.2
      (he.worker hi.store hgrown hphase hcall ha)
  · rw [ids_update]
    exact hi.ids
  · rcases mem_update hz with rfl | ⟨hold, hne⟩
    · exact he.started hi.store hgrown hphase ha
    · exact he.beside hi.store (hi.executed z hold) hne hgrown ha

theorem Invariant.advance {h : Host} (hi : Invariant digest h) (semantic : Json → Json)
    (hx : x ∈ h.executing) (move : Move) : Invariant digest (h.advance digest semantic x move) := by
  have he := hi.executed x hx
  cases move with
  | delegate tasks tokenLimit used =>
    rw [Host.advance]
    split
    · exact hi.update (he.begin (by assumption))
    · exact hi
  | dispatch snapshots =>
    rw [Host.advance]
    split
    · split
      · exact hi.update (he.dispatch hi.store (by assumption) (checkBatch_accepted (by assumption)))
      · exact hi.update he.park
    · exact hi
  | start env intent place =>
    rw [Host.advance]
    split
    · rename_i child more prepared hphase
      rcases admitChild_cases semantic h.store env x.runId intent place child prepared with
        ⟨error, t, hresult, hsame⟩ |
        ⟨turnId, t, turn, run, rows, callId, e, hresult, hgrown, hc, hlog, hcall, ha⟩
      · rw [hresult]
        have ht := hi.sameLog hsame
        exact ht.update (ht.executed x hx).park
      · rw [hresult]
        exact hi.start hx hgrown (hlog hi.store.log) hc hphase hcall ha
    · exact hi
  | stop => exact hi.update he.park

theorem Invariant.act {h : Host} (hi : Invariant digest h) (semantic : Json → Json)
    (action : Action) : Invariant digest (h.act digest semantic action) := by
  cases action with
  | other env call => exact hi.perform env call
  | crash => exact ⟨hi.store, List.nodup_nil, fun _ hmem => nomatch hmem⟩
  | move runId move =>
    rw [Host.act]
    cases hfind : h.find? runId with
    | none => exact hi
    | some x => exact hi.advance semantic (List.mem_of_find?_eq_some hfind) move

theorem invariant_start (stateRoot : String) : Invariant digest { store := { stateRoot } } where
  store := {
    log := .empty stateRoot
    ended := fun _ hmem => nomatch hmem
    known := fun _ _ hmem => nomatch hmem
    counted := fun _ _ hmem => nomatch hmem
    bounded := fun _ => Nat.zero_le 4
    distinct := fun runId => by
      have hnone : lineage { stateRoot } runId = [] :=
        lineage_of_not_known fun _ hmem => nomatch hmem
      rw [hnone]
      exact List.nodup_nil
    called := fun _ hmem => nomatch hmem }
  ids := List.nodup_nil
  executed := fun _ hmem => nomatch hmem

theorem invariant_after (digest : Json → HexDigest) (semantic : Json → Json) (stateRoot : String)
    (actions : List Action) : Invariant digest (Host.after digest semantic stateRoot actions) :=
  runCalls_invariant (fun _ action hi => hi.act semantic action) (invariant_start stateRoot) actions

/-! ## The result -/

/-- A batch has a task twice, or one that a worker of the chain has on the same source. -/
def Repeats (digest : Json → HexDigest) (s : RuntimeStore) (runId : String)
    (goals : List WorkerTask) (snapshots : List SourceSnapshot) : Prop :=
  ¬ ((signed digest goals snapshots).map (·.signature)).Nodup ∨
    ∃ child ∈ signed digest goals snapshots, ∃ e ∈ lineage s runId,
      fingerprint e = some child.signature

/-- What a Host promises of the workers of its runs. -/
structure Guarantee (digest : Json → HexDigest) (semantic : Json → Json) (h : Host) : Prop where
  workers : ∀ runId, ∀ e ∈ children h.store runId, IsWorker digest h.store runId e
  distinct : ∀ runId, ((lineage h.store runId).map fingerprint).Nodup
  bounded : ∀ runId, (children h.store runId).length ≤ 4
  refused : ∀ x ∈ h.executing, ∀ goals snapshots, x.phase = .copying goals →
    Repeats digest h.store x.runId goals snapshots →
    h.act digest semantic (.move x.runId (.dispatch snapshots)) = h.update { x with phase := .idle }

theorem Invariant.find? {h : Host} (hi : Invariant digest h) (hx : x ∈ h.executing) :
    h.find? x.runId = some x := by
  obtain ⟨found, hfound⟩ : ∃ found, h.find? x.runId = some found := by
    apply Option.isSome_iff_exists.mp
    exact List.find?_isSome.mpr ⟨x, hx, by simp⟩
  have hmem := List.mem_of_find?_eq_some hfound
  have hid : found.runId = x.runId := by simpa using List.find?_some hfound
  rw [hfound, List.inj_on_of_nodup_map hi.ids hmem hx hid]

theorem not_accepted (hs : Delegated digest s) {runId : String} (hne : runId ≠ "")
    {goals : List WorkerTask} {snapshots : List SourceSnapshot}
    (h : Repeats digest s runId goals snapshots) (waiting : List Child) (prepared : Json) :
    checkBatch digest s runId goals snapshots ≠ .ok (.accepted waiting prepared) := by
  intro hok
  have ha := checkBatch_accepted hok
  rcases h with hnodup | ⟨child, hchild, e, he, hsame⟩
  · exact hnodup (ha.signed ▸ ha.distinct)
  · have hwaits : child ∈ waiting := ha.signed ▸ hchild
    exact fresh_of_accepted hs hne ha hwaits (List.mem_map.mpr ⟨e, he, hsame⟩)

/-- Whatever the Host does, and wherever it stops, its workers are delegated once. -/
theorem delegation_unique (digest : Json → HexDigest) (semantic : Json → Json) (stateRoot : String)
    (actions : List Action) :
    Guarantee digest semantic (Host.after digest semantic stateRoot actions) := by
  have hi := invariant_after digest semantic stateRoot actions
  refine ⟨hi.store.counted, hi.store.distinct, hi.store.bounded, ?_⟩
  intro x hx goals snapshots hphase hr
  rw [Host.act, hi.find? hx, Option.elim_some, Host.advance, hphase]
  dsimp only
  split
  · rename_i waiting prepared hok
    exact absurd hok (not_accepted hi.store (hi.executed x hx).named hr waiting prepared)
  · rfl

end Delegation

end Eventide
