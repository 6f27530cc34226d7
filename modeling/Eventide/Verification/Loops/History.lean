import Eventide.Verification.Loops.Candidate
import Eventide.Verification.Loops.Logs

/-! # The cut of a history

`_history` stops at the run in which three outcomes are complete. In the logs of the Host nothing
before that run has a part in the verdict. -/

namespace Eventide

open Interaction RuntimeStore
open AgentLoop (RunConfig HostConfig runTask)

namespace ToolLoops

variable {s : RuntimeStore}

/-! ## Chains -/

/-- The events of some runs, the latest of which is first. -/
def eventsOf (s : RuntimeStore) (runs : List String) : List Event :=
  (runs.map s.runEvents).reverse.flatten

/-- The full history of a chain. -/
def chainHistory (s : RuntimeStore) (runId : String) : List Event := eventsOf s (chain s [] runId)

theorem eventsOf_append (runs older : List String) :
    eventsOf s (runs ++ older) = eventsOf s older ++ eventsOf s runs := by
  rw [eventsOf, List.map_append, List.reverse_append, List.flatten_append, eventsOf, eventsOf]

theorem eventsOf_cons (runId : String) (runs : List String) :
    eventsOf s (runId :: runs) = eventsOf s runs ++ s.runEvents runId := by
  rw [← List.singleton_append, eventsOf_append]
  simp [eventsOf]

/-- A run before the end of a chain continues another. -/
theorem chain_continues {seen runs older : List String} {runId : String}
    (h : chain s seen runId = runs ++ older) (holder : older ≠ []) :
    ∀ run ∈ runs, ∃ identity, s.getRunIdentity run = some identity ∧ identity.2.getD "" ≠ "" := by
  induction seen, runId using chain.induct s generalizing runs with
  | case1 seen runId hseen =>
    rw [chain_seen hseen] at h
    exact absurd (List.append_eq_nil_iff.mp h.symm).2 holder
  | case2 seen runId hseen hrun =>
    rw [chain_missing hseen hrun] at h
    exact absurd (List.append_eq_nil_iff.mp h.symm).2 holder
  | case3 seen runId hseen identity hrun ih =>
    rw [chain_step hseen hrun] at h
    cases runs with
    | nil => exact fun run hmem => absurd hmem List.not_mem_nil
    | cons first runs =>
      obtain ⟨rfl, hrest⟩ := List.cons.inj h
      refine List.forall_mem_cons.mpr ⟨⟨identity, hrun, fun hnone => ?_⟩, ih hrest⟩
      rw [hnone, chain_seen (.inl rfl)] at hrest
      exact holder (List.append_eq_nil_iff.mp hrest.symm).2

/-! ## The cut -/

theorem countP_eventsOf_cons (runId : String) (runs : List String) :
    (eventsOf s (runId :: runs)).countP isResult =
      (s.runEvents runId).countP isResult + (eventsOf s runs).countP isResult := by
  rw [eventsOf_cons, List.countP_append, Nat.add_comm]

/-- The loop takes the runs of a chain, all of them or enough for three outcomes. -/
theorem collect_some {seen : List String} {count : ℕ} {runId : String} {chunks : List (List Event)}
    (h : collect s seen count runId = some chunks) :
    ∃ runs older, chain s seen runId = runs ++ older ∧ chunks = runs.map s.runEvents ∧
      (older = [] ∨ failureWindow ≤ count + (eventsOf s runs).countP isResult) := by
  induction seen, count, runId using collect.induct s generalizing chunks with
  | case1 seen count runId hseen =>
    rw [collect, dif_pos hseen] at h
    obtain rfl := Option.some.inj h
    exact ⟨[], [], chain_seen hseen, rfl, .inl rfl⟩
  | case2 seen count runId hseen hrun =>
    rw [collect, dif_neg hseen] at h
    split at h
    · cases h
    · rename_i hsome
      rw [hrun] at hsome
      cases hsome
  | case3 seen count runId hseen identity hrun events =>
    rename_i hcount
    rw [collect, dif_neg hseen] at h
    split at h
    · cases h
    · dsimp only at h
      rw [if_pos hcount] at h
      obtain rfl := Option.some.inj h
      refine ⟨[runId], _, chain_step hseen hrun, rfl, .inr ?_⟩
      simpa [eventsOf] using hcount
  | case4 seen count runId hseen identity hrun events hcount =>
    rename_i ih
    rw [collect, dif_neg hseen] at h
    split at h
    · cases h
    · rename_i other hsome
      obtain rfl : identity = other := Option.some.inj (hrun.symm.trans hsome)
      dsimp only at h
      rw [if_neg hcount] at h
      obtain ⟨rest, hrest, rfl⟩ := Option.map_eq_some_iff.mp h
      obtain ⟨runs, older, hchain, rfl, hdone⟩ := ih hrest
      refine ⟨runId :: runs, older, ?_, rfl, hdone.imp_right fun hle => ?_⟩
      · rw [chain_step hseen hrun, hchain]
        rfl
      · rw [countP_eventsOf_cons, ← Nat.add_assoc]
        exact hle

/-- Where a run is missing, there are fewer than three outcomes. -/
theorem collect_none {seen : List String} {count : ℕ} {runId : String}
    (hcount : count < failureWindow) (h : collect s seen count runId = none) :
    count + (eventsOf s (chain s seen runId)).countP isResult < failureWindow := by
  induction seen, count, runId using collect.induct s with
  | case1 seen count runId hseen =>
    rw [collect, dif_pos hseen] at h
    cases h
  | case2 seen count runId hseen hrun =>
    rw [chain_missing hseen hrun]
    exact hcount
  | case3 seen count runId hseen identity hrun events =>
    rename_i hle
    rw [collect, dif_neg hseen] at h
    split at h
    · rename_i hnone
      rw [hrun] at hnone
      cases hnone
    · dsimp only at h
      rw [if_pos hle] at h
      cases h
  | case4 seen count runId hseen identity hrun events hle =>
    rename_i ih
    rw [collect, dif_neg hseen] at h
    split at h
    · rename_i hnone
      rw [hrun] at hnone
      cases hnone
    · rename_i other hsome
      obtain rfl : identity = other := Option.some.inj (hrun.symm.trans hsome)
      dsimp only at h
      rw [if_neg hle] at h
      rw [chain_step hseen hrun, countP_eventsOf_cons, ← Nat.add_assoc]
      exact ih (Nat.lt_of_not_le hle) (Option.map_eq_none_iff.mp h)

/-! ## Outcomes across a cut -/

theorem outcomes_append (before x y : List Event) :
    ∃ front, outcomes before (x ++ y) = front ++ outcomes (before ++ x) y := by
  induction x generalizing before with
  | nil => exact ⟨[], by rw [List.append_nil]; rfl⟩
  | cons event x ih =>
    obtain ⟨front, hfront⟩ := ih (before ++ [event])
    rw [List.append_assoc] at hfront
    rw [List.cons_append, outcomes]
    split
    · exact ⟨_ :: front, by rw [hfront]; rfl⟩
    · exact ⟨front, hfront⟩

theorem length_outcomes (before events : List Event) :
    (outcomes before events).length = events.countP isResult := by
  induction events generalizing before with
  | nil => rfl
  | cons event events ih =>
    rw [outcomes, List.countP_cons]
    split
    · rw [List.length_cons, ih]
    · rw [ih, Nat.add_zero]

/-- A checkpoint precedes every outcome. -/
def Fresh (events : List Event) : Prop :=
  ∀ before event after, events = before ++ event :: after → isResult event = true →
    ∃ checkpoint ∈ before, isCheckpoint checkpoint = true

theorem latest_append {older events : List Event}
    (h : ∃ checkpoint ∈ events, isCheckpoint checkpoint = true) :
    latest (older ++ events) = latest events := by
  obtain ⟨checkpoint, hmem, hcheck⟩ := h
  have hne : events.filter isCheckpoint ≠ [] :=
    List.ne_nil_of_mem (List.mem_filter.mpr ⟨hmem, hcheck⟩)
  rw [latest, List.filter_append, List.getLast?_append_of_ne_nil _ hne, latest]

/-- Outcomes after a checkpoint do not depend on what was before. -/
theorem outcomes_fresh {older before rest : List Event}
    (h : ∀ earlier event after, rest = earlier ++ event :: after → isResult event = true →
      ∃ checkpoint ∈ before ++ earlier, isCheckpoint checkpoint = true) :
    outcomes (older ++ before) rest = outcomes before rest := by
  induction rest generalizing before with
  | nil => rfl
  | cons event rest ih =>
    have hrest : outcomes (older ++ before ++ [event]) rest = outcomes (before ++ [event]) rest := by
      rw [List.append_assoc]
      apply ih
      intro earlier other after heq hr
      rw [List.append_assoc]
      exact h (event :: earlier) other after (by rw [heq]; rfl) hr
    rw [outcomes, outcomes]
    by_cases hr : isResult event = true
    · obtain ⟨checkpoint, hmem, hcheck⟩ := h [] event rest rfl hr
      rw [List.append_nil] at hmem
      rw [if_pos hr, if_pos hr, hrest, List.append_assoc, List.append_assoc, latest_append]
      · rw [List.append_assoc]
      · exact ⟨checkpoint, List.mem_append_left _ hmem, hcheck⟩
    · rw [if_neg hr, if_neg hr, hrest]

theorem rtake_append_of_le {α : Type} {n : ℕ} {a b : List α} (h : n ≤ b.length) :
    (a ++ b).rtake n = b.rtake n := by
  rw [List.rtake, List.rtake, List.length_append, List.drop_append,
    List.drop_eq_nil_of_le (by omega), List.nil_append]
  congr 1
  omega

/-- What is before enough outcomes that follow a checkpoint plays no part. -/
theorem window_cut {older events : List Event} (hfresh : Fresh events)
    (hcount : failureWindow ≤ events.countP isResult) :
    (outcomes [] (older ++ events)).rtake failureWindow =
      (outcomes [] events).rtake failureWindow := by
  obtain ⟨front, hfront⟩ := outcomes_append [] older events
  have hsame : outcomes ([] ++ older) events = outcomes [] events := by
    rw [List.nil_append]
    have h := @outcomes_fresh older [] events hfresh
    rwa [List.append_nil] at h
  rw [hfront, hsame, rtake_append_of_le (by rwa [length_outcomes])]

/-! ## Chains of separated runs -/

theorem lastCall_append {x y : List Event} {kind : EventType} (h : lastCall y = some kind) :
    lastCall (x ++ y) = some kind := by
  have hne : (y.filter fun e => isPrepared e || isResult e) ≠ [] := by
    intro hnil
    rw [lastCall, hnil] at h
    cases h
  rw [lastCall, List.filter_append, List.getLast?_append_of_ne_nil _ hne]
  exact h

theorem Separated.append {x y : List Event} (hx : Separated x) (hy : Separated y) :
    Separated (x ++ y) := by
  intro before event after heq hr
  rcases List.append_eq_append_iff.mp heq with ⟨rest, rfl, hrest⟩ | ⟨rest, rfl, hrest⟩
  · exact lastCall_append (hy rest event after hrest hr)
  · cases rest with
    | nil =>
      have hnone := hy [] event after hrest.symm hr
      cases hnone
    | cons first rest =>
      obtain ⟨rfl, -⟩ := List.cons.inj hrest
      exact hx before _ rest rfl hr

theorem Fresh.append {x y : List Event} (hx : Fresh x) (hy : Fresh y) : Fresh (x ++ y) := by
  intro before event after heq hr
  rcases List.append_eq_append_iff.mp heq with ⟨rest, rfl, hrest⟩ | ⟨rest, rfl, hrest⟩
  · obtain ⟨checkpoint, hmem, hcheck⟩ := hy rest event after hrest hr
    exact ⟨checkpoint, List.mem_append_right _ hmem, hcheck⟩
  · cases rest with
    | nil =>
      obtain ⟨_, hmem, -⟩ := hy [] event after hrest.symm hr
      cases hmem
    | cons first rest =>
      obtain ⟨rfl, -⟩ := List.cons.inj hrest
      exact hx before _ rest rfl hr

theorem eventsOf_separated {runs : List String} (h : ∀ run ∈ runs, Separated (s.runEvents run)) :
    Separated (eventsOf s runs) := by
  induction runs with
  | nil => exact fun before event after heq => by simp [eventsOf] at heq
  | cons run runs ih =>
    obtain ⟨hrun, hruns⟩ := List.forall_mem_cons.mp h
    rw [eventsOf_cons]
    exact (ih hruns).append hrun

theorem eventsOf_fresh {runs : List String} (h : ∀ run ∈ runs, Fresh (s.runEvents run)) :
    Fresh (eventsOf s runs) := by
  induction runs with
  | nil => exact fun before event after heq => by simp [eventsOf] at heq
  | cons run runs ih =>
    obtain ⟨hrun, hruns⟩ := List.forall_mem_cons.mp h
    rw [eventsOf_cons]
    exact (ih hruns).append hrun

/-! ## The logs of the Host -/

/-- The types that the loop tells apart. -/
def loopKinds : List EventType := .workspaceCheckpoint :: toolKinds

def relevant (event : Event) : Bool := event.type ∈ loopKinds && !event.isPartial

/-- The events of a run are these facts, but for those that the loop passes over. -/
def Records (s : RuntimeStore) (runId : String) (facts : List Fact) : Prop :=
  ((s.runEvents runId).filter relevant).map (fun e => (e.type, e.payload)) =
    (facts.filter fun fact => fact.type ∈ loopKinds).map fun fact => (fact.type, fact.payload)

/-- Every run has a log that the Host commits. -/
def Hosted (s : RuntimeStore) : Prop :=
  ∀ runId identity, s.getRunIdentity runId = some identity →
    ∃ facts, RunLog (decide (identity.2.getD "" ≠ "")) facts ∧ Records s runId facts

/-- The type of the last call among some types. -/
def lastKind (kinds : List EventType) : Option EventType :=
  (kinds.filter fun kind => kind ∈ toolKinds).getLast?

theorem lastCall_eq (events : List Event) :
    lastCall events = lastKind ((events.filter relevant).map (·.type)) := by
  have hsame : ((events.filter relevant).map (·.type)).filter (fun kind => kind ∈ toolKinds) =
      (events.filter fun e => isPrepared e || isResult e).map (·.type) := by
    rw [List.filter_map, List.filter_filter]
    congr 1
    apply List.filter_congr
    intro e _
    have hkinds (kind : EventType) : (decide (kind ∈ toolKinds) && decide (kind ∈ loopKinds)) =
        (decide (kind = .toolPrepared) || decide (kind ∈ results)) := by
      cases kind <;> rfl
    rw [relevant, isPrepared, isResult, Function.comp_apply, ← Bool.and_assoc, hkinds,
      Bool.and_or_distrib_right]
  rw [lastKind, hsame, List.getLast?_map, lastCall]

theorem lastTool_eq (facts : List Fact) : (lastTool facts).map (·.type) =
    lastKind ((facts.filter fun fact => fact.type ∈ loopKinds).map (·.type)) := by
  have hsame : ((facts.filter fun fact => fact.type ∈ loopKinds).map (·.type)).filter
      (fun kind => kind ∈ toolKinds) =
      (facts.filter fun fact => fact.type ∈ toolKinds).map (·.type) := by
    rw [List.filter_map, List.filter_filter]
    congr 1
    apply List.filter_congr
    intro fact _
    by_cases h : fact.type ∈ toolKinds
    · simp [h, loopKinds]
    · simp [h]
  rw [lastKind, hsame, List.getLast?_map, lastTool]

/-- Where an element stands that is not after the last. -/
theorem append_cons_eq_concat {α : Type} {before after init : List α} {a last : α}
    (h : before ++ a :: after = init ++ [last]) :
    (before = init ∧ a = last) ∨ ∃ rest, init = before ++ a :: rest := by
  rcases List.eq_nil_or_concat after with rfl | ⟨rest, other, rfl⟩
  · obtain ⟨hbefore, hlast⟩ := List.append_inj' h rfl
    exact .inl ⟨hbefore, (List.cons.inj hlast).1⟩
  · rw [List.concat_eq_append, ← List.cons_append, ← List.append_assoc] at h
    exact .inr ⟨rest, (List.append_inj' h rfl).1.symm⟩

theorem inTurn_split {before after : List Fact} {fact : Fact}
    (h : InTurn (before ++ fact :: after)) (hkind : fact.type ∈ outcomeKinds) :
    (lastTool before).map (·.type) = some .toolPrepared := by
  generalize hfacts : before ++ fact :: after = facts at h
  induction h generalizing after with
  | nil => simp at hfacts
  | other _ hnot ih =>
    rcases append_cons_eq_concat hfacts with ⟨-, rfl⟩ | ⟨rest, hrest⟩
    · exact absurd (List.mem_cons_of_mem _ hkind) hnot
    · exact ih hrest.symm
  | prepared _ hprepared _ ih =>
    rcases append_cons_eq_concat hfacts with ⟨-, rfl⟩ | ⟨rest, hrest⟩
    · rw [hprepared] at hkind
      exact absurd hkind (by decide)
    · exact ih hrest.symm
  | outcome _ _ hprepared ih =>
    rcases append_cons_eq_concat hfacts with ⟨rfl, rfl⟩ | ⟨rest, hrest⟩
    · obtain ⟨p, hlast, hp, -⟩ := hprepared
      rw [hlast, Option.map_some, hp]
    · exact ih hrest.symm

/-- An event that is relevant stands where its fact stands. -/
theorem Records.split {runId : String} {facts : List Fact} (h : Records s runId facts)
    {before after : List Event} {event : Event}
    (heq : s.runEvents runId = before ++ event :: after) (hrelevant : relevant event = true) :
    ∃ earlier fact later, facts = earlier ++ fact :: later ∧ fact.type = event.type ∧
      (before.filter relevant).map (·.type) =
        (earlier.filter fun fact => fact.type ∈ loopKinds).map (·.type) := by
  have hkinds := congrArg (List.map Prod.fst) h
  rw [List.map_map, List.map_map, heq, List.filter_append, List.filter_cons, if_pos hrelevant,
    List.map_append, List.map_cons] at hkinds
  obtain ⟨front, back, hfilter, hfront, hback⟩ := List.map_eq_append_iff.mp hkinds.symm
  obtain ⟨fact, rest, rfl, hfact, -⟩ := List.map_eq_cons_iff.mp hback
  obtain ⟨l₁, l₂, rfl, hl₁, hl₂⟩ := List.filter_eq_append_iff.mp hfilter
  obtain ⟨l₃, l₄, rfl, hl₃, -, -⟩ := List.filter_eq_cons_iff.mp hl₂
  refine ⟨l₁ ++ l₃, fact, l₄, (List.append_assoc _ _ _).symm, hfact, ?_⟩
  have hnone : l₃.filter (fun fact => fact.type ∈ loopKinds) = [] :=
    List.filter_eq_nil_iff.mpr hl₃
  rw [List.filter_append, hnone, List.append_nil, hl₁]
  exact hfront.symm

theorem relevant_of_result {event : Event} (h : isResult event = true) :
    relevant event = true ∧ event.type ∈ outcomeKinds := by
  simp only [isResult, Bool.and_eq_true, decide_eq_true_eq] at h
  refine ⟨?_, h.1⟩
  simp only [relevant, Bool.and_eq_true, decide_eq_true_eq]
  exact ⟨List.mem_cons_of_mem _ (List.mem_cons_of_mem _ h.1), h.2⟩

theorem Records.separated {runId : String} {facts : List Fact} (h : Records s runId facts)
    (hturn : InTurn facts) : Separated (s.runEvents runId) := by
  intro before event after heq hr
  obtain ⟨hrelevant, hkind⟩ := relevant_of_result hr
  obtain ⟨earlier, fact, later, rfl, hfact, hbefore⟩ := h.split heq hrelevant
  rw [lastCall_eq, hbefore, ← lastTool_eq]
  exact inTurn_split hturn (hfact ▸ hkind)

theorem Records.fresh {runId : String} {facts : List Fact} (h : Records s runId facts)
    (htimely : Timely facts) : Fresh (s.runEvents runId) := by
  intro before event after heq hr
  obtain ⟨hrelevant, hkind⟩ := relevant_of_result hr
  obtain ⟨earlier, fact, later, rfl, hfact, hbefore⟩ := h.split heq hrelevant
  have htool : fact.type ∈ toolKinds := by
    rw [hfact]
    exact List.mem_cons_of_mem _ hkind
  obtain ⟨checkpoint, hmem, hcheck⟩ := htimely earlier fact later rfl htool
  have hin : EventType.workspaceCheckpoint ∈ (before.filter relevant).map (·.type) := by
    rw [hbefore, ← hcheck]
    refine List.mem_map_of_mem (List.mem_filter.mpr ⟨hmem, ?_⟩)
    rw [hcheck]
    decide
  obtain ⟨found, hfound, hkind'⟩ := List.mem_map.mp hin
  obtain ⟨hfound, hwhole⟩ := List.mem_filter.mp hfound
  simp only [relevant, Bool.and_eq_true] at hwhole
  refine ⟨found, hfound, ?_⟩
  simp only [isCheckpoint, Bool.and_eq_true, decide_eq_true_eq]
  exact ⟨hkind', hwhole.2⟩

/-! ## The result -/

theorem Hosted.separated (h : Hosted s) {runs : List String}
    (hruns : ∀ run ∈ runs, ∃ identity, s.getRunIdentity run = some identity) :
    Separated (eventsOf s runs) := by
  apply eventsOf_separated
  intro run hrun
  obtain ⟨identity, hidentity⟩ := hruns run hrun
  obtain ⟨facts, hlog, hrecords⟩ := h run identity hidentity
  exact hrecords.separated hlog.inTurn

theorem judge_short (digest : Json → String) (runId : String) {window : List Outcome}
    (h : window.length < failureWindow) : judge digest runId window = none := by
  rw [judge, if_pos (Nat.ne_of_lt h)]

/-- The cut does not change the verdict, and the verdict is that the last three outcomes repeat. -/
theorem failureLoopCandidate_spec (h : Hosted s) (digest : Json → String) (runId : String) :
    failureLoopCandidate digest s runId = candidate digest runId (chainHistory s runId) ∧
      ((failureLoopCandidate digest s runId).isSome = true ↔ Repeats (chainHistory s runId)) := by
  have hfull : Separated (chainHistory s runId) := h.separated chain_exists
  have hsame : failureLoopCandidate digest s runId =
      candidate digest runId (chainHistory s runId) := by
    rw [failureLoopCandidate, history]
    cases hcollect : collect s [] 0 runId with
    | none =>
      have hcount := collect_none (by decide) hcollect
      rw [Nat.zero_add, ← length_outcomes []] at hcount
      have hfew : (outcomes [] (chainHistory s runId)).length < failureWindow := hcount
      rw [candidate, candidate, window_eq hfull, rtake_of_short (Nat.le_of_lt hfew),
        judge_short digest runId hfew]
      rfl
    | some chunks =>
      obtain ⟨runs, older, hchain, rfl, hdone⟩ := collect_some hcollect
      have hruns : Separated (eventsOf s runs) := by
        refine h.separated fun run hrun => ?_
        have hmem : run ∈ chain s [] runId := by
          rw [hchain]
          exact List.mem_append_left _ hrun
        exact chain_exists run hmem
      change candidate digest runId (eventsOf s runs) = _
      rw [chainHistory, hchain]
      by_cases holder : older = []
      · rw [holder, List.append_nil]
      have hfresh : Fresh (eventsOf s runs) := by
        apply eventsOf_fresh
        intro run hrun
        obtain ⟨identity, hidentity, hcontinues⟩ := chain_continues hchain holder run hrun
        obtain ⟨facts, hlog, hrecords⟩ := h run identity hidentity
        rw [decide_eq_true hcontinues] at hlog
        exact hrecords.fresh hlog.timely
      have hcount := hdone.resolve_left holder
      rw [Nat.zero_add] at hcount
      have hwhole : Separated (eventsOf s (runs ++ older)) := hchain ▸ hfull
      rw [candidate, candidate, window_eq hruns, window_eq hwhole, eventsOf_append,
        window_cut hfresh hcount]
  exact ⟨hsame, hsame ▸ candidate_isSome digest runId hfull⟩

/-! ## A run that repeats a failure -/

/-- A run in agent mode with one tool. -/
def failingRun : RunConfig where
  sources := {
    mode := .agent, tools := [.obj [("name", .str "read_file")]]
    handlers := Dict.ofList [("read_file", ⟨"read_file", false⟩)]
    builtinTools := [], builtinHandlers := Dict.empty
    readToolResult := (.obj [("name", .str "read_tool_result")], ⟨"read_tool_result", false⟩)
    todoWrite := (.obj [("name", .str "todo_write")], ⟨"todo_write", false⟩)
    skills := false, skillTools := [], skillHandlers := [], ragTools := [], ragHandlers := []
    mcpTools := [], mcpHandlers := [], mcpReadonly := [], workerTools := []
    delegateReadonly := ⟨"delegate_readonly", true⟩, sandboxHandlers := [] }
  schemas := { builtin := fun _ => none, compile := fun name _ => .ok ⟨name, .ok⟩ }
  clean := id
  semantic := id
  cleanText := id
  digest := fun _ => "mark"
  workingRoot := "/work"
  started := .obj []
  opening := []
  unknownScope := .obj []
  approvalHandler := false
  maxSteps := 2
  parseJson := fun _ => none

/-- The model calls the tool three times, and the tool fails each time. -/
def failingAnswers : (q : Ask) → Except Raised q.Result
  | .commit _ | .deliver | .setUp | .closeManager | .tokenBudget => .ok ()
  | .clock => .ok 5
  | .evaluate _ _ _ _ => .ok ⟨.allow, ""⟩
  | .approve _ _ _ | .interrupted | .unknownOutcome | .unfinished => .ok false
  | .command _ _ _ | .handler _ _ _ => .error (.error "OSError" "missing" false false)
  | .checkpoint => .ok (.obj [("head", .str "c0")])
  | .context _ => .ok .null
  | .failureLoop | .plan | .lastEvent => .ok none
  | .complete _ => .ok {
      toolCalls := ["a", "b", "c"].map fun id => ⟨id, "read_file", .obj [("path", .str "a.py")]⟩
      stopReason := "tool_use" }

def failingFacts : List Fact :=
  History.facts (Program.runWith failingAnswers 60 (runTask failingRun)).1

def failingEvent (fact : Fact) : Event where
  eventId := "e"
  sessionId := "main"
  sessionSeq := 1
  turnId := some "t"
  runId := some "r"
  ts := 0
  type := fact.type
  role := fact.role
  author := fact.author
  payload := fact.payload

def failingStore : RuntimeStore where
  turns := [{ id := "t", sessionId := "main", continuationOf := none, createdAt := 0 }]
  runs := [{ id := "r", sessionId := "main", turnId := "t", startedAt := 0 }]
  events := failingFacts.map failingEvent

theorem failingStore_events : failingStore.runEvents "r" = failingFacts.map failingEvent := by
  apply List.filter_eq_self.mpr
  intro event hevent
  obtain ⟨fact, -, rfl⟩ := List.mem_map.mp hevent
  rfl

theorem failingStore_hosted : Hosted failingStore := by
  intro runId identity hidentity
  obtain ⟨run, hrun, hid⟩ := mem_of_getRunIdentity hidentity
  obtain rfl := List.mem_singleton.mp hrun
  obtain rfl : "r" = runId := hid
  have hc : HostConfig failingRun := ⟨(fun _ hmem => nomatch hmem), fun _ hmem => nomatch hmem⟩
  have hlog : RunLog (decide (identity.2.getD "" ≠ "")) ([] ++ _) := .executed hc
    (fun _ hmem => nomatch hmem) (Program.reaches_runWith failingAnswers 60 (runTask failingRun))
  refine ⟨failingFacts, hlog, ?_⟩
  have hsame : relevant ∘ failingEvent = fun fact => decide (fact.type ∈ loopKinds) := by
    funext fact
    exact Bool.and_true _
  rw [Records, failingStore_events, List.filter_map, List.map_map, hsame]
  rfl

theorem failureLoopCandidate_spec_failing :
    failureLoopCandidate (fun _ => "hash") failingStore "r" =
        candidate (fun _ => "hash") "r" (chainHistory failingStore "r") ∧
      Repeats (chainHistory failingStore "r") := by
  obtain ⟨hsame, hrepeats⟩ := failureLoopCandidate_spec failingStore_hosted (fun _ => "hash") "r"
  refine ⟨hsame, hrepeats.mp ?_⟩
  have hchain : chainHistory failingStore "r" = failingStore.runEvents "r" := by
    have hrun : failingStore.getRunIdentity "r" =
        some ({ id := "r", sessionId := "main", turnId := "t", startedAt := 0 }, none) := rfl
    have hend : chain failingStore ["r"] "" = [] := chain_seen (.inl rfl)
    rw [chainHistory, chain_step (by simp) hrun, Option.getD_none, hend]
    simp [eventsOf]
  rw [hsame, hchain, failingStore_events]
  decide +kernel

end ToolLoops

end Eventide
