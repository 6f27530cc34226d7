import Eventide.Model.ToolLoops
import Eventide.Verification.AgentLoop.Pacing

/-! # What the Host logs about calls

Whatever a run is and wherever it stops, its log has one outcome for each preparation that it goes
on from. -/

namespace Eventide

open Interaction Program
open Recovery (callId settled unsettled stoppedFact recoveryFacts)
open AgentLoop (RunConfig HostConfig runTask runTask_inTurn)

/-! ## Appending to a log -/

theorem InTurn.asides {facts more : List Fact} (h : InTurn facts)
    (hmore : ∀ fact ∈ more, fact.type ∉ toolKinds) : InTurn (facts ++ more) := by
  induction more generalizing facts with
  | nil => exact (List.append_nil facts).symm ▸ h
  | cons fact more ih =>
    obtain ⟨hfact, hrest⟩ := List.forall_mem_cons.mp hmore
    rw [List.append_cons]
    exact ih (.other h hfact) hrest

theorem Timely.asides {facts more : List Fact} (h : Timely facts)
    (hmore : ∀ fact ∈ more, fact.type ∉ toolKinds) : Timely (facts ++ more) := by
  induction more generalizing facts with
  | nil => exact (List.append_nil facts).symm ▸ h
  | cons fact more ih =>
    obtain ⟨hfact, hrest⟩ := List.forall_mem_cons.mp hmore
    rw [List.append_cons]
    exact ih (h.concat fun hkind => absurd hkind hfact) hrest

theorem lastTool_asides {before facts : List Fact} (h : ∀ fact ∈ before, fact.type ∉ toolKinds) :
    lastTool (before ++ facts) = lastTool facts := by
  have hnone : before.filter (fun fact => fact.type ∈ toolKinds) = [] := by
    apply List.filter_eq_nil_iff.mpr
    intro fact hfact
    simpa using h fact hfact
  rw [lastTool, List.filter_append, hnone, List.nil_append, lastTool]

theorem InTurn.admitted {before facts : List Fact} (h : InTurn facts)
    (hbefore : ∀ fact ∈ before, fact.type ∉ toolKinds) : InTurn (before ++ facts) := by
  induction h with
  | nil =>
    have hfacts := InTurn.asides .nil hbefore
    exact hfacts.asides nofun
  | @other facts fact _ hkind ih =>
    rw [← List.append_assoc]
    exact .other ih hkind
  | @prepared facts fact _ hkind hidle ih =>
    rw [← List.append_assoc]
    refine .prepared ih hkind fun last hlast => hidle last ?_
    rwa [lastTool_asides hbefore] at hlast
  | @outcome facts fact _ hkind hprepared ih =>
    rw [← List.append_assoc]
    obtain ⟨p, hlast, hp⟩ := hprepared
    exact .outcome ih hkind ⟨p, (lastTool_asides hbefore).trans hlast, hp⟩

theorem Timely.admitted {before facts : List Fact} (h : Timely facts)
    (hbefore : ∀ fact ∈ before, fact.type ∉ toolKinds) : Timely (before ++ facts) := by
  intro earlier fact after heq hkind
  rcases List.append_eq_append_iff.mp heq with ⟨rest, rfl, hrest⟩ | ⟨rest, rfl, hrest⟩
  · cases rest with
    | nil =>
      have hchecked := h [] fact after hrest hkind
      obtain ⟨_, hmem, -⟩ := hchecked
      cases hmem
    | cons first rest =>
      obtain ⟨checkpoint, hmem, hcheck⟩ := h (first :: rest) fact after hrest hkind
      exact ⟨checkpoint, List.mem_append_right _ hmem, hcheck⟩
  · cases rest with
    | nil =>
      obtain ⟨_, hmem, -⟩ := h [] fact after hrest.symm hkind
      cases hmem
    | cons first rest =>
      obtain ⟨rfl, -⟩ := List.cons.inj hrest
      exact absurd hkind (hbefore _ (List.mem_append_right _ List.mem_cons_self))

/-! ## Restarts -/

/-- The calls that a restart settles. -/
def stopped (facts : List Fact) : List Fact := facts.filter (unsettled facts)

theorem settled_concat (facts : List Fact) (fact : Fact) :
    settled (facts ++ [fact]) =
      settled facts ++ (if fact.type ∈ outcomeKinds then [callId fact] else []) := by
  rw [settled, List.filter_append, List.map_append, outcomeKinds]
  by_cases h : fact.type ∈ [EventType.toolCompleted, .toolOutcomeUnknown]
  · rw [if_pos h, List.filter_cons, if_pos (decide_eq_true h)]
    rfl
  · rw [if_neg h, List.filter_cons, if_neg fun hmem => h (of_decide_eq_true hmem)]
    rfl

theorem unsettled_of_concat {facts : List Fact} {fact p : Fact}
    (h : unsettled (facts ++ [fact]) p = true) : unsettled facts p = true := by
  simp only [unsettled, Bool.and_eq_true, settled_concat, List.all_append] at h ⊢
  exact ⟨h.1, h.2.1, h.2.2.1⟩

theorem stopped_concat {facts : List Fact} {fact : Fact} (h : fact.type ∉ outcomeKinds) :
    stopped (facts ++ [fact]) = stopped facts ++ [fact].filter (unsettled facts) := by
  have hsame : unsettled (facts ++ [fact]) = unsettled facts := by
    funext p
    simp only [unsettled, settled_concat, if_neg h, List.append_nil]
  rw [stopped, hsame, List.filter_append, stopped]

theorem unsettled_prepared {facts : List Fact} {p : Fact} (h : unsettled facts p = true) :
    p.type = .toolPrepared := by
  simp only [unsettled, Bool.and_eq_true, decide_eq_true_eq] at h
  exact h.1

/-- A restart settles at most the last call. -/
theorem InTurn.stopped_eq {facts : List Fact} (h : InTurn facts) :
    stopped facts = [] ∨ ∃ p, stopped facts = [p] ∧ lastTool facts = some p := by
  induction h with
  | nil => exact .inl rfl
  | @other facts fact _ hkind ih =>
    have hnot : unsettled facts fact ≠ true := by
      intro hun
      rw [unsettled_prepared hun] at hkind
      exact hkind (by decide)
    have hstopped : stopped (facts ++ [fact]) = stopped facts := by
      rw [stopped_concat fun hmem => hkind (List.mem_cons_of_mem _ hmem), List.filter_cons,
        if_neg hnot, List.filter_nil, List.append_nil]
    rw [hstopped, lastTool_other hkind]
    exact ih
  | @prepared facts fact _ hkind hidle ih =>
    have hnone : stopped facts = [] := by
      rcases ih with hnil | ⟨p, hp, hlast⟩
      · exact hnil
      · have hmem : p ∈ stopped facts := hp ▸ List.mem_singleton_self p
        exact absurd (unsettled_prepared (List.mem_filter.mp hmem).2) (hidle p hlast)
    have hout : fact.type ∉ outcomeKinds := by
      rw [hkind]
      decide
    have htool : fact.type ∈ toolKinds := by
      rw [hkind]
      decide
    rw [stopped_concat hout, hnone, List.nil_append, lastTool_tool htool]
    by_cases hun : unsettled facts fact = true
    · exact .inr ⟨fact, by rw [List.filter_cons, if_pos hun, List.filter_nil], rfl⟩
    · exact .inl (by rw [List.filter_cons, if_neg hun, List.filter_nil])
  | @outcome facts fact _ hkind hprepared ih =>
    -- The outcome settles the only call that was not.
    refine .inl (List.filter_eq_nil_iff.mpr fun q hq hun => ?_)
    rcases List.mem_append.mp hq with hq | hq
    · have hmem : q ∈ stopped facts := List.mem_filter.mpr ⟨hq, unsettled_of_concat hun⟩
      rcases ih with hnil | ⟨p, hp, hlast⟩
      · rw [hnil] at hmem
        cases hmem
      · rw [hp] at hmem
        obtain rfl := List.mem_singleton.mp hmem
        obtain ⟨last, hlast', -, hid⟩ := hprepared
        obtain rfl : last = q := Option.some.inj (hlast'.symm.trans hlast)
        simp only [unsettled, Bool.and_eq_true, settled_concat, if_pos hkind, List.all_append,
          List.all_cons, ← hid, Json.pyEq_refl] at hun
        exact absurd hun.2.2.2.1 (by decide)
    · obtain rfl := List.mem_singleton.mp hq
      rw [unsettled_prepared hun] at hkind
      exact absurd hkind (by decide)

/-- What a restart adds after the outcomes. -/
def closing (facts : List Fact) (evidence : Option Recovery.Evidence) : List Fact :=
  Recovery.evidenceFacts (Recovery.evidenceFor facts evidence) ++
    [Recovery.interruptedFact (Recovery.queued facts) (Recovery.evidenceFor facts evidence)]

theorem closing_aside (facts : List Fact) (evidence : Option Recovery.Evidence) (n : ℕ) :
    ∀ fact ∈ (closing facts evidence).take n, fact.type ∉ toolKinds := by
  intro fact hfact
  rcases List.mem_append.mp (List.mem_of_mem_take hfact) with hfact | hfact
  · unfold Recovery.evidenceFacts at hfact
    split at hfact
    · rw [List.mem_singleton.mp hfact]
      exact show EventType.workspaceCheckpoint ∉ toolKinds by decide
    · cases hfact
  · rw [List.mem_singleton.mp hfact]
    exact show EventType.runInterrupted ∉ toolKinds by decide

theorem recoveryFacts_some (id : String) (evidence : Option Recovery.Evidence)
    (facts : List Fact) : recoveryFacts (some id) evidence facts =
      (stopped facts).map (stoppedFact id) ++ closing facts evidence := by
  rw [recoveryFacts, List.append_assoc]
  rfl

/-- However much of its work a restart gets done, the calls are still settled in turn. -/
theorem InTurn.recovered {facts : List Fact} (h : InTurn facts) (sandbox : Option String)
    (evidence : Option Recovery.Evidence) (n : ℕ) :
    InTurn (facts ++ (recoveryFacts sandbox evidence facts).take n) := by
  cases sandbox with
  | none => exact h.asides (closing_aside facts evidence n)
  | some id =>
    rw [recoveryFacts_some]
    rcases h.stopped_eq with hnil | ⟨p, hp, hlast⟩
    · rw [hnil]
      exact h.asides (closing_aside facts evidence n)
    · rw [hp, List.map_singleton, List.singleton_append]
      cases n with
      | zero => exact h.asides nofun
      | succ n =>
        have hmem : p ∈ stopped facts := hp ▸ List.mem_singleton_self p
        have hkind := unsettled_prepared (List.mem_filter.mp hmem).2
        have hout : (stoppedFact id p).type ∈ outcomeKinds :=
          show EventType.toolOutcomeUnknown ∈ outcomeKinds by decide
        rw [List.take_succ_cons, List.append_cons]
        exact (InTurn.outcome h hout ⟨p, hlast, hkind, rfl⟩).asides (closing_aside facts evidence n)

theorem Timely.append {facts : List Fact} (h : Timely facts) (hchecked : Checked facts)
    (more : List Fact) : Timely (facts ++ more) := by
  induction more generalizing facts with
  | nil => exact (List.append_nil facts).symm ▸ h
  | cons fact more ih =>
    rw [List.append_cons]
    exact ih (h.concat fun _ => hchecked) (hchecked.append _)

/-- A call that a restart settles was prepared after a checkpoint. -/
theorem Timely.recovered {facts : List Fact} (h : Timely facts) (sandbox : Option String)
    (evidence : Option Recovery.Evidence) (n : ℕ) :
    Timely (facts ++ (recoveryFacts sandbox evidence facts).take n) := by
  cases sandbox with
  | none => exact h.asides (closing_aside facts evidence n)
  | some id =>
    rw [recoveryFacts_some]
    cases hstopped : stopped facts with
    | nil => exact h.asides (closing_aside facts evidence n)
    | cons p rest =>
      have hmem : p ∈ stopped facts := hstopped ▸ List.mem_cons_self
      obtain ⟨hp, hun⟩ := List.mem_filter.mp hmem
      have hkind : p.type ∈ toolKinds := by
        rw [unsettled_prepared hun]
        decide
      obtain ⟨before, after, rfl⟩ := List.append_of_mem hp
      exact h.append ((h before p after rfl hkind).append _) _

/-! ## The logs of the runs -/

/-- What a run is admitted with, before it is executed. -/
def admissionKinds : List EventType :=
  [.runAdmitted, .toolAbandoned, .approvalResolved, .messageUser, .workspaceCheckpoint]

/-- The facts about calls and checkpoints that the Host commits for a run until some moment. Only a
run that continues none can be a control run that checks commands without any checkpoint. -/
inductive RunLog (continues : Bool) : List Fact → Prop
  /-- A run that `_execute` runs. -/
  | executed {c : RunConfig} {admission : List Fact} {asked : History} {p : Task Unit}
      (hc : HostConfig c) (hadmission : ∀ fact ∈ admission, fact.type ∈ admissionKinds)
      (hr : Program.Reaches (runTask c) asked p) : RunLog continues (admission ++ asked.facts)
  /-- A run that abandons an interrupted one, or another run without calls. -/
  | uncalled {facts : List Fact} (hfacts : ∀ fact ∈ facts, fact.type ∉ toolKinds) :
      RunLog continues facts
  /-- A run that executes one command after the other. -/
  | commands {checks : List (Fact × Fact)} (hcontinues : continues = false)
      (hprepared : ∀ check ∈ checks, check.1.type = .toolPrepared)
      (houtcome : ∀ check ∈ checks, check.2.type ∈ outcomeKinds ∧ callId check.2 = callId check.1)
      (n : ℕ) : RunLog continues ((checks.flatMap fun check => [check.1, check.2]).take n)
  /-- A run that the Host died inside, after a restart or a part of it. -/
  | recovered {facts : List Fact} (h : RunLog continues facts) (sandbox : Option String)
      (evidence : Option Recovery.Evidence) (n : ℕ) :
      RunLog continues (facts ++ (recoveryFacts sandbox evidence facts).take n)

theorem admission_aside {admission : List Fact}
    (h : ∀ fact ∈ admission, fact.type ∈ admissionKinds) :
    ∀ fact ∈ admission, fact.type ∉ toolKinds := by
  have hkinds : ∀ kind ∈ admissionKinds, kind ∉ toolKinds := by decide
  exact fun fact hfact => hkinds _ (h fact hfact)

theorem inTurn_commands {checks : List (Fact × Fact)} {facts : List Fact} (h : InTurn facts)
    (hidle : Idle facts) (hprepared : ∀ check ∈ checks, check.1.type = .toolPrepared)
    (houtcome : ∀ check ∈ checks, check.2.type ∈ outcomeKinds ∧ callId check.2 = callId check.1)
    (n : ℕ) :
    InTurn (facts ++ (checks.flatMap fun check => [check.1, check.2]).take n) := by
  induction checks generalizing facts n with
  | nil => exact h.asides (by simp)
  | cons check checks ih =>
    obtain ⟨hp, hprepared⟩ := List.forall_mem_cons.mp hprepared
    obtain ⟨⟨hout, hid⟩, houtcome⟩ := List.forall_mem_cons.mp houtcome
    have htool : check.1.type ∈ toolKinds := by
      rw [hp]
      decide
    have hone := InTurn.prepared h hp hidle
    have htwo : InTurn (facts ++ [check.1] ++ [check.2]) :=
      .outcome hone hout ⟨check.1, lastTool_tool htool, hp, hid.symm⟩
    have hidle' : Idle (facts ++ [check.1] ++ [check.2]) := by
      intro last hlast heq
      rw [lastTool_tool (List.mem_cons_of_mem _ hout)] at hlast
      rw [← Option.some.inj hlast] at heq
      rw [heq] at hout
      exact absurd hout (by decide)
    rw [List.flatMap_cons, List.cons_append, List.cons_append, List.nil_append]
    match n with
    | 0 => exact h.asides nofun
    | 1 => exact hone
    | n + 2 =>
      rw [List.take_succ_cons, List.take_succ_cons, List.append_cons, List.append_cons]
      exact ih htwo hidle' hprepared houtcome n

theorem RunLog.inTurn {continues : Bool} {facts : List Fact} (h : RunLog continues facts) :
    InTurn facts := by
  induction h with
  | executed hc hadmission hr => exact (runTask_inTurn hc hr).1.admitted (admission_aside hadmission)
  | uncalled hfacts => exact InTurn.asides .nil hfacts
  | commands _ hprepared houtcome n => exact inTurn_commands .nil nofun hprepared houtcome n
  | recovered _ sandbox evidence n ih => exact ih.recovered sandbox evidence n

theorem RunLog.timely {facts : List Fact} (h : RunLog true facts) : Timely facts := by
  have hnil : Timely [] := fun before fact after heq => by simp at heq
  generalize htrue : true = continues at h
  induction h with
  | executed hc hadmission hr => exact (runTask_inTurn hc hr).2.admitted (admission_aside hadmission)
  | uncalled hfacts => exact hnil.asides hfacts
  | commands hfalse _ _ _ => rw [hfalse] at htrue; cases htrue
  | recovered _ sandbox evidence n ih => exact ih.recovered sandbox evidence n

end Eventide
