import Eventide.Model.DeliveryControl

/-! # What a move of a delivery host does

Inversion of the moves: what a task inside the delivery lock writes, and what every move does
to the host. -/

namespace Eventide.Delivery

open Outcome

variable {Tree : Type}

/-- The task judges a patch with its checks. -/
def Stage.judging : Stage → Option Patch
  | .verifying _ patch _ => some patch
  | .repairing _ (.verifying _ _ patch _) => some patch
  | _ => none

/-- The facts about rounds, which decide nothing. -/
def Fact.OfRound (deliveryId : String) : Fact → Prop
  | .workerFinished d _ | .roundStarted d _ => d = deliveryId
  | .roundFinished r => r.deliveryId = deliveryId
  | _ => False

/-- How a task inside the lock goes on, with the facts it writes. `Judged` is what is known of
a verification that it writes. -/
inductive Progress (git : Git Tree) (op : Operation) (Judged : Verified → Prop) :
    Stage → List Fact → Stage → Prop
  | prepare (p : Prepared) (hp : p.deliveryId = op.deliveryId) :
      Progress git op Judged (.locked none) [.prepared p] .finished
  | verifySource {value} (hg : repairGate op.request.action value = .ok ()) :
      Progress git op Judged (.locked (some value)) [] (.checked value)
  | worker {value} (workerRunId : String) :
      Progress git op Judged (.checked value) [.workerFinished op.deliveryId workerRunId] .finished
  | build {value patch receipt} (hr : receipt.patchSha256 = some (git.sha256 patch)) :
      Progress git op Judged (.checked value) [] (.verifying value patch receipt)
  | verified {value patch} (v : Verified) (hd : v.deliveryId = op.deliveryId)
      (hh : v.patchSha256 = git.sha256 patch) (hj : Judged v) :
      Progress git op Judged (.verifying value patch v.receipt) [.verified v] .finished
  | repairStart {value stage} (contract : Contract) (hd : contract.deliveryId = op.deliveryId)
      (ho : op.runId = some contract.controlRunId) (ha : op.request.action = .repair)
      (hs : (Stage.repairing value stage).judging = none) :
      Progress git op Judged (.checked value) [.repairStarted contract] (.repairing value stage)
  | round {value stage stage' facts} (hf : ∀ fact ∈ facts, fact.OfRound op.deliveryId)
      (hs : (Stage.repairing value stage').judging = none) :
      Progress git op Judged (.repairing value stage) facts (.repairing value stage')
  | roundBuild {value stage number workerRunId patch receipt}
      (hr : receipt.patchSha256 = some (git.sha256 patch)) :
      Progress git op Judged (.repairing value stage) []
        (.repairing value (.verifying number workerRunId patch receipt))
  | roundVerified {value number workerRunId patch} (v : Verified) (hd : v.deliveryId = op.deliveryId)
      (hh : v.patchSha256 = git.sha256 patch) (hj : Judged v) :
      Progress git op Judged (.repairing value (.verifying number workerRunId patch v.receipt))
        [.verified v] (.repairing value (.judged number workerRunId v))
  | repairFinish {value stage} (result : RepairResult) (hd : result.deliveryId = op.deliveryId)
      (ho : op.runId = some result.controlRunId) :
      Progress git op Judged (.repairing value stage) [.repairFinished result] .finished
  | adopt {value} (result : Applied) (v : Verified) (ha : op.request.action = .apply)
      (hv : value.verification = some v) (hp : v.status = .passed)
      (hh : v.receipt.patchSha256 = some result.patchSha256) :
      Progress git op Judged (.checked value) [] (.adopted result)
  | applied (result : Applied) :
      Progress git op Judged (.adopted result) [.applied op.deliveryId result] .finished

/-- The host after a task wrote facts and went on. -/
def Host.advance (s : Host Tree) (task : ℕ) (op : Operation) (world : String → Tree)
    (artifacts : Dict (String × String) Patch) (events : List Event) (stage : Stage) : Host Tree :=
  { s with world, artifacts, log := s.log ++ events, tasks := s.tasks.set task { op with stage } }

/-- Everything a move can do to the host. -/
inductive Effect (git : Git Tree) (s : Host Tree) (Judged : ℕ → Verified → Prop) :
    Host Tree → Prop
  | admitWeb {task op} {c : WebCall} (hnew : s.tasks.get? task = none) (hrun : c.runId ∉ s.runs)
      (hop : op = {
        request := c.request, control := some c.runId, session := some c.owner
        runId := some c.runId, stage := .admitted }) :
      Effect git s Judged { s with
        log := s.log ++ [⟨c.runId, .runAdmitted c.binding⟩, ⟨c.runId, .operationAccepted c.accepted⟩]
        runs := c.runId :: s.runs, tasks := s.tasks.set task op }
  | call {task request} (hnew : s.tasks.get? task = none) :
      Effect git s Judged { s with tasks := s.tasks.set task { request, stage := .called } }
  | startWeb {task op runId accepted} (hop : s.tasks.get? task = some op)
      (hs : op.stage = .admitted) (hc : op.control = some runId)
      (ha : ⟨runId, .operationAccepted accepted⟩ ∈ s.log)
      (hr : s.checkReviewed accepted = .ok ()) :
      Effect git s Judged
        (s.setStage task { op with request := accepted.toRequest } .called)
  | enter {task op} (hop : s.tasks.get? task = some op) (hs : op.stage = .called) :
      Effect git s Judged (s.setStage task op .waiting)
  | acquire {task op value runId runs} (hop : s.tasks.get? task = some op)
      (hs : op.stage = .waiting) (hfree : s.locks.get? op.deliveryId = none)
      (hv : s.loadOpen op = .ok value)
      (hrun : (op.control = some runId ∧ runs = s.runs) ∨
        (op.control = none ∧ runId ∉ s.runs ∧ runs = runId :: s.runs)) :
      Effect git s Judged { s with
        runs, locks := s.locks.set op.deliveryId task
        log := s.log ++ [⟨runId, .runStarted op.deliveryId op.request.action⟩,
          ⟨runId, .requested op.deliveryId op.request.action⟩]
        tasks := s.tasks.set task { op with runId := some runId, stage := .locked value } }
  | work {task op stage world artifacts} {events : List Event} (hop : s.tasks.get? task = some op)
      (hr : ∀ e ∈ events, op.runId = some e.runId)
      (hp : Progress git op (Judged task) op.stage (events.map Event.fact) stage) :
      Effect git s Judged (s.advance task op world artifacts events stage)
  | release {task op world status} (hop : s.tasks.get? task = some op) :
      Effect git s Judged (({ s with world }.endRun op status).release task op)
  | files {world} : Effect git s Judged { s with world }
  | restart : Effect git s Judged s.restart

/-! ## Every move has such an effect -/

theorem resume_eq_ok {s s' : Host Tree} {task : ℕ} {go : Operation → Except PyError (Host Tree)}
    (h : s.resume task go = .ok s') : ∃ op, s.tasks.get? task = some op ∧ go op = .ok s' := by
  unfold Host.resume at h
  split at h
  · exact ⟨_, ‹_›, h⟩
  · cases h

variable {git : Git Tree} {s s' : Host Tree} {Judged : ℕ → Verified → Prop} {task : ℕ}
  {op : Operation}

/-- A move of a task inside the lock, from what it writes. -/
theorem Effect.ofProgress {world : String → Tree} {artifacts : Dict (String × String) Patch}
    {stage stage' : Stage} {facts : List Fact} {runId : String}
    (hop : s.tasks.get? task = some op) (hs : op.stage = stage) (hr : op.runId = some runId)
    (hp : Progress git op (Judged task) stage facts stage') :
    Effect git s Judged
      (s.advance task op world artifacts (facts.map fun fact => ⟨runId, fact⟩) stage') := by
  refine .work hop ?_ ?_
  · simp [hr]
  · rw [hs]
    simpa [Function.comp_def] using hp

/-- The same when it writes nothing. -/
theorem Effect.ofSilent {stage stage' : Stage} (hop : s.tasks.get? task = some op)
    (hs : op.stage = stage) (hp : Progress git op (Judged task) stage [] stage') :
    Effect git s Judged (s.setStage task op stage') := by
  have h : Effect git s Judged (s.advance task op s.world s.artifacts [] stage') :=
    .work hop (by simp) (by rw [hs]; exact hp)
  simpa [Host.advance, Host.setStage] using h

theorem candidate_receipt {value : Loaded} {receipt receipt' : Receipt} {patch : Patch}
    (h : s.candidate git value receipt = .ok (patch, receipt')) :
    receipt'.patchSha256 = some (git.sha256 patch) := by
  simp only [Host.candidate, buildPatch, bind_eq_ok, raiseIf_eq_ok, pure_eq_ok, Except.ok.injEq,
    Prod.mk.injEq] at h
  obtain ⟨-, -, files, -, sourceFiles, -, before, -, built, -, -, -, rfl, rfl⟩ := h
  rfl

theorem verdict_eq_ok {value : Loaded} {patch : Patch} {receipt : Receipt}
    {results : List CheckResult} {v : Verified} {artifacts : Dict (String × String) Patch}
    (h : s.verdict git op value patch receipt results = .ok (v, artifacts)) :
    v.deliveryId = op.deliveryId ∧ v.receipt = receipt ∧ v.patchSha256 = git.sha256 patch ∧
      (v.status = .passed ↔ checksPassed results = true) := by
  simp only [Host.verdict, bind_eq_ok, pure_eq_ok, Except.ok.injEq, Prod.mk.injEq] at h
  obtain ⟨-, -, -, -, -, -, saved, -, rfl, -⟩ := h
  refine ⟨rfl, rfl, rfl, ?_⟩
  simp

theorem applyChecked_receipt {world : String → Tree} {source : String} {patch : Patch}
    {receipt : Receipt} {tree : Tree} (h : applyChecked git world source patch receipt = .ok tree) :
    receipt.patchSha256 = some (git.sha256 patch) := by
  simp only [applyChecked, bind_eq_ok, raiseIf_eq_ok, not_not] at h
  obtain ⟨-, -, -, hr, -⟩ := h
  exact hr

theorem operationOf_mem {runId : String} {accepted : Accepted}
    (h : s.operationOf runId = .ok accepted) : ⟨runId, .operationAccepted accepted⟩ ∈ s.log := by
  unfold Host.operationOf at h
  cases hf : (runEvents s.log runId).findSome? Fact.accepted? with
  | none => simp [hf] at h
  | some a =>
    obtain rfl : a = accepted := by simpa [hf] using h
    obtain ⟨fact, hfact, ha⟩ := List.exists_of_findSome?_eq_some hf
    simp only [runEvents, List.mem_map, List.mem_filter, decide_eq_true_eq] at hfact
    obtain ⟨⟨r, f⟩, ⟨hmem, rfl⟩, rfl⟩ := hfact
    cases f <;> simp [Fact.accepted?] at ha
    exact ha ▸ hmem

theorem ownRun_eq_ok {value : Option Loaded} {fresh runId : String} {runs : List String}
    (h : s.ownRun op value fresh = .ok (runId, runs)) :
    (op.control = some runId ∧ runs = s.runs) ∨
      (op.control = none ∧ runId ∉ s.runs ∧ runs = runId :: s.runs) := by
  unfold Host.ownRun at h
  split at h
  · rename_i r hc
    simp only [bind_eq_ok, pure_eq_ok, Except.ok.injEq, Prod.mk.injEq] at h
    obtain ⟨-, -, rfl, rfl⟩ := h
    exact .inl ⟨hc, rfl⟩
  · rename_i hc
    simp only [bind_eq_ok, raiseIf_eq_ok, pure_eq_ok, Except.ok.injEq, Prod.mk.injEq] at h
    obtain ⟨-, hfresh, rfl, rfl⟩ := h
    exact .inr ⟨hc, hfresh, rfl⟩

section Inside

variable (hop : s.tasks.get? task = some op)
include hop

theorem prepare_effect {checkout : String} (h : s.prepare git task op checkout = .ok s') :
    Effect git s Judged s' := by
  unfold Host.prepare at h
  split at h
  · rename_i hs hr hn
    simp only [bind_eq_ok, pure_eq_ok, Except.ok.injEq] at h
    obtain ⟨receipt, -, rfl⟩ := h
    exact .ofProgress hop hs hr (.prepare _ rfl)
  · cases h

theorem verifySource_effect (h : s.verifySource git task op = .ok s') :
    Effect git s Judged s' := by
  unfold Host.verifySource at h
  split at h
  · rename_i hs
    simp only [bind_eq_ok, pure_eq_ok, Except.ok.injEq] at h
    obtain ⟨⟨⟩, -, ⟨⟩, hg, rfl⟩ := h
    exact .ofSilent hop hs (.verifySource hg)
  · cases h

theorem worker_effect {workerRunId : String} (h : s.worker task op workerRunId = .ok s') :
    Effect git s Judged s' := by
  unfold Host.worker at h
  split at h
  · rename_i hs hr ha
    simp only [bind_eq_ok, pure_eq_ok, Except.ok.injEq] at h
    obtain ⟨-, -, rfl⟩ := h
    exact .ofProgress hop hs hr (.worker _)
  · cases h

theorem build_effect (h : s.build git task op = .ok s') : Effect git s Judged s' := by
  unfold Host.build at h
  split at h
  · rename_i hs
    simp only [bind_eq_ok, pure_eq_ok, Except.ok.injEq] at h
    obtain ⟨-, -, -, -, built, hb, rfl⟩ := h
    exact .ofSilent hop hs (.build (candidate_receipt hb))
  · rename_i hs
    simp only [bind_eq_ok, pure_eq_ok, Except.ok.injEq] at h
    obtain ⟨built, hb, rfl⟩ := h
    exact .ofSilent hop hs (.roundBuild (candidate_receipt hb))
  · cases h

theorem verified_effect {results : List CheckResult}
    (hj : ∀ v : Verified, (v.status = .passed ↔ checksPassed results = true) → Judged task v)
    (h : s.verified git task op results = .ok s') : Effect git s Judged s' := by
  unfold Host.verified at h
  split at h
  · rename_i hs hr
    simp only [bind_eq_ok, pure_eq_ok, Except.ok.injEq] at h
    obtain ⟨⟨v, artifacts⟩, hv, rfl⟩ := h
    obtain ⟨hd, rfl, hh, hp⟩ := verdict_eq_ok hv
    exact .ofProgress hop hs hr (.verified v hd hh (hj v hp))
  · rename_i hs hr
    simp only [bind_eq_ok, pure_eq_ok, Except.ok.injEq] at h
    obtain ⟨⟨v, artifacts⟩, hv, rfl⟩ := h
    obtain ⟨hd, rfl, hh, hp⟩ := verdict_eq_ok hv
    exact .ofProgress hop hs hr (.roundVerified v hd hh (hj v hp))
  · cases h

theorem repairStart_effect (h : s.repairStart git task op = .ok s') : Effect git s Judged s' := by
  unfold Host.repairStart at h
  split at h
  · rename_i hs hr
    simp only [bind_eq_ok, raiseIf_eq_ok, not_not, pure_eq_ok, Except.ok.injEq] at h
    obtain ⟨-, ha, -, -, -, -, -, -, ⟨initial, -⟩, -, rfl⟩ := h
    exact .ofProgress hop hs hr (.repairStart _ rfl hr ha rfl)
  · cases h

theorem roundStart_effect (h : s.roundStart task op = .ok s') : Effect git s Judged s' := by
  unfold Host.roundStart at h
  split at h
  · rename_i value number previous runId hs hr
    simp only [bind_eq_ok, pure_eq_ok, Except.ok.injEq] at h
    obtain ⟨-, -, rfl⟩ := h
    have hp : Progress git op (Judged task) (.repairing value (.ready number previous))
        [.roundStarted op.deliveryId number] (.repairing value (.writing number previous)) :=
      .round (by simp [Fact.OfRound]) rfl
    exact .ofProgress hop hs hr hp
  · cases h

theorem roundWritten_effect {workerRunId : String}
    (h : s.roundWritten task op workerRunId = .ok s') : Effect git s Judged s' := by
  unfold Host.roundWritten at h
  split at h
  · rename_i value number previous runId hs hr
    obtain rfl := Except.ok.inj h
    have hp : Progress git op (Judged task) (.repairing value (.writing number previous))
        [.workerFinished op.deliveryId workerRunId]
        (.repairing value (.written number previous workerRunId)) :=
      .round (by simp [Fact.OfRound]) rfl
    exact .ofProgress hop hs hr hp
  · cases h

theorem roundCandidate_effect (h : s.roundCandidate git task op = .ok s') :
    Effect git s Judged s' := by
  unfold Host.roundCandidate at h
  split at h
  · rename_i hs
    simp only [bind_eq_ok, pure_eq_ok, Except.ok.injEq] at h
    obtain ⟨-, -, -, -, rfl⟩ := h
    exact .ofSilent hop hs (.round (by simp) rfl)
  · cases h

theorem roundFinish_effect (h : s.roundFinish task op = .ok s') : Effect git s Judged s' := by
  unfold Host.roundFinish at h
  split at h
  · rename_i value number workerRunId v runId hs hr
    obtain rfl := Except.ok.inj h
    have hp : ∀ (round : Round) (stage : RepairStage), round.deliveryId = op.deliveryId →
        (Stage.repairing value stage).judging = none →
        Progress git op (Judged task) (.repairing value (.judged number workerRunId v))
          [.roundFinished round] (.repairing value stage) :=
      fun round stage hd hj => .round (by simp [Fact.OfRound, hd]) hj
    refine .ofProgress hop hs hr (hp _ _ rfl ?_)
    split <;> rfl
  · cases h

theorem repairFinish_effect {reason : RepairReason} (h : s.repairFinish task op reason = .ok s') :
    Effect git s Judged s' := by
  unfold Host.repairFinish at h
  split at h
  · rename_i hs hr
    simp only [bind_eq_ok, pure_eq_ok, Except.ok.injEq] at h
    obtain ⟨-, -, rfl⟩ := h
    exact .ofProgress hop hs hr (.repairFinish _ rfl hr)
  · cases h

theorem emitApplied_effect (h : s.emitApplied task op = .ok s') : Effect git s Judged s' := by
  unfold Host.emitApplied at h
  split at h
  · rename_i hs hr
    obtain rfl := Except.ok.inj h
    exact .ofProgress hop hs hr (.applied _)
  · cases h

/-- An exception after the patch ends the run without its fact. -/
theorem applyPatch_effect (h : s.applyPatch git task op = .ok s') : Effect git s Judged s' := by
  unfold Host.applyPatch at h
  split at h
  · rename_i value hs
    simp only [bind_eq_ok, raiseIf_eq_ok, not_not, pure_eq_ok, Except.ok.injEq] at h
    obtain ⟨-, ha, ⟨patch, receipt⟩, hi, rfl⟩ := h
    simp only [Host.applyInput, bind_eq_ok, pure_eq_ok, Except.ok.injEq, Prod.mk.injEq] at hi
    obtain ⟨v, hv, hash, -, -, -, saved, -, rfl, rfl⟩ := hi
    obtain ⟨hv, hp⟩ : value.verification = some v ∧ v.status = .passed := by
      cases hver : value.verification with
      | none => simp [hver] at hv
      | some w =>
        by_cases hw : w.status = .passed <;> simp [hver, Option.filter, hw] at hv
        exact ⟨congrArg some hv, hv ▸ hw⟩
    unfold applyDelivery
    split
    · exact .release hop
    · rename_i tree happly
      have hh := applyChecked_receipt happly
      cases git.checkpoint tree with
      | error e => exact .release hop
      | ok checkpoint =>
        have hprogress : Progress git op (Judged task) (.checked value) []
            (.adopted ⟨git.sha256 saved, checkpoint⟩) := .adopt _ v ha hv hp hh
        have h : Effect git s Judged (s.advance task op
            (Function.update s.world value.prepared.workspaceId tree) s.artifacts []
            (.adopted ⟨git.sha256 saved, checkpoint⟩)) :=
          .work hop (by simp) (hs ▸ hprogress)
        simpa [Host.advance, Host.adopt, Host.setStage, Except.map] using h
  · cases h

theorem enter_effect (h : s.enter task op = .ok s') : Effect git s Judged s' := by
  unfold Host.enter at h
  split at h
  · rename_i hs
    simp only [bind_eq_ok, pure_eq_ok, Except.ok.injEq] at h
    obtain ⟨-, -, -, -, rfl⟩ := h
    exact .enter hop hs
  · cases h

theorem startWeb_effect (h : s.startWeb task op = .ok s') : Effect git s Judged s' := by
  unfold Host.startWeb at h
  split at h
  · rename_i runId hs hc
    simp only [bind_eq_ok, pure_eq_ok, Except.ok.injEq] at h
    obtain ⟨accepted, ha, ⟨⟩, hr, rfl⟩ := h
    exact .startWeb hop hs hc (operationOf_mem ha) hr
  · cases h

theorem acquire_effect {fresh : String} (h : s.acquire task op fresh = .ok s') :
    Effect git s Judged s' := by
  unfold Host.acquire at h
  split at h
  · rename_i hs
    simp only [bind_eq_ok, raiseIf_eq_ok, pure_eq_ok, Except.ok.injEq] at h
    obtain ⟨-, hfree, value, hv, ⟨runId, runs⟩, hrun, rfl⟩ := h
    have hnone : s.locks.get? op.deliveryId = none := by simpa [Dict.contains] using hfree
    have heff : Effect git s Judged _ := .acquire hop hs hnone hv (ownRun_eq_ok hrun)
    simpa [Host.emit, Host.setStage] using heff
  · cases h

theorem finish_effect (h : s.finish task op = .ok s') : Effect git s Judged s' := by
  unfold Host.finish at h
  split at h
  · obtain rfl := Except.ok.inj h
    exact .release hop
  · cases h

theorem fail_effect {status : RunEnd} (h : s.fail task op status = .ok s') :
    Effect git s Judged s' := by
  unfold Host.fail at h
  split at h
  · cases h
  · cases h
  · obtain rfl := Except.ok.inj h
    exact .release hop

end Inside

theorem admitWeb_effect {c : WebCall} (h : s.admitWeb task c = .ok s') :
    Effect git s Judged s' := by
  simp only [Host.admitWeb, bind_eq_ok, raiseIf_eq_ok, pure_eq_ok, Except.ok.injEq] at h
  obtain ⟨-, -, -, -, -, -, -, hrun, -, hnew, rfl⟩ := h
  have htask : s.tasks.get? task = none := by simpa [Dict.contains] using hnew
  have heff : Effect git s Judged _ := .admitWeb htask hrun rfl
  simpa [Host.emit] using heff

theorem call_effect {request : Request} (h : s.call task request = .ok s') :
    Effect git s Judged s' := by
  simp only [Host.call, bind_eq_ok, raiseIf_eq_ok, pure_eq_ok, Except.ok.injEq] at h
  obtain ⟨-, hnew, rfl⟩ := h
  exact .call (by simpa [Dict.contains] using hnew)

/-- A verification that a move writes is the outcome of the checks the move reports. -/
def Move.Judges (m : Move Tree) (task : ℕ) (v : Verified) : Prop :=
  ∃ results, m = .verified task results ∧ (v.status = .passed ↔ checksPassed results = true)

theorem Move.effect {m : Move Tree} (h : m.perform git s = .ok s') : Effect git s m.Judges s' := by
  cases m with
  | admitWeb task c => exact admitWeb_effect h
  | call task request => exact call_effect h
  | startWeb task =>
    obtain ⟨op, hop, h⟩ := resume_eq_ok h
    exact startWeb_effect hop h
  | enter task =>
    obtain ⟨op, hop, h⟩ := resume_eq_ok h
    exact enter_effect hop h
  | acquire task fresh =>
    obtain ⟨op, hop, h⟩ := resume_eq_ok h
    exact acquire_effect hop h
  | prepare task checkout =>
    obtain ⟨op, hop, h⟩ := resume_eq_ok h
    exact prepare_effect hop h
  | verifySource task =>
    obtain ⟨op, hop, h⟩ := resume_eq_ok h
    exact verifySource_effect hop h
  | worker task workerRunId =>
    obtain ⟨op, hop, h⟩ := resume_eq_ok h
    exact worker_effect hop h
  | build task =>
    obtain ⟨op, hop, h⟩ := resume_eq_ok h
    exact build_effect hop h
  | verified task results =>
    obtain ⟨op, hop, h⟩ := resume_eq_ok h
    exact verified_effect hop (fun v hv => ⟨results, rfl, hv⟩) h
  | repairStart task =>
    obtain ⟨op, hop, h⟩ := resume_eq_ok h
    exact repairStart_effect hop h
  | roundStart task =>
    obtain ⟨op, hop, h⟩ := resume_eq_ok h
    exact roundStart_effect hop h
  | roundWritten task workerRunId =>
    obtain ⟨op, hop, h⟩ := resume_eq_ok h
    exact roundWritten_effect hop h
  | roundCandidate task =>
    obtain ⟨op, hop, h⟩ := resume_eq_ok h
    exact roundCandidate_effect hop h
  | roundFinish task =>
    obtain ⟨op, hop, h⟩ := resume_eq_ok h
    exact roundFinish_effect hop h
  | repairFinish task reason =>
    obtain ⟨op, hop, h⟩ := resume_eq_ok h
    exact repairFinish_effect hop h
  | applyPatch task =>
    obtain ⟨op, hop, h⟩ := resume_eq_ok h
    exact applyPatch_effect hop h
  | emitApplied task =>
    obtain ⟨op, hop, h⟩ := resume_eq_ok h
    exact emitApplied_effect hop h
  | finish task =>
    obtain ⟨op, hop, h⟩ := resume_eq_ok h
    exact finish_effect hop h
  | fail task status =>
    obtain ⟨op, hop, h⟩ := resume_eq_ok h
    exact fail_effect hop h
  | edit path tree =>
    obtain rfl := Except.ok.inj h
    exact .files
  | restart =>
    obtain rfl := Except.ok.inj h
    exact .restart

end Eventide.Delivery
