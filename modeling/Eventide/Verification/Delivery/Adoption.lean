import Eventide.Verification.Delivery.Life
import Eventide.Verification.Delivery.Steps

/-! # What the delivery lock guards

The facts of every delivery make up a life, whatever the interleaving: only the task inside
the lock writes them, and what it loaded under the lock stays true until it leaves. -/

namespace Eventide.Delivery

open Outcome

variable {Tree : Type} {git : Git Tree}

/-! ## One step of a task inside the lock -/

/-- What a task knows of the life of its delivery while it is inside the lock. -/
def Stage.Fits (git : Git Tree) (action : Action) (runId : Option String) (l : Life) :
    Stage → Prop
  | .locked (some value) => value.Agrees l
  | .checked value => value.Agrees l ∧ repairGate action value = .ok ()
  | .verifying _ patch receipt => receipt.patchSha256 = some (git.sha256 patch)
  | .repairing _ (.verifying _ _ patch receipt) =>
    ((∃ c, l.repair = some c ∧ runId = some c.controlRunId) ∧ l.result = none ∧
      l.applied = none) ∧ receipt.patchSha256 = some (git.sha256 patch)
  | .repairing _ _ =>
    (∃ c, l.repair = some c ∧ runId = some c.controlRunId) ∧ l.result = none ∧ l.applied = none
  | .adopted _ => l.applied = none ∧ l.Open
  | _ => True

theorem Stage.fits_outside {action : Action} {runId : Option String} {l : Life} {stage : Stage}
    (h : stage.inside = false) : stage.Fits git action runId l := by
  cases stage with
  | admitted | called | waiting => trivial
  | locked | checked | verifying | repairing | adopted | finished => cases h

/-- The repair of the task is the running one. -/
theorem Stage.Fits.running {action : Action} {runId : Option String} {l : Life} {value : Loaded}
    {stage : RepairStage} (h : (Stage.repairing value stage).Fits git action runId l) :
    (∃ c, l.repair = some c ∧ runId = some c.controlRunId) ∧ l.result = none ∧
      l.applied = none := by
  cases stage with
  | verifying => exact h.1
  | ready | writing | written | candidate | judged | passed => exact h

theorem Stage.fits_running {action : Action} {runId : Option String} {l : Life} {value : Loaded}
    {stage : RepairStage} (hs : (Stage.repairing value stage).judging = none)
    (h : (∃ c, l.repair = some c ∧ runId = some c.controlRunId) ∧ l.result = none ∧
      l.applied = none) : (Stage.repairing value stage).Fits git action runId l := by
  cases stage with
  | verifying => cases hs
  | ready | writing | written | candidate | judged | passed => exact h

theorem repairGate_repair {value : Loaded} (h : repairGate .repair value = .ok ()) :
    value.repair = none := by
  unfold repairGate at h
  split at h
  · simp [bind_eq_ok] at h
  · simpa using ‹¬ value.repair.isSome = true›

theorem repairGate_apply {value : Loaded} {l : Life} (ha : value.Agrees l)
    (h : repairGate .apply value = .ok ()) : l.Open := by
  intro contract hc
  have hsome : value.repair.isSome = true := by rw [ha.repair, hc]; rfl
  unfold repairGate at h
  rw [if_pos hsome] at h
  simp only [bind_eq_ok, raiseIf_eq_ok, true_and, not_not] at h
  obtain ⟨-, -, -, -, hp⟩ := h
  rw [ha.result] at hp
  simpa [Option.any_eq_true] using hp

theorem Fact.OfRound.quiet {fact : Fact} {d : String} (h : fact.OfRound d) : fact.Quiet := by
  cases fact <;> first | exact fun _ => rfl | exact h.elim

theorem foldlM_quiet {facts : List Fact} (h : ∀ fact ∈ facts, fact.Quiet) (l : Life) :
    facts.foldlM Life.step l = some l := by
  induction facts with
  | nil => rfl
  | cons fact facts ih =>
    rw [List.foldlM_cons, h fact (by simp) l]
    exact ih fun f hf => h f (by simp [hf])

/-- A task goes on as the life of its delivery allows. -/
theorem Progress.fits {op : Operation} {Judged : Verified → Prop} {stage stage' : Stage}
    {facts : List Fact} {l : Life} (hp : Progress git op Judged stage facts stage')
    (hl : l.Sound) (hf : stage.Fits git op.request.action op.runId l) :
    ∃ l', facts.foldlM Life.step l = some l' ∧
      stage'.Fits git op.request.action op.runId l' := by
  cases hp with
  | prepare p hd => exact ⟨l, rfl, trivial⟩
  | verifySource hg => exact ⟨l, rfl, hf, hg⟩
  | worker workerRunId => exact ⟨l, rfl, trivial⟩
  | build hr => exact ⟨l, rfl, hr⟩
  | verified v hd hh hj =>
    have hr : v.receipt.patchSha256 = some v.patchSha256 := hh ▸ hf
    exact ⟨{ l with verified := some v }, by simp [Life.step, hr], trivial⟩
  | repairStart contract hd ho ha hs =>
    obtain ⟨hagrees, hgate⟩ := hf
    have hfresh : l.repair = none := hagrees.repair ▸ repairGate_repair (ha ▸ hgate)
    have hnone : l.result = none := by
      cases hr : l.result with
      | none => rfl
      | some result =>
        obtain ⟨c, hc, -⟩ := hl.owner result hr
        simp [hfresh] at hc
    refine ⟨{ l with repair := some contract }, ?_, ?_⟩
    · simp [Life.step, hfresh, hnone, hagrees.applied]
    · exact Stage.fits_running hs ⟨⟨contract, rfl, ho⟩, hnone, hagrees.applied⟩
  | round hq hs => exact ⟨l, foldlM_quiet (fun fact h => (hq fact h).quiet) l,
      Stage.fits_running hs hf.running⟩
  | roundBuild hr => exact ⟨l, rfl, hf.running, hr⟩
  | roundVerified v hd hh hj =>
    have hr : v.receipt.patchSha256 = some v.patchSha256 := hh ▸ hf.2
    exact ⟨{ l with verified := some v }, by simp [Life.step, hr], hf.1⟩
  | repairFinish result hd ho =>
    obtain ⟨⟨contract, hc, hrun⟩, hnone, happlied⟩ := hf.running
    have howner : contract.controlRunId = result.controlRunId :=
      Option.some.inj (hrun.symm.trans ho)
    exact ⟨{ l with result := some result }, by simp [Life.step, hnone, happlied, hc, howner],
      trivial⟩
  | adopt result v ha hv hp hh =>
    obtain ⟨hagrees, hgate⟩ := hf
    exact ⟨l, rfl, hagrees.applied, repairGate_apply hagrees (ha ▸ hgate)⟩
  | applied result =>
    obtain ⟨hnone, hopen⟩ := hf
    exact ⟨{ l with applied := some result }, by simp [Life.step, hnone, hopen], trivial⟩

theorem Progress.deliveryId {op : Operation} {Judged : Verified → Prop} {stage stage' : Stage}
    {facts : List Fact} (hp : Progress git op Judged stage facts stage') :
    ∀ fact ∈ facts, fact.deliveryId? = some op.deliveryId := by
  cases hp with
  | round hq hs =>
    intro fact hfact
    have h := hq fact hfact
    cases fact <;> first | exact congrArg some h | exact h.elim
  | prepare p hd => simp [Fact.deliveryId?, hd]
  | verified v hd hh hj => simp [Fact.deliveryId?, hd]
  | repairStart contract hd ho ha hs => simp [Fact.deliveryId?, hd]
  | roundVerified v hd hh hj => simp [Fact.deliveryId?, hd]
  | repairFinish result hd ho => simp [Fact.deliveryId?, hd]
  | verifySource | worker | build | roundBuild | adopt | applied => simp [Fact.deliveryId?]

theorem Progress.inside {op : Operation} {Judged : Verified → Prop} {stage stage' : Stage}
    {facts : List Fact} (hp : Progress git op Judged stage facts stage') :
    stage.inside = true ∧ stage'.inside = true := by
  cases hp <;> exact ⟨rfl, rfl⟩

/-! ## The invariant -/

theorem deliveryFacts_append (log more : List Event) (d : String) :
    deliveryFacts (log ++ more) d = deliveryFacts log d ++ deliveryFacts more d := by
  simp [deliveryFacts]

theorem deliveryFacts_of_same {log : List Event} {d : String}
    (h : ∀ fact ∈ log.map Event.fact, fact.deliveryId? = some d) :
    deliveryFacts log d = log.map Event.fact := by
  unfold deliveryFacts
  rw [List.filter_eq_self]
  simpa using h

theorem deliveryFacts_of_other {log : List Event} {d d' : String} (hne : d' ≠ d)
    (h : ∀ fact ∈ log.map Event.fact, fact.deliveryId? = some d) :
    deliveryFacts log d' = [] := by
  unfold deliveryFacts
  rw [List.filter_eq_nil_iff]
  intro fact hfact
  simp [h fact hfact, hne.symm]

/-- Facts that every life ignores change none. -/
theorem life_quiet {log more : List Event} (h : ∀ e ∈ more, e.fact.Quiet) (d : String) :
    life (deliveryFacts (log ++ more) d) = life (deliveryFacts log d) := by
  rw [deliveryFacts_append, life_append]
  have hq : ∀ l, (deliveryFacts more d).foldlM Life.step l = some l := by
    apply foldlM_quiet
    intro fact hfact
    obtain ⟨e, he, rfl⟩ := List.mem_map.mp (List.mem_filter.mp hfact).1
    exact h e he
  simp [hq]

structure Host.Guarded (git : Git Tree) (s : Host Tree) : Prop where
  locked : ∀ task op, s.tasks.get? task = some op → op.stage.inside = true →
    s.locks.get? op.deliveryId = some task
  live : ∀ d, ∃ l, life (deliveryFacts s.log d) = some l
  fits : ∀ task op l, s.tasks.get? task = some op →
    life (deliveryFacts s.log op.deliveryId) = some l →
    op.stage.Fits git op.request.action op.runId l

theorem Host.guarded_start (world : String → Tree) : ({ world } : Host Tree).Guarded git where
  locked := by simp
  live d := ⟨{}, rfl⟩
  fits := by simp

/-- A task inside the lock of a delivery is the only one. -/
theorem Host.Guarded.unique {s : Host Tree} (hs : s.Guarded git) {task task' : ℕ}
    {op op' : Operation} (hop : s.tasks.get? task = some op) (hin : op.stage.inside = true)
    (hop' : s.tasks.get? task' = some op') (hin' : op'.stage.inside = true)
    (hd : op'.deliveryId = op.deliveryId) : task' = task := by
  have h := hs.locked task op hop hin
  have h' := hs.locked task' op' hop' hin'
  rw [hd, h] at h'
  exact (Option.some.inj h').symm

/-- Lives and the tasks inside a lock stay as they are. -/
theorem Host.Guarded.frame {s s' : Host Tree} (hs : s.Guarded git)
    (hlife : ∀ d, life (deliveryFacts s'.log d) = life (deliveryFacts s.log d))
    (htasks : ∀ task op, s'.tasks.get? task = some op → op.stage.inside = true →
      s.tasks.get? task = some op ∧ s'.locks.get? op.deliveryId = some task) :
    s'.Guarded git where
  locked task op hop hin := (htasks task op hop hin).2
  live d := by
    rw [hlife]
    exact hs.live d
  fits task op l hop hl := by
    rw [hlife] at hl
    cases hin : op.stage.inside with
    | false => exact Stage.fits_outside hin
    | true => exact hs.fits task op l (htasks task op hop hin).1 hl

/-- A task outside every lock is replaced, and quiet facts are written. -/
theorem Host.Guarded.outside {s s' : Host Tree} (hs : s.Guarded git) {task : ℕ} {op : Operation}
    {events : List Event} (hlog : s'.log = s.log ++ events) (hq : ∀ e ∈ events, e.fact.Quiet)
    (htasks : s'.tasks = s.tasks.set task op) (hlocks : s'.locks = s.locks)
    (hout : op.stage.inside = false) : s'.Guarded git := by
  refine hs.frame (fun d => hlog ▸ life_quiet hq d) ?_
  intro task' op' hop' hin'
  rw [htasks, Dict.get?_set] at hop'
  split at hop'
  · rw [← Option.some.inj hop', hout] at hin'
    cases hin'
  · exact ⟨hop', hlocks ▸ hs.locked task' op' hop' hin'⟩

/-- The one task inside the lock of a delivery writes its facts and goes on. -/
theorem Host.Guarded.work {s : Host Tree} (hs : s.Guarded git) {task : ℕ} {op : Operation}
    {world : String → Tree} {artifacts : Dict (String × String) Patch} {events : List Event}
    {stage : Stage} {Judged : Verified → Prop} (hop : s.tasks.get? task = some op)
    (hp : Progress git op Judged op.stage (events.map Event.fact) stage) :
    (s.advance task op world artifacts events stage).Guarded git := by
  obtain ⟨hin, hin'⟩ := hp.inside
  obtain ⟨l, hl⟩ := hs.live op.deliveryId
  obtain ⟨l', hstep, hfits⟩ := hp.fits (life_records hl).toSound (hs.fits task op l hop hl)
  have hsame : life (deliveryFacts (s.log ++ events) op.deliveryId) = some l' := by
    rw [deliveryFacts_append, life_append, hl, deliveryFacts_of_same hp.deliveryId]
    exact hstep
  have hother : ∀ d, d ≠ op.deliveryId →
      deliveryFacts (s.log ++ events) d = deliveryFacts s.log d := by
    intro d hd
    rw [deliveryFacts_append, deliveryFacts_of_other hd hp.deliveryId, List.append_nil]
  constructor
  · intro task' op' hop' hins
    simp only [Host.advance, Dict.get?_set] at hop' ⊢
    split at hop'
    · subst task'
      obtain rfl := Option.some.inj hop'
      exact hs.locked task op hop hin
    · exact hs.locked task' op' hop' hins
  · intro d
    by_cases hd : d = op.deliveryId
    · exact ⟨l', hd ▸ hsame⟩
    · simpa only [Host.advance, hother d hd] using hs.live d
  · intro task' op' m hop' hm
    simp only [Host.advance, Dict.get?_set] at hop' hm
    split at hop'
    · obtain rfl := Option.some.inj hop'
      obtain rfl : l' = m := Option.some.inj (hsame.symm.trans hm)
      exact hfits
    · rename_i hne
      cases hins : op'.stage.inside with
      | false => exact Stage.fits_outside hins
      | true =>
        have hd : op'.deliveryId ≠ op.deliveryId := fun hd =>
          hne (hs.unique hop hin hop' hins hd)
        rw [hother _ hd] at hm
        exact hs.fits task' op' m hop' hm

theorem loadOpen_eq_ok {s : Host Tree} {op : Operation} {value : Loaded}
    (h : s.loadOpen op = .ok (some value)) :
    load s.log op.deliveryId = .ok value ∧ value.applied = false := by
  unfold Host.loadOpen at h
  split at h
  · cases h
  · simp only [bind_eq_ok, raiseIf_eq_ok, pure_eq_ok, Except.ok.injEq, Option.some.injEq,
      Bool.not_eq_true] at h
    obtain ⟨loaded, hload, -, happlied, rfl⟩ := h
    exact ⟨hload, happlied⟩

/-- The lock is free, so nobody is inside it; what is loaded now stays true. -/
theorem Host.Guarded.acquire {s s' : Host Tree} (hs : s.Guarded git) {task : ℕ}
    {op op' : Operation} {value : Option Loaded} {events : List Event}
    (hfree : s.locks.get? op.deliveryId = none) (hv : s.loadOpen op = .ok value)
    (hlog : s'.log = s.log ++ events) (hq : ∀ e ∈ events, e.fact.Quiet)
    (htasks : s'.tasks = s.tasks.set task op') (hlocks : s'.locks = s.locks.set op.deliveryId task)
    (hop' : op'.deliveryId = op.deliveryId) (hstage : op'.stage = .locked value) :
    s'.Guarded git := by
  have hlife : ∀ d, life (deliveryFacts s'.log d) = life (deliveryFacts s.log d) :=
    fun d => hlog ▸ life_quiet hq d
  constructor
  · intro task' other hother hin
    rw [htasks, Dict.get?_set] at hother
    rw [hlocks, Dict.get?_set]
    split at hother
    · subst task'
      obtain rfl := Option.some.inj hother
      rw [if_pos hop']
    · have h := hs.locked task' other hother hin
      have hne : other.deliveryId ≠ op.deliveryId := by
        intro he
        rw [he, hfree] at h
        cases h
      rw [if_neg hne]
      exact h
  · intro d
    rw [hlife]
    exact hs.live d
  · intro task' other l hother hl
    rw [hlife] at hl
    rw [htasks, Dict.get?_set] at hother
    split at hother
    · obtain rfl := Option.some.inj hother
      rw [hop'] at hl
      rw [hstage]
      cases value with
      | none => trivial
      | some value =>
        obtain ⟨hload, happlied⟩ := loadOpen_eq_ok hv
        exact load_agrees hload happlied hl
    · exact hs.fits task' other l hother hl

/-- The task is gone; the lock it owned is free. -/
theorem Host.Guarded.release {s : Host Tree} (hs : s.Guarded git) {task : ℕ} {op : Operation}
    (hop : s.tasks.get? task = some op) {s' : Host Tree} {events : List Event}
    (hlog : s'.log = s.log ++ events) (hq : ∀ e ∈ events, e.fact.Quiet)
    (htasks : s'.tasks = s.tasks.erase task)
    (hlocks : s'.locks = if op.stage.inside then s.locks.erase op.deliveryId else s.locks) :
    s'.Guarded git := by
  refine hs.frame (fun d => hlog ▸ life_quiet hq d) ?_
  intro task' other hother hin
  rw [htasks, Dict.get?_erase] at hother
  split at hother
  · cases hother
  · rename_i hne
    refine ⟨hother, ?_⟩
    have h := hs.locked task' other hother hin
    rw [hlocks]
    split
    · rename_i hin'
      have hd : other.deliveryId ≠ op.deliveryId := fun hd =>
        hne (hs.unique hop hin' hother hin hd)
      rw [Dict.get?_erase, if_neg hd]
      exact h
    · exact h

/-! ## Every move keeps it -/

theorem Host.endRun_log (s : Host Tree) (op : Operation) (status : RunEnd) :
    ∃ events : List Event, (s.endRun op status).log = s.log ++ events ∧
      ∀ e ∈ events, e.fact = .runEnded status ∧ op.runId = some e.runId := by
  unfold Host.endRun
  split
  · rename_i runId hr
    exact ⟨[⟨runId, .runEnded status⟩], rfl, by simp [hr]⟩
  · exact ⟨[], by simp, by simp⟩

@[simp] theorem Host.endRun_tasks (s : Host Tree) (op : Operation) (status : RunEnd) :
    (s.endRun op status).tasks = s.tasks := by
  unfold Host.endRun
  split <;> rfl

@[simp] theorem Host.endRun_locks (s : Host Tree) (op : Operation) (status : RunEnd) :
    (s.endRun op status).locks = s.locks := by
  unfold Host.endRun
  split <;> rfl

@[simp] theorem Host.endRun_runs (s : Host Tree) (op : Operation) (status : RunEnd) :
    (s.endRun op status).runs = s.runs := by
  unfold Host.endRun
  split <;> rfl

theorem quiet_runEnded (status : RunEnd) : (Fact.runEnded status).Quiet := fun _ => rfl

/-- One case for each effect. -/
theorem Effect.guarded {s s' : Host Tree} {Judged : ℕ → Verified → Prop}
    (h : Effect git s Judged s') (hs : s.Guarded git) : s'.Guarded git := by
  cases h with
  | admitWeb hnew hrun hop =>
    subst hop
    refine hs.outside rfl ?_ rfl rfl rfl
    simp [Fact.Quiet, Life.step]
  | call hnew => exact hs.outside (List.append_nil _).symm (by simp) rfl rfl rfl
  | startWeb hop hs' hc ha hr =>
    exact hs.outside (List.append_nil _).symm (by simp) rfl rfl rfl
  | enter hop hs' => exact hs.outside (List.append_nil _).symm (by simp) rfl rfl rfl
  | acquire hop hs' hfree hv hrun =>
    refine hs.acquire hfree hv rfl ?_ rfl rfl rfl rfl
    simp [Fact.Quiet, Life.step]
  | work hop hr hp => exact hs.work hop hp
  | release hop =>
    obtain ⟨events, hlog, hq⟩ := Host.endRun_log _ _ _
    refine hs.release hop hlog ?_ ?_ ?_
    · exact fun e he => (hq e he).1 ▸ quiet_runEnded _
    · simp [Host.release]
    · simp [Host.release]
  | files => exact hs.frame (fun _ => rfl) fun task op hop hin => ⟨hop, hs.locked task op hop hin⟩
  | restart =>
    refine hs.frame (fun d => life_quiet ?_ d) ?_
    · simp only [List.mem_map]
      rintro e ⟨runId, -, rfl⟩
      exact quiet_runEnded _
    · intro task op hop
      simp [Host.restart] at hop

theorem Reachable.guarded {s : Host Tree} {allowed : Host Tree → Move Tree → Prop}
    (h : Reachable git allowed s) : s.Guarded git := by
  induction h with
  | start world => exact Host.guarded_start world
  | move m _ _ hm ih => exact m.effect hm |>.guarded ih

/-! ## One adoption, and none after an unfinished repair -/

def Host.AppliedOnce (s : Host Tree) : Prop :=
  ∀ d, ((deliveryFacts s.log d).filterMap Fact.applied?).length ≤ 1

/-- Before a `delivery.applied`, every started repair of the delivery has passed. -/
def Host.RepairsPassed (s : Host Tree) : Prop :=
  ∀ before after runId d result, s.log = before ++ ⟨runId, .applied d result⟩ :: after →
    ∀ contract, .repairStarted contract ∈ deliveryFacts before d →
      ∃ finished, .repairFinished finished ∈ deliveryFacts before d ∧
        finished.controlRunId = contract.controlRunId ∧ finished.reason = .passed

theorem Host.Guarded.appliedOnce {s : Host Tree} (hs : s.Guarded git) : s.AppliedOnce := by
  intro d
  obtain ⟨l, hl⟩ := hs.live d
  rw [(life_records hl).applied]
  cases l.applied <;> simp

theorem mem_filterMap_repairStarted {facts : List Fact} {contract : Contract} :
    .repairStarted contract ∈ facts ↔ contract ∈ facts.filterMap Fact.repairStarted? := by
  rw [List.mem_filterMap]
  constructor
  · exact fun h => ⟨_, h, rfl⟩
  · rintro ⟨fact, hfact, h⟩
    cases fact <;> simp [Fact.repairStarted?] at h
    exact h ▸ hfact

theorem mem_filterMap_repairFinished {facts : List Fact} {result : RepairResult} :
    .repairFinished result ∈ facts ↔ result ∈ facts.filterMap Fact.repairFinished? := by
  rw [List.mem_filterMap]
  constructor
  · exact fun h => ⟨_, h, rfl⟩
  · rintro ⟨fact, hfact, h⟩
    cases fact <;> simp [Fact.repairFinished?] at h
    exact h ▸ hfact

/-- The life was open when the fact was written. -/
theorem Host.Guarded.repairsPassed {s : Host Tree} (hs : s.Guarded git) : s.RepairsPassed := by
  intro before after runId d result hlog contract hc
  obtain ⟨l, hl⟩ := hs.live d
  have hsplit : deliveryFacts s.log d =
      (deliveryFacts before d ++ [.applied d result]) ++ deliveryFacts after d := by
    rw [hlog]
    simp [deliveryFacts, Fact.deliveryId?]
  rw [hsplit] at hl
  obtain ⟨l', hl'⟩ := life_prefix hl
  obtain ⟨mid, hmid, hstep⟩ := life_concat hl'
  simp only [Life.step, Option.ite_none_right_eq_some] at hstep
  obtain ⟨⟨-, hopen⟩, -⟩ := hstep
  have hrec := life_records hmid
  rw [mem_filterMap_repairStarted, hrec.repair, Option.mem_toList] at hc
  obtain ⟨finished, hf, hpassed⟩ := hopen contract hc
  obtain ⟨owner, ho, hrun⟩ := hrec.owner finished hf
  obtain rfl : contract = owner := Option.some.inj (hc.symm.trans ho)
  refine ⟨finished, ?_, hrun.symm, hpassed⟩
  rw [mem_filterMap_repairFinished, hrec.result, Option.mem_toList]
  exact hf

end Eventide.Delivery
