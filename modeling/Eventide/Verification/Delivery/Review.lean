import Eventide.Verification.Delivery.Adoption

/-! # What a Web apply adopts

The Web compares the accepted hash with the latest verification before the delivery lock is
taken, and the value loaded under the lock decides what is applied. Between the two, another
operation of the delivery can commit a verification. -/

namespace Eventide.Delivery

open Outcome

variable {Tree : Type} {git : Git Tree}

/-- A Web apply that has compared the hashes and does not own the delivery yet. -/
def Operation.AwaitsDelivery (op : Operation) (deliveryId : String) : Prop :=
  op.control.isSome ∧ op.request.action = .apply ∧ op.deliveryId = deliveryId ∧
    (op.stage = .called ∨ op.stage = .waiting)

instance (op : Operation) (deliveryId : String) : Decidable (op.AwaitsDelivery deliveryId) :=
  inferInstanceAs (Decidable (_ ∧ _ ∧ _ ∧ _))

/-- The task whose verification the move commits, with the results of its checks. -/
def Move.verifies : Move Tree → Option (ℕ × List CheckResult)
  | .verified task results => some (task, results)
  | _ => none

/-- The hash is the one that the user of the operation accepted. -/
def Host.Accepts (s : Host Tree) (op : Operation) (hash : String) : Prop :=
  ∀ e ∈ s.log, op.control = some e.runId → ∀ a ∈ e.fact.accepted?, a.patchSha256 = some hash

/-- A passing verification is not committed between the check and the lock of a Web apply of
its delivery, unless it is of the accepted patch. -/
def Undisturbed (git : Git Tree) (s : Host Tree) (m : Move Tree) : Prop :=
  ∀ v ∈ m.verifies, checksPassed v.2 = true → ∀ op ∈ s.tasks.get? v.1,
    ∀ patch ∈ op.stage.judging, ∀ other ∈ s.tasks.values,
      other.AwaitsDelivery op.deliveryId → s.Accepts other (git.sha256 patch)

instance (s : Host Tree) (op : Operation) (hash : String) : Decidable (s.Accepts op hash) :=
  inferInstanceAs (Decidable (∀ e ∈ s.log, _ → ∀ a ∈ e.fact.accepted?, _))

instance (git : Git Tree) (s : Host Tree) (m : Move Tree) : Decidable (Undisturbed git s m) :=
  inferInstanceAs (Decidable (∀ v ∈ m.verifies, _ → ∀ op ∈ s.tasks.get? v.1,
    ∀ patch ∈ op.stage.judging, ∀ other ∈ s.tasks.values, _ → _))

/-- The applied patch of a Web operation is the one that its user accepted. -/
def Host.AppliesReviewed (s : Host Tree) : Prop :=
  ∀ runId d result accepted, ⟨runId, .applied d result⟩ ∈ s.log →
    ⟨runId, .operationAccepted accepted⟩ ∈ s.log →
      accepted.patchSha256 = some result.patchSha256

/-! ## Whose run an operation is -/

structure Host.Identified (s : Host Tree) : Prop where
  known : ∀ e ∈ s.log, e.runId ∈ s.runs
  owned : ∀ task op runId, s.tasks.get? task = some op → op.runId = some runId → runId ∈ s.runs
  control : ∀ task op runId, s.tasks.get? task = some op → op.control = some runId →
    op.runId = some runId
  once : ∀ runId a a', ⟨runId, .operationAccepted a⟩ ∈ s.log →
    ⟨runId, .operationAccepted a'⟩ ∈ s.log → a = a'
  unaccepted : ∀ task op runId a, s.tasks.get? task = some op → op.control = none →
    op.runId = some runId → ⟨runId, .operationAccepted a⟩ ∉ s.log

theorem Host.identified_start (world : String → Tree) : ({ world } : Host Tree).Identified := by
  constructor <;> simp

/-- Events that accept nothing are written, and every task is an old one, has no run yet, or
has a new run of its own. -/
theorem Host.Identified.grow {s s' : Host Tree} (hs : s.Identified) {events : List Event}
    (hlog : s'.log = s.log ++ events) (hruns : ∀ r ∈ s.runs, r ∈ s'.runs)
    (hevents : ∀ e ∈ events, e.runId ∈ s'.runs ∧ e.fact.accepted? = none)
    (htasks : ∀ task op, s'.tasks.get? task = some op →
      (∃ old, s.tasks.get? task = some old ∧ op.control = old.control ∧ op.runId = old.runId) ∨
      (op.control = none ∧ ∀ runId, op.runId = some runId → runId ∈ s'.runs ∧ runId ∉ s.runs)) :
    s'.Identified := by
  have hmem : ∀ runId a, ⟨runId, .operationAccepted a⟩ ∈ s'.log →
      ⟨runId, .operationAccepted a⟩ ∈ s.log := by
    intro runId a h
    rw [hlog, List.mem_append] at h
    refine h.resolve_right fun h => ?_
    simpa [Fact.accepted?] using (hevents _ h).2
  constructor
  · intro e he
    rw [hlog, List.mem_append] at he
    rcases he with he | he
    · exact hruns _ (hs.known e he)
    · exact (hevents e he).1
  · intro task op runId hop hr
    rcases htasks task op hop with ⟨old, hold, -, hrun⟩ | ⟨-, hnew⟩
    · exact hruns _ (hs.owned task old runId hold (hrun ▸ hr))
    · exact (hnew runId hr).1
  · intro task op runId hop hc
    rcases htasks task op hop with ⟨old, hold, hcontrol, hrun⟩ | ⟨hnone, -⟩
    · exact hrun ▸ hs.control task old runId hold (hcontrol ▸ hc)
    · rw [hnone] at hc
      cases hc
  · exact fun runId a a' ha ha' => hs.once runId a a' (hmem _ _ ha) (hmem _ _ ha')
  · intro task op runId a hop hc hr ha
    rcases htasks task op hop with ⟨old, hold, hcontrol, hrun⟩ | ⟨-, hnew⟩
    · exact hs.unaccepted task old runId a hold (hcontrol ▸ hc) (hrun ▸ hr) (hmem _ _ ha)
    · exact (hnew runId hr).2 (hs.known _ (hmem _ _ ha))

/-- A new task of a new run, with what its user accepted. -/
theorem Host.Identified.admitWeb {s : Host Tree} (hs : s.Identified) {task : ℕ} {op : Operation}
    {runId : String} {binding : Binding} {accepted : Accepted} (hrun : runId ∉ s.runs)
    (hc : op.control = some runId) (hr : op.runId = some runId) :
    ({ s with
        log := s.log ++ [⟨runId, .runAdmitted binding⟩, ⟨runId, .operationAccepted accepted⟩]
        runs := runId :: s.runs, tasks := s.tasks.set task op } : Host Tree).Identified := by
  have hmem : ∀ r a, ⟨r, .operationAccepted a⟩ ∈
      s.log ++ [⟨runId, .runAdmitted binding⟩, ⟨runId, .operationAccepted accepted⟩] →
      (⟨r, .operationAccepted a⟩ ∈ s.log ∧ r ≠ runId) ∨ (r = runId ∧ a = accepted) := by
    intro r a h
    rw [List.mem_append] at h
    rcases h with h | h
    · exact .inl ⟨h, fun he => hrun (he ▸ hs.known _ h)⟩
    · exact .inr (by simpa using h)
  constructor
  · intro e he
    simp only [List.mem_append, List.mem_cons, List.not_mem_nil, or_false] at he ⊢
    rcases he with he | rfl | rfl
    · exact .inr (hs.known e he)
    · exact .inl rfl
    · exact .inl rfl
  · intro task' op' r hop' hr'
    simp only [Dict.get?_set] at hop'
    split at hop'
    · obtain rfl := Option.some.inj hop'
      obtain rfl : runId = r := Option.some.inj (hr.symm.trans hr')
      exact List.mem_cons_self
    · exact List.mem_cons_of_mem _ (hs.owned task' op' r hop' hr')
  · intro task' op' r hop' hc'
    simp only [Dict.get?_set] at hop'
    split at hop'
    · obtain rfl := Option.some.inj hop'
      rw [hr, ← hc, hc']
    · exact hs.control task' op' r hop' hc'
  · intro r a a' ha ha'
    rcases hmem r a ha with ⟨ha, hne⟩ | ⟨rfl, rfl⟩
    · rcases hmem r a' ha' with ⟨ha', -⟩ | ⟨he, -⟩
      · exact hs.once r a a' ha ha'
      · exact absurd he hne
    · rcases hmem r a' ha' with ⟨-, hne⟩ | ⟨-, rfl⟩
      · exact absurd rfl hne
      · rfl
  · intro task' op' r a hop' hc' hr' ha
    simp only [Dict.get?_set] at hop'
    split at hop'
    · obtain rfl := Option.some.inj hop'
      rw [hc] at hc'
      cases hc'
    · rcases hmem r a ha with ⟨ha, -⟩ | ⟨rfl, -⟩
      · exact hs.unaccepted task' op' r a hop' hc' hr' ha
      · exact hrun (hs.owned task' op' r hop' hr')

theorem Progress.accepted {op : Operation} {Judged : Verified → Prop} {stage stage' : Stage}
    {facts : List Fact} (hp : Progress git op Judged stage facts stage') :
    ∀ fact ∈ facts, fact.accepted? = none := by
  cases hp with
  | round hq hs =>
    intro fact hfact
    have h := hq fact hfact
    cases fact <;> first | rfl | exact h.elim
  | prepare | verified | repairStart | roundVerified | repairFinish | verifySource | worker | build
  | roundBuild | adopt | applied => simp [Fact.accepted?]

theorem Effect.identified {s s' : Host Tree} {Judged : ℕ → Verified → Prop}
    (h : Effect git s Judged s') (hs : s.Identified) : s'.Identified := by
  cases h with
  | admitWeb hnew hrun hop =>
    subst hop
    exact hs.admitWeb hrun rfl rfl
  | call hnew =>
    refine hs.grow (List.append_nil _).symm (fun _ h => h) (by simp) ?_
    intro task' op' hop'
    simp only [Dict.get?_set] at hop'
    split at hop'
    · obtain rfl := Option.some.inj hop'
      exact .inr ⟨rfl, by simp⟩
    · exact .inl ⟨op', hop', rfl, rfl⟩
  | startWeb hop _ _ _ _ | enter hop _ =>
    refine hs.grow (List.append_nil _).symm (fun _ h => h) (by simp) ?_
    intro task' op' hop'
    simp only [Host.setStage, Dict.get?_set] at hop'
    split at hop'
    · subst task'
      obtain rfl := Option.some.inj hop'
      exact .inl ⟨_, hop, rfl, rfl⟩
    · exact .inl ⟨op', hop', rfl, rfl⟩
  | @acquire task op value runId runs hop hs' hfree hv hrun =>
    have hknown : runId ∈ runs ∧ ∀ r ∈ s.runs, r ∈ runs := by
      rcases hrun with ⟨hc, rfl⟩ | ⟨-, -, rfl⟩
      · exact ⟨hs.owned _ _ _ hop (hs.control _ _ _ hop hc), fun _ h => h⟩
      · exact ⟨List.mem_cons_self, fun _ h => List.mem_cons_of_mem _ h⟩
    refine hs.grow rfl hknown.2 (by simp [hknown.1, Fact.accepted?]) ?_
    intro task' op' hop'
    simp only [Dict.get?_set] at hop'
    split at hop'
    · subst task'
      obtain rfl := Option.some.inj hop'
      rcases hrun with ⟨hc, rfl⟩ | ⟨hc, hfresh, rfl⟩
      · exact .inl ⟨_, hop, rfl, (hs.control _ _ _ hop hc).symm⟩
      · refine .inr ⟨hc, ?_⟩
        rintro r ⟨⟩
        exact ⟨hknown.1, hfresh⟩
    · exact .inl ⟨op', hop', rfl, rfl⟩
  | work hop hr hp =>
    refine hs.grow rfl (fun _ h => h) ?_ ?_
    · intro e he
      exact ⟨hs.owned _ _ _ hop (hr e he), hp.accepted _ (List.mem_map_of_mem he)⟩
    · intro task' op' hop'
      simp only [Host.advance, Dict.get?_set] at hop'
      split at hop'
      · subst task'
        obtain rfl := Option.some.inj hop'
        exact .inl ⟨_, hop, rfl, rfl⟩
      · exact .inl ⟨op', hop', rfl, rfl⟩
  | release hop =>
    obtain ⟨events, hlog, hq⟩ := Host.endRun_log _ _ _
    refine hs.grow hlog (by simp [Host.release]) ?_ ?_
    · intro e he
      obtain ⟨hfact, hr⟩ := hq e he
      refine ⟨?_, by rw [hfact]; rfl⟩
      simpa [Host.release] using hs.owned _ _ _ hop hr
    · intro task' op' hop'
      simp only [Host.release, Host.endRun_tasks, Dict.get?_erase] at hop'
      split at hop'
      · cases hop'
      · exact .inl ⟨op', hop', rfl, rfl⟩
  | files =>
    exact hs.grow (List.append_nil _).symm (fun _ h => h) (by simp)
      fun task op hop => .inl ⟨op, hop, rfl, rfl⟩
  | restart =>
    refine hs.grow rfl (fun _ h => h) ?_ (by simp [Host.restart])
    intro e he
    obtain ⟨runId, hr, rfl⟩ := List.mem_map.mp he
    obtain ⟨op, hop, hr⟩ := List.mem_filterMap.mp hr
    obtain ⟨task, hop⟩ := Dict.mem_values.mp hop
    exact ⟨hs.owned task op runId hop hr, rfl⟩

/-! ## The verification that a Web apply relies on -/

def latestVerified (log : List Event) (d : String) : Option Verified :=
  (deliveryFacts log d).reverse.findSome? Fact.verified?

theorem latestVerified_append {log more : List Event} (h : ∀ e ∈ more, e.fact.verified? = none)
    (d : String) : latestVerified (log ++ more) d = latestVerified log d := by
  have hnone : (deliveryFacts more d).reverse.findSome? Fact.verified? = none := by
    simp only [List.findSome?_eq_none_iff, List.mem_reverse, deliveryFacts, List.mem_filter,
      List.mem_map]
    rintro fact ⟨⟨e, he, rfl⟩, -⟩
    exact h e he
  rw [latestVerified, deliveryFacts_append, List.reverse_append, List.findSome?_append, hnone]
  rfl

theorem latestVerified_verified (log : List Event) (runId : String) (v : Verified) (d : String) :
    latestVerified (log ++ [⟨runId, .verified v⟩]) d =
      if v.deliveryId = d then some v else latestVerified log d := by
  unfold latestVerified
  rw [deliveryFacts_append]
  by_cases h : v.deliveryId = d
  · have hone : deliveryFacts [⟨runId, .verified v⟩] d = [.verified v] := by
      simp [deliveryFacts, Fact.deliveryId?, h]
    rw [hone, if_pos h, List.reverse_append]
    rfl
  · have hnone : deliveryFacts [⟨runId, .verified v⟩] d = [] := by
      simp [deliveryFacts, Fact.deliveryId?, h]
    rw [hnone, if_neg h, List.append_nil]

theorem load_verification {log : List Event} {d : String} {value : Loaded}
    (h : load log d = .ok value) : value.verification = latestVerified log d :=
  (load_eq_ok h).1

/-- A passing verification is of the accepted patch. -/
def Accepted.Passes (a : Accepted) (verification : Option Verified) : Prop :=
  ∀ v, verification = some v → v.status = .passed → a.patchSha256 = some v.patchSha256

/-- Where a Web apply is, what it is about to adopt is what was accepted. -/
def Stage.Reviewed (latest : Option Verified) (action : Action) (a : Accepted) : Stage → Prop
  | .called | .waiting => action = .apply → a.Passes latest
  | .locked (some value) | .checked value => action = .apply → a.Passes value.verification
  | .adopted result => a.patchSha256 = some result.patchSha256
  | _ => True

/-- Only a task between the check and the lock relies on the latest verification. -/
theorem Stage.Reviewed.relies {latest latest' : Option Verified} {action : Action} {a : Accepted}
    {stage : Stage} (h : stage.Reviewed latest action a)
    (hw : action = .apply → (stage = .called ∨ stage = .waiting) → a.Passes latest') :
    stage.Reviewed latest' action a := by
  cases stage with
  | called => exact fun ha => hw ha (.inl rfl)
  | waiting => exact fun ha => hw ha (.inr rfl)
  | locked value => cases value <;> exact h
  | admitted | checked | verifying | repairing | adopted | finished => exact h

structure Host.Reviewed (s : Host Tree) : Prop where
  awaits : ∀ task op, s.tasks.get? task = some op → ∀ runId a, op.control = some runId →
    ⟨runId, .operationAccepted a⟩ ∈ s.log →
      op.stage.Reviewed (latestVerified s.log op.deliveryId) op.request.action a
  applied : s.AppliesReviewed

theorem Host.reviewed_start (world : String → Tree) : ({ world } : Host Tree).Reviewed := by
  constructor
  · simp
  · simp [Host.AppliesReviewed]

/-- A fact that neither verifies, applies nor accepts. -/
structure Fact.Aside (fact : Fact) : Prop where
  verified : fact.verified? = none
  applied : fact.applied? = none
  accepted : fact.accepted? = none

theorem Host.Reviewed.grow {s s' : Host Tree} (hs : s.Reviewed) {events : List Event}
    (hlog : s'.log = s.log ++ events) (hevents : ∀ e ∈ events, e.fact.Aside)
    (htasks : ∀ task op, s'.tasks.get? task = some op → s.tasks.get? task = some op ∨
      ∀ runId a, op.control = some runId → ⟨runId, .operationAccepted a⟩ ∈ s.log →
        op.stage.Reviewed (latestVerified s.log op.deliveryId) op.request.action a) :
    s'.Reviewed := by
  have haccepted : ∀ runId a, ⟨runId, .operationAccepted a⟩ ∈ s'.log →
      ⟨runId, .operationAccepted a⟩ ∈ s.log := by
    intro runId a h
    rw [hlog, List.mem_append] at h
    exact h.resolve_right fun h => by simpa [Fact.accepted?] using (hevents _ h).accepted
  constructor
  · intro task op hop runId a hc ha
    rw [hlog, latestVerified_append fun e he => (hevents e he).verified]
    rcases htasks task op hop with hold | hnew
    · exact hs.awaits task op hold runId a hc (haccepted runId a ha)
    · exact hnew runId a hc (haccepted runId a ha)
  · intro runId d result a hr ha
    rw [hlog, List.mem_append] at hr
    have hold := hr.resolve_right fun h => by simpa [Fact.applied?] using (hevents _ h).applied
    exact hs.applied runId d result a hold (haccepted runId a ha)

/-- A task inside the lock adopts what it loaded. -/
theorem Progress.reviewed {op : Operation} {Judged : Verified → Prop} {stage stage' : Stage}
    {facts : List Fact} {l : Life} {a : Accepted} {latest latest' : Option Verified}
    (hp : Progress git op Judged stage facts stage') (hl : l.Sound)
    (hf : stage.Fits git op.request.action op.runId l)
    (hr : stage.Reviewed latest op.request.action a) :
    stage'.Reviewed latest' op.request.action a := by
  cases hp with
  | verifySource hg => exact hr
  | adopt result v ha hv hpassed hh =>
    have hreceipt := hl.receipt v (hf.1.verification ▸ hv)
    have haccepted : a.patchSha256 = some v.patchSha256 := hr ha v hv hpassed
    exact haccepted.trans (hreceipt.symm.trans hh)
  | prepare | worker | build | verified | repairStart | round | roundBuild | roundVerified
  | repairFinish | applied => trivial

/-- What a task writes is aside, one verification of the patch it judged, or the adoption. -/
theorem Progress.writes {op : Operation} {Judged : Verified → Prop} {stage stage' : Stage}
    {facts : List Fact} (hp : Progress git op Judged stage facts stage') :
    (∀ fact ∈ facts, fact.Aside) ∨
    (∃ v patch, facts = [.verified v] ∧ v.deliveryId = op.deliveryId ∧ Judged v ∧
      stage.judging = some patch ∧ v.patchSha256 = git.sha256 patch) ∨
    ∃ result, facts = [.applied op.deliveryId result] ∧ stage = .adopted result := by
  cases hp with
  | verified v hd hh hj => exact .inr (.inl ⟨v, _, rfl, hd, hj, rfl, hh⟩)
  | roundVerified v hd hh hj => exact .inr (.inl ⟨v, _, rfl, hd, hj, rfl, hh⟩)
  | applied result => exact .inr (.inr ⟨result, rfl, rfl⟩)
  | round hq hs =>
    refine .inl fun fact hfact => ?_
    have h := hq fact hfact
    cases fact <;> first | exact ⟨rfl, rfl, rfl⟩ | exact h.elim
  | prepare p hd => exact .inl (by simpa using ⟨rfl, rfl, rfl⟩)
  | worker workerRunId => exact .inl (by simpa using ⟨rfl, rfl, rfl⟩)
  | repairStart contract hd ho ha hs => exact .inl (by simpa using ⟨rfl, rfl, rfl⟩)
  | repairFinish result hd ho => exact .inl (by simpa using ⟨rfl, rfl, rfl⟩)
  | verifySource | build | roundBuild | adopt => exact .inl (by simp)

theorem Host.Reviewed.admitWeb {s : Host Tree} (hs : s.Reviewed) (hi : s.Identified) {task : ℕ}
    {op : Operation} {runId : String} {binding : Binding} {accepted : Accepted}
    (hrun : runId ∉ s.runs) (hstage : op.stage = .admitted) :
    ({ s with
        log := s.log ++ [⟨runId, .runAdmitted binding⟩, ⟨runId, .operationAccepted accepted⟩]
        runs := runId :: s.runs, tasks := s.tasks.set task op } : Host Tree).Reviewed := by
  constructor
  · intro task' op' hop' r a hc ha
    rw [latestVerified_append (by simp [Fact.verified?])]
    simp only [Dict.get?_set] at hop'
    split at hop'
    · obtain rfl := Option.some.inj hop'
      rw [hstage]
      trivial
    · simp only [List.mem_append, List.mem_cons, List.not_mem_nil, or_false] at ha
      rcases ha with ha | ha | ha
      · exact hs.awaits task' op' hop' r a hc ha
      · simp at ha
      · obtain rfl : r = runId := congrArg Event.runId ha
        exact absurd (hi.owned task' op' r hop' (hi.control task' op' r hop' hc)) hrun
  · intro r d result a hr ha
    simp only [List.mem_append, List.mem_cons, List.not_mem_nil, or_false, Event.mk.injEq,
      reduceCtorEq, and_false] at hr
    simp only [List.mem_append, List.mem_cons, List.not_mem_nil, or_false] at ha
    rcases ha with ha | ha | ha
    · exact hs.applied r d result a hr ha
    · simp at ha
    · obtain rfl : r = runId := congrArg Event.runId ha
      exact absurd (hi.known _ hr) hrun

/-- The check of `_execute`. -/
theorem checkReviewed_passes {s : Host Tree} {accepted : Accepted}
    (h : s.checkReviewed accepted = .ok ()) (ha : accepted.action = .apply) :
    accepted.Passes (latestVerified s.log accepted.deliveryId) := by
  unfold Host.checkReviewed at h
  simp only [ha, if_true, bind_eq_ok, raiseIf_eq_ok, not_not, Option.any_eq_true,
    decide_eq_true_eq] at h
  obtain ⟨value, hload, v, hv, hhash⟩ := h
  intro w hw hp
  rw [← load_verification hload, hv] at hw
  obtain rfl := Option.some.inj hw
  exact hhash.symm

/-- The value loaded under the lock has the verification that was latest there. -/
theorem loadOpen_reviewed {s : Host Tree} {op : Operation} {value : Option Loaded} {a : Accepted}
    (h : s.loadOpen op = .ok value)
    (hr : op.request.action = .apply → a.Passes (latestVerified s.log op.deliveryId)) :
    (Stage.locked value).Reviewed (latestVerified s.log op.deliveryId) op.request.action a := by
  cases value with
  | none => trivial
  | some value =>
    obtain ⟨hload, -⟩ := loadOpen_eq_ok h
    intro ha
    rw [load_verification hload]
    exact hr ha

/-- The facts of a task inside the lock: the other tasks rely on the verification it writes. -/
theorem Host.Reviewed.work {s : Host Tree} (hs : s.Reviewed) (hi : s.Identified)
    (hg : s.Guarded git) {m : Move Tree} (hm : Undisturbed git s m) {task : ℕ} {op : Operation}
    {world : String → Tree} {artifacts : Dict (String × String) Patch} {events : List Event}
    {stage : Stage} (hop : s.tasks.get? task = some op)
    (hr : ∀ e ∈ events, op.runId = some e.runId)
    (hp : Progress git op (m.Judges task) op.stage (events.map Event.fact) stage) :
    (s.advance task op world artifacts events stage).Reviewed := by
  obtain ⟨l, hl⟩ := hg.live op.deliveryId
  have hown : ∀ latest runId a, op.control = some runId → ⟨runId, .operationAccepted a⟩ ∈ s.log →
      stage.Reviewed latest op.request.action a := fun latest runId a hc ha =>
    hp.reviewed (life_records hl).toSound (hg.fits task op l hop hl) (hs.awaits task op hop runId a hc ha)
  have haccepted : ∀ runId a, ⟨runId, .operationAccepted a⟩ ∈ s.log ++ events →
      ⟨runId, .operationAccepted a⟩ ∈ s.log := by
    intro runId a h
    rw [List.mem_append] at h
    exact h.resolve_right fun h => by
      simpa [Fact.accepted?] using hp.accepted _ (List.mem_map_of_mem h)
  rcases hp.writes with haside | ⟨v, patch, hv, hd, hj, hjudging, hhash⟩ | ⟨result, hresult, hs'⟩
  · refine hs.grow rfl (fun e he => haside _ (List.mem_map_of_mem he)) ?_
    intro task' op' hop'
    simp only [Host.advance, Dict.get?_set] at hop'
    split at hop'
    · obtain rfl := Option.some.inj hop'
      exact .inr fun runId a hc ha => hown _ runId a hc ha
    · exact .inl hop'
  · obtain ⟨e, rfl, he⟩ := List.map_eq_singleton_iff.mp hv
    obtain ⟨runId, fact⟩ := e
    obtain rfl : fact = .verified v := he
    constructor
    · intro task' op' hop' r a hc ha
      have hold := haccepted r a ha
      simp only [Host.advance, Dict.get?_set] at hop' ⊢
      split at hop'
      · obtain rfl := Option.some.inj hop'
        exact hown _ r a hc hold
      · have hbefore := hs.awaits task' op' hop' r a hc hold
        rw [latestVerified_verified]
        split
        · rename_i hsame
          -- The new verification is of the delivery that this task may be waiting for.
          have hnew : op'.request.action = .apply →
              (op'.stage = .called ∨ op'.stage = .waiting) → a.Passes (some v) := by
            rintro haction hwaits w ⟨⟩ hpassed
            obtain ⟨results, rfl, hstatus⟩ := hj
            have hawaits : op'.AwaitsDelivery op.deliveryId :=
              ⟨by rw [hc]; rfl, haction, by rw [← hsame, hd], hwaits⟩
            rw [hhash]
            exact hm _ rfl (hstatus.mp hpassed) op hop patch hjudging op'
              (Dict.mem_values.mpr ⟨task', hop'⟩) hawaits _ hold hc a rfl
          exact hbefore.relies hnew
        · exact hbefore
    · intro r d result a hr' ha
      simp only [Host.advance, List.mem_append, List.mem_singleton, Event.mk.injEq, reduceCtorEq,
        and_false, or_false] at hr'
      exact hs.applied r d result a hr' (haccepted r a ha)
  · obtain ⟨e, rfl, he⟩ := List.map_eq_singleton_iff.mp hresult
    have hquiet : ∀ e' ∈ [e], e'.fact.verified? = none := by simp [he, Fact.verified?]
    constructor
    · intro task' op' hop' r a hc ha
      have hold := haccepted r a ha
      simp only [Host.advance, Dict.get?_set] at hop' ⊢
      rw [latestVerified_append hquiet]
      split at hop'
      · obtain rfl := Option.some.inj hop'
        exact hown _ r a hc hold
      · exact hs.awaits task' op' hop' r a hc hold
    · intro r d applied a hr' ha
      have hold := haccepted r a ha
      simp only [Host.advance, List.mem_append, List.mem_singleton] at hr'
      rcases hr' with hr' | rfl
      · exact hs.applied r d applied a hr' hold
      · obtain ⟨-, rfl⟩ := Fact.applied.inj he
        have hrun := hr _ (List.mem_singleton.mpr rfl)
        cases hc : op.control with
        | none => exact absurd hold (hi.unaccepted task op r a hop hc hrun)
        | some control =>
          obtain rfl : control = r :=
            Option.some.inj ((hi.control task op control hop hc).symm.trans hrun)
          have hadopted := hs.awaits task op hop control a hc hold
          rw [hs'] at hadopted
          exact hadopted

/-- One case for each effect; the condition is used only where a verification is written. -/
theorem Effect.reviewed {s s' : Host Tree} {m : Move Tree} (h : Effect git s m.Judges s')
    (hm : Undisturbed git s m) (hg : s.Guarded git) (hi : s.Identified) (hs : s.Reviewed) :
    s'.Reviewed := by
  cases h with
  | admitWeb hnew hrun hop =>
    subst hop
    exact hs.admitWeb hi hrun rfl
  | call hnew =>
    refine hs.grow (List.append_nil _).symm (by simp) ?_
    intro task' op' hop'
    simp only [Dict.get?_set] at hop'
    split at hop'
    · obtain rfl := Option.some.inj hop'
      exact .inr (by simp)
    · exact .inl hop'
  | @startWeb task op runId accepted hop hs' hc ha hr =>
    refine hs.grow (List.append_nil _).symm (by simp) ?_
    intro task' op' hop'
    simp only [Host.setStage, Dict.get?_set] at hop'
    split at hop'
    · obtain rfl := Option.some.inj hop'
      refine .inr fun r a hc' ha' haction => ?_
      obtain rfl : runId = r := Option.some.inj (hc.symm.trans hc')
      obtain rfl := hi.once runId a accepted ha' ha
      exact checkReviewed_passes hr haction
    · exact .inl hop'
  | @enter task op hop hs' =>
    refine hs.grow (List.append_nil _).symm (by simp) ?_
    intro task' op' hop'
    simp only [Host.setStage, Dict.get?_set] at hop'
    split at hop'
    · obtain rfl := Option.some.inj hop'
      refine .inr fun r a hc ha => ?_
      have hbefore := hs.awaits task op hop r a hc ha
      rw [hs'] at hbefore
      exact hbefore
    · exact .inl hop'
  | @acquire task op value runId runs hop hs' hfree hv hrun =>
    refine hs.grow rfl ?_ ?_
    · simpa using ⟨⟨rfl, rfl, rfl⟩, ⟨rfl, rfl, rfl⟩⟩
    · intro task' op' hop'
      simp only [Dict.get?_set] at hop'
      split at hop'
      · obtain rfl := Option.some.inj hop'
        refine .inr fun r a hc ha => ?_
        have hbefore := hs.awaits task op hop r a hc ha
        rw [hs'] at hbefore
        exact loadOpen_reviewed hv hbefore
      · exact .inl hop'
  | work hop hr hp => exact hs.work hi hg hm hop hr hp
  | release hop =>
    obtain ⟨events, hlog, hq⟩ := Host.endRun_log _ _ _
    refine hs.grow hlog ?_ ?_
    · intro e he
      rw [(hq e he).1]
      exact ⟨rfl, rfl, rfl⟩
    · intro task' op' hop'
      simp only [Host.release, Host.endRun_tasks, Dict.get?_erase] at hop'
      split at hop'
      · cases hop'
      · exact .inl hop'
  | files => exact hs.grow (List.append_nil _).symm (by simp) fun task op hop => .inl hop
  | restart =>
    refine hs.grow rfl ?_ (by simp [Host.restart])
    intro e he
    obtain ⟨runId, -, rfl⟩ := List.mem_map.mp he
    exact ⟨rfl, rfl, rfl⟩

theorem Reachable.reviewed {s : Host Tree} (h : Reachable git (Undisturbed git) s) :
    s.Identified ∧ s.Reviewed := by
  induction h with
  | start world => exact ⟨Host.identified_start world, Host.reviewed_start world⟩
  | move m hs ha hm ih =>
    have heff := m.effect hm
    exact ⟨heff.identified ih.1, heff.reviewed ha hs.guarded ih.1 ih.2⟩

/-! ## Runs of given moves -/

section Follow

variable {allowed : Host Tree → Move Tree → Prop} [∀ s m, Decidable (allowed s m)]

/-- The host after the moves, if all are allowed and go through. -/
def follow (git : Git Tree) (allowed : Host Tree → Move Tree → Prop)
    [∀ s m, Decidable (allowed s m)] (s : Host Tree) : List (Move Tree) → Option (Host Tree)
  | [] => some s
  | m :: moves =>
    if allowed s m then
      match m.perform git s with
      | .ok s' => follow git allowed s' moves
      | .error _ => none
    else none

theorem follow_reachable {moves : List (Move Tree)} {s s' : Host Tree}
    (hs : Reachable git allowed s) (h : follow git allowed s moves = some s') :
    Reachable git allowed s' := by
  induction moves generalizing s with
  | nil => exact Option.some.inj h ▸ hs
  | cons m moves ih =>
    unfold follow at h
    split at h
    · rename_i ha
      split at h
      · rename_i mid hm
        exact ih (.move m hs ha hm) h
      · cases h
    · cases h

/-- A host with a checked property is reached. -/
theorem follow_exists {moves : List (Move Tree)} {world : String → Tree} {p : Host Tree → Bool}
    (h : (follow git allowed { world } moves).any p = true) :
    ∃ s, Reachable git allowed s ∧ p s = true := by
  obtain ⟨s, hs, hp⟩ := (Option.any_eq_true _ _).mp h
  exact ⟨s, follow_reachable (.start world) hs, hp⟩

end Follow

/-! ## A patch that nobody reviewed -/

/-- A checkout whose content is its patch. -/
def sampleGit : Git Patch where
  common _ := ".git"
  branch _ := "main"
  files _ := .ok []
  checkpoint tree := .ok ⟨"head", "", String.ofList (tree.map fun b => Char.ofNat b.toNat), []⟩
  dirty tree := tree ≠ []
  isAncestor _ _ := true
  isProtected _ _ := false
  diff tree _ _ _ := .ok tree
  patched _ _ _ := .ok ([], [])
  applyPatch _ patch := .ok patch
  sha256 patch := String.ofList (List.replicate 64 (Char.ofNat (48 + (patch.headD 0).toNat)))

def sampleDelivery : String := "delivery_0123456789abcdef"

/-- The delivery is prepared and the patch `[1]` of its checkout verified. -/
def sampleVerified : List (Move Patch) :=
  [.call 0 { action := .prepare, deliveryId := sampleDelivery, target := "src", name := some "fix" },
    .enter 0, .acquire 0 "run_prepare", .prepare 0 "checkout", .finish 0, .edit "checkout" [1]] ++
  [.call 1 { action := .verify, deliveryId := sampleDelivery, target := "src", checks := ["make"] },
    .enter 1, .acquire 1 "run_verify", .verifySource 1, .build 1,
    .verified 1 [⟨"check_1", "", false, some 0, false⟩], .finish 1]

/-- The Web apply of the patch `[1]`, up to the delivery lock. -/
def sampleAccept : List (Move Patch) :=
  [.admitWeb 3 {
      projectId := "project", workspaceId := "src", runId := "run_web", action := .apply
      deliveryId := some sampleDelivery, patchSha256 := some (sampleGit.sha256 [1]) },
    .startWeb 3, .enter 3]

def sampleAdopt : List (Move Patch) :=
  [.acquire 3 "", .verifySource 3, .applyPatch 3, .emitApplied 3]

/-- A second `verify` owns the delivery when the Web apply makes its check. -/
def sampleWindow : List (Move Patch) :=
  [.edit "checkout" [2],
    .call 2 { action := .verify, deliveryId := sampleDelivery, target := "src", checks := ["make"] },
    .enter 2, .acquire 2 "run_again", .verifySource 2, .build 2] ++ sampleAccept ++
  [.verified 2 [⟨"check_1", "", false, some 0, false⟩], .finish 2]

/-- A Web operation has adopted another patch than its user accepted. -/
def Host.unreviewed (s : Host Tree) : Bool :=
  s.log.any fun e => s.log.any fun e' => e.runId = e'.runId ∧
    e.fact.applied?.any fun result => e'.fact.accepted?.any fun accepted =>
      accepted.patchSha256 ≠ some result.patchSha256

theorem Host.AppliesReviewed.not_unreviewed {s : Host Tree} (h : s.AppliesReviewed) :
    s.unreviewed = false := by
  rw [Bool.eq_false_iff]
  intro hu
  simp only [Host.unreviewed, List.any_eq_true, decide_eq_true_eq, Option.any_eq_true] at hu
  obtain ⟨⟨runId, fact⟩, he, ⟨runId', fact'⟩, he', hrun, result, hr, accepted, ha, hne⟩ := hu
  obtain rfl : runId = runId' := hrun
  cases fact <;> simp [Fact.applied?] at hr
  cases fact' <;> simp [Fact.accepted?] at ha
  subst hr ha
  exact hne (h _ _ _ _ he he')

/-! ## Adoption -/

/-- In every interleaving a delivery is applied once, and after a started repair only when it
passed. A Web apply adopts what its user accepted as long as no verification of another patch
passes between its check and its lock. -/
theorem delivery_adoption (git : Git Tree) :
    (∀ s : Host Tree, Reachable git (fun _ _ => True) s → s.AppliedOnce ∧ s.RepairsPassed) ∧
      ∀ s : Host Tree, Reachable git (Undisturbed git) s →
        s.AppliesReviewed ∧ s.AppliedOnce ∧ s.RepairsPassed :=
  ⟨fun _ h => ⟨h.guarded.appliedOnce, h.guarded.repairsPassed⟩,
    fun _ h => ⟨h.reviewed.2.applied, h.guarded.appliedOnce, h.guarded.repairsPassed⟩⟩

theorem delivery_adoption_false :
    ¬ ∀ s : Host Patch, Reachable sampleGit (fun _ _ => True) s →
      s.AppliesReviewed ∧ s.AppliedOnce ∧ s.RepairsPassed := by
  intro h
  have hrun : (follow sampleGit (fun _ _ => True) { world := fun _ => [] }
      (sampleVerified ++ sampleWindow ++ sampleAdopt)).any Host.unreviewed = true := by
    decide +kernel
  obtain ⟨s, hs, hu⟩ := follow_exists hrun
  rw [(h s hs).1.not_unreviewed] at hu
  cases hu

/-- The Web's run has adopted the patch. -/
def Host.adopted (s : Host Patch) (patch : Patch) : Bool :=
  s.log.any fun e => e.runId = "run_web" ∧
    e.fact.applied?.any fun result => result.patchSha256 = sampleGit.sha256 patch

theorem delivery_adoption_sample :
    ∃ s : Host Patch, s.adopted [1] = true ∧ s.AppliesReviewed ∧ s.AppliedOnce ∧
      s.RepairsPassed := by
  have hrun : (follow sampleGit (Undisturbed sampleGit) { world := fun _ => [] }
      (sampleVerified ++ sampleAccept ++ sampleAdopt)).any (Host.adopted · [1]) = true := by
    decide +kernel
  obtain ⟨s, hs, hp⟩ := follow_exists hrun
  exact ⟨s, hp, (delivery_adoption sampleGit).2 s hs⟩

end Eventide.Delivery
