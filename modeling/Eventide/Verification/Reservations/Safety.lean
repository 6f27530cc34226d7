import Eventide.Verification.Reservations.Admission
import Eventide.Verification.Store.Growth

/-! # Reservations in every run of the host -/

namespace Eventide

open Outcome RuntimeStore RuntimeScheduler Stretch

namespace Reservations

variable {h : Host} {r : String}

/-! ## Preparations -/

theorem preparation?_eq_some {p : Preparation} (hp : h.preparation? r = some p) :
    p ∈ h.preparations ∧ p.runId = r :=
  ⟨List.mem_of_find?_eq_some hp, by simpa using List.find?_some hp⟩

theorem preparation?_eq_none (hp : h.preparation? r = none) :
    ∀ p ∈ h.preparations, p.runId ≠ r := by
  simpa [Host.preparation?] using hp

/-- Every preparation that awaits goes on as `Unlisted.suspend` wants it. -/
theorem Held.suspend (hh : Held none h) {p : Preparation} (hp : p ∈ h.preparations) {phase : Phase}
    (hphase : phase.reserved = p.phase.reserved) : Held none (h.suspend p phase) := by
  refine (hh.unsuspend hp).suspend (p := { p with phase }) rfl (hh.unadmitted p hp)
    (hh.ticketed p hp) ?_
  rw [show ({ p with phase } : Preparation).phase.reserved = p.phase.reserved from hphase]
  refine ⟨hh.reserved p hp, fun hm => ?_⟩
  by_contra hf
  exact hh.unreserved p hp (Bool.eq_false_iff.mpr hf) hm

/-- The rest of a preparation's coroutine, up to its end. -/
theorem Held.resume (hh : Held none h) {p : Preparation} (hp : p ∈ h.preparations)
    {P : Host → Prop} (hP : P (h.unsuspend p)) (env : Env) (fault : Option PyError) {body : Code}
    (hbody : Leaves P body (fun t => Accepted p.runId t ∧ p.runId ∉ t.pending.keys)
      (Settled p.runId)) : Held none (p.resume env fault body (h.unsuspend p)).2 := by
  unfold Preparation.resume
  cases hticket : p.ticket with
  | none => exact (leaves_writing env fault hbody).state hP
  | some ticket =>
    have hid := (hh.ticketed p hp ticket hticket).1
    rw [← hid] at hbody
    exact (leaves_owning env ticket (hbody.mono (fun _ ht => ht.1) fun _ => id)).state hP

theorem Held.raise (hh : Held none h) {p : Preparation} (hp : p ∈ h.preparations) (env later : Env)
    (fault : Option PyError) (error : PyError) :
    Held none (p.resume later fault (p.raises env error) (h.unsuspend p)).2 :=
  hh.resume hp ⟨hh.unsuspend hp, hh.unreserved p hp⟩ later fault (leaves_raises p env error)

theorem reserveAdmission_ok {q q' : RuntimeScheduler} {s : RuntimeStore} {sid : String}
    {startable : Bool} {ticket : AdmissionTicket}
    (h : q.reserveAdmission s r sid startable = .ok (ticket, q')) :
    r ≠ "" ∧ q.owns r = false ∧ s.getRunIdentity r = none ∧ ticket.runId = r ∧
      q' = q.addTicket ticket := by
  unfold RuntimeScheduler.reserveAdmission at h
  simp only [bind_eq_ok, raiseIf_eq_ok, pure_eq_ok, Except.ok.injEq, Prod.mk.injEq, not_or,
    Bool.not_eq_true, Option.isSome_eq_false_iff, Option.isNone_iff_eq_none] at h
  obtain ⟨_, ⟨hne, -⟩, _, ⟨hown, hid⟩, _, -, _, -, _, -, _, -, _, -, rfl, rfl⟩ := h
  exact ⟨hne, hown, hid, rfl, rfl⟩

theorem Unlisted.addTicket (hh : Unlisted r h) (ticket : AdmissionTicket) :
    Unlisted r { h with scheduler := h.scheduler.addTicket ticket } :=
  { hh with
    held := { hh.held with
      ticketed := fun p hp t ht => by
        obtain ⟨hid, hm⟩ := hh.held.ticketed p hp t ht
        exact ⟨hid, Dict.mem_keys_set.mpr (Or.inr hm)⟩
      awaited := hh.held.awaited, resolved := hh.held.resolved, leased := hh.held.leased
      running := hh.held.running } }

/-- A run that nobody prepares or has admitted is not registered. -/
theorem Held.unregistered (hh : Held none h) (hprepared : ∀ p ∈ h.preparations, p.runId ≠ r)
    (hnone : admittedIntent h.store r = none) : r ∉ h.admissionDone.keys := by
  intro hm
  rcases hh.owner r hm with hc | ⟨p, hp, he⟩ | hsome
  · cases hc
  · exact hprepared p hp he
  · rw [hnone] at hsome
    cases hsome

theorem held_reserve (hh : Held none h) (r sid : String) : Held none (h.reserve r sid) := by
  unfold Host.reserve
  split
  · exact hh
  · rename_i hbusy
    split
    · exact hh
    · rename_i ticket q hq
      obtain ⟨hne, hown, hid, hticket, rfl⟩ := reserveAdmission_ok hq
      have hnone := admittedIntent_unknown hh.log hne hid
      have hprepared : ∀ p ∈ h.preparations, p.runId ≠ r := by
        rintro p hp rfl
        cases hp' : p.ticket with
        | none =>
          refine hbusy (Or.inr (List.any_eq_true.mpr ⟨p, hp, ?_⟩))
          simp [hp']
        | some t =>
          have hm := (hh.ticketed p hp t hp').2
          rw [owns_iff.mpr (Or.inl hm)] at hown
          cases hown
      have hunlisted := (hh.without hne hprepared hnone).addTicket ticket
      refine hunlisted.suspend (p := ⟨r, sid, some ticket, .starting⟩) rfl hnone ?_ ?_
      · intro t ht
        obtain rfl := Option.some.inj ht
        exact ⟨hticket, Dict.mem_keys_set.mpr (Or.inl hticket.symm)⟩
      · exact ⟨fun hc => (nomatch hc), fun hm => absurd hm (hh.unregistered hprepared hnone)⟩

theorem fresh_spec (hh : Held none h) (hf : h.fresh r = true) :
    Unlisted r h ∧ admittedIntent h.store r = none ∧ r ∉ h.admissionDone.keys := by
  simp only [Host.fresh, Bool.and_eq_true, decide_eq_true_eq, Option.isNone_iff_eq_none] at hf
  obtain ⟨⟨⟨⟨hne, hid⟩, -⟩, -⟩, hprepared⟩ := hf
  have hnone := admittedIntent_unknown hh.log hne hid
  have hp := preparation?_eq_none hprepared
  exact ⟨hh.without hne hp hnone, hnone, hh.unregistered hp hnone⟩

theorem held_write (hh : Held none h) (r sid : String) : Held none (h.write r sid) := by
  unfold Host.write
  split
  · rename_i hf
    obtain ⟨hunlisted, hnone, hnot⟩ := fresh_spec hh hf
    refine hunlisted.suspend (p := ⟨r, sid, none, .starting⟩) rfl hnone
      (fun t ht => (nomatch ht)) ?_
    exact ⟨fun hc => (nomatch hc), fun hm => absurd hm hnot⟩
  · exact hh

/-- The reservation of a preparation that has its lock. -/
theorem held_lock (hh : Held none h) {p : Preparation} (hp : p ∈ h.preparations)
    (hphase : p.phase.reserved = false) (key : String) (workspaceId : Option String) :
    Held none (((h.addAdmission p.runId p.sessionId).claim p.runId key).suspend p
      (.preparing workspaceId)) := by
  have hun := hh.unsuspend hp
  have hadd := hun.held.addAdmission p.sessionId (hh.unreserved p hp hphase) hun.prepared
    hun.executed
  have hmem : p.runId ∈ ((h.unsuspend p).addAdmission p.runId p.sessionId).admissionDone.keys :=
    Dict.mem_keys_set.mpr (Or.inl rfl)
  have hclaimed : Unlisted p.runId
      (((h.unsuspend p).addAdmission p.runId p.sessionId).claim p.runId key) :=
    { held := hadd.claim hmem key, named := hun.named, prepared := hun.prepared
      future := hun.future, executed := hun.executed, unlisted := hun.unlisted }
  exact hclaimed.suspend (p := { p with phase := .preparing workspaceId }) rfl
    (hh.unadmitted p hp) (hh.ticketed p hp) ⟨fun _ => hmem, fun _ => rfl⟩

/-! ## Tasks -/

theorem Controller.source_injective {a b : Controller} (h : a.source = b.source) : a = b := by
  revert h
  cases a <;> cases b <;> decide

/-- A run may be started only while it is registered, and then no other list has it. -/
theorem startable_spec (hh : Held none h) {starter : Starter}
    (hs : h.startable r starter = true) :
    (admittedIntent h.store r).isSome = true ∧ r ∈ h.admissionDone.keys ∧
      r ∉ (h.unlist r starter).pending.keys := by
  cases starter with
  | parent => cases hs
  | host =>
    simp only [Host.startable, Bool.and_eq_true, Bool.not_eq_true'] at hs
    obtain ⟨⟨⟨⟨⟨hsession, hsome⟩, -⟩, -⟩, hdone⟩, -⟩ := hs
    refine ⟨hsome, Dict.contains_iff.mp hdone, fun hm => ?_⟩
    obtain ⟨kind, hkind⟩ := Option.isSome_iff_exists.mp (Dict.mem_keys.mp hm)
    obtain ⟨-, -, ⟨e, he, hrun, hne, -, hcontrol⟩, -⟩ := hh.listed r kind hkind
    obtain ⟨identity, hidentity, hnot⟩ := (Option.any_eq_true _ _).mp hsession
    obtain ⟨turn, hrow, -⟩ := getRunIdentity_eq_some hidentity
    obtain ⟨hmem, hid⟩ := getRunRow_eq_some hrow
    obtain ⟨run, hrunmem, hrunid, hsid, -⟩ :=
      hh.log.owned e he r (givenRun_eq_some.mpr ⟨hrun, hne⟩)
    have hsame : identity.1 = run :=
      List.inj_on_of_nodup_map hh.log.runs_nodup hmem hrunmem (hid.trans hrunid.symm)
    rw [hsame, hsid, hcontrol] at hnot
    cases hnot
  | controller kind =>
    simp only [Host.startable, Bool.and_eq_true, Bool.not_eq_true'] at hs
    obtain ⟨⟨⟨⟨-, hcontrolled⟩, hopen⟩, -⟩, hlist⟩ := hs
    have hsome : (admittedIntent h.store r).isSome = true := by
      cases hintent : admittedIntent h.store r with
      | none =>
        rw [isControlledBy, hintent] at hcontrolled
        simp at hcontrolled
      | some intent => rfl
    refine ⟨hsome, ?_, fun hm => ?_⟩
    · split at hlist
      · obtain ⟨-, -, -, hrest⟩ := hh.listed r kind (of_decide_eq_true hlist)
        rcases hrest with hc | hended | hdone
        · cases hc
        · rw [hopen] at hended
          cases hended
        · exact hdone
      · simp only [Bool.and_eq_true] at hlist
        exact Dict.contains_iff.mp hlist.2
    · unfold Host.unlist at hm
      dsimp only at hm
      split at hm
      · exact (Dict.mem_keys_erase.mp hm).1 rfl
      · rename_i hlists
        obtain ⟨other, hother⟩ := Option.isSome_iff_exists.mp (Dict.mem_keys.mp hm)
        obtain ⟨hlists', hcontrolled', -⟩ := hh.listed r other hother
        have hsource := (of_decide_eq_true hcontrolled).symm.trans (of_decide_eq_true hcontrolled')
        obtain rfl := Controller.source_injective (Option.some.inj hsource)
        exact hlists hlists'

theorem Held.unlistStarter (hh : Held none h) (r : String) (starter : Starter) :
    Held none (h.unlist r starter) := by
  unfold Host.unlist
  split
  · split
    · exact hh.unlist r
    · exact hh
  · exact hh

/-- A registered run whose task may be made. -/
structure Startable (r : String) (ps : List Preparation) (h : Host) : Prop where
  held : Held none h
  preparations : h.preparations = ps
  admitted : (admittedIntent h.store r).isSome = true
  registered : r ∈ h.admissionDone.keys
  unlisted : r ∉ h.pending.keys

theorem leaves_dispatchStart (r : String) (starter : Starter) (fault : Option PyError)
    (ps : List Preparation) :
    Leaves (Startable r ps) (dispatchStart r starter fault)
      (fun h => Held none h ∧ h.preparations = ps) (fun h => Held none h ∧ h.preparations = ps) := by
  have hfuture : Leaves (Startable r ps)
      (Stretch.write (ε := PyError) fun h : Host => { h with ready := h.ready.set r .pending })
      (Startable r ps) (fun h => Held none h ∧ h.preparations = ps) := by
    refine leaves_write fun h hh => { hh with held := ?_ }
    refine { hh.held with awaited := ?_, future := ?_, resolved := ?_ }
    · intro j hj
      rw [Dict.get?_set] at hj
      split at hj
      · rename_i he
        exact Or.inr (Or.inl (he ▸ hh.registered))
      · exact hh.held.awaited j hj
    · intro j hj
      rcases Dict.mem_keys_set.mp hj with rfl | hj
      · exact hh.admitted
      · exact hh.held.future j hj
    · intro j hj
      rw [Dict.get?_set] at hj
      split at hj
      · exact absurd (Option.some.inj hj) (by decide)
      · exact hh.held.resolved j hj
  have htask : Leaves (Startable r ps)
      (Stretch.write (ε := PyError) fun h : Host =>
        { h with executions := ⟨r, starter, false⟩ :: h.executions })
      (Startable r ps) (fun h => Held none h ∧ h.preparations = ps) :=
    leaves_write fun h hh => { hh with
      held := { hh.held with
        executed := List.forall_mem_cons.mpr ⟨⟨hh.admitted, hh.unlisted⟩, hh.held.executed⟩
        running := List.forall_mem_cons.mpr ⟨fun _ hc => (by cases hc), hh.held.running⟩ } }
  refine hfuture.andThen (Leaves.andThen ((leaves_raiseWhen fault).mono (fun _ => id)
    fun _ hh => ⟨hh.held, hh.preparations⟩) (htask.andThen fun h hh => ?_))
  split
  · rename_i hlease
    refine ⟨fun _ => ⟨{ hh.held with awaited := ?_, future := ?_, resolved := ?_ },
      hh.preparations⟩, fun _ hc => (by cases hc)⟩
    · intro j hj
      rw [Dict.get?_set] at hj
      split at hj
      · exact absurd (Option.some.inj hj) (by decide)
      · exact hh.held.awaited j hj
    · intro j hj
      rcases Dict.mem_keys_set.mp hj with rfl | hj
      · exact hh.admitted
      · exact hh.held.future j hj
    · intro j hj
      rw [Dict.get?_set] at hj
      split at hj
      · rename_i he
        obtain ⟨lease, hl⟩ := Option.isSome_iff_exists.mp hlease
        exact he ▸ (hh.held.leased r lease hl).2
      · exact hh.held.resolved j hj
  · exact leaves_dispatch ps h ⟨hh.held, hh.preparations⟩

theorem held_startRun (hh : Held none h) {starter : Starter}
    (hs : h.startable r starter = true) (env : Env) (fault : Option PyError) :
    Held none (startRun env r starter fault h).2 := by
  obtain ⟨hadmitted, hregistered, hunlisted⟩ := startable_spec hh hs
  have hframe : ∀ t : Host, t.store = h.store → t.preparations = h.preparations →
      ∀ p ∈ h.preparations, p.runId = r → p.phase.reserved = false :=
    fun _ _ _ p hp he => absurd he (hh.not_prepared hadmitted p hp)
  have hstart : Leaves (Startable r h.preparations)
      (((dispatchStart r starter fault).rescue fun error =>
          (abandon env r error).andThen (finished r)).andThen
        (Stretch.write fun t : Host => { t with runTasks := r :: t.runTasks }))
      (Held none) (Held none) := by
    refine Leaves.andThen (Leaves.rescue (leaves_dispatchStart r starter fault h.preparations)
      fun error => (leaves_cleanup env r error h.preparations (hframe h rfl rfl)).mono
        (fun _ ht => ht.1) fun _ ht => ht.1) (leaves_write fun t ht => ?_)
    exact { ht.1 with log := ht.1.log }
  have hunlist : Startable r h.preparations (h.unlist r starter) := by
    refine ⟨hh.unlistStarter r starter, ?_, ?_, ?_, hunlisted⟩ <;>
      · unfold Host.unlist
        split
        · split <;> first | rfl | assumption
        · first | rfl | assumption
  exact hstart.state hunlist

theorem held_startWorker (hh : Held none h) (hf : h.fresh r = true) (env : Env) (sid : String)
    (intent : Json) (facts : List Fact) :
    Held none (startWorker env r sid intent facts h).2 := by
  obtain ⟨hunlisted, hnone, hnot⟩ := fresh_spec hh hf
  have hadmission : Leaves (fun t : Host => Unlisted r t ∧ admittedIntent t.store r = none ∧
        r ∉ t.admissionDone.keys)
      (admitRun env r sid (admission intent :: facts) none)
      (fun t => Accepted r t ∧ r ∉ t.pending.keys) (Held none) := by
    refine (leaves_admitRun (F := fun t => r ∉ t.admissionDone.keys) (fun _ _ hf _ => hf) env r
      sid intent facts none).mono (fun t ht => ⟨ht.1.accept ?_, ht.1.unlisted⟩) fun t ht => ?_
    · rw [ht.2.1.1]
      rfl
    · have hsettled : Settled r t := { ht.1.toAdmitting with
        owned := fun hm => absurd hm ht.2, listed := fun hm => absurd hm ht.1.unlisted }
      exact hsettled.settle
  have hworker : Leaves (fun t : Host => Unlisted r t ∧ admittedIntent t.store r = none ∧
        r ∉ t.admissionDone.keys)
      (startWorker env r sid intent facts) (Held none) (Held none) :=
    hadmission.andThen (leaves_write fun t ht => ht.1.execute ht.2)
  exact hworker.state ⟨hunlisted, hnone, hnot⟩

theorem held_wake (hh : Held none h) {x : Execution} (hx : x ∈ h.executions)
    (hready : h.ready.get? x.runId = some .result) :
    Held none { h with executions := { x with running := true } :: h.executions.erase x } :=
  { hh.dropExecution x with
    executed := List.forall_mem_cons.mpr ⟨hh.executed x hx, (hh.dropExecution x).executed⟩
    running := List.forall_mem_cons.mpr
      ⟨fun _ _ _ => hh.resolved x.runId hready, (hh.dropExecution x).running⟩ }

/-! ## Calls of `_workspace_execution` -/

theorem Held.setEntry (hh : Held none h) (n : ℕ) (x : Entry)
    (hwaiter : ∀ done, x.place = .waiting done → done ∈ h.happened ∨
      ∃ r admission, h.admissionDone.get? r = some admission ∧ admission.done = done)
    (hsound : ∀ e, x.place ≠ .raised e) : Held none { h with entries := h.entries.set n x } :=
  { hh with
    waiter := fun m y done hy hplace => by
      rw [Dict.get?_set] at hy
      split at hy
      · obtain rfl := Option.some.inj hy
        exact hwaiter done hplace
      · exact hh.waiter m y done hy hplace
    sound := fun m y e hy => by
      rw [Dict.get?_set] at hy
      split at hy
      · obtain rfl := Option.some.inj hy
        exact hsound e
      · exact hh.sound m y e hy }

theorem Held.eraseEntry (hh : Held none h) (n : ℕ) :
    Held none { h with entries := h.entries.erase n } :=
  { hh with
    waiter := fun m y done hy hplace => by
      rw [Dict.get?_erase] at hy
      split at hy
      · cases hy
      · exact hh.waiter m y done hy hplace
    sound := fun m y e hy => by
      rw [Dict.get?_erase] at hy
      split at hy
      · cases hy
      · exact hh.sound m y e hy }

/-- A claim names a registered run, so the lookup of its admission succeeds. -/
theorem Held.place (hh : Held none h) (n : ℕ) (x : Entry) : Held none (h.move n x (h.place x)) := by
  refine hh.setEntry n _ (fun done hplace => ?_) fun e hplace => ?_
  · simp only [Host.place] at hplace
    split at hplace
    · cases hplace
    · split at hplace
      · cases hplace
      · split at hplace
        · rename_i reserved _ _ _ admission hadmission
          refine Or.inr ⟨reserved, admission, hadmission, ?_⟩
          injection hplace
        · cases hplace
  · simp only [Host.place] at hplace
    split at hplace
    · cases hplace
    · rename_i reserved hreserved
      split at hplace
      · cases hplace
      · split at hplace
        · cases hplace
        · rename_i hnone
          exact Dict.get?_eq_none.mp hnone (hh.claimed x.key reserved hreserved)

/-! ## Every step -/

theorem held_perform (hh : Held none h) (env : Env) (call : StoreCall) :
    Held none (h.perform env call) := by
  have heffect := StoreCall.perform_effect env (call.writes_any h.store)
  unfold Host.perform
  dsimp only
  split
  · exact hh
  · rename_i hguard
    refine hh.store (hh.log.effect heffect) heffect.extends_log fun p hp => ?_
    obtain ⟨rows, hrows⟩ := heffect.extends_log
    refine admittedIntent_none hrows.symm (fun e he hkind hrun => hguard ?_) (hh.unadmitted p hp)
    refine List.any_eq_true.mpr ⟨p, hp, List.contains_iff_mem.mpr ?_⟩
    rw [Host.admits, ← hrows, List.drop_left, ← hrun]
    exact List.mem_map_of_mem (List.mem_filter.mpr ⟨he, decide_eq_true hkind⟩)

theorem held_withPreparation (hh : Held none h) {f : Preparation → Host}
    (hf : ∀ p ∈ h.preparations, p.runId = r → Held none (f p)) :
    Held none (h.withPreparation r f) := by
  unfold Host.withPreparation
  cases hp : h.preparation? r with
  | none => exact hh
  | some p => exact hf p (preparation?_eq_some hp).1 (preparation?_eq_some hp).2

theorem held_withEntry (hh : Held none h) {n : ℕ} {f : Entry → Host}
    (hf : ∀ x, Held none (f x)) : Held none (h.withEntry n f) := by
  unfold Host.withEntry
  cases h.entries.get? n with
  | none => exact hh
  | some x => exact hf x

theorem held_act (hh : Held none h) (action : Action) : Held none (h.act action) := by
  cases action with
  | reserve runId sid => exact held_reserve hh runId sid
  | write runId sid => exact held_write hh runId sid
  | check runId workspaceId env fault =>
    refine held_withPreparation hh fun p hp _ => ?_
    split
    · rename_i hphase
      split
      · exact hh.suspend hp (by rw [hphase]; rfl)
      · exact hh.raise hp _ _ _ _
    · exact hh
  | lock runId =>
    refine held_withPreparation hh fun p hp he => ?_
    split
    · rename_i workspaceId hphase
      split
      · exact hh
      · rw [← he]
        exact held_lock hh hp (by rw [hphase]; rfl) _ _
    · exact hh
  | claim runId key free env =>
    refine held_withPreparation hh fun p hp he => ?_
    split
    · rename_i hphase
      split
      · exact hh.raise hp _ _ _ _
      · exact hh.claim (he ▸ hh.reserved p hp (by rw [hphase]; rfl)) key
    · exact hh
  | commit runId env intent facts c fault =>
    refine held_withPreparation hh fun p hp _ => ?_
    split
    · exact hh.resume hp ⟨hh.unsuspend hp, hh.unadmitted p hp⟩ _ _
        (leaves_commit p env intent facts c fault)
    · exact hh
  | control runId env kind intent facts =>
    refine held_withPreparation hh fun p hp _ => ?_
    split
    · rename_i hc
      obtain ⟨hphase, hticket, hsession, hsource⟩ := hc
      obtain ⟨ticket, ht⟩ := Option.isSome_iff_exists.mp hticket
      have hbody := leaves_control p (env 0) kind intent facts hsource
      rw [← (hh.ticketed p hp ticket ht).1] at hbody
      unfold Preparation.resume
      rw [ht]
      refine (leaves_owning (env 2) ticket hbody).state ?_
      rw [(hh.ticketed p hp ticket ht).1]
      exact ⟨hh.unsuspend hp, hh.unadmitted p hp, hsession,
        hh.unreserved p hp (by rw [hphase]; rfl)⟩
    · exact hh
  | fail runId env error =>
    exact held_withPreparation hh fun p hp _ => hh.raise hp _ _ _ _
  | start runId env starter fault =>
    simp only [Host.act]
    split
    · rename_i hs
      exact held_startRun hh hs env fault
    · exact hh
  | worker runId sid env intent facts =>
    simp only [Host.act]
    split
    · rename_i hf
      exact held_startWorker hh hf env sid intent facts
    · exact hh
  | wake x =>
    simp only [Host.act]
    split
    · rename_i hc
      exact held_wake hh hc.1 hc.2
    · exact hh
  | admitEnds x env error =>
    simp only [Host.act]
    split
    · rename_i hc
      exact held_admitEnds hh hc.1 hc.2.1 hc.2.2 env error
    · exact hh
  | disown x =>
    simp only [Host.act]
    split
    · exact hh.popTask x.runId
    · exact hh
  | taskDone x env error =>
    simp only [Host.act]
    split
    · rename_i hx
      exact held_taskDone hh hx env error
    · exact hh
  | cancel runId env => exact held_cancelRun hh env runId
  | close => exact { hh with log := hh.log }
  | closeRuns env =>
    simp only [Host.act]
    split
    · rename_i hc
      refine held_closeRuns hh env fun p hp => ?_
      simpa using List.all_eq_true.mp hc.2 p hp
    · exact hh
  | request n key runId =>
    simp only [Host.act]
    split
    · exact hh
    · exact hh.setEntry n _ (fun _ hc => by cases hc) fun _ hc => by cases hc
  | acquire n =>
    refine held_withEntry hh fun x => ?_
    split
    · split
      · exact hh
      · exact hh.place n x
    · exact hh
  | resume n =>
    refine held_withEntry hh fun x => ?_
    split
    · split
      · exact hh.setEntry n _ (fun _ hc => by cases hc) fun _ hc => by cases hc
      · exact hh
    · exact hh
  | leave n =>
    refine held_withEntry hh fun x => ?_
    split
    · exact held_dispatch (hh.eraseEntry n)
    · exact hh
  | giveUp n =>
    refine held_withEntry hh fun x => ?_
    split
    · exact hh.eraseEntry n
    · exact hh.eraseEntry n
    · exact hh
  | lockSession sid =>
    simp only [Host.act]
    split
    · exact hh
    · exact { hh with log := hh.log }
  | unlockSession sid => exact held_dispatch { hh with log := hh.log }
  | other env call => exact held_perform hh env call
  | restart => exact held_opened h.store hh.log h.clean h.pyStr h.scheduler.limits

theorem held_after (clean : PyError → String) (pyStr : Json → String) (limits : SchedulingLimits)
    (stateRoot : String) (actions : List Action) :
    Held none (Host.after clean pyStr limits stateRoot actions) :=
  runCalls_invariant (I := Held none) (fun _ action hh => held_act hh action)
    (held_opened _ (LogInvariant.empty stateRoot) clean pyStr limits) actions

/-! ## Who is inside -/

theorem keeps_finishAdmitted (env : Env) (r : String) (error : PyError) :
    Keeps Host.entries (finishAdmitted env r error) := by
  intro h
  unfold finishAdmitted appendEvent
  split
  · split
    · rfl
    · split <;> rfl
  · rfl

theorem keeps_releaseAdmission (r : String) (h : Host) :
    (h.releaseAdmission r).entries = h.entries := by
  obtain ⟨admissions, admissionDone, happened, removed, heq, -⟩ := releaseAdmission_frame h r
  rw [heq]

theorem keeps_abandon (env : Env) (r : String) (error : PyError) :
    Keeps Host.entries (abandon env r error) :=
  (keeps_finishAdmitted env r error).andThen (keeps_write (keeps_releaseAdmission r))

theorem keeps_dispatch : Keeps Host.entries dispatch := by
  intro h
  induction h using dispatch_induction with
  | stopped h result _ => rfl
  | granted h lease q key result _ ih => exact ih

theorem keeps_finished (r : String) : Keeps Host.entries (finished r) := by
  have hlease : Keeps Host.entries (releaseLease r) := by
    intro h
    unfold releaseLease
    split
    · rfl
    · split <;> rfl
  unfold finished
  exact Keeps.andThen (keeps_write fun _ => rfl) (hlease.andThen keeps_dispatch)

theorem keeps_raiseWhen (fault : Option PyError) : Keeps Host.entries (raiseWhen fault) :=
  fun _ => rfl

theorem keeps_admitRun (env : Env) (r sid : String) (facts : List Fact) (c : Option String) :
    Keeps Host.entries (admitRun env r sid facts c) := by
  intro h
  unfold Reservations.admitRun
  split <;> rfl

theorem keeps_finishError (env : Env) (r : String) (error : Option PyError) :
    Keeps Host.entries (finishError env r error) := by
  cases error with
  | none => exact keeps_write fun _ => rfl
  | some error => exact keeps_finishAdmitted env r error

theorem keeps_resume (p : Preparation) (env : Env) (fault : Option PyError) {body : Code}
    (hbody : Keeps Host.entries body) : Keeps Host.entries (p.resume env fault body) := by
  unfold Preparation.resume
  split
  · rename_i ticket _
    have hadmitted : Keeps Host.entries (admitted ticket) := by
      intro h
      unfold Reservations.admitted
      split <;> rfl
    have hticket : Keeps Host.entries (releaseTicket ticket) := by
      intro h
      unfold releaseTicket
      split <;> rfl
    unfold owning
    exact Keeps.ensure (Keeps.rescue (hbody.andThen hadmitted) fun error =>
      Keeps.andThen (keeps_write fun _ => rfl)
        ((keeps_abandon env ticket.runId error).andThen hticket)) keeps_dispatch
  · exact hbody.andThen (((keeps_raiseWhen fault).rescue fun error =>
      keeps_abandon env p.runId error).andThen (keeps_write fun _ => rfl))

theorem keeps_raises (p : Preparation) (env : Env) (error : PyError) :
    Keeps Host.entries (p.raises env error) := by
  unfold Preparation.raises
  split
  · exact (keeps_raiseWhen _).rescue (keeps_abandon env p.runId)
  · exact keeps_raiseWhen _

theorem keeps_commit (p : Preparation) (env : ℕ → Env) (intent : Json) (facts : List Fact)
    (c : Option String) (fault : Option PyError) :
    Keeps Host.entries (p.commit env intent facts c fault) :=
  ((keeps_admitRun _ _ _ _ _).andThen (keeps_raiseWhen fault)).rescue
    (keeps_abandon (env 1) p.runId)

theorem keeps_control (p : Preparation) (env : Env) (kind : Controller) (intent : Json)
    (facts : List Fact) : Keeps Host.entries (p.control env kind intent facts) := by
  have hadd : Keeps Host.entries
      (Stretch.write (ε := PyError) (Host.addAdmission p.runId p.sessionId)) :=
    keeps_write fun _ => rfl
  refine (keeps_admitRun _ _ _ _ _).andThen (Keeps.andThen (keeps_write fun h => ?_)
    (hadd.andThen fun h => ?_))
  · split <;> rfl
  · split <;> rfl

theorem keeps_startRun (env : Env) (r : String) (starter : Starter) (fault : Option PyError) :
    Keeps Host.entries (startRun env r starter fault) := by
  have hunlist : ∀ h : Host, (h.unlist r starter).entries = h.entries := by
    intro h
    unfold Host.unlist
    split
    · split <;> rfl
    · rfl
  have hstart : Keeps Host.entries (dispatchStart r starter fault) := by
    unfold dispatchStart
    refine Keeps.andThen (keeps_write fun _ => rfl) (Keeps.andThen (keeps_raiseWhen fault)
      (Keeps.andThen (keeps_write fun _ => rfl) fun h => ?_))
    split
    · rfl
    · exact keeps_dispatch h
  exact (keeps_write hunlist).andThen ((hstart.rescue fun error =>
    (keeps_abandon env r error).andThen (keeps_finished r)).andThen (keeps_write fun _ => rfl))

theorem keeps_startWorker (env : Env) (r sid : String) (intent : Json) (facts : List Fact) :
    Keeps Host.entries (startWorker env r sid intent facts) :=
  Keeps.andThen (keeps_admitRun _ _ _ _ _) (keeps_write fun _ => rfl)

theorem keeps_admitEnds (env : Env) (x : Execution) (error : Option PyError) :
    Keeps Host.entries (Reservations.admitEnds env x error) :=
  Keeps.ensure (keeps_finishError env x.runId error)
    (keeps_write fun t => keeps_releaseAdmission x.runId t)

theorem keeps_taskDone (env : Env) (x : Execution) (error : Option PyError) :
    Keeps Host.entries (Reservations.taskDone env x error) := by
  unfold Reservations.taskDone
  exact Keeps.andThen (keeps_finishError env x.runId error)
    (Keeps.andThen (keeps_write fun t => keeps_releaseAdmission x.runId t)
      (keeps_finished x.runId))

theorem entries_withPreparation (r : String) {f : Preparation → Host}
    (hf : ∀ p, (f p).entries = h.entries) : (h.withPreparation r f).entries = h.entries := by
  unfold Host.withPreparation
  cases h.preparation? r with
  | none => rfl
  | some p => exact hf p

/-- A step of the calls of `_workspace_execution`, or of everything else. -/
theorem entries_act (h : Host) (action : Action) :
    (h.act action).entries = h.entries ∨ (h.act action).entries = .empty ∨
      ∃ n, (∃ x place, (h.act action).entries = h.entries.set n { x with place } ∧
        (place = .inside → h.entries.get? n = some x ∧ h.workspaceLocked x.key = false ∧
          h.place x = .inside)) ∨
        (h.act action).entries = h.entries.erase n := by
  cases action with
  | reserve r sid =>
    refine Or.inl ?_
    simp only [Host.act, Host.reserve]
    split
    · rfl
    · split <;> rfl
  | write r sid =>
    refine Or.inl ?_
    simp only [Host.act, Host.write]
    split <;> rfl
  | check r workspaceId env fault =>
    refine Or.inl ?_
    refine entries_withPreparation r fun p => ?_
    split
    · split
      · rfl
      · exact keeps_resume p _ _ (keeps_raises p _ _) _
    · rfl
  | lock r =>
    refine Or.inl ?_
    refine entries_withPreparation r fun p => ?_
    split
    · split <;> rfl
    · rfl
  | claim r key free env =>
    refine Or.inl ?_
    refine entries_withPreparation r fun p => ?_
    split
    · split
      · exact keeps_resume p _ _ (keeps_raises p _ _) _
      · rfl
    · rfl
  | commit r env intent facts c fault =>
    refine Or.inl ?_
    refine entries_withPreparation r fun p => ?_
    split
    · exact keeps_resume p _ _ (keeps_commit p env intent facts c fault) _
    · rfl
  | control r env kind intent facts =>
    refine Or.inl ?_
    refine entries_withPreparation r fun p => ?_
    split
    · exact keeps_resume p _ _ (keeps_control p _ kind intent facts) _
    · rfl
  | fail r env error =>
    refine Or.inl ?_
    exact entries_withPreparation r fun p => keeps_resume p _ _ (keeps_raises p _ _) _
  | start r env starter fault =>
    refine Or.inl ?_
    simp only [Host.act]
    split
    · exact keeps_startRun env r starter fault h
    · rfl
  | worker r sid env intent facts =>
    refine Or.inl ?_
    simp only [Host.act]
    split
    · exact keeps_startWorker env r sid intent facts h
    · rfl
  | wake x =>
    refine Or.inl ?_
    simp only [Host.act]
    split <;> rfl
  | admitEnds x env error =>
    refine Or.inl ?_
    simp only [Host.act]
    split
    · exact keeps_admitEnds env x error h
    · rfl
  | disown x =>
    refine Or.inl ?_
    simp only [Host.act]
    split <;> rfl
  | taskDone x env error =>
    refine Or.inl ?_
    simp only [Host.act]
    split
    · exact keeps_taskDone env x error { h with executions := h.executions.erase x }
    · rfl
  | cancel r env =>
    refine Or.inl ?_
    simp only [Host.act, cancelRun]
    split
    · split <;> rfl
    · split
      · exact ((keeps_abandon env r .cancelled).andThen (keeps_finished r)) h
      · rfl
  | close => exact Or.inl rfl
  | closeRuns env =>
    refine Or.inl ?_
    simp only [Host.act]
    split
    · exact keeps_each (fun (run : String × ℕ) _ =>
        (keeps_abandon (env run.2) run.1 .cancelled).andThen (keeps_finished run.1)) h
    · rfl
  | request n key r =>
    simp only [Host.act]
    split
    · exact Or.inl rfl
    · exact Or.inr (Or.inr ⟨n, Or.inl ⟨⟨key, r, .acquiring⟩, .acquiring, rfl,
        fun hc => by cases hc⟩⟩)
  | acquire n =>
    simp only [Host.act, Host.withEntry]
    cases hx : h.entries.get? n with
    | none => exact Or.inl rfl
    | some x =>
      simp only [Option.elim_some]
      split
      · split
        · exact Or.inl rfl
        · rename_i hlocked
          exact Or.inr (Or.inr ⟨n, Or.inl ⟨x, h.place x, rfl,
            fun hin => ⟨hx, by simpa using hlocked, hin⟩⟩⟩)
      · exact Or.inl rfl
  | resume n =>
    simp only [Host.act, Host.withEntry]
    cases h.entries.get? n with
    | none => exact Or.inl rfl
    | some x =>
      simp only [Option.elim_some]
      split
      · split
        · exact Or.inr (Or.inr ⟨n, Or.inl ⟨x, .acquiring, rfl, fun hc => by cases hc⟩⟩)
        · exact Or.inl rfl
      · exact Or.inl rfl
  | leave n =>
    simp only [Host.act, Host.withEntry]
    cases h.entries.get? n with
    | none => exact Or.inl rfl
    | some x =>
      simp only [Option.elim_some]
      split
      · exact Or.inr (Or.inr ⟨n, Or.inr (keeps_dispatch _)⟩)
      · exact Or.inl rfl
  | giveUp n =>
    simp only [Host.act, Host.withEntry]
    cases h.entries.get? n with
    | none => exact Or.inl rfl
    | some x =>
      simp only [Option.elim_some]
      split
      · exact Or.inr (Or.inr ⟨n, Or.inr rfl⟩)
      · exact Or.inr (Or.inr ⟨n, Or.inr rfl⟩)
      · exact Or.inl rfl
  | lockSession sid =>
    refine Or.inl ?_
    simp only [Host.act]
    split <;> rfl
  | unlockSession sid => exact Or.inl (keeps_dispatch _)
  | other env call =>
    refine Or.inl ?_
    simp only [Host.act, Host.perform]
    split <;> rfl
  | restart => exact Or.inr (Or.inl rfl)

/-- A call goes inside only where no other run reserves its key. -/
theorem entered {action : Action} {n : ℕ} {x : Entry}
    (hx : (h.act action).entries.get? n = some x) (hin : x.place = .inside)
    (hout : ∀ y, h.entries.get? n = some y → y.place ≠ .inside) {reserved : String}
    (hreserved : h.admissions.get? x.key = some reserved) : x.runId = some reserved := by
  rcases entries_act h action with heq | heq | ⟨m, ⟨y, place, heq, hplace⟩ | heq⟩
  · rw [heq] at hx
    exact absurd hin (hout x hx)
  · rw [heq] at hx
    cases hx
  · rw [heq, Dict.get?_set] at hx
    split at hx
    · obtain rfl := Option.some.inj hx
      obtain ⟨-, -, hinside⟩ := hplace hin
      unfold Host.place at hinside
      rw [show h.admissions.get? y.key = some reserved from hreserved] at hinside
      dsimp only at hinside
      split at hinside
      · assumption
      · split at hinside <;> cases hinside
    · exact absurd hin (hout x hx)
  · rw [heq, Dict.get?_erase] at hx
    split at hx
    · cases hx
    · exact absurd hin (hout x hx)

/-! ## The guarantee -/

/-- What holds of the reservations of a host. -/
structure Host.Sound (h : Host) : Prop where
  /-- Every run with a claim is registered. -/
  known : ∀ key r, h.admissions.get? key = some r → r ∈ h.admissionDone.keys
  /-- So no call of `_workspace_execution` misses the admission that it looks up. -/
  found : ∀ n x error, h.entries.get? n = some x → x.place ≠ .raised error
  single : ∀ key r r', (key, r) ∈ h.admissions.entries → (key, r') ∈ h.admissions.entries → r = r'
  entered : ∀ action n x, (h.act action).entries.get? n = some x → x.place = .inside →
    (∀ y, h.entries.get? n = some y → y.place ≠ .inside) →
    ∀ r, h.admissions.get? x.key = some r → x.runId = some r
  set : ∀ admission ∈ h.removed, admission.done ∈ h.happened
  /-- A call that waits has been woken, or its admission is still there to wake it. -/
  woken : ∀ n x done, h.entries.get? n = some x → x.place = .waiting done →
    done ∈ h.happened ∨ ∃ r admission, h.admissionDone.get? r = some admission ∧
      admission.done = done

theorem reservations_sound (clean : PyError → String) (pyStr : Json → String)
    (limits : SchedulingLimits) (stateRoot : String) (actions : List Action) :
    (Host.after clean pyStr limits stateRoot actions).Sound := by
  have hh := held_after clean pyStr limits stateRoot actions
  refine { known := hh.claimed, found := hh.sound, single := ?_, entered := ?_, set := hh.removed
           woken := hh.waiter }
  · intro key r r' hr hr'
    exact Option.some.inj ((Dict.mem_entries.mp hr).symm.trans (Dict.mem_entries.mp hr'))
  · exact fun action n x hx hin hout r hr => entered hx hin hout hr

end Reservations

end Eventide
