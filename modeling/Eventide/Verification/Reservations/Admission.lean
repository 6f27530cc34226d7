import Eventide.Verification.Reservations.Steps
import Eventide.Verification.Store.Transact

/-! # What the stretches of an admission leave -/

namespace Eventide

open Outcome RuntimeStore RuntimeScheduler Stretch

namespace Reservations

variable {h : Host} {r : String}

/-! ## A run on its way -/

/-- A stretch that admits a run which nothing has started. -/
structure Admitting (r : String) (h : Host) : Prop where
  held : Held (some r) h
  named : r ≠ ""
  prepared : ∀ p ∈ h.preparations, p.runId ≠ r
  future : r ∉ h.ready.keys
  executed : ∀ x ∈ h.executions, x.runId ≠ r

/-- No controller lists the run. -/
structure Unlisted (r : String) (h : Host) : Prop extends Admitting r h where
  unlisted : r ∉ h.pending.keys

/-- The run was admitted, or nothing of it is left. -/
structure Settled (r : String) (h : Host) : Prop extends Admitting r h where
  owned : r ∈ h.admissionDone.keys → (admittedIntent h.store r).isSome = true
  listed : r ∈ h.pending.keys → r ∈ h.admissionDone.keys

theorem Settled.settle (hh : Settled r h) : Held none h :=
  hh.held.settle (fun hm => Or.inr (hh.owned hm))
    (fun hp => absurd (Dict.mem_keys.mpr (by rw [hp]; rfl)) hh.future)
    fun hm => Or.inr (hh.listed hm)

theorem Held.without (hh : Held none h) (hne : r ≠ "")
    (hprepared : ∀ p ∈ h.preparations, p.runId ≠ r)
    (hnone : admittedIntent h.store r = none) : Unlisted r h := by
  have hnot : ¬ (admittedIntent h.store r).isSome = true := by
    rw [hnone]
    decide
  exact { held := hh.take r, named := hne, prepared := hprepared
          future := fun hm => hnot (hh.future r hm)
          executed := fun x hx he => hnot (he ▸ (hh.executed x hx).1)
          unlisted := fun hm => hnot (hh.admitted_of_listed hm) }

/-- The coroutine of a preparation runs. -/
theorem Held.unsuspend (hh : Held none h) {p : Preparation} (hp : p ∈ h.preparations) :
    Unlisted p.runId (h.unsuspend p) := by
  have hmem : ∀ q, q ∈ (h.unsuspend p).preparations ↔ q ∈ h.preparations ∧ q.runId ≠ p.runId := by
    intro q
    simp [Host.unsuspend]
  have hheld : Held (some p.runId) (h.unsuspend p) :=
    { hh.take p.runId with
      distinct := hh.distinct.sublist (List.filter_sublist.map _)
      named := fun q hq => hh.named q ((hmem q).mp hq).1
      unadmitted := fun q hq => hh.unadmitted q ((hmem q).mp hq).1
      ticketed := fun q hq => hh.ticketed q ((hmem q).mp hq).1
      reserved := fun q hq => hh.reserved q ((hmem q).mp hq).1
      unreserved := fun q hq => hh.unreserved q ((hmem q).mp hq).1
      owner := fun j hj => by
        rcases hh.owner j hj with hc | ⟨q, hq, rfl⟩ | hsome
        · cases hc
        · by_cases he : q.runId = p.runId
          · exact Or.inl (congrArg some he.symm)
          · exact Or.inr (Or.inl ⟨q, (hmem q).mpr ⟨hq, he⟩, rfl⟩)
        · exact Or.inr (Or.inr hsome) }
  have hnone := hh.unadmitted p hp
  have hnot : ¬ (admittedIntent h.store p.runId).isSome = true := by
    rw [hnone]
    decide
  exact { held := hheld, named := hh.named p hp, prepared := fun q hq => ((hmem q).mp hq).2
          future := fun hm => hnot (hh.future _ hm)
          executed := fun x hx he => hnot (he ▸ (hh.executed x hx).1)
          unlisted := fun hm => hnot (hh.admitted_of_listed hm) }

/-- The coroutine of a preparation awaits. -/
theorem Unlisted.suspend (hh : Unlisted r h) {p : Preparation} (hp : p.runId = r)
    (hnone : admittedIntent h.store r = none)
    (hticket : ∀ t, p.ticket = some t → t.runId = r ∧ r ∈ h.scheduler.tickets.keys)
    (hphase : p.phase.reserved = true ↔ r ∈ h.admissionDone.keys) :
    Held none { h with preparations := p :: h.preparations } := by
  subst hp
  have hheld := hh.held
  have hunreserved : p.phase.reserved = false → p.runId ∉ h.admissionDone.keys := by
    intro hf hm
    rw [hphase.mpr hm] at hf
    cases hf
  have hstep : Held (some p.runId) { h with preparations := p :: h.preparations } :=
    { hheld with
      distinct := List.nodup_cons.mpr ⟨fun hm => by
        obtain ⟨q, hq, he⟩ := List.mem_map.mp hm
        exact hh.prepared q hq he, hheld.distinct⟩
      named := List.forall_mem_cons.mpr ⟨hh.named, hheld.named⟩
      unadmitted := List.forall_mem_cons.mpr ⟨hnone, hheld.unadmitted⟩
      ticketed := List.forall_mem_cons.mpr ⟨hticket, hheld.ticketed⟩
      reserved := List.forall_mem_cons.mpr ⟨hphase.mp, hheld.reserved⟩
      unreserved := List.forall_mem_cons.mpr ⟨hunreserved, hheld.unreserved⟩
      owner := fun j hj => (hheld.owner j hj).imp_right fun ho => ho.imp_left
        fun ⟨q, hq, he⟩ => ⟨q, List.mem_cons_of_mem _ hq, he⟩ }
  exact hstep.settle (fun _ => Or.inl ⟨p, List.mem_cons_self, rfl⟩)
    (fun hp => absurd (Dict.mem_keys.mpr (by rw [hp]; rfl)) hh.future)
    fun hm => absurd hm hh.unlisted

theorem Admitting.store (hh : Admitting r h) {t : RuntimeStore} (hheld : Held (some r) { h with store := t }) :
    Admitting r { h with store := t } :=
  ⟨hheld, hh.named, hh.prepared, hh.future, hh.executed⟩

/-! ## The handlers -/

/-- The handler that ends an admission leaves nothing of it, or its Run is in the log. -/
theorem leaves_abandon_admitting (env : Env) (r : String) (error : PyError) :
    Leaves (Unlisted r) (abandon env r error) (fun h => Settled r h ∧ r ∉ h.pending.keys)
      fun h => Settled r h ∧ r ∉ h.pending.keys := by
  have hfinish : Leaves (Unlisted r) (finishAdmitted env r error) (Unlisted r)
      (fun h => Settled r h ∧ r ∉ h.pending.keys) := by
    intro h hh
    obtain ⟨t, heq, happended, -, hsome⟩ := finishAdmitted_spec hh.held.log env r error
    have hstore := hh.toAdmitting.store (hh.held.appended happended)
    rw [heq]
    refine ⟨fun _ => ⟨hstore, hh.unlisted⟩, fun e he => ⟨⟨hstore, fun _ => ?_, fun hm =>
      absurd hm hh.unlisted⟩, hh.unlisted⟩⟩
    obtain ⟨intent, hintent⟩ := Option.isSome_iff_exists.mp (hsome e he)
    rw [admittedIntent_mono happended.grows hintent]
    rfl
  refine Leaves.andThen hfinish (leaves_write fun h hh => ?_)
  have hheld := hh.held.releaseAdmission (r := r) (Or.inr rfl)
    fun p hp he => absurd he (hh.prepared p hp)
  obtain ⟨admissions, admissionDone, happened, removed, heq, hgone⟩ := releaseAdmission_frame h r
  rw [heq] at hheld ⊢
  exact ⟨⟨⟨hheld, hh.named, hh.prepared, hh.future, hh.executed⟩, fun hm => absurd hm hgone,
    fun hm => absurd hm hh.unlisted⟩, hh.unlisted⟩

theorem releaseTicket_tickets {q q' : RuntimeScheduler} {s : RuntimeStore} {ticket : AdmissionTicket}
    {released : Bool} (h : q.releaseTicket s ticket = .ok (released, q')) :
    q' = q ∨ q' = q.popTicket ticket.runId := by
  unfold RuntimeScheduler.releaseTicket at h
  split at h
  · exact Or.inl (Prod.mk.inj (Except.ok.inj h)).2.symm
  · obtain ⟨_, -, h⟩ := bind_eq_ok.mp h
    exact Or.inr (Prod.mk.inj (Except.ok.inj h)).2.symm

/-- The ticket of the run goes, and no other. -/
theorem Admitting.popTicket (hh : Admitting r h) :
    Admitting r { h with scheduler := h.scheduler.popTicket r } :=
  { hh with
    held := { hh.held with
      ticketed := fun p hp t ht => by
        obtain ⟨hid, hm⟩ := hh.held.ticketed p hp t ht
        exact ⟨hid, Dict.mem_keys_erase.mpr ⟨hh.prepared p hp, hm⟩⟩
      awaited := hh.held.awaited, resolved := hh.held.resolved, leased := hh.held.leased
      running := hh.held.running } }

theorem leaves_releaseTicket (ticket : AdmissionTicket) :
    Leaves (Settled ticket.runId) (releaseTicket ticket) (Settled ticket.runId)
      (Settled ticket.runId) := by
  intro h hh
  unfold releaseTicket
  split
  · exact ⟨fun hc => (nomatch hc), fun _ _ => hh⟩
  · rename_i released q hq
    refine ⟨fun _ => ?_, fun _ hc => (nomatch hc)⟩
    rcases releaseTicket_tickets hq with rfl | rfl
    · exact hh
    · exact ⟨hh.toAdmitting.popTicket, hh.owned, hh.listed⟩

/-- An admission that is complete. -/
structure Accepted (r : String) (h : Host) : Prop extends Settled r h where
  admitted : (admittedIntent h.store r).isSome = true

theorem Accepted.addRoot (hh : Accepted r h) {lease : RootLease} (hl : lease.runId = r) :
    Accepted r { h with
      scheduler := (h.scheduler.addRoot lease).popTicket r, leases := h.leases.set r lease } := by
  have hroots : ∀ j, j ∈ (h.scheduler.addRoot lease).roots.keys ↔
      j = lease.runId ∨ j ∈ h.scheduler.roots.keys := fun j => Dict.mem_keys_set
  have hpop := hh.toAdmitting.popTicket
  refine { hh with held := ?_ }
  refine { hpop.held with
    ticketed := hpop.held.ticketed, awaited := ?_, resolved := ?_, leased := ?_, running := ?_ }
  · exact fun j hj => (hh.held.awaited j hj).imp_right fun ho => ho.imp_right fun hm =>
      (hroots j).mpr (Or.inr hm)
  · exact fun j hj => (hroots j).mpr (Or.inr (hh.held.resolved j hj))
  · intro j other hj
    simp only [Dict.get?_set] at hj
    split at hj
    · rename_i he
      obtain rfl := Option.some.inj hj
      exact ⟨hl.trans he.symm, (hroots j).mpr (Or.inl (he.trans hl.symm))⟩
    · obtain ⟨hid, hm⟩ := hh.held.leased j other hj
      exact ⟨hid, (hroots j).mpr (Or.inr hm)⟩
  · exact fun x hx hs hrun hm => (hroots _).mpr (Or.inr (hh.held.running x hx hs hrun hm))

theorem Accepted.releaseClaims (hh : Accepted r h) :
    Accepted r (Host.releaseExecutionClaims r { h with scheduler := h.scheduler.popTicket r }) :=
  { hh with held := hh.toAdmitting.popTicket.held.releaseExecutionClaims r }

theorem leaves_admitted (ticket : AdmissionTicket) :
    Leaves (Accepted ticket.runId) (admitted ticket) (Accepted ticket.runId)
      (Accepted ticket.runId) := by
  intro h hh
  unfold Reservations.admitted
  cases hq : h.scheduler.commitAdmission h.store ticket with
  | error e => exact ⟨fun hc => (nomatch hc), fun _ _ => hh⟩
  | ok result =>
    obtain ⟨lease, q⟩ := result
    unfold RuntimeScheduler.commitAdmission at hq
    obtain ⟨_, -, hq⟩ := bind_eq_ok.mp hq
    obtain ⟨entries, -, hq⟩ := bind_eq_ok.mp hq
    obtain ⟨_, -, hq⟩ := bind_eq_ok.mp hq
    split at hq
    · obtain ⟨rfl, rfl⟩ := Prod.mk.inj (Except.ok.inj hq)
      exact ⟨fun _ => hh.releaseClaims, fun _ hc => (nomatch hc)⟩
    · obtain ⟨rfl, rfl⟩ := Prod.mk.inj (Except.ok.inj hq)
      exact ⟨fun _ => hh.addRoot rfl, fun _ hc => (nomatch hc)⟩

/-- What surrounds the admission of a run with a ticket. -/
theorem leaves_owning {P : Host → Prop} (env : Env) (ticket : AdmissionTicket) {body : Code}
    (hbody : Leaves P body (Accepted ticket.runId) (Settled ticket.runId)) :
    Leaves P (owning env ticket body) (Held none) (Held none) := by
  have hunlist : Leaves (Settled ticket.runId)
      (Stretch.write (ε := PyError) fun h : Host =>
        { h with pending := h.pending.erase ticket.runId })
      (Unlisted ticket.runId) (Settled ticket.runId) :=
    leaves_write fun h hh =>
      { hh.toAdmitting with
        held := hh.held.unlist _
        unlisted := fun hm => (Dict.mem_keys_erase.mp hm).1 rfl }
  have hhandler : ∀ error, Leaves (Settled ticket.runId)
      ((Stretch.write fun h : Host => { h with pending := h.pending.erase ticket.runId }).andThen
        ((abandon env ticket.runId error).andThen (releaseTicket ticket)))
      (Settled ticket.runId) (Settled ticket.runId) := fun error =>
    hunlist.andThen (Leaves.andThen
      ((leaves_abandon_admitting env ticket.runId error).mono (fun _ hh => hh.1)
        fun _ hh => hh.1) (leaves_releaseTicket ticket))
  have htry := Leaves.rescue
    (hbody.andThen ((leaves_admitted ticket).mono (fun _ => id) fun _ hh => hh.toSettled)) hhandler
  have hdispatch : Leaves (Held none) dispatch (Held none) (Held none) := fun h hh => by
    obtain ⟨hok, herr⟩ := leaves_dispatch h.preparations h ⟨hh, rfl⟩
    exact ⟨fun hc => (hok hc).1, fun e hc => (herr e hc).1⟩
  exact (htry.mono (fun _ hh => hh.toSettled.settle) fun _ hh => hh.settle).ensure hdispatch hdispatch

theorem leaves_raiseWhen {P : Host → Prop} (fault : Option PyError) :
    Leaves P (raiseWhen fault) P P := by
  intro h hh
  cases fault with
  | none => exact ⟨fun _ => hh, fun _ hc => (nomatch hc)⟩
  | some error => exact ⟨fun hc => (nomatch hc), fun _ _ => hh⟩

/-- A task that its parent starts. -/
theorem Accepted.execute (hh : Accepted r h) (hunlisted : r ∉ h.pending.keys) :
    Held none { h with
      executions := ⟨r, .parent, true⟩ :: h.executions, runTasks := r :: h.runTasks } :=
  { hh.toSettled.settle with
    executed := List.forall_mem_cons.mpr ⟨⟨hh.admitted, hunlisted⟩, hh.toSettled.settle.executed⟩
    running := List.forall_mem_cons.mpr ⟨fun hs => (nomatch hs), hh.toSettled.settle.running⟩ }

/-- What surrounds the admission of an owned writer. -/
theorem leaves_writing {P : Host → Prop} (env : Env) (fault : Option PyError) {body : Code}
    (hbody : Leaves P body (fun h => Accepted r h ∧ r ∉ h.pending.keys) (Settled r)) :
    Leaves P (writing env r fault body) (Held none) (Held none) := by
  have htask : Leaves (fun h => Accepted r h ∧ r ∉ h.pending.keys)
      ((raiseWhen fault).rescue fun error => abandon env r error)
      (fun h => Accepted r h ∧ r ∉ h.pending.keys) (Held none) :=
    Leaves.rescue (leaves_raiseWhen fault) fun error t ht => by
      obtain ⟨hok, herr⟩ := leaves_abandon_admitting env r error t ⟨ht.1.toAdmitting, ht.2⟩
      exact ⟨fun hc => (hok hc).1.settle, fun e hc => (herr e hc).1.settle⟩
  refine Leaves.andThen (hbody.mono (fun _ => id) fun _ hh => hh.settle)
    (htask.andThen (leaves_write fun h hh => ?_))
  exact hh.1.execute hh.2

/-! ## The bodies -/

/-- An admission that returns. -/
theorem admitRun_ok {s t : RuntimeStore} {env : Env} {sid turnId : String}
    {intent : Json} {facts : List Fact} {c : Option String}
    (hnone : admittedIntent s r = none)
    (h : s.admitRun env r sid (admission intent :: facts) c = (.ok turnId, t)) :
    admittedIntent t r = some intent ∧
      ∃ e ∈ t.events, e.runId = some r ∧ e.type = .runAdmitted ∧ e.sessionId = sid := by
  unfold RuntimeStore.admitRun at h
  split at h
  · cases (Prod.mk.inj h).1
  obtain ⟨⟨_, s1⟩, hcreate, h⟩ := bind_eq_ok.mp (transaction_eq_ok.mp h)
  obtain ⟨s2, hfacts, h⟩ := bind_eq_ok.mp h
  obtain ⟨-, rfl⟩ := Prod.mk.inj (Except.ok.inj h)
  obtain ⟨-, hevents, -⟩ :=
    createRunLocked_effect (P := ⟨fun _ _ => True, fun _ => True⟩) trivial hcreate
  obtain ⟨⟨e, s3⟩, hfirst, hrest⟩ := bind_eq_ok.mp hfacts
  rcases appendFactLocked_cases hfirst with ⟨rfl, -, hr⟩ | ⟨-, hterm, -⟩
  · obtain ⟨rows, rfl, -⟩ := appendFacts_all hrest
    have hrun : e.runId = some r := hr.runId_eq
    have hkind : e.type = .runAdmitted := hr.type_eq
    refine ⟨?_, e, ?_, hrun, hkind, hr.sessionId_eq⟩
    · have hadded : s1.events ++ [e] ++ rows = s.events ++ e :: rows := by simp [hevents]
      refine (admittedIntent_first hadded hnone hrun hkind).trans ?_
      rw [hr.payload_eq]
      rfl
    · exact List.mem_append_left _ (List.mem_append_right _ List.mem_cons_self)
  · cases hterm

theorem admitRun_grows {s : RuntimeStore} (hlog : s.LogInvariant) (env : Env) (r sid : String)
    (facts : List Fact) (c : Option String) :
    (s.admitRun env r sid facts c).2.LogInvariant ∧
      ∃ rows, (s.admitRun env r sid facts c).2.events = s.events ++ rows ∧
        ∀ e ∈ rows, e.runId = some r := by
  have heffect : Effect ⟨fun _ e => e.runId = some r, fun _ => True⟩ s
      (s.admitRun env r sid facts c).2 :=
    admitRun_effect trivial fun _ _ _ _ _ _ _ _ he => he.runId_eq
  exact ⟨hlog.effect heffect, Effect.rows heffect fun _ _ he => he⟩

/-- An admission writes only what belongs to its run; `F` is what a longer log keeps. -/
theorem leaves_admitRun {F : Host → Prop}
    (hF : ∀ h t, F h → h.store.events <+: t.events → F { h with store := t })
    (env : Env) (r sid : String) (intent : Json) (facts : List Fact) (c : Option String) :
    Leaves (fun h => Unlisted r h ∧ admittedIntent h.store r = none ∧ F h)
      (admitRun env r sid (admission intent :: facts) c)
      (fun h => Unlisted r h ∧ (admittedIntent h.store r = some intent ∧
        ∃ e ∈ h.store.events, e.runId = some r ∧ e.type = .runAdmitted ∧ e.sessionId = sid) ∧ F h)
      (fun h => Unlisted r h ∧ F h) := by
  rintro h ⟨hh, hnone, hf⟩
  obtain ⟨hlog, rows, hrows, hall⟩ :=
    admitRun_grows hh.held.log env r sid (admission intent :: facts) c
  have hstore : Unlisted r { h with
      store := (h.store.admitRun env r sid (admission intent :: facts) c).2 } := by
    refine ⟨hh.toAdmitting.store (hh.held.store hlog ⟨rows, hrows.symm⟩ fun p hp => ?_),
      hh.unlisted⟩
    refine admittedIntent_none hrows (fun e he _ hrun => hh.prepared p hp ?_)
      (hh.held.unadmitted p hp)
    exact Option.some.inj (hrun.symm.trans (hall e he))
  have hframe := hF h _ hf ⟨rows, hrows.symm⟩
  unfold Reservations.admitRun
  cases hresult : h.store.admitRun env r sid (admission intent :: facts) c with
  | mk result t =>
    rw [hresult] at hstore hframe
    cases result with
    | ok turnId =>
      exact ⟨fun _ => ⟨hstore, admitRun_ok hnone hresult, hframe⟩, fun _ hc => (nomatch hc)⟩
    | error e => exact ⟨fun hc => (nomatch hc), fun _ _ => ⟨hstore, hframe⟩⟩

theorem Unlisted.accept (hh : Unlisted r h) (hr : (admittedIntent h.store r).isSome = true) :
    Accepted r h :=
  { hh with owned := fun _ => hr, listed := fun hm => absurd hm hh.unlisted, admitted := hr }

/-- `_prepare_run` from its last await. -/
theorem leaves_commit (p : Preparation) (env : ℕ → Env) (intent : Json) (facts : List Fact)
    (c : Option String) (fault : Option PyError) :
    Leaves (fun h => Unlisted p.runId h ∧ admittedIntent h.store p.runId = none)
      (p.commit env intent facts c fault)
      (fun h => Accepted p.runId h ∧ p.runId ∉ h.pending.keys) (Settled p.runId) := by
  have hadmission : Leaves (fun h => Unlisted p.runId h ∧ admittedIntent h.store p.runId = none)
      (admitRun (env 0) p.runId p.sessionId (admission intent :: facts) c)
      (fun h => Accepted p.runId h ∧ p.runId ∉ h.pending.keys) (Unlisted p.runId) := by
    intro h hh
    obtain ⟨hok, herr⟩ := leaves_admitRun (F := fun _ => True) (fun _ _ _ _ => trivial) (env 0)
      p.runId p.sessionId intent facts c h ⟨hh.1, hh.2, trivial⟩
    refine ⟨fun hc => ?_, fun e hc => (herr e hc).1⟩
    obtain ⟨hunlisted, ⟨hintent, -⟩, -⟩ := hok hc
    refine ⟨hunlisted.accept ?_, hunlisted.unlisted⟩
    rw [hintent]
    rfl
  have hfault : Leaves (fun h => Accepted p.runId h ∧ p.runId ∉ h.pending.keys)
      (raiseWhen fault) (fun h => Accepted p.runId h ∧ p.runId ∉ h.pending.keys)
      (Unlisted p.runId) :=
    (leaves_raiseWhen fault).mono (fun _ => id) fun _ hh => ⟨hh.1.toAdmitting, hh.2⟩
  exact Leaves.rescue (hadmission.andThen hfault) fun error =>
    (leaves_abandon_admitting (env 1) p.runId error).mono (fun _ hh => hh.1) fun _ hh => hh.1

theorem leaves_raise {P Q : Host → Prop} (error : PyError) :
    Leaves P (raiseWhen (some error)) Q P :=
  fun _ hh => ⟨fun hc => (nomatch hc), fun _ _ => hh⟩

/-- `_prepare_run` where it raises. -/
theorem leaves_raises {Q : Host → Prop} (p : Preparation) (env : Env) (error : PyError) :
    Leaves (fun h => Unlisted p.runId h ∧
        (p.phase.reserved = false → p.runId ∉ h.admissionDone.keys))
      (p.raises env error) Q (Settled p.runId) := by
  unfold Preparation.raises
  split
  · refine Leaves.rescue (R := Unlisted p.runId) ?_ fun error =>
      (leaves_abandon_admitting env p.runId error).mono (fun _ hh => hh.1) fun _ hh => hh.1
    exact (leaves_raise error).mono (fun _ => id) fun _ hh => hh.1
  · rename_i hreserved
    refine (leaves_raise error).mono (fun _ => id) fun _ hh => ?_
    exact { hh.1.toAdmitting with
      owned := fun hm => absurd hm (hh.2 (by simpa using hreserved))
      listed := fun hm => absurd hm hh.1.unlisted }

/-- A controller puts the run on its list. -/
theorem Unlisted.list (hh : Unlisted r h) {kind : Controller} {intent : Json} {sid : String}
    (hintent : admittedIntent h.store r = some intent)
    (hadmission : ∃ e ∈ h.store.events, e.runId = some r ∧ e.type = .runAdmitted ∧
      e.sessionId = sid)
    (hsession : sessionIsControl h.store sid = true)
    (hsource : (intent.get? "source").bind Json.str? = some kind.source) :
    Admitting r (if kind.lists then { h with pending := h.pending.set r kind } else h) := by
  split
  · rename_i hlists
    refine { hh.toAdmitting with held := { hh.held with executed := ?_, listed := ?_ } }
    · intro x hx
      refine ⟨(hh.held.executed x hx).1, fun hm => ?_⟩
      rcases Dict.mem_keys_set.mp hm with he | hm
      · exact hh.executed x hx he
      · exact (hh.held.executed x hx).2 hm
    · intro j other hj
      rw [Dict.get?_set] at hj
      split at hj
      · rename_i he
        subst he
        obtain rfl := Option.some.inj hj
        obtain ⟨e, he, hrun, hkind, rfl⟩ := hadmission
        refine ⟨hlists, ?_, ⟨e, he, hrun, hh.named, hkind, hsession⟩, Or.inl rfl⟩
        rw [isControlledBy, hintent]
        exact decide_eq_true hsource
      · exact hh.held.listed j other hj
  · exact hh.toAdmitting

/-- The admission of a control run. -/
theorem leaves_control (p : Preparation) (env : Env) (kind : Controller) (intent : Json)
    (facts : List Fact) (hsource : (intent.get? "source").bind Json.str? = some kind.source) :
    Leaves (fun h => Unlisted p.runId h ∧ admittedIntent h.store p.runId = none ∧
        sessionIsControl h.store p.sessionId = true ∧ p.runId ∉ h.admissionDone.keys)
      (p.control env kind intent facts) (Accepted p.runId) (Settled p.runId) := by
  have hadmission : Leaves (fun h => Unlisted p.runId h ∧ admittedIntent h.store p.runId = none ∧
        sessionIsControl h.store p.sessionId = true ∧ p.runId ∉ h.admissionDone.keys)
      (admitRun env p.runId p.sessionId (admission intent :: facts) none)
      (fun h => Unlisted p.runId h ∧ (admittedIntent h.store p.runId = some intent ∧
        ∃ e ∈ h.store.events, e.runId = some p.runId ∧ e.type = .runAdmitted ∧
          e.sessionId = p.sessionId) ∧
        sessionIsControl h.store p.sessionId = true ∧ p.runId ∉ h.admissionDone.keys)
      (Settled p.runId) :=
    (leaves_admitRun (fun _ _ hf hgrow => ⟨sessionIsControl_mono hgrow hf.1, hf.2⟩) env
      p.runId p.sessionId intent facts none).mono (fun _ => id) fun _ hh =>
        { hh.1.toAdmitting with
          owned := fun hm => absurd hm hh.2.2, listed := fun hm => absurd hm hh.1.unlisted }
  have hlist : Leaves (fun h => Unlisted p.runId h ∧ (admittedIntent h.store p.runId = some intent ∧
        ∃ e ∈ h.store.events, e.runId = some p.runId ∧ e.type = .runAdmitted ∧
          e.sessionId = p.sessionId) ∧
        sessionIsControl h.store p.sessionId = true ∧ p.runId ∉ h.admissionDone.keys)
      (Stretch.write (ε := PyError) fun h : Host =>
        if kind.lists then { h with pending := h.pending.set p.runId kind } else h)
      (fun h => Admitting p.runId h ∧ (admittedIntent h.store p.runId).isSome = true ∧
        p.runId ∉ h.admissionDone.keys) (Settled p.runId) := by
    refine leaves_write fun h hh => ⟨hh.1.list hh.2.1.1 hh.2.1.2 hh.2.2.1 hsource, ?_⟩
    have hsome : (admittedIntent h.store p.runId).isSome = true := by
      rw [hh.2.1.1]
      rfl
    split <;> exact ⟨hsome, hh.2.2.2⟩
  have hreserve : Leaves (fun h => Admitting p.runId h ∧
        (admittedIntent h.store p.runId).isSome = true ∧ p.runId ∉ h.admissionDone.keys)
      (Stretch.write (ε := PyError) (Host.addAdmission p.runId p.sessionId))
      (fun h => Accepted p.runId h ∧ p.runId ∈ h.admissionDone.keys) (Settled p.runId) := by
    refine leaves_write fun h hh => ?_
    have hmem : p.runId ∈ (h.addAdmission p.runId p.sessionId).admissionDone.keys :=
      Dict.mem_keys_set.mpr (Or.inl rfl)
    exact ⟨⟨⟨⟨hh.1.held.addAdmission _ hh.2.2 hh.1.prepared hh.1.executed, hh.1.named,
      hh.1.prepared, hh.1.future, hh.1.executed⟩, fun _ => hh.2.1, fun _ => hmem⟩, hh.2.1⟩, hmem⟩
  refine hadmission.andThen (hlist.andThen (hreserve.andThen fun h hh => ?_))
  split
  · exact ⟨fun hc => (nomatch hc), fun _ _ => hh.1.toSettled⟩
  · exact ⟨fun _ => { hh.1 with held := hh.1.held.claim hh.2 _ }, fun _ hc => (nomatch hc)⟩

end Reservations

end Eventide
