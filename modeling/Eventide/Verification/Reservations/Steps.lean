import Eventide.Verification.Reservations.Invariant

/-! # What each stretch leaves -/

namespace Eventide

open Outcome RuntimeStore RuntimeScheduler Stretch

namespace Reservations

/-! ## Facts -/

/-- What an event that ends a run leaves. -/
structure Appended (r : String) (s t : RuntimeStore) : Prop where
  log : t.LogInvariant
  grows : s.events <+: t.events
  admits : ∀ j, admittedIntent s j = none → admittedIntent t j = none

theorem Appended.refl {s : RuntimeStore} (h : s.LogInvariant) (r : String) : Appended r s s :=
  ⟨h, List.prefix_refl _, fun _ hj => hj⟩

theorem Held.appended {h : Host} {cur : Option String} {r : String} {t : RuntimeStore}
    (hh : Held cur h) (k : Appended r h.store t) : Held cur { h with store := t } :=
  hh.store k.log k.grows fun p hp => k.admits _ (hh.unadmitted p hp)

theorem appendFact_terminal {s t : RuntimeStore} {env : Env} {sid r : String} {fact : Fact}
    {e : Event} (hk : fact.type.isTerminal = true)
    (h : s.appendFact env sid fact (some r) = (.ok e, t)) : t.runIsTerminal r = true := by
  rcases appendFactLocked_cases (transaction_eq_ok.mp h) with ⟨rfl, -, hr⟩ | ⟨rfl, -, j, hj, hend⟩
  · rw [runIsTerminal, terminalOf, List.find?_isSome]
    refine ⟨e, List.mem_append_right _ List.mem_cons_self, ?_⟩
    rw [hr.runId_eq, hr.type_eq, hk]
    simp
  · obtain ⟨hj, -⟩ := givenRun_eq_some.mp hj
    obtain rfl := Option.some.inj hj
    rw [runIsTerminal, hend]
    rfl

theorem appendEvent_spec {h : Host} (hlog : h.store.LogInvariant) (env : Env) {r : String}
    {fact : Fact} (hk : fact.type.isTerminal = true) :
    ∃ t, (appendEvent env r fact h).2 = { h with store := t } ∧ Appended r h.store t ∧
      ((appendEvent env r fact h).1 = .ok () → t.runIsTerminal r = true) := by
  unfold appendEvent
  cases hrun : h.store.getRunIdentity r with
  | none => exact ⟨h.store, rfl, .refl hlog r, fun hc => (nomatch hc)⟩
  | some identity =>
    obtain ⟨run, source⟩ := identity
    have heffect : Effect ⟨fun _ e => e.type = fact.type, fun _ => True⟩ h.store
        (h.store.appendFact env run.sessionId fact (some r)).2 :=
      appendFact_effect fun e he => he.type_eq
    have happended : Appended r h.store
        (h.store.appendFact env run.sessionId fact (some r)).2 := by
      obtain ⟨rows, hrows, hall⟩ := Effect.rows heffect fun _ _ he => he
      refine ⟨hlog.effect heffect, ⟨rows, hrows.symm⟩, fun j hj => ?_⟩
      refine admittedIntent_none hrows (fun e he hadmitted => ?_) hj
      rw [← hall e he, hadmitted] at hk
      cases hk
    cases hresult : h.store.appendFact env run.sessionId fact (some r) with
    | mk result t =>
      rw [hresult] at happended
      dsimp only
      rw [hresult]
      cases result with
      | ok e => exact ⟨t, rfl, happended, fun _ => appendFact_terminal hk hresult⟩
      | error e => exact ⟨t, rfl, happended, fun hc => (nomatch hc)⟩

theorem interruption_terminal (clean : PyError → String) (error : PyError) :
    (interruption clean error).type.isTerminal = true := by
  cases error <;> rfl

/-- A run that was admitted has ended where the call returns. -/
theorem finishAdmitted_spec {h : Host} (hlog : h.store.LogInvariant) (env : Env) (r : String)
    (error : PyError) :
    ∃ t, (finishAdmitted env r error h).2 = { h with store := t } ∧ Appended r h.store t ∧
      (r ≠ "" → (admittedIntent h.store r).isSome = true →
        (finishAdmitted env r error h).1 = .ok () → t.runIsTerminal r = true) ∧
      (∀ e, (finishAdmitted env r error h).1 = .error e →
        (admittedIntent h.store r).isSome = true) := by
  unfold finishAdmitted
  split
  · rename_i hc
    obtain ⟨t, heq, happended, hend⟩ :=
      appendEvent_spec hlog env (r := r) (interruption_terminal h.clean error)
    exact ⟨t, heq, happended, fun _ _ hok => hend hok, fun _ _ => hc.2.2⟩
  · rename_i hc
    refine ⟨h.store, rfl, .refl hlog r, fun hne hsome _ => ?_, fun _ he => (nomatch he)⟩
    by_contra hopen
    refine hc ⟨?_, hopen, hsome⟩
    by_contra hnone
    rw [Option.not_isSome_iff_eq_none] at hnone
    rw [admittedIntent_unknown hlog hne hnone] at hsome
    cases hsome

/-! ## Dispatch -/

theorem claimNext_none {q q' : RuntimeScheduler} {s : RuntimeStore}
    {claimExecution : QueueEntry → Except PyError Bool}
    (h : q.claimNext s claimExecution = .ok (none, q')) : q' = q := by
  unfold RuntimeScheduler.claimNext at h
  obtain ⟨counts, -, h⟩ := bind_eq_ok.mp h
  split at h
  · exact (Prod.mk.inj (Except.ok.inj h)).2.symm
  · obtain ⟨entries, -, h⟩ := bind_eq_ok.mp h
    obtain ⟨claimed, -, h⟩ := bind_eq_ok.mp h
    cases claimed with
    | none => exact (Prod.mk.inj (Except.ok.inj h)).2.symm
    | some entry => exact absurd (Prod.mk.inj (Except.ok.inj h)).1 (by simp)

/-- A lease is for a run that the callback accepted and that had none. -/
theorem claimNext_some {q q' : RuntimeScheduler} {s : RuntimeStore} {lease : RootLease}
    {claimExecution : QueueEntry → Except PyError Bool}
    (h : q.claimNext s claimExecution = .ok (some lease, q')) :
    ∃ entry, claimExecution entry = .ok true ∧ entry.runId = lease.runId ∧
      q.owns lease.runId = false ∧ q' = q.addRoot lease := by
  unfold RuntimeScheduler.claimNext at h
  obtain ⟨counts, -, h⟩ := bind_eq_ok.mp h
  split at h
  · exact absurd (Prod.mk.inj (Except.ok.inj h)).1 (by simp)
  · obtain ⟨entries, -, h⟩ := bind_eq_ok.mp h
    obtain ⟨claimed, hfirst, h⟩ := bind_eq_ok.mp h
    cases claimed with
    | none => exact absurd (Prod.mk.inj (Except.ok.inj h)).1 (by simp)
    | some entry =>
      obtain ⟨hlease, rfl⟩ := Prod.mk.inj (Except.ok.inj h)
      obtain rfl := Option.some.inj hlease
      obtain ⟨-, -, -, ⟨-, hown, -⟩, hc, -⟩ := firstClaim_eq_some hfirst
      exact ⟨entry, hc, rfl, hown, rfl⟩

theorem pending_of_claimable {h : Host} {entry : QueueEntry} (hc : h.claimable entry = .ok true) :
    h.ready.get? entry.runId = some .pending := by
  unfold Host.claimable at hc
  split at hc
  · cases hc
  · rename_i hp
    exact not_not.mp hp

theorem Held.grant {h : Host} (hh : Held none h) {lease : RootLease} {q : RuntimeScheduler}
    (hq : h.scheduler.claimNext h.store h.claimable = .ok (some lease, q)) (key : String) :
    Held none (h.grant q lease key) := by
  obtain ⟨entry, hc, hrun, hown, rfl⟩ := claimNext_some hq
  have hpending := pending_of_claimable hc
  rw [hrun] at hpending
  have hnot : lease.runId ∉ h.scheduler.roots.keys := by
    intro hm
    rw [owns_iff.mpr (Or.inr hm)] at hown
    cases hown
  have hdone : lease.runId ∈ h.admissionDone.keys := by
    rcases hh.awaited _ hpending with hcur | hdone | hroot
    · cases hcur
    · exact hdone
    · exact absurd hroot hnot
  have hroots : ∀ j, j ∈ (h.scheduler.addRoot lease).roots.keys ↔
      j = lease.runId ∨ j ∈ h.scheduler.roots.keys := fun j => Dict.mem_keys_set
  refine { hh with
    ticketed := hh.ticketed, claimed := ?_, awaited := ?_, future := ?_, resolved := ?_
    leased := ?_, running := ?_ }
  · intro k j hj
    simp only [Host.grant, Dict.get?_set] at hj
    split at hj
    · exact Option.some.inj hj ▸ hdone
    · exact hh.claimed k j hj
  · intro j hj
    simp only [Host.grant, Dict.get?_set] at hj
    split at hj
    · exact absurd (Option.some.inj hj) (by decide)
    · exact (hh.awaited j hj).imp_right fun ho => ho.imp_right fun hm => (hroots j).mpr (Or.inr hm)
  · intro j hj
    rcases Dict.mem_keys_set.mp hj with rfl | hj
    · refine hh.future _ (Dict.mem_keys.mpr ?_)
      rw [hpending]
      rfl
    · exact hh.future j hj
  · intro j hj
    simp only [Host.grant, Dict.get?_set] at hj
    split at hj
    · rename_i he
      exact (hroots j).mpr (Or.inl he)
    · exact (hroots j).mpr (Or.inr (hh.resolved j hj))
  · intro j other hj
    simp only [Host.grant, Dict.get?_set] at hj
    split at hj
    · rename_i he
      obtain rfl := Option.some.inj hj
      exact ⟨he.symm, (hroots j).mpr (Or.inl he)⟩
    · obtain ⟨hid, hroot⟩ := hh.leased j other hj
      exact ⟨hid, (hroots j).mpr (Or.inr hroot)⟩
  · exact fun x hx hs hrun hm => (hroots _).mpr (Or.inr (hh.running x hx hs hrun hm))

/-- A lease sets the future of its run. -/
theorem waitingFutures_grant {h : Host} {lease : RootLease} {q : RuntimeScheduler}
    (hq : h.scheduler.claimNext h.store h.claimable = .ok (some lease, q)) (key : String) :
    h.waitingFutures = (h.grant q lease key).waitingFutures + 1 := by
  obtain ⟨entry, hc, hrun, -, -⟩ := claimNext_some hq
  have hpending := pending_of_claimable hc
  rw [hrun] at hpending
  have hset := Dict.countP_erase
    (Dict.get?_set_self : (h.ready.set lease.runId Ready.result).get? lease.runId = some .result)
    (· = .pending)
  rw [Dict.erase_set] at hset
  unfold Host.waitingFutures Host.grant
  rw [Dict.countP_erase hpending, hset]
  simp

/-- The loop of `dispatch` ends where no lease is granted: its rounds are enough. -/
theorem dispatch_induction {P : Host → Except PyError Unit × Host → Prop}
    (stopped : ∀ h result, (h.closed = true ∨ ∀ lease q key,
      h.scheduler.claimNext h.store h.claimable = .ok (some lease, q) →
        h.claimedKey lease ≠ .ok key) → P h (result, h))
    (granted : ∀ h lease q key result,
      h.scheduler.claimNext h.store h.claimable = .ok (some lease, q) →
        P (h.grant q lease key) result → P h result) (h : Host) : P h (dispatch h) := by
  have hloop : ∀ rounds h, h.waitingFutures < rounds → P h (dispatchLoop rounds h) := by
    intro rounds
    induction rounds with
    | zero =>
      intro h hr
      omega
    | succ rounds ih =>
      intro h hr
      unfold dispatchLoop
      split
      · rename_i e hq
        exact stopped h _ (.inr fun lease q key hc => by rw [hq] at hc; cases hc)
      · rename_i q hq
        obtain rfl := claimNext_none hq
        exact stopped h _ (.inr fun lease q key hc => by rw [hq] at hc; cases hc)
      · rename_i lease q hq
        split
        · rename_i e hkey
          refine stopped h _ (.inr fun other q' key hc hk => ?_)
          rw [hq] at hc
          obtain rfl := Option.some.inj (Prod.mk.inj (Except.ok.inj hc)).1
          rw [hkey] at hk
          cases hk
        · rename_i key _
          have hgrant := waitingFutures_grant hq key
          exact granted h lease q key _ hq (ih _ (by omega))
  unfold dispatch
  split
  · exact stopped h _ (.inl (by assumption))
  · exact hloop _ h (Nat.lt_succ_self _)

theorem leaves_dispatch (ps : List Preparation) :
    Leaves (fun h => Held none h ∧ h.preparations = ps) dispatch
      (fun h => Held none h ∧ h.preparations = ps) (fun h => Held none h ∧ h.preparations = ps) := by
  intro h
  induction h using dispatch_induction with
  | stopped h result _ => exact fun hh => ⟨fun _ => hh, fun _ _ => hh⟩
  | granted h lease q key result hq ih => exact fun hh => ih ⟨hh.1.grant hq key, hh.2⟩

theorem held_dispatch {h : Host} (hh : Held none h) : Held none (dispatch h).2 :=
  ((leaves_dispatch h.preparations).state ⟨hh, rfl⟩).1

/-! ## The end of a run -/

/-- A run that is released, between its admission's end and the dispatcher's cleanup. -/
structure Released (r : String) (h : Host) : Prop where
  held : Held (some r) h
  gone : r ∉ h.admissionDone.keys
  ended : r ∈ h.pending.keys → h.store.runIsTerminal r = true

theorem Released.settle {h : Host} {r : String} (hh : Released r h)
    (hready : h.ready.get? r ≠ some .pending) : Held none h :=
  hh.held.settle (fun hm => absurd hm hh.gone) (fun hp => absurd hp hready)
    fun hm => Or.inl (hh.ended hm)

theorem Released.popReady {h : Host} {r : String} (hh : Released r h) :
    Released r { h with ready := h.ready.erase r } where
  held := { hh.held with
    awaited := fun j hj => by
      rw [Dict.get?_erase] at hj
      split at hj
      · cases hj
      · exact hh.held.awaited j hj
    future := fun j hj => hh.held.future j (Dict.mem_keys_erase.mp hj).2
    resolved := fun j hj => by
      rw [Dict.get?_erase] at hj
      split at hj
      · cases hj
      · exact hh.held.resolved j hj }
  gone := hh.gone
  ended := hh.ended

theorem releaseRoot_cases {q q' : RuntimeScheduler} {s : RuntimeStore} {lease : RootLease}
    {released : Bool} (h : q.releaseRoot s lease = .ok (released, q')) :
    q' = q ∨ (q' = q.popRoot lease.runId ∧ q.roots.get? lease.runId = some lease) := by
  unfold RuntimeScheduler.releaseRoot at h
  split at h
  · exact Or.inl (Prod.mk.inj (Except.ok.inj h)).2.symm
  · rename_i hl
    obtain ⟨_, -, h⟩ := bind_eq_ok.mp h
    exact Or.inr ⟨(Prod.mk.inj (Except.ok.inj h)).2.symm, not_not.mp hl⟩

theorem Released.popLease {h : Host} {r : String} (hh : Released r h) :
    Released r { h with leases := h.leases.erase r } where
  held := { hh.held with
    leased := fun j lease hj => by
      rw [Dict.get?_erase] at hj
      split at hj
      · cases hj
      · exact hh.held.leased j lease hj }
  gone := hh.gone
  ended := hh.ended

/-- The lease of a run that nothing waits for. -/
theorem Released.popRoot {h : Host} {r : String} (hh : Released r h)
    (hready : r ∉ h.ready.keys) (hlease : r ∉ h.leases.keys) :
    Released r { h with scheduler := h.scheduler.popRoot r } := by
  have hroots : ∀ j, j ≠ r → j ∈ h.scheduler.roots.keys →
      j ∈ (h.scheduler.popRoot r).roots.keys :=
    fun j hj hm => Dict.mem_keys_erase.mpr ⟨hj, hm⟩
  have hne : ∀ {j : String} {value : Ready}, h.ready.get? j = some value → j ≠ r := by
    rintro j value hj rfl
    refine hready (Dict.mem_keys.mpr ?_)
    rw [hj]
    rfl
  refine { held := ?_, gone := hh.gone, ended := hh.ended }
  refine { hh.held with
    ticketed := hh.held.ticketed, awaited := ?_, resolved := ?_, leased := ?_, running := ?_ }
  · intro j hj
    exact (hh.held.awaited j hj).imp_right fun ho => ho.imp_right (hroots j (hne hj))
  · exact fun j hj => hroots j (hne hj) (hh.held.resolved j hj)
  · intro j lease hj
    obtain ⟨hid, hroot⟩ := hh.held.leased j lease hj
    refine ⟨hid, hroots j ?_ hroot⟩
    rintro rfl
    refine hlease (Dict.mem_keys.mpr ?_)
    rw [hj]
    rfl
  · intro x hx hs hrun hm
    exact hroots _ (fun he => hh.gone (he ▸ hm)) (hh.held.running x hx hs hrun hm)

theorem releaseLease_spec {h : Host} {r : String} (hh : Released r h)
    (hready : r ∉ h.ready.keys) :
    Released r (releaseLease r h).2 ∧ (releaseLease r h).2.ready = h.ready ∧
      (releaseLease r h).2.preparations = h.preparations := by
  unfold releaseLease
  split
  · exact ⟨hh, rfl, rfl⟩
  · rename_i lease hlease
    split
    · exact ⟨hh.popLease, rfl, rfl⟩
    · rename_i released q hq
      rcases releaseRoot_cases hq with rfl | ⟨rfl, -⟩
      · exact ⟨hh.popLease, rfl, rfl⟩
      · rw [(hh.held.leased r lease hlease).1]
        refine ⟨hh.popLease.popRoot hready ?_, rfl, rfl⟩
        exact fun hm => (Dict.mem_keys_erase.mp hm).1 rfl

theorem leaves_finished (r : String) (ps : List Preparation) :
    Leaves (fun h => Released r h ∧ h.preparations = ps) (finished r)
      (fun h => Held none h ∧ h.preparations = ps) (fun h => Held none h ∧ h.preparations = ps) := by
  have hsettle : ∀ h : Host, Released r h ∧ r ∉ h.ready.keys ∧ h.preparations = ps →
      Held none h ∧ h.preparations = ps := by
    rintro h ⟨hr, hready, hp⟩
    refine ⟨hr.settle ?_, hp⟩
    rw [Dict.get?_eq_none.mpr hready]
    simp
  have hlease : Leaves (fun h : Host => Released r h ∧ r ∉ h.ready.keys ∧ h.preparations = ps)
      (releaseLease r) (fun h => Held none h ∧ h.preparations = ps)
      (fun h => Held none h ∧ h.preparations = ps) := by
    rintro h ⟨hr, hready, hp⟩
    obtain ⟨hreleased, heq, hps⟩ := releaseLease_spec hr hready
    have hdone := hsettle _ ⟨hreleased, heq ▸ hready, hps.trans hp⟩
    exact ⟨fun _ => hdone, fun _ _ => hdone⟩
  refine Leaves.andThen (leaves_write fun h hh => ?_) (hlease.andThen (leaves_dispatch ps))
  exact ⟨hh.1.popReady, fun hm => (Dict.mem_keys_erase.mp hm).1 rfl, hh.2⟩

/-- The handler that ends an admission, for a run that no preparation has reserved. -/
theorem leaves_abandon (env : Env) (r : String) (error : PyError) (ps : List Preparation)
    (hps : ∀ p ∈ ps, p.runId = r → p.phase.reserved = false) :
    Leaves (fun h => Held none h ∧ h.preparations = ps) (abandon env r error)
      (fun h => Released r h ∧ h.preparations = ps)
      (fun h => Held none h ∧ h.preparations = ps) := by
  have hfinish : Leaves (fun h : Host => Held none h ∧ h.preparations = ps)
      (finishAdmitted env r error)
      (fun h => Held none h ∧ h.preparations = ps ∧
        (r ∈ h.pending.keys → h.store.runIsTerminal r = true))
      (fun h => Held none h ∧ h.preparations = ps) := by
    rintro h ⟨hh, hp⟩
    obtain ⟨t, heq, happended, hend, -⟩ := finishAdmitted_spec hh.log env r error
    have hstore := hh.appended happended
    rw [heq]
    refine ⟨fun hok => ⟨hstore, hp, fun hm => ?_⟩, fun _ _ => ⟨hstore, hp⟩⟩
    have hm' : r ∈ h.pending.keys := hm
    obtain ⟨kind, hkind⟩ := Option.isSome_iff_exists.mp (Dict.mem_keys.mp hm')
    obtain ⟨-, -, ⟨e, -, -, hne, -⟩, -⟩ := hh.listed r kind hkind
    exact hend hne (hh.admitted_of_listed hm') hok
  refine Leaves.andThen hfinish (leaves_write fun h hh => ?_)
  obtain ⟨hh, hp, hend⟩ := hh
  have hheld := hh.releaseAdmission (r := r) (Or.inl rfl) (by rw [hp]; exact hps)
  obtain ⟨admissions, admissionDone, happened, removed, heq, hgone⟩ := releaseAdmission_frame h r
  rw [heq] at hheld ⊢
  exact ⟨⟨hheld, hgone, hend⟩, hp⟩

/-- A run's admission and its lease end. -/
theorem leaves_cleanup (env : Env) (r : String) (error : PyError) (ps : List Preparation)
    (hps : ∀ p ∈ ps, p.runId = r → p.phase.reserved = false) :
    Leaves (fun h => Held none h ∧ h.preparations = ps)
      ((abandon env r error).andThen (finished r)) (fun h => Held none h ∧ h.preparations = ps)
      (fun h => Held none h ∧ h.preparations = ps) :=
  (leaves_abandon env r error ps hps).andThen (leaves_finished r ps)

theorem Held.popTask {h : Host} {cur : Option String} (hh : Held cur h) (r : String) :
    Held cur { h with runTasks := h.runTasks.erase r } :=
  { hh with log := hh.log }

theorem Held.unlist {h : Host} {cur : Option String} (hh : Held cur h) (r : String) :
    Held cur { h with pending := h.pending.erase r } :=
  { hh with
    executed := fun x hx => ⟨(hh.executed x hx).1, fun hm =>
      (hh.executed x hx).2 (Dict.mem_keys_erase.mp hm).2⟩
    listed := fun j kind hj => by
      rw [Dict.get?_erase] at hj
      split at hj
      · cases hj
      · exact hh.listed j kind hj }

theorem Held.dropExecution {h : Host} {cur : Option String} (hh : Held cur h) (x : Execution) :
    Held cur { h with executions := h.executions.erase x } :=
  { hh with
    executed := fun y hy => hh.executed y (List.mem_of_mem_erase hy)
    running := fun y hy => hh.running y (List.mem_of_mem_erase hy) }

/-- A task whose run has been admitted and is on no list. -/
structure Tasked (r : String) (h : Host) : Prop where
  held : Held none h
  admitted : (admittedIntent h.store r).isSome = true
  unlisted : r ∉ h.pending.keys

theorem leaves_finishError (env : Env) (r : String) (error : Option PyError) :
    Leaves (Tasked r) (finishError env r error) (Tasked r) (Tasked r) := by
  cases error with
  | none => exact leaves_write fun _ hh => hh
  | some error =>
    intro h hh
    obtain ⟨t, heq, happended, -⟩ := finishAdmitted_spec hh.held.log env r error
    have htasked : Tasked r { h with store := t } := by
      refine ⟨hh.held.appended happended, ?_, hh.unlisted⟩
      obtain ⟨intent, hintent⟩ := Option.isSome_iff_exists.mp hh.admitted
      rw [admittedIntent_mono happended.grows hintent]
      rfl
    rw [show finishError env r (some error) h = finishAdmitted env r error h from rfl, heq]
    exact ⟨fun _ => htasked, fun _ _ => htasked⟩

theorem Tasked.released {h : Host} {r : String} (hh : Tasked r h) :
    Released r { h.releaseAdmission r with runTasks := h.runTasks.erase r } := by
  have hheld := hh.held.releaseAdmission (r := r) (Or.inl rfl)
    fun p hp he => absurd he (hh.held.not_prepared hh.admitted p hp)
  obtain ⟨admissions, admissionDone, happened, removed, heq, hgone⟩ := releaseAdmission_frame h r
  rw [heq] at hheld ⊢
  exact ⟨hheld.popTask r, hgone, fun hm => absurd hm hh.unlisted⟩

theorem held_taskDone {h : Host} (hh : Held none h) {x : Execution} (hx : x ∈ h.executions)
    (env : Env) (error : Option PyError) :
    Held none (taskDone env x error { h with executions := h.executions.erase x }).2 := by
  obtain ⟨hadmitted, hunlisted⟩ := hh.executed x hx
  have hfinished : Leaves (Released x.runId) (finished x.runId) (Held none) (Held none) :=
    fun t ht => by
      obtain ⟨hok, herr⟩ := leaves_finished x.runId t.preparations t ⟨ht, rfl⟩
      exact ⟨fun hc => (hok hc).1, fun e hc => (herr e hc).1⟩
  have hdone : Leaves (Tasked x.runId) (taskDone env x error) (Held none) (Held none) :=
    Leaves.andThen ((leaves_finishError env x.runId error).mono (fun _ => id) fun _ ht => ht.held)
      (Leaves.andThen (leaves_write fun _ ht => ht.released) hfinished)
  exact hdone.state ⟨hh.dropExecution x, hadmitted, hunlisted⟩

theorem held_admitEnds {h : Host} (hh : Held none h) {x : Execution} (hx : x ∈ h.executions)
    (hrunning : x.running = true) (hhost : x.starter = .host) (env : Env)
    (error : Option PyError) : Held none (admitEnds env x error h).2 := by
  obtain ⟨hadmitted, hunlisted⟩ := hh.executed x hx
  -- A running task has a lease, so a future that is still pending is no claim on the run.
  have hroot : x.runId ∈ h.admissionDone.keys → x.runId ∈ h.scheduler.roots.keys :=
    hh.running x hx hhost hrunning
  have hawaited : h.ready.get? x.runId = some .pending → x.runId ∈ h.scheduler.roots.keys := by
    intro hp
    rcases hh.awaited _ hp with hc | hdone | hr
    · cases hc
    · exact hroot hdone
    · exact hr
  have hends : Leaves (fun t : Host => Tasked x.runId t ∧
        (t.ready.get? x.runId = some .pending → x.runId ∈ t.scheduler.roots.keys))
      (admitEnds env x error) (Held none) (Held none) := by
    have hwrite : Leaves (fun t : Host => Tasked x.runId t ∧
          (t.ready.get? x.runId = some .pending → x.runId ∈ t.scheduler.roots.keys))
        (Stretch.write (ε := PyError) fun t : Host =>
          { t.releaseAdmission x.runId with runTasks := t.runTasks.erase x.runId })
        (Held none) (Held none) := by
      refine leaves_write fun t ht => ?_
      have hreleased := ht.1.released
      refine hreleased.held.settle (fun hm => absurd hm hreleased.gone) (fun hp => ?_)
        fun hm => Or.inl (hreleased.ended hm)
      obtain ⟨admissions, admissionDone, happened, removed, heq, -⟩ :=
        releaseAdmission_frame t x.runId
      rw [heq] at hp ⊢
      exact Or.inr (ht.2 hp)
    refine Leaves.ensure ?_ hwrite hwrite
    intro t ht
    obtain ⟨hok, herr⟩ := leaves_finishError env x.runId error t ht.1
    have hframe : ∃ u, (finishError env x.runId error t).2 = { t with store := u } := by
      cases error with
      | none => exact ⟨t.store, rfl⟩
      | some error =>
        obtain ⟨u, heq, -⟩ := finishAdmitted_spec ht.1.held.log env x.runId error
        exact ⟨u, heq⟩
    obtain ⟨u, heq⟩ := hframe
    rw [heq] at hok herr ⊢
    exact ⟨fun hc => ⟨hok hc, ht.2⟩, fun e hc => ⟨herr e hc, ht.2⟩⟩
  exact hends.state ⟨⟨hh, hadmitted, hunlisted⟩, hawaited⟩

theorem held_cancelRun {h : Host} (hh : Held none h) (env : Env) (r : String) :
    Held none (cancelRun env r h).2 := by
  unfold cancelRun
  split
  · split
    · rename_i hp
      refine { hh with
        awaited := fun j hj => ?_, future := fun j hj => ?_, resolved := fun j hj => ?_ }
      · rw [Dict.get?_set] at hj
        split at hj
        · exact absurd (Option.some.inj hj) (by decide)
        · exact hh.awaited j hj
      · rcases Dict.mem_keys_set.mp hj with rfl | hj
        · refine hh.future _ (Dict.mem_keys.mpr ?_)
          rw [hp]
          rfl
        · exact hh.future j hj
      · rw [Dict.get?_set] at hj
        split at hj
        · exact absurd (Option.some.inj hj) (by decide)
        · exact hh.resolved j hj
    · exact hh
  · split
    · rename_i hc
      exact ((leaves_cleanup env r .cancelled h.preparations fun p hp he =>
        absurd he (hh.not_prepared hc.1 p hp)).state ⟨hh, rfl⟩).1
    · exact hh

theorem held_closeRuns {h : Host} (hh : Held none h) (env : ℕ → Env)
    (hp : ∀ p ∈ h.preparations, p.phase = .starting) : Held none (closeRuns env h).2 := by
  have hloop : Leaves (fun t : Host => Held none t ∧ t.preparations = h.preparations)
      (closeRuns env) (fun t => Held none t ∧ t.preparations = h.preparations)
      (fun t => Held none t ∧ t.preparations = h.preparations) := by
    intro t ht
    refine leaves_each (fun (run : String × ℕ) _ => leaves_cleanup (env run.2) run.1 .cancelled _ ?_) t ht
    intro p hmem _
    rw [hp p hmem]
    rfl
  exact (hloop.state ⟨hh, rfl⟩).1

end Reservations

end Eventide
