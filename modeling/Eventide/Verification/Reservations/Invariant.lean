import Eventide.Model.Reservations
import Eventide.Verification.Scheduler.Steps
import Eventide.Verification.Store.Mutations

/-! # What the host keeps about its reservations -/

namespace Eventide

open Outcome RuntimeStore RuntimeScheduler Stretch

namespace Reservations

/-! ## A log that grows -/

section Log

variable {s t : RuntimeStore} {r : String}

theorem admittedIntent_mono (h : s.events <+: t.events) {intent : Json}
    (hr : admittedIntent s r = some intent) : admittedIntent t r = some intent := by
  obtain ⟨rows, hrows⟩ := h
  obtain ⟨e, he, rfl⟩ := Option.map_eq_some_iff.mp hr
  rw [admittedIntent, runEvents, ← hrows, List.filter_append, List.find?_append,
    show (s.events.filter _).find? _ = some e from he]
  rfl

/-- A run stays without an admission where no new row admits it. -/
theorem admittedIntent_none {rows : List Event} (h : t.events = s.events ++ rows)
    (hrows : ∀ e ∈ rows, e.type = .runAdmitted → e.runId ≠ some r)
    (hr : admittedIntent s r = none) : admittedIntent t r = none := by
  have hold : (s.runEvents r).find? (·.type = .runAdmitted) = none :=
    Option.map_eq_none_iff.mp hr
  have hnew : (rows.filter (·.runId = some r)).find? (·.type = .runAdmitted) = none := by
    apply List.find?_eq_none.mpr
    intro e he
    obtain ⟨hmem, hrun⟩ := List.mem_filter.mp he
    intro hkind
    exact hrows e hmem (of_decide_eq_true hkind) (of_decide_eq_true hrun)
  rw [admittedIntent, runEvents, h, List.filter_append, List.find?_append,
    show (s.events.filter _).find? _ = none from hold, hnew]
  rfl

/-- The first row that admits a run. -/
theorem admittedIntent_first {e : Event} {rows : List Event} (h : t.events = s.events ++ e :: rows)
    (hr : admittedIntent s r = none) (hrun : e.runId = some r) (hkind : e.type = .runAdmitted) :
    admittedIntent t r = some e.payload := by
  have hold : (s.runEvents r).find? (·.type = .runAdmitted) = none :=
    Option.map_eq_none_iff.mp hr
  have hfirst : (t.runEvents r).find? (·.type = .runAdmitted) = some e := by
    rw [runEvents, h, List.filter_append, List.find?_append,
      show (s.events.filter _).find? _ = none from hold, Option.none_or]
    simp [hrun, hkind]
  rw [admittedIntent, hfirst]
  rfl

theorem sessionIsControl_mono (h : s.events <+: t.events) {sid : String}
    (hs : sessionIsControl s sid = true) : sessionIsControl t sid = true := by
  obtain ⟨e, he, hcontrol⟩ := List.any_eq_true.mp hs
  obtain ⟨hmem, hsid⟩ := List.mem_filter.mp he
  exact List.any_eq_true.mpr ⟨e, List.mem_filter.mpr ⟨h.subset hmem, hsid⟩, hcontrol⟩

/-- The admission of a run. -/
theorem exists_admission {intent : Json} (h : admittedIntent s r = some intent) :
    ∃ e ∈ s.events, e.runId = some r ∧ e.type = .runAdmitted := by
  obtain ⟨e, he, -⟩ := Option.map_eq_some_iff.mp h
  obtain ⟨hmem, hrun⟩ := List.mem_filter.mp (List.mem_of_find?_eq_some he)
  have hkind := List.find?_some he
  exact ⟨e, hmem, of_decide_eq_true hrun, of_decide_eq_true hkind⟩

theorem admittedIntent_isSome {e : Event} (he : e ∈ s.events) (hr : e.runId = some r)
    (hk : e.type = .runAdmitted) : (admittedIntent s r).isSome = true := by
  rw [admittedIntent, Option.isSome_map, List.find?_isSome]
  exact ⟨e, List.mem_filter.mpr ⟨he, decide_eq_true hr⟩, decide_eq_true hk⟩

/-- A run that the store does not know has no admission. -/
theorem admittedIntent_unknown (h : s.LogInvariant) (hne : r ≠ "")
    (hr : s.getRunIdentity r = none) : admittedIntent s r = none := by
  by_contra hsome
  obtain ⟨intent, hintent⟩ := Option.ne_none_iff_exists'.mp hsome
  obtain ⟨e, he, hrun, -⟩ := exists_admission hintent
  obtain ⟨run, hmem, hid, -⟩ := h.owned e he r (givenRun_eq_some.mpr ⟨hrun, hne⟩)
  exact h.getRunIdentity_none hr run hmem hid

/-- The rows that a chain of effects adds, with what each promises by itself. -/
theorem Effect.rows {P : Promise} {K : Event → Prop} (h : Effect P s t)
    (hk : ∀ u e, P.event u e → K e) :
    ∃ rows, t.events = s.events ++ rows ∧ ∀ e ∈ rows, K e := by
  induction h with
  | refl => exact ⟨[], (List.append_nil _).symm, fun e he => nomatch he⟩
  | @event t e _ _ hp ih =>
    obtain ⟨rows, hrows, hall⟩ := ih
    refine ⟨rows ++ [e], by rw [← List.append_assoc, ← hrows], fun x hx => ?_⟩
    rcases List.mem_append.mp hx with hx | hx
    · exact hall x hx
    · exact List.mem_singleton.mp hx ▸ hk _ _ hp
  | run _ _ _ _ _ ih => exact ih
  | frame _ he _ _ ih =>
    obtain ⟨rows, hrows, hall⟩ := ih
    exact ⟨rows, he.trans hrows, hall⟩

end Log

/-! ## The invariant -/

/-- What holds between two stretches, and inside one that handles the run `cur`, which may be
registered or released before the rest follows. -/
structure Held (cur : Option String) (h : Host) : Prop where
  log : h.store.LogInvariant
  distinct : (h.preparations.map (·.runId)).Nodup
  named : ∀ p ∈ h.preparations, p.runId ≠ ""
  unadmitted : ∀ p ∈ h.preparations, admittedIntent h.store p.runId = none
  ticketed : ∀ p ∈ h.preparations, ∀ t, p.ticket = some t →
    t.runId = p.runId ∧ p.runId ∈ h.scheduler.tickets.keys
  reserved : ∀ p ∈ h.preparations, p.phase.reserved = true → p.runId ∈ h.admissionDone.keys
  unreserved : ∀ p ∈ h.preparations, p.phase.reserved = false → p.runId ∉ h.admissionDone.keys
  owner : ∀ r ∈ h.admissionDone.keys, cur = some r ∨ (∃ p ∈ h.preparations, p.runId = r) ∨
    (admittedIntent h.store r).isSome = true
  claimed : ∀ key r, h.admissions.get? key = some r → r ∈ h.admissionDone.keys
  awaited : ∀ r, h.ready.get? r = some .pending →
    cur = some r ∨ r ∈ h.admissionDone.keys ∨ r ∈ h.scheduler.roots.keys
  future : ∀ r ∈ h.ready.keys, (admittedIntent h.store r).isSome = true
  resolved : ∀ r, h.ready.get? r = some .result → r ∈ h.scheduler.roots.keys
  leased : ∀ r lease, h.leases.get? r = some lease →
    lease.runId = r ∧ r ∈ h.scheduler.roots.keys
  executed : ∀ x ∈ h.executions, (admittedIntent h.store x.runId).isSome = true ∧
    x.runId ∉ h.pending.keys
  running : ∀ x ∈ h.executions, x.starter = .host → x.running = true →
    x.runId ∈ h.admissionDone.keys → x.runId ∈ h.scheduler.roots.keys
  listed : ∀ r kind, h.pending.get? r = some kind → kind.lists = true ∧
    isControlledBy h.store kind r = true ∧
    (∃ e ∈ h.store.events, e.runId = some r ∧ r ≠ "" ∧ e.type = .runAdmitted ∧
      sessionIsControl h.store e.sessionId = true) ∧
    (cur = some r ∨ h.store.runIsTerminal r = true ∨ r ∈ h.admissionDone.keys)
  waiter : ∀ n x done, h.entries.get? n = some x → x.place = .waiting done →
    done ∈ h.happened ∨ ∃ r admission, h.admissionDone.get? r = some admission ∧
      admission.done = done
  sound : ∀ n x e, h.entries.get? n = some x → x.place ≠ .raised e
  removed : ∀ admission ∈ h.removed, admission.done ∈ h.happened

variable {h : Host} {cur : Option String} {r : String}

theorem held_opened (store : RuntimeStore) (hlog : store.LogInvariant) (clean : PyError → String)
    (pyStr : Json → String) (limits : SchedulingLimits) :
    Held none (Host.opened store clean pyStr limits) where
  log := hlog
  distinct := List.nodup_nil
  named := fun _ hp => nomatch hp
  unadmitted := fun _ hp => nomatch hp
  ticketed := fun _ hp => nomatch hp
  reserved := fun _ hp => nomatch hp
  unreserved := fun _ hp => nomatch hp
  owner := fun _ hr => nomatch hr
  claimed := fun _ _ hr => nomatch hr
  awaited := fun _ hr => nomatch hr
  future := fun _ hr => nomatch hr
  resolved := fun _ hr => nomatch hr
  leased := fun _ _ hr => nomatch hr
  executed := fun _ hx => nomatch hx
  running := fun _ hx => nomatch hx
  listed := fun _ _ hr => nomatch hr
  waiter := fun _ _ _ hx => nomatch hx
  sound := fun _ _ _ hx => nomatch hx
  removed := fun _ ha => nomatch ha

/-- A stretch begins to handle a run. -/
theorem Held.take (hh : Held none h) (r : String) : Held (some r) h :=
  { hh with
    owner := fun j hj => Or.inr ((hh.owner j hj).resolve_left (fun hc => nomatch hc))
    awaited := fun j hj => Or.inr ((hh.awaited j hj).resolve_left (fun hc => nomatch hc))
    listed := fun j kind hj => by
      obtain ⟨hl, hc, he, hrest⟩ := hh.listed j kind hj
      exact ⟨hl, hc, he, Or.inr (hrest.resolve_left (fun hc => nomatch hc))⟩ }

/-- A stretch leaves a run in order. -/
theorem Held.settle (hh : Held (some r) h)
    (howner : r ∈ h.admissionDone.keys → (∃ p ∈ h.preparations, p.runId = r) ∨
      (admittedIntent h.store r).isSome = true)
    (hawaited : h.ready.get? r = some .pending →
      r ∈ h.admissionDone.keys ∨ r ∈ h.scheduler.roots.keys)
    (hlisted : r ∈ h.pending.keys → h.store.runIsTerminal r = true ∨ r ∈ h.admissionDone.keys) :
    Held none h :=
  { hh with
    owner := fun j hj => by
      rcases hh.owner j hj with he | ho
      · obtain rfl := Option.some.inj he
        exact Or.inr (howner hj)
      · exact Or.inr ho
    awaited := fun j hj => by
      rcases hh.awaited j hj with he | ho
      · obtain rfl := Option.some.inj he
        exact Or.inr (hawaited hj)
      · exact Or.inr ho
    listed := fun j kind hj => by
      obtain ⟨hl, hc, he, hrest⟩ := hh.listed j kind hj
      refine ⟨hl, hc, he, ?_⟩
      rcases hrest with heq | ho
      · obtain rfl := Option.some.inj heq
        refine Or.inr (hlisted (Dict.mem_keys.mpr ?_))
        rw [hj]
        rfl
      · exact Or.inr ho }

/-- An admitted run is not being prepared. -/
theorem Held.not_prepared (hh : Held cur h) (hr : (admittedIntent h.store r).isSome = true) :
    ∀ p ∈ h.preparations, p.runId ≠ r := by
  rintro p hp rfl
  rw [hh.unadmitted p hp] at hr
  cases hr

theorem Held.admitted_of_listed (hh : Held cur h) (hr : r ∈ h.pending.keys) :
    (admittedIntent h.store r).isSome = true := by
  obtain ⟨kind, hkind⟩ := Option.isSome_iff_exists.mp (Dict.mem_keys.mp hr)
  obtain ⟨-, -, ⟨e, he, hrun, -, hk, -⟩, -⟩ := hh.listed r kind hkind
  exact admittedIntent_isSome he hrun hk

/-! ## Writes -/

/-- The store grows and admits no run that is being prepared. -/
theorem Held.store (hh : Held cur h) {t : RuntimeStore} (hlog : t.LogInvariant)
    (hgrow : h.store.events <+: t.events)
    (hprepared : ∀ p ∈ h.preparations, admittedIntent t p.runId = none) :
    Held cur { h with store := t } := by
  have hkeep : ∀ j, (admittedIntent h.store j).isSome = true →
      (admittedIntent t j).isSome = true := by
    intro j hj
    obtain ⟨intent, hintent⟩ := Option.isSome_iff_exists.mp hj
    rw [admittedIntent_mono hgrow hintent]
    rfl
  refine { hh with
    log := hlog, unadmitted := hprepared, owner := ?_, future := fun j hj => hkeep j (hh.future j hj)
    executed := fun x hx => ⟨hkeep _ (hh.executed x hx).1, (hh.executed x hx).2⟩, listed := ?_ }
  · intro j hj
    exact (hh.owner j hj).imp_right fun ho => ho.imp_right (hkeep j)
  · intro j kind hj
    obtain ⟨hl, hc, ⟨e, he, hrun, hne, hk, hs⟩, hrest⟩ := hh.listed j kind hj
    refine ⟨hl, ?_, ⟨e, hgrow.subset he, hrun, hne, hk, sessionIsControl_mono hgrow hs⟩, ?_⟩
    · have hsome := admittedIntent_isSome he hrun hk
      obtain ⟨intent, hintent⟩ := Option.isSome_iff_exists.mp hsome
      rw [isControlledBy, hintent] at hc
      rw [isControlledBy, admittedIntent_mono hgrow hintent]
      exact hc
    · exact hrest.imp_right fun ho => ho.imp_left (runIsTerminal_mono hgrow)

theorem Held.releaseExecutionClaims (hh : Held cur h) (r : String) :
    Held cur (h.releaseExecutionClaims r) :=
  { hh with claimed := fun key j hj => hh.claimed key j (Dict.get?_filterValues.mp hj).1 }

theorem not_claimed (h : Host) (r key : String) :
    (h.releaseExecutionClaims r).admissions.get? key ≠ some r := by
  intro hc
  simpa using (Dict.get?_filterValues.mp hc).2

theorem popAdmission_eq (r : String) (h : Host) :
    ∃ happened removed, h.popAdmission r =
      { h with admissionDone := h.admissionDone.erase r, happened, removed } ∧
      (∀ done ∈ h.happened, done ∈ happened) ∧
      (∀ admission, h.admissionDone.get? r = some admission → admission.done ∈ happened) ∧
      ((∀ admission ∈ h.removed, admission.done ∈ h.happened) →
        ∀ admission ∈ removed, admission.done ∈ happened) := by
  unfold Host.popAdmission
  cases hget : h.admissionDone.get? r with
  | none =>
    have herase : h.admissionDone.erase r = h.admissionDone := by
      refine Dict.ext (List.filter_eq_self.mpr fun p hp => ?_)
      simp only [ne_eq, decide_not, Bool.not_eq_true', decide_eq_false_iff_not]
      rintro rfl
      rw [Dict.mem_entries.mp hp] at hget
      cases hget
    refine ⟨h.happened, h.removed, by rw [herase], fun _ hd => hd, fun _ ha => (nomatch ha),
      fun hall => hall⟩
  | some admission =>
    refine ⟨admission.done :: h.happened, admission :: h.removed, rfl,
      fun _ hd => List.mem_cons_of_mem _ hd, ?_, ?_⟩
    · intro other ho
      obtain rfl := Option.some.inj ho
      exact List.mem_cons_self
    · intro hall other ho
      rcases List.mem_cons.mp ho with rfl | ho
      · exact List.mem_cons_self
      · exact List.mem_cons_of_mem _ (hall other ho)

/-- A run is released that no preparation has reserved. -/
theorem Held.releaseAdmission (hh : Held cur h) (hcur : cur = none ∨ cur = some r)
    (hfree : ∀ p ∈ h.preparations, p.runId = r → p.phase.reserved = false) :
    Held (some r) (h.releaseAdmission r) := by
  have hk : Held (some r) (h.releaseExecutionClaims r) := by
    rcases hcur with rfl | rfl
    · exact (hh.releaseExecutionClaims r).take r
    · exact hh.releaseExecutionClaims r
  obtain ⟨happened, removed, heq, hhappened, hset, hremoved⟩ :=
    popAdmission_eq r (h.releaseExecutionClaims r)
  rw [Host.releaseAdmission, heq]
  have hkeep : ∀ j, j ≠ r → (j ∈ (h.admissionDone.erase r).keys ↔ j ∈ h.admissionDone.keys) :=
    fun j hj => Dict.mem_keys_erase.trans (and_iff_right hj)
  refine { hk with
    reserved := ?_, unreserved := ?_, owner := ?_, claimed := ?_, awaited := ?_, running := ?_
    listed := ?_, waiter := ?_, removed := hremoved hk.removed }
  · intro p hp hreserved
    refine (hkeep _ ?_).mpr (hk.reserved p hp hreserved)
    intro he
    rw [hfree p hp he] at hreserved
    cases hreserved
  · exact fun p hp hu hm => hk.unreserved p hp hu (Dict.mem_keys_erase.mp hm).2
  · exact fun j hj => hk.owner j (Dict.mem_keys_erase.mp hj).2
  · intro key j hj
    refine (hkeep j ?_).mpr (hk.claimed key j hj)
    rintro rfl
    exact not_claimed h j key hj
  · intro j hj
    by_cases hjr : j = r
    · exact Or.inl (congrArg some hjr.symm)
    · exact (hk.awaited j hj).imp_right fun ho => ho.imp_left (hkeep j hjr).mpr
  · exact fun x hx hs hrun hm => hk.running x hx hs hrun (Dict.mem_keys_erase.mp hm).2
  · intro j kind hj
    obtain ⟨hl, hc, he, hrest⟩ := hk.listed j kind hj
    refine ⟨hl, hc, he, ?_⟩
    by_cases hjr : j = r
    · exact Or.inl (congrArg some hjr.symm)
    · exact hrest.imp_right fun ho => ho.imp_right (hkeep j hjr).mpr
  · intro n x done hx hplace
    rcases hk.waiter n x done hx hplace with hd | ⟨j, admission, hj, hdone⟩
    · exact Or.inl (hhappened done hd)
    · by_cases hjr : j = r
      · exact Or.inl (hdone ▸ hset admission (hjr ▸ hj))
      · exact Or.inr ⟨j, admission, (by rw [Dict.get?_erase, if_neg hjr]; exact hj), hdone⟩

/-- What a release leaves alone. -/
theorem releaseAdmission_frame (h : Host) (r : String) :
    ∃ admissions admissionDone happened removed, h.releaseAdmission r =
      { h with admissions, admissionDone, happened, removed } ∧ r ∉ admissionDone.keys := by
  obtain ⟨happened, removed, heq, -⟩ := popAdmission_eq r (h.releaseExecutionClaims r)
  exact ⟨_, _, happened, removed, heq, fun hm => (Dict.mem_keys_erase.mp hm).1 rfl⟩

/-- A reservation for a run that has none. -/
theorem Held.addAdmission (hh : Held (some r) h) (sid : String)
    (hnew : r ∉ h.admissionDone.keys)
    (hprepared : ∀ p ∈ h.preparations, p.runId ≠ r)
    (hexecuted : ∀ x ∈ h.executions, x.runId ≠ r) : Held (some r) (h.addAdmission r sid) := by
  have hget : h.admissionDone.get? r = none := Dict.get?_eq_none.mpr hnew
  have hmem : ∀ j, j ∈ (h.admissionDone.set r ⟨sid, h.objects⟩).keys ↔
      j = r ∨ j ∈ h.admissionDone.keys := fun j => Dict.mem_keys_set
  unfold Host.addAdmission
  rw [hget]
  refine { hh with
    reserved := ?_, unreserved := ?_, owner := ?_, claimed := ?_, awaited := ?_, running := ?_
    listed := ?_, waiter := ?_, removed := hh.removed }
  · exact fun p hp hreserved => (hmem _).mpr (Or.inr (hh.reserved p hp hreserved))
  · intro p hp hu hm
    exact hh.unreserved p hp hu (((hmem _).mp hm).resolve_left (hprepared p hp))
  · intro j hj
    rcases (hmem j).mp hj with rfl | hj
    · exact Or.inl rfl
    · exact hh.owner j hj
  · exact fun key j hj => (hmem j).mpr (Or.inr (hh.claimed key j hj))
  · exact fun j hj => (hh.awaited j hj).imp_right fun ho => ho.imp_left fun hm =>
      (hmem j).mpr (Or.inr hm)
  · intro x hx hs hrun hm
    exact hh.running x hx hs hrun (((hmem _).mp hm).resolve_left (hexecuted x hx))
  · intro j kind hj
    obtain ⟨hl, hc, he, hrest⟩ := hh.listed j kind hj
    exact ⟨hl, hc, he, hrest.imp_right fun ho => ho.imp_right fun hm => (hmem j).mpr (Or.inr hm)⟩
  · intro n x done hx hplace
    refine (hh.waiter n x done hx hplace).imp_right fun ⟨j, admission, hj, hdone⟩ => ?_
    refine ⟨j, admission, ?_, hdone⟩
    rw [Dict.get?_set_of_ne]
    · exact hj
    · rintro rfl
      rw [hget] at hj
      cases hj

/-- A registered run claims a key. -/
theorem Held.claim (hh : Held cur h) (hr : r ∈ h.admissionDone.keys) (key : String) :
    Held cur (h.claim r key) :=
  { hh with
    claimed := fun k j hj => by
      simp only [Host.claim, Dict.get?_set] at hj
      split at hj
      · exact Option.some.inj hj ▸ hr
      · exact hh.claimed k j hj }

end Reservations

end Eventide
