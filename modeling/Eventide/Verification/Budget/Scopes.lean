import Eventide.Verification.Budget.Replay

/-! # The scopes of an attempt -/

namespace Eventide

open Outcome RuntimeStore

/-! ## Root runs -/

/-- The event admits or starts a run as the child of another. -/
structure Event.NamesParent (e : Event) (run parent : String) : Prop where
  run_eq : givenRun e.runId = some run
  kind : e.type = .runAdmitted ∨ e.type = .runStarted
  parent_eq : e.payload.getNull "parent_run_id" = .str parent
  named : parent ≠ ""

/-- The run at the end of the chain of parents that a log names. -/
inductive RootRun (events : List Event) : String → String → Prop
  | top {run : String} : (∀ e ∈ events, ∀ parent, ¬ e.NamesParent run parent) →
      RootRun events run run
  | up {run parent root : String} {e : Event} : e ∈ events → e.NamesParent run parent →
      RootRun events parent root → RootRun events run root

theorem parentsStep_spec {parents later : Dict String String} {e : Event}
    (h : parentsStep parents e = .ok later) (run parent : String) :
    later.get? run = some parent ↔ parents.get? run = some parent ∨ e.NamesParent run parent := by
  unfold parentsStep at h
  split at h
  · rename_i hr
    obtain rfl := Except.ok.inj h
    refine ⟨Or.inl, fun h => h.resolve_right fun hn => ?_⟩
    rw [hn.run_eq] at hr
    cases hr
  · rename_i r hr
    dsimp only at h
    split at h
    · rename_i hk
      split at h
      · rename_i p hp
        simp only [bind_eq_ok, raiseIf_eq_ok, pure_eq_ok, Except.ok.injEq] at h
        obtain ⟨_, hold, rfl⟩ := h
        have hne : p ≠ "" := by simpa [hp, Json.truthy] using hk.2
        have hnames : e.NamesParent r p := ⟨hr, hk.1, hp, hne⟩
        by_cases hrun : run = r
        · subst hrun
          simp only [Dict.get?_set, if_true, Option.some.injEq]
          constructor
          · rintro rfl
            exact Or.inr hnames
          · rintro (hq | hq)
            · rw [hq] at hold
              simp only [Option.any_some, decide_eq_true_eq, not_not] at hold
              exact hold.symm
            · exact Json.str.inj (hp.symm.trans hq.parent_eq)
        · rw [Dict.get?_set_of_ne hrun]
          refine ⟨Or.inl, fun h => h.resolve_right fun hn => hrun ?_⟩
          exact Option.some.inj (hn.run_eq.symm.trans hr)
      · cases h
    · rename_i hk
      obtain rfl := Except.ok.inj h
      refine ⟨Or.inl, fun h => h.resolve_right fun hn => hk ⟨hn.kind, ?_⟩⟩
      simp [hn.parent_eq, Json.truthy, hn.named]

theorem parentsOf_spec {events : List Event} {parents : Dict String String}
    (h : parentsOf events = .ok parents) (run parent : String) :
    parents.get? run = some parent ↔ ∃ e ∈ events, e.NamesParent run parent := by
  unfold parentsOf at h
  induction events using List.reverseRecOn generalizing parents with
  | nil =>
    obtain rfl : Dict.empty = parents := by simpa using h
    simp
  | append_singleton events e ih =>
    simp only [List.foldlM_append, List.foldlM_cons, List.foldlM_nil, bind_eq_ok, pure_eq_ok,
      Except.ok.injEq] at h
    obtain ⟨mid, hm, later, hl, rfl⟩ := h
    rw [parentsStep_spec hl, ih hm]
    simp [or_and_right, exists_or]

/-- The walk up the parents ends at the root. -/
theorem ancestorOf_root {s : RuntimeStore} {events : List Event} {parents : Dict String String}
    (hp : parentsOf events = .ok parents) {fuel : ℕ} {visited : List String} {run root : String}
    (h : ancestorOf s parents fuel visited run = .ok root) : RootRun events run root := by
  induction fuel generalizing visited run with
  | zero => cases h
  | succ fuel ih =>
    rw [ancestorOf] at h
    cases hr : parents.get? run with
    | none =>
      rw [hr] at h
      obtain rfl := Except.ok.inj h
      refine .top fun e he parent hn => ?_
      rw [(parentsOf_spec hp run parent).mpr ⟨e, he, hn⟩] at hr
      cases hr
    | some parent =>
      rw [hr] at h
      obtain ⟨_, -, h⟩ := bind_eq_ok.mp h
      obtain ⟨_, -, h⟩ := bind_eq_ok.mp h
      obtain ⟨e, he, hn⟩ := (parentsOf_spec hp run parent).mp hr
      exact .up he hn (ih h)

theorem validateContext_root {s : RuntimeStore} {sessionId runId : String}
    {context : ContextRecord} {events : List Event} {st : BudgetState}
    (h : validateContext s sessionId runId context events st = .ok ()) :
    RootRun events runId context.rootRunId := by
  simp only [validateContext, bind_eq_ok, raiseIf_eq_ok, not_not] at h
  obtain ⟨_, -, _, -, parents, hp, root, hr, _, he, -⟩ := h
  exact he ▸ ancestorOf_root hp hr

/-- Only admissions and starts matter for the root. -/
theorem RootRun.of_mem {events log : List Event} {run root : String}
    (hm : ∀ e, e.type = .runAdmitted ∨ e.type = .runStarted → (e ∈ events ↔ e ∈ log))
    (h : RootRun events run root) : RootRun log run root := by
  induction h with
  | top hn => exact .top fun e he parent hp => hn e ((hm e hp.kind).mpr he) parent hp
  | up he hn _ ih => exact .up ((hm _ hn.kind).mp he) hn ih

/-! ## Scopes -/

theorem scopeRecord_eq_ok {kind : ScopeKind} {identity : String} {scope : ScopeRecord}
    (h : scopeRecord kind identity = .ok scope) :
    scope = { kind := kind.text, identity := identity } := by
  simp only [scopeRecord, bind_eq_ok, pure_eq_ok, Except.ok.injEq] at h
  obtain ⟨_, _, _, _, rfl⟩ := h
  rfl

theorem optionalScope_mem {kind : ScopeKind} {o : Option String} {scopes : List ScopeRecord}
    (h : optionalScope kind o = .ok scopes) {identity : String} (ho : o = some identity) :
    { kind := kind.text, identity := identity } ∈ scopes := by
  subst ho
  obtain ⟨scope, hs, rfl⟩ := map_eq_ok.mp h
  simp [scopeRecord_eq_ok hs]

/-- The scopes that an attempt is counted in. -/
structure Reservation.Scoped (r : Reservation) : Prop where
  run : { kind := "run", identity := r.runId } ∈ r.scopes
  root : { kind := "run", identity := r.context.rootRunId } ∈ r.scopes
  delivery : ∀ id, r.context.deliveryId = some id →
    { kind := "delivery", identity := id } ∈ r.scopes
  project : ∀ id, r.context.projectId = some id →
    { kind := "project", identity := id } ∈ r.scopes
  day : ∃ micros, r.reservedAt = isoformat micros ∧
    { kind := "day", identity := utcDay micros } ∈ r.scopes

theorem ReserveArgs.payload_scoped {args : ReserveArgs} {now : Instant} {r : Reservation}
    (h : args.payload now = .ok r) : r.Scoped := by
  simp only [ReserveArgs.payload, bind_eq_ok, pure_eq_ok, Except.ok.injEq] at h
  obtain ⟨micros, _, request, _, scopes, hs, rfl⟩ := h
  simp only [ContextRecord.scopes, bind_eq_ok, pure_eq_ok, Except.ok.injEq] at hs
  obtain ⟨root, hroot, own, hown, delivery, hdel, project, hproj, day, hday, rfl⟩ := hs
  obtain rfl := scopeRecord_eq_ok hroot
  obtain rfl := scopeRecord_eq_ok hday
  constructor
  · by_cases hr : request.runId = request.context.rootRunId
    · simp [hr, ScopeKind.text]
    · have hm := optionalScope_mem hown (if_pos hr)
      simp only [ScopeKind.text] at hm
      simp [hm]
  · simp [ScopeKind.text]
  · intro id hid
    have hm := optionalScope_mem hdel hid
    simp only [ScopeKind.text] at hm
    simp [hm]
  · intro id hid
    have hm := optionalScope_mem hproj hid
    simp only [ScopeKind.text] at hm
    simp [hm]
  · exact ⟨micros, rfl, by simp [ScopeKind.text]⟩

/-- The facts that a log keeps: what streams past is not among them. -/
def RuntimeStore.wholeEvents (events : List Event) : List Event := events.filter (!·.isPartial)

/-- A reservation is filed under its own attempt, and under the root that its run had when it
was made. -/
structure Reservation.Placed (s : RuntimeStore) (id : String) (r : Reservation) : Prop where
  attempt : r.attemptId = id
  counted : r.Scoped
  rooted : ∃ log, log <+: s.events ∧ RootRun (wholeEvents log) r.runId r.context.rootRunId

theorem Reservation.Placed.mono {s t : RuntimeStore} {id : String} {r : Reservation}
    (h : r.Placed s id) (hl : s.events <+: t.events) : r.Placed t id := by
  obtain ⟨log, hp, hr⟩ := h.rooted
  exact ⟨h.attempt, h.counted, log, hp.trans hl, hr⟩

/-- Every reservation that a state holds is in its place. -/
def BudgetState.Placed (s : RuntimeStore) (st : BudgetState) : Prop :=
  ∀ id item, st.reservations.get? id = some item → item.reservation.Placed s id

theorem BudgetState.Placed.mono {s t : RuntimeStore} {st : BudgetState} (h : st.Placed s)
    (hl : s.events <+: t.events) : st.Placed t :=
  fun id item hi => (h id item hi).mono hl

theorem BudgetState.Placed.set {s : RuntimeStore} {st : BudgetState} {id : String}
    {item : BudgetItem} (h : st.Placed s) (hi : item.reservation.Placed s id) :
    BudgetState.Placed s { st with reservations := st.reservations.set id item } := by
  intro j found hj
  simp only [Dict.get?_set] at hj
  split at hj
  · rename_i hid
    subst hid
    exact Option.some.inj hj ▸ hi
  · exact h j found hj

namespace LedgerCall

variable {s : RuntimeStore} {now : Instant} {call : LedgerCall} {reply : LedgerReply}
  {st held : BudgetState} {additions : List (EventType × Json)}
  {choose : List Event → Except PyError ((LedgerReply × BudgetState) × List (EventType × Json))}

/-- A call moves no reservation, and places the one that it makes. -/
theorem placed_held (hst : budgetProjection (s.factsByType call.types) = .ok st)
    (hplaced : st.Placed s) (hp : call.prepare s now = .ok choose)
    (h : choose (s.factsByType call.types) = .ok ((reply, held), additions)) : held.Placed s := by
  cases call with
  | configure args =>
    obtain ⟨p, -, hp⟩ := bind_eq_ok.mp hp
    obtain rfl := Except.ok.inj hp
    obtain ⟨d, hd, -, rfl, -⟩ := Decision.map_pack h
    rcases decideConfigure_cases hst hd with ⟨-, rfl⟩ | ⟨-, rfl⟩ <;> exact hplaced
  | reserve args =>
    obtain ⟨r, hpay, hp⟩ := bind_eq_ok.mp hp
    obtain rfl := Except.ok.inj hp
    obtain ⟨d, hd, -, rfl, -⟩ := Decision.map_pack h
    rcases decideReserve_cases hst hd with ⟨_, -, -, -, -, rfl⟩ | ⟨-, hv, -, rfl⟩
    · exact hplaced
    · refine hplaced.set ⟨rfl, ReserveArgs.payload_scoped hpay, s.events, List.prefix_rfl, ?_⟩
      refine (validateContext_root hv).of_mem fun e he => ?_
      rcases he with he | he <;> simp [RuntimeStore.factsByType, wholeEvents, types, he, and_comm]
  | settle args =>
    obtain ⟨observed, -, hp⟩ := bind_eq_ok.mp hp
    obtain rfl := Except.ok.inj hp
    obtain ⟨d, hd, -, rfl, -⟩ := Decision.map_pack h
    obtain ⟨item, p, hi, -, hd⟩ := decideSettle_cases hst hd
    rcases hd with ⟨-, rfl⟩ | ⟨-, -, -, rfl⟩
    · exact hplaced
    · have hold := hplaced _ _ hi
      exact hplaced.set hold
  | resolveUnknown args =>
    obtain ⟨p, -, hp⟩ := bind_eq_ok.mp hp
    obtain rfl := Except.ok.inj hp
    obtain ⟨d, hd, -, rfl, -⟩ := Decision.map_pack h
    obtain ⟨item, hi, -, hd⟩ := decideResolve_cases hst hd
    rcases hd with ⟨-, rfl⟩ | ⟨-, -, rfl⟩
    · exact hplaced
    · have hold := hplaced _ _ hi
      exact hplaced.set hold

end LedgerCall

end Eventide
