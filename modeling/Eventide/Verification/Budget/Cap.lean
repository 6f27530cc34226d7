import Eventide.Verification.Budget.Scopes

/-! # Committed amounts stay under their limits -/

namespace Eventide

open Outcome RuntimeStore

/-! ## What an attempt counts for -/

/-- The tokens that an attempt adds to each of its scopes. -/
def BudgetItem.share (item : BudgetItem) : ℕ := item.amount.actual.getD 0 + item.amount.held

/-- The amount of a scope that is settled or held. -/
def BudgetState.committed (st : BudgetState) (scope : ScopeRecord) : ℕ :=
  (st.bucket scope).committedTokens

/-- What an attempt adds to one scope. -/
def BudgetItem.weight (scope : ScopeRecord) (item : BudgetItem) : ℕ :=
  if item.inScope scope then item.share else 0

theorem BudgetState.committed_eq (st : BudgetState) (scope : ScopeRecord) :
    st.committed scope = (st.reservations.values.map (BudgetItem.weight scope)).sum := by
  simp only [committed, bucket, List.map_map]
  induction st.reservations.values with
  | nil => rfl
  | cons item items ih =>
    by_cases h : item.inScope scope = true
    · rw [List.filter_cons_of_pos h]
      simp only [List.map_cons, List.sum_cons, Function.comp_apply, BudgetItem.weight, h, if_true,
        BudgetItem.share] at ih ⊢
      omega
    · rw [List.filter_cons_of_neg h]
      simpa [BudgetItem.weight, h] using ih

/-- An attempt with unknown usage counts for at least its whole reservation. -/
theorem BudgetItem.reserved_le_share {item : BudgetItem} (h : item.amount.actual = none) :
    item.reservation.reservedTokens ≤ item.share := by
  have hheld : item.reservation.reservedTokens ≤ item.amount.held := by
    unfold amount at h ⊢
    split at h
    · cases h
    · split at h
      · cases h
      · simp only [*]
        exact le_max_left _ _
  exact le_add_left hheld

theorem BudgetItem.share_resolved {item : BudgetItem} {p : Resolution}
    (h : item.resolution = some p) : item.share = p.actualTokens := by
  simp [share, amount, h]

theorem BudgetItem.share_new (r : Reservation) :
    BudgetItem.share { reservation := r } = r.reservedTokens := by
  simp [share, amount]

/-- A settlement within its reservation counts for at most the reservation. -/
theorem BudgetItem.share_settled_le {item : BudgetItem} {p : Settlement}
    (hn : item.resolution = none) (hs : item.settlement = some p)
    (ha : ∀ actual, p.actualTokens = some actual → actual ≤ item.reservation.reservedTokens)
    (ho : p.actualTokens = none → p.observed ≤ item.reservation.reservedTokens) :
    item.share ≤ item.reservation.reservedTokens := by
  cases hp : p.actualTokens with
  | some actual => simpa [share, amount, hn, hs, hp] using ha actual hp
  | none => simpa [share, amount, hn, hs, hp] using ho hp

theorem BudgetItem.amount_unsettled {item : BudgetItem} (hn : item.resolution = none)
    (hs : ∀ prior, item.settlement = some prior → prior.actualTokens = none) :
    item.amount.actual = none := by
  cases h : item.settlement with
  | none => simp [amount, hn, h]
  | some prior => simp [amount, hn, h, hs prior h]

/-! ## One step -/

/-- Every limited scope has committed at most its limit. -/
def BudgetState.Capped (st : BudgetState) : Prop :=
  ∀ scope limit, st.limits.get? scope = some (some limit) → st.committed scope ≤ limit

/-- Settlements, partial reports and resolutions stay within the reservation of their attempt,
and no limit is set below what its scope has committed. -/
def LedgerCall.Moderate (st : BudgetState) : LedgerCall → Prop
  | configure args => ∀ p limit, args.payload = .ok p → p.tokenLimit = some limit →
      st.requests.get? p.requestId = none → st.committed p.scope ≤ limit
  | reserve _ => True
  | settle args => ∀ observed item p, args.observed = .ok observed →
      st.reservations.get? args.attemptId = some item →
      args.payload observed item.reservation.basis = .ok p →
      (∀ actual, p.actualTokens = some actual → actual ≤ item.reservation.reservedTokens) ∧
      (p.actualTokens = none → p.observed ≤ item.reservation.reservedTokens)
  | resolveUnknown args => ∀ item p, args.payload = .ok p →
      st.reservations.get? args.attemptId = some item →
      p.actualTokens ≤ item.reservation.reservedTokens

namespace BudgetState

variable {st : BudgetState} {id : String} {item : BudgetItem}

/-- The committed amount, one attempt taken out. -/
theorem committed_split (h : st.reservations.get? id = some item) (scope : ScopeRecord) :
    st.committed scope = item.weight scope +
      committed { st with reservations := st.reservations.erase id } scope := by
  rw [committed_eq, Dict.sum_erase h, committed_eq]

theorem committed_set (item' : BudgetItem) (scope : ScopeRecord) :
    committed { st with reservations := st.reservations.set id item' } scope =
      item'.weight scope + committed { st with reservations := st.reservations.erase id } scope := by
  rw [committed_eq, Dict.sum_set, committed_eq]

theorem weight_le {item' : BudgetItem} (hr : item'.reservation = item.reservation) (hs : item'.share ≤ item.share)
    (scope : ScopeRecord) : item'.weight scope ≤ item.weight scope := by
  by_cases hm : scope ∈ item.reservation.scopes
  · simpa [BudgetItem.weight, BudgetItem.inScope, hr, hm] using hs
  · simp [BudgetItem.weight, BudgetItem.inScope, hr, hm]

/-- An attempt that comes to count for less leaves every limit kept. -/
theorem Capped.lower (hc : st.Capped) (item' : BudgetItem)
    (h : st.reservations.get? id = some item) (hr : item'.reservation = item.reservation) (hs : item'.share ≤ item.share) :
    Capped { st with reservations := st.reservations.set id item' } := by
  intro scope limit hl
  have hcap := hc scope limit hl
  rw [committed_split h] at hcap
  rw [committed_set]
  exact le_trans (Nat.add_le_add_right (weight_le hr hs scope) _) hcap

theorem Capped.congr {st later : BudgetState} (h : st.Capped) (hl : later.limits = st.limits)
    (hr : later.reservations = st.reservations) : later.Capped := by
  intro scope limit hs
  rw [committed_eq, hr, ← committed_eq]
  exact h scope limit (hl ▸ hs)

/-- A scope that no reservation would break has room for the new attempt. -/
theorem room_of_violations {r : Reservation} (h : st.violations r = []) {scope : ScopeRecord}
    (hm : scope ∈ r.scopes) {limit : ℕ} (hl : st.limits.get? scope = some (some limit)) :
    st.committed scope + r.reservedTokens ≤ limit := by
  have hb := List.filter_eq_nil_iff.mp h (st.bucket scope) (List.mem_map_of_mem hm)
  have ht : (st.bucket scope).tokenLimit = some limit := by simp [bucket, hl]
  simp only [ht, Option.any_some, decide_eq_true_eq, not_or, not_lt] at hb
  exact hb.1

theorem committed_new {r : Reservation} (hn : st.reservations.get? r.attemptId = none)
    (scope : ScopeRecord) :
    committed { st with reservations := st.reservations.set r.attemptId { reservation := r } }
        scope = st.committed scope + if scope ∈ r.scopes then r.reservedTokens else 0 := by
  have hv : (st.reservations.set r.attemptId { reservation := r }).values =
      st.reservations.values ++ [{ reservation := r }] := by
    simp [Dict.values, Dict.entries_set_of_not_mem (Dict.get?_eq_none.mp hn)]
  rw [committed_eq, committed_eq, hv]
  simp [BudgetItem.weight, BudgetItem.inScope, BudgetItem.share_new]

end BudgetState

namespace LedgerCall

variable {s : RuntimeStore} {now : Instant} {call : LedgerCall} {reply : LedgerReply}
  {st held : BudgetState} {events : List Event} {additions : List (EventType × Json)}
  {choose : List Event → Except PyError ((LedgerReply × BudgetState) × List (EventType × Json))}

/-- The state that a moderate call leaves keeps every limit. -/
theorem capped_held (hst : budgetProjection events = .ok st) (hcap : st.Capped)
    (hm : call.Moderate st) (hp : call.prepare s now = .ok choose)
    (h : choose events = .ok ((reply, held), additions)) : held.Capped := by
  cases call with
  | configure args =>
    obtain ⟨p, hpay, hp⟩ := bind_eq_ok.mp hp
    obtain rfl := Except.ok.inj hp
    obtain ⟨d, hd, -, rfl, -⟩ := Decision.map_pack h
    rcases decideConfigure_cases hst hd with ⟨-, rfl⟩ | ⟨hr, rfl⟩
    · exact hcap
    · intro scope limit hl
      change st.committed scope ≤ limit
      simp only [Dict.get?_set] at hl
      split at hl
      · rename_i hscope
        subst hscope
        exact hm p limit hpay (Option.some.inj hl) hr
      · exact hcap scope limit hl
  | reserve args =>
    obtain ⟨r, hpay, hp⟩ := bind_eq_ok.mp hp
    obtain rfl := Except.ok.inj hp
    obtain ⟨d, hd, -, rfl, -⟩ := Decision.map_pack h
    rcases decideReserve_cases hst hd with ⟨_, -, -, -, -, rfl⟩ | ⟨hn, -, hv, rfl⟩
    · exact hcap
    · intro scope limit hl
      rw [BudgetState.committed_new hn]
      split
      · exact BudgetState.room_of_violations hv ‹_› hl
      · exact hcap scope limit hl
  | settle args =>
    obtain ⟨observed, hobs, hp⟩ := bind_eq_ok.mp hp
    obtain rfl := Except.ok.inj hp
    obtain ⟨d, hd, -, rfl, -⟩ := Decision.map_pack h
    obtain ⟨item, p, hi, hf, hd⟩ := decideSettle_cases hst hd
    rcases hd with ⟨-, rfl⟩ | ⟨-, hn, hprior, rfl⟩
    · exact hcap
    · obtain ⟨ha, ho⟩ := hm observed item p hobs hi hf.payload_eq
      have hun := BudgetItem.amount_unsettled hn fun prior hpr => (hprior prior hpr).1
      have hle : BudgetItem.share { item with settlement := some p } ≤ item.share :=
        le_trans (BudgetItem.share_settled_le hn rfl ha ho) (BudgetItem.reserved_le_share hun)
      exact hcap.lower _ hi rfl hle
  | resolveUnknown args =>
    obtain ⟨p, hpay, hp⟩ := bind_eq_ok.mp hp
    obtain rfl := Except.ok.inj hp
    obtain ⟨d, hd, -, rfl, -⟩ := Decision.map_pack h
    obtain ⟨item, hi, -, hd⟩ := decideResolve_cases hst hd
    rcases hd with ⟨-, rfl⟩ | ⟨-, ha, rfl⟩
    · exact hcap
    · have hle : BudgetItem.share { item with resolution := some p } ≤ item.share := by
        rw [BudgetItem.share_resolved rfl]
        exact (hm item p hpay hi).trans (BudgetItem.reserved_le_share ha)
      exact hcap.lower _ hi rfl hle

end LedgerCall

/-! ## Runs -/

/-- A step of a system whose ledger calls are moderate. -/
inductive ModerateStep (s : RuntimeStore) : RuntimeStore → Prop
  | foreign {t : RuntimeStore} : Foreign s t → ModerateStep s t
  | call (context : LedgerCall.Context) (call : LedgerCall) :
      (∀ st, s.budgetState = .ok st → call.Moderate st) → ModerateStep s (call.perform s context).2

theorem ModerateStep.toStep {s t : RuntimeStore} (h : ModerateStep s t) : BudgetStep s t := by
  cases h with
  | foreign hf => exact .foreign hf
  | call context call => exact .call context call

/-- What holds of the ledger in every state of such a run. -/
structure CapInvariant (s : RuntimeStore) (st : BudgetState) : Prop where
  rebuilds : Rebuilds s st
  capped : st.Capped
  placed : st.Placed s

theorem ModerateStep.cap {s t : RuntimeStore} {st : BudgetState} (k : ModerateStep s t)
    (h : CapInvariant s st) : ∃ later, CapInvariant t later := by
  obtain ⟨later, hl, -⟩ := k.toStep.rebuilds h.rebuilds
  suffices hs : later.Capped ∧ later.Placed t from ⟨later, hl, hs.1, hs.2⟩
  cases k with
  | foreign hf =>
    have hst : t.budgetState = .ok st := by
      rw [budgetState, hf.facts]
      exact h.rebuilds.1
    obtain rfl : st = later := Except.ok.inj (hst.symm.trans hl.1)
    exact ⟨h.capped, h.placed.mono hf.log⟩
  | call context call hm =>
    generalize hp : call.perform s context = p at hl
    obtain ⟨result, t⟩ := p
    cases result with
    | error e =>
      obtain rfl := LedgerCall.perform_error hp
      obtain rfl : st = later := Except.ok.inj (h.rebuilds.1.symm.trans hl.1)
      exact ⟨h.capped, h.placed⟩
    | ok result =>
      obtain ⟨reply, held⟩ := result
      obtain ⟨rebuilt, additions, rows, hperf⟩ :=
        LedgerCall.perform_ok h.rebuilds.1 h.rebuilds.2 hp
      obtain rfl : rebuilt = later := Except.ok.inj (hperf.state.symm.trans hl.1)
      obtain ⟨choose, hprep, hc⟩ := hperf.decided
      have hheld := LedgerCall.capped_held hperf.projected h.capped (hm st h.rebuilds.1) hprep hc
      have hplaced := LedgerCall.placed_held hperf.projected h.placed hprep hc
      have hlog : s.events <+: t.events := hperf.log ▸ List.prefix_append _ _
      refine ⟨hheld.congr hperf.committed.limits_eq hperf.committed.reservations_eq, ?_⟩
      intro id item hi
      rw [hperf.committed.reservations_eq] at hi
      exact (hplaced id item hi).mono hlog

/-- The stores that moderate runs build from one without budget facts. -/
def ModeratelyReachable (t : RuntimeStore) : Prop :=
  ∃ s : RuntimeStore, s.factsByType budgetFacts = [] ∧ Relation.ReflTransGen ModerateStep s t

theorem ModeratelyReachable.cap {t : RuntimeStore} (h : ModeratelyReachable t) :
    ∃ st, CapInvariant t st := by
  obtain ⟨s, hempty, hrun⟩ := h
  induction hrun with
  | refl =>
    refine ⟨{}, ⟨?_, fun p hp => by simp [BudgetState.seen] at hp⟩, fun scope limit hl => by
      simp at hl, fun id item hi => by simp at hi⟩
    rw [budgetState, hempty]
    rfl
  | tail _ hstep ih =>
    obtain ⟨st, hst⟩ := ih
    exact hstep.cap hst

theorem ModeratelyReachable.reserve {s : RuntimeStore} (h : ModeratelyReachable s)
    (args : ReserveArgs) (context : LedgerCall.Context) :
    ModeratelyReachable ((LedgerCall.reserve args).perform s context).2 := by
  obtain ⟨origin, hempty, hrun⟩ := h
  exact ⟨origin, hempty, hrun.tail (.call context (.reserve args) fun _ _ => trivial)⟩

/-- What an attempt counts for, and where. -/
structure BudgetState.Counts (s : RuntimeStore) (st : BudgetState) (id : String)
    (item : BudgetItem) : Prop where
  once : ∀ scope, st.committed scope =
    (if scope ∈ item.reservation.scopes then item.share else 0) +
      committed { st with reservations := st.reservations.erase id } scope
  placed : item.reservation.Placed s id
  unknown : item.resolution = none →
    (∀ prior, item.settlement = some prior → prior.actualTokens = none) →
    item.reservation.reservedTokens ≤ item.share

theorem CapInvariant.counts {s : RuntimeStore} {st : BudgetState} (h : CapInvariant s st)
    {id : String} {item : BudgetItem} (hi : st.reservations.get? id = some item) :
    st.Counts s id item := by
  refine ⟨fun scope => ?_, h.placed id item hi, fun hn hs => ?_⟩
  · rw [BudgetState.committed_split hi]
    simp [BudgetItem.weight, BudgetItem.inScope]
  · exact BudgetItem.reserved_le_share (BudgetItem.amount_unsettled hn hs)

/-- Moderation can be computed. -/
instance (st : BudgetState) : (call : LedgerCall) → Decidable (call.Moderate st)
  | .configure args => decidable_of_iff
      (∀ p, args.payload = .ok p → ∀ limit ∈ p.tokenLimit,
        st.requests.get? p.requestId = none → st.committed p.scope ≤ limit)
      ⟨fun h p limit hp => h p hp limit, fun h p hp limit => h p limit hp⟩
  | .reserve _ => .isTrue trivial
  | .settle args => decidable_of_iff
      (∀ observed, args.observed = .ok observed →
        ∀ item ∈ st.reservations.get? args.attemptId,
          ∀ p, args.payload observed item.reservation.basis = .ok p →
            (∀ actual ∈ p.actualTokens, actual ≤ item.reservation.reservedTokens) ∧
            (p.actualTokens = none → p.observed ≤ item.reservation.reservedTokens))
      ⟨fun h observed item p ho hi => h observed ho item hi p,
        fun h observed ho item hi p => h observed item p ho hi⟩
  | .resolveUnknown args => decidable_of_iff
      (∀ p, args.payload = .ok p → ∀ item ∈ st.reservations.get? args.attemptId,
        p.actualTokens ≤ item.reservation.reservedTokens)
      ⟨fun h item p hp => h p hp item, fun h p hp item => h item p hp⟩

theorem settledStore_moderate : ModeratelyReachable settledStore := by
  have hlimited := Relation.ReflTransGen.single
    (ModerateStep.call (s := ledgerStore) (contextOf 'b') configureRun (by decide +kernel))
  have hreserved := hlimited.tail
    (.call (s := limitedStore) (contextOf 'c') reserveAttempt fun _ _ => trivial)
  exact ⟨ledgerStore, rfl, hreserved.tail
    (.call (s := reservedStore) (contextOf 'd') settleAttempt (by decide +kernel))⟩

end Eventide
