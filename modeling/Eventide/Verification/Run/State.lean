import Eventide.Model.RunState
import Eventide.Library.Outcome

/-! # What the state of a run depends on -/

namespace Eventide

open Outcome

namespace RunState

variable {st st' : RunState} {e : Event} {payload : Json}

@[simp] theorem field_set (key j : String) (value : Json) :
    (st.set key value).field j = if j = key then value else st.field j := by
  by_cases h : j = key <;> simp [field, set, h]

@[simp] theorem terminal_set (key : String) (value : Json) :
    (st.set key value).terminal = st.terminal := rfl

@[simp] theorem terminal_withStatus (status : String) :
    (st.withStatus status).terminal = st.terminal := by
  unfold withStatus
  split <;> simp

theorem field_withStatus_of_ne {j : String} (h : j ≠ "status") (status : String) :
    (st.withStatus status).field j = st.field j := by
  unfold withStatus
  split <;> simp [h]

@[simp] theorem terminal_withParent : (st.withParent payload).terminal = st.terminal := by
  unfold withParent
  split <;> rfl

/-- The parent fields are none of those the fold starts with. -/
theorem field_withParent {j : String} (h : j ∉ ["parent_run_id", "worker_role", "snapshot_id"]) :
    (st.withParent payload).field j = st.field j := by
  unfold withParent
  split
  · refine congrArg (Option.getD · Json.null) (Dict.get?_update_of_not_mem ?_)
    simp only [List.mem_map, List.mem_filterMap, Option.map_eq_some_iff, not_exists, not_and]
    rintro ⟨key, value⟩ ⟨k, hk, w, -, hp⟩ rfl
    obtain ⟨rfl, -⟩ := Prod.mk.inj hp
    exact h hk
  · rfl

theorem addUsage_eq (h : st.addUsage payload = .ok st') :
    st' = st ∨ ∃ usage, st' = st.set "usage" usage := by
  unfold addUsage at h
  split at h
  · exact Or.inl (Except.ok.inj h).symm
  · obtain ⟨usage, -, h⟩ := bind_eq_ok.mp h
    exact Or.inr ⟨usage, (Except.ok.inj h).symm⟩
  · cases h

theorem setTool_eq {status : String} (h : st.setTool payload status = .ok st') :
    ∃ tools, st' = st.set "tools" tools := by
  unfold setTool at h
  obtain ⟨_, -, h⟩ := bind_eq_ok.mp h
  obtain ⟨tools, -, h⟩ := bind_eq_ok.mp h
  exact ⟨tools, (Except.ok.inj h).symm⟩

/-- The status and whether the run is terminal, without the rest of the state. -/
def statusStep (s : String × Bool) (e : Event) : String × Bool :=
  if e.isPartial ∨ s.2 then s
  else
    match e.type with
    | .runAdmitted => ("queued", false)
    | .runStarted => ("running", false)
    | .approvalRequired => ("waiting_for_user", false)
    | .approvalResolved => ("running", false)
    | .runCompleted | .runFailed | .runInterrupted => (e.type.terminalStatus, true)
    | _ => s

/-- The status of a list of events. -/
def statusOf (events : List Event) : String × Bool := events.foldl statusStep ("running", false)

/-- The state carries the status and flag `s`. -/
def HasStatus (st : RunState) (s : String × Bool) : Prop :=
  st.field "status" = .str s.1 ∧ st.terminal = s.2

theorem HasStatus.withStatus {s : String × Bool} (h : st.HasStatus s) (status : String) :
    (st.withStatus status).HasStatus (if s.2 then s else (status, false)) := by
  unfold RunState.withStatus
  obtain ⟨hf, ht⟩ := h
  cases hs : s.2 with
  | true => simpa [ht, hs] using ⟨hf, ht⟩
  | false => simp [HasStatus, ht, hs]

theorem HasStatus.congr {s : String × Bool} (h : st.HasStatus s)
    (hf : st'.field "status" = st.field "status") (ht : st'.terminal = st.terminal) :
    st'.HasStatus s := ⟨hf.trans h.1, ht.trans h.2⟩

/-- A state holds just the status that the events up to it decide. -/
theorem step_hasStatus {s : String × Bool} (h : st.HasStatus s) (he : st.step e = .ok st') :
    st'.HasStatus (statusStep s e) := by
  unfold step at he
  unfold statusStep
  by_cases hp : e.isPartial
  · rw [if_pos hp] at he
    rw [if_pos (Or.inl hp)]
    exact Except.ok.inj he ▸ h
  · rw [if_neg hp] at he
    have hsame (hq : st'.HasStatus s) :
        st'.HasStatus (if e.isPartial = true ∨ s.2 = true then s else s) := by simpa using hq
    have hset (status : String) (hq : st'.HasStatus (if s.2 then s else (status, false))) :
        st'.HasStatus (if e.isPartial = true ∨ s.2 = true then s else (status, false)) := by
      simpa [hp] using hq
    have husage {t : RunState} (hq : t.HasStatus s) (hu : t.addUsage e.payload = .ok st') :
        st'.HasStatus s := by
      rcases addUsage_eq hu with rfl | ⟨usage, rfl⟩
      · exact hq
      · exact hq.congr (by simp) rfl
    have htool {t : RunState} {status : String} (hq : t.HasStatus s)
        (hu : t.setTool e.payload status = .ok st') : st'.HasStatus s := by
      obtain ⟨tools, rfl⟩ := setTool_eq hu
      exact hq.congr (by simp) rfl
    cases hk : e.type <;> simp only [hk] at he ⊢
    case runAdmitted =>
      obtain rfl := Except.ok.inj he
      exact hset _ (.withStatus (h.congr (field_withParent (by simp)) (by simp)) _)
    case runStarted =>
      obtain rfl := Except.ok.inj he
      exact hset _ (.withStatus (h.congr (field_withParent (by simp)) (by simp)) _)
    case modelResponse =>
      refine hsame (husage ?_ he)
      exact h.congr (by simp) rfl
    case contextCompacted => exact hsame (husage h he)
    case contextSummaryGenerated => exact hsame (husage h he)
    case workerCompleted => exact hsame (husage h he)
    case workspaceCheckpoint => exact hsame (Except.ok.inj he ▸ h.congr (by simp) rfl)
    case toolPrepared =>
      obtain ⟨calls, -, he⟩ := bind_eq_ok.mp he
      refine hsame (htool ?_ he)
      exact h.congr (by simp) rfl
    case toolCompleted => exact hsame (htool h he)
    case toolAbandoned => exact hsame (htool h he)
    case approvalRequired =>
      obtain ⟨approvalId, -, he⟩ := bind_eq_ok.mp he
      obtain ⟨pending, -, he⟩ := bind_eq_ok.mp he
      obtain rfl := Except.ok.inj he
      have hq : (st.set "pending_approvals" pending).HasStatus s := h.congr (by simp) rfl
      exact hset _ (hq.withStatus _)
    case approvalResolved =>
      obtain ⟨approvalId, -, he⟩ := bind_eq_ok.mp he
      obtain ⟨pending, -, he⟩ := bind_eq_ok.mp he
      obtain rfl := Except.ok.inj he
      have hq : (st.set "pending_approvals" pending).HasStatus s := h.congr (by simp) rfl
      exact hset _ (hq.withStatus _)
    case runCompleted | runFailed | runInterrupted =>
      obtain ⟨hf, ht⟩ := h
      rw [← Except.ok.inj he]
      unfold settle
      cases hs : s.2 with
      | true => simpa [ht, hs, hp] using ⟨hf, ht⟩
      | false => simp [HasStatus, ht, hs, hp, field, hk]
    all_goals exact hsame (Except.ok.inj he ▸ h)

theorem initial_hasStatus : initial.HasStatus ("running", false) := ⟨rfl, rfl⟩

theorem foldlM_hasStatus {s : String × Bool} {events : List Event} (h : st.HasStatus s)
    (he : events.foldlM step st = .ok st') : st'.HasStatus (events.foldl statusStep s) := by
  induction events generalizing st s with
  | nil => exact Except.ok.inj he ▸ h
  | cons e events ih =>
    rw [List.foldlM_cons] at he
    obtain ⟨t, ht, he⟩ := bind_eq_ok.mp he
    exact ih (step_hasStatus h ht) he

/-- The status of a projection depends on the types of the events alone. -/
theorem project_status {events : List Event} {state : Dict String Json}
    (h : project events = .ok state) : state.get? "status" = some (.str (statusOf events).1) := by
  obtain ⟨st, hst, h⟩ := bind_eq_ok.mp h
  have hs := (foldlM_hasStatus initial_hasStatus hst).1
  rw [← Except.ok.inj h]
  unfold field at hs
  cases hg : st.fields.get? "status" with
  | none => simp [hg] at hs
  | some value => simpa [hg, statusOf] using hs

/-! ## Which facts the fold accepts -/

/-- The fields that Host gives the payload of each fact. -/
structure WellShaped (kind : EventType) (payload : Json) : Prop where
  call : kind ∈ [.toolPrepared, .toolCompleted, .toolAbandoned] →
    ∃ callId, payload.get? "call_id" = some (.str callId)
  approval : kind ∈ [.approvalRequired, .approvalResolved] →
    ∃ approvalId, payload.get? "approval_id" = some (.str approvalId)
  usage : kind ∈ [.modelResponse, .contextCompacted, .contextSummaryGenerated, .workerCompleted] →
    ∀ usage, payload.get? "usage" = some usage →
      usage.isObj ∧ ∀ p ∈ usage.items, p.2.number?.isSome

/-- The fields a fold that has met no terminal event can still write to. -/
structure Open (st : RunState) : Prop where
  terminal : st.terminal = false
  calls : (st.field "tool_calls").int?.isSome
  usage : ∃ fields, st.field "usage" = .obj fields ∧
    ∀ key value, fields.lookup key = some value → value.number?.isSome
  tools : ∃ fields, st.field "tools" = .obj fields
  pending : ∃ fields, st.field "pending_approvals" = .obj fields

theorem Open.initial : Open initial :=
  ⟨rfl, rfl, ⟨[], rfl, by simp⟩, ⟨[], rfl⟩, ⟨[], rfl⟩⟩

end RunState

theorem Json.add_number {a b : Json} (ha : a.number?.isSome) (hb : b.number?.isSome) :
    ∃ c, Json.add a b = .ok c ∧ c.number?.isSome := by
  obtain ⟨p, hp⟩ := Option.isSome_iff_exists.mp ha
  obtain ⟨q, hq⟩ := Option.isSome_iff_exists.mp hb
  unfold Json.add
  cases hm : a.int? with
  | none => exact ⟨.float (p + q), by simp [hp, hq], rfl⟩
  | some m =>
    cases hn : b.int? with
    | none => exact ⟨.float (p + q), by simp [hp, hq], rfl⟩
    | some n => exact ⟨.int (m + n), rfl, rfl⟩

theorem Json.add_int {a b : Json} (ha : a.int?.isSome) (hb : b.int?.isSome) :
    ∃ n, Json.add a b = .ok (.int n) := by
  obtain ⟨m, hm⟩ := Option.isSome_iff_exists.mp ha
  obtain ⟨n, hn⟩ := Option.isSome_iff_exists.mp hb
  exact ⟨m + n, by simp [Json.add, hm, hn]⟩

namespace RunState

variable {st st' : RunState} {e : Event} {payload : Json}

/-- Writing a field of the right kind keeps a state open. -/
theorem Open.congr (h : Open st) (ht : st'.terminal = st.terminal)
    (hf : ∀ key ∈ ["tool_calls", "usage", "tools", "pending_approvals"],
      st'.field key = st.field key) : Open st' :=
  ⟨ht.trans h.terminal, hf "tool_calls" (by simp) ▸ h.calls, hf "usage" (by simp) ▸ h.usage,
    hf "tools" (by simp) ▸ h.tools, hf "pending_approvals" (by simp) ▸ h.pending⟩

theorem Open.withStatus (h : Open st) (status : String) : Open (st.withStatus status) := by
  refine h.congr (by simp) fun key hk => field_withStatus_of_ne ?_ status
  rintro rfl
  simp at hk

theorem Open.withParent (h : Open st) (payload : Json) : Open (st.withParent payload) := by
  refine h.congr (by simp) fun key hk => field_withParent fun hm => ?_
  simp only [List.mem_cons, List.not_mem_nil, or_false] at hk hm
  rcases hm with rfl | rfl | rfl <;> simp at hk

theorem Open.set_other (h : Open st) {key : String} {value : Json}
    (hk : key ∉ ["tool_calls", "usage", "tools", "pending_approvals"]) :
    Open (st.set key value) := by
  refine h.congr rfl fun j hj => ?_
  rw [field_set, if_neg]
  rintro rfl
  exact hk hj

/-- A usage table of numbers takes further numbers. -/
theorem addItems_ok {items : List (String × Json)} (hi : ∀ p ∈ items, p.2.number?.isSome)
    {fields : List (String × Json)}
    (hf : ∀ key value, fields.lookup key = some value → value.number?.isSome) :
    ∃ fields', items.foldlM
        (fun usage p => do
          let total ← Json.add ((usage.get? p.1).getD (.int 0)) p.2
          usage.setItem (.str p.1) total) (Json.obj fields) = .ok (Json.obj fields') ∧
      ∀ key value, fields'.lookup key = some value → value.number?.isSome := by
  induction items generalizing fields with
  | nil => exact ⟨fields, rfl, hf⟩
  | cons p items ih =>
    have hold : (((Json.obj fields).get? p.1).getD (.int 0)).number?.isSome := by
      cases hg : fields.lookup p.1 with
      | none => simp [hg, Json.number?]
      | some value => simpa [hg] using hf p.1 value hg
    obtain ⟨total, ht, hn⟩ := Json.add_number hold (hi p (by simp))
    have hf' : ∀ key value, (Dict.setEntries p.1 total fields).lookup key = some value →
        value.number?.isSome := by
      intro key value hv
      rw [Dict.lookup_setEntries] at hv
      split at hv
      · exact Option.some.inj hv ▸ hn
      · exact hf key value hv
    obtain ⟨fields', he, hf''⟩ := ih (fun q hq => hi q (by simp [hq])) hf'
    refine ⟨fields', ?_, hf''⟩
    rw [List.foldlM_cons, ht]
    exact he

theorem Open.addUsage (h : Open st)
    (hu : ∀ usage, payload.get? "usage" = some usage →
      usage.isObj ∧ ∀ p ∈ usage.items, p.2.number?.isSome) :
    ∃ st', st.addUsage payload = .ok st' ∧ Open st' := by
  unfold RunState.addUsage
  cases hg : payload.get? "usage" with
  | none => exact ⟨st, rfl, h⟩
  | some usage =>
    obtain ⟨hobj, hitems⟩ := hu usage hg
    obtain ⟨fields, hf, hn⟩ := h.usage
    cases usage <;> try simp [Json.isObj] at hobj
    obtain ⟨fields', he, hn'⟩ := addItems_ok hitems hn
    refine ⟨st.set "usage" (.obj fields'), ?_, ?_⟩
    · simp only [hf, he]
      rfl
    · exact ⟨h.terminal, by simpa using h.calls, ⟨fields', by simp, hn'⟩, by simpa using h.tools,
        by simpa using h.pending⟩

theorem Open.setTool (h : Open st) {callId : String}
    (hc : payload.get? "call_id" = some (.str callId)) (status : String) :
    ∃ st', st.setTool payload status = .ok st' ∧ Open st' := by
  obtain ⟨fields, hf⟩ := h.tools
  refine ⟨st.set "tools" ((Json.obj fields).withField callId
    (payload.merge (Json.obj [("status", .str status)]))), ?_, ?_⟩
  · simp [RunState.setTool, Json.require, hc, hf, Json.setItem]
  · refine ⟨h.terminal, by simpa using h.calls, by simpa using h.usage, ?_,
      by simpa using h.pending⟩
    rw [field_set, if_pos rfl]
    exact ⟨_, rfl⟩

theorem Open.setPending (h : Open st) (fields : List (String × Json)) :
    Open (st.set "pending_approvals" (.obj fields)) :=
  ⟨h.terminal, by simpa using h.calls, by simpa using h.usage, by simpa using h.tools,
    ⟨fields, by simp⟩⟩

theorem Open.setCalls (h : Open st) (n : ℤ) : Open (st.set "tool_calls" (.int n)) :=
  ⟨h.terminal, by simp [Json.int?], by simpa using h.usage, by simpa using h.tools,
    by simpa using h.pending⟩

/-- An open state takes every well-shaped fact, and only a terminal one closes it. -/
theorem Open.step (h : Open st) (hw : WellShaped e.type e.payload) :
    ∃ st', st.step e = .ok st' ∧ ((e.isPartial = false → e.type.isTerminal = false) → Open st') := by
  unfold RunState.step
  by_cases hp : e.isPartial
  · exact ⟨st, if_pos hp, fun _ => h⟩
  · rw [if_neg hp]
    obtain ⟨pending, hpend⟩ := h.pending
    cases hk : e.type <;> simp only [hk] at hw ⊢
    case runAdmitted => exact ⟨_, rfl, fun _ => (h.withParent _).withStatus _⟩
    case runStarted => exact ⟨_, rfl, fun _ => (h.withParent _).withStatus _⟩
    case modelResponse =>
      have ho : Open (st.set "steps" ((e.payload.get? "step").getD (st.field "steps"))) :=
        h.set_other (by simp)
      obtain ⟨st', he, ho⟩ := ho.addUsage (hw.usage (by simp))
      exact ⟨st', he, fun _ => ho⟩
    case contextCompacted | contextSummaryGenerated | workerCompleted =>
      obtain ⟨st', he, ho⟩ := h.addUsage (hw.usage (by simp))
      exact ⟨st', he, fun _ => ho⟩
    case workspaceCheckpoint => exact ⟨_, rfl, fun _ => h.set_other (by simp)⟩
    case toolPrepared =>
      obtain ⟨callId, hc⟩ := hw.call (by simp)
      obtain ⟨n, hn⟩ := Json.add_int (b := .int 1) h.calls rfl
      obtain ⟨st', he, ho⟩ := (h.setCalls n).setTool hc "prepared"
      exact ⟨st', by rw [hn]; exact he, fun _ => ho⟩
    case toolCompleted | toolAbandoned =>
      obtain ⟨callId, hc⟩ := hw.call (by simp)
      obtain ⟨st', he, ho⟩ := h.setTool hc _
      exact ⟨st', he, fun _ => ho⟩
    case approvalRequired =>
      obtain ⟨approvalId, ha⟩ := hw.approval (by simp)
      have ho := h.setPending (Dict.setEntries approvalId e.payload pending)
      refine ⟨_, ?_, fun _ => ho.withStatus "waiting_for_user"⟩
      simp [Json.require, ha, hpend, Json.setItem, Json.withField]
    case approvalResolved =>
      obtain ⟨approvalId, ha⟩ := hw.approval (by simp)
      have ho := h.setPending (pending.filter (·.1 ≠ approvalId))
      refine ⟨_, ?_, fun _ => ho.withStatus "running"⟩
      simp [Json.require, ha, hpend, Json.popItem, Json.withoutField]
    case runCompleted | runFailed | runInterrupted =>
      exact ⟨_, rfl, fun ht => absurd (ht (by simpa using hp)) (by simp [EventType.isTerminal])⟩
    all_goals exact ⟨st, rfl, fun _ => h⟩

end RunState

end Eventide
