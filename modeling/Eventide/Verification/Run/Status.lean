import Eventide.Verification.Run.Host
import Eventide.Verification.Scheduler.Queue
import Eventide.Verification.Store.Growth

/-! # The four status views of a run -/

namespace Eventide

open Outcome RuntimeStore RunState

namespace RuntimeStore

/-! ## Records -/

theorem mem_pick {state : Dict String Json} {keys : List String} {key : String}
    (h : key ∈ (pick state keys).map Prod.fst) : key ∈ keys := by
  simp only [pick, List.mem_map, List.mem_filterMap, Option.map_eq_some_iff] at h
  obtain ⟨-, ⟨k, hk, _, -, rfl⟩, rfl⟩ := h
  exact hk

theorem get?_update_pick {record state : Dict String Json} {keys : List String} {key : String}
    (h : key ∉ keys) : (record.update (pick state keys)).get? key = record.get? key :=
  Dict.get?_update_of_not_mem fun hm => h (mem_pick hm)

theorem get?_update_pick_head {record state : Dict String Json} {keys : List String}
    {key : String} {value : Json} (hv : state.get? key = some value) (h : key ∉ keys) :
    (record.update (pick state (key :: keys))).get? key = some value := by
  have hc : pick state (key :: keys) = (key, value) :: pick state keys := by simp [pick, hv]
  rw [hc, Dict.update_cons, get?_update_pick h]
  simp

theorem runRow_id (row : Run × Option String) : (runRow row).get? "id" = some (.str row.1.id) := by
  simp [runRow, Dict.ofList]

theorem joinTurn_of_mem {s : RuntimeStore} (h : s.LogInvariant) {run : Run} (hr : run ∈ s.runs) :
    ∃ turn, s.turns.find? (·.id = run.turnId) = some turn ∧
      s.joinTurn run = some (run, turn.continuationOf) := by
  obtain ⟨t, ht, hte⟩ := h.turned run hr
  obtain ⟨turn, hturn⟩ : ∃ turn, s.turns.find? (·.id = run.turnId) = some turn :=
    Option.isSome_iff_exists.mp (List.find?_isSome.mpr ⟨t, ht, by simpa using hte⟩)
  exact ⟨turn, hturn, by simp [joinTurn, hturn]⟩

/-! ## The status in each view -/

theorem getRun_status {s : RuntimeStore} (h : HostInvariant s) {run : Run} (hr : run ∈ s.runs) :
    ∃ record, s.getRun run.id = .ok (some record) ∧
      record.get? "status" = some (.str (statusOf (s.runEvents run.id)).1) := by
  obtain ⟨_, hid⟩ := getRunIdentity_of_mem h.log hr
  obtain ⟨state, hp, hs⟩ := (h.histories run.id (h.named run hr)).project_filter fun _ => true
  rw [List.filter_true] at hp hs
  refine ⟨_, by simp only [getRun, hid, hp]; rfl, ?_⟩
  rw [Dict.get?_update_entries, hs]
  rfl

theorem getRunSummary_status {s : RuntimeStore} (h : HostInvariant s) {run : Run}
    (hr : run ∈ s.runs) : ∃ record, s.getRunSummary run.id = .ok (some record) ∧
      record.get? "status" = some (.str (statusOf (s.runEvents run.id)).1) := by
  obtain ⟨_, hid⟩ := getRunIdentity_of_mem h.log hr
  obtain ⟨state, hp, hs⟩ :=
    (h.histories run.id (h.named run hr)).project_filter (·.type ∈ summaryTypes)
  rw [statusOf_filter (by simp)] at hs
  refine ⟨_, by simp only [getRunSummary, hid, hp]; rfl, ?_⟩
  rw [Dict.update_append, get?_update_pick (by simp), Dict.update_append,
    Dict.get?_update_of_not_mem (by simp)]
  exact get?_update_pick_head hs (by simp)

theorem listRecord_status {s : RuntimeStore} (h : HostInvariant s) {row : Run × Option String}
    (hr : row.1 ∈ s.runs) : ∃ record, s.listRecord row = .ok record ∧
      record.get? "id" = some (.str row.1.id) ∧
      record.get? "status" = some (.str (listStatus (s.runEvents row.1.id)).1) := by
  obtain ⟨state, hp, hs⟩ :=
    (h.histories row.1.id (h.named row.1 hr)).project_filter (·.type ∈ listTypes)
  refine ⟨_, by simp only [listRecord, hp]; rfl, ?_, ?_⟩
  · rw [Dict.update_append, Dict.get?_update_of_not_mem (by simp), get?_update_pick (by simp)]
    exact runRow_id row
  · rw [Dict.update_append, Dict.get?_update_of_not_mem (by simp)]
    exact get?_update_pick_head hs (by simp)

theorem olderRuns_subset (s : RuntimeStore) (sid : String) (before : Option String) :
    s.olderRuns sid before ⊆ s.runs := by
  unfold olderRuns
  split
  · exact List.Subset.refl _
  · split
    · exact (List.takeWhile_sublist _).subset
    · exact List.nil_subset _

theorem mem_runPage {s : RuntimeStore} {sid : String} {limit : Option ℕ} {before : Option String}
    {row : Run × Option String} (h : row ∈ s.runPage sid limit before) : row.1 ∈ s.runs := by
  have hm := List.mem_of_mem_drop h
  simp only [List.mem_filterMap, joinTurn, Option.map_eq_some_iff] at hm
  obtain ⟨run, hrun, turn, -, rfl⟩ := hm
  exact olderRuns_subset s sid before (List.mem_of_mem_filter hrun)

/-- The page without bounds holds every run of the session. -/
theorem mem_runPage_all {s : RuntimeStore} (h : s.LogInvariant) {run : Run} (hr : run ∈ s.runs) :
    ∃ row ∈ s.runPage run.sessionId none none, row.1 = run := by
  obtain ⟨turn, -, hj⟩ := joinTurn_of_mem h hr
  refine ⟨(run, turn.continuationOf), ?_, rfl⟩
  simp only [runPage, olderRuns, Option.getD_none, Nat.sub_self, List.drop_zero,
    List.mem_filterMap]
  exact ⟨run, by simpa using hr, hj⟩

/-- Every record of a page carries the run's id and the status `list_runs` projects. -/
theorem listRuns_status {s : RuntimeStore} (h : HostInvariant s) {sid : String}
    {limit : Option ℤ} {before : Option String} {records : List (Dict String Json)}
    (hl : s.listRuns sid limit before = .ok records) {record : Dict String Json}
    (hm : record ∈ records) : ∃ run ∈ s.runs, record.get? "id" = some (.str run.id) ∧
      record.get? "status" = some (.str (listStatus (s.runEvents run.id)).1) := by
  obtain ⟨_, -, hl⟩ := bind_eq_ok.mp hl
  obtain ⟨row, hrow, hrec⟩ := mem_of_mapM hl hm
  have hr := mem_runPage hrow
  obtain ⟨record', he, hid, hs⟩ := listRecord_status h hr
  obtain rfl : record' = record := Except.ok.inj (he.symm.trans hrec)
  exact ⟨row.1, hr, hid, hs⟩

theorem listRuns_all {s : RuntimeStore} (h : HostInvariant s) {run : Run} (hr : run ∈ s.runs) :
    ∃ records, s.listRuns run.sessionId = .ok records ∧
      ∃ record ∈ records, record.get? "id" = some (.str run.id) := by
  obtain ⟨records, hm⟩ := exists_mapM_ok fun row hrow =>
    (listRecord_status h (mem_runPage hrow)).imp fun _ hx => hx.1
  have hl : s.listRuns run.sessionId = .ok records := hm
  obtain ⟨row, hrow, rfl⟩ := mem_runPage_all h.log hr
  obtain ⟨record, hrec, he⟩ := mapM_mem hm hrow
  obtain ⟨record', he', hid, -⟩ := listRecord_status h hr
  obtain rfl : record' = record := Except.ok.inj (he'.symm.trans he)
  exact ⟨records, hl, record', hrec, hid⟩

end RuntimeStore

/-! ## The status in the queue -/

theorem RunHistory.admitted_first {h : List Event} (hh : RunHistory h) :
    h.Pairwise fun _ b => b.type ≠ .runAdmitted := by
  induction hh with
  | nil => exact .nil
  | snoc _ _ hf ih =>
    refine Sequence.pairwise_concat ih fun a ha hk => ?_
    rw [hf.admitted hk] at ha
    cases ha

theorem RunHistory.whole {h : List Event} (hh : RunHistory h) :
    ∀ e ∈ h, e.type ∈ summaryTypes → e.isPartial = false := by
  induction hh with
  | nil => simp
  | snoc _ _ hf ih =>
    intro e he
    rcases List.mem_append.mp he with he | he
    · exact ih e he
    · exact List.mem_singleton.mp he ▸ hf.whole

theorem HostInvariant.admittedOnce {s : RuntimeStore} (h : HostInvariant s) :
    AdmittedOnce s.events := by
  refine List.pairwise_iff_forall_sublist.mpr fun {a b} hab ha hb hq => ?_
  simp only [Event.isAdmission, Bool.and_eq_true, decide_eq_true_eq] at ha hb
  obtain ⟨r, hr⟩ := Option.isSome_iff_exists.mp ha.1
  obtain ⟨-, hra, hne⟩ := Event.queueRun_eq_some.mp hr
  obtain ⟨-, hrb, -⟩ := Event.queueRun_eq_some.mp (hq.symm.trans hr)
  have hf : List.Sublist [a, b] (s.runEvents r) := by
    have hs := hab.filter (·.runId = some r)
    rwa [List.filter_cons_of_pos (by simpa using hra), List.filter_cons_of_pos (by simpa using hrb),
      List.filter_nil] at hs
  exact List.pairwise_iff_forall_sublist.mp (h.histories r hne).admitted_first hf hb.2

/-- `waiting_for_user` is a running run to the queue. -/
def queueReading (status : String) : String :=
  if status = "waiting_for_user" then "running" else status

/-- The run has been started or has ended. -/
def HasStarted (s : RuntimeStore) (r : String) : Prop :=
  ∃ e ∈ s.runEvents r, e.isPartial = false ∧ (e.type = .runStarted ∨ e.type.isTerminal = true)

/-- The run was admitted by a whole fact that names no parent. -/
def AdmittedRoot (s : RuntimeStore) (r : String) : Prop :=
  r ≠ "" ∧ ∃ e ∈ s.runEvents r, e.isPartial = false ∧ e.type = .runAdmitted ∧
    (e.payload.get? "parent_run_id").any Json.truthy = false

/-- `get_run`, `get_run_summary`, every page of `list_runs` and the queue give the run one
status, which is `queued` just when the run has neither started nor ended. -/
def StatusViewsAgree (s : RuntimeStore) (r : String) : Prop :=
  ∃ status : String,
    (∃ record, s.getRun r = .ok (some record) ∧ record.get? "status" = some (.str status)) ∧
    (∃ record, s.getRunSummary r = .ok (some record) ∧
      record.get? "status" = some (.str status)) ∧
    (∀ sid limit before records, s.listRuns sid limit before = .ok records →
      ∀ record ∈ records, record.get? "id" = some (.str r) →
        record.get? "status" = some (.str status)) ∧
    (∀ run ∈ s.runs, run.id = r → ∃ records, s.listRuns run.sessionId = .ok records ∧
      ∃ record ∈ records, record.get? "id" = some (.str r)) ∧
    (∃ entries, s.queueEntries = .ok entries ∧
      (∃ entry ∈ entries, entry.runId = r) ∧
      ∀ entry ∈ entries, entry.runId = r → entry.status = queueReading status) ∧
    (status = "queued" ↔ ¬ HasStarted s r)

theorem queueStatus_runEvents {s : RuntimeStore} (h : HostInvariant s) {r : String} (hr : r ≠ "") :
    (∀ e ∈ s.runEvents r, e.type.isTerminal = true → queueStatus s.events r = e.type.terminalStatus) ∧
    ((∀ e ∈ s.runEvents r, e.type.isTerminal = false) → queueStatus s.events r =
      if ∃ e ∈ s.runEvents r, e.type = .runStarted then "running" else "queued") := by
  have hh := h.histories r hr
  have hmem : ∀ e : Event, e ∈ s.runEvents r ↔ e ∈ s.events ∧ e.runId = some r := fun e => by
    simp [runEvents]
  have hends : ∀ e ∈ s.events, e.ends r = true ↔ e ∈ s.runEvents r ∧ e.type.isTerminal = true := by
    intro e he
    simp only [Event.ends, Bool.and_eq_true, decide_eq_true_eq, Event.queueRun_eq_some, hmem]
    constructor
    · rintro ⟨⟨-, hrun, -⟩, ht⟩
      exact ⟨⟨he, hrun⟩, ht⟩
    · rintro ⟨⟨-, hrun⟩, ht⟩
      refine ⟨⟨hh.whole e ((hmem e).mpr ⟨he, hrun⟩) ?_, hrun, hr⟩, ht⟩
      rcases (EventType.isTerminal_iff _).mp ht with hk | hk | hk <;> simp [hk, summaryTypes]
  unfold queueStatus
  constructor
  · intro e he ht
    cases hf : s.events.find? (·.ends r) with
    | none =>
      have hn := List.find?_eq_none.mp hf e ((hmem e).mp he).1
      exact absurd ((hends e ((hmem e).mp he).1).mpr ⟨he, ht⟩) (by simpa using hn)
    | some a =>
      have ha := (hends a (List.mem_of_find?_eq_some hf)).mp (by simpa using List.find?_some hf)
      have hs := (hh.statuses.ended a ha.1 ha.2).1.symm.trans (hh.statuses.ended e he ht).1
      exact (Prod.mk.inj hs).1
  · intro ho
    have hf : s.events.find? (·.ends r) = none := by
      rw [List.find?_eq_none]
      intro e he hc
      obtain ⟨hm, ht⟩ := (hends e he).mp hc
      simp [ho e hm] at ht
    have hex : (∃ e ∈ s.events, e.queueRun = some r ∧ e.type = .runStarted) ↔
        ∃ e ∈ s.runEvents r, e.type = .runStarted := by
      constructor
      · rintro ⟨e, he, hq, hk⟩
        exact ⟨e, (hmem e).mpr ⟨he, (Event.queueRun_eq_some.mp hq).2.1⟩, hk⟩
      · rintro ⟨e, he, hk⟩
        have hp := hh.whole e he (by simp [hk, summaryTypes])
        exact ⟨e, ((hmem e).mp he).1, Event.queueRun_eq_some.mpr ⟨hp, ((hmem e).mp he).2, hr⟩, hk⟩
    simp only [hf, hex]

theorem AdmittedRoot.queued {s : RuntimeStore} (h : HostInvariant s) {r : String}
    (hr : AdmittedRoot s r) : ∃ entries,
      s.queueEntries = .ok entries ∧ (∃ entry ∈ entries, entry.runId = r) ∧
      ∀ entry ∈ entries, entry.runId = r → entry.status = queueStatus s.events r := by
  obtain ⟨hne, e, he, hp, hk, hparent⟩ := hr
  simp only [runEvents, List.mem_filter, decide_eq_true_eq] at he
  have hq : e.queueRun = some r := Event.queueRun_eq_some.mpr ⟨hp, he.2, hne⟩
  refine ⟨_, queueEntries_eq h.admittedOnce,
    ⟨_, List.mem_map.mpr ⟨e, ?_, rfl⟩, by simp [queueEntry, hq]⟩, ?_⟩
  · simp [rootAdmissions, he.1, hk, Event.isRootAdmission, Event.isAdmission, hq, hparent]
  · intro entry hm hid
    obtain ⟨a, -, rfl⟩ := List.mem_map.mp hm
    rw [← hid]
    rfl

/-! ## Agreement -/

theorem HostInvariant.row_of_event {s : RuntimeStore} (h : HostInvariant s) {r : String}
    (hr : r ≠ "") {e : Event} (he : e ∈ s.runEvents r) : ∃ run ∈ s.runs, run.id = r := by
  simp only [runEvents, List.mem_filter, decide_eq_true_eq] at he
  obtain ⟨run, hrun, hid, -⟩ := h.log.owned e he.1 r (givenRun_eq_some.mpr ⟨he.2, hr⟩)
  exact ⟨run, hrun, hid⟩

/-- A page shows a run that has not started as running. -/
theorem StatusViewsAgree.started {s : RuntimeStore} (h : HostInvariant s) {r : String}
    (hr : AdmittedRoot s r) (ha : StatusViewsAgree s r) : HasStarted s r := by
  obtain ⟨hne, e, he, -, -, -⟩ := hr
  by_contra hn
  have hh := h.histories r hne
  have hopen : ∀ e ∈ s.runEvents r, e.type.isTerminal = false := by
    intro e he
    by_contra ht
    have ht : e.type.isTerminal = true := by simpa using ht
    refine hn ⟨e, he, hh.whole e he ?_, Or.inr ht⟩
    rcases (EventType.isTerminal_iff _).mp ht with hk | hk | hk <;> simp [hk, summaryTypes]
  have hstart : ∀ e ∈ s.runEvents r, e.type ≠ .runStarted := fun e he hk =>
    hn ⟨e, he, hh.whole e he (by simp [hk, summaryTypes]), Or.inl hk⟩
  obtain ⟨run, hrun, rfl⟩ := h.row_of_event hne he
  obtain ⟨status, -, -, hpages, hall, -, hqueued⟩ := ha
  obtain ⟨records, hl, record, hrec, hid⟩ := hall run hrun rfl
  have hs := hpages _ _ _ records hl record hrec hid
  obtain ⟨run', hrun', hid', hs'⟩ := listRuns_status h hl hrec
  have hsame : run'.id = run.id := by simpa [hid] using hid'.symm
  rw [hsame, (hh.statuses.queued hopen hstart).1] at hs'
  rw [hqueued.mpr hn, hs'] at hs
  simp at hs

/-- The four views of an admitted root agree exactly when it has been started or has ended:
`list_runs` does not select the admission, so it shows a queued run as running. -/
theorem statusViewsAgree_iff {s : RuntimeStore} (h : HostReachable s) {r : String}
    (hr : AdmittedRoot s r) : StatusViewsAgree s r ↔ HasStarted s r := by
  have hi := h.invariant
  have hroot := hr
  refine ⟨fun ha => ha.started hi hr, fun hs => ?_⟩
  obtain ⟨hne, e, he, -, -, -⟩ := hr
  have hh := hi.histories r hne
  obtain ⟨run, hrun, rfl⟩ := hi.row_of_event hne he
  obtain ⟨hended, hlive⟩ := queueStatus_runEvents hi hne
  -- The folds agree on the status, and the queue reads it off the same log.
  have hviews : statusOf (s.runEvents run.id) = listStatus (s.runEvents run.id) ∧
      queueStatus s.events run.id = queueReading (statusOf (s.runEvents run.id)).1 ∧
      (statusOf (s.runEvents run.id)).1 ≠ "queued" := by
    by_cases hopen : ∀ e ∈ s.runEvents run.id, e.type.isTerminal = false
    · have hstart : ∃ e ∈ s.runEvents run.id, e.type = .runStarted := by
        obtain ⟨a, ha, -, hk | hk⟩ := hs
        · exact ⟨a, ha, hk⟩
        · simp [hopen a ha] at hk
      rw [hlive hopen, if_pos hstart]
      obtain ⟨heq, hst | hst⟩ := hh.statuses.started hopen hstart
      · exact ⟨heq, by simp [hst, queueReading], by simp [hst]⟩
      · exact ⟨heq, by simp [hst, queueReading], by simp [hst]⟩
    · simp only [not_forall, Bool.not_eq_false] at hopen
      obtain ⟨a, ha, ht⟩ := hopen
      obtain ⟨hst, hls⟩ := hh.statuses.ended a ha ht
      rw [hended a ha ht, hst, hls]
      rcases (EventType.isTerminal_iff _).mp ht with hk | hk | hk <;>
        simp [hk, EventType.terminalStatus, queueReading]
  obtain ⟨hlist, hqueue, hnot⟩ := hviews
  refine ⟨_, getRun_status hi hrun, getRunSummary_status hi hrun, ?_, ?_, ?_, ?_⟩
  · intro sid limit before records hl record hrec hid
    obtain ⟨run', -, hid', hs'⟩ := listRuns_status hi hl hrec
    have hsame : run'.id = run.id := by simpa [hid] using hid'.symm
    rw [hs', hsame, hlist]
  · intro run' hrun' hid
    obtain ⟨records, hl, hrec⟩ := listRuns_all hi hrun'
    exact ⟨records, hl, hid ▸ hrec⟩
  · rw [← hqueue]
    exact hroot.queued hi
  · exact ⟨fun hq => absurd hq hnot, fun hn => absurd hs hn⟩

/-- A run admitted to a session that has an earlier run, and not started yet. -/
def queuedCalls : List (Env × StoreCall) :=
  [(plainEnv 'a', .createRun "earlier" "main" none),
   (plainEnv 'b', .admitRun "queued" "main" [{ type := .runAdmitted, payload := Json.obj [] }] none)]

theorem queuedCalls_reachable : HostReachable (StoreCall.after {} queuedCalls) := by
  have h : HostReachable (StoreCall.after {} [(plainEnv 'a', .createRun "earlier" "main" none)]) :=
    .call _ _ (.empty "") (by simp [HostCall])
  exact .call _ _ h ⟨by decide, _, [], rfl, rfl, by simp⟩

theorem queuedCalls_admitted : AdmittedRoot (StoreCall.after {} queuedCalls) "queued" := by
  refine ⟨by decide, ?_⟩
  decide

theorem statusViewsAgree_queued_false :
    HostReachable (StoreCall.after {} queuedCalls) ∧
      AdmittedRoot (StoreCall.after {} queuedCalls) "queued" ∧
      ¬ StatusViewsAgree (StoreCall.after {} queuedCalls) "queued" := by
  refine ⟨queuedCalls_reachable, queuedCalls_admitted, fun h => ?_⟩
  have hs := h.started queuedCalls_reachable.invariant queuedCalls_admitted
  revert hs
  unfold HasStarted
  decide

/-- The same run once it has started. -/
def startedCalls : List (Env × StoreCall) :=
  queuedCalls ++ [(plainEnv 'c', .appendFact "main" { type := .runStarted, payload := Json.obj [] }
    (some "queued") false)]

theorem statusViewsAgree_started : StatusViewsAgree (StoreCall.after {} startedCalls) "queued" := by
  refine (statusViewsAgree_iff (.call _ _ queuedCalls_reachable ?_) ⟨by decide, ?_⟩).mpr ?_
  · refine ⟨⟨by simp, by simp, by simp⟩, fun _ => rfl, by simp, fun _ r hr => ?_, by simp⟩
    obtain rfl := Option.some.inj hr
    decide
  · decide
  · unfold HasStarted
    decide

end Eventide
