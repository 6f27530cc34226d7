import Eventide.Verification.Scheduler.Queue

/-! # The joint invariant of the log and the scheduler

Tickets and leases are memory, the queue is a reading of the log. The invariant below says
which runs of the log each ticket and lease may stand for. -/

namespace Eventide

open Outcome RuntimeStore

/-- No whole terminal event of the run is in the log. -/
def Unfinished (events : List Event) (r : String) : Prop := ∀ e ∈ events, e.ends r = false

/-- The run has been started. -/
def Started (events : List Event) (r : String) : Prop :=
  ∃ e ∈ events, e.queueRun = some r ∧ e.type = .runStarted

theorem terminalStatus_ne {kind : EventType} (h : kind.isTerminal = true) :
    kind.terminalStatus ≠ "queued" ∧ kind.terminalStatus ≠ "running" := by
  rcases (EventType.isTerminal_iff _).mp h with rfl | rfl | rfl <;>
    exact ⟨by decide, by decide⟩

theorem queueStatus_cases (events : List Event) (r : String) :
    (Unfinished events r ∧ Started events r ∧ queueStatus events r = "running") ∨
    (Unfinished events r ∧ ¬ Started events r ∧ queueStatus events r = "queued") ∨
    (¬ Unfinished events r ∧ queueStatus events r ≠ "running" ∧
      queueStatus events r ≠ "queued") := by
  unfold queueStatus
  cases hf : events.find? (·.ends r) with
  | some e =>
    have he : e.ends r = true := by simpa using List.find?_some hf
    have ht : e.type.isTerminal = true := by
      simp only [Event.ends, Bool.and_eq_true] at he
      exact he.2
    obtain ⟨hq, hr⟩ := terminalStatus_ne ht
    refine Or.inr (Or.inr ⟨fun hu => ?_, hr, hq⟩)
    simp [hu e (List.mem_of_find?_eq_some hf)] at he
  | none =>
    have hu : Unfinished events r := by simpa [Unfinished, List.find?_eq_none] using hf
    by_cases hs : Started events r
    · exact Or.inl ⟨hu, hs, if_pos hs⟩
    · exact Or.inr (Or.inl ⟨hu, hs, if_neg hs⟩)

theorem queueStatus_eq_running {events : List Event} {r : String} :
    queueStatus events r = "running" ↔ Unfinished events r ∧ Started events r := by
  rcases queueStatus_cases events r with ⟨hu, hs, h⟩ | ⟨hu, hs, h⟩ | ⟨hu, h, -⟩ <;> simp [*]

theorem queueStatus_eq_queued {events : List Event} {r : String} :
    queueStatus events r = "queued" ↔ Unfinished events r ∧ ¬ Started events r := by
  rcases queueStatus_cases events r with ⟨hu, hs, h⟩ | ⟨hu, hs, h⟩ | ⟨hu, -, h⟩ <;> simp [*]

theorem Unfinished.of_append {events more : List Event} {r : String}
    (h : Unfinished (events ++ more) r) : Unfinished events r :=
  fun e he => h e (List.mem_append_left _ he)

theorem Started.append {events : List Event} {r : String} (h : Started events r)
    (more : List Event) : Started (events ++ more) r :=
  h.imp fun _ he => ⟨List.mem_append_left _ he.1, he.2⟩

/-- A run with no events is neither started nor ended. -/
theorem not_started_of_fresh {s : RuntimeStore} {r : String} (h : s.runEvents r = []) :
    ¬ Started s.events r := by
  rintro ⟨e, he, hq, -⟩
  have hm : e ∈ s.runEvents r := by
    simpa [runEvents] using ⟨he, (Event.queueRun_eq_some.mp hq).2.1⟩
  rw [h] at hm
  cases hm

/-- The run holds the session: by a ticket, by a lease, or by an unfinished admission. -/
def Holds (s : RuntimeStore) (q : RuntimeScheduler) (sid r : String) : Prop :=
  (∃ t, q.tickets.get? r = some t ∧ t.sessionId = sid) ∨
  (∃ l, q.roots.get? r = some l ∧ l.sessionId = sid) ∨
  ∃ e ∈ s.rootAdmissions, e.queueRun = some r ∧ e.sessionId = sid ∧ Unfinished s.events r

/-- A queued root that neither a ticket nor a lease stands for. -/
def waits (s : RuntimeStore) (q : RuntimeScheduler) (e : Event) : Bool :=
  queueStatus s.events (e.queueRun.getD "") = "queued" && !q.owns (e.queueRun.getD "")

/-- Which runs of the log the tickets and leases stand for. -/
structure Ownership (s : RuntimeStore) (q : RuntimeScheduler) : Prop where
  log : s.LogInvariant
  once : AdmittedOnce s.events
  ticket_key : ∀ r t, q.tickets.get? r = some t → t.runId = r
  root_key : ∀ r l, q.roots.get? r = some l → l.runId = r
  disjoint : ∀ r ∈ q.tickets.keys, r ∉ q.roots.keys
  ticketed : ∀ r t, q.tickets.get? r = some t → ∀ e ∈ s.rootAdmissions, e.queueRun = some r →
    e.sessionId = t.sessionId ∧ ¬ (Unfinished s.events r ∧ Started s.events r)
  leased : ∀ r l, q.roots.get? r = some l →
    ∃ e ∈ s.rootAdmissions, e.queueRun = some r ∧ e.sessionId = l.sessionId
  started : ∀ e ∈ s.rootAdmissions, ∀ r, e.queueRun = some r → Unfinished s.events r →
    Started s.events r → r ∈ q.roots.keys
  exclusive : ∀ sid r r', Holds s q sid r → Holds s q sid r' → r = r'

/-- Ownership, within the limits. -/
structure SchedulerInvariant (s : RuntimeStore) (q : RuntimeScheduler) : Prop
    extends Ownership s q where
  active : q.roots.entries.length + q.tickets.values.countP (·.lane = .active) ≤
    q.limits.activeRoots
  waiting : q.tickets.values.countP (·.lane = .waiting) + s.rootAdmissions.countP (waits s q) ≤
    q.limits.waitingRoots

theorem owns_iff {q : RuntimeScheduler} {r : String} :
    q.owns r = true ↔ r ∈ q.tickets.keys ∨ r ∈ q.roots.keys := by
  simp [RuntimeScheduler.owns, Dict.contains_iff]

theorem mem_rootAdmissions {s : RuntimeStore} {e : Event} (h : e ∈ s.rootAdmissions) :
    e ∈ s.events ∧ e.isAdmission = true ∧ ∃ r, e.queueRun = some r := by
  obtain ⟨he, hr⟩ := List.mem_filter.mp h
  simp only [Event.isRootAdmission, Bool.and_eq_true] at hr
  have ha := hr.1
  simp only [Event.isAdmission, Bool.and_eq_true] at ha
  exact ⟨he, hr.1, Option.isSome_iff_exists.mp ha.1⟩

/-- A log that admits each run once holds one root admission of a run at most. -/
theorem AdmittedOnce.countP_run_le_one {s : RuntimeStore} (h : AdmittedOnce s.events)
    (r : String) : s.rootAdmissions.countP (·.queueRun = some r) ≤ 1 := by
  rw [List.countP_eq_length_filter]
  refine Sequence.filter_length_le_one ?_
  refine List.pairwise_iff_forall_sublist.mpr fun {a b} hab ha => ?_
  have hs := List.pairwise_iff_forall_sublist.mp h (hab.trans List.filter_sublist)
  have haa := (mem_rootAdmissions (hab.subset (by simp : a ∈ [a, b]))).2.1
  have hba := (mem_rootAdmissions (hab.subset (by simp : b ∈ [a, b]))).2.1
  have hne := hs haa hba
  simp only [decide_eq_true_eq] at ha
  simpa [ha] using fun hb : b.queueRun = some r => hne (ha.trans hb.symm)

/-! ## Writes to the log -/

/-- What the callers of the scheduler promise of the log: a run is admitted with its first
event, a root only for its ticket, and only a leased root is started. -/
def schedulerPromise (q : RuntimeScheduler) : Promise where
  event s e :=
    (e.isAdmission = true → ∀ r, e.queueRun = some r → s.runEvents r = []) ∧
    (e.isRootAdmission = true → ∀ r, e.queueRun = some r →
      ∃ t, q.tickets.get? r = some t ∧ t.sessionId = e.sessionId) ∧
    (e.type = .runStarted → ∀ r, e.queueRun = some r →
      r ∈ q.roots.keys ∨ ∀ a ∈ s.rootAdmissions, a.queueRun ≠ some r)
  run _ := True

theorem rootAdmissions_concat (s : RuntimeStore) (e : Event) :
    rootAdmissions { s with events := s.events ++ [e] } =
      s.rootAdmissions ++ if e.isRootAdmission then [e] else [] := by
  by_cases h : e.isRootAdmission = true <;> simp [rootAdmissions, List.filter_append, h]

theorem mem_rootAdmissions_concat {s : RuntimeStore} {e a : Event}
    (h : a ∈ rootAdmissions { s with events := s.events ++ [e] }) :
    a ∈ s.rootAdmissions ∨ (a = e ∧ e.isRootAdmission = true) := by
  rw [rootAdmissions_concat] at h
  rcases List.mem_append.mp h with h | h
  · exact Or.inl h
  · split at h
    · exact Or.inr ⟨List.mem_singleton.mp h, by assumption⟩
    · cases h

variable {s : RuntimeStore} {q : RuntimeScheduler}

theorem SchedulerInvariant.event {e : Event} (h : SchedulerInvariant s q) (ha : s.Appendable e)
    (hp : (schedulerPromise q).event s e) :
    SchedulerInvariant { s with events := s.events ++ [e] } q := by
  obtain ⟨hfresh, hroot, hstart⟩ := hp
  -- A new admission belongs to a ticketed run of which the log knows nothing.
  have hnew : ∀ a r, a = e ∧ e.isRootAdmission = true → a.queueRun = some r →
      (∃ t, q.tickets.get? r = some t ∧ t.sessionId = a.sessionId) ∧
        ¬ Started (s.events ++ [e]) r := by
    rintro a r ⟨rfl, hr⟩ hq
    refine ⟨hroot hr r hq, ?_⟩
    have hadm : a.isAdmission = true := by
      simp only [Event.isRootAdmission, Bool.and_eq_true] at hr
      exact hr.1
    rintro ⟨b, hb, hbq, hbk⟩
    rcases List.mem_append.mp hb with hb | hb
    · exact not_started_of_fresh (hfresh hadm r hq) ⟨b, hb, hbq, hbk⟩
    · obtain rfl := List.mem_singleton.mp hb
      simp [Event.isAdmission, hbk] at hadm
  -- A run that the new event starts was already running, or is leased, or is no root.
  have hold : ∀ r, Started (s.events ++ [e]) r →
      Started s.events r ∨ r ∈ q.roots.keys ∨ ∀ a ∈ s.rootAdmissions, a.queueRun ≠ some r := by
    rintro r ⟨b, hb, hbq, hbk⟩
    rcases List.mem_append.mp hb with hb | hb
    · exact Or.inl ⟨b, hb, hbq, hbk⟩
    · obtain rfl := List.mem_singleton.mp hb
      exact Or.inr (hstart hbk r hbq)
  refine
    { log := h.log.event ha, once := ?_, ticket_key := h.ticket_key, root_key := h.root_key
      disjoint := h.disjoint, ticketed := ?_, leased := ?_, started := ?_, exclusive := ?_
      active := h.active, waiting := ?_ }
  · refine Sequence.pairwise_concat h.once fun a hae haa hea hq => ?_
    simp only [Event.isAdmission, Bool.and_eq_true] at haa
    obtain ⟨r, hr⟩ := Option.isSome_iff_exists.mp haa.1
    have hm : a ∈ s.runEvents r := by
      simpa [runEvents] using ⟨hae, (Event.queueRun_eq_some.mp hr).2.1⟩
    rw [hfresh hea r (hq.symm.trans hr)] at hm
    cases hm
  · intro r t ht a ham hq
    rcases mem_rootAdmissions_concat ham with ham | ham
    · obtain ⟨hsid, hns⟩ := h.ticketed r t ht a ham hq
      refine ⟨hsid, fun hwaiting => ?_⟩
      obtain ⟨hu, hs⟩ := hwaiting
      rcases hold r hs with hs | hs | hs
      · exact hns ⟨hu.of_append, hs⟩
      · exact h.disjoint r (Dict.mem_keys.mpr (by simp [ht])) hs
      · exact hs a ham hq
    · obtain ⟨⟨t', ht', hsid⟩, hns⟩ := hnew a r ham hq
      obtain rfl := Option.some.inj (ht'.symm.trans ht)
      exact ⟨hsid.symm, fun hs => hns hs.2⟩
  · intro r l hl
    obtain ⟨a, ham, hq, hsid⟩ := h.leased r l hl
    exact ⟨a, by rw [rootAdmissions_concat]; exact List.mem_append_left _ ham, hq, hsid⟩
  · intro a ham r hq hu hs
    rcases mem_rootAdmissions_concat ham with ham | ham
    · rcases hold r hs with hs | hs | hs
      · exact h.started a ham r hq hu.of_append hs
      · exact hs
      · exact absurd hq (hs a ham)
    · exact absurd hs (hnew a r ham hq).2
  · have hback : ∀ sid r, Holds { s with events := s.events ++ [e] } q sid r → Holds s q sid r := by
      rintro sid r (ht | hl | ⟨a, ham, hq, hsid, hu⟩)
      · exact Or.inl ht
      · exact Or.inr (Or.inl hl)
      · rcases mem_rootAdmissions_concat ham with ham | ham
        · exact Or.inr (Or.inr ⟨a, ham, hq, hsid, hu.of_append⟩)
        · obtain ⟨⟨t, ht, hts⟩, -⟩ := hnew a r ham hq
          exact Or.inl ⟨t, ht, hts.trans hsid⟩
    exact fun sid r r' hr hr' => h.exclusive sid r r' (hback sid r hr) (hback sid r' hr')
  · refine le_trans (Nat.add_le_add_left ?_ _) h.waiting
    rw [rootAdmissions_concat, List.countP_append]
    have hlast : (if e.isRootAdmission = true then [e] else []).countP
        (waits { s with events := s.events ++ [e] } q) = 0 := by
      split
      · rename_i hr
        obtain ⟨r, hq⟩ : ∃ r, e.queueRun = some r := by
          simp only [Event.isRootAdmission, Event.isAdmission, Bool.and_eq_true] at hr
          exact Option.isSome_iff_exists.mp hr.1.1
        obtain ⟨⟨t, ht, -⟩, -⟩ := hnew e r ⟨rfl, hr⟩ hq
        have ho : q.owns r = true := owns_iff.mpr (Or.inl (Dict.mem_keys.mpr (by simp [ht])))
        simp [waits, hq, ho]
      · rfl
    rw [hlast, Nat.add_zero]
    refine List.countP_mono_left fun a _ hw => ?_
    simp only [waits, Bool.and_eq_true, decide_eq_true_eq, queueStatus_eq_queued] at hw ⊢
    exact ⟨⟨hw.1.1.of_append, fun hs => hw.1.2 (hs.append _)⟩, hw.2⟩

/-- Nothing but the log is read from the store. -/
theorem SchedulerInvariant.sameEvents {t : RuntimeStore} (h : SchedulerInvariant s q)
    (he : t.events = s.events) (hl : t.LogInvariant) : SchedulerInvariant t q := by
  have hr : t.rootAdmissions = s.rootAdmissions := by simp [rootAdmissions, he]
  have hw : waits t q = waits s q := by
    funext e
    simp [waits, he]
  have hh : Holds t q = Holds s q := by
    funext sid r
    simp [Holds, hr, he]
  refine
    { log := hl, once := he ▸ h.once, ticket_key := h.ticket_key, root_key := h.root_key
      disjoint := h.disjoint, ticketed := ?_, leased := ?_, started := ?_, exclusive := ?_
      active := h.active, waiting := ?_ }
  · rw [hr, he]
    exact h.ticketed
  · rw [hr]
    exact h.leased
  · rw [hr, he]
    exact h.started
  · rw [hh]
    exact h.exclusive
  · rw [hr, hw]
    exact h.waiting

theorem SchedulerInvariant.effect {t : RuntimeStore} (h : SchedulerInvariant s q)
    (k : Effect (schedulerPromise q) s t) : SchedulerInvariant t q := by
  induction k with
  | refl => exact h
  | event _ ha hp ih => exact ih.event ha hp
  | run _ _ hf ht _ ih => exact ih.sameEvents rfl (ih.log.run hf ht)
  | @frame t u _ he hr ht ih =>
    have hf : Effect (schedulerPromise q) t u := Effect.refl.frame he hr ht
    exact ih.sameEvents he (ih.log.effect hf)

end Eventide
