import Eventide.Verification.Scheduler.Invariant

/-! # The steps of the scheduler keep the invariant -/

namespace Eventide

open Outcome RuntimeStore RuntimeScheduler

variable {s : RuntimeStore} {q q' : RuntimeScheduler}

/-- `counts()` under the invariant: every running root is leased. -/
theorem SchedulerInvariant.counts (h : SchedulerInvariant s q) :
    q.counts s = .ok
      { activeRoots := q.roots.entries.length + q.tickets.values.countP (·.lane = .active)
        waitingRoots := q.tickets.values.countP (·.lane = .waiting) +
          s.rootAdmissions.countP (waits s q)
        preparingAdmissions := q.tickets.entries.length
        activeModels := q.activeModels
        waitingModels := q.waitingModels } := by
  have hrun : (s.rootAdmissions.map (queueEntry s.events)).countP
      (fun entry => entry.status = "running" && !q.owns entry.runId) = 0 := by
    rw [List.countP_map, List.countP_eq_zero]
    intro e he
    obtain ⟨-, -, r, hq⟩ := mem_rootAdmissions he
    have hst : (queueEntry s.events e).status = queueStatus s.events r := by simp [queueEntry, hq]
    have hid : (queueEntry s.events e).runId = r := by simp [queueEntry, hq]
    intro hc
    simp only [Function.comp_apply, hst, hid, Bool.and_eq_true, decide_eq_true_eq,
      Bool.not_eq_true', queueStatus_eq_running] at hc
    simp [owns_iff.mpr (Or.inr (h.started e he r hq hc.1.1 hc.1.2))] at hc
  unfold RuntimeScheduler.counts
  rw [queueEntries_eq h.once]
  simp only [ok_bind, pure_eq_ok, hrun, Nat.add_zero, List.countP_map]
  rfl

/-- A session that nothing holds when the scheduler reserves it. -/
theorem not_holds {sid : String}
    (hf : q.holdsSession sid = false)
    (he : ∀ entry ∈ s.rootAdmissions.map (queueEntry s.events), ¬ (entry.sessionId = sid ∧
      (entry.status = "queued" ∨ entry.status = "running"))) (r : String) : ¬ Holds s q sid r := by
  simp only [holdsSession, Bool.or_eq_false_iff, List.any_eq_false, decide_eq_true_eq] at hf
  rintro (⟨t, ht, hs⟩ | ⟨l, hl, hs⟩ | ⟨a, ha, hq, hs, hu⟩)
  · exact hf.1 t (Dict.mem_values.mpr ⟨r, ht⟩) hs
  · exact hf.2 l (Dict.mem_values.mpr ⟨r, hl⟩) hs
  · refine he _ (List.mem_map_of_mem ha) ⟨hs, ?_⟩
    simp only [queueEntry, hq, Option.getD_some, queueStatus_eq_queued, queueStatus_eq_running]
    by_cases hst : Started s.events r
    · exact Or.inr ⟨hu, hst⟩
    · exact Or.inl ⟨hu, hst⟩

/-- A run without a row has no admission. -/
theorem Ownership.unadmitted (h : Ownership s q) {r : String}
    (hr : s.getRunIdentity r = none) : ∀ a ∈ s.rootAdmissions, a.queueRun ≠ some r := by
  intro a ha hq
  obtain ⟨hae, -, -⟩ := mem_rootAdmissions ha
  obtain ⟨-, hrun, hne⟩ := Event.queueRun_eq_some.mp hq
  obtain ⟨run, hm, rfl, -⟩ := h.log.owned a hae r (givenRun_eq_some.mpr ⟨hrun, hne⟩)
  obtain ⟨turn, ht, hte⟩ := h.log.turned run hm
  obtain ⟨row, hrow⟩ : ∃ row, s.getRunRow run.id = some row :=
    Option.isSome_iff_exists.mp (List.find?_isSome.mpr ⟨run, hm, by simp⟩)
  obtain ⟨hrm, hid⟩ := getRunRow_eq_some hrow
  obtain rfl : row = run := List.inj_on_of_nodup_map h.log.runs_nodup hrm hm hid
  obtain ⟨t', ht'⟩ : ∃ t', s.turns.find? (·.id = row.turnId) = some t' :=
    Option.isSome_iff_exists.mp (List.find?_isSome.mpr ⟨turn, ht, by simpa using hte⟩)
  simp [getRunIdentity, hrow, ht'] at hr

/-- A run the store calls terminal is finished in the queue. -/
theorem Ownership.finished (h : Ownership s q) {r : String} (hr : r ≠ "")
    (ht : s.runIsTerminal r = true) : ¬ Unfinished s.events r := by
  obtain ⟨e, he⟩ := Option.isSome_iff_exists.mp ht
  have hm := List.mem_of_find?_eq_some he
  have hp : e.runId = some r ∧ e.type.isTerminal = true := by simpa using List.find?_some he
  intro hu
  have hq : e.queueRun = some r :=
    Event.queueRun_eq_some.mpr ⟨h.log.whole e hm hp.2, hp.1, hr⟩
  simpa [Event.ends, hq, hp.2] using hu e hm

theorem waits_of_subset (ht : ∀ r ∈ q.tickets.keys, r ∈ q'.tickets.keys ∨ r ∈ q'.roots.keys)
    (hr : ∀ r ∈ q.roots.keys, r ∈ q'.tickets.keys ∨ r ∈ q'.roots.keys) :
    s.rootAdmissions.countP (waits s q') ≤ s.rootAdmissions.countP (waits s q) := by
  refine List.countP_mono_left fun e _ hw => ?_
  simp only [waits, Bool.and_eq_true, decide_eq_true_eq, Bool.not_eq_true', ← Bool.not_eq_true,
    owns_iff, not_or] at hw ⊢
  exact ⟨hw.1, fun hm => (ht _ hm).elim hw.2.1 hw.2.2, fun hm => (hr _ hm).elim hw.2.1 hw.2.2⟩

/-! ## The memory updates -/

/-- A ticket for a run that nothing knows, in a session that nothing holds. -/
theorem SchedulerInvariant.addTicket (h : SchedulerInvariant s q) {t : AdmissionTicket}
    (hown : q.owns t.runId = false) (hadm : ∀ a ∈ s.rootAdmissions, a.queueRun ≠ some t.runId)
    (hfree : ∀ r, ¬ Holds s q t.sessionId r)
    (ha : t.lane = .active →
      q.roots.entries.length + q.tickets.values.countP (·.lane = .active) < q.limits.activeRoots)
    (hw : t.lane = .waiting → q.tickets.values.countP (·.lane = .waiting) +
      s.rootAdmissions.countP (waits s q) < q.limits.waitingRoots) :
    SchedulerInvariant s (q.addTicket t) := by
  obtain ⟨hnt, hnr⟩ : t.runId ∉ q.tickets.keys ∧ t.runId ∉ q.roots.keys := by
    rw [← not_or, ← owns_iff, hown]
    simp
  refine
    { log := h.log, once := h.once, ticket_key := ?_, root_key := h.root_key
      disjoint := ?_, ticketed := ?_, leased := h.leased, started := h.started, exclusive := ?_
      active := ?_, waiting := ?_ }
  · intro r t' ht
    simp only [RuntimeScheduler.addTicket, Dict.get?_set] at ht
    split at ht
    · rename_i hr
      rw [hr, Option.some.inj ht]
    · exact h.ticket_key r t' ht
  · intro r hr
    rcases Dict.mem_keys_set.mp hr with rfl | hr
    · exact hnr
    · exact h.disjoint r hr
  · intro r t' ht a ham hq
    simp only [RuntimeScheduler.addTicket, Dict.get?_set] at ht
    split at ht
    · rename_i hr
      exact absurd (hr ▸ hq) (hadm a ham)
    · exact h.ticketed r t' ht a ham hq
  · -- Only the new ticket holds its session; the other holdings are as before.
    have hback : ∀ sid r, Holds s (q.addTicket t) sid r →
        Holds s q sid r ∨ (sid = t.sessionId ∧ r = t.runId) := by
      rintro sid r (⟨t', ht, hs⟩ | hrest)
      · simp only [RuntimeScheduler.addTicket, Dict.get?_set] at ht
        split at ht
        · obtain rfl := Option.some.inj ht
          exact Or.inr ⟨hs.symm, by assumption⟩
        · exact Or.inl (Or.inl ⟨t', ht, hs⟩)
      · exact Or.inl (Or.inr hrest)
    intro sid r r' hr hr'
    rcases hback sid r hr with hr | ⟨rfl, rfl⟩
    · rcases hback sid r' hr' with hr' | ⟨rfl, -⟩
      · exact h.exclusive sid r r' hr hr'
      · exact absurd hr (hfree r)
    · rcases hback _ r' hr' with hr' | ⟨-, rfl⟩
      · exact absurd hr' (hfree r')
      · rfl
  · have hold := h.active
    simp only [RuntimeScheduler.addTicket, Dict.countP_set hnt]
    split
    · rename_i hl
      have hlt := ha (by simpa using hl)
      omega
    · exact hold
  · have hold := h.waiting
    have hmono : s.rootAdmissions.countP (waits s (q.addTicket t)) ≤
        s.rootAdmissions.countP (waits s q) :=
      waits_of_subset (fun r hr => Or.inl (Dict.mem_keys_set.mpr (Or.inr hr)))
        (fun r hr => Or.inr hr)
    simp only [RuntimeScheduler.addTicket, Dict.countP_set hnt] at hmono ⊢
    split
    · rename_i hl
      have hlt := hw (by simpa using hl)
      omega
    · omega

theorem Ownership.popTicket (h : Ownership s q) (r : String) : Ownership s (q.popTicket r) := by
  have hget : ∀ {j t}, (q.popTicket r).tickets.get? j = some t → q.tickets.get? j = some t := by
    intro j t ht
    simp only [RuntimeScheduler.popTicket, Dict.get?_erase] at ht
    split at ht
    · cases ht
    · exact ht
  refine
    { log := h.log, once := h.once, ticket_key := fun j t ht => h.ticket_key j t (hget ht)
      root_key := h.root_key
      disjoint := fun j hj => h.disjoint j (Dict.mem_keys_erase.mp hj).2
      ticketed := fun j t ht => h.ticketed j t (hget ht)
      leased := h.leased, started := h.started, exclusive := ?_ }
  have hback : ∀ sid j, Holds s (q.popTicket r) sid j → Holds s q sid j := by
    rintro sid j (⟨t, ht, hs⟩ | hrest)
    · exact Or.inl ⟨t, hget ht, hs⟩
    · exact Or.inr hrest
  exact fun sid j j' hj hj' => h.exclusive sid j j' (hback sid j hj) (hback sid j' hj')

/-- A lease for an admitted run that nothing else stands for. -/
theorem Ownership.addRoot (h : Ownership s q) {l : RootLease} {e : Event}
    (hnt : l.runId ∉ q.tickets.keys) (he : e ∈ s.rootAdmissions)
    (hq : e.queueRun = some l.runId) (hs : e.sessionId = l.sessionId)
    (hu : Unfinished s.events l.runId) : Ownership s (q.addRoot l) := by
  refine
    { log := h.log, once := h.once, ticket_key := h.ticket_key, root_key := ?_
      disjoint := ?_, ticketed := h.ticketed, leased := ?_, started := ?_, exclusive := ?_ }
  · intro r l' hl
    simp only [RuntimeScheduler.addRoot, Dict.get?_set] at hl
    split at hl
    · rename_i hr
      rw [hr, Option.some.inj hl]
    · exact h.root_key r l' hl
  · intro r hr hm
    rcases Dict.mem_keys_set.mp hm with rfl | hm
    · exact hnt hr
    · exact h.disjoint r hr hm
  · intro r l' hl
    simp only [RuntimeScheduler.addRoot, Dict.get?_set] at hl
    split at hl
    · rename_i hr
      obtain rfl := Option.some.inj hl
      exact ⟨e, he, hr ▸ hq, hs⟩
    · exact h.leased r l' hl
  · exact fun a ham r har hur hsr => Dict.mem_keys_set.mpr (Or.inr (h.started a ham r har hur hsr))
  · -- The run held the session already, by its admission.
    have hback : ∀ sid r, Holds s (q.addRoot l) sid r → Holds s q sid r := by
      rintro sid r (ht | ⟨l', hl, hsid⟩ | hrest)
      · exact Or.inl ht
      · simp only [RuntimeScheduler.addRoot, Dict.get?_set] at hl
        split at hl
        · rename_i hr
          obtain rfl := Option.some.inj hl
          exact Or.inr (Or.inr ⟨e, he, hr ▸ hq, hs.trans hsid, hr ▸ hu⟩)
        · exact Or.inr (Or.inl ⟨l', hl, hsid⟩)
      · exact Or.inr (Or.inr hrest)
    exact fun sid r r' hr hr' => h.exclusive sid r r' (hback sid r hr) (hback sid r' hr')

/-- The lease of a finished run goes. -/
theorem SchedulerInvariant.popRoot (h : SchedulerInvariant s q) {r : String}
    (hf : ¬ Unfinished s.events r) : SchedulerInvariant s (q.popRoot r) := by
  have hget : ∀ {j l}, (q.popRoot r).roots.get? j = some l → q.roots.get? j = some l := by
    intro j l hl
    simp only [RuntimeScheduler.popRoot, Dict.get?_erase] at hl
    split at hl
    · cases hl
    · exact hl
  refine
    { log := h.log, once := h.once, ticket_key := h.ticket_key
      root_key := fun j l hl => h.root_key j l (hget hl)
      disjoint := fun j hj hm => h.disjoint j hj (Dict.mem_keys_erase.mp hm).2
      ticketed := h.ticketed, leased := fun j l hl => h.leased j l (hget hl)
      started := ?_, exclusive := ?_, active := ?_, waiting := ?_ }
  · intro a ha j hq hu hs
    refine Dict.mem_keys_erase.mpr ⟨?_, h.started a ha j hq hu hs⟩
    rintro rfl
    exact hf hu
  · have hback : ∀ sid j, Holds s (q.popRoot r) sid j → Holds s q sid j := by
      rintro sid j (ht | ⟨l, hl, hs⟩ | hrest)
      · exact Or.inl ht
      · exact Or.inr (Or.inl ⟨l, hget hl, hs⟩)
      · exact Or.inr (Or.inr hrest)
    exact fun sid j j' hj hj' => h.exclusive sid j j' (hback sid j hj) (hback sid j' hj')
  · refine le_trans (Nat.add_le_add_right ?_ _) h.active
    exact List.filter_sublist.length_le
  · refine le_trans (Nat.add_le_add_left (List.countP_mono_left fun a ha hw => ?_) _) h.waiting
    obtain ⟨-, -, j, hj⟩ := mem_rootAdmissions ha
    simp only [waits, Bool.and_eq_true, decide_eq_true_eq, Bool.not_eq_true', ← Bool.not_eq_true,
      owns_iff, not_or, hj, Option.getD_some] at hw ⊢
    refine ⟨hw.1, hw.2.1, fun hm => hw.2.2 (Dict.mem_keys_erase.mpr ⟨?_, hm⟩)⟩
    rintro rfl
    exact hf (queueStatus_eq_queued.mp hw.1).1

/-! ## The methods -/

theorem SchedulerInvariant.reserveAdmission (h : SchedulerInvariant s q) {r sid : String}
    {startable : Bool} {t : AdmissionTicket}
    (hok : q.reserveAdmission s r sid startable = .ok (t, q')) : SchedulerInvariant s q' := by
  unfold RuntimeScheduler.reserveAdmission at hok
  rw [queueEntries_eq h.once, h.counts] at hok
  simp only [bind_eq_ok, raiseIf_eq_ok, pure_eq_ok, Except.ok.injEq, Prod.mk.injEq, ok_bind,
    not_or, Bool.not_eq_true, List.any_eq_false, decide_eq_true_eq] at hok
  obtain ⟨_, ⟨hne, -, -⟩, _, ⟨hown, hid⟩, _, hholds, _, hbusy, lane, hlane, rfl, rfl⟩ := hok
  refine h.addTicket hown (h.unadmitted (by simpa using hid)) (not_holds hholds hbusy) ?_ ?_
  · rintro rfl
    unfold chooseLane at hlane
    split at hlane
    · rename_i hc
      exact hc.2
    · split at hlane <;> simp at hlane
  · rintro rfl
    unfold chooseLane at hlane
    split at hlane
    · simp at hlane
    · split at hlane
      · simp at hlane
      · rename_i hc
        exact Nat.lt_of_not_le hc

/-- The entry that `commit_admission` finds is the admission of the ticket's run. -/
theorem find_entry {r : String} {entry : QueueEntry}
    (hf : (s.rootAdmissions.map (queueEntry s.events)).find? (·.runId = r) = some entry) :
    ∃ e ∈ s.rootAdmissions, e.queueRun = some r ∧ entry = queueEntry s.events e := by
  obtain ⟨e, he, rfl⟩ := List.mem_map.mp (List.mem_of_find?_eq_some hf)
  obtain ⟨-, -, j, hj⟩ := mem_rootAdmissions he
  have hr : (queueEntry s.events e).runId = r := by simpa using List.find?_some hf
  simp only [queueEntry, hj, Option.getD_some] at hr
  exact ⟨e, he, hr ▸ hj, rfl⟩

theorem SchedulerInvariant.commitAdmission (h : SchedulerInvariant s q) {t : AdmissionTicket}
    {lease : Option RootLease} (hok : q.commitAdmission s t = .ok (lease, q')) :
    SchedulerInvariant s q' := by
  unfold RuntimeScheduler.commitAdmission at hok
  rw [queueEntries_eq h.once] at hok
  simp only [bind_eq_ok, raiseIf_eq_ok, ok_bind, not_not] at hok
  obtain ⟨_, hticket, _, hentry, hok⟩ := hok
  rw [Option.any_eq_true] at hentry
  obtain ⟨entry, hfind, hmatch⟩ := hentry
  obtain ⟨e, he, hq, rfl⟩ := find_entry hfind
  obtain ⟨hsid, hst⟩ := of_decide_eq_true hmatch
  have hu : Unfinished s.events t.runId := by
    simp only [queueEntry, hq, Option.getD_some, queueStatus_eq_queued] at hst
    exact hst.1
  have hlen := Dict.countP_erase hticket (·.lane = .waiting)
  have hlena := Dict.countP_erase hticket (·.lane = .active)
  cases hl : t.lane with
  | waiting =>
    simp only [hl, pure_eq_ok, Except.ok.injEq, Prod.mk.injEq] at hok
    obtain ⟨-, rfl⟩ := hok
    -- The run now waits in the queue instead of by its ticket.
    have hone : s.rootAdmissions.countP (waits s (q.popTicket t.runId)) ≤
        s.rootAdmissions.countP (waits s q) + 1 := by
      calc s.rootAdmissions.countP (waits s (q.popTicket t.runId))
          ≤ s.rootAdmissions.countP fun a => waits s q a || a.queueRun = some t.runId := by
            refine List.countP_mono_left fun a ha hw => ?_
            obtain ⟨-, -, j, hj⟩ := mem_rootAdmissions ha
            by_cases hjr : j = t.runId
            · simp [hj, hjr]
            · simp only [waits, Bool.and_eq_true, Bool.not_eq_true', ← Bool.not_eq_true, owns_iff,
                hj, Option.getD_some, RuntimeScheduler.popTicket, Dict.mem_keys_erase, not_or] at hw
              simp only [waits, hj, Option.getD_some, Bool.or_eq_true, Bool.and_eq_true,
                Bool.not_eq_true', ← Bool.not_eq_true, owns_iff, not_or]
              exact Or.inl ⟨hw.1, fun hm => hw.2.1 ⟨hjr, hm⟩, hw.2.2⟩
        _ ≤ s.rootAdmissions.countP (waits s q) +
              s.rootAdmissions.countP (·.queueRun = some t.runId) := by
            exact Sequence.countP_or_le _ _ _
        _ ≤ s.rootAdmissions.countP (waits s q) + 1 :=
            Nat.add_le_add_left (h.once.countP_run_le_one _) _
    have hw := h.waiting
    have ha := h.active
    simp only [hl, decide_true, if_true, reduceCtorEq, decide_false, Bool.false_eq_true, if_false,
      Nat.add_zero] at hlen hlena
    exact
      { toOwnership := h.toOwnership.popTicket t.runId
        active := by simp only [RuntimeScheduler.popTicket]; omega
        waiting := by simp only [RuntimeScheduler.popTicket] at hone ⊢; omega }
  | active =>
    simp only [hl, pure_eq_ok, Except.ok.injEq, Prod.mk.injEq] at hok
    obtain ⟨-, rfl⟩ := hok
    have hmem : t.runId ∈ q.tickets.keys := Dict.mem_keys.mpr (by simp [hticket])
    have hnr := h.disjoint t.runId hmem
    set l : RootLease := { object := q.objects, runId := t.runId, sessionId := t.sessionId }
    have hgone : l.runId ∉ (q.popTicket t.runId).tickets.keys :=
      fun hm => (Dict.mem_keys_erase.mp hm).1 rfl
    have howner := (h.toOwnership.popTicket t.runId).addRoot hgone he hq hsid hu
    have hmono : s.rootAdmissions.countP (waits s ((q.addRoot l).popTicket t.runId)) ≤
        s.rootAdmissions.countP (waits s q) := by
      refine waits_of_subset (fun j hj => ?_) fun j hj => Or.inr (Dict.mem_keys_set.mpr (Or.inr hj))
      by_cases hjr : j = t.runId
      · exact Or.inr (Dict.mem_keys_set.mpr (Or.inl hjr))
      · exact Or.inl (Dict.mem_keys_erase.mpr ⟨hjr, hj⟩)
    have hw := h.waiting
    have ha := h.active
    simp only [hl, decide_true, if_true, reduceCtorEq, decide_false, Bool.false_eq_true, if_false,
      Nat.add_zero] at hlen hlena
    refine { toOwnership := howner, active := ?_, waiting := ?_ }
    · have hset : (q.roots.set l.runId l).entries.length = q.roots.entries.length + 1 :=
        Dict.length_set hnr
      simp only [RuntimeScheduler.popTicket, RuntimeScheduler.addRoot]
      omega
    · simp only [RuntimeScheduler.popTicket, RuntimeScheduler.addRoot] at hmono ⊢
      omega

/-- A ticket whose run is unknown or finished leaves nothing waiting behind. -/
theorem SchedulerInvariant.releaseTicket (h : SchedulerInvariant s q) {t : AdmissionTicket}
    {released : Bool} (hok : q.releaseTicket s t = .ok (released, q')) :
    SchedulerInvariant s q' := by
  unfold RuntimeScheduler.releaseTicket at hok
  split at hok
  · obtain ⟨-, rfl⟩ : _ ∧ q = q' := by simpa using hok
    exact h
  · simp only [bind_eq_ok, raiseIf_eq_ok, pure_eq_ok, Except.ok.injEq, Prod.mk.injEq] at hok
    obtain ⟨_, hguard, -, rfl⟩ := hok
    have hgone : ∀ a ∈ s.rootAdmissions, a.queueRun = some t.runId →
        ¬ Unfinished s.events t.runId := by
      intro a ha hq
      obtain ⟨-, -, hne⟩ := Event.queueRun_eq_some.mp hq
      cases hid : s.getRunIdentity t.runId with
      | none => exact absurd hq (h.unadmitted hid a ha)
      | some row => exact h.finished hne (by simpa [hid] using hguard)
    have hcount : s.rootAdmissions.countP (waits s (q.popTicket t.runId)) ≤
        s.rootAdmissions.countP (waits s q) := by
      refine List.countP_mono_left fun a ha hw => ?_
      obtain ⟨-, -, j, hj⟩ := mem_rootAdmissions ha
      simp only [waits, Bool.and_eq_true, decide_eq_true_eq, Bool.not_eq_true', ← Bool.not_eq_true,
        owns_iff, not_or, hj, Option.getD_some, RuntimeScheduler.popTicket,
        Dict.mem_keys_erase] at hw ⊢
      refine ⟨hw.1, fun hm => hw.2.1 ⟨?_, hm⟩, hw.2.2⟩
      rintro rfl
      exact hgone a ha hj (queueStatus_eq_queued.mp hw.1).1
    have hless (p : AdmissionTicket → Bool) :
        (q.tickets.erase t.runId).values.countP p ≤ q.tickets.values.countP p :=
      (List.filter_sublist.map Prod.snd).countP_le
    exact
      { toOwnership := h.toOwnership.popTicket t.runId
        active := le_trans (Nat.add_le_add_left (hless _) _) h.active
        waiting := le_trans (Nat.add_le_add (hless _) hcount) h.waiting }

theorem SchedulerInvariant.releaseRoot (h : SchedulerInvariant s q) {l : RootLease}
    {released : Bool} (hok : q.releaseRoot s l = .ok (released, q')) : SchedulerInvariant s q' := by
  unfold RuntimeScheduler.releaseRoot at hok
  split at hok
  · obtain ⟨-, rfl⟩ : _ ∧ q = q' := by simpa using hok
    exact h
  · rename_i hl
    simp only [bind_eq_ok, raiseIf_eq_ok, pure_eq_ok, Except.ok.injEq, Prod.mk.injEq,
      not_not] at hok hl
    obtain ⟨_, hterm, -, rfl⟩ := hok
    obtain ⟨e, -, hq, -⟩ := h.leased l.runId l hl
    exact h.popRoot (h.finished (Event.queueRun_eq_some.mp hq).2.2 hterm)

/-- What `claim_next` passes over. -/
def Eligible (q : RuntimeScheduler) (busySessions : List String) (entry : QueueEntry) : Prop :=
  entry.status = "queued" ∧ q.owns entry.runId = false ∧ entry.sessionId ∉ busySessions

/-- The loop claims the first eligible entry that the callback accepts. -/
theorem firstClaim_eq_some {busySessions : List String}
    {claimExecution : QueueEntry → Except PyError Bool} {entries : List QueueEntry}
    {entry : QueueEntry}
    (h : q.firstClaim busySessions claimExecution entries = .ok (some entry)) :
    ∃ older newer, entries = older ++ entry :: newer ∧ Eligible q busySessions entry ∧
      claimExecution entry = .ok true ∧
      ∀ e ∈ older, Eligible q busySessions e → claimExecution e = .ok false := by
  induction entries with
  | nil => simp [firstClaim] at h
  | cons e entries ih =>
    unfold firstClaim at h
    split at h
    · rename_i hskip
      obtain ⟨older, newer, rfl, he, hc, ho⟩ := ih h
      refine ⟨e :: older, newer, rfl, he, hc, ?_⟩
      intro a ha hel
      rcases List.mem_cons.mp ha with rfl | ha
      · rcases hskip with hs | hs | hs
        · exact absurd hel.1 hs
        · simp [hel.2.1] at hs
        · exact absurd hs hel.2.2
      · exact ho a ha hel
    · rename_i hel
      simp only [ne_eq, not_or, not_not, Bool.not_eq_true] at hel
      obtain ⟨claimed, hc, h⟩ := bind_eq_ok.mp h
      cases claimed with
      | true =>
        obtain rfl : e = entry := by simpa using h
        exact ⟨[], entries, rfl, hel, hc, by simp⟩
      | false =>
        obtain ⟨older, newer, rfl, he, hc', ho⟩ := ih (by simpa using h)
        refine ⟨e :: older, newer, rfl, he, hc', ?_⟩
        intro a ha hea
        rcases List.mem_cons.mp ha with rfl | ha
        · exact hc
        · exact ho a ha hea

/-- The sessions that `claim_next` takes to be busy. -/
def busySessions (s : RuntimeStore) (q : RuntimeScheduler) : List String :=
  ((s.rootAdmissions.map (queueEntry s.events)).filter (·.status = "running")).map (·.sessionId) ++
    q.roots.values.map (·.sessionId) ++ q.tickets.values.map (·.sessionId)

/-- A claim leases the first eligible admission that the callback accepts. -/
theorem SchedulerInvariant.claimNext_eq (h : SchedulerInvariant s q)
    {claimExecution : QueueEntry → Except PyError Bool} {lease : RootLease}
    (hok : q.claimNext s claimExecution = .ok (some lease, q')) :
    ∃ older e newer, s.rootAdmissions = older ++ e :: newer ∧
      e.queueRun = some lease.runId ∧ e.sessionId = lease.sessionId ∧
      Eligible q (busySessions s q) (queueEntry s.events e) ∧
      claimExecution (queueEntry s.events e) = .ok true ∧
      (∀ a ∈ older, Eligible q (busySessions s q) (queueEntry s.events a) →
        claimExecution (queueEntry s.events a) = .ok false) ∧
      q.roots.entries.length + q.tickets.values.countP (·.lane = .active) < q.limits.activeRoots ∧
      q' = q.addRoot lease := by
  unfold RuntimeScheduler.claimNext at hok
  rw [queueEntries_eq h.once, h.counts, ok_bind] at hok
  split at hok
  · simp at hok
  · rename_i hfull
    simp only [ok_bind] at hok
    obtain ⟨claimed, hfirst, hok⟩ := bind_eq_ok.mp hok
    cases claimed with
    | none => simp at hok
    | some entry =>
      simp only [pure_eq_ok, Except.ok.injEq, Prod.mk.injEq, Option.some.injEq] at hok
      obtain ⟨rfl, rfl⟩ := hok
      obtain ⟨older, newer, hsplit, hel, hc, ho⟩ := firstClaim_eq_some hfirst
      obtain ⟨before, after, hadm, rfl, hafter⟩ := List.map_eq_append_iff.mp hsplit
      obtain ⟨e, after, rfl, rfl, rfl⟩ := List.map_eq_cons_iff.mp hafter
      have hmem : e ∈ s.rootAdmissions := by simp [hadm]
      obtain ⟨-, -, r, hr⟩ := mem_rootAdmissions hmem
      refine ⟨before, e, after, hadm, by simp [queueEntry, hr], rfl, hel, hc, ?_,
        Nat.lt_of_not_le hfull, rfl⟩
      exact fun a ha => ho _ (List.mem_map_of_mem ha)

theorem SchedulerInvariant.claimNext (h : SchedulerInvariant s q)
    {claimExecution : QueueEntry → Except PyError Bool} {lease : Option RootLease}
    (hok : q.claimNext s claimExecution = .ok (lease, q')) : SchedulerInvariant s q' := by
  cases lease with
  | none =>
    unfold RuntimeScheduler.claimNext at hok
    rw [queueEntries_eq h.once, h.counts, ok_bind] at hok
    split at hok
    · obtain rfl : q = q' := by simpa using hok
      exact h
    · simp only [ok_bind] at hok
      obtain ⟨claimed, -, hok⟩ := bind_eq_ok.mp hok
      cases claimed with
      | none =>
        obtain rfl : q = q' := by simpa using hok
        exact h
      | some entry => simp at hok
  | some l =>
    obtain ⟨older, e, newer, hadm, hq, hs, ⟨hst, hown, -⟩, -, -, hlt, rfl⟩ := h.claimNext_eq hok
    have he : e ∈ s.rootAdmissions := by simp [hadm]
    have hid : (queueEntry s.events e).runId = l.runId := by simp [queueEntry, hq]
    obtain ⟨hnt, hnr⟩ : l.runId ∉ q.tickets.keys ∧ l.runId ∉ q.roots.keys := by
      rw [← not_or, ← owns_iff, ← hid, hown]
      simp
    have hu : Unfinished s.events l.runId := by
      simp only [queueEntry, hq, Option.getD_some, queueStatus_eq_queued] at hst
      exact hst.1
    have hmono : s.rootAdmissions.countP (waits s (q.addRoot l)) ≤
        s.rootAdmissions.countP (waits s q) :=
      waits_of_subset (fun r hr => Or.inl hr)
        (fun r hr => Or.inr (Dict.mem_keys_set.mpr (Or.inr hr)))
    have hset : (q.roots.set l.runId l).entries.length = q.roots.entries.length + 1 :=
      Dict.length_set hnr
    refine { toOwnership := h.toOwnership.addRoot hnt he hq hs hu, active := ?_, waiting := ?_ }
    · simp only [RuntimeScheduler.addRoot]
      omega
    · have hw := h.waiting
      simp only [RuntimeScheduler.addRoot] at hmono ⊢
      omega

end Eventide
