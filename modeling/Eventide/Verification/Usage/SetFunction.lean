import Eventide.Verification.Usage.Rows

/-! # The usage ledger is a function of the set of its events -/

namespace Eventide

open Outcome

section Sorting

/-- Rows with one sort key show one identity. -/
theorem identity_of_sortKey {c d : UsageCall} (h : c.sortKey = d.sortKey) :
    c.identity = d.identity := by
  have hp := Prod.mk.inj (toLex.injective h)
  have hq := Prod.mk.inj (toLex.injective hp.2)
  exact Prod.ext hq.1 hq.2

theorem insertionSort_perm {calls rows : List UsageCall} (hp : calls.Perm rows)
    (hn : (rows.map UsageCall.identity).Nodup) :
    calls.insertionSort (fun a b => a.sortKey ≤ b.sortKey) =
      rows.insertionSort (fun a b => a.sortKey ≤ b.sortKey) := by
  let le := fun a b : UsageCall => a.sortKey ≤ b.sortKey
  have : Std.Total le := ⟨fun a b => le_total a.sortKey b.sortKey⟩
  have : IsTrans UsageCall le := ⟨fun a b c => le_trans⟩
  refine List.Perm.eq_of_pairwise ?_ (List.pairwise_insertionSort le calls)
    (List.pairwise_insertionSort le rows) ?_
  · intro c d hc hd hcd hdc
    have hc : c ∈ rows := hp.mem_iff.mp ((List.perm_insertionSort le calls).mem_iff.mp hc)
    have hd : d ∈ rows := (List.perm_insertionSort le rows).mem_iff.mp hd
    exact List.inj_on_of_nodup_map hn hc hd (identity_of_sortKey (le_antisymm hcd hdc))
  · exact (List.perm_insertionSort le calls).trans
      (hp.trans (List.perm_insertionSort le rows).symm)

theorem sortCalls_perm {calls rows : List UsageCall} (hp : calls.Perm rows)
    (hn : (rows.map UsageCall.identity).Nodup) : sortCalls calls = sortCalls rows := by
  unfold sortCalls
  rw [insertionSort_perm hp hn]
  simp only [hp.mem_iff]

theorem sortCalls_eq_ok {calls rows : List UsageCall} (h : sortCalls rows = .ok calls) :
    calls.Perm rows := by
  simp only [sortCalls, bind_eq_ok, pure_eq_ok, Except.ok.injEq] at h
  obtain ⟨-, -, rfl⟩ := h
  exact List.perm_insertionSort _ rows

end Sorting

section Totals

variable {totals : Dict String ℕ} {field : String}

theorem get?_addCounters {usage : List (String × ℕ)} (hn : (usage.map Prod.fst).Nodup) :
    ((addCounters totals usage).get? field).getD 0 =
      (totals.get? field).getD 0 + (usage.lookup field).getD 0 := by
  induction usage generalizing totals with
  | nil => simp [addCounters]
  | cons c usage ih =>
    obtain ⟨key, n⟩ := c
    obtain ⟨hk, hn⟩ := List.nodup_cons.mp hn
    rw [addCounters, List.foldl_cons, ← addCounters, ih hn, Dict.get?_set, Dict.lookup_cons_eq]
    by_cases hf : field = key
    · subst hf
      simp [Dict.lookup_eq_none_of_not_mem hk]
    · simp [hf]

theorem mem_keys_addCounters {usage : List (String × ℕ)} :
    field ∈ (addCounters totals usage).keys ↔
      field ∈ totals.keys ∨ field ∈ usage.map Prod.fst := by
  induction usage generalizing totals with
  | nil => simp [addCounters]
  | cons c usage ih =>
    rw [addCounters, List.foldl_cons, ← addCounters, ih, Dict.mem_keys_set]
    simp only [List.map_cons, List.mem_cons]
    tauto

/-- The totals are keyed by the counters of the rows, each with the sum over the rows. -/
structure SumsOf (calls : List UsageCall) (totals : Dict String ℕ) : Prop where
  sum : ∀ field, (totals.get? field).getD 0 =
    (calls.map fun c => (c.usage.lookup field).getD 0).sum
  keys : ∀ field, field ∈ totals.keys ↔ ∃ c ∈ calls, field ∈ c.usage.map Prod.fst

theorem totalsOf_sums {calls : List UsageCall} (hw : ∀ c ∈ calls, c.WellFormed) :
    SumsOf calls (totalsOf calls) := by
  induction calls using List.reverseRecOn with
  | nil => exact ⟨fun _ => rfl, fun field => by simp [totalsOf]⟩
  | append_singleton calls c ih =>
    have hs := ih fun d hd => hw d (by simp [hd])
    have ht : totalsOf (calls ++ [c]) = addCounters (totalsOf calls) c.usage := by
      simp [totalsOf]
    constructor
    · intro field
      rw [ht, get?_addCounters (hw c (by simp)).nodup, hs.sum]
      simp
    · intro field
      rw [ht, mem_keys_addCounters, hs.keys]
      simp [or_and_right, exists_or]

end Totals

section Copies

/-- What a row reads off an event. -/
def LedgerEvent.fact (e : LedgerEvent) : Option String × String × Option String × ℤ × Json :=
  (e.workspaceId, e.sessionId, e.runId, e.ts, e.payload)

theorem attemptRow_congr {attemptId : String} {record record' : AttemptRecord}
    (h : ∀ b, (record.slot b).map LedgerEvent.fact = (record'.slot b).map LedgerEvent.fact) :
    attemptRow attemptId record = attemptRow attemptId record' := by
  have hs := h true
  have hf := h false
  obtain ⟨start, finish⟩ := record
  obtain ⟨start', finish'⟩ := record'
  simp only [AttemptRecord.slot, if_true, Bool.false_eq_true, if_false] at hs hf
  -- Both slots are filled on both sides or on neither, with facts that read the same.
  cases start <;> cases start' <;> simp [LedgerEvent.fact] at hs <;>
    cases finish <;> cases finish' <;> simp [LedgerEvent.fact] at hf <;>
    simp [attemptRow, AttemptRecord.checkPair, hs, hf]

variable {events events' : List LedgerEvent} {runs runs' : List (Option String)}

/-- An event of the log is known by its id. -/
def StoreEvents (events : List LedgerEvent) : Prop :=
  ∀ a ∈ events, ∀ b ∈ events, a.eventId = b.eventId → a = b

/-- Copies of one start (one finish) whose payloads compare equal are one fact. -/
def Replayed (events : List LedgerEvent) : Prop :=
  ∀ a ∈ events, ∀ b ∈ events, a.factKey?.isSome → a.factKey? = b.factKey? →
    a.payload.pyEq b.payload = true → a.fact = b.fact

variable (hm : ∀ e, e ∈ events ↔ e ∈ events')

include hm

theorem StoreEvents.of_mem (h : StoreEvents events) : StoreEvents events' :=
  fun a ha b hb => h a ((hm a).mpr ha) b ((hm b).mpr hb)

theorem Replayed.of_mem (h : Replayed events) : Replayed events' :=
  fun a ha b hb => h a ((hm a).mpr ha) b ((hm b).mpr hb)

theorem mem_canonicalEvents (e : LedgerEvent) :
    e ∈ canonicalEvents events ↔ e ∈ canonicalEvents events' := by
  simp only [canonicalEvents, List.mem_filter, hm]

theorem mem_newRuns_iff (run : Option String) : run ∈ newRuns events ↔ run ∈ newRuns events' := by
  simp only [LedgerFold.mem_newRuns, hm]

end Copies

section Runs

variable {runs runs' : List (Option String)} (hr : ∀ run, run ∈ runs ↔ run ∈ runs')

include hr

theorem LedgerEvent.isResponse_congr (e : LedgerEvent) : e.isResponse runs = e.isResponse runs' := by
  simp only [LedgerEvent.isResponse, hr]

theorem LedgerEvent.legacyKey?_congr (e : LedgerEvent) :
    e.legacyKey? runs = e.legacyKey? runs' := by
  simp only [LedgerEvent.legacyKey?, LedgerEvent.isResponse_congr hr]

theorem LedgerEvent.authority?_congr (e : LedgerEvent) :
    e.authority? runs = e.authority? runs' := by
  simp only [LedgerEvent.authority?, LedgerEvent.isResponse_congr hr]

theorem LedgerEvent.valid_congr (e : LedgerEvent) : e.Valid runs ↔ e.Valid runs' := by
  simp only [LedgerEvent.Valid, LedgerEvent.authority?_congr hr, LedgerEvent.legacyKey?_congr hr]

end Runs

namespace LedgerFold

variable {runs runs' : List (Option String)} {events events' : List LedgerEvent}

theorem admissible_congr (hr : ∀ run, run ∈ runs ↔ run ∈ runs')
    (hm : ∀ e, e ∈ events ↔ e ∈ events') :
    Admissible runs events ↔ Admissible runs' events' := by
  simp only [Admissible, hm, LedgerEvent.valid_congr hr]

/-- The first fact of a slot reads the same in both logs. -/
theorem fact_find?_congr (ha : Admissible runs events) (hc : Replayed events)
    (hm : ∀ e, e ∈ events ↔ e ∈ events') (slot : Bool × String × String) :
    (events.find? (·.factKey? = some slot)).map LedgerEvent.fact =
      (events'.find? (·.factKey? = some slot)).map LedgerEvent.fact := by
  cases h : events.find? (·.factKey? = some slot) with
  | none =>
    have hn : events'.find? (·.factKey? = some slot) = none := by
      rw [List.find?_eq_none] at h ⊢
      exact fun e he => h e ((hm e).mpr he)
    rw [hn]
  | some a =>
    cases h' : events'.find? (·.factKey? = some slot) with
    | none =>
      have hf := List.find?_eq_none.mp h' a ((hm a).mp (List.mem_of_find?_eq_some h))
      simp [factKey?_of_find h] at hf
    | some b =>
      have hma := List.mem_of_find?_eq_some h
      have hmb := (hm b).mpr (List.mem_of_find?_eq_some h')
      have hk : a.factKey? = b.factKey? := (factKey?_of_find h).trans (factKey?_of_find h').symm
      have hs : a.factKey?.isSome := by simp [factKey?_of_find h]
      exact congrArg some (hc a hma b hmb hs hk (ha.2 a hma b hmb hs hk))

theorem recordOf_congr (ha : Admissible runs events) (hc : Replayed events)
    (hm : ∀ e, e ∈ events ↔ e ∈ events') (key : String × String) :
    attemptRow key.2 (recordOf events key) = attemptRow key.2 (recordOf events' key) :=
  attemptRow_congr fun b => by simpa using fact_find?_congr ha hc hm (b, key)

theorem legacyOf_congr (hs : StoreEvents events) (hr : ∀ run, run ∈ runs ↔ run ∈ runs')
    (hm : ∀ e, e ∈ events ↔ e ∈ events') (key : String × String) :
    legacyOf runs events key = legacyOf runs' events' key := by
  by_cases h : ∃ e ∈ events, e.legacyKey? runs = some key
  · have h' : ∃ e ∈ events', e.legacyKey? runs' = some key := by
      simpa only [← hm, ← LedgerEvent.legacyKey?_congr hr] using h
    obtain ⟨hma, hka⟩ := legacyOf_spec h
    obtain ⟨hmb, hkb⟩ := legacyOf_spec h'
    obtain ⟨-, -, ha⟩ := LedgerEvent.legacyKey?_eq_some.mp hka
    obtain ⟨-, -, hb⟩ := LedgerEvent.legacyKey?_eq_some.mp hkb
    exact hs _ hma _ ((hm _).mpr hmb) (Prod.mk.inj (ha.symm.trans hb)).2
  · have hn : events.find? (·.legacyKey? runs = some key) = none := by
      rw [List.find?_eq_none]
      exact fun e he hk => h ⟨e, he, by simpa using hk⟩
    have hn' : events'.find? (·.legacyKey? runs' = some key) = none := by
      rw [List.find?_eq_none] at hn ⊢
      intro e he
      rw [← LedgerEvent.legacyKey?_congr hr]
      exact hn e ((hm e).mpr he)
    rw [legacyOf, hn, legacyOf, hn']

/-- Two logs with the same events file the same rows. -/
theorem rows_perm {st st' : LedgerFold} (hf : Filed runs events st) (hf' : Filed runs' events' st')
    (ha : Admissible runs events) (hs : StoreEvents events) (hc : Replayed events)
    (hr : ∀ run, run ∈ runs ↔ run ∈ runs') (hm : ∀ e, e ∈ events ↔ e ∈ events')
    {rows : List UsageCall} (h : st.rows = .ok rows) :
    ∃ rows', st'.rows = .ok rows' ∧ rows'.Perm rows := by
  obtain ⟨attempts, legacy, hat, hle, rfl⟩ := hf.rows_eq_ok.mp h
  have hak : st'.attempts.keys.Perm st.attempts.keys := by
    rw [List.perm_ext_iff_of_nodup st'.attempts.keys_nodup st.attempts.keys_nodup]
    intro key
    simp only [hf.keys, hf'.keys, hm]
  have hlk : st'.legacy.keys.Perm st.legacy.keys := by
    rw [List.perm_ext_iff_of_nodup st'.legacy.keys_nodup st.legacy.keys_nodup]
    intro key
    simp only [hf.legacy_keys, hf'.legacy_keys, hm, LedgerEvent.legacyKey?_congr hr]
  obtain ⟨attempts', hat', hpa⟩ := mapM_perm hak hat
  obtain ⟨legacy', hle', hpl⟩ := mapM_perm hlk hle
  refine ⟨attempts' ++ legacy', hf'.rows_eq_ok.mpr ⟨attempts', legacy', ?_, ?_, rfl⟩, hpa.append hpl⟩
  · simpa only [recordOf_congr ha hc hm] using hat'
  · simpa only [legacyOf_congr hs hr hm] using hle'

theorem foldl_addReference_eq_nil {references authorities : List Json} :
    references.foldl addReference authorities = [] ↔ references = [] ∧ authorities = [] := by
  induction references generalizing authorities with
  | nil => simp
  | cons reference references ih =>
    rw [List.foldl_cons, ih, addReference]
    split
    · rename_i h
      cases authorities with
      | nil => simp at h
      | cons a as => simp
    · simp

theorem referencesOf_eq_nil :
    referencesOf runs events = [] ↔ ∀ e ∈ events, e.authority? runs = none := by
  simp [referencesOf, foldl_addReference_eq_nil, List.filterMap_eq_nil_iff]

end LedgerFold

/-- The same calls, totals, counts and completeness, or an exception on both sides. -/
def SameBilling : Except PyError UsageLedger → Except PyError UsageLedger → Prop
  | .ok ledger, .ok other =>
    ledger.calls = other.calls ∧ ledger.reportedTotals = other.reportedTotals ∧
      ledger.estimatedTotals = other.estimatedTotals ∧
      ledger.attemptCount = other.attemptCount ∧
      ledger.unknownAttempts = other.unknownAttempts ∧
      ledger.incompleteAttempts = other.incompleteAttempts ∧ ledger.complete = other.complete
  | .error _, .error _ => True
  | _, _ => False

/-- What a ledger bills: each attempt once, each run by its attempts or by its responses, and
every total is a sum over the calls with that provenance. -/
structure Accounts (events : List LedgerEvent) (ledger : UsageLedger) : Prop where
  split : ∃ attempts legacy, ledger.calls.Perm (attempts ++ legacy) ∧
    AttemptCalls events attempts ∧ LegacyCalls events legacy
  once : (ledger.calls.map UsageCall.identity).Nodup
  reported : SumsOf (ledger.calls.filter (·.usageSource = "reported")) ledger.reportedTotals
  estimated : SumsOf (ledger.calls.filter (·.usageSource = "estimated")) ledger.estimatedTotals

theorem buildUsageLedger_eq_ok {events : List LedgerEvent} {ledger : UsageLedger} :
    buildUsageLedger events = .ok ledger ↔ ∃ st rows calls,
      (canonicalEvents events).foldlM
        (LedgerFold.step (newRuns (canonicalEvents events))) {} = .ok st ∧
      st.rows = .ok rows ∧ sortCalls rows = .ok calls ∧ ledgerOf st.authorities calls = ledger := by
  simp [buildUsageLedger, bind_eq_ok, select_true]

theorem buildUsageLedger_accounts {events : List LedgerEvent} {ledger : UsageLedger}
    (h : buildUsageLedger events = .ok ledger) : Accounts (canonicalEvents events) ledger := by
  obtain ⟨st, rows, calls, hf, hr, hc, rfl⟩ := buildUsageLedger_eq_ok.mp h
  obtain ⟨attempts, legacy, rfl, ha, hl⟩ := (LedgerFold.fold_filed hf).rows_split hr
  have hp := sortCalls_eq_ok hc
  have hw : ∀ c ∈ calls, c.WellFormed := by
    intro c hc
    rcases List.mem_append.mp (hp.mem_iff.mp hc) with hc | hc
    · exact ha.wellFormed hc
    · exact hl.wellFormed hc
  refine ⟨⟨attempts, legacy, hp, ha, hl⟩, ?_, ?_, ?_⟩
  · exact (hp.map UsageCall.identity).nodup_iff.mpr (ha.nodup_append hl)
  · exact totalsOf_sums fun c hc => hw c (List.mem_of_mem_filter hc)
  · have he : calls.filter (fun call => call.usageSource ≠ "reported" ∧
        call.usageSource ≠ "unknown") = calls.filter (·.usageSource = "estimated") := by
      refine List.filter_congr fun c hc => ?_
      rcases (hw c hc).source with hs | hs | hs <;> simp [hs]
    simp only [ledgerOf, he]
    exact totalsOf_sums fun c hc => hw c (List.mem_of_mem_filter hc)

/-- What one order of the events bills, every other order bills as well. -/
theorem buildUsageLedger_of_mem {events events' : List LedgerEvent} {ledger : UsageLedger}
    (hs : StoreEvents events) (hc : Replayed (canonicalEvents events))
    (hm : ∀ e, e ∈ events ↔ e ∈ events') (h : buildUsageLedger events = .ok ledger) :
    ∃ ledger', buildUsageLedger events' = .ok ledger' ∧ SameBilling (.ok ledger) (.ok ledger') := by
  obtain ⟨st, rows, calls, hf, hr, hcalls, rfl⟩ := buildUsageLedger_eq_ok.mp h
  have hcm := mem_canonicalEvents hm
  have hrun := mem_newRuns_iff hcm
  have hcs : StoreEvents (canonicalEvents events) :=
    fun a ha b hb => hs a (List.mem_of_mem_filter ha) b (List.mem_of_mem_filter hb)
  have hadm := LedgerFold.fold_ok_iff.mp ⟨st, hf⟩
  obtain ⟨st', hf'⟩ := LedgerFold.fold_ok_iff.mpr ((LedgerFold.admissible_congr hrun hcm).mp hadm)
  have hfiled := LedgerFold.fold_filed hf
  have hfiled' := LedgerFold.fold_filed hf'
  obtain ⟨rows', hr', hp⟩ := LedgerFold.rows_perm hfiled hfiled' hadm hcs hc hrun hcm hr
  have hn : (rows.map UsageCall.identity).Nodup := by
    obtain ⟨attempts, legacy, rfl, ha, hl⟩ := hfiled.rows_split hr
    exact ha.nodup_append hl
  have hcalls' : sortCalls rows' = .ok calls := (sortCalls_perm hp hn).trans hcalls
  refine ⟨_, buildUsageLedger_eq_ok.mpr ⟨st', rows', calls, hf', hr', hcalls', rfl⟩, ?_⟩
  have hauth : st.authorities.isEmpty = st'.authorities.isEmpty := by
    rw [Bool.eq_iff_iff, List.isEmpty_iff, List.isEmpty_iff, hfiled.authorities,
      hfiled'.authorities, LedgerFold.referencesOf_eq_nil, LedgerFold.referencesOf_eq_nil]
    simp only [hcm, LedgerEvent.authority?_congr hrun]
  simp [SameBilling, ledgerOf, hauth]

theorem buildUsageLedger_conflict {events : List LedgerEvent} {a b : LedgerEvent}
    (ha : a ∈ canonicalEvents events) (hb : b ∈ canonicalEvents events)
    (hk : a.factKey?.isSome) (hab : a.factKey? = b.factKey?)
    (hp : a.payload.pyEq b.payload = false) : ∃ error, buildUsageLedger events = .error error := by
  cases h : buildUsageLedger events with
  | error error => exact ⟨error, rfl⟩
  | ok ledger =>
    obtain ⟨st, _, _, hf, -⟩ := buildUsageLedger_eq_ok.mp h
    rw [(LedgerFold.fold_ok_iff.mp ⟨st, hf⟩).2 a ha b hb hk hab] at hp
    cases hp

theorem usageLedger_setFunction :
    (∀ events events' : List LedgerEvent, StoreEvents events → Replayed (canonicalEvents events) →
      (∀ e, e ∈ events ↔ e ∈ events') →
      SameBilling (buildUsageLedger events) (buildUsageLedger events')) ∧
    (∀ (events : List LedgerEvent) (ledger : UsageLedger),
      buildUsageLedger events = .ok ledger → Accounts (canonicalEvents events) ledger) ∧
    ∀ (events : List LedgerEvent) (a b : LedgerEvent),
      a ∈ canonicalEvents events → b ∈ canonicalEvents events → a.factKey?.isSome →
      a.factKey? = b.factKey? → a.payload.pyEq b.payload = false →
      ∃ error, buildUsageLedger events = .error error := by
  refine ⟨fun events events' hs hc hm => ?_, fun _ _ => buildUsageLedger_accounts,
    fun _ _ _ => buildUsageLedger_conflict⟩
  cases h : buildUsageLedger events with
  | ok ledger =>
    obtain ⟨ledger', h', hsame⟩ := buildUsageLedger_of_mem hs hc hm h
    rwa [h']
  | error error =>
    cases h' : buildUsageLedger events' with
    | error error' => trivial
    | ok ledger' =>
      have hc' := hc.of_mem (mem_canonicalEvents hm)
      obtain ⟨ledger, hok, -⟩ :=
        buildUsageLedger_of_mem (hs.of_mem hm) hc' (fun e => (hm e).symm) h'
      rw [h] at hok
      cases hok

/-- A start of attempt `"a"` at a time. -/
def startAt (eventId : String) (ts : ℤ) : LedgerEvent where
  eventId
  sessionId := "s"
  sessionSeq := 1
  turnId := none
  runId := some "r"
  ts
  type := .modelAttemptStarted
  role := "system"
  author := "system"
  payload := Json.obj [("attempt_id", .str "a")]

/-- An event of the sample, at the time of its number. -/
def billedEvent (eventId runId : String) (sessionSeq : ℕ) (type : EventType) (payload : Json) :
    LedgerEvent where
  eventId
  sessionId := "s"
  sessionSeq
  turnId := none
  runId := some runId
  ts := sessionSeq
  type
  role := "system"
  author := "system"
  payload

/-- An attempt with its finish, one that is still open, and a response of a run without attempts. -/
def billedEvents : List LedgerEvent :=
  let usage := Json.obj [("input_tokens", .int 7), ("output_tokens", .int 2)]
  [billedEvent "e" "r" 1 .modelAttemptStarted (.obj [("attempt_id", .str "a")]),
   billedEvent "f" "r" 2 .modelAttemptFinished (.obj [("attempt_id", .str "a"),
     ("usage", usage), ("usage_source", .str "reported"), ("status", .str "completed")]),
   billedEvent "g" "r" 3 .modelAttemptStarted (.obj [("attempt_id", .str "b")]),
   billedEvent "h" "q" 1 .modelResponse (.obj [("usage", usage)])]

/-- What a ledger counts: its rows, those without a known usage, and the reported totals. -/
def UsageLedger.figures (ledger : UsageLedger) : ℕ × ℕ × List (String × ℕ) :=
  (ledger.attemptCount, ledger.unknownAttempts, ledger.reportedTotals.entries)

/-- The events in another order, with a copy of each, are billed alike. -/
theorem usageLedger_setFunction_replayed :
    SameBilling (buildUsageLedger billedEvents)
      (buildUsageLedger (billedEvents.reverse ++ billedEvents)) ∧
    (buildUsageLedger billedEvents).toOption.map UsageLedger.figures =
      some (3, 1, [("input_tokens", 14), ("output_tokens", 4)]) := by
  have hstore : StoreEvents billedEvents := by simp [StoreEvents, billedEvents, billedEvent]
  have hkeys : ∀ a ∈ canonicalEvents billedEvents, ∀ b ∈ canonicalEvents billedEvents,
      a.factKey?.isSome → a.factKey? = b.factKey? → a.eventId = b.eventId := by
    decide +kernel
  refine ⟨usageLedger_setFunction.1 _ _ hstore (fun a ha b hb hkey hsame _ => ?_) (by simp),
    by decide +kernel⟩
  rw [hstore a (List.mem_of_mem_filter ha) b (List.mem_of_mem_filter hb)
    (hkeys a ha b hb hkey hsame)]

/-- Of two copies with one payload the first to come dates the row. -/
theorem usageLedger_setFunction_copies_false :
    ¬ ∀ events events' : List LedgerEvent, StoreEvents events → events.Perm events' →
      SameBilling (buildUsageLedger events) (buildUsageLedger events') := by
  intro h
  have hs : StoreEvents [startAt "e" 1, startAt "f" 2] := by simp [StoreEvents, startAt]
  have hsame := h _ [startAt "f" 2, startAt "e" 1] hs (List.Perm.swap _ _ [])
  have h1 : ∃ l, buildUsageLedger [startAt "e" 1, startAt "f" 2] = .ok l ∧
      l.calls.map (·.startedAt) = [1] := ⟨_, rfl, rfl⟩
  have h2 : ∃ l, buildUsageLedger [startAt "f" 2, startAt "e" 1] = .ok l ∧
      l.calls.map (·.startedAt) = [2] := ⟨_, rfl, rfl⟩
  obtain ⟨l, hl, hts⟩ := h1
  obtain ⟨l', hl', hts'⟩ := h2
  rw [hl, hl'] at hsame
  rw [hsame.1, hts'] at hts
  exact absurd hts (by decide)

end Eventide
