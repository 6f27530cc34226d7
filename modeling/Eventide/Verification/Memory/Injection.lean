import Eventide.Verification.Memory.Snapshot

/-! # What the requests of a run are given

Operations of any session run between any two steps of the request: the context is built, the
budget is reserved for a text, and a text goes to the provider. -/

namespace Eventide.Memory

open Outcome Versions

section Context

variable {facts more : List Fact} {refs : List Ref} {ref : Ref} {r old : Record}
  {allowed : Option (List String)} {p : Ref × Record}

/-- The revision that a reference names, as the log holds it. -/
def revision? (facts : List Fact) (ref : Ref) : Option Record :=
  (revisionsOf facts ref.id).find? (·.revision = ref.revision)

theorem original?_eq_some : original? facts allowed ref = some r ↔
    (∀ ids, allowed = some ids → ref.id ∈ ids) ∧ withdrawn facts ref = false ∧
      revision? facts ref = some r := by
  cases allowed with
  | none => cases hw : withdrawn facts ref <;> simp [original?, revision?, hw]
  | some ids =>
    by_cases hm : ref.id ∈ ids
    · cases hw : withdrawn facts ref <;> simp [original?, revision?, hw, hm]
    · simp [original?, hm]

theorem mem_injectedOf : p ∈ injectedOf facts refs allowed ↔
    (fold facts).settings.enabled = true ∧ p.1 ∈ refs ∧ original? facts allowed p.1 = some p.2 := by
  unfold injectedOf
  by_cases he : (fold facts).settings.enabled = true
  · rw [if_pos he, List.mem_filterMap]
    constructor
    · rintro ⟨ref, hr, hp⟩
      obtain ⟨rec, ho, rfl⟩ := Option.map_eq_some_iff.mp hp
      exact ⟨he, hr, ho⟩
    · rintro ⟨-, hr, ho⟩
      exact ⟨p.1, hr, by rw [ho]; rfl⟩
  · simp [he]

theorem revision?_mem (h : revision? facts ref = some r) :
    r ∈ recordsOf facts ∧ r.id = ref.id ∧ r.revision = ref.revision := by
  have hm := List.mem_filter.mp (List.mem_of_find?_eq_some h)
  exact ⟨hm.1, by simpa using hm.2, by simpa using List.find?_some h⟩

theorem recordsOf_append : recordsOf (facts ++ more) = recordsOf facts ++ recordsOf more :=
  List.filterMap_append ..

/-- A revision that the log holds stays what it is. -/
theorem revision?_append (h : revision? facts ref = some r) :
    revision? (facts ++ more) ref = some r := by
  unfold revision? revisionsOf at *
  rw [recordsOf_append, List.filter_append, List.find?_append, h]
  rfl

theorem revision?_isSome (h : r ∈ recordsOf facts) (hr : r.ref = ref) :
    (revision? facts ref).isSome := by
  subst hr
  rw [revision?, List.find?_isSome]
  exact ⟨r, by simp [revisionsOf, h, Record.ref], by simp [Record.ref]⟩

theorem not_withdrawn (h : withdrawn facts ref = false) : ∀ r ∈ recordsOf facts, r.id = ref.id →
    ref.revision ≤ r.revision → r.status = .active := by
  simp only [withdrawn, Bool.decide_or, Bool.or_eq_false_iff, decide_eq_false_iff_not,
    List.any_eq_true, not_exists, not_and] at h
  intro r hm hid hle
  by_contra hs
  exact h.2 r (by simp [revisionsOf, hm, hid]) (by simp [hle, hs])

/-- An edit that keeps the status of a preference withdraws nothing and brings nothing back. -/
theorem withdrawn_edit (hn : NextRecord facts old r) (hs : r.status = old.status) :
    withdrawn (facts ++ [.record r]) ref = withdrawn facts ref := by
  have hlatest : (fold facts).memories.get? r.id = some old := (get?_memories _ _).trans hn.latest
  have hrevisions : revisionsOf (facts ++ [.record r]) ref.id =
      revisionsOf facts ref.id ++ [r].filter (·.id = ref.id) := by
    rw [revisionsOf, recordsOf_concat_record, List.filter_append]
    rfl
  unfold withdrawn
  rw [hrevisions, fold_concat, List.any_append]
  by_cases hid : r.id = ref.id
  · simp only [State.step, ← hid, Dict.get?_set_self, hlatest, Option.all_some, hs]
    by_cases ha : old.status = .active <;> simp [ha, hs]
  · have hne : ref.id ≠ r.id := fun h => hid h.symm
    simp [State.step, hid, hne]

theorem original?_edit (hn : NextRecord facts old r) (hs : r.status = old.status)
    (hr : (revision? facts ref).isSome) :
    original? (facts ++ [.record r]) allowed ref = original? facts allowed ref := by
  obtain ⟨rec, hrec⟩ := Option.isSome_iff_exists.mp hr
  have hkept : (revisionsOf (facts ++ [.record r]) ref.id).find? (·.revision = ref.revision) =
      (revisionsOf facts ref.id).find? (·.revision = ref.revision) :=
    (revision?_append hrec).trans hrec.symm
  unfold original?
  rw [withdrawn_edit hn hs, hkept]

theorem injectedOf_edit (hn : NextRecord facts old r) (hs : r.status = old.status)
    (hr : ∀ ref ∈ refs, (revision? facts ref).isSome) :
    injectedOf (facts ++ [.record r]) refs allowed = injectedOf facts refs allowed := by
  have hentries : refs.filterMap (fun ref =>
        (original? (facts ++ [.record r]) allowed ref).map (ref, ·)) =
      refs.filterMap fun ref => (original? facts allowed ref).map (ref, ·) :=
    List.filterMap_congr fun ref hm => by rw [original?_edit hn hs (hr ref hm)]
  rw [injectedOf, injectedOf, fold_concat, hentries]
  rfl

/-- A content edit appends the next revision, with the status that it had. -/
theorem mutate_content {env : MemoryEnv} {target : Option String} {expected : ℕ}
    {content : Option String} {reply : Reply}
    (h : mutate env facts (.edit false target expected content none) = .ok (reply, more)) :
    ∃ old r, NextRecord facts old r ∧ r.status = old.status ∧ more = [.record r] := by
  obtain ⟨record, -, h⟩ := bind_eq_ok.mp h
  simp only [chooseMutation] at h
  split at h
  · cases h
  · next old hfind =>
    simp only [bind_eq_ok, pure_eq_ok, Except.ok.injEq, Prod.mk.injEq, raiseIf_eq_ok] at h
    obtain ⟨_, -, _, hs, r, hr, -, rfl⟩ := h
    refine ⟨old, r, edited_ok (find_memories hfind) hs hr, ?_, rfl⟩
    obtain ⟨next, -, rfl⟩ := map_eq_ok.mp hr
    rfl

end Context

/-! ## The steps of a run's requests -/

/-- A text that a request was given, with the log at that moment; `reserved` is the text that
the budget of a dispatched request was reserved for. -/
structure Put where
  facts : List Fact
  snapshot : Option (List Ref)
  taken : List Fact
  injection : Injection
  reserved : Option Injection

/-- The log, the run's snapshot, the log that it was taken from, and the request at hand. -/
structure RequestState where
  facts : List Fact
  snapshot : Option (List Ref) := none
  taken : List Fact := []
  built : Option Injection := none
  reserved : Option Injection := none
  puts : List Put := []

def RequestState.put (st : RequestState) (injection : Injection)
    (reserved : Option Injection := none) : List Put :=
  st.puts ++ [{ facts := st.facts, snapshot := st.snapshot, taken := st.taken, injection, reserved }]

section Requests

variable (switches : RunSwitches) (dumps : Json → String) (projectId : String)

/-- The states of a run's requests, between the operations of anyone. -/
inductive RequestReached : RequestState → Prop
  | start {facts : List Fact} : Reached facts → RequestReached { facts }
  | operate {st : RequestState} {facts' : List Fact} : RequestReached st →
      Operates st.facts facts' → RequestReached { st with facts := facts' }
  | snapshot {st : RequestState} : RequestReached st → RequestReached
      { st with
        snapshot := takeSnapshot switches st.facts st.snapshot (some projectId)
        taken := if st.snapshot.isSome then st.taken else st.facts }
  | build {st : RequestState} {built : Injection} : RequestReached st →
      context switches dumps st.facts st.snapshot none = built →
      RequestReached { st with built := some built, reserved := none, puts := st.put built }
  | reserve {st : RequestState} {built reserved : Injection} : RequestReached st →
      st.built = some built →
      reserveText switches dumps st.facts st.snapshot built = reserved →
      RequestReached { st with reserved := some reserved, puts := st.put reserved }
  | dispatch {st : RequestState} {reserved sent : Injection} : RequestReached st →
      st.reserved = some reserved →
      dispatchText switches dumps st.facts st.snapshot reserved = sent →
      RequestReached { st with puts := st.put sent (some reserved) }

/-- A content edit leaves the text of every request as it is. -/
def EditProof (facts : List Fact) (snapshot : Option (List Ref)) : Prop :=
  ∀ env target expected content reply more,
    mutate env facts (.edit false target expected content none) = .ok (reply, more) →
    ∀ allowed, context switches dumps (facts ++ more) snapshot allowed =
      context switches dumps facts snapshot allowed

/-- What holds of a text that a request is given. -/
structure PutLaws (put : Put) : Prop where
  text : put.injection.text = promptOf dumps (put.injection.entries.map fun p => p.2.entry)
  snapshotted : ∀ p ∈ put.injection.entries, p.1 ∈ put.snapshot.getD [] ∧
    p.2 ∈ recordsOf put.facts ∧ p.2.id = p.1.id ∧ p.2.revision = p.1.revision
  active : ∀ p ∈ put.injection.entries, ∀ r ∈ recordsOf put.facts, r.id = p.1.id →
    p.1.revision ≤ r.revision → r.status = .active
  disabled : (fold put.facts).settings.enabled = false → put.injection.text = ""
  one_per_key : (put.injection.entries.map (·.2.key)).Nodup
  project : ∀ p ∈ put.injection.entries, ∀ r ∈ (fold put.taken).memories.values,
    r.status = .active → r.scope = .project → r.projectId = some projectId →
    r.key = p.2.key → p.1 = r.ref
  reserved : ∀ reserved, put.reserved = some reserved →
    ∀ p ∈ put.injection.entries, p ∈ reserved.entries

/-- A snapshot was taken from a log that the present one continues. -/
def Taken (facts taken : List Fact) (snapshot : Option (List Ref)) : Prop :=
  ∀ refs, snapshot = some refs → MemoryInvariant taken ∧ taken <+: facts ∧
    refs = snapshotRefs taken (some projectId)

/-- A text made earlier in the run, in the terms of the present log. -/
structure Carried (facts : List Fact) (snapshot : Option (List Ref)) (injection : Injection) :
    Prop where
  text : injection.text = promptOf dumps (injection.entries.map fun p => p.2.entry)
  kept : ∀ p ∈ injection.entries, p.1 ∈ snapshot.getD [] ∧ revision? facts p.1 = some p.2
  quiet : switches.readonly = true ∨ switches.enabled = false → injection.entries = []

structure RequestInvariant (st : RequestState) : Prop where
  log : MemoryInvariant st.facts
  taken : Taken projectId st.facts st.taken st.snapshot
  readonly : switches.readonly = true → st.snapshot = none
  built : ∀ b, st.built = some b → Carried switches dumps st.facts st.snapshot b
  reserved : ∀ b, st.reserved = some b → Carried switches dumps st.facts st.snapshot b
  puts : ∀ put ∈ st.puts, PutLaws dumps projectId put

variable {switches dumps projectId} {facts taken : List Fact} {snapshot : Option (List Ref)}
  {allowed : Option (List String)} {injection reserved : Injection} {st : RequestState}

theorem Taken.recorded (ht : Taken projectId facts taken snapshot) {ref : Ref}
    (hr : ref ∈ snapshot.getD []) : ∃ r ∈ recordsOf facts, r.ref = ref := by
  cases snapshot with
  | none => simp at hr
  | some refs =>
    obtain ⟨-, ⟨back, rfl⟩, rfl⟩ := ht refs rfl
    obtain ⟨r, hm, he⟩ := snapshotRefs_recorded hr
    exact ⟨r, by rw [recordsOf_append]; exact List.mem_append_left _ hm, he⟩

theorem Taken.editProof (ht : Taken projectId facts taken snapshot) :
    EditProof switches dumps facts snapshot := by
  intro env target expected content reply more h allowed
  obtain ⟨old, r, hn, hs, rfl⟩ := mutate_content h
  have hkept : injectedOf (facts ++ [.record r]) (snapshot.getD []) allowed =
      injectedOf facts (snapshot.getD []) allowed := injectedOf_edit hn hs fun ref hr => by
    obtain ⟨rec, hm, he⟩ := ht.recorded hr
    exact revision?_isSome hm he
  simp only [context, hkept]

/-- A key belongs to all revisions of a preference. -/
theorem Taken.key_eq (hi : MemoryInvariant facts) (ht : Taken projectId facts taken snapshot)
    {ref : Ref} {r : Record} (hr : ref ∈ snapshot.getD []) (hm : r ∈ recordsOf facts)
    (hid : r.id = ref.id) : r.key = ref.key := by
  obtain ⟨rec, hrec, rfl⟩ := ht.recorded hr
  have hslot := hi.sameSlot r hm rec hrec hid
  exact congrArg (fun slot => slot.2.2) hslot

theorem mem_context {p : Ref × Record}
    (h : p ∈ (context switches dumps facts snapshot allowed).entries) :
    switches.enabled = true ∧ p ∈ injectedOf facts (snapshot.getD []) allowed := by
  unfold context at h
  split at h
  · exact ⟨‹_›, h⟩
  · simp at h

theorem context_text : (context switches dumps facts snapshot allowed).text =
    promptOf dumps ((context switches dumps facts snapshot allowed).entries.map
      fun p => p.2.entry) := by
  unfold context
  split <;> simp [promptOf]

theorem context_carried (hr : switches.readonly = true → snapshot = none) :
    Carried switches dumps facts snapshot (context switches dumps facts snapshot allowed) := by
  refine ⟨context_text, fun p hp => ?_, fun hq => ?_⟩
  · obtain ⟨-, -, hm, ho⟩ := (mem_context hp).imp_right mem_injectedOf.mp
    exact ⟨hm, (original?_eq_some.mp ho).2.2⟩
  · rw [List.eq_nil_iff_forall_not_mem]
    intro p hp
    obtain ⟨he, hm⟩ := mem_context hp
    rcases hq with hread | hoff
    · have hrefs := (mem_injectedOf.mp hm).2.1
      simp [hr hread] at hrefs
    · simp [he] at hoff

/-- The keys of the entries are those of their references, in the order of the snapshot. -/
theorem context_keys (hi : MemoryInvariant facts) (ht : Taken projectId facts taken snapshot) :
    ((context switches dumps facts snapshot allowed).entries.map (·.2.key)).Nodup := by
  have hkeys : (context switches dumps facts snapshot allowed).entries.map (·.2.key) =
      ((context switches dumps facts snapshot allowed).entries.map Prod.fst).map (·.key) := by
    rw [List.map_map]
    refine List.map_congr_left fun p hp => ?_
    obtain ⟨-, -, hm, ho⟩ := (mem_context hp).imp_right mem_injectedOf.mp
    obtain ⟨hrec, hid, -⟩ := revision?_mem (original?_eq_some.mp ho).2.2
    exact ht.key_eq hi hm hrec hid
  have hsub : ((context switches dumps facts snapshot allowed).entries.map Prod.fst).Sublist
      (snapshot.getD []) := by
    unfold context injectedOf
    split
    · split
      · exact Sequence.map_fst_filterMap_sublist _ _
      · exact List.nil_sublist _
    · exact List.nil_sublist _
  rw [hkeys]
  refine List.Nodup.sublist (hsub.map _) ?_
  cases snapshot with
  | none => exact List.nodup_nil
  | some refs =>
    obtain ⟨-, -, rfl⟩ := ht refs rfl
    exact snapshotRefs_keys_nodup

/-- A text made now meets every law, except that a reservation is another matter. -/
theorem context_laws {budget : Option Injection} (hi : MemoryInvariant facts)
    (ht : Taken projectId facts taken snapshot) (hb : ∀ b, budget = some b →
      ∀ p ∈ (context switches dumps facts snapshot allowed).entries, p ∈ b.entries) :
    PutLaws dumps projectId ⟨facts, snapshot, taken,
      context switches dumps facts snapshot allowed, budget⟩ where
  text := context_text
  snapshotted := by
    intro p hp
    obtain ⟨-, -, hm, ho⟩ := (mem_context hp).imp_right mem_injectedOf.mp
    exact ⟨hm, revision?_mem (original?_eq_some.mp ho).2.2⟩
  active := by
    intro p hp
    obtain ⟨-, -, -, ho⟩ := (mem_context hp).imp_right mem_injectedOf.mp
    exact not_withdrawn (original?_eq_some.mp ho).2.1
  disabled := by
    intro hoff
    have hnone : (context switches dumps facts snapshot allowed).entries = [] := by
      rw [List.eq_nil_iff_forall_not_mem]
      intro p hp
      have hon := (mem_injectedOf.mp (mem_context hp).2).1
      have hoff' : (fold facts).settings.enabled = false := hoff
      simp [hoff'] at hon
    exact context_text.trans (by rw [hnone]; rfl)
  one_per_key := context_keys hi ht
  project := by
    intro p hp r hr hs hscope hproject hkey
    obtain ⟨-, -, hm, ho⟩ := (mem_context hp).imp_right mem_injectedOf.mp
    obtain ⟨hrec, hid, -⟩ := revision?_mem (original?_eq_some.mp ho).2.2
    have hk : r.key = p.1.key := hkey.trans (ht.key_eq hi hm hrec hid)
    cases snapshot with
    | none => simp at hm
    | some refs =>
      obtain ⟨htaken, -, rfl⟩ := ht refs rfl
      obtain ⟨chosen, hchosen, he⟩ := mem_snapshotRefs hm
      have hkc : r.key = chosen.key := hk.trans (by rw [← he]; rfl)
      rw [← he, selected_project htaken hchosen (mem_memories.mp hr) hs hscope hproject hkc]
  reserved := hb

/-- A text without preferences meets every law. -/
theorem empty_laws {budget : Option Injection} (htext : injection.text =
      promptOf dumps (injection.entries.map fun p => p.2.entry)) (he : injection.entries = []) :
    PutLaws dumps projectId ⟨facts, snapshot, taken, injection, budget⟩ where
  text := htext
  snapshotted := by simp [he]
  active := by simp [he]
  disabled := fun _ => htext.trans (by rw [he]; rfl)
  one_per_key := by simp [he]
  project := by simp [he]
  reserved := by simp [he]

/-- What was allowed by a text that the run has made before was in that text. -/
theorem context_allowed (hi : Carried switches dumps facts snapshot reserved)
    (ht : Taken projectId facts taken snapshot) :
    ∀ p ∈ (context switches dumps facts snapshot (some reserved.ids)).entries,
      p ∈ reserved.entries := by
  intro p hp
  obtain ⟨-, -, hm, ho⟩ := (mem_context hp).imp_right mem_injectedOf.mp
  obtain ⟨hallowed, -, hrev⟩ := original?_eq_some.mp ho
  obtain ⟨q, hq, hid⟩ := List.mem_map.mp (hallowed _ rfl)
  obtain ⟨hqm, hqrev⟩ := hi.kept q hq
  have hsame : q.1 = p.1 := by
    cases snapshot with
    | none => simp at hm
    | some refs =>
      obtain ⟨-, -, rfl⟩ := ht refs rfl
      exact snapshotRefs_id hqm hm hid
  rw [hsame, hrev] at hqrev
  have hpq : p = q := Prod.ext hsame.symm (Option.some.inj hqrev)
  exact hpq ▸ hq

theorem Carried.append {more : List Fact} (h : Carried switches dumps facts snapshot injection) :
    Carried switches dumps (facts ++ more) snapshot injection :=
  ⟨h.text, fun p hp => (h.kept p hp).imp_right revision?_append, h.quiet⟩

theorem Carried.snapshotted {projectId : Option String}
    (h : Carried switches dumps facts snapshot injection) :
    Carried switches dumps facts (takeSnapshot switches facts snapshot projectId) injection := by
  refine ⟨h.text, fun p hp => ?_, h.quiet⟩
  obtain ⟨hm, hr⟩ := h.kept p hp
  cases snapshot with
  | none => simp at hm
  | some refs =>
    refine ⟨?_, hr⟩
    unfold takeSnapshot
    split <;> exact hm

namespace RequestInvariant

theorem put_laws {put : Put} (h : RequestInvariant switches dumps projectId st)
    (hp : PutLaws dumps projectId put) : ∀ other ∈ st.puts ++ [put], PutLaws dumps projectId other := by
  intro other ho
  rcases List.mem_append.mp ho with ho | ho
  · exact h.puts other ho
  · exact List.mem_singleton.mp ho ▸ hp

theorem operate {facts' : List Fact} (h : RequestInvariant switches dumps projectId st)
    (ho : Operates st.facts facts') :
    RequestInvariant switches dumps projectId { st with facts := facts' } := by
  obtain ⟨more, ha, rfl⟩ := ho.appends
  refine ⟨h.log.appends ha, fun refs hrefs => ?_, h.readonly, fun b hb => (h.built b hb).append,
    fun b hb => (h.reserved b hb).append, h.puts⟩
  obtain ⟨hi, hpre, he⟩ := h.taken refs hrefs
  exact ⟨hi, hpre.trans (List.prefix_append _ _), he⟩

theorem snapshotted (h : RequestInvariant switches dumps projectId st) :
    RequestInvariant switches dumps projectId { st with
      snapshot := takeSnapshot switches st.facts st.snapshot (some projectId)
      taken := if st.snapshot.isSome then st.taken else st.facts } := by
  refine ⟨h.log, fun refs hrefs => ?_, fun hread => ?_, fun b hb => (h.built b hb).snapshotted,
    fun b hb => (h.reserved b hb).snapshotted, h.puts⟩
  · cases hs : st.snapshot with
    | none =>
      simp only [takeSnapshot, hs] at hrefs
      split at hrefs
      · cases hrefs
      · exact ⟨h.log, List.prefix_rfl, (Option.some.inj hrefs).symm⟩
    | some old =>
      have hold : some old = some refs := by
        rw [← hrefs]
        simp only [takeSnapshot, hs, ite_self]
      exact h.taken refs (hs.trans hold)
  · simp [takeSnapshot, hread, h.readonly hread]

theorem build {built : Injection} (h : RequestInvariant switches dumps projectId st)
    (hb : context switches dumps st.facts st.snapshot none = built) :
    RequestInvariant switches dumps projectId
      { st with built := some built, reserved := none, puts := st.put built } := by
  subst hb
  refine ⟨h.log, h.taken, h.readonly, fun b hb => ?_, by simp,
    h.put_laws (context_laws h.log h.taken (by simp))⟩
  obtain rfl := Option.some.inj hb
  exact context_carried h.readonly

theorem reserve {built reserved : Injection} (h : RequestInvariant switches dumps projectId st)
    (hb : st.built = some built)
    (hr : reserveText switches dumps st.facts st.snapshot built = reserved) :
    RequestInvariant switches dumps projectId
      { st with reserved := some reserved, puts := st.put reserved } := by
  have hbuilt := h.built built hb
  have hboth : Carried switches dumps st.facts st.snapshot reserved ∧
      PutLaws dumps projectId ⟨st.facts, st.snapshot, st.taken, reserved, none⟩ := by
    unfold reserveText at hr
    split at hr
    · subst hr
      exact ⟨hbuilt, empty_laws hbuilt.text (hbuilt.quiet (Or.inl ‹_›))⟩
    · subst hr
      exact ⟨context_carried h.readonly, context_laws h.log h.taken (by simp)⟩
  refine ⟨h.log, h.taken, h.readonly, h.built, fun b hb => ?_, h.put_laws hboth.2⟩
  obtain rfl := Option.some.inj hb
  exact hboth.1

theorem dispatch {reserved sent : Injection} (h : RequestInvariant switches dumps projectId st)
    (hr : st.reserved = some reserved)
    (hs : dispatchText switches dumps st.facts st.snapshot reserved = sent) :
    RequestInvariant switches dumps projectId { st with puts := st.put sent (some reserved) } := by
  have hcarried := h.reserved reserved hr
  refine ⟨h.log, h.taken, h.readonly, h.built, h.reserved, h.put_laws ?_⟩
  unfold dispatchText at hs
  split at hs
  · next hquiet =>
    subst hs
    exact empty_laws hcarried.text (hcarried.quiet (by simpa using hquiet))
  · subst hs
    refine context_laws h.log h.taken fun b hb => ?_
    obtain rfl := Option.some.inj hb
    exact context_allowed hcarried h.taken

end RequestInvariant

theorem RequestReached.invariant (h : RequestReached switches dumps projectId st) :
    RequestInvariant switches dumps projectId st := by
  induction h with
  | start hr => exact ⟨hr.invariant, by simp [Taken], fun _ => rfl, by simp, by simp, by simp⟩
  | operate _ ho ih => exact ih.operate ho
  | snapshot _ ih => exact ih.snapshotted
  | build _ hb ih => exact ih.build hb
  | reserve _ hb hr ih => exact ih.reserve hb hr
  | dispatch _ hr hs ih => exact ih.dispatch hr hs

/-- What a run's requests are given, in every interleaving with operations on the memory. -/
theorem preference_injection (h : RequestReached switches dumps projectId st) :
    (∀ put ∈ st.puts, PutLaws dumps projectId put) ∧ EditProof switches dumps st.facts st.snapshot :=
  ⟨h.invariant.puts, h.invariant.taken.editProof⟩

end Requests

/-! ## A request among changes of its preferences -/

def draft (key content : String) : Draft := { scope := .global, projectId := none, key, content }

def notedFacts : List Fact :=
  changed (changed [] "1" (.create (draft "style" "terse"))) "2" (.create (draft "tone" "kind"))

/-- The first preference is rewritten. -/
def rewrittenFacts : List Fact :=
  changed notedFacts "3" (.edit false (some "mem_1") 1 (some "wordy") none)

/-- The second one is paused. -/
def pausedFacts : List Fact :=
  changed rewrittenFacts "4" (.edit false (some "mem_2") 1 none (some .paused))

theorem notedFacts_reached : Reached notedFacts := by
  have hfirst : Reached (changed [] "1" (.create (draft "style" "terse"))) :=
    Reached.start.changed _ ⟨by decide, by decide⟩
  exact hfirst.changed _ ⟨by decide +kernel, by decide +kernel⟩

theorem snapshotRefs_notedFacts :
    snapshotRefs notedFacts (some "p") = (recordsOf notedFacts).map Record.ref := by
  have hselected : (selected notedFacts (some "p")).values = recordsOf notedFacts := by
    rw [selected, List.mergeSort_of_pairwise (by decide +kernel)]
    decide +kernel
  rw [snapshotRefs, hselected, List.mergeSort_of_pairwise (by decide +kernel)]
  decide +kernel

/-- One is rewritten before the request is built, which keeps its old text; the other is paused
after the reservation, and does not go to the provider. -/
theorem preference_injection_sample : ∃ st : RequestState,
    st.puts.map (·.injection.entries.map (·.2.content)) =
      [["terse", "kind"], ["terse", "kind"], ["terse"]] ∧
    ∀ put ∈ st.puts, PutLaws (fun _ => "") "p" put := by
  have hstart : RequestReached ⟨true, false, false⟩ (fun _ => "") "p" { facts := notedFacts } :=
    .start notedFacts_reached
  have hsnapshot := hstart.snapshot
  simp only [takeSnapshot, snapshotRefs_notedFacts] at hsnapshot
  have hthird : Fresh (sampleEnv "3") notedFacts := ⟨by decide +kernel, by decide +kernel⟩
  have hfourth : Fresh (sampleEnv "4") rewrittenFacts := ⟨by decide +kernel, by decide +kernel⟩
  have hrewrite : Operates notedFacts rewrittenFacts := Operates.changed _ hthird
  have hpause : Operates rewrittenFacts pausedFacts := Operates.changed _ hfourth
  have hreserved := ((hsnapshot.operate hrewrite).build rfl).reserve rfl rfl
  have hsent := (hreserved.operate hpause).dispatch rfl rfl
  exact ⟨_, by decide +kernel, (preference_injection hsent).1⟩

end Eventide.Memory
