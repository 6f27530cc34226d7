import Eventide.Library.Versions
import Eventide.Model.Memory

/-! # What an operation of the preference memory appends -/

namespace Eventide.Memory

open Outcome RuntimeStore Versions

/-! ## The folded state and the log -/

section Fold

variable {facts : List Fact} {fact : Fact} {r : Record} {id : String}

theorem fold_concat : fold (facts ++ [fact]) = (fold facts).step fact := by simp [fold]

@[simp] theorem recordsOf_concat_record :
    recordsOf (facts ++ [.record r]) = recordsOf facts ++ [r] := by
  simp [recordsOf, Fact.record?]

@[simp] theorem suggestionsOf_concat_suggestion :
    suggestionsOf (facts ++ [.suggestion r]) = suggestionsOf facts ++ [r] := by
  simp [suggestionsOf, Fact.suggestion?]

theorem recordsOf_concat_of_none (h : fact.record? = none) :
    recordsOf (facts ++ [fact]) = recordsOf facts := by
  simp [recordsOf, h]

theorem suggestionsOf_concat_of_none (h : fact.suggestion? = none) :
    suggestionsOf (facts ++ [fact]) = suggestionsOf facts := by
  simp [suggestionsOf, h]

@[simp] theorem recordsOf_concat_suggestion :
    recordsOf (facts ++ [.suggestion r]) = recordsOf facts := recordsOf_concat_of_none rfl

@[simp] theorem suggestionsOf_concat_record :
    suggestionsOf (facts ++ [.record r]) = suggestionsOf facts := suggestionsOf_concat_of_none rfl

/-- The latest record of a preference. -/
abbrev record? (facts : List Fact) (id : String) : Option Record :=
  latest? Record.id (recordsOf facts) id

abbrev suggestion? (facts : List Fact) (id : String) : Option Record :=
  latest? Record.id (suggestionsOf facts) id

/-- A folded preference is the last record of its id. -/
theorem get?_memories (facts : List Fact) (id : String) :
    (fold facts).memories.get? id = record? facts id := by
  induction facts using List.reverseRecOn with
  | nil => rfl
  | append_singleton facts fact ih =>
    rw [fold_concat]
    cases fact with
    | record r =>
      simp only [record?, State.step, Dict.get?_set, ih, recordsOf_concat_record, latest?_concat,
        eq_comm]
    | _ => exact ih.trans (congrArg (latest? Record.id · id) (recordsOf_concat_of_none rfl).symm)

theorem get?_suggestions (facts : List Fact) (id : String) :
    (fold facts).suggestions.get? id = suggestion? facts id := by
  induction facts using List.reverseRecOn with
  | nil => rfl
  | append_singleton facts fact ih =>
    rw [fold_concat]
    cases fact with
    | suggestion r =>
      simp only [suggestion?, State.step, Dict.get?_set, ih, suggestionsOf_concat_suggestion,
        latest?_concat, eq_comm]
    | _ => exact ih.trans (congrArg (latest? Record.id · id) (suggestionsOf_concat_of_none rfl).symm)

theorem mem_memories : r ∈ (fold facts).memories.values ↔ record? facts r.id = some r := by
  rw [Dict.mem_values]
  constructor
  · rintro ⟨k, hk⟩
    rw [get?_memories] at hk
    obtain ⟨-, rfl⟩ := latest?_mem _ hk
    exact hk
  · intro h
    exact ⟨r.id, by rw [get?_memories, h]⟩

theorem find_memories {target : Option String} (h : find (fold facts).memories target = some r) :
    record? facts r.id = some r :=
  mem_memories.mp (List.mem_of_find?_eq_some h)

theorem find_suggestions {target : Option String}
    (h : find (fold facts).suggestions target = some r) : suggestion? facts r.id = some r := by
  obtain ⟨k, hk⟩ := Dict.mem_values.mp (List.mem_of_find?_eq_some h)
  rw [get?_suggestions] at hk
  obtain ⟨-, rfl⟩ := latest?_mem _ hk
  exact hk

end Fold

/-! ## One operation -/

/-- The ids that `uuid4` draws are new. -/
structure Fresh (env : MemoryEnv) (facts : List Fact) : Prop where
  record : ∀ r ∈ recordsOf facts, r.id ≠ "mem_" ++ env.recordUuid
  suggestion : ∀ r ∈ suggestionsOf facts, r.id ≠ "suggestion_" ++ env.suggestionUuid

/-- No record and no suggestion has used a message of the source. -/
def Unused (facts : List Fact) (source : Source) : Prop :=
  ∀ fact ∈ facts, ∀ e ∈ source.eventIds, e ∉ fact.sourceIds

/-- The first revision of a preference that no other one contradicts. -/
structure NewRecord (facts : List Fact) (r : Record) : Prop where
  fresh : ∀ other ∈ recordsOf facts, other.id ≠ r.id
  first : r.revision = 1
  free : ∀ other, record? facts other.id = some other → other.status ≠ .revoked →
    other.slot ≠ r.slot
  known : ∀ name, r.scope ≠ .other name

theorem NewRecord.observed {facts : List Fact} {r : Record} (h : NewRecord facts r) (seen : Seen) :
    NewRecord (facts ++ [.observed seen]) r := by
  have hrecords : recordsOf (facts ++ [.observed seen]) = recordsOf facts :=
    recordsOf_concat_of_none rfl
  exact ⟨by rw [hrecords]; exact h.fresh, h.first, by simpa only [record?, hrecords] using h.free,
    h.known⟩

theorem Unused.observed {facts : List Fact} {source : Source} (h : Unused facts source)
    (seen : Seen) : Unused (facts ++ [.observed seen]) source := by
  intro fact hm e he
  rcases List.mem_append.mp hm with hm | hm
  · exact h fact hm e he
  · rw [List.mem_singleton.mp hm]
    simp [Fact.sourceIds]

/-- The next revision of a preference that is not revoked. -/
structure NextRecord (facts : List Fact) (old r : Record) : Prop where
  latest : record? facts r.id = some old
  next : r.revision = old.revision + 1
  alive : old.status ≠ .revoked
  slot : r.slot = old.slot
  sources : ∀ e ∈ r.source.eventIds, e ∈ old.source.eventIds

/-- The answer to a pending suggestion. -/
structure Resolution (facts : List Fact) (old r : Record) : Prop where
  latest : suggestion? facts r.id = some old
  next : r.revision = old.revision + 1
  pending : old.status = .pending
  settled : r.status ≠ .pending
  source : r.source = old.source

/-- Everything that one operation can append. -/
inductive Appends (facts : List Fact) : List Fact → Prop
  | nothing : Appends facts []
  | settings (settings : Settings) : Appends facts [.settings settings]
  | observed (seen : Seen) : Appends facts [.observed seen]
  | created {r : Record} : NewRecord facts r → Unused facts r.source → Appends facts [.record r]
  | remembered {seen : Seen} {r : Record} : NewRecord facts r → Unused facts r.source →
      Appends facts [.observed seen, .record r]
  | edited {old r : Record} : NextRecord facts old r → Appends facts [.record r]
  | dismissed {old r : Record} : Resolution facts old r → Appends facts [.suggestion r]
  | accepted {old r saved : Record} : Resolution facts old r → r.status = .accepted →
      NewRecord facts saved → saved.source = old.source →
      Appends facts [.record saved, .suggestion r]
  | suggested {seen : Seen} {r : Record} : (∀ other ∈ suggestionsOf facts, other.id ≠ r.id) →
      r.revision = 1 → Unused facts r.source → Appends facts [.observed seen, .suggestion r]

section Operation

variable {env : MemoryEnv} {facts additions : List Fact} {r old : Record}

theorem newRecord_ok {body : Draft} {source : Source} (h : newRecord env body source = .ok r) :
    r.id = "mem_" ++ env.recordUuid ∧ r.revision = 1 ∧ r.source = source := by
  simp only [newRecord, bind_eq_ok, pure_eq_ok, Except.ok.injEq] at h
  obtain ⟨_, -, value, -, rfl⟩ := h
  exact ⟨rfl, rfl, rfl⟩

theorem newRecord_known {body : Draft} {source : Source}
    (h : newRecord env body source = .ok r) (name : String) : r.scope ≠ .other name := by
  simp only [newRecord, bind_eq_ok, pure_eq_ok, Except.ok.injEq] at h
  obtain ⟨_, hscope, value, -, rfl⟩ := h
  intro he
  have hbody : body.scope = .other name := he
  rw [checkScope, hbody] at hscope
  cases hscope

theorem conflicts_eq_false : conflicts (fold facts) r = false ↔
    ∀ other, record? facts other.id = some other → other.id ≠ r.id → other.status ≠ .revoked →
      other.slot ≠ r.slot := by
  simp only [conflicts, List.any_eq_false, mem_memories, decide_eq_true_eq, not_and]

theorem NewRecord.of_newRecord {body : Draft} {source : Source} (hf : Fresh env facts)
    (hr : newRecord env body source = .ok r) (hc : conflicts (fold facts) r = false) :
    NewRecord facts r := by
  obtain ⟨hid, hrev, -⟩ := newRecord_ok hr
  have hfresh : ∀ other ∈ recordsOf facts, other.id ≠ r.id := fun other ho =>
    hid ▸ hf.record other ho
  refine ⟨hfresh, hrev, fun other ho hs => ?_, newRecord_known hr⟩
  exact conflicts_eq_false.mp hc other ho (hfresh other (latest?_mem _ ho).1) hs

theorem edited_ok {revoke : Bool} {content : Option String} {status : Option Status}
    (hold : record? facts old.id = some old) (hs : old.status ≠ .revoked)
    (h : edited env old revoke content status = .ok r) : NextRecord facts old r := by
  obtain ⟨next, hn, rfl⟩ := map_eq_ok.mp h
  cases content with
  | none =>
    obtain rfl := Except.ok.inj hn
    exact ⟨hold, rfl, hs, rfl, fun e he => he⟩
  | some text =>
    obtain ⟨value, -, rfl⟩ := map_eq_ok.mp hn
    exact ⟨hold, rfl, hs, rfl, fun e he => by simp [manual] at he⟩

theorem Resolution.of_resolved {action : Action} (hold : suggestion? facts old.id = some old)
    (hp : old.status = .pending) : Resolution facts old (resolved env old action) :=
  ⟨hold, rfl, hp, by cases action <;> simp [resolved], rfl⟩

theorem resolveSuggestion_ok {action : Action} {reply : Reply} (hf : Fresh env facts)
    (hold : suggestion? facts old.id = some old) (hp : old.status = .pending)
    (h : resolveSuggestion env (fold facts) old action = .ok (reply, additions)) :
    Appends facts additions := by
  cases action with
  | dismiss =>
    obtain ⟨-, rfl⟩ := Prod.mk.inj (Except.ok.inj h)
    exact .dismissed (.of_resolved hold hp)
  | accept =>
    simp only [resolveSuggestion, bind_eq_ok, pure_eq_ok, Except.ok.injEq, Prod.mk.injEq,
      conflict, raiseIf_eq_ok, Bool.not_eq_true] at h
    obtain ⟨_, -, saved, hsaved, _, hc, -, rfl⟩ := h
    exact .accepted (.of_resolved hold hp) rfl (.of_newRecord hf hsaved hc) (newRecord_ok hsaved).2.2

theorem chooseMutation_ok {operation : Mutation} {record : Option Record} {reply : Reply}
    (hf : Fresh env facts)
    (hr : ∀ r, record = some r → ∃ body, newRecord env body manual = .ok r)
    (h : chooseMutation env facts operation record = .ok (reply, additions)) :
    Appends facts additions := by
  cases operation with
  | create body =>
    cases record with
    | none => cases h
    | some r =>
      simp only [chooseMutation, bind_eq_ok, pure_eq_ok, Except.ok.injEq, Prod.mk.injEq, conflict,
        raiseIf_eq_ok, Bool.not_eq_true] at h
      obtain ⟨_, hc, -, rfl⟩ := h
      obtain ⟨body, hbody⟩ := hr r rfl
      have hsource : r.source = manual := (newRecord_ok hbody).2.2
      exact .created (.of_newRecord hf hbody hc) fun fact _ e he => by simp [hsource, manual] at he
  | settings expected enabled =>
    simp only [chooseMutation, bind_eq_ok, pure_eq_ok, Except.ok.injEq, Prod.mk.injEq] at h
    obtain ⟨_, -, -, rfl⟩ := h
    exact .settings _
  | edit revoke target expected content status =>
    simp only [chooseMutation] at h
    split at h
    · cases h
    · next old hfind =>
      simp only [bind_eq_ok, pure_eq_ok, Except.ok.injEq, Prod.mk.injEq, raiseIf_eq_ok] at h
      obtain ⟨_, -, _, hs, next, hn, -, rfl⟩ := h
      exact .edited (edited_ok (find_memories hfind) hs hn)
  | resolve target expected action =>
    simp only [chooseMutation] at h
    split at h
    · cases h
    · next old hfind =>
      simp only [bind_eq_ok, raiseIf_eq_ok, not_or, not_not] at h
      obtain ⟨_, ⟨-, hp⟩, h⟩ := h
      exact resolveSuggestion_ok hf (find_suggestions hfind) hp h
  | unknown operation => cases record <;> cases h

theorem mutate_appends {operation : Mutation} {reply : Reply} (hf : Fresh env facts)
    (h : mutate env facts operation = .ok (reply, additions)) : Appends facts additions := by
  simp only [mutate, bind_eq_ok] at h
  obtain ⟨record, hrecord, h⟩ := h
  refine chooseMutation_ok hf (fun r hr => ?_) h
  subst hr
  cases operation with
  | create body =>
    obtain ⟨r', hr', he⟩ := map_eq_ok.mp hrecord
    exact ⟨body, Option.some.inj he ▸ hr'⟩
  | _ => cases hrecord

theorem unused_of_any {source : Source}
    (h : ∀ e ∈ source.eventIds, (facts.any fun fact => fact.sourceIds.contains e) = false) :
    Unused facts source := by
  intro fact hm e he hc
  have hnone := List.any_eq_false.mp (h e he) fact hm
  exact hnone (by simpa using hc)

theorem eligible_unused {seen earlier : Seen} (h : earlier ∈ eligibleOf facts seen) :
    (facts.any fun fact => fact.sourceIds.contains earlier.eventId) = false := by
  have hkept := (List.mem_filter.mp h).2
  simpa using hkept

theorem observe_appends {remark : Remark} (hf : Fresh env facts) :
    Appends facts (observe env facts remark).2 := by
  unfold observe
  split
  · exact .nothing
  · next record hrecord =>
    obtain ⟨-, hrev, hsource⟩ := newRecord_ok hrecord
    unfold chooseObservation
    dsimp only
    split_ifs with _ hsources _ hconflict hexplicit
    · exact .nothing
    · exact .nothing
    · exact .nothing
    · exact .observed _
    · refine .remembered (.of_newRecord hf hrecord (by simpa using hconflict)) (unused_of_any ?_)
      simpa [hsource, Remark.origin] using hsources
    · split
      · exact .observed _
      · next earlier hlast =>
        refine .suggested hf.suggestion hrev (unused_of_any fun e he => ?_)
        simp only [candidate, List.mem_cons, List.not_mem_nil, or_false] at he
        rcases he with rfl | rfl
        · exact eligible_unused (List.mem_of_getLast? hlast)
        · simpa using hsources

theorem observeRun_appends {enabled : Bool} {s : RuntimeStore} {isControlSession : String → Bool}
    {parse : String → Option Parsed} {asks : String → Bool} {runId : String}
    {receipts : List Receipt} (hf : Fresh env facts)
    (h : observeRun env enabled s isControlSession parse asks facts runId =
      .ok (receipts, additions)) : Appends facts additions := by
  unfold observeRun at h
  split at h
  · obtain ⟨-, rfl⟩ := Prod.mk.inj (Except.ok.inj h)
    exact .nothing
  · obtain ⟨found, -, he⟩ := map_eq_ok.mp h
    cases found with
    | inl receipts =>
      obtain ⟨-, rfl⟩ := Prod.mk.inj he
      exact .nothing
    | inr remark =>
      have hadd : (observe env facts remark).2 = additions := congrArg Prod.snd he
      exact hadd ▸ observe_appends hf

end Operation

end Eventide.Memory
