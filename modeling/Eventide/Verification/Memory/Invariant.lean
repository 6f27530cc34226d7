import Eventide.Verification.Memory.Steps
import Eventide.Verification.Store.Log

/-! # The invariants of the preference memory, over every sequence of operations -/

namespace Eventide.Memory

open Outcome RuntimeStore Versions

/-- The log holds the memory that accepting the suggestion has created. -/
def Accepted (facts : List Fact) (suggestionId memoryId : String) : Prop :=
  ∃ front back saved answer, facts = front ++ .record saved :: .suggestion answer :: back ∧
    saved.id = memoryId ∧ saved.revision = 1 ∧ answer.id = suggestionId ∧
    answer.status = .accepted

/-- What every operation keeps. -/
structure MemoryInvariant (facts : List Fact) : Prop where
  records : Versioned Record.id Record.revision (·.status = .revoked) (recordsOf facts)
  suggestions : Versioned Record.id Record.revision (·.status ≠ .pending) (suggestionsOf facts)
  unique : ∀ a b, record? facts a.id = some a → record? facts b.id = some b →
    a.status ≠ .revoked → b.status ≠ .revoked → a.slot = b.slot → a.id = b.id
  known : ∀ r ∈ recordsOf facts, ∀ name, r.scope ≠ .other name
  sameSlot : ∀ a ∈ recordsOf facts, ∀ b ∈ recordsOf facts, a.id = b.id → a.slot = b.slot
  sameSource : ∀ a ∈ suggestionsOf facts, ∀ b ∈ suggestionsOf facts, a.id = b.id →
    a.source = b.source
  memorySource : ∀ a ∈ recordsOf facts, ∀ b ∈ recordsOf facts, ∀ e ∈ a.source.eventIds,
    e ∈ b.source.eventIds → a.id = b.id
  suggestionSource : ∀ a ∈ suggestionsOf facts, ∀ b ∈ suggestionsOf facts,
    ∀ e ∈ a.source.eventIds, e ∈ b.source.eventIds → a.id = b.id
  accepted : ∀ r ∈ recordsOf facts, ∀ s ∈ suggestionsOf facts, ∀ e ∈ r.source.eventIds,
    e ∈ s.source.eventIds → Accepted facts s.id r.id

section Append

variable {facts more : List Fact} {fact : Fact} {r old saved : Record}

theorem Accepted.append {suggestionId memoryId : String}
    (h : Accepted facts suggestionId memoryId) :
    Accepted (facts ++ more) suggestionId memoryId := by
  obtain ⟨front, back, record, answer, rfl, hr⟩ := h
  exact ⟨front, back ++ more, record, answer, by simp, hr⟩

theorem Accepted.answer_mem {suggestionId memoryId : String}
    (h : Accepted facts suggestionId memoryId) :
    ∃ answer ∈ suggestionsOf facts, answer.id = suggestionId ∧ answer.status = .accepted := by
  obtain ⟨front, back, record, answer, rfl, -, -, hid, hs⟩ := h
  exact ⟨answer, by simp [suggestionsOf, Fact.suggestion?], hid, hs⟩

theorem mem_recordsOf : r ∈ recordsOf facts ↔ .record r ∈ facts := by
  simp only [recordsOf, List.mem_filterMap]
  constructor
  · rintro ⟨fact, hm, hf⟩
    cases fact <;> simp_all [Fact.record?]
  · exact fun h => ⟨_, h, rfl⟩

theorem mem_suggestionsOf : r ∈ suggestionsOf facts ↔ .suggestion r ∈ facts := by
  simp only [suggestionsOf, List.mem_filterMap]
  constructor
  · rintro ⟨fact, hm, hf⟩
    cases fact <;> simp_all [Fact.suggestion?]
  · exact fun h => ⟨_, h, rfl⟩

theorem Unused.record (h : Unused facts r.source) {other : Record} (ho : other ∈ recordsOf facts)
    {e : String} (he : e ∈ r.source.eventIds) : e ∉ other.source.eventIds :=
  h _ (mem_recordsOf.mp ho) e he

theorem Unused.suggestion (h : Unused facts r.source) {other : Record}
    (ho : other ∈ suggestionsOf facts) {e : String} (he : e ∈ r.source.eventIds) :
    e ∉ other.source.eventIds :=
  h _ (mem_suggestionsOf.mp ho) e he

namespace MemoryInvariant

theorem nil : MemoryInvariant [] where
  records := .nil
  suggestions := .nil
  unique := by simp [record?, latest?, versions, recordsOf]
  known := by simp [recordsOf]
  sameSlot := by simp [recordsOf]
  sameSource := by simp [suggestionsOf]
  memorySource := by simp [recordsOf]
  suggestionSource := by simp [suggestionsOf]
  accepted := by simp [recordsOf]

/-- A fact that is neither a record nor a suggestion. -/
theorem neutral (h : MemoryInvariant facts) (hr : fact.record? = none)
    (hs : fact.suggestion? = none) : MemoryInvariant (facts ++ [fact]) where
  records := by simpa only [recordsOf_concat_of_none hr] using h.records
  suggestions := by simpa only [suggestionsOf_concat_of_none hs] using h.suggestions
  unique := by simpa only [record?, recordsOf_concat_of_none hr] using h.unique
  known := by simpa only [recordsOf_concat_of_none hr] using h.known
  sameSlot := by simpa only [recordsOf_concat_of_none hr] using h.sameSlot
  sameSource := by simpa only [suggestionsOf_concat_of_none hs] using h.sameSource
  memorySource := by simpa only [recordsOf_concat_of_none hr] using h.memorySource
  suggestionSource := by simpa only [suggestionsOf_concat_of_none hs] using h.suggestionSource
  accepted := by
    simp only [recordsOf_concat_of_none hr, suggestionsOf_concat_of_none hs]
    exact fun a ha b hb e he hb' => (h.accepted a ha b hb e he hb').append

/-- The slots stay unique when the new version's slot is taken by no other preference. -/
theorem unique_concat (h : MemoryInvariant facts)
    (hfree : ∀ other, record? facts other.id = some other → other.id ≠ r.id →
      other.status ≠ .revoked → other.slot ≠ r.slot) (a b : Record)
    (ha : latest? Record.id (recordsOf facts ++ [r]) a.id = some a)
    (hb : latest? Record.id (recordsOf facts ++ [r]) b.id = some b) (hsa : a.status ≠ .revoked)
    (hsb : b.status ≠ .revoked) (hslot : a.slot = b.slot) : a.id = b.id := by
  rw [latest?_concat] at ha hb
  split_ifs at ha with hra
  · obtain rfl := Option.some.inj ha
    split_ifs at hb with hrb
    · exact hrb
    · exact absurd hslot.symm (hfree b hb (Ne.symm hrb) hsb)
  · split_ifs at hb with hrb
    · obtain rfl := Option.some.inj hb
      exact absurd hslot (hfree a ha (Ne.symm hra) hsa)
    · exact h.unique a b ha hb hsa hsb hslot

theorem known_concat (h : MemoryInvariant facts) (hr : ∀ name, r.scope ≠ .other name) :
    ∀ a ∈ recordsOf facts ++ [r], ∀ name, a.scope ≠ .other name := by
  intro a ha
  simp only [List.mem_append, List.mem_singleton] at ha
  rcases ha with ha | rfl
  · exact h.known a ha
  · exact hr

theorem sameSlot_concat (h : MemoryInvariant facts)
    (hr : ∀ a ∈ recordsOf facts, a.id = r.id → a.slot = r.slot) :
    ∀ a ∈ recordsOf facts ++ [r], ∀ b ∈ recordsOf facts ++ [r], a.id = b.id →
      a.slot = b.slot := by
  intro a ha b hb hid
  simp only [List.mem_append, List.mem_singleton] at ha hb
  rcases ha with ha | rfl <;> rcases hb with hb | rfl
  · exact h.sameSlot a ha b hb hid
  · exact hr a ha hid
  · exact (hr b hb hid.symm).symm
  · rfl

/-- Messages stay bound to one memory each when the new version brings no message of
another one. -/
theorem memorySource_concat (h : MemoryInvariant facts)
    (hown : ∀ a ∈ recordsOf facts, ∀ e ∈ r.source.eventIds, e ∈ a.source.eventIds → a.id = r.id) :
    ∀ a ∈ recordsOf facts ++ [r], ∀ b ∈ recordsOf facts ++ [r], ∀ e ∈ a.source.eventIds,
      e ∈ b.source.eventIds → a.id = b.id := by
  intro a ha b hb e hea heb
  simp only [List.mem_append, List.mem_singleton] at ha hb
  rcases ha with ha | rfl <;> rcases hb with hb | rfl
  · exact h.memorySource a ha b hb e hea heb
  · exact hown a ha e heb hea
  · exact (hown b hb e hea heb).symm
  · rfl

theorem created (h : MemoryInvariant facts) (hn : NewRecord facts r)
    (hu : Unused facts r.source) : MemoryInvariant (facts ++ [.record r]) where
  records := by
    rw [recordsOf_concat_record]
    exact h.records.create hn.first hn.fresh
  suggestions := by rw [suggestionsOf_concat_record]; exact h.suggestions
  unique := by
    simp only [record?, recordsOf_concat_record]
    exact h.unique_concat fun other ho _ hs => hn.free other ho hs
  known := by
    rw [recordsOf_concat_record]
    exact h.known_concat hn.known
  sameSlot := by
    rw [recordsOf_concat_record]
    exact h.sameSlot_concat fun a ha hid => absurd hid (hn.fresh a ha)
  sameSource := by rw [suggestionsOf_concat_record]; exact h.sameSource
  memorySource := by
    rw [recordsOf_concat_record]
    exact h.memorySource_concat fun a ha e he hea => absurd hea (hu.record ha he)
  suggestionSource := by rw [suggestionsOf_concat_record]; exact h.suggestionSource
  accepted := by
    rw [suggestionsOf_concat_record, recordsOf_concat_record]
    intro a ha b hb e hea heb
    simp only [List.mem_append, List.mem_singleton] at ha
    rcases ha with ha | rfl
    · exact (h.accepted a ha b hb e hea heb).append
    · exact absurd heb (hu.suggestion hb hea)

theorem edited (h : MemoryInvariant facts) (hn : NextRecord facts old r) :
    MemoryInvariant (facts ++ [.record r]) where
  records := by
    rw [recordsOf_concat_record]
    exact h.records.update hn.latest hn.next hn.alive
  suggestions := by rw [suggestionsOf_concat_record]; exact h.suggestions
  unique := by
    simp only [record?, recordsOf_concat_record]
    refine h.unique_concat fun other ho hne hs hslot => hne ?_
    obtain ⟨-, hid⟩ := latest?_mem _ hn.latest
    have hold : record? facts old.id = some old := hid ▸ hn.latest
    exact (h.unique other old ho hold hs hn.alive (hslot.trans hn.slot)).trans hid
  known := by
    rw [recordsOf_concat_record]
    obtain ⟨hm, -⟩ := latest?_mem _ hn.latest
    have hscope : r.scope = old.scope := congrArg Prod.fst hn.slot
    exact h.known_concat fun name => hscope ▸ h.known old hm name
  sameSlot := by
    rw [recordsOf_concat_record]
    obtain ⟨hm, hid⟩ := latest?_mem _ hn.latest
    exact h.sameSlot_concat fun a ha he =>
      (h.sameSlot a ha old hm (he.trans hid.symm)).trans hn.slot.symm
  sameSource := by rw [suggestionsOf_concat_record]; exact h.sameSource
  memorySource := by
    rw [recordsOf_concat_record]
    obtain ⟨hm, hid⟩ := latest?_mem _ hn.latest
    exact h.memorySource_concat fun a ha e he hea =>
      (h.memorySource a ha old hm e hea (hn.sources e he)).trans hid
  suggestionSource := by rw [suggestionsOf_concat_record]; exact h.suggestionSource
  accepted := by
    rw [suggestionsOf_concat_record, recordsOf_concat_record]
    obtain ⟨hm, hid⟩ := latest?_mem _ hn.latest
    intro a ha b hb e hea heb
    simp only [List.mem_append, List.mem_singleton] at ha
    rcases ha with ha | rfl
    · exact (h.accepted a ha b hb e hea heb).append
    · exact hid ▸ (h.accepted old hm b hb e (hn.sources e hea) heb).append

/-- An answer keeps the source of its suggestion. -/
theorem resolved_member (hr : Resolution facts old r) {s : Record}
    (hs : s ∈ suggestionsOf facts ++ [r]) :
    ∃ s' ∈ suggestionsOf facts, s'.id = s.id ∧ s'.source = s.source := by
  simp only [List.mem_append, List.mem_singleton] at hs
  rcases hs with hs | rfl
  · exact ⟨s, hs, rfl, rfl⟩
  · obtain ⟨hm, hid⟩ := latest?_mem _ hr.latest
    exact ⟨old, hm, hid, hr.source.symm⟩

/-- A pending suggestion has never been accepted. -/
theorem not_accepted (h : MemoryInvariant facts) (hlatest : suggestion? facts r.id = some old)
    (hp : old.status = .pending) (memoryId : String) : ¬ Accepted facts r.id memoryId := by
  intro ha
  obtain ⟨answer, hm, hid, hs⟩ := ha.answer_mem
  have hlast := h.suggestions.latest_of_final hm (by simp [hs])
  rw [hid] at hlast
  have he : answer = old := Option.some.inj (hlast.symm.trans hlatest)
  rw [he, hp] at hs
  cases hs

theorem dismissed (h : MemoryInvariant facts) (hr : Resolution facts old r) :
    MemoryInvariant (facts ++ [.suggestion r]) where
  records := by rw [recordsOf_concat_suggestion]; exact h.records
  suggestions := by
    rw [suggestionsOf_concat_suggestion]
    exact h.suggestions.update hr.latest hr.next (not_not.mpr hr.pending)
  unique := by simpa only [record?, recordsOf_concat_suggestion] using h.unique
  known := by rw [recordsOf_concat_suggestion]; exact h.known
  sameSlot := by rw [recordsOf_concat_suggestion]; exact h.sameSlot
  sameSource := by
    rw [suggestionsOf_concat_suggestion]
    intro a ha b hb hid
    obtain ⟨a', ha', hida, hsa⟩ := resolved_member hr ha
    obtain ⟨b', hb', hidb, hsb⟩ := resolved_member hr hb
    rw [← hsa, ← hsb, h.sameSource a' ha' b' hb' (by rw [hida, hidb, hid])]
  memorySource := by rw [recordsOf_concat_suggestion]; exact h.memorySource
  suggestionSource := by
    rw [suggestionsOf_concat_suggestion]
    intro a ha b hb e hea heb
    obtain ⟨a', ha', hida, hsa⟩ := resolved_member hr ha
    obtain ⟨b', hb', hidb, hsb⟩ := resolved_member hr hb
    rw [← hida, ← hidb]
    exact h.suggestionSource a' ha' b' hb' e (hsa ▸ hea) (hsb ▸ heb)
  accepted := by
    rw [suggestionsOf_concat_suggestion, recordsOf_concat_suggestion]
    intro a ha b hb e hea heb
    obtain ⟨b', hb', hidb, hsb⟩ := resolved_member hr hb
    exact hidb ▸ (h.accepted a ha b' hb' e hea (hsb ▸ heb)).append

/-- Accepting appends the memory and the answer together. -/
theorem accepted_pair (h : MemoryInvariant facts) (hr : Resolution facts old r)
    (hs : r.status = .accepted) (hn : NewRecord facts saved) (hsource : saved.source = old.source) :
    MemoryInvariant (facts ++ [.record saved, .suggestion r]) := by
  obtain ⟨hold, hid⟩ := latest?_mem _ hr.latest
  have hpair : Accepted (facts ++ [.record saved, .suggestion r]) r.id saved.id :=
    ⟨facts, [], saved, r, rfl, rfl, hn.first, rfl, hs⟩
  have hsplit : facts ++ [.record saved, .suggestion r] =
      facts ++ [.record saved] ++ [.suggestion r] := by simp
  have hunbound : ∀ a ∈ recordsOf facts, ∀ e ∈ saved.source.eventIds, e ∉ a.source.eventIds := by
    intro a ha e he hea
    have hacc := h.accepted a ha old hold e hea (hsource ▸ he)
    exact h.not_accepted hr.latest hr.pending a.id (hid ▸ hacc)
  constructor
  · rw [hsplit, recordsOf_concat_suggestion, recordsOf_concat_record]
    exact h.records.create hn.first hn.fresh
  · rw [hsplit, suggestionsOf_concat_suggestion, suggestionsOf_concat_record]
    exact h.suggestions.update hr.latest hr.next (not_not.mpr hr.pending)
  · simp only [hsplit, record?, recordsOf_concat_suggestion, recordsOf_concat_record]
    exact h.unique_concat fun other ho _ hs => hn.free other ho hs
  · rw [hsplit, recordsOf_concat_suggestion, recordsOf_concat_record]
    exact h.known_concat hn.known
  · rw [hsplit, recordsOf_concat_suggestion, recordsOf_concat_record]
    exact h.sameSlot_concat fun a ha he => absurd he (hn.fresh a ha)
  · have hd := (h.dismissed hr).sameSource
    simpa only [hsplit, suggestionsOf_concat_suggestion, suggestionsOf_concat_record] using hd
  · rw [hsplit, recordsOf_concat_suggestion, recordsOf_concat_record]
    exact h.memorySource_concat fun a ha e he hea => absurd hea (hunbound a ha e he)
  · have hd := (h.dismissed hr).suggestionSource
    simpa only [hsplit, suggestionsOf_concat_suggestion, suggestionsOf_concat_record] using hd
  · intro a ha b hb e hea heb
    rw [hsplit, recordsOf_concat_suggestion, recordsOf_concat_record] at ha
    rw [hsplit, suggestionsOf_concat_suggestion, suggestionsOf_concat_record] at hb
    obtain ⟨b', hb', hidb, hsb⟩ := resolved_member hr hb
    simp only [List.mem_append, List.mem_singleton] at ha
    rcases ha with ha | rfl
    · exact hidb ▸ (h.accepted a ha b' hb' e hea (hsb ▸ heb)).append
    · -- A suggestion that shares a message with the saved memory is the accepted one.
      have hsame : b'.id = old.id :=
        h.suggestionSource b' hb' old hold e (hsb ▸ heb) (hsource ▸ hea)
      rw [← hidb, hsame, hid]
      exact hpair

theorem suggested (h : MemoryInvariant facts) (hfresh : ∀ other ∈ suggestionsOf facts,
    other.id ≠ r.id) (hfirst : r.revision = 1) (hu : Unused facts r.source) :
    MemoryInvariant (facts ++ [.suggestion r]) where
  records := by rw [recordsOf_concat_suggestion]; exact h.records
  suggestions := by
    rw [suggestionsOf_concat_suggestion]
    exact h.suggestions.create hfirst hfresh
  unique := by simpa only [record?, recordsOf_concat_suggestion] using h.unique
  known := by rw [recordsOf_concat_suggestion]; exact h.known
  sameSlot := by rw [recordsOf_concat_suggestion]; exact h.sameSlot
  sameSource := by
    rw [suggestionsOf_concat_suggestion]
    intro a ha b hb hid
    simp only [List.mem_append, List.mem_singleton] at ha hb
    rcases ha with ha | rfl <;> rcases hb with hb | rfl
    · exact h.sameSource a ha b hb hid
    · exact absurd hid (hfresh a ha)
    · exact absurd hid.symm (hfresh b hb)
    · rfl
  memorySource := by rw [recordsOf_concat_suggestion]; exact h.memorySource
  suggestionSource := by
    rw [suggestionsOf_concat_suggestion]
    intro a ha b hb e hea heb
    simp only [List.mem_append, List.mem_singleton] at ha hb
    rcases ha with ha | rfl <;> rcases hb with hb | rfl
    · exact h.suggestionSource a ha b hb e hea heb
    · exact absurd hea (hu.suggestion ha heb)
    · exact absurd heb (hu.suggestion hb hea)
    · rfl
  accepted := by
    rw [suggestionsOf_concat_suggestion, recordsOf_concat_suggestion]
    intro a ha b hb e hea heb
    simp only [List.mem_append, List.mem_singleton] at hb
    rcases hb with hb | rfl
    · exact (h.accepted a ha b hb e hea heb).append
    · exact absurd hea (hu.record ha heb)

theorem appends (h : MemoryInvariant facts) (ha : Appends facts more) :
    MemoryInvariant (facts ++ more) := by
  cases ha with
  | nothing => simpa using h
  | settings settings => exact h.neutral rfl rfl
  | observed seen => exact h.neutral rfl rfl
  | created hn hu => exact h.created hn hu
  | @remembered seen r hn hu =>
    have hseen : MemoryInvariant (facts ++ [.observed seen]) := h.neutral rfl rfl
    simpa using hseen.created (hn.observed seen) (hu.observed seen)
  | edited hn => exact h.edited hn
  | dismissed hr => exact h.dismissed hr
  | accepted hr hs hn hsource => exact h.accepted_pair hr hs hn hsource
  | @suggested seen r hfresh hfirst hu =>
    have hseen : MemoryInvariant (facts ++ [.observed seen]) := h.neutral rfl rfl
    have hnew : ∀ other ∈ suggestionsOf (facts ++ [.observed seen]), other.id ≠ r.id := by
      rwa [suggestionsOf_concat_of_none rfl]
    simpa using hseen.suggested hnew hfirst (hu.observed seen)

end MemoryInvariant

end Append

/-! ## Every sequence of operations -/

/-- The facts after an operation: a raising one appends nothing. -/
def committed {α : Type} (facts : List Fact) (result : Except PyError (α × List Fact)) :
    List Fact :=
  match result with
  | .ok (_, additions) => facts ++ additions
  | .error _ => facts

/-- One operation, over any session, project and reading of the store. -/
inductive Operates (facts : List Fact) : List Fact → Prop
  | mutate (env : MemoryEnv) (operation : Mutation) : Fresh env facts →
      Operates facts (committed facts (mutate env facts operation))
  | observeRun (env : MemoryEnv) (enabled : Bool) (s : RuntimeStore)
      (isControlSession : String → Bool) (parse : String → Option Parsed) (asks : String → Bool)
      (runId : String) : Fresh env facts →
      Operates facts (committed facts (observeRun env enabled s isControlSession parse asks facts runId))

/-- The logs that operations can make. -/
inductive Reached : List Fact → Prop
  | start : Reached []
  | step {facts facts' : List Fact} : Reached facts → Operates facts facts' → Reached facts'

section Run

variable {facts front : List Fact}

theorem committed_appends {α : Type} {result : Except PyError (α × List Fact)}
    (h : ∀ reply additions, result = .ok (reply, additions) → Appends facts additions) :
    ∃ more, Appends facts more ∧ committed facts result = facts ++ more := by
  cases result with
  | ok p => exact ⟨p.2, h p.1 p.2 rfl, rfl⟩
  | error e => exact ⟨[], .nothing, by simp [committed]⟩

/-- An operation appends what `Appends` lists. -/
theorem Operates.appends {facts' : List Fact} (h : Operates facts facts') :
    ∃ more, Appends facts more ∧ facts' = facts ++ more := by
  cases h with
  | mutate env operation hf => exact committed_appends fun _ _ => mutate_appends hf
  | observeRun env enabled s isControlSession parse asks runId hf =>
    exact committed_appends fun _ _ => observeRun_appends hf

theorem Reached.invariant (h : Reached facts) : MemoryInvariant facts := by
  induction h with
  | start => exact .nil
  | step _ ho ih =>
    obtain ⟨more, ha, rfl⟩ := ho.appends
    exact ih.appends ha

/-- What the facts say of the preferences. -/
structure MemoryLaws (facts : List Fact) : Prop where
  one_per_slot : ∀ a ∈ (fold facts).memories.values, ∀ b ∈ (fold facts).memories.values,
    a.status ≠ .revoked → b.status ≠ .revoked → a.slot = b.slot → a = b
  revoked_stays : ∀ front, front <+: facts → ∀ id r, (fold front).memories.get? id = some r →
    r.status = .revoked → (fold facts).memories.get? id = some r
  revisions : ∀ id, ((recordsOf facts).filter (·.id = id)).map (·.revision) =
    List.range' 1 ((recordsOf facts).filter (·.id = id)).length
  one_suggestion : ∀ a ∈ suggestionsOf facts, ∀ b ∈ suggestionsOf facts,
    ∀ e ∈ a.source.eventIds, e ∈ b.source.eventIds → a.id = b.id
  one_memory : ∀ a ∈ recordsOf facts, ∀ b ∈ recordsOf facts,
    ∀ e ∈ a.source.eventIds, e ∈ b.source.eventIds → a.id = b.id
  accepted : ∀ r ∈ recordsOf facts, ∀ s ∈ suggestionsOf facts, ∀ e ∈ r.source.eventIds,
    e ∈ s.source.eventIds → Accepted facts s.id r.id

theorem MemoryInvariant.laws (h : MemoryInvariant facts) : MemoryLaws facts where
  one_per_slot := by
    intro a ha b hb hsa hsb hslot
    have hla := mem_memories.mp ha
    have hlb := mem_memories.mp hb
    rw [h.unique a b hla hlb hsa hsb hslot, hlb] at hla
    exact (Option.some.inj hla).symm
  revoked_stays := by
    rintro front ⟨back, rfl⟩ id r hr hs
    rw [get?_memories] at hr ⊢
    obtain ⟨hm, rfl⟩ := latest?_mem _ hr
    refine h.records.latest_of_final ?_ hs
    rw [recordsOf, List.filterMap_append]
    exact List.mem_append_left _ hm
  revisions := h.records.counted
  one_suggestion := h.suggestionSource
  one_memory := h.memorySource
  accepted := h.accepted

/-- The invariants of the preference memory, in every reachable log. -/
theorem preferenceMemory_laws (h : Reached facts) : MemoryLaws facts := h.invariant.laws

end Run

/-! ## A preference suggested, accepted, edited and revoked -/

/-- A run whose message states a preference. -/
def remarkCalls (runId : String) (name : Char) : List (Env × StoreCall) :=
  [(plainEnv name, .createRun runId "main" none),
   (plainEnv name.toUpper, .appendFact "main"
     { type := .messageUser, author := "user", role := "user"
       payload := .obj [("message", .obj [("content", .str "answer tersely from now on")])] }
     (some runId) false)]

def remarkStore : RuntimeStore :=
  StoreCall.after {} (remarkCalls "r1" 'a' ++ remarkCalls "r2" 'b')

def sampleEnv (uuid : String) : MemoryEnv where
  now := 0
  recordUuid := uuid
  suggestionUuid := uuid
  projectExists := fun _ => false
  flagged := fun _ => false
  secrets := []
  digest := fun _ => ""
  userMessages := remarkStore.events

/-- The facts after a mutation. -/
def changed (facts : List Fact) (uuid : String) (operation : Mutation) : List Fact :=
  committed facts (mutate (sampleEnv uuid) facts operation)

/-- The facts after a run with such a message was observed. -/
def observed (facts : List Fact) (uuid runId : String) : List Fact :=
  committed facts (observeRun (sampleEnv uuid) true remarkStore (fun _ => false)
    (fun _ => some { scope := .global, key := "style", content := "terse", explicit := false })
    (fun _ => false) facts runId)

def suggestedFacts : List Fact := observed (observed [] "1" "r1") "2" "r2"

def acceptedFacts : List Fact :=
  changed suggestedFacts "3" (.resolve (some "suggestion_2") 1 .accept)

def editedFacts : List Fact :=
  changed acceptedFacts "4" (.edit false (some "mem_3") 1 (some "kind") none)

def revokedFacts : List Fact := changed editedFacts "5" (.edit true (some "mem_3") 2 none none)

theorem Operates.changed {facts : List Fact} {uuid : String} (operation : Mutation)
    (hf : Fresh (sampleEnv uuid) facts) : Operates facts (changed facts uuid operation) :=
  .mutate _ operation hf

theorem Reached.changed {facts : List Fact} {uuid : String} (operation : Mutation)
    (h : Reached facts) (hf : Fresh (sampleEnv uuid) facts) :
    Reached (changed facts uuid operation) := h.step (.changed operation hf)

theorem Reached.observed {facts : List Fact} {uuid : String} (runId : String)
    (h : Reached facts) (hf : Fresh (sampleEnv uuid) facts) :
    Reached (observed facts uuid runId) := h.step (.observeRun _ _ _ _ _ _ runId hf)

theorem suggestedFacts_reached : Reached suggestedFacts :=
  (Reached.start.observed "r1" ⟨by decide, by decide⟩).observed "r2"
    ⟨by decide +kernel, by decide +kernel⟩

theorem revokedFacts_reached : Reached revokedFacts := by
  have haccepted : Reached acceptedFacts :=
    suggestedFacts_reached.changed _ ⟨by decide +kernel, by decide +kernel⟩
  have hedited : Reached editedFacts :=
    haccepted.changed _ ⟨by decide +kernel, by decide +kernel⟩
  exact hedited.changed _ ⟨by decide +kernel, by decide +kernel⟩

/-- The messages that led to the preference stay bound to it, also behind its end. -/
theorem preferenceMemory_laws_revoked :
    (fold revokedFacts).memories.values.map (·.status) = [.revoked] ∧
    observed revokedFacts "6" "r2" = revokedFacts ∧
    Accepted revokedFacts "suggestion_2" "mem_3" ∧ MemoryLaws revokedFacts := by
  have hlaws := preferenceMemory_laws revokedFacts_reached
  refine ⟨by decide +kernel, by decide +kernel, ?_, hlaws⟩
  have hboth : ∃ r ∈ recordsOf revokedFacts, ∃ s ∈ suggestionsOf revokedFacts,
      ∃ e ∈ r.source.eventIds, e ∈ s.source.eventIds ∧ s.id = "suggestion_2" ∧ r.id = "mem_3" := by
    decide +kernel
  obtain ⟨r, hr, s, hs, e, her, hes, hsid, hrid⟩ := hboth
  rw [← hsid, ← hrid]
  exact hlaws.accepted r hr s hs e her hes

end Eventide.Memory
