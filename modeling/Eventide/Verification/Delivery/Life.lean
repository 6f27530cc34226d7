import Eventide.Model.Delivery

/-! # The life of a delivery

A delivery seen as one automaton over its facts: it is repaired at most once, applied at most
once, and after a repair has started only when that repair passed. -/

namespace Eventide.Delivery

open Outcome

structure Life where
  verified : Option Verified := none
  repair : Option Contract := none
  result : Option RepairResult := none
  applied : Option Applied := none
  deriving DecidableEq

namespace Life

/-- No repair was started, or it passed. -/
def Open (l : Life) : Prop := ∀ contract, l.repair = some contract →
  ∃ result, l.result = some result ∧ result.reason = .passed

instance (l : Life) : Decidable l.Open :=
  decidable_of_iff (l.repair = none ∨ l.result.any (·.reason = .passed)) (by
    unfold Open
    cases l.repair <;> simp [Option.any_eq_true])

/-- The facts a delivery may have next. -/
def step (l : Life) : Fact → Option Life
  | .verified v =>
    if v.receipt.patchSha256 = some v.patchSha256 then some { l with verified := some v } else none
  | .repairStarted contract =>
    if l.repair = none ∧ l.result = none ∧ l.applied = none then
      some { l with repair := some contract }
    else none
  | .repairFinished result =>
    if l.result = none ∧ l.applied = none ∧
        l.repair.any fun contract => contract.controlRunId = result.controlRunId then
      some { l with result := some result }
    else none
  | .applied _ result =>
    if l.applied = none ∧ l.Open then some { l with applied := some result } else none
  | _ => some l

end Life

def life (facts : List Fact) : Option Life := facts.foldlM Life.step {}

/-- Facts that every life ignores. -/
def Fact.Quiet (fact : Fact) : Prop := ∀ l : Life, l.step fact = some l

@[simp] theorem life_nil : life [] = some {} := rfl

theorem life_append (facts more : List Fact) :
    life (facts ++ more) = (life facts).bind fun l => more.foldlM Life.step l :=
  List.foldlM_append

theorem life_concat {facts : List Fact} {fact : Fact} {l : Life}
    (h : life (facts ++ [fact]) = some l) :
    ∃ mid, life facts = some mid ∧ mid.step fact = some l := by
  simpa [life_append, Option.bind_eq_some_iff] using h

/-- A life is determined up to any of its facts. -/
theorem life_prefix {facts more : List Fact} {l : Life} (h : life (facts ++ more) = some l) :
    ∃ mid, life facts = some mid := by
  rw [life_append, Option.bind_eq_some_iff] at h
  exact h.imp fun _ h => h.1

/-! ## What a life remembers -/

section Steps

variable {l l' : Life} {fact : Fact}

theorem Life.step_verified (h : l.step fact = some l') :
    l'.verified = fact.verified?.or l.verified := by
  cases fact <;> grind [Life.step, Fact.verified?]

theorem Life.step_repair (h : l.step fact = some l') :
    l'.repair.toList = l.repair.toList ++ fact.repairStarted?.toList := by
  cases fact <;> grind [Life.step, Fact.repairStarted?]

theorem Life.step_result (h : l.step fact = some l') :
    l'.result.toList = l.result.toList ++ fact.repairFinished?.toList := by
  cases fact <;> grind [Life.step, Fact.repairFinished?]

theorem Life.step_applied (h : l.step fact = some l') :
    l'.applied.toList = l.applied.toList ++ fact.applied?.toList := by
  cases fact <;> grind [Life.step, Fact.applied?]

end Steps

/-- A repair's result names its run, and a receipt the patch that was verified. -/
structure Life.Sound (l : Life) : Prop where
  owner : ∀ result, l.result = some result →
    ∃ contract, l.repair = some contract ∧ contract.controlRunId = result.controlRunId
  receipt : ∀ v, l.verified = some v → v.receipt.patchSha256 = some v.patchSha256

theorem Life.Sound.step {l l' : Life} {fact : Fact} (h : l.Sound) (hs : l.step fact = some l') :
    l'.Sound := by
  obtain ⟨ho, hc⟩ := h
  cases fact with
  | verified v =>
    simp only [Life.step, Option.ite_none_right_eq_some, Option.some.injEq] at hs
    obtain ⟨hreceipt, rfl⟩ := hs
    refine ⟨ho, ?_⟩
    rintro w ⟨⟩
    exact hreceipt
  | repairStarted contract =>
    simp only [Life.step, Option.ite_none_right_eq_some, Option.some.injEq] at hs
    obtain ⟨⟨-, hfree, -⟩, rfl⟩ := hs
    exact ⟨by simp [hfree], hc⟩
  | repairFinished result =>
    simp only [Life.step, Option.ite_none_right_eq_some, Option.some.injEq] at hs
    obtain ⟨⟨-, -, howner⟩, rfl⟩ := hs
    refine ⟨?_, hc⟩
    rintro _ ⟨⟩
    simpa [Option.any_eq_true] using howner
  | applied d result =>
    simp only [Life.step, Option.ite_none_right_eq_some, Option.some.injEq] at hs
    obtain ⟨-, rfl⟩ := hs
    exact ⟨ho, hc⟩
  | runAdmitted | runStarted | runEnded | operationAccepted | requested | prepared
  | workerFinished | roundStarted | roundFinished =>
    obtain rfl : l = l' := by simpa [Life.step] using hs
    exact ⟨ho, hc⟩

/-- The life holds exactly the facts that were written. -/
structure Life.Records (l : Life) (facts : List Fact) : Prop extends l.Sound where
  verified : (facts.filterMap Fact.verified?).getLast? = l.verified
  repair : facts.filterMap Fact.repairStarted? = l.repair.toList
  result : facts.filterMap Fact.repairFinished? = l.result.toList
  applied : facts.filterMap Fact.applied? = l.applied.toList

theorem filterMap_concat {α : Type} (f : Fact → Option α) (facts : List Fact) (fact : Fact) :
    (facts ++ [fact]).filterMap f = facts.filterMap f ++ (f fact).toList := by
  cases h : f fact <;> simp [h]

theorem Life.Records.step {l l' : Life} {facts : List Fact} {fact : Fact}
    (h : l.Records facts) (hs : l.step fact = some l') : l'.Records (facts ++ [fact]) where
  toSound := h.toSound.step hs
  verified := by
    rw [filterMap_concat, Life.step_verified hs, List.getLast?_append, h.verified]
    cases fact.verified? <;> rfl
  repair := by rw [filterMap_concat, Life.step_repair hs, h.repair]
  result := by rw [filterMap_concat, Life.step_result hs, h.result]
  applied := by rw [filterMap_concat, Life.step_applied hs, h.applied]

/-- Induction on the facts, the last one first. -/
theorem life_records {facts : List Fact} {l : Life} (h : life facts = some l) :
    l.Records facts := by
  induction facts using List.reverseRecOn generalizing l with
  | nil =>
    obtain rfl : ({} : Life) = l := by simpa using h
    exact ⟨⟨by simp, by simp⟩, rfl, rfl, rfl, rfl⟩
  | append_singleton facts fact ih =>
    obtain ⟨mid, hmid, hs⟩ := life_concat h
    exact (ih hmid).step hs

/-! ## What `load` sees of a life -/

/-- The loaded value is the life of the delivery as it stands, not applied yet. -/
structure Loaded.Agrees (value : Loaded) (l : Life) : Prop where
  verification : value.verification = l.verified
  repair : value.repair = l.repair
  result : value.repairResult = l.result
  applied : l.applied = none

theorem load_eq_ok {log : List Event} {d : String} {value : Loaded} (h : load log d = .ok value) :
    value.verification = (deliveryFacts log d).reverse.findSome? Fact.verified? ∧
    value.repair = (deliveryFacts log d).findSome? Fact.repairStarted? ∧
    value.repairResult = (deliveryFacts log d).reverse.findSome? Fact.repairFinished? ∧
    value.applied = (deliveryFacts log d).any fun fact => fact.applied?.isSome := by
  unfold load at h
  simp only [bind_eq_ok, raiseIf_eq_ok, pure_eq_ok, Except.ok.injEq] at h
  obtain ⟨-, -, prepared, -, rfl⟩ := h
  exact ⟨rfl, rfl, rfl, rfl⟩

theorem load_agrees {log : List Event} {d : String} {value : Loaded} {l : Life}
    (h : load log d = .ok value) (ha : value.applied = false)
    (hl : life (deliveryFacts log d) = some l) : value.Agrees l := by
  obtain ⟨hv, hp, hr, hf⟩ := load_eq_ok h
  have hrec := life_records hl
  refine ⟨?_, ?_, ?_, ?_⟩
  · rw [hv, ← List.getLast?_filterMap, hrec.verified]
  · rw [hp, ← List.head?_filterMap, hrec.repair, Option.head?_toList]
  · rw [hr, ← List.getLast?_filterMap, hrec.result]
    cases l.result <;> rfl
  · rw [ha, eq_comm, List.any_eq_false] at hf
    have hnone : (deliveryFacts log d).filterMap Fact.applied? = [] := by
      simpa [List.filterMap_eq_nil_iff] using hf
    rw [hrec.applied] at hnone
    simpa using hnone

end Eventide.Delivery
