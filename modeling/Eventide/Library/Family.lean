import Mathlib.Data.List.Basic

/-! # Families of machines

A machine that consists of one machine for each key and of a part that they share goes along with
a list of inputs just when the shared part does and each of its machines goes along with the
inputs of its key. -/

universe u v

namespace Family

variable {α κ σ γ τ : Type u} {ε : Type v}

/-- The inputs of one key. -/
def own [DecidableEq κ] (key : α → Option κ) (k : κ) (inputs : List α) : List α :=
  inputs.filter fun input => key input = some k

variable {inv : τ → Prop} {step : τ → α → Except ε τ} {shared : τ → γ} {slot : τ → κ → σ}
  {common : γ → α → Option γ} {single : σ → α → Option σ} {key : α → Option κ}

/-- The machine is such a family. -/
structure Splits (inv : τ → Prop) (step : τ → α → Except ε τ) (shared : τ → γ) (slot : τ → κ → σ)
    (common : γ → α → Option γ) (single : σ → α → Option σ) (key : α → Option κ) : Prop where
  keeps : ∀ {s a t}, inv s → step s a = .ok t → inv t
  moves : ∀ {s a t}, inv s → step s a = .ok t → common (shared s) a = some (shared t)
  slot_own : ∀ {s a t k}, inv s → step s a = .ok t → key a = some k →
    single (slot s k) a = some (slot t k)
  slot_other : ∀ {s a t k}, inv s → step s a = .ok t → key a ≠ some k → slot t k = slot s k
  accepts : ∀ {s a g}, inv s → common (shared s) a = some g →
    (∀ k, key a = some k → (single (slot s k) a).isSome) → ∃ t, step s a = .ok t

theorem foldlM_cons_eq_ok {s t : τ} {a : α} {as : List α} :
    (a :: as).foldlM step s = .ok t ↔ ∃ mid, step s a = .ok mid ∧ as.foldlM step mid = .ok t := by
  rw [List.foldlM_cons]
  cases step s a with
  | error e => simp [bind, Except.bind]
  | ok mid => simp [bind, Except.bind]

section Own

variable [DecidableEq κ]

theorem own_cons_of_key {a : α} {as : List α} {k : κ} (h : key a = some k) :
    own key k (a :: as) = a :: own key k as := by
  simp [own, h]

theorem own_cons_of_ne {a : α} {as : List α} {k : κ} (h : key a ≠ some k) :
    own key k (a :: as) = own key k as := by
  simp [own, h]

end Own

namespace Splits

variable (h : Splits inv step shared slot common single key)

include h

theorem run_inv {s t : τ} {as : List α} (hs : inv s) (hrun : as.foldlM step s = .ok t) : inv t := by
  induction as generalizing s with
  | nil => cases hrun; exact hs
  | cons a as ih =>
    obtain ⟨mid, hstep, hrest⟩ := foldlM_cons_eq_ok.mp hrun
    exact ih (h.keeps hs hstep) hrest

theorem run_shared {s t : τ} {as : List α} (hs : inv s) (hrun : as.foldlM step s = .ok t) :
    as.foldlM common (shared s) = some (shared t) := by
  induction as generalizing s with
  | nil => cases hrun; rfl
  | cons a as ih =>
    obtain ⟨mid, hstep, hrest⟩ := foldlM_cons_eq_ok.mp hrun
    rw [List.foldlM_cons, h.moves hs hstep]
    exact ih (h.keeps hs hstep) hrest

variable [DecidableEq κ]

theorem run_slot {s t : τ} {as : List α} (hs : inv s) (hrun : as.foldlM step s = .ok t) (k : κ) :
    (own key k as).foldlM single (slot s k) = some (slot t k) := by
  induction as generalizing s with
  | nil => cases hrun; rfl
  | cons a as ih =>
    obtain ⟨mid, hstep, hrest⟩ := foldlM_cons_eq_ok.mp hrun
    have hmid := ih (h.keeps hs hstep) hrest
    by_cases hkey : key a = some k
    · rw [own_cons_of_key hkey, List.foldlM_cons, h.slot_own hs hstep hkey]
      exact hmid
    · rw [own_cons_of_ne hkey, ← h.slot_other hs hstep hkey]
      exact hmid

/-- The induction is on the inputs: the first is accepted, and what it leaves to each machine is
what that machine goes on with. -/
theorem run_accepts {s : τ} {as : List α} (hs : inv s)
    (hcommon : (as.foldlM common (shared s)).isSome)
    (hsingle : ∀ k, ((own key k as).foldlM single (slot s k)).isSome) :
    ∃ t, as.foldlM step s = .ok t := by
  induction as generalizing s with
  | nil => exact ⟨s, rfl⟩
  | cons a as ih =>
    rw [List.foldlM_cons] at hcommon
    obtain ⟨g, hg⟩ : ∃ g, common (shared s) a = some g := by
      cases hg : common (shared s) a with
      | none => simp [hg] at hcommon
      | some g => exact ⟨g, rfl⟩
    obtain ⟨mid, hstep⟩ := h.accepts hs hg fun k hkey => by
      have hk := hsingle k
      rw [own_cons_of_key hkey, List.foldlM_cons] at hk
      cases hfirst : single (slot s k) a with
      | none => simp [hfirst] at hk
      | some next => rfl
    obtain ⟨t, hrest⟩ := ih (h.keeps hs hstep)
      (by rw [h.moves hs hstep] at hcommon; exact hcommon) fun k => by
        have hk := hsingle k
        by_cases hkey : key a = some k
        · rw [own_cons_of_key hkey, List.foldlM_cons, h.slot_own hs hstep hkey] at hk
          exact hk
        · rw [own_cons_of_ne hkey] at hk
          rw [h.slot_other hs hstep hkey]
          exact hk
    exact ⟨t, foldlM_cons_eq_ok.mpr ⟨mid, hstep, hrest⟩⟩

end Splits

end Family
