import Mathlib.Data.List.Basic

/-! # Code between two awaits

A coroutine that shares its state with others runs alone from one await to the next. Such a
stretch may raise, and what it wrote before stays. -/

universe u v

/-- A stretch of code: what it raises, and the state that it leaves. -/
abbrev Stretch (ε : Type u) (σ : Type v) := σ → Except ε Unit × σ

namespace Stretch

variable {ε : Type u} {σ : Type v}

def write (f : σ → σ) : Stretch ε σ := fun s => (.ok (), f s)

def andThen (p q : Stretch ε σ) : Stretch ε σ := fun s =>
  match p s with
  | (.ok (), t) => q t
  | (.error e, t) => (.error e, t)

/-- `try: p` with `except BaseException as e: handler e; raise`. -/
def rescue (p : Stretch ε σ) (handler : ε → Stretch ε σ) : Stretch ε σ := fun s =>
  match p s with
  | (.ok (), t) => (.ok (), t)
  | (.error e, t) => andThen (handler e) (fun u => (.error e, u)) t

/-- `try: p` with `finally: q`. -/
def ensure (p q : Stretch ε σ) : Stretch ε σ := fun s =>
  match p s with
  | (.ok (), t) => q t
  | (.error e, t) => andThen q (fun u => (.error e, u)) t

/-- `for x in xs: p x`. -/
def each {α : Type*} (p : α → Stretch ε σ) : List α → Stretch ε σ
  | [] => write id
  | x :: xs => andThen (p x) (each p xs)

/-! ## What a stretch leaves -/

/-- From a state with `P` the stretch returns in a state with `Q`, or raises in one with `R`. -/
def Leaves (P : σ → Prop) (p : Stretch ε σ) (Q R : σ → Prop) : Prop :=
  ∀ s, P s → ((p s).1 = .ok () → Q (p s).2) ∧ (∀ e, (p s).1 = .error e → R (p s).2)

variable {P Q R Q' R' : σ → Prop} {p q : Stretch ε σ}

theorem leaves_write {f : σ → σ} (h : ∀ s, P s → Q (f s)) : Leaves P (write (ε := ε) f) Q R :=
  fun s hs => ⟨fun _ => h s hs, fun _ he => nomatch he⟩

theorem Leaves.mono (h : Leaves P p Q R) (hq : ∀ s, Q s → Q' s) (hr : ∀ s, R s → R' s) :
    Leaves P p Q' R' :=
  fun s hs => ⟨fun hok => hq _ ((h s hs).1 hok), fun e he => hr _ ((h s hs).2 e he)⟩

theorem Leaves.andThen (h : Leaves P p Q R) (k : Leaves Q q Q' R) :
    Leaves P (andThen p q) Q' R := by
  intro s hs
  obtain ⟨hok, herr⟩ := h s hs
  unfold Stretch.andThen
  split
  · rename_i t heq
    rw [heq] at hok
    exact k t (hok rfl)
  · rename_i e t heq
    rw [heq] at herr
    exact ⟨fun hc => (nomatch hc), fun _ _ => herr e rfl⟩

theorem Leaves.reraise {e : ε} (h : Leaves P p R R') :
    Leaves P (Stretch.andThen p fun u => (.error e, u)) Q fun s => R s ∨ R' s :=
  (h.mono (fun _ => id) fun _ hr => Or.inr hr).andThen fun _ hs =>
    ⟨fun hc => (nomatch hc), fun _ _ => Or.inl hs⟩

theorem Leaves.rescue {handler : ε → Stretch ε σ} (h : Leaves P p Q R)
    (k : ∀ e, Leaves R (handler e) R' R') : Leaves P (rescue p handler) Q R' := by
  intro s hs
  obtain ⟨hok, herr⟩ := h s hs
  unfold Stretch.rescue
  split
  · rename_i t heq
    rw [heq] at hok
    exact ⟨fun _ => hok rfl, fun _ hc => (nomatch hc)⟩
  · rename_i e t heq
    rw [heq] at herr
    exact ((k e).reraise.mono (fun _ => id) fun _ hr => hr.elim id id) t (herr e rfl)

theorem Leaves.ensure (h : Leaves P p Q R) (k : Leaves Q q Q' R') (l : Leaves R q R' R') :
    Leaves P (ensure p q) Q' R' := by
  intro s hs
  obtain ⟨hok, herr⟩ := h s hs
  unfold Stretch.ensure
  split
  · rename_i t heq
    rw [heq] at hok
    exact k t (hok rfl)
  · rename_i e t heq
    rw [heq] at herr
    exact (l.reraise.mono (fun _ => id) fun _ hr => hr.elim id id) t (herr e rfl)

theorem leaves_each {α : Type*} {p : α → Stretch ε σ} {xs : List α}
    (h : ∀ x ∈ xs, Leaves P (p x) P P) : Leaves P (each p xs) P P := by
  induction xs with
  | nil => exact leaves_write fun _ hs => hs
  | cons x xs ih =>
    exact (h x List.mem_cons_self).andThen (ih fun y hy => h y (List.mem_cons_of_mem _ hy))

/-- What the stretch leaves, whether it raises or not. -/
theorem Leaves.state (h : Leaves P p Q Q) {s : σ} (hs : P s) : Q (p s).2 := by
  obtain ⟨hok, herr⟩ := h s hs
  cases hresult : (p s).1 with
  | ok u => exact hok hresult
  | error e => exact herr e hresult

/-! ## What a stretch does not touch -/

variable {β : Type*} {f : σ → β}

/-- The stretch leaves `f` of the state alone. -/
def Keeps (f : σ → β) (p : Stretch ε σ) : Prop := ∀ s, f (p s).2 = f s

theorem keeps_write {g : σ → σ} (h : ∀ s, f (g s) = f s) : Keeps f (write (ε := ε) g) := h

theorem Keeps.andThen (h : Keeps f p) (k : Keeps f q) : Keeps f (andThen p q) := by
  intro s
  have hs := h s
  unfold Stretch.andThen
  split
  · rename_i t heq
    rw [heq] at hs
    exact (k t).trans hs
  · rename_i e t heq
    rw [heq] at hs
    exact hs

theorem Keeps.reraise {e : ε} (h : Keeps f p) :
    Keeps f (Stretch.andThen p fun u => (.error e, u)) :=
  h.andThen fun _ => rfl

theorem Keeps.rescue {handler : ε → Stretch ε σ} (h : Keeps f p) (k : ∀ e, Keeps f (handler e)) :
    Keeps f (rescue p handler) := by
  intro s
  have hs := h s
  unfold Stretch.rescue
  split
  · rename_i t heq
    rw [heq] at hs
    exact hs
  · rename_i e t heq
    rw [heq] at hs
    exact ((k e).reraise t).trans hs

theorem Keeps.ensure (h : Keeps f p) (k : Keeps f q) : Keeps f (ensure p q) := by
  intro s
  have hs := h s
  unfold Stretch.ensure
  split
  · rename_i t heq
    rw [heq] at hs
    exact (k t).trans hs
  · rename_i e t heq
    rw [heq] at hs
    exact (k.reraise t).trans hs

theorem keeps_each {α : Type*} {p : α → Stretch ε σ} {xs : List α} (h : ∀ x ∈ xs, Keeps f (p x)) :
    Keeps f (each p xs) := by
  induction xs with
  | nil => exact keeps_write fun _ => rfl
  | cons x xs ih =>
    exact (h x List.mem_cons_self).andThen (ih fun y hy => h y (List.mem_cons_of_mem _ hy))

end Stretch
