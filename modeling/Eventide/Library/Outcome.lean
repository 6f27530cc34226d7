import Mathlib.Logic.Basic
import Mathlib.Data.List.Perm.Basic
import Mathlib.Algebra.BigOperators.Group.List.Basic
import Mathlib.Algebra.GroupWithZero.Nat
import Mathlib.Algebra.Ring.Int.Defs
import Eventide.Library.Sequence

/-! # Fallible steps and the runs they make

Inversion rules for `Except` programs, and the two induction rules for a run of a
state machine whose every call either commits a new state or leaves the old one. -/

namespace Outcome

universe u

variable {ε α β γ σ ι : Type u}

theorem bind_eq_ok {x : Except ε α} {f : α → Except ε β} {b : β} :
    (x >>= f) = .ok b ↔ ∃ a, x = .ok a ∧ f a = .ok b := by
  cases x with
  | error e => simp [bind, Except.bind]
  | ok a => simp [bind, Except.bind]

@[simp] theorem ok_bind (a : α) (f : α → Except ε β) : ((.ok a : Except ε α) >>= f) = f a := rfl

@[simp] theorem error_bind (e : ε) (f : α → Except ε β) :
    ((.error e : Except ε α) >>= f) = .error e := rfl

@[simp] theorem pure_eq_ok (a : α) : (pure a : Except ε α) = .ok a := rfl

theorem map_eq_ok {x : Except ε α} {f : α → β} {b : β} :
    x.map f = .ok b ↔ ∃ a, x = .ok a ∧ f a = b := by
  cases x <;> simp [Except.map]

theorem map_eq_error {x : Except ε α} {f : α → β} {error : ε}
    (h : x.map f = .error error) : x = .error error := by
  cases x with
  | error e => simpa [Except.map] using h
  | ok a => simp [Except.map] at h

theorem mapError_eq_ok {x : Except ε α} {f : ε → γ} {a : α} :
    x.mapError f = .ok a ↔ x = .ok a := by
  cases x <;> simp [Except.mapError]

theorem mapM_eq_ok {f : α → Except ε β} {xs : List α} {ys : List β} :
    xs.mapM f = .ok ys ↔ List.Forall₂ (fun x y => f x = .ok y) xs ys := by
  induction xs generalizing ys with
  | nil => simp [eq_comm]
  | cons x xs ih =>
    simp only [List.mapM_cons, bind_eq_ok, pure_eq_ok, Except.ok.injEq, ih]
    constructor
    · rintro ⟨z, hz, zs, hzs, rfl⟩
      exact .cons hz hzs
    · intro h
      cases h with
      | cons hz hzs => exact ⟨_, hz, _, hzs, rfl⟩

/-- Every result of a mapped list comes from an item of it. -/
theorem mem_of_mapM {f : α → Except ε β} {xs : List α} {ys : List β}
    (h : xs.mapM f = .ok ys) {y : β} (hy : y ∈ ys) : ∃ x ∈ xs, f x = .ok y :=
  Sequence.mem_of_forall₂ (mapM_eq_ok.mp h).flip hy

/-- Every item of a mapped list has its result there. -/
theorem mapM_mem {f : α → Except ε β} {xs : List α} {ys : List β}
    (h : xs.mapM f = .ok ys) {x : α} (hx : x ∈ xs) : ∃ y ∈ ys, f x = .ok y :=
  Sequence.mem_of_forall₂ (mapM_eq_ok.mp h) hx

theorem exists_mapM_ok {f : α → Except ε β} {xs : List α} (h : ∀ x ∈ xs, ∃ y, f x = .ok y) :
    ∃ ys, xs.mapM f = .ok ys := by
  induction xs with
  | nil => exact ⟨[], rfl⟩
  | cons x xs ih =>
    obtain ⟨y, hy⟩ := h x (by simp)
    obtain ⟨ys, hys⟩ := ih fun z hz => h z (by simp [hz])
    exact ⟨y :: ys, by simp [List.mapM_cons, hy, hys]⟩

/-- Mapping the same items in another order gives the same results in another order. -/
theorem mapM_perm {f : α → Except ε β} {xs zs : List α} {ys : List β} (hp : zs.Perm xs)
    (h : xs.mapM f = .ok ys) : ∃ ws, zs.mapM f = .ok ws ∧ ws.Perm ys := by
  obtain ⟨ws, hw, hp⟩ := List.perm_comp_forall₂ hp (mapM_eq_ok.mp h)
  exact ⟨ws, mapM_eq_ok.mpr hw, hp⟩

/-- A mapped list keeps an image of its items that each result remembers. -/
theorem map_of_mapM {f : α → Except ε β} {g : α → γ} {key : β → γ} {xs : List α} {ys : List β}
    (hk : ∀ x ∈ xs, ∀ y, f x = .ok y → key y = g x) (h : xs.mapM f = .ok ys) :
    ys.map key = xs.map g := by
  have hf := mapM_eq_ok.mp h
  clear h
  induction hf with
  | nil => rfl
  | cons hz _ ih =>
    rw [List.map_cons, List.map_cons, hk _ (by simp) _ hz,
      ih fun x hx => hk x (List.mem_cons_of_mem _ hx)]

/-- A fold may leave out the items that it would skip. -/
theorem foldlM_filter {f : σ → α → Except ε σ} {keep : α → Bool}
    (h : ∀ s x, keep x = false → f s x = .ok s) (xs : List α) (s : σ) :
    (xs.filter keep).foldlM f s = xs.foldlM f s := by
  induction xs generalizing s with
  | nil => rfl
  | cons x xs ih =>
    cases hx : keep x with
    | true => simp only [List.filter_cons_of_pos hx, List.foldlM_cons, ih]
    | false => simp [hx, h s x hx, ih]

/-- A fold over a list with one more item takes one more step. -/
theorem foldlM_concat_eq_ok {f : σ → α → Except ε σ} {xs : List α} {x : α} {s t : σ} :
    (xs ++ [x]).foldlM f s = .ok t ↔ ∃ mid, xs.foldlM f s = .ok mid ∧ f mid x = .ok t := by
  simp [List.foldlM_append, bind_eq_ok]

/-- A fold that spends from a budget is defined where each item suits the state that it finds and
the budget holds out to the end. -/
theorem foldlM_budget {f : σ → α → Except ε σ} {spent : σ → ℕ} {cost : α → ℕ} {budget : ℕ}
    {suits : σ → α → Prop} {next : σ → α → σ}
    (hf : ∀ s x t, spent s ≤ budget →
      (f s x = .ok t ↔ suits s x ∧ spent s + cost x ≤ budget ∧ t = next s x))
    (hspent : ∀ s x, spent (next s x) = spent s + cost x) {xs : List α} {s t : σ}
    (hs : spent s ≤ budget) : xs.foldlM f s = .ok t ↔
      (∀ before x after, xs = before ++ x :: after → suits (before.foldl next s) x) ∧
        spent s + (xs.map cost).sum ≤ budget ∧ t = xs.foldl next s := by
  induction xs generalizing s with
  | nil => simp [hs, pure, Except.pure, eq_comm]
  | cons x xs ih =>
    rw [List.foldlM_cons, List.foldl_cons, List.map_cons, List.sum_cons]
    constructor
    · intro h
      obtain ⟨mid, hmid, hrest⟩ := bind_eq_ok.mp h
      obtain ⟨hx, hcost, rfl⟩ := (hf s x mid hs).mp hmid
      obtain ⟨hsuits, hsum, rfl⟩ := (ih (hspent s x ▸ hcost)).mp hrest
      refine ⟨fun before y after heq => ?_, by rw [hspent] at hsum; omega, rfl⟩
      cases before with
      | nil =>
        cases heq
        exact hx
      | cons z before =>
        cases heq
        exact hsuits before y after rfl
    · rintro ⟨hsuits, hsum, rfl⟩
      have hcost : spent s + cost x ≤ budget := by omega
      refine bind_eq_ok.mpr ⟨_, (hf s x _ hs).mpr ⟨hsuits [] x xs rfl, hcost, rfl⟩, ?_⟩
      refine (ih (hspent s x ▸ hcost)).mpr ⟨fun before y after heq => ?_, ?_, rfl⟩
      · exact hsuits (x :: before) y after (by rw [heq, List.cons_append])
      · rw [hspent]
        omega

theorem forM_eq_ok {f : α → Except ε PUnit.{u + 1}} {xs : List α} :
    xs.forM f = .ok ⟨⟩ ↔ ∀ x ∈ xs, f x = .ok ⟨⟩ := by
  induction xs with
  | nil => simp [pure, Except.pure]
  | cons x xs ih =>
    have hcons : (x :: xs).forM f = f x >>= fun _ => xs.forM f := rfl
    rw [hcons, bind_eq_ok, ih, List.forall_mem_cons]
    constructor
    · rintro ⟨⟨⟩, hx, hxs⟩
      exact ⟨hx, hxs⟩
    · rintro ⟨hx, hxs⟩
      exact ⟨⟨⟩, hx, hxs⟩

/-- The items that a fallible test keeps. -/
def select (test : α → Except ε Bool) : List α → Except ε (List α)
  | [] => .ok []
  | x :: xs =>
    match test x with
    | .error e => .error e
    | .ok kept => (select test xs).map fun rest => if kept then x :: rest else rest

theorem select_true (xs : List α) : select (fun _ => (.ok true : Except ε Bool)) xs = .ok xs := by
  induction xs with
  | nil => rfl
  | cons x xs ih => simp [select, ih, Except.map]

/-- `if condition: raise error`. -/
def raiseIf (condition : Prop) [Decidable condition] (error : ε) : Except ε Unit :=
  if condition then .error error else .ok ()

@[simp] theorem raiseIf_eq_ok {condition : Prop} [Decidable condition] {error : ε} {u : Unit} :
    raiseIf condition error = .ok u ↔ ¬ condition := by
  unfold raiseIf
  split <;> simp [*]

theorem raiseIf_of_not {condition : Prop} [Decidable condition] {error : ε}
    (h : ¬ condition) : raiseIf condition error = .ok () := if_neg h

/-- `with connection:` commits what the body returns and rolls a raising body back. -/
def transaction (state : σ) (body : Except ε (α × σ)) : Except ε α × σ :=
  match body with
  | .ok (result, state) => (.ok result, state)
  | .error error => (.error error, state)

@[simp] theorem transaction_ok (s t : σ) (a : α) :
    transaction s (.ok (a, t) : Except ε (α × σ)) = (.ok a, t) := rfl

@[simp] theorem transaction_error (s : σ) (e : ε) :
    transaction s (.error e : Except ε (α × σ)) = (.error e, s) := rfl

theorem transaction_eq (s : σ) (body : Except ε (α × σ)) :
    (∃ a t, body = .ok (a, t) ∧ transaction s body = (.ok a, t)) ∨
      ∃ e, body = .error e ∧ transaction s body = (.error e, s) := by
  cases body with
  | ok p => exact Or.inl ⟨p.1, p.2, rfl, rfl⟩
  | error e => exact Or.inr ⟨e, rfl, rfl⟩

/-- A raising transaction leaves its state; a returning one satisfies what its body does. -/
theorem transaction_relates {R : σ → σ → Prop} (hr : ∀ s, R s s) (s : σ)
    {body : Except ε (α × σ)} (h : ∀ a t, body = .ok (a, t) → R s t) :
    R s (transaction s body).2 := by
  rcases transaction_eq s body with ⟨a, t, hb, he⟩ | ⟨e, -, he⟩
  · rw [he]; exact h a t hb
  · rw [he]; exact hr s

theorem transaction_eq_ok {s t : σ} {body : Except ε (α × σ)} {a : α} :
    transaction s body = (.ok a, t) ↔ body = .ok (a, t) := by
  cases body with
  | ok p => simp [transaction, Prod.ext_iff]
  | error e => simp [transaction]

/-- A transaction that raises is rolled back. -/
theorem transaction_unchanged {s : σ} {body : Except ε (α × σ)} {error : ε}
    (h : (transaction s body).1 = .error error) : (transaction s body).2 = s := by
  rcases transaction_eq s body with ⟨a, t, -, heq⟩ | ⟨e, -, heq⟩
  · simp [heq] at h
  · rw [heq]

theorem eq_ok_of_toOption {x : Except ε α} {a : α} (h : x.toOption = some a) : x = .ok a := by
  cases x with
  | error e => cases h
  | ok b => exact congrArg Except.ok (Option.some.inj h)

/-- An outcome is known to be a result before the result is known. -/
theorem eq_ok_of_isSome {outcome : Except ε α × σ} (h : outcome.1.toOption.isSome = true) :
    ∃ a, outcome = (.ok a, outcome.2) := by
  obtain ⟨e | a, s⟩ := outcome
  · cases h
  · exact ⟨a, rfl⟩

/-- What is asked of a result can be computed where it can be of every value. -/
instance decidableForallOk (x : Except ε α) (p : α → Prop) [∀ a, Decidable (p a)] :
    Decidable (∀ a, x = .ok a → p a) :=
  match x with
  | .error _ => .isTrue fun _ h => by cases h
  | .ok a => decidable_of_iff (p a) ⟨fun h b hb => by cases hb; exact h, fun h => h a rfl⟩

/-- The state after a list of calls. -/
def runCalls (step : σ → ι → σ) (s : σ) (calls : List ι) : σ := calls.foldl step s

@[simp] theorem runCalls_nil (step : σ → ι → σ) (s : σ) : runCalls step s [] = s := rfl

@[simp] theorem runCalls_cons (step : σ → ι → σ) (s : σ) (c : ι) (calls : List ι) :
    runCalls step s (c :: calls) = runCalls step (step s c) calls := rfl

theorem runCalls_append (step : σ → ι → σ) (s : σ) (calls more : List ι) :
    runCalls step s (calls ++ more) = runCalls step (runCalls step s calls) more := by
  simp [runCalls]

/-- What every call preserves, every run preserves. -/
theorem runCalls_invariant {step : σ → ι → σ} {I : σ → Prop}
    (hstep : ∀ s c, I s → I (step s c)) {s : σ} (h : I s) (calls : List ι) :
    I (runCalls step s calls) := by
  induction calls generalizing s with
  | nil => exact h
  | cons c calls ih => exact ih (hstep s c h)

end Outcome
