import Mathlib.Data.List.Basic

/-! # Programs that interact

A program puts questions to its environment and goes on with whatever is answered, an
exception included. Its history is what was asked and answered so far; a safety property
bounds every answer of every history, and is proved along the program. -/

namespace Interaction

/-- A question with its answer. -/
abbrev Exchange (Q : Type) (R : Q → Type) (E : Type) := (q : Q) × Except E (R q)

inductive Program (Q : Type) (R : Q → Type) (E : Type) (α : Type) : Type where
  | done (value : α)
  | raise (error : E)
  | ask (q : Q) (next : Except E (R q) → Program Q R E α)

variable {Q : Type} {R : Q → Type} {E : Type} {α β : Type}

namespace Program

def bind (f : α → Program Q R E β) : Program Q R E α → Program Q R E β
  | done value => f value
  | raise error => raise error
  | ask q next => ask q fun answer => (next answer).bind f

/-- `try … except`. -/
def handle (f : E → Program Q R E α) : Program Q R E α → Program Q R E α
  | done value => done value
  | raise error => f error
  | ask q next => ask q fun answer => (next answer).handle f

instance : Monad (Program Q R E) where
  pure := done
  bind p f := p.bind f

instance : MonadExceptOf E (Program Q R E) where
  throw := raise
  tryCatch p f := p.handle f

/-- A question whose exception is raised. -/
def call (q : Q) : Program Q R E (R q) :=
  ask q fun
    | .ok value => done value
    | .error error => raise error

/-- The outcome as a value. -/
def attempt (p : Program Q R E α) : Program Q R E (Except E α) :=
  (p.bind fun value => done (.ok value)).handle fun error => done (.error error)

/-! ## Histories -/

/-- The program has asked the exchanges of a list and is left with another program. -/
inductive Reaches : Program Q R E α → List (Exchange Q R E) → Program Q R E α → Prop
  | here (p : Program Q R E α) : Reaches p [] p
  | asked {q : Q} {next : Except E (R q) → Program Q R E α} {answer : Except E (R q)}
      {rest : List (Exchange Q R E)} {p : Program Q R E α} (h : Reaches (next answer) rest p) :
      Reaches (ask q next) (⟨q, answer⟩ :: rest) p

/-- After the history `h`, whatever is answered, every exchange meets `P` with the history
before it, and the outcome meets `post` with the whole history. -/
def Safe (P : List (Exchange Q R E) → Exchange Q R E → Prop) :
    Program Q R E α → List (Exchange Q R E) → (List (Exchange Q R E) → Except E α → Prop) → Prop
  | done value, h, post => post h (.ok value)
  | raise error, h, post => post h (.error error)
  | ask q next, h, post =>
    ∀ answer, P h ⟨q, answer⟩ ∧ Safe P (next answer) (h ++ [⟨q, answer⟩]) post

variable {P : List (Exchange Q R E) → Exchange Q R E → Prop} {p : Program Q R E α}
  {h : List (Exchange Q R E)}

theorem safe_throw {error : E} {post : List (Exchange Q R E) → Except E α → Prop} :
    (throw error : Program Q R E α).Safe P h post ↔ post h (.error error) := Iff.rfl

theorem Safe.mono {post post' : List (Exchange Q R E) → Except E α → Prop}
    (hs : p.Safe P h post) (hp : ∀ h' r, post h' r → post' h' r) : p.Safe P h post' := by
  induction p generalizing h with
  | done value => exact hp _ _ hs
  | raise error => exact hp _ _ hs
  | ask q next ih => exact fun answer => ⟨(hs answer).1, ih answer (hs answer).2⟩

/-- The rule of sequential composition. -/
theorem safe_bind {f : α → Program Q R E β} {post : List (Exchange Q R E) → Except E β → Prop} :
    (p >>= f).Safe P h post ↔ p.Safe P h fun h' r =>
      match r with
      | .ok value => (f value).Safe P h' post
      | .error error => post h' (.error error) := by
  change (p.bind f).Safe P h post ↔ _
  induction p generalizing h with
  | done value => rfl
  | raise error => rfl
  | ask q next ih =>
    unfold Program.bind Safe
    exact forall_congr' fun answer => and_congr_right fun _ => ih answer

/-- The rule of `try … except`. -/
theorem safe_handle {f : E → Program Q R E α} {post : List (Exchange Q R E) → Except E α → Prop} :
    (p.handle f).Safe P h post ↔ p.Safe P h fun h' r =>
      match r with
      | .ok value => post h' (.ok value)
      | .error error => (f error).Safe P h' post := by
  induction p generalizing h with
  | done value => rfl
  | raise error => rfl
  | ask q next ih =>
    unfold handle Safe
    exact forall_congr' fun answer => and_congr_right fun _ => ih answer

theorem safe_attempt {post : List (Exchange Q R E) → Except E (Except E α) → Prop} :
    p.attempt.Safe P h post ↔ p.Safe P h fun h' r => post h' (.ok r) := by
  unfold attempt
  rw [safe_handle]
  change (p >>= fun value => (done (Except.ok value) : Program Q R E (Except E α))).Safe P h _ ↔ _
  rw [safe_bind]
  constructor
  · refine fun hs => hs.mono fun h' r hr => ?_
    cases r with
    | ok value => exact hr
    | error error => exact hr
  · refine fun hs => hs.mono fun h' r hr => ?_
    cases r with
    | ok value => exact hr
    | error error => exact hr

theorem safe_call {q : Q} {post : List (Exchange Q R E) → Except E (R q) → Prop} :
    (call q : Program Q R E (R q)).Safe P h post ↔
      ∀ answer, P h ⟨q, answer⟩ ∧ post (h ++ [⟨q, answer⟩]) answer := by
  refine forall_congr' fun answer => and_congr_right fun _ => ?_
  cases answer <;> rfl

/-- The rule of sequential composition, through what the first program leaves. -/
theorem Safe.bind {f : α → Program Q R E β} {first : List (Exchange Q R E) → Except E α → Prop}
    {post : List (Exchange Q R E) → Except E β → Prop} (hs : p.Safe P h first)
    (hok : ∀ h' value, first h' (.ok value) → (f value).Safe P h' post)
    (herror : ∀ h' error, first h' (.error error) → post h' (.error error)) :
    (p >>= f).Safe P h post := by
  rw [safe_bind]
  refine hs.mono fun h' r hr => ?_
  cases r with
  | ok value => exact hok h' value hr
  | error error => exact herror h' error hr

/-- A history only grows. -/
theorem Safe.grows {post : List (Exchange Q R E) → Except E α → Prop} (hs : p.Safe P h post) :
    p.Safe P h fun h' r => h <+: h' ∧ post h' r := by
  induction p generalizing h with
  | done value => exact ⟨List.prefix_rfl, hs⟩
  | raise error => exact ⟨List.prefix_rfl, hs⟩
  | ask q next ih =>
    refine fun answer => ⟨(hs answer).1, (ih answer (hs answer).2).mono fun h' r hr => ?_⟩
    exact ⟨(List.prefix_append _ _).trans hr.1, hr.2⟩

/-- The rule of sequential composition where only the growth of the history is kept. -/
theorem Safe.seq {f : α → Program Q R E β} (hs : p.Safe P h fun _ _ => True)
    (hf : ∀ h' value, h <+: h' → (f value).Safe P h' fun _ _ => True) :
    (p >>= f).Safe P h fun _ _ => True :=
  hs.grows.bind (fun h' value hr => hf h' value hr.1) fun _ _ _ => trivial

/-! ## Footprints -/

/-- Whatever is answered, only questions of a kind are asked. -/
def Uses (allowed : Q → Prop) : Program Q R E α → Prop
  | done _ | raise _ => True
  | ask q next => allowed q ∧ ∀ answer, (next answer).Uses allowed

section Uses

variable {allowed : Q → Prop}

theorem uses_pure (value : α) : (pure value : Program Q R E α).Uses allowed := trivial

theorem uses_throw (error : E) : (throw error : Program Q R E α).Uses allowed := trivial

theorem Uses.bind {f : α → Program Q R E β} (hp : p.Uses allowed)
    (hf : ∀ value, (f value).Uses allowed) : (p >>= f).Uses allowed := by
  change (p.bind f).Uses allowed
  induction p with
  | done value => exact hf value
  | raise error => trivial
  | ask q next ih => exact ⟨hp.1, fun answer => ih answer (hp.2 answer)⟩

theorem Uses.handle {f : E → Program Q R E α} (hp : p.Uses allowed)
    (hf : ∀ error, (f error).Uses allowed) : (p.handle f).Uses allowed := by
  induction p with
  | done value => trivial
  | raise error => exact hf error
  | ask q next ih => exact ⟨hp.1, fun answer => ih answer (hp.2 answer)⟩

theorem Uses.attempt (hp : p.Uses allowed) : p.attempt.Uses allowed := by
  have hvalue : (p >>= fun value => (done (Except.ok value) : Program Q R E (Except E α))).Uses
      allowed := hp.bind fun _ => trivial
  exact hvalue.handle fun _ => trivial

theorem uses_call {q : Q} (hq : allowed q) : (call q : Program Q R E (R q)).Uses allowed := by
  refine ⟨hq, fun answer => ?_⟩
  cases answer <;> trivial

theorem Uses.mono {allowed' : Q → Prop} (hp : p.Uses allowed) (h : ∀ q, allowed q → allowed' q) :
    p.Uses allowed' := by
  induction p with
  | done value => trivial
  | raise error => trivial
  | ask q next ih => exact ⟨h q hp.1, fun answer => ih answer (hp.2 answer)⟩

/-- What a footprint adds to a history. -/
theorem Uses.safe (hp : p.Uses allowed) (hP : ∀ h q answer, allowed q → P h ⟨q, answer⟩) :
    p.Safe P h fun h' _ => ∃ asked, h' = h ++ asked ∧ ∀ exchange ∈ asked, allowed exchange.1 := by
  induction p generalizing h with
  | done value => exact ⟨[], by simp⟩
  | raise error => exact ⟨[], by simp⟩
  | ask q next ih =>
    refine fun answer => ⟨hP h q answer hp.1, (ih answer (hp.2 answer)).mono fun h' r hr => ?_⟩
    obtain ⟨asked, rfl, hasked⟩ := hr
    exact ⟨⟨q, answer⟩ :: asked, by simp, List.forall_mem_cons.mpr ⟨hp.1, hasked⟩⟩

end Uses

/-- What is safe stays safe wherever the program gets. -/
theorem Safe.reaches {post : List (Exchange Q R E) → Except E α → Prop}
    {asked : List (Exchange Q R E)} {p' : Program Q R E α} (hs : p.Safe P h post)
    (hr : Reaches p asked p') :
    (∀ before exchange after, asked = before ++ exchange :: after → P (h ++ before) exchange) ∧
      p'.Safe P (h ++ asked) post := by
  induction hr generalizing h with
  | here p => exact ⟨by simp, by simpa using hs⟩
  | @asked q next answer rest p hr ih =>
    obtain ⟨hfirst, hrest⟩ := hs answer
    obtain ⟨hbefore, hend⟩ := ih hrest
    refine ⟨?_, by simpa using hend⟩
    intro before exchange after he
    cases before with
    | nil =>
      obtain ⟨rfl, -⟩ := List.cons.inj he
      simpa using hfirst
    | cons first before =>
      obtain ⟨rfl, hrest'⟩ := List.cons.inj he
      simpa using hbefore before exchange after hrest'

/-- The safety of a whole program, from an empty history. -/
theorem Safe.always {post : List (Exchange Q R E) → Except E α → Prop}
    {before after : List (Exchange Q R E)} {exchange : Exchange Q R E} {p' : Program Q R E α}
    (hs : p.Safe P [] post) (hr : Reaches p (before ++ exchange :: after) p') :
    P before exchange := by
  simpa using (hs.reaches hr).1 before exchange after rfl

/-! ## Running against an environment -/

theorem Reaches.concat {asked : List (Exchange Q R E)} {q : Q}
    {next : Except E (R q) → Program Q R E α} (hr : Reaches p asked (ask q next))
    (answer : Except E (R q)) : Reaches p (asked ++ [⟨q, answer⟩]) (next answer) := by
  generalize hp : ask q next = p' at hr
  induction hr with
  | here p => exact hp ▸ .asked (.here _)
  | asked hr ih => exact .asked (ih hp)

/-- A number of questions, answered by an environment. -/
def runWith (env : (q : Q) → Except E (R q)) : ℕ → Program Q R E α →
    List (Exchange Q R E) × Program Q R E α
  | n + 1, ask q next =>
    let (asked, rest) := runWith env n (next (env q))
    (⟨q, env q⟩ :: asked, rest)
  | _, p => ([], p)

theorem reaches_runWith (env : (q : Q) → Except E (R q)) (n : ℕ) (p : Program Q R E α) :
    Reaches p (p.runWith env n).1 (p.runWith env n).2 := by
  induction n generalizing p with
  | zero => cases p <;> exact .here _
  | succ n ih =>
    cases p with
    | ask q next => exact .asked (ih _)
    | done | raise => exact .here _

/-- What is asked next. -/
def question? : Program Q R E α → Option Q
  | ask q _ => some q
  | _ => none

theorem reaches_question {env : (q : Q) → Except E (R q)} {n : ℕ} {q : Q}
    (h : (p.runWith env n).2.question? = some q) :
    ∃ rest, Reaches p ((p.runWith env n).1 ++ [⟨q, env q⟩]) rest := by
  have hr := reaches_runWith env n p
  cases hp : (p.runWith env n).2 with
  | ask q' next =>
    rw [hp] at h hr
    obtain rfl : q' = q := Option.some.inj h
    exact ⟨_, hr.concat (env q')⟩
  | done | raise => rw [hp] at h; cases h

/-! ## Executions that change a state -/

section Executions

variable {S : Type}

/-- The program runs to its outcome, each question answered by one step on the state. -/
inductive Executes (step : (q : Q) → Except E (R q) → S → S → Prop) :
    Program Q R E α → S → Except E α → S → Prop
  | done (value : α) (s : S) : Executes step (done value) s (.ok value) s
  | raise (error : E) (s : S) : Executes step (raise error) s (.error error) s
  | ask {q : Q} {next : Except E (R q) → Program Q R E α} {answer : Except E (R q)} {s t u : S}
      {outcome : Except E α} (hstep : step q answer s t)
      (hrest : Executes step (next answer) t outcome u) : Executes step (ask q next) s outcome u

variable {step : (q : Q) → Except E (R q) → S → S → Prop} {s t : S}

theorem executes_call {q : Q} {answer : Except E (R q)} (h : step q answer s t) :
    Executes step (call q : Program Q R E (R q)) s answer t := by
  refine .ask h ?_
  cases answer with
  | ok value => exact .done value t
  | error error => exact .raise error t

theorem Executes.bind {f : α → Program Q R E β} {value : α} {outcome : Except E β} {u : S}
    (hp : Executes step p s (.ok value) t) (hf : Executes step (f value) t outcome u) :
    Executes step (p >>= f) s outcome u := by
  generalize hr : (Except.ok value : Except E α) = r at hp
  induction hp with
  | done value' s =>
    obtain rfl := Except.ok.inj hr
    exact hf
  | raise error s => cases hr
  | ask hstep _ ih => exact .ask hstep (ih hf hr)

theorem Executes.bind_error {f : α → Program Q R E β} {error : E}
    (hp : Executes step p s (.error error) t) : Executes step (p >>= f) s (.error error) t := by
  generalize hr : (Except.error error : Except E α) = r at hp
  induction hp with
  | done value s => cases hr
  | raise error' s =>
    obtain rfl := Except.error.inj hr
    exact .raise error s
  | ask hstep _ ih => exact .ask hstep (ih hr)

theorem Executes.attempt {outcome : Except E α} (hp : Executes step p s outcome t) :
    Executes step p.attempt s (.ok outcome) t := by
  induction hp with
  | done value s => exact .done (Except.ok value) s
  | raise error s => exact .done (Except.error error) s
  | ask hstep _ ih => exact .ask hstep ih

/-- Whatever the steps answer, the outcome and the state reached with it meet `post`. -/
def Leads (step : (q : Q) → Except E (R q) → S → S → Prop) :
    Program Q R E α → S → (Except E α → S → Prop) → Prop
  | done value, s, post => post (.ok value) s
  | raise error, s, post => post (.error error) s
  | ask q next, s, post => ∀ answer t, step q answer s t → Leads step (next answer) t post

theorem Leads.executes {post : Except E α → S → Prop} {outcome : Except E α}
    (hl : p.Leads step s post) (he : Executes step p s outcome t) : post outcome t := by
  induction he with
  | done value s => exact hl
  | raise error s => exact hl
  | ask hstep hrest ih => exact ih (hl _ _ hstep)

theorem Leads.mono {post post' : Except E α → S → Prop} (hl : p.Leads step s post)
    (hp : ∀ r t, post r t → post' r t) : p.Leads step s post' := by
  induction p generalizing s with
  | done value => exact hp _ _ hl
  | raise error => exact hp _ _ hl
  | ask q next ih => exact fun answer t hstep => ih answer (hl answer t hstep)

/-- The rule of sequential composition. -/
theorem leads_bind {f : α → Program Q R E β} {post : Except E β → S → Prop} :
    (p >>= f).Leads step s post ↔ p.Leads step s fun r t =>
      match r with
      | .ok value => (f value).Leads step t post
      | .error error => post (.error error) t := by
  change (p.bind f).Leads step s post ↔ _
  induction p generalizing s with
  | done value => rfl
  | raise error => rfl
  | ask q next ih =>
    unfold Program.bind Leads
    exact forall_congr' fun answer => forall_congr' fun t => imp_congr_right fun _ => ih answer

/-- The rule of `try … except`. -/
theorem leads_handle {f : E → Program Q R E α} {post : Except E α → S → Prop} :
    (p.handle f).Leads step s post ↔ p.Leads step s fun r t =>
      match r with
      | .ok value => post (.ok value) t
      | .error error => (f error).Leads step t post := by
  induction p generalizing s with
  | done value => rfl
  | raise error => rfl
  | ask q next ih =>
    unfold handle Leads
    exact forall_congr' fun answer => forall_congr' fun t => imp_congr_right fun _ => ih answer

theorem leads_call {q : Q} {post : Except E (R q) → S → Prop} :
    (call q : Program Q R E (R q)).Leads step s post ↔
      ∀ answer t, step q answer s t → post answer t := by
  refine forall_congr' fun answer => forall_congr' fun t => imp_congr_right fun _ => ?_
  cases answer <;> rfl

/-- The rule of sequential composition, through what the first program leaves. -/
theorem Leads.bind {f : α → Program Q R E β} {first : Except E α → S → Prop}
    {post : Except E β → S → Prop} (hl : p.Leads step s first)
    (hok : ∀ value t, first (.ok value) t → (f value).Leads step t post)
    (herror : ∀ error t, first (.error error) t → post (.error error) t) :
    (p >>= f).Leads step s post := by
  rw [leads_bind]
  refine hl.mono fun r t hr => ?_
  cases r with
  | ok value => exact hok value t hr
  | error error => exact herror error t hr

theorem leads_attempt {post : Except E (Except E α) → S → Prop} :
    p.attempt.Leads step s post ↔ p.Leads step s fun r t => post (.ok r) t := by
  unfold attempt
  rw [leads_handle]
  change (p >>= fun value => (done (Except.ok value) : Program Q R E (Except E α))).Leads
    step s _ ↔ _
  rw [leads_bind]
  constructor
  · refine fun hl => hl.mono fun r t hr => ?_
    cases r with
    | ok value => exact hr
    | error error => exact hr
  · refine fun hl => hl.mono fun r t hr => ?_
    cases r with
    | ok value => exact hr
    | error error => exact hr

/-- A property of the questions alone needs no step. -/
theorem leads_true : p.Leads step s fun _ _ => True := by
  induction p generalizing s with
  | done value => trivial
  | raise error => trivial
  | ask q next ih => exact fun answer t _ => ih answer

theorem Leads.and {post post' : Except E α → S → Prop} (hl : p.Leads step s post)
    (hr : p.Leads step s post') : p.Leads step s fun r t => post r t ∧ post' r t := by
  induction p generalizing s with
  | done value => exact ⟨hl, hr⟩
  | raise error => exact ⟨hl, hr⟩
  | ask q next ih =>
    exact fun answer t hstep => ih answer (hl answer t hstep) (hr answer t hstep)

/-- Allowed questions relate states as their steps do. -/
theorem Uses.leads {allowed : Q → Prop} {Rel : S → S → Prop} (hp : p.Uses allowed)
    (hrefl : ∀ s, Rel s s) (htrans : ∀ s t u, Rel s t → Rel t u → Rel s u)
    (hstep : ∀ q answer s t, allowed q → step q answer s t → Rel s t) :
    p.Leads step s fun _ t => Rel s t := by
  induction p generalizing s with
  | done value => exact hrefl s
  | raise error => exact hrefl s
  | ask q next ih =>
    intro answer t ht
    have hfirst := hstep q answer s t hp.1 ht
    exact (ih answer (hp.2 answer)).mono fun _ u hu => htrans s t u hfirst hu

end Executions

end Program

end Interaction
