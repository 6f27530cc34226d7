import Eventide.Verification.ModelCalls.Attempts

/-! # How the questions of a model call are answered -/

namespace Eventide.ModelCalls

open Outcome Interaction Interaction.Program

/-- The store, the identifiers of attempts that the call has drawn, the attempts that it has
started, and the responses that the provider has given, each with the attempt started last. -/
structure CallState where
  store : RuntimeStore
  ids : List String := []
  begun : List String := []
  given : List (Option String × ModelResponse) := []

/-- No fact names the attempt. -/
def Unused (s : RuntimeStore) (id : String) : Prop :=
  ∀ e ∈ s.events, e.payload.get? "attempt_id" ≠ some (.str id)

variable (c : CallConfig) (run : Run) (Admits : FinishContext → RuntimeStore → Prop)

/-- What a question does to the store, from the moment it is asked. A clock always answers, a
settlement happens in a context that is admitted, and a payload that UTF-8 does not encode is
not written. -/
def Answers (s : RuntimeStore) : (q : Ask) → Except CallError q.Reply → RuntimeStore → Prop
  | .begin request identity, answer, t => ∃ context : BeginContext, ∃ result,
      s.beginAttempt context c.runId request identity = (result, t) ∧
        answer = result.mapError .python
  | .finish (some identity), answer, t => ∃ context : FinishContext, ∃ result,
      Admits context s ∧ s.finishAttempt context c.runId identity = (result, t) ∧
        answer = result.mapError .python
  | .finish none, answer, t => t = s ∧ ∃ error, answer = .error (.python error)
  | .emit kind (some payload), answer, t => ∃ env sessionId fact result,
      fact.type = kind ∧ fact.payload = payload ∧
        s.appendFact env sessionId fact (some c.runId) = (result, t) ∧
          answer = (result.map fun _ => ()).mapError .python
  | .emit _ none, answer, t => t = s ∧ ∃ error, answer = .error (.python error)
  | .inject _ _ _, answer, t => t = s ∨ ∃ env sessionId fact e,
      fact.type = .memoryInjected ∧
        s.appendFact env sessionId fact (some c.runId) = (.ok e, t) ∧ answer.isOk
  | .provider, answer, t => t = s ∧ ∀ streams, answer = .ok streams → streams = c.streams
  | .uuid, answer, t | .clock, answer, t => t = s ∧ answer.isOk
  | .slot, _, t | .admitted, _, t | .memory, _, t | .deliver, _, t | .complete _, _, t
  | .stream _, _, t | .sleep _, _, t => t = s

/-- The identifiers drawn so far: a new UUID is in no fact. -/
def Draws (ids : List String) (s : RuntimeStore) :
    (q : Ask) → Except CallError q.Reply → List String → Prop
  | .uuid, .ok hex, later =>
    later = ids ++ ["attempt_" ++ hex] ∧ "attempt_" ++ hex ∉ ids ∧ Unused s ("attempt_" ++ hex)
  | _, _, later => later = ids

/-- The attempt that a reservation has started. -/
def begins : (q : Ask) → Except CallError q.Reply → List String
  | .begin _ identity, .ok _ => (attemptIdOf identity).toList
  | _, _ => []

/-- The response that the answer of a provider holds. -/
def returned : (q : Ask) → Except CallError q.Reply → Option ModelResponse
  | .complete _, .ok response => some response
  | .stream _, .ok (events, stop) => (streamOutcome events stop).toOption
  | _, _ => none

/-- A question is answered after any steps of other tasks. -/
structure Step (q : Ask) (answer : Except CallError q.Reply) (s t : CallState) : Prop where
  answers : ∃ u, Elsewhere run s.ids s.store u ∧ Answers c Admits u q answer t.store ∧
    Draws s.ids u q answer t.ids
  begun : t.begun = s.begun ++ begins q answer
  given : t.given = s.given ++ (returned q answer).toList.map (s.begun.getLast?, ·)

/-- No statement of a settlement meets a fault, and no event identifier is drawn twice. -/
def Faultless (context : FinishContext) (s : RuntimeStore) : Prop := s.Sound context.env

/-- The counters of a usage have names that the ledger takes: no blank text, and no more
than 256 characters. -/
def Named (usage : Dict String ℕ) : Prop := ∀ name ∈ usage.keys, validText name = true

/-- A response that a finish fact can hold: UTF-8 encodes its stop reason and the names of its
counters, and the ledger takes these names. -/
structure Recordable (response : ModelResponse) : Prop where
  stopReason : response.stopReason.string?.isSome
  counters : ∀ name ∈ response.usage.keys, ∃ text, name.string? = some text ∧ validText text = true

/-- A step with a recordable response, or none, and without a fault in a settlement. -/
structure SoundStep (q : Ask) (answer : Except CallError q.Reply) (s t : CallState) : Prop where
  step : Step c run Faultless q answer s t
  recordable : ∀ response ∈ returned q answer, Recordable response

/-! ## Steps that concern no attempt -/

/-- Questions that neither start nor finish an attempt, nor draw an identifier, nor ask the
provider for a response. -/
def Quiet : Ask → Prop
  | .begin _ _ | .finish _ | .uuid | .complete _ | .stream _ => False
  | .emit kind _ => kind.Aside
  | _ => True

/-- The attempts of the call are left as they are. -/
structure Keeps (s t : CallState) : Prop where
  ids : t.ids = s.ids
  begun : t.begun = s.begun
  given : t.given = s.given
  frames : Frames run s.ids s.store t.store

variable {c run Admits} {s t u : CallState}

theorem Keeps.refl (s : CallState) : Keeps run s s :=
  ⟨rfl, rfl, rfl, .refl run s.ids s.store⟩

theorem Keeps.trans (h : Keeps run s t) (k : Keeps run t u) : Keeps run s u :=
  ⟨k.ids.trans h.ids, k.begun.trans h.begun, k.given.trans h.given,
    h.frames.trans (h.ids ▸ k.frames)⟩

/-- A fact that says nothing of attempts, whatever becomes of it. -/
theorem frames_appendFact {ids : List String} {s t : RuntimeStore} {env : Env}
    {sessionId : String} {fact : Fact} {runId : Option String} {result : Except PyError Event}
    (ha : fact.type.Aside) (h : s.appendFact env sessionId fact runId = (result, t)) :
    Frames run ids s t := by
  unfold RuntimeStore.appendFact at h
  cases result with
  | error error =>
    obtain rfl := (congrArg Prod.snd h).symm.trans (transaction_unchanged (congrArg Prod.fst h))
    exact .refl run ids t
  | ok e =>
    rcases RuntimeStore.appendFactLocked_cases (transaction_eq_ok.mp h) with
      ⟨rfl, -, hrec⟩ | ⟨rfl, -⟩
    · refine .append fun row hrow => ?_
      rw [List.mem_singleton.mp hrow, hrec.type_eq]
      exact ha
    · exact .refl run ids t

theorem Answers.frames {ids : List String} {s t : RuntimeStore} {q : Ask}
    {answer : Except CallError q.Reply} (hq : Quiet q) (h : Answers c Admits s q answer t) :
    Frames run ids s t := by
  cases q with
  | begin | finish | uuid | complete | stream => exact hq.elim
  | emit kind payload =>
    cases payload with
    | none =>
      obtain ⟨rfl, -⟩ := h
      exact .refl run ids t
    | some payload =>
      obtain ⟨env, sessionId, fact, result, rfl, -, happend, -⟩ := h
      exact frames_appendFact hq happend
  | inject allowed requestId attemptId =>
    rcases h with rfl | ⟨env, sessionId, fact, e, htype, happend, -⟩
    · exact .refl run ids t
    · exact frames_appendFact (by rw [htype]; decide) happend
  | provider | clock =>
    obtain ⟨rfl, -⟩ := h
    exact .refl run ids t
  | slot | admitted | memory | deliver | sleep =>
    obtain rfl := h
    exact .refl run ids t

theorem Step.keeps {q : Ask} {answer : Except CallError q.Reply} (hq : Quiet q)
    (h : Step c run Admits q answer s t) : Keeps run s t := by
  obtain ⟨⟨u, hother, hanswer, hdraws⟩, hbegun, hgiven⟩ := h
  refine ⟨?_, ?_, ?_, hother.frames.trans (hanswer.frames hq)⟩
  · cases q with
    | uuid => exact hq.elim
    | _ => exact hdraws
  · cases q with
    | begin => exact hq.elim
    | _ => exact hbegun.trans (List.append_nil _)
  · cases q with
    | complete | stream => exact hq.elim
    | _ => exact hgiven.trans (List.append_nil _)

/-- A program of such questions. -/
theorem keeps_of_uses {α : Type} {p : Call α} (hp : p.Uses Quiet) :
    p.Leads (SoundStep c run) s fun _ t => Keeps run s t :=
  hp.leads Keeps.refl (fun _ _ _ h k => h.trans k) fun _ _ _ _ hq h => h.step.keeps hq

/-! ## The texts of a response -/

/-- The counters of a recordable response, with the names that a fact has for them. -/
theorem Recordable.reported {response : ModelResponse} (h : Recordable response) :
    ∃ usage, response.reported? = some usage ∧ Named usage := by
  have hnames : ∀ entries : List (PyStr × ℕ),
      (∀ p ∈ entries, ∃ text, p.1.string? = some text ∧ validText text = true) →
        ∃ pairs : List (String × ℕ), (entries.mapM fun p => p.1.string?.map fun name =>
          (name, p.2)) = some pairs ∧ ∀ p ∈ pairs, validText p.1 = true := by
    intro entries
    induction entries with
    | nil => exact fun _ => ⟨[], rfl, by simp⟩
    | cons p entries ih =>
      intro hall
      obtain ⟨text, htext, hvalid⟩ := hall p List.mem_cons_self
      obtain ⟨pairs, hpairs, hrest⟩ := ih fun q hq => hall q (List.mem_cons_of_mem p hq)
      refine ⟨(text, p.2) :: pairs, by simp [htext, hpairs], fun q hq => ?_⟩
      rcases List.mem_cons.mp hq with rfl | hq
      · exact hvalid
      · exact hrest q hq
  obtain ⟨pairs, hpairs, hvalid⟩ := hnames response.usage.entries fun p hp =>
    h.counters p.1 (List.mem_map_of_mem hp)
  refine ⟨Dict.ofLookup pairs, congrArg (Option.map Dict.ofLookup) hpairs, fun name hname => ?_⟩
  have hmem : name ∈ pairs.map Prod.fst := by
    by_contra hnot
    rw [Dict.mem_keys, Dict.get?_ofLookup, Dict.lookup_eq_none_of_not_mem hnot] at hname
    cases hname
  obtain ⟨p, hp, rfl⟩ := List.mem_map.mp hmem
  exact hvalid p hp

end Eventide.ModelCalls
