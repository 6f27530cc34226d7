import Mathlib.Logic.Relation
import Eventide.Model.Stream
import Eventide.Verification.Store.Log

/-! # What a stream has sent when it ends -/

namespace Eventide

open Outcome Sequence RuntimeStore

/-! ## The events of one run -/

section Order

variable {s t : RuntimeStore} {runId : String}

theorem RuntimeStore.LogInvariant.runEvents_sorted (h : s.LogInvariant) (hr : runId ≠ "") :
    (s.runEvents runId).Pairwise fun a b => a.sessionSeq < b.sessionSeq := by
  cases hs : s.runEvents runId with
  | nil => exact .nil
  | cons e rest =>
    have hmem : ∀ b ∈ s.runEvents runId, b ∈ s.events ∧ b.runId = some runId := by
      simp [runEvents]
    -- All events of a run belong to the session of its row.
    have hsession : ∀ b ∈ s.runEvents runId, b.sessionId = e.sessionId := by
      have he := hmem e (by simp [hs])
      obtain ⟨run, hm, hid, hsid, -⟩ :=
        h.owned e he.1 runId (givenRun_eq_some.mpr ⟨he.2, hr⟩)
      intro b hb
      obtain ⟨run', hm', hid', hsid', -⟩ :=
        h.owned b (hmem b hb).1 runId (givenRun_eq_some.mpr ⟨(hmem b hb).2, hr⟩)
      rw [← hsid, ← hsid', List.inj_on_of_nodup_map h.runs_nodup hm hm' (hid.trans hid'.symm)]
    rw [← hs]
    refine List.Pairwise.imp_of_mem (fun ha hb hab => ?_)
      (List.Pairwise.filter (fun e => decide (e.runId = some runId)) (h.contiguous.increasing e.sessionId))
    exact hab (hsession _ ha) (hsession _ hb)

/-- Once a run is closed, its events are all there. -/
theorem RuntimeStore.LogInvariant.runEvents_closed (h : t.LogInvariant) (hr : runId ≠ "")
    (hp : s.events <+: t.events) (hterm : s.runIsTerminal runId = true) :
    t.runEvents runId = s.runEvents runId := by
  obtain ⟨more, hmore⟩ := hp
  obtain ⟨e, he⟩ := Option.isSome_iff_exists.mp hterm
  have hm := List.mem_of_find?_eq_some he
  have hspec : e.runId = some runId ∧ e.type.isTerminal = true := by
    simpa using List.find?_some he
  have hnone : more.filter (·.runId = some runId) = [] := by
    rw [List.filter_eq_nil_iff]
    intro b hb
    have hclosed := h.closed
    rw [← hmore, List.pairwise_append] at hclosed
    simpa using hclosed.2.2 e hm b hb hspec.2 runId (givenRun_eq_some.mpr ⟨hspec.1, hr⟩)
  simp [runEvents, ← hmore, hnone]

theorem runEvents_prefix (hp : s.events <+: t.events) :
    ∃ more, t.runEvents runId = s.runEvents runId ++ more := by
  obtain ⟨more, hmore⟩ := hp
  exact ⟨more.filter (·.runId = some runId), by simp [runEvents, ← hmore]⟩

end Order

/-! ## One stream among other tasks -/

/-- The store, the generator, and the ids sent so far. -/
structure StreamSystem where
  store : RuntimeStore
  stream : RunStream
  ids : List ℕ := []

/-- A step: a call of the store, which finds the generator suspended, or the generator runs on
to its next suspension. -/
inductive StreamStep (j : StreamSystem) : StreamSystem → Prop
  | call (env : Env) (c : StoreCall) : StreamStep j { j with store := (c.perform j.store env).2 }
  | resume (disconnected : Bool) (preview : Option Preview) :
      StreamStep j { j with
        stream := (j.stream.resume j.store disconnected preview).1
        ids := j.ids ++ sentIds (j.stream.resume j.store disconnected preview).2 }

/-- The run is not closed while the generator, having found nothing to send, is suspended in
sending a preview. -/
def StreamStep.Settled (j k : StreamSystem) : Prop :=
  j.stream.point = .preview [] → k.store.runIsTerminal j.stream.runId = true →
    j.store.runIsTerminal j.stream.runId = true

namespace RuntimeStore

variable {s : RuntimeStore} {runId : String}

theorem getEvents_sorted (h : s.LogInvariant) (hr : runId ≠ "") (after : ℕ) :
    (s.getEvents runId after).Pairwise fun a b => a.sessionSeq < b.sessionSeq :=
  (h.runEvents_sorted hr).filter _

theorem getEvents_getEvents {after cursor : ℕ} (hle : after ≤ cursor) :
    (s.getEvents runId after).filter (cursor < ·.sessionSeq) = s.getEvents runId cursor := by
  rw [getEvents, List.filter_filter]
  apply List.filter_congr
  intro e _
  simp only [Bool.and_eq_decide, decide_eq_true_eq, decide_eq_decide]
  omega

end RuntimeStore

/-- What a suspended generator knows about the log. -/
def StreamPoint.Honest (s : RuntimeStore) (runId : String) (cursor : ℕ) : StreamPoint → Prop
  | event rest read => read ≠ [] ∧ ∃ more, s.getEvents runId cursor = rest ++ more
  | preview read => read = [] → s.runIsTerminal runId = true → s.getEvents runId cursor = []
  | finished => s.runIsTerminal runId = true ∧ s.getEvents runId cursor = []
  | _ => True

/-- The invariant of a stream that was asked for the events after number `after`. -/
structure Streaming (after : ℕ) (j : StreamSystem) : Prop where
  log : j.store.LogInvariant
  low : after ≤ j.stream.cursor
  reached : j.stream.cursor = after ∨
    ∃ e ∈ j.store.runEvents j.stream.runId, e.sessionSeq = j.stream.cursor
  sent : j.ids = ((j.store.getEvents j.stream.runId after).filter
    (·.sessionSeq ≤ j.stream.cursor)).map (·.sessionSeq)
  honest : j.stream.point.Honest j.store j.stream.runId j.stream.cursor

section Steps

variable {after : ℕ} {s : RuntimeStore} {st : RunStream} {ids : List ℕ} {read rest : List Event}

/-- The generator moves on, and sends no event. -/
theorem Streaming.quiet {later : RunStream} {sent : List Sent} (h : Streaming after ⟨s, st, ids⟩)
    (hrun : later.runId = st.runId) (hcursor : later.cursor = st.cursor)
    (hsent : sentIds sent = []) (hp : later.point.Honest s st.runId st.cursor) :
    Streaming after ⟨s, later, ids ++ sentIds sent⟩ := by
  rw [hsent, List.append_nil]
  constructor
  · exact h.log
  · simpa only [hcursor] using h.low
  · simpa only [hcursor, hrun] using h.reached
  · simpa only [hcursor, hrun] using h.sent
  · simpa only [hcursor, hrun] using hp

theorem Streaming.checkTerminal (h : Streaming after ⟨s, st, ids⟩)
    (hread : read = [] → s.runIsTerminal st.runId = true → s.getEvents st.runId st.cursor = []) :
    Streaming after ⟨s, (st.checkTerminal s read).1, ids ++ sentIds (st.checkTerminal s read).2⟩ := by
  unfold RunStream.checkTerminal
  split
  · rename_i hdone
    exact h.quiet rfl rfl rfl ⟨hdone.1, hread hdone.2 hdone.1⟩
  · split
    · dsimp only
      split
      · exact h.quiet rfl rfl rfl trivial
      · exact h.quiet rfl rfl rfl trivial
    · exact h.quiet rfl rfl rfl trivial

theorem Streaming.offerPreview (h : Streaming after ⟨s, st, ids⟩) (preview : Option Preview)
    (hread : read = [] → s.runIsTerminal st.runId = true → s.getEvents st.runId st.cursor = []) :
    Streaming after ⟨s, (st.offerPreview s preview read).1,
      ids ++ sentIds (st.offerPreview s preview read).2⟩ := by
  unfold RunStream.offerPreview
  split
  · split
    · split
      · exact h.quiet rfl rfl rfl hread
      · exact h.checkTerminal hread
    · split
      · exact h.quiet rfl rfl rfl hread
      · exact h.checkTerminal hread
  · exact h.checkTerminal hread

theorem Streaming.sendEvents (hr : st.runId ≠ "") (h : Streaming after ⟨s, st, ids⟩)
    (preview : Option Preview) (hrest : ∃ more, s.getEvents st.runId st.cursor = rest ++ more)
    (hread : read = [] → rest = [] ∧ s.getEvents st.runId st.cursor = []) :
    Streaming after ⟨s, (st.sendEvents s preview rest read).1,
      ids ++ sentIds (st.sendEvents s preview rest read).2⟩ := by
  cases rest with
  | nil => exact h.offerPreview preview fun he _ => (hread he).2
  | cons e rest =>
    obtain ⟨more, hmore⟩ := hrest
    have hnext : (s.getEvents st.runId after).filter (st.cursor < ·.sessionSeq) =
        s.getEvents st.runId st.cursor := getEvents_getEvents h.low
    have hlog : s.LogInvariant := h.log
    obtain ⟨hlow, hhigh⟩ := filter_cut_next (getEvents_sorted hlog hr after)
      (hnext.trans hmore)
    have hm : e ∈ s.getEvents st.runId st.cursor := by simp [hmore]
    obtain ⟨hrun, hlt⟩ := List.mem_filter.mp hm
    simp only [decide_eq_true_eq] at hlt
    have hle : after ≤ e.sessionSeq := h.low.trans hlt.le
    constructor
    · exact h.log
    · exact hle
    · exact Or.inr ⟨e, hrun, rfl⟩
    · have hsent : ids = ((s.getEvents st.runId after).filter
          (·.sessionSeq ≤ st.cursor)).map (·.sessionSeq) := h.sent
      have hnew : ids ++ sentIds [.event e] = ((s.getEvents st.runId after).filter
          (·.sessionSeq ≤ e.sessionSeq)).map (·.sessionSeq) := by
        rw [hlow, List.map_append, ← hsent]
        rfl
      exact hnew
    · refine ⟨fun hnil => ?_, more, ?_⟩
      · cases (hread hnil).1
      · exact (getEvents_getEvents hle).symm.trans hhigh

theorem Streaming.resume (hr : st.runId ≠ "") (h : Streaming after ⟨s, st, ids⟩)
    (disconnected : Bool) (preview : Option Preview) :
    Streaming after ⟨s, (st.resume s disconnected preview).1,
      ids ++ sentIds (st.resume s disconnected preview).2⟩ := by
  have honest := h.honest
  dsimp only at honest
  cases hp : st.point with
  | connection =>
    cases disconnected with
    | true =>
      simp only [RunStream.resume, hp, if_true]
      exact h.quiet rfl rfl rfl trivial
    | false =>
      have hsend := h.sendEvents hr preview ⟨[], (List.append_nil _).symm⟩ fun hnil => ⟨hnil, hnil⟩
      simpa [RunStream.resume, hp] using hsend
  | event rest read =>
    rw [hp] at honest
    simpa only [RunStream.resume, hp] using
      h.sendEvents hr preview honest.2 fun hnil => absurd hnil honest.1
  | preview read =>
    rw [hp] at honest
    simpa only [RunStream.resume, hp] using h.checkTerminal honest
  | keepalive =>
    simp only [RunStream.resume, hp]
    exact h.quiet rfl rfl rfl trivial
  | sleep =>
    simp only [RunStream.resume, hp]
    exact h.quiet rfl rfl rfl trivial
  | finished => simpa [RunStream.resume, hp, sentIds] using h
  | disconnected => simpa [RunStream.resume, hp, sentIds] using h

/-- A call of the store adds events past the cursor only. -/
theorem Streaming.call {t : RuntimeStore} (hr : st.runId ≠ "") (h : Streaming after ⟨s, st, ids⟩)
    (hlog : t.LogInvariant) (hp : s.events <+: t.events)
    (hsettled : st.point = .preview [] → t.runIsTerminal st.runId = true →
      s.runIsTerminal st.runId = true) : Streaming after ⟨t, st, ids⟩ := by
  obtain ⟨more, hmore⟩ : ∃ more, t.runEvents st.runId = s.runEvents st.runId ++ more :=
    runEvents_prefix hp
  have hgrow : ∀ c, t.getEvents st.runId c =
      s.getEvents st.runId c ++ more.filter (c < ·.sessionSeq) := by
    intro c
    rw [RuntimeStore.getEvents, hmore, List.filter_append]
    rfl
  have hnew : (more.filter (after < ·.sessionSeq)).filter (·.sessionSeq ≤ st.cursor) = [] := by
    rw [List.filter_filter, List.filter_eq_nil_iff]
    intro b hb
    rcases h.reached with hc | ⟨e, he, hc⟩
    · simp only [Bool.and_eq_true, decide_eq_true_eq, not_and] at hc ⊢
      omega
    · have hsorted := hlog.runEvents_sorted hr
      rw [hmore, List.pairwise_append] at hsorted
      have hlt := hsorted.2.2 e he b hb
      simp only [Bool.and_eq_true, decide_eq_true_eq, not_and] at hc ⊢
      omega
  constructor
  · exact hlog
  · exact h.low
  · exact h.reached.imp_right fun ⟨e, he, hc⟩ => ⟨e, hmore ▸ List.mem_append_left more he, hc⟩
  · have hsent : ids = _ := h.sent
    simp only [hgrow, List.filter_append, hnew, List.append_nil]
    exact hsent
  · have honest := h.honest
    dsimp only at honest ⊢
    cases hpoint : st.point with
    | event rest read =>
      rw [hpoint] at honest
      obtain ⟨hne, later, hl⟩ := honest
      exact ⟨hne, later ++ more.filter (st.cursor < ·.sessionSeq), by simp [hgrow, hl]⟩
    | preview read =>
      rw [hpoint] at honest
      rintro rfl hterm
      have hbefore := hsettled hpoint hterm
      rw [RuntimeStore.getEvents, hlog.runEvents_closed hr hp hbefore]
      exact honest rfl hbefore
    | finished =>
      rw [hpoint] at honest
      have hsame := hlog.runEvents_closed hr hp honest.1
      exact ⟨runIsTerminal_mono hp honest.1, by rw [RuntimeStore.getEvents, hsame]; exact honest.2⟩
    | _ => trivial

end Steps

/-! ## Runs -/

/-- The systems that a stream reaches among calls of the store, each step settled. -/
inductive StreamReached (runId : String) (includePreview : Bool) (after : ℤ) :
    StreamSystem → Prop
  | start (stateRoot : String) (calls : List (Env × StoreCall)) :
      StreamReached runId includePreview after
        ⟨StoreCall.after { stateRoot } calls, .start runId includePreview after, []⟩
  | step {j k : StreamSystem} : StreamReached runId includePreview after j → StreamStep j k →
      StreamStep.Settled j k → StreamReached runId includePreview after k

theorem sendEvents_runId (st : RunStream) (s : RuntimeStore) (preview : Option Preview)
    (rest read : List Event) : (st.sendEvents s preview rest read).1.runId = st.runId := by
  have hcheck : (st.checkTerminal s read).1.runId = st.runId := by
    unfold RunStream.checkTerminal
    dsimp only
    split_ifs <;> rfl
  cases rest with
  | cons e rest => rfl
  | nil =>
    simp only [RunStream.sendEvents, RunStream.offerPreview]
    split
    · split
      · split
        · rfl
        · exact hcheck
      · split
        · rfl
        · exact hcheck
    · exact hcheck

theorem resume_runId (st : RunStream) (s : RuntimeStore) (disconnected : Bool)
    (preview : Option Preview) : (st.resume s disconnected preview).1.runId = st.runId := by
  unfold RunStream.resume
  split
  · split
    · rfl
    · exact sendEvents_runId st s preview _ _
  · exact sendEvents_runId st s preview _ _
  · unfold RunStream.checkTerminal
    dsimp only
    split_ifs <;> rfl
  all_goals rfl

variable {runId : String} {includePreview : Bool} {after : ℤ} {j : StreamSystem}

theorem StreamReached.streaming (hr : runId ≠ "")
    (h : StreamReached runId includePreview after j) :
    j.stream.runId = runId ∧ Streaming (max after 0).toNat j := by
  induction h with
  | start stateRoot calls =>
    refine ⟨rfl, logInvariant_after stateRoot calls, le_refl _, Or.inl rfl, ?_, trivial⟩
    have hnone : ((StoreCall.after { stateRoot } calls).getEvents runId (max after 0).toNat).filter
        (·.sessionSeq ≤ (max after 0).toNat) = [] := by
      rw [List.filter_eq_nil_iff]
      intro e he
      have hlt := (List.mem_filter.mp he).2
      simp only [decide_eq_true_eq] at hlt ⊢
      omega
    exact (congrArg (List.map (·.sessionSeq)) hnone).symm
  | @step j k _ hstep hsettled ih =>
    obtain ⟨hrun, hi⟩ := ih
    cases hstep with
    | call env c =>
      have heffect := StoreCall.perform_effect env (c.writes_any j.store)
      refine ⟨hrun, hi.call (hrun ▸ hr) (hi.log.effect heffect) heffect.extends_log ?_⟩
      exact hsettled
    | resume disconnected preview =>
      exact ⟨(resume_runId _ _ _ _).trans hrun, hi.resume (hrun ▸ hr) disconnected preview⟩

/-- A stream that ends normally has sent exactly what the run's log holds past `after`. -/
theorem runEvents_complete (hr : runId ≠ "") (h : StreamReached runId includePreview after j)
    (hend : j.stream.point = .finished) :
    j.ids = ((j.store.runEvents runId).filter
      fun e => max after 0 < (e.sessionSeq : ℤ)).map (·.sessionSeq) ∧
    j.ids.Pairwise (· < ·) ∧
    ∃ e ∈ j.store.runEvents runId, e.type.isTerminal = true ∧
      (max after 0 < (e.sessionSeq : ℤ) → e.sessionSeq ∈ j.ids) := by
  obtain ⟨rfl, hi⟩ := h.streaming hr
  have honest := hi.honest
  rw [hend] at honest
  obtain ⟨hterm, hnone⟩ := honest
  have hdue : (j.store.runEvents j.stream.runId).filter (fun e => max after 0 < (e.sessionSeq : ℤ)) =
      j.store.getEvents j.stream.runId (max after 0).toNat := by
    apply List.filter_congr
    intro e _
    rw [decide_eq_decide]
    omega
  have hids : j.ids = ((j.store.runEvents j.stream.runId).filter
      fun e => max after 0 < (e.sessionSeq : ℤ)).map (·.sessionSeq) := by
    have hsplit := filter_cut (getEvents_sorted hi.log hr (max after 0).toNat) j.stream.cursor
    rw [getEvents_getEvents hi.low, hnone, List.append_nil] at hsplit
    rw [hi.sent, hsplit, hdue]
  refine ⟨hids, ?_, ?_⟩
  · rw [hids, hdue, List.pairwise_map]
    exact getEvents_sorted hi.log hr _
  · obtain ⟨e, he⟩ := Option.isSome_iff_exists.mp hterm
    have hspec : e.runId = some j.stream.runId ∧ e.type.isTerminal = true := by
      simpa using List.find?_some he
    have hm : e ∈ j.store.runEvents j.stream.runId := by
      simpa [runEvents, hspec.1] using List.mem_of_find?_eq_some he
    refine ⟨e, hm, hspec.2, fun hlt => ?_⟩
    rw [hids]
    exact List.mem_map_of_mem (List.mem_filter.mpr ⟨hm, by simpa using hlt⟩)

/-! ## The run that ends behind a preview -/

/-- The system after the generator has run on, for a client that stays. -/
def StreamSystem.next (j : StreamSystem) (preview : Option Preview) : StreamSystem :=
  { j with
    stream := (j.stream.resume j.store false preview).1
    ids := j.ids ++ sentIds (j.stream.resume j.store false preview).2 }

theorem StreamReached.next (h : StreamReached runId includePreview after j)
    (preview : Option Preview) : StreamReached runId includePreview after (j.next preview) :=
  h.step (.resume false preview) fun _ hterm => hterm

def startedRun : List (Env × StoreCall) :=
  [(plainEnv 'a', .createRun "r" "main" none),
   (plainEnv 'b', .appendFact "main" { type := .runStarted, payload := .obj [] } (some "r") false)]

def completeRun : StoreCall :=
  .appendFact "main" { type := .runCompleted, payload := .obj [] } (some "r") false

/-- The system after an append by another task. -/
def StreamSystem.append (j : StreamSystem) (env : Env) (c : StoreCall) : StreamSystem :=
  { j with store := (c.perform j.store env).2 }

theorem StreamReached.append {env : Env} {c : StoreCall}
    (h : StreamReached runId includePreview after j)
    (hpoint : ∀ read, j.stream.point = .preview read → read ≠ []) :
    StreamReached runId includePreview after (j.append env c) :=
  h.step (.call env c) fun hp => absurd rfl (hpoint [] hp)

def retryCall : StoreCall :=
  .appendFact "main" { type := .modelRetry, payload := .obj [] } (some "r") false

/-- Its client has been sent the start of the run. -/
def sentStream : StreamSystem :=
  StreamSystem.next ⟨StoreCall.after {} startedRun, .start "r" true 0, []⟩ (some ⟨1⟩)

/-- A model call is tried again while the event is being sent, and the run completes while the
preview behind it is. -/
def grownStream : StreamSystem :=
  ((sentStream.append (plainEnv 'c') retryCall).next (some ⟨1⟩)).append (plainEnv 'd') completeRun

def endedStream : StreamSystem :=
  (List.replicate 7 (some ⟨1⟩)).foldl StreamSystem.next grownStream

theorem StreamReached.foldl (previews : List (Option Preview))
    (h : StreamReached runId includePreview after j) :
    StreamReached runId includePreview after (previews.foldl StreamSystem.next j) := by
  induction previews generalizing j with
  | nil => exact h
  | cons preview previews ih => exact ih (h.next preview)

theorem endedStream_reached : StreamReached "r" true 0 endedStream := by
  refine StreamReached.foldl _ (StreamReached.append (StreamReached.next
    (StreamReached.append ((StreamReached.start "" startedRun).next _) ?_) _) ?_)
  · intro read hp
    cases hp
  · intro read hp
    cases hp
    exact List.cons_ne_nil _ _

theorem runEvents_complete_grown : sentStream.ids = [1] ∧ endedStream.ids = [1, 2, 3] ∧
    ∃ e ∈ endedStream.store.runEvents "r", e.type.isTerminal = true ∧
      e.sessionSeq ∈ endedStream.ids := by
  obtain ⟨hids, -, e, he, hterm, hsent⟩ :=
    runEvents_complete (by decide) endedStream_reached rfl
  refine ⟨rfl, hids, e, he, hterm, hsent ?_⟩
  have hpos : ∀ e ∈ endedStream.store.runEvents "r", (0 : ℤ) < e.sessionSeq := by decide
  simpa using hpos e he

/-- The stream that has sent a preview and found it gone, with nothing else to send. -/
def clearedStream : StreamSystem :=
  let j : StreamSystem := ⟨StoreCall.after {} startedRun, .start "r" true 0, []⟩
  ((((j.next (some ⟨1⟩)).next (some ⟨1⟩)).next none).next none).next none

/-- The run completes while the generator is suspended there. -/
def lostStream : StreamSystem :=
  StreamSystem.next
    { clearedStream with store := (completeRun.perform clearedStream.store (plainEnv 'c')).2 } none

theorem runEvents_lost :
    ¬ ∀ (calls : List (Env × StoreCall)) (runId : String) (includePreview : Bool) (after : ℤ)
      (j : StreamSystem), runId ≠ "" →
      Relation.ReflTransGen StreamStep
        ⟨StoreCall.after {} calls, .start runId includePreview after, []⟩ j →
      j.stream.point = .finished →
      j.ids = ((j.store.runEvents runId).filter
        fun e => max after 0 < (e.sessionSeq : ℤ)).map (·.sessionSeq) := by
  intro hall
  have hrun : Relation.ReflTransGen StreamStep
      ⟨StoreCall.after {} startedRun, .start "r" true 0, []⟩ lostStream := by
    apply Relation.ReflTransGen.tail (b := { clearedStream with
      store := (completeRun.perform clearedStream.store (plainEnv 'c')).2 })
    · apply Relation.ReflTransGen.tail (b := clearedStream)
      · exact .tail (.tail (.tail (.tail (.single (.resume false (some ⟨1⟩)))
          (.resume false (some ⟨1⟩))) (.resume false none)) (.resume false none))
          (.resume false none)
      · exact .call (plainEnv 'c') completeRun
    · exact .resume false none
  have hids := hall startedRun "r" true 0 lostStream (by decide) hrun rfl
  have hsent : lostStream.ids = [1] := rfl
  have hlog : (lostStream.store.runEvents "r").map (·.sessionSeq) = [1, 2] := rfl
  rw [hsent, List.filter_eq_self.mpr, hlog] at hids
  · cases hids
  · intro e he
    have hseq := List.mem_map_of_mem (f := (·.sessionSeq)) he
    rw [hlog] at hseq
    simp only [List.mem_cons, List.not_mem_nil, or_false] at hseq
    simp only [decide_eq_true_eq]
    omega

end Eventide
