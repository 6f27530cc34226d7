import Eventide.Model.ContextBuilder
import Eventide.Verification.Projection.Pairing

/-! # Building on a checkpoint

A checkpoint stands for a closed prefix of the log, so what is projected after it is the end of
the full projection. -/

namespace Eventide.ContextBuilder

open Outcome MessagesProjection

variable {b : BuildInput}

/-- The elided projection of a part of the log. -/
def shown (b : BuildInput) (events : List Event) : Except PyError (List Json) :=
  (project (some (shownContent b.text)) events).map (List.map elideMessage)

theorem filter_append_filter {events : List Event} (coveredSeq : ℕ)
    (h : events.Pairwise (·.sessionSeq < ·.sessionSeq)) :
    events.filter (·.sessionSeq ≤ coveredSeq) ++ events.filter (coveredSeq < ·.sessionSeq) =
      events := by
  induction events with
  | nil => rfl
  | cons e events ih =>
    obtain ⟨he, h⟩ := List.pairwise_cons.mp h
    by_cases hle : e.sessionSeq ≤ coveredSeq
    · simpa [hle, Nat.not_lt.mpr hle] using ih h
    · have hafter : events.filter (·.sessionSeq ≤ coveredSeq) = [] := by
        refine List.filter_eq_nil_iff.mpr fun later hlater => ?_
        have := he later hlater
        simp only [decide_eq_true_eq]
        omega
      have hall : events.filter (coveredSeq < ·.sessionSeq) = events := by
        refine List.filter_eq_self.mpr fun later hlater => ?_
        have := he later hlater
        simp only [decide_eq_true_eq]
        omega
      simp [hle, Nat.lt_of_not_le hle, hafter, hall]

theorem upTo_append_since (coveredSeq : ℕ) (h : b.events.Pairwise (·.sessionSeq < ·.sessionSeq)) :
    b.upTo coveredSeq ++ b.since coveredSeq = b.events :=
  filter_append_filter coveredSeq h

theorem materialize_eq_ok {cp : Option (ℕ × String)} {messages : List Json} {trimmed : Trimmed}
    (h : b.materialize cp = .ok (messages, trimmed)) :
    ∃ rest, shown b (cp.elim b.events fun cp => b.since cp.1) = .ok rest ∧
      messages = (cp.elim [] fun cp => [BuildInput.summaryMessage cp.2]) ++ rest := by
  obtain ⟨projected, hprojected, h⟩ := bind_eq_ok.mp h
  cases h
  exact ⟨_, map_eq_ok.mpr ⟨projected, hprojected, rfl⟩, rfl⟩

theorem materialize_of_shown {cp : Option (ℕ × String)} {rest : List Json}
    (h : shown b (cp.elim b.events fun cp => b.since cp.1) = .ok rest) :
    ∃ trimmed, b.materialize cp =
      .ok ((cp.elim [] fun cp => [BuildInput.summaryMessage cp.2]) ++ rest, trimmed) := by
  obtain ⟨projected, hprojected, rfl⟩ := map_eq_ok.mp h
  exact ⟨_, bind_eq_ok.mpr ⟨projected, hprojected, rfl⟩⟩

theorem shown_append {before tail : List Event} {full : List Json}
    (ho : Orderly (some (shownContent b.text)) (before ++ tail))
    (hc : Closed (some (shownContent b.text)) before) (h : shown b (before ++ tail) = .ok full) :
    ∃ covered rest, shown b before = .ok covered ∧ shown b tail = .ok rest ∧
      full = covered ++ rest := by
  obtain ⟨projected, hprojected, rfl⟩ := map_eq_ok.mp h
  rw [project_append _ ho hc] at hprojected
  obtain ⟨first, hfirst, hprojected⟩ := bind_eq_ok.mp hprojected
  obtain ⟨last, hlast, hprojected⟩ := bind_eq_ok.mp hprojected
  cases hprojected
  refine ⟨_, _, map_eq_ok.mpr ⟨first, hfirst, rfl⟩, map_eq_ok.mpr ⟨last, hlast, rfl⟩, ?_⟩
  exact List.map_append

/-- The messages that a build starts from, where it uses a checkpoint. -/
theorem materialize_checkpoint {cp : ContextCheckpoint} {full : List Json} {trimmed : Trimmed}
    (hsorted : b.events.Pairwise (·.sessionSeq < ·.sessionSeq))
    (ho : Orderly (some (shownContent b.text)) b.events)
    (hc : Closed (some (shownContent b.text)) (b.upTo cp.coveredSeq))
    (hfull : b.materialize none = .ok (full, trimmed)) :
    ∃ covered rest trimmed', shown b (b.upTo cp.coveredSeq) = .ok covered ∧
      full = covered ++ rest ∧ b.materialize (some (cp.coveredSeq, cp.summary)) =
        .ok (BuildInput.summaryMessage cp.summary :: rest, trimmed') := by
  obtain ⟨messages, hshown, hmessages⟩ := materialize_eq_ok hfull
  obtain rfl : full = messages := hmessages
  change shown b b.events = .ok full at hshown
  rw [← upTo_append_since cp.coveredSeq hsorted] at ho hshown
  obtain ⟨covered, rest, hcovered, hrest, rfl⟩ := shown_append ho hc hshown
  obtain ⟨trimmed', hmaterialize⟩ :=
    @materialize_of_shown b (some (cp.coveredSeq, cp.summary)) rest hrest
  exact ⟨covered, rest, trimmed', hcovered, rfl, hmaterialize⟩

/-- A build whose checkpointed messages fit returns them as they are. -/
theorem build_fits {s : SummaryInput} {messages : List Json} {trimmed : Trimmed}
    (h : b.materialize (b.checkpoint.map fun cp => (cp.coveredSeq, cp.summary)) =
      .ok (messages, trimmed)) (hforce : b.force = false) (hsize : b.size messages ≤ b.budget) :
    (build b s).outcome = .ok { messages, trimmed } := by
  unfold build
  rw [h]
  simp [hforce, hsize]

/-! ## What a build starts from -/

/-- The messages of a build, which are folded where they do not fit. -/
def Built.StartsAs (b : BuildInput) (built : Built) (start : List Json) : Prop :=
  built.messages = start ∨
    built.messages = (foldToolResults b.text start b.budget (toolNames b) b.size).working

theorem adoptSummary_current {covered : List Event} {boundary : ℕ} {draft next : Draft}
    {r : ModelResponse} {summary : String}
    (h : adoptSummary b covered boundary draft r summary = .ok next) :
    next.current = draft.current ∨
      ∃ trimmed, b.materialize (some (boundary, summary)) = .ok (next.current, trimmed) := by
  obtain ⟨⟨candidate, trimmed⟩, hmaterialize, h⟩ := bind_eq_ok.mp h
  dsimp only at h
  split at h
  · cases h
    exact .inr ⟨trimmed, hmaterialize⟩
  · cases h
    exact .inl rfl

theorem trySummary_current {secrets : List String} {covered : List Event} {boundary : ℕ}
    {draft next : Draft} {answer : Except Raised ModelResponse}
    (h : trySummary b secrets covered boundary draft answer = .ok next) :
    next.current = draft.current ∨
      ∃ summary trimmed, b.materialize (some (boundary, summary)) = .ok (next.current, trimmed) := by
  unfold trySummary at h
  split at h
  · cases h
  · cases h
  · cases h
    exact .inl rfl
  · split at h
    · rename_i hdraft
      cases h
      obtain ⟨summary, -, hadopted⟩ := bind_eq_ok.mp hdraft
      exact (adoptSummary_current hadopted).imp_right (Exists.intro summary)
    · cases h
      exact .inl rfl

/-- A summary is adopted as the messages after the last closed turn, or not at all. -/
theorem summarize_current {s : SummaryInput} {draft next : Draft} {claimed : Option SummaryClaim}
    (h : summarize b s draft = (claimed, .ok next)) :
    next.current = draft.current ∨ ∃ summary trimmed,
      b.materialize (some (boundary b.events, summary)) = .ok (next.current, trimmed) := by
  unfold summarize at h
  dsimp only at h
  split at h
  · split at h
    · cases h
    · cases h
      exact .inl rfl
    · exact trySummary_current (Prod.mk.inj h).2
  · cases h
    exact .inl rfl

theorem startsAs_finishBuild {draft : Draft} {built : Built}
    (h : (finishBuild b draft).outcome = .ok built) : built.StartsAs b draft.current := by
  unfold finishBuild foldDraft at h
  by_cases hfits : b.size draft.current ≤ b.budget
  · simp only [if_pos hfits] at h
    cases h
    exact .inl rfl
  · simp only [if_neg hfits] at h
    split at h
    · cases h
      exact .inr rfl
    · cases h

/-- A build starts from the messages that it materialized, or from those after a new summary. -/
theorem startsAs_build {s : SummaryInput} {messages : List Json} {trimmed : Trimmed} {built : Built}
    (h : b.materialize (b.checkpoint.map fun cp => (cp.coveredSeq, cp.summary)) =
      .ok (messages, trimmed)) (hbuilt : (build b s).outcome = .ok built) :
    ∃ start, built.StartsAs b start ∧ (start = messages ∨ ∃ summary rest,
      shown b (b.since (boundary b.events)) = .ok rest ∧
        start = BuildInput.summaryMessage summary :: rest) := by
  unfold build at hbuilt
  rw [h] at hbuilt
  dsimp only at hbuilt
  split at hbuilt
  · cases hbuilt
    exact ⟨messages, .inl rfl, .inl rfl⟩
  · split at hbuilt
    · cases hbuilt
    · rename_i hsummary
      refine ⟨_, startsAs_finishBuild hbuilt, (summarize_current hsummary).imp_right ?_⟩
      rintro ⟨summary, trimmed', hmaterialize⟩
      exact ⟨summary, materialize_eq_ok hmaterialize⟩

/-- A log event with a payload, for the sample. -/
def sampleEvent (seq : ℕ) (type : EventType) (payload : Json) : Event where
  eventId := ""
  sessionId := "s"
  sessionSeq := seq
  turnId := none
  runId := some "r"
  ts := 0
  type := type
  role := "system"
  author := "runtime"
  payload := payload

def sampleBlocks : List Json :=
  [.obj [("type", .str "tool_use"), ("id", .str "a"), ("name", .str "bash")]]

/-- A run with one call and its result, and the next message of the user. -/
def sampleLog : List Event × List Event :=
  ([sampleEvent 1 .modelResponse (.obj [("message", .obj [("role", .str "assistant"),
      ("content", .arr sampleBlocks)])]),
    sampleEvent 2 .toolCompleted (.obj [("call_id", .str "a"), ("content", .str "done")]),
    sampleEvent 3 .runCompleted (.obj [])],
    [sampleEvent 4 .messageUser (.obj [("message", .obj [("role", .str "user"),
      ("content", .str "thanks")])])])

def sampleMessage : Json := .obj [("role", .str "assistant"), ("content", .arr sampleBlocks)]

/-- A build of the log, on a checkpoint that covers the run. -/
def sampleBuild : BuildInput where
  text := { floatText := fun _ => [], pyStr := fun _ => "", errorText := fun _ => "" }
  digestEvents _ := ""
  digestHistory _ := ""
  sessionId := "s"
  events := sampleLog.1 ++ sampleLog.2
  checkpoints := [{
    id := 1, sessionId := "s", coveredSeq := 3, sourceDigest := "", summary := "It was done."
    policyVersion := 1, provider := "scripted", model := "m" }]
  providerName := "scripted"
  model := "m"
  budget := 1000

def sampleSummary : SummaryInput where
  claims := []
  attemptedAt := 0
  answer := .error .cancelled
  secrets := []

def sampleContent : Option (Event → Json) := some (shownContent sampleBuild.text)

theorem closed_sample : Closed sampleContent sampleLog.1 := by
  have hrun : ((run sampleContent sampleLog.1 {}).toOption.map fun st => st.pending.length) =
      some 0 := by
    decide +kernel
  intro st h
  rw [h] at hrun
  exact List.eq_nil_of_length_eq_zero (Option.some.inj hrun)

theorem orderly_sample : Orderly sampleContent (sampleLog.1 ++ sampleLog.2) := by
  have hempty : Closed sampleContent [] := fun st h => by cases h; rfl
  have hrequest := orderly_nil.concat (e := sampleLog.1[0]) fun _ => hempty
  have hanswer := hrequest.concat (e := sampleLog.1[1]) fun h => absurd h.2.1 (by decide)
  have hrun := hanswer.concat (e := sampleLog.1[2]) fun h => absurd h.2.1 (by decide)
  exact hrun.concat (e := sampleLog.2[0]) fun _ => closed_sample

end Eventide.ContextBuilder
