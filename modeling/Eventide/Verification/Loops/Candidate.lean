import Eventide.Model.ToolLoops
import Mathlib.Data.List.ModifyLast
import Mathlib.Tactic.Common

/-! # The window of outcomes

The loop of `failure_loop_candidate` keeps the last outcomes of a history, each with the latest
checkpoint before the next preparation, wherever the outcomes are separated by preparations. -/

namespace Eventide

namespace ToolLoops

/-! ## What a history says -/

def isCheckpoint (event : Event) : Bool := event.type = .workspaceCheckpoint && !event.isPartial

def isPrepared (event : Event) : Bool := event.type = .toolPrepared && !event.isPartial

/-- The latest checkpoint, where it is available. -/
def latest (events : List Event) : Option Json :=
  ((events.filter isCheckpoint).getLast?).bind available

/-- The events before the next preparation. -/
def untilPrepared (events : List Event) : List Event := events.takeWhile fun e => !isPrepared e

/-- The outcomes after some events, each with the latest checkpoint that was recorded before the next
tool was prepared. -/
def outcomes (before : List Event) : List Event → List Outcome
  | [] => []
  | event :: after =>
    if isResult event then
      outcome event (latest (before ++ [event] ++ untilPrepared after)) ::
        outcomes (before ++ [event]) after
    else outcomes (before ++ [event]) after

/-- The last three outcomes are failures with one fingerprint, and their checkpoints are available
and equal. -/
def Repeats (events : List Event) : Prop :=
  ∃ earlier a b c checkpoint, outcomes [] events = earlier ++ [a, b, c] ∧
    c.signature.truthy = true ∧ c.checkpoint = some checkpoint ∧
    ∀ item ∈ [a, b], item.signature.pyEq c.signature = true ∧
      ∃ other, item.checkpoint = some other ∧ other.pyEq checkpoint = true

/-! ## The loop -/

/-- The type of the last event about a call. -/
def lastCall (events : List Event) : Option EventType :=
  ((events.filter fun e => isPrepared e || isResult e).getLast?).map (·.type)

/-- Each outcome follows its preparation, with no other outcome between them. -/
def Separated (events : List Event) : Prop :=
  ∀ before event after, events = before ++ event :: after → isResult event = true →
    lastCall before = some .toolPrepared

theorem latest_concat (events : List Event) (event : Event) :
    latest (events ++ [event]) =
      if isCheckpoint event then available event else latest events := by
  rw [latest, List.filter_append]
  by_cases h : isCheckpoint event = true
  · rw [List.filter_cons, if_pos h, if_pos h, List.filter_nil, List.getLast?_concat]
    rfl
  · rw [List.filter_cons, if_neg h, if_neg h, List.filter_nil, List.append_nil, latest]

theorem untilPrepared_cons (event : Event) (events : List Event) :
    untilPrepared (event :: events) =
      if isPrepared event then [] else event :: untilPrepared events := by
  rw [untilPrepared, List.takeWhile_cons]
  by_cases h : isPrepared event = true
  · simp [h]
  · simp [h, untilPrepared]

/-- The window with the checkpoint that its last outcome will have. -/
def settledWindow (w : Window) (before after : List Event) : List Outcome :=
  if w.pending then renew (latest (before ++ untilPrepared after)) w.window else w.window

/-- What the loop keeps. -/
structure Tracks (w : Window) (before : List Event) : Prop where
  short : w.window.length ≤ failureWindow
  checkpoint : w.checkpoint = latest before
  pending : w.pending = true → lastCall before ≠ some .toolPrepared ∧
    w.window = renew w.checkpoint w.window

theorem renew_concat (checkpoint : Option Json) (window : List Outcome) (last : Outcome) :
    renew checkpoint (window ++ [last]) = window ++ [{ last with checkpoint }] :=
  List.modifyLast_concat _ _ _

theorem renew_renew (a b : Option Json) (window : List Outcome) :
    renew a (renew b window) = renew a window := by
  rcases List.eq_nil_or_concat window with rfl | ⟨window, last, rfl⟩
  · rfl
  · rw [List.concat_eq_append, renew_concat, renew_concat, renew_concat]

theorem length_renew (checkpoint : Option Json) (window : List Outcome) :
    (renew checkpoint window).length = window.length := by
  rcases List.eq_nil_or_concat window with rfl | ⟨window, last, rfl⟩
  · rfl
  · rw [List.concat_eq_append, renew_concat, List.length_append, List.length_append]
    rfl

theorem rtake_append {α : Type} (n : ℕ) (a b : List α) :
    (a.rtake n ++ b).rtake n = (a ++ b).rtake n := by
  rw [List.rtake_eq_reverse_take_reverse, List.rtake_eq_reverse_take_reverse,
    List.rtake_eq_reverse_take_reverse]
  congr 1
  rw [List.reverse_append, List.reverse_append, List.reverse_reverse, List.take_append,
    List.take_append, List.take_take]
  congr 2
  omega

theorem rtake_of_short {α : Type} {n : ℕ} {a : List α} (h : a.length ≤ n) : a.rtake n = a := by
  rw [List.rtake, Nat.sub_eq_zero_of_le h, List.drop_zero]

section Kinds

variable {w : Window} {event : Event}

theorem observe_checkpoint (h : isCheckpoint event = true) : observe w event =
    { w with
      checkpoint := available event
      window := if w.pending then renew (available event) w.window else w.window } := by
  simp only [isCheckpoint, Bool.and_eq_true, decide_eq_true_eq, Bool.not_eq_true'] at h
  simp [observe, h]

theorem observe_prepared (h : isPrepared event = true) :
    observe w event = { w with pending := false } := by
  simp only [isPrepared, Bool.and_eq_true, decide_eq_true_eq, Bool.not_eq_true'] at h
  simp [observe, h]

theorem observe_result (h : isResult event = true) : observe w event =
    { w with
      window := (w.window ++ [outcome event w.checkpoint]).rtake failureWindow
      pending := true } := by
  simp only [isResult, Bool.and_eq_true, decide_eq_true_eq, Bool.not_eq_true'] at h
  have hkinds : event.type ≠ .workspaceCheckpoint ∧ event.type ≠ .toolPrepared := by
    constructor
    · intro heq
      rw [heq] at h
      exact absurd h.1 (by decide)
    · intro heq
      rw [heq] at h
      exact absurd h.1 (by decide)
  simp [observe, h, hkinds]

theorem observe_other (hc : isCheckpoint event = false) (hp : isPrepared event = false)
    (hr : isResult event = false) : observe w event = w := by
  unfold observe
  split
  · rfl
  · rename_i hwhole
    simp only [isCheckpoint, isPrepared, isResult, Bool.and_eq_false_iff, decide_eq_false_iff_not,
      hwhole, Bool.not_false, Bool.true_eq_false, or_false] at hc hp hr
    rw [if_neg hc, if_neg hp, if_neg hr]

theorem kinds_disjoint : (isCheckpoint event = true → isPrepared event = false ∧
      isResult event = false) ∧ (isPrepared event = true → isResult event = false) := by
  constructor
  · intro h
    simp only [isCheckpoint, Bool.and_eq_true, decide_eq_true_eq] at h
    simp [isPrepared, isResult, h.1, results]
  · intro h
    simp only [isPrepared, Bool.and_eq_true, decide_eq_true_eq] at h
    simp [isResult, h.1, results]

end Kinds

theorem lastCall_concat (events : List Event) (event : Event) :
    lastCall (events ++ [event]) =
      if isPrepared event || isResult event then some event.type else lastCall events := by
  rw [lastCall, List.filter_append]
  by_cases h : (isPrepared event || isResult event) = true
  · rw [List.filter_cons, if_pos h, if_pos h, List.filter_nil, List.getLast?_concat]
    rfl
  · rw [List.filter_cons, if_neg h, if_neg h, List.filter_nil, List.append_nil, lastCall]

/-- One turn of the loop. -/
theorem Tracks.observe {w : Window} {before : List Event} {event : Event} (h : Tracks w before) :
    Tracks (observe w event) (before ++ [event]) := by
  by_cases hc : isCheckpoint event = true
  · obtain ⟨hp, hr⟩ := kinds_disjoint.1 hc
    rw [observe_checkpoint hc]
    refine ⟨?_, ?_, fun hpending => ?_⟩
    · dsimp only
      split
      · rw [length_renew]
        exact h.short
      · exact h.short
    · rw [latest_concat, if_pos hc]
    · dsimp only at hpending ⊢
      rw [if_pos hpending, renew_renew, lastCall_concat, hp, hr]
      exact ⟨(h.pending hpending).1, rfl⟩
  by_cases hp : isPrepared event = true
  · have hr := kinds_disjoint.2 hp
    rw [observe_prepared hp]
    refine ⟨h.short, ?_, nofun⟩
    rw [latest_concat, if_neg hc]
    exact h.checkpoint
  by_cases hr : isResult event = true
  · rw [observe_result hr]
    refine ⟨?_, ?_, fun _ => ⟨?_, ?_⟩⟩
    · rw [List.rtake_eq_reverse_take_reverse, List.length_reverse, List.length_take]
      exact min_le_left _ _
    · rw [latest_concat, if_neg hc]
      exact h.checkpoint
    · rw [lastCall_concat, hr, Bool.or_true, if_pos rfl]
      intro heq
      have hkind : event.type ∈ results := by
        simp only [isResult, Bool.and_eq_true, decide_eq_true_eq] at hr
        exact hr.1
      rw [Option.some.inj heq] at hkind
      exact absurd hkind (by decide)
    · rw [failureWindow, List.rtake_concat_succ, renew_concat]
      rfl
  · rw [Bool.not_eq_true] at hc hp hr
    rw [observe_other hc hp hr]
    refine ⟨h.short, ?_, fun hpending => ?_⟩
    · rw [latest_concat, hc]
      exact h.checkpoint
    · rw [lastCall_concat, hp, hr]
      exact h.pending hpending

/-- One turn of the loop keeps what the window will be. -/
theorem settledWindow_observe {w : Window} {before after : List Event} {event : Event}
    (h : Tracks w before) (hsep : isResult event = true → lastCall before = some .toolPrepared) :
    (settledWindow (ToolLoops.observe w event) (before ++ [event]) after ++
        outcomes (before ++ [event]) after).rtake failureWindow =
      (settledWindow w before (event :: after) ++ outcomes before (event :: after)).rtake
        failureWindow := by
  rw [outcomes]
  by_cases hr : isResult event = true
  · have hp : isPrepared event = false := by
      by_contra hp
      rw [Bool.not_eq_false] at hp
      rw [kinds_disjoint.2 hp] at hr
      cases hr
    have hnone : w.pending = false := by
      by_contra hpending
      rw [Bool.not_eq_false] at hpending
      exact (h.pending hpending).1 (hsep hr)
    rw [if_pos hr, observe_result hr, settledWindow, settledWindow, hnone, if_pos rfl,
      if_neg Bool.false_ne_true, failureWindow, List.rtake_concat_succ, renew_concat,
      ← List.rtake_concat_succ, rtake_append, List.append_assoc]
    rfl
  rw [if_neg hr]
  by_cases hp : isPrepared event = true
  · rw [observe_prepared hp, settledWindow, settledWindow, untilPrepared_cons, if_pos hp,
      List.append_nil, if_neg Bool.false_ne_true]
    split
    · rename_i hpending
      rw [← h.checkpoint, ← (h.pending hpending).2]
    · rfl
  · have hlate : latest (before ++ [event] ++ untilPrepared after) =
        latest (before ++ untilPrepared (event :: after)) := by
      rw [untilPrepared_cons, if_neg hp, List.append_assoc]
      rfl
    by_cases hc : isCheckpoint event = true
    · rw [observe_checkpoint hc, settledWindow, settledWindow, hlate]
      dsimp only
      split
      · rw [renew_renew]
      · rfl
    · rw [Bool.not_eq_true] at hc hp hr
      rw [observe_other hc hp hr, settledWindow, settledWindow, hlate]

/-- The window at the end of a history. -/
theorem foldl_window {w : Window} {before rest : List Event} (h : Tracks w before)
    (hsep : ∀ earlier event after, rest = earlier ++ event :: after → isResult event = true →
      lastCall (before ++ earlier) = some .toolPrepared) :
    (rest.foldl observe w).window =
      (settledWindow w before rest ++ outcomes before rest).rtake failureWindow := by
  induction rest generalizing w before with
  | nil =>
    have hwindow : settledWindow w before [] = w.window := by
      rw [settledWindow, show untilPrepared [] = [] from rfl, List.append_nil]
      split
      · rename_i hpending
        rw [← h.checkpoint, ← (h.pending hpending).2]
      · rfl
    rw [hwindow, outcomes, List.append_nil, rtake_of_short h.short]
    rfl
  | cons event rest ih =>
    have hfirst : isResult event = true → lastCall before = some .toolPrepared := by
      intro hr
      simpa using hsep [] event rest rfl hr
    rw [List.foldl_cons, ih h.observe, settledWindow_observe h hfirst]
    intro earlier other after heq hr
    rw [List.append_assoc]
    exact hsep (event :: earlier) other after (by rw [heq]; rfl) hr

/-- The loop finds the last outcomes of a history. -/
theorem window_eq {events : List Event} (h : Separated events) :
    (events.foldl observe {}).window = (outcomes [] events).rtake failureWindow := by
  have htracks : Tracks {} [] := ⟨by decide, rfl, nofun⟩
  exact foldl_window htracks h

/-! ## The verdict -/

theorem sameCheckpoint_some {item : Option Json} {checkpoint : Json} :
    sameCheckpoint item (some checkpoint) = true ↔
      ∃ other, item = some other ∧ other.pyEq checkpoint = true := by
  cases item with
  | none => simp [sameCheckpoint]
  | some other => simp [sameCheckpoint]

theorem judge_isSome (digest : Json → String) (runId : String) {window : List Outcome} :
    (judge digest runId window).isSome = true ↔ ∃ a b c checkpoint, window = [a, b, c] ∧
      c.signature.truthy = true ∧ c.checkpoint = some checkpoint ∧
      ∀ item ∈ [a, b], item.signature.pyEq c.signature = true ∧
        ∃ other, item.checkpoint = some other ∧ other.pyEq checkpoint = true := by
  unfold judge
  split
  · rename_i hlength
    refine ⟨nofun, ?_⟩
    rintro ⟨a, b, c, checkpoint, rfl, -⟩
    exact absurd rfl hlength
  · rename_i hlength
    obtain ⟨a, b, c, rfl⟩ := List.length_eq_three.mp (not_not.mp hlength)
    have hlast : [a, b, c].getLast? = some c := rfl
    rw [hlast]
    dsimp only
    cases hcheckpoint : c.checkpoint with
    | none =>
      refine ⟨nofun, ?_⟩
      rintro ⟨a', b', c', checkpoint, heq, -, hsome, -⟩
      obtain ⟨-, -, rfl⟩ : a = a' ∧ b = b' ∧ c = c' := by simpa using heq
      rw [hcheckpoint] at hsome
      cases hsome
    | some checkpoint =>
      have hself : sameCheckpoint c.checkpoint (some checkpoint) = true :=
        sameCheckpoint_some.mpr ⟨checkpoint, hcheckpoint, Json.pyEq_refl checkpoint⟩
      dsimp only
      split
      · rename_i hbad
        refine ⟨nofun, ?_⟩
        rintro ⟨a', b', c', checkpoint', heq, htruthy, hsome, hall⟩
        obtain ⟨rfl, rfl, rfl⟩ : a = a' ∧ b = b' ∧ c = c' := by simpa using heq
        obtain rfl : checkpoint = checkpoint' := Option.some.inj (hcheckpoint.symm.trans hsome)
        rcases hbad with hfalsy | ⟨item, hitem, hdiffers⟩
        · simp [htruthy] at hfalsy
        · have hgood : item.signature.pyEq c.signature = true ∧
              sameCheckpoint item.checkpoint (some checkpoint) = true := by
            rcases List.mem_cons.mp hitem with rfl | hitem
            · exact ⟨(hall _ (by simp)).1, sameCheckpoint_some.mpr (hall _ (by simp)).2⟩
            rcases List.mem_cons.mp hitem with rfl | hitem
            · exact ⟨(hall _ (by simp)).1, sameCheckpoint_some.mpr (hall _ (by simp)).2⟩
            obtain rfl := List.mem_singleton.mp hitem
            exact ⟨Json.pyEq_refl _, hself⟩
          simp [hgood.1, hgood.2] at hdiffers
      · rename_i hgood
        simp only [not_or, Bool.not_eq_true', Bool.not_eq_false, not_exists, not_and] at hgood
        refine ⟨fun _ => ⟨a, b, c, checkpoint, rfl, hgood.1, hcheckpoint, fun item hitem => ?_⟩,
          fun _ => rfl⟩
        have hmem : item ∈ [a, b, c] := by
          rcases List.mem_cons.mp hitem with rfl | hitem
          · simp
          · simp [List.mem_singleton.mp hitem]
        obtain ⟨hsignature, hsame⟩ := hgood.2 item hmem
        exact ⟨hsignature, sameCheckpoint_some.mp hsame⟩

theorem rtake_eq_three {α : Type} {l : List α} {a b c : α} :
    l.rtake 3 = [a, b, c] ↔ ∃ earlier, l = earlier ++ [a, b, c] := by
  constructor
  · intro h
    exact ⟨l.take (l.length - 3), by rw [← h, List.rtake, List.take_append_drop]⟩
  · rintro ⟨earlier, rfl⟩
    simp [List.rtake]

theorem candidate_isSome (digest : Json → String) (runId : String) {events : List Event}
    (h : Separated events) : (candidate digest runId events).isSome = true ↔ Repeats events := by
  rw [candidate, window_eq h, judge_isSome]
  constructor
  · rintro ⟨a, b, c, checkpoint, hwindow, hrest⟩
    obtain ⟨earlier, hearlier⟩ := rtake_eq_three.mp hwindow
    exact ⟨earlier, a, b, c, checkpoint, hearlier, hrest⟩
  · rintro ⟨earlier, a, b, c, checkpoint, hearlier, hrest⟩
    exact ⟨a, b, c, checkpoint, rtake_eq_three.mpr ⟨earlier, hearlier⟩, hrest⟩

end ToolLoops

end Eventide
