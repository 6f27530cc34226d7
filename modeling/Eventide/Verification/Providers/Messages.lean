import Eventide.Verification.Providers.Blocks

/-! # A message and its stream

A stream gives a response exactly when its events are the fragments of a whole message, and then
it is the response that `complete` parses from this message. -/

namespace Eventide

namespace Providers

namespace Anthropic

open Outcome Family

variable {std : Standard} {st t : State} {event : Json} {events : List Json}

/-! ## The events of a block -/

/-- The pieces of a run of deltas. -/
def pieces? (std : Standard) (deltas : List Json) : Option (List Piece) :=
  deltas.mapM fun event => piece? std (field event "delta" .null)

/-- A block with its pieces appended. -/
def assembled (std : Standard) (started : Json) (pieces : List Piece) : Json :=
  finished std (pieces.foldl (Piece.block std) started) (pieces.foldl Piece.parts none)

/-- The events start the block, add its pieces and stop it. -/
def Builds (std : Standard) (events : List Json) (block : Json) : Prop :=
  ∃ start deltas stop pieces, events = start :: (deltas ++ [stop]) ∧ kind start = .blockStart ∧
    (∀ delta ∈ deltas, kind delta = .blockDelta) ∧ kind stop = .blockStop ∧
    (field start "content_block" .null).isObj = true ∧ pieces? std deltas = some pieces ∧
    (∀ piece ∈ pieces, piece.Suits (field start "content_block" .null)) ∧
    block = assembled std (field start "content_block" .null) pieces

theorem key_of_piece? {delta : Json} {key expected part : String}
    (h : piece? std delta = some (.text key expected part)) : key ≠ "type" := by
  unfold piece? at h
  dsimp only at h
  split at h
  · cases h
  · split at h
    · cases h
    · split at h
      · cases h
      · rename_i k e hlookup
        obtain ⟨name, -, hname⟩ := Option.bind_eq_some_iff.mp hlookup
        cases h
        simp only [deltaKeys, List.lookup_cons, List.lookup_nil] at hname
        split at hname
        · cases hname; decide
        · split at hname
          · cases hname; decide
          · split at hname
            · cases hname; decide
            · cases hname

/-- The type of a block stays. -/
theorem fieldIs_block {delta block : Json} {piece : Piece} (h : piece? std delta = some piece)
    (text : String) : (piece.block std block).fieldIs "type" text = block.fieldIs "type" text := by
  cases piece with
  | json | nothing => rfl
  | text key expected part =>
    have hne : "type" ≠ key := (key_of_piece? h).symm
    simp [Piece.block, appendPart, Json.fieldIs, Json.get?_withField, hne]

theorem suits_block {delta block : Json} {piece : Piece} (h : piece? std delta = some piece)
    (other : Piece) : other.Suits (piece.block std block) ↔ other.Suits block := by
  cases other with
  | json | text => simp [Piece.Suits, fieldIs_block h]
  | nothing => rfl

theorem foldlM_closed {block : Json} {s : Slot} :
    events.foldlM (Slot.step std) (.closed block) = some s ↔ events = [] ∧ s = .closed block := by
  cases events with
  | nil => simp [eq_comm]
  | cons event events => simp [List.foldlM_cons, Slot.step]

/-- What remains to come of an open block. -/
theorem foldlM_opened {block result : Json} {parts : Option (List String)} :
    events.foldlM (Slot.step std) (.opened block parts) = some (.closed result) ↔
      ∃ deltas stop pieces, events = deltas ++ [stop] ∧
        (∀ delta ∈ deltas, kind delta = .blockDelta) ∧ kind stop = .blockStop ∧
        pieces? std deltas = some pieces ∧ (∀ piece ∈ pieces, piece.Suits block) ∧
        result = finished std (pieces.foldl (Piece.block std) block)
          (pieces.foldl Piece.parts parts) := by
  induction events generalizing block parts with
  | nil => simp
  | cons event events ih =>
    rw [List.foldlM_cons]
    constructor
    · intro h
      obtain ⟨next, hstep, hrest⟩ := Option.bind_eq_some_iff.mp h
      cases hkind : kind event with
      | blockDelta =>
        obtain ⟨block', parts', piece, hslot, hpiece, hsuits⟩ :=
          of_delta hkind (Option.isSome_iff_exists.mpr ⟨next, hstep⟩)
        cases hslot
        simp only [Slot.step, hkind, hpiece, Option.bind_some, if_pos hsuits,
          Option.some.injEq] at hstep
        subst hstep
        obtain ⟨deltas, stop, pieces, rfl, hdeltas, hstop, hpieces, hall, rfl⟩ := ih.mp hrest
        refine ⟨event :: deltas, stop, piece :: pieces, rfl, ?_, hstop, ?_, ?_, rfl⟩
        · exact List.forall_mem_cons.mpr ⟨hkind, hdeltas⟩
        · rw [pieces?, List.mapM_cons, hpiece]
          simp [show deltas.mapM _ = some pieces from hpieces]
        · refine List.forall_mem_cons.mpr ⟨hsuits, fun other hother => ?_⟩
          exact (suits_block hpiece other).mp (hall other hother)
      | blockStop =>
        simp only [Slot.step, hkind, Option.some.injEq] at hstep
        subst hstep
        obtain ⟨rfl, hresult⟩ := foldlM_closed.mp hrest
        cases hresult
        exact ⟨[], event, [], rfl, List.forall_mem_nil _, hkind, rfl, List.forall_mem_nil _, rfl⟩
      | _ => simp [Slot.step, hkind] at hstep
    · rintro ⟨deltas, stop, pieces, heq, hdeltas, hstop, hpieces, hall, rfl⟩
      cases deltas with
      | nil =>
        cases heq
        cases hpieces
        simp [Slot.step, hstop]
      | cons delta deltas =>
        cases heq
        obtain ⟨hkind, hdeltas⟩ := List.forall_mem_cons.mp hdeltas
        rw [pieces?, List.mapM_cons] at hpieces
        obtain ⟨piece, hpiece, hrest⟩ := Option.bind_eq_some_iff.mp hpieces
        obtain ⟨more, hmore, heq⟩ := Option.bind_eq_some_iff.mp hrest
        cases heq
        obtain ⟨hsuits, hall⟩ := List.forall_mem_cons.mp hall
        simp only [Slot.step, hkind, hpiece, Option.bind_some, if_pos hsuits]
        refine ih.mpr ⟨deltas, stop, more, rfl, hdeltas, hstop, hmore, fun other hother => ?_, rfl⟩
        exact (suits_block hpiece other).mpr (hall other hother)

/-- The events of an index make a closed block just when they build it. -/
theorem foldlM_absent {block : Json} :
    events.foldlM (Slot.step std) .absent = some (.closed block) ↔ Builds std events block := by
  cases events with
  | nil => simp [Builds]
  | cons start events =>
    rw [List.foldlM_cons]
    constructor
    · intro h
      obtain ⟨next, hstep, hrest⟩ := Option.bind_eq_some_iff.mp h
      have hstart : kind start = .blockStart ∧ (field start "content_block" .null).isObj = true := by
        by_contra hnot
        simp [Slot.step, hnot] at hstep
      simp only [Slot.step, if_pos hstart, Option.some.injEq] at hstep
      subst hstep
      obtain ⟨deltas, stop, pieces, rfl, hdeltas, hstop, hpieces, hall, rfl⟩ := foldlM_opened.mp hrest
      exact ⟨start, deltas, stop, pieces, rfl, hstart.1, hdeltas, hstop, hstart.2, hpieces, hall, rfl⟩
    · rintro ⟨first, deltas, stop, pieces, heq, hkind, hdeltas, hstop, hobj, hpieces, hall, rfl⟩
      cases heq
      simp only [Slot.step, if_pos (And.intro hkind hobj)]
      exact foldlM_opened.mpr ⟨deltas, stop, pieces, rfl, hdeltas, hstop, hpieces, hall, rfl⟩

/-! ## The message -/

/-- A message that `complete` is given. -/
structure Body where
  /-- The blocks by their indexes. -/
  blocks : List (ℕ × Json)
  usage : Dict String Json
  stopReason : String

def Body.json (body : Body) : Json := .obj [("content", .arr (body.blocks.map Prod.snd)),
  ("usage", .obj body.usage.entries), ("stop_reason", .str body.stopReason)]

/-- The counters that the start of a message reports. -/
def startUsage (std : Standard) (start : Json) : Except PyError (List (String × Json)) :=
  itemsOr std (field (field start "message" .null) "usage" .null)

/-- The events of a message, and those that are not read. -/
structure Transcript where
  pings : List Json
  start : Json
  middle : List Json
  stop : Json
  rest : List Json

namespace Transcript

def log (tr : Transcript) : List Json :=
  tr.pings ++ tr.start :: tr.middle ++ tr.stop :: tr.rest

/-- The usage that has been reported: the last value of each counter, where the output of the start
is provisional. -/
def usage (tr : Transcript) (first : List (String × Json)) : Dict String Json :=
  (((Dict.empty : Dict String Json).update first).erase "output_tokens").update
    (tr.middle.flatMap usageOf)

/-- The events are the fragments of the message, within the limits. -/
structure Sends (std : Standard) (tr : Transcript) (body : Body) : Prop where
  pings : ∀ event ∈ tr.pings, kind event = .ping
  start : kind tr.start = .messageStart
  middle : ∀ event ∈ tr.middle, admissible event = true
  stop : kind tr.stop = .messageStop
  usage : ∃ first, startUsage std tr.start = .ok first ∧ body.usage = tr.usage first
  reason : (tr.middle.filterMap (reasonOf std)).getLast? = some body.stopReason
  sorted : body.blocks.Pairwise fun a b => a.1 < b.1
  built : ∀ i block, (i, block) ∈ body.blocks → Builds std (own key i tr.middle) block
  only : ∀ event ∈ tr.middle, ∀ i, key event = some i → i ∈ body.blocks.map Prod.fst
  count : tr.pings.length + tr.middle.length + 2 ≤ maxStreamEvents
  bytes : (tr.middle.map (cost std)).sum ≤ maxStreamBytes

end Transcript

/-! ## Reading -/

theorem startMessage_eq_ok : startMessage std st event = .ok t ↔ st.messageStarted = false ∧
    ∃ first, startUsage std event = .ok first ∧
      t = { st with
        messageStarted := true, usage := (st.usage.update first).erase "output_tokens" } := by
  unfold startMessage startUsage
  cases st.messageStarted with
  | true => simp
  | false => simp [bind_eq_ok, pure_eq_ok, eq_comm (a := t)]

/-- A step before the message. -/
theorem step_before (hstarted : st.messageStarted = false) : step std st event = .ok t ↔
    st.limit.events + 1 ≤ maxStreamEvents ∧
      (kind event = .ping ∧ t = st.counted ∨
        kind event = .messageStart ∧ startMessage std st.counted event = .ok t) := by
  unfold step
  simp only [bind_eq_ok, event_eq_ok, and_assoc, exists_and_left, exists_eq_left]
  refine and_congr_right fun _ => ?_
  cases kind event with
  | ping => simp [pure_eq_ok, State.counted, eq_comm (a := t)]
  | messageStart => simp [State.counted]
  | _ => simp [hstarted]

theorem stopMessage_eq_ok : stopMessage st = .ok t ↔
    st.openBlocks = [] ∧ st.stopReason.isSome ∧ t = { st with messageStopped := true } := by
  unfold stopMessage
  split
  · rename_i h
    simp only [reduceCtorEq, false_iff, not_and]
    intro hopen hreason
    rcases h with h | h
    · exact absurd hopen h
    · simp [h] at hreason
  · rename_i h
    rw [not_or, not_not, ← ne_eq, Option.ne_none_iff_isSome] at h
    simp [h.1, h.2, eq_comm (a := t)]

/-- The state after some pings. -/
def State.pinged (n : ℕ) : State := { limit := ⟨0, n⟩ }

/-- Before the message or inside it. -/
def State.Running (st : State) : Prop := (∃ n, st = State.pinged n) ∨ st.Reading

theorem reading_started {n : ℕ} (h : startMessage std (State.pinged n) event = .ok t) :
    t.Reading := by
  obtain ⟨-, first, -, rfl⟩ := startMessage_eq_ok.mp h
  exact ⟨rfl, rfl, List.forall_mem_nil _, .nil, List.forall_mem_nil _, Nat.zero_le _⟩

theorem step_pinged {n : ℕ} : step std (State.pinged n) event = .ok t ↔ n + 1 ≤ maxStreamEvents ∧
    (kind event = .ping ∧ t = State.pinged (n + 1) ∨
      kind event = .messageStart ∧ startMessage std (State.pinged (n + 1)) event = .ok t) :=
  step_before rfl

theorem State.Running.next (hr : st.Running) (h : st.next std event = .ok t) : t.Running := by
  rcases hr with ⟨n, rfl⟩ | hr
  · unfold State.next at h
    split at h
    · cases h
    · obtain ⟨-, ⟨-, rfl⟩ | ⟨-, hstart⟩⟩ := step_pinged.mp h
      · exact .inl ⟨n + 1, rfl⟩
      · exact .inr (reading_started hstart)
  · exact .inr (next_step hr h).reading

theorem State.Running.foldlM {mid : State} (hr : st.Running)
    (h : events.foldlM (State.next std) st = .ok mid) : mid.Running := by
  induction events generalizing st with
  | nil =>
    cases h
    exact hr
  | cons event events ih =>
    obtain ⟨next, hstep, hrest⟩ := foldlM_cons_eq_ok.mp h
    exact ih (hr.next hstep) hrest

theorem State.Running.running (hr : st.Running) : st.messageStopped = false := by
  rcases hr with ⟨n, rfl⟩ | hr
  · rfl
  · exact hr.running

/-- A message is ended inside it, with its blocks closed and its reason known. -/
theorem step_stop (hr : st.Running) (hkind : kind event = .messageStop) :
    step std st event = .ok t ↔ st.Reading ∧ st.limit.events + 1 ≤ maxStreamEvents ∧
      st.openBlocks = [] ∧ st.stopReason.isSome ∧ t = { st.counted with messageStopped := true } := by
  rcases hr with ⟨n, rfl⟩ | hr
  · simp only [step_pinged, hkind, reduceCtorEq, false_and, or_self, and_false, false_iff, not_and]
    intro hreading
    exact absurd hreading.started Bool.false_ne_true
  · rw [step_eq_ok hr.started, hkind]
    simp only [stopMessage_eq_ok, hr, true_and]
    rfl

/-- The induction is on the events: only the end of the message is never gone past. -/
theorem read_eq (ends : Option PyError) (hr : st.Running) :
    read std ends events st = (t, none) ∧ t.messageStopped = true ↔
      ∃ before stop rest mid, events = before ++ stop :: rest ∧ kind stop = .messageStop ∧
        before.foldlM (State.next std) st = .ok mid ∧ step std mid stop = .ok t := by
  induction events generalizing st with
  | nil =>
    constructor
    · rintro ⟨h, hstopped⟩
      cases h
      rw [hr.running] at hstopped
      cases hstopped
    · rintro ⟨before, stop, rest, mid, heq, -⟩
      simp at heq
  | cons event events ih =>
    rw [read]
    by_cases hkind : kind event = .messageStop
    · have hnext : st.next std event = .error (failed "Model stream ended") := if_pos hkind
      constructor
      · rintro ⟨h, hstopped⟩
        split at h
        · cases h
        · rename_i t' hstep
          obtain ⟨hreading, hevents, hopen, hreason, rfl⟩ := (step_stop hr hkind).mp hstep
          rw [if_pos rfl] at h
          cases h
          exact ⟨[], event, events, st, rfl, hkind, rfl, hstep⟩
      · rintro ⟨before, stop, rest, mid, heq, hstop, hfold, hstep⟩
        cases before with
        | nil =>
          cases heq
          cases hfold
          rw [hstep]
          obtain ⟨-, -, -, -, rfl⟩ := (step_stop hr hkind).mp hstep
          exact ⟨rfl, rfl⟩
        | cons first before =>
          cases heq
          rw [List.foldlM_cons, hnext] at hfold
          cases hfold
    · have hnext : st.next std event = step std st event := if_neg hkind
      cases hstep : step std st event with
      | error e =>
        dsimp only
        constructor
        · rintro ⟨h, -⟩
          cases h
        · rintro ⟨before, stop, rest, mid, heq, hstop, hfold, -⟩
          cases before with
          | nil =>
            cases heq
            exact absurd hstop hkind
          | cons first before =>
            cases heq
            rw [List.foldlM_cons, hnext, hstep] at hfold
            cases hfold
      | ok next =>
        have hrunning := hr.next (hnext.trans hstep)
        dsimp only
        rw [hrunning.running, if_neg Bool.false_ne_true, ih hrunning]
        constructor
        · rintro ⟨before, stop, rest, mid, rfl, hstop, hfold, hend⟩
          refine ⟨event :: before, stop, rest, mid, rfl, hstop, ?_, hend⟩
          rw [List.foldlM_cons, hnext, hstep]
          exact hfold
        · rintro ⟨before, stop, rest, mid, heq, hstop, hfold, hend⟩
          cases before with
          | nil =>
            cases heq
            exact absurd hstop hkind
          | cons first before =>
            cases heq
            rw [List.foldlM_cons, hnext, hstep] at hfold
            exact ⟨before, stop, rest, mid, rfl, hstop, hfold, hend⟩

/-- The events up to the end of a message are pings, its start and what is inside it. -/
theorem foldlM_pinged {n : ℕ} {mid : State} (hmid : mid.Reading) :
    events.foldlM (State.next std) (State.pinged n) = .ok mid ↔
      ∃ pings start middle first, events = pings ++ start :: middle ∧
        (∀ event ∈ pings, kind event = .ping) ∧ kind start = .messageStart ∧
        n + pings.length + 1 ≤ maxStreamEvents ∧ startUsage std start = .ok first ∧
        middle.foldlM (State.next std)
          { State.pinged (n + pings.length + 1) with
            messageStarted := true
            usage := (Dict.empty.update first).erase "output_tokens" } = .ok mid := by
  induction events generalizing n with
  | nil =>
    constructor
    · intro h
      cases h
      exact absurd hmid.started Bool.false_ne_true
    · rintro ⟨pings, start, middle, first, heq, -⟩
      simp at heq
  | cons event events ih =>
    rw [List.foldlM_cons]
    constructor
    · intro h
      obtain ⟨next, hstep, hrest⟩ := bind_eq_ok.mp h
      unfold State.next at hstep
      split at hstep
      · cases hstep
      · obtain ⟨hcount, ⟨hping, rfl⟩ | ⟨hstart, hstep⟩⟩ := step_pinged.mp hstep
        · obtain ⟨pings, start, middle, first, rfl, hpings, hstart, hcount, husage, hfold⟩ :=
            ih.mp hrest
          have hlength : n + (event :: pings).length + 1 = n + 1 + pings.length + 1 := by
            simp only [List.length_cons]
            omega
          refine ⟨event :: pings, start, middle, first, rfl, ?_, hstart, hlength ▸ hcount, husage, ?_⟩
          · exact List.forall_mem_cons.mpr ⟨hping, hpings⟩
          · rw [hlength]
            exact hfold
        · obtain ⟨-, first, husage, rfl⟩ := startMessage_eq_ok.mp hstep
          exact ⟨[], event, events, first, rfl, List.forall_mem_nil _, hstart, hcount, husage, hrest⟩
    · rintro ⟨pings, start, middle, first, heq, hpings, hstart, hcount, husage, hfold⟩
      cases pings with
      | nil =>
        cases heq
        have hstep : State.next std (State.pinged n) event = .ok _ :=
          (if_neg (by simp [hstart])).trans (step_pinged.mpr ⟨hcount, .inr ⟨hstart,
            startMessage_eq_ok.mpr ⟨rfl, first, husage, rfl⟩⟩⟩)
        rw [hstep]
        exact hfold
      | cons ping pings =>
        cases heq
        obtain ⟨hping, hpings⟩ := List.forall_mem_cons.mp hpings
        have hlength : n + (event :: pings).length + 1 = n + 1 + pings.length + 1 := by
          simp only [List.length_cons]
          omega
        rw [hlength] at hcount hfold
        have hstep : State.next std (State.pinged n) event = .ok (State.pinged (n + 1)) :=
          (if_neg (by simp [hping])).trans (step_pinged.mpr ⟨by omega, .inl ⟨hping, rfl⟩⟩)
        rw [hstep]
        exact ih.mpr ⟨pings, start, middle, first, rfl, hpings, hstart, hcount, husage, hfold⟩

/-! ## What the blocks share -/

theorem foldl_after (g : Shared) : events.foldl (Shared.after std) g = {
    stopReason := ((events.filterMap (reasonOf std)).getLast?).or g.stopReason
    limit := ⟨g.limit.size + (events.map (cost std)).sum, g.limit.events + events.length⟩
    usage := g.usage.update (events.flatMap usageOf)
    sent := g.sent ++ events.flatMap (shown std) } := by
  induction events generalizing g with
  | nil => simp
  | cons event events ih =>
    rw [List.foldl_cons, ih]
    have hreason : ((events.filterMap (reasonOf std)).getLast?).or
        ((reasonOf std event).or g.stopReason) =
        (((event :: events).filterMap (reasonOf std)).getLast?).or g.stopReason := by
      rw [List.filterMap_cons, ← Option.or_assoc]
      cases reasonOf std event with
      | none => simp
      | some reason =>
        rw [List.getLast?_cons, Option.some_or]
        cases (events.filterMap (reasonOf std)).getLast? <;> simp
    simp only [Shared.after, hreason, List.map_cons, List.sum_cons, List.length_cons,
      List.flatMap_cons, Dict.update_append, List.append_assoc, Nat.add_assoc,
      Nat.add_comm 1 events.length]

theorem foldlM_shared {g g' : Shared} (hevents : g.limit.events ≤ maxStreamEvents)
    (hsize : g.limit.size ≤ maxStreamBytes) :
    events.foldlM (Shared.step std) g = some g' ↔ (∀ event ∈ events, admissible event = true) ∧
      g.limit.events + events.length ≤ maxStreamEvents ∧
      g.limit.size + (events.map (cost std)).sum ≤ maxStreamBytes ∧
      g' = events.foldl (Shared.after std) g := by
  induction events generalizing g with
  | nil =>
    constructor
    · intro h
      cases h
      exact ⟨List.forall_mem_nil _, hevents, hsize, rfl⟩
    · rintro ⟨-, -, -, rfl⟩
      rfl
  | cons event events ih =>
    rw [List.foldlM_cons, List.foldl_cons, List.forall_mem_cons, List.length_cons, List.map_cons,
      List.sum_cons]
    constructor
    · intro h
      obtain ⟨next, hstep, hrest⟩ := Option.bind_eq_some_iff.mp h
      unfold Shared.step at hstep
      split at hstep
      · rename_i hboth
        obtain ⟨hadmissible, hcount, hbytes⟩ := hboth
        cases hstep
        obtain ⟨hall, hcount, hbytes, rfl⟩ := (ih hcount hbytes).mp hrest
        simp only [Shared.after] at hcount hbytes
        exact ⟨⟨hadmissible, hall⟩, by omega, by omega, rfl⟩
      · cases hstep
    · rintro ⟨⟨hadmissible, hall⟩, hcount, hbytes, rfl⟩
      have hallows : g.Allows std event := ⟨by omega, by omega⟩
      have hstep : g.step std event = some (g.after std event) := if_pos ⟨hadmissible, hallows⟩
      rw [hstep]
      refine (ih hallows.1 hallows.2).mpr ⟨hall, ?_, ?_, rfl⟩
      · simp only [Shared.after]
        omega
      · simp only [Shared.after]
        omega

/-! ## The whole stream -/

/-- The state in which a message has started. -/
def State.begun (count : ℕ) (first : List (String × Json)) : State :=
  { State.pinged count with
    messageStarted := true, usage := (Dict.empty.update first).erase "output_tokens" }

theorem reading_begun (count : ℕ) (first : List (String × Json)) :
    (State.begun count first).Reading :=
  ⟨rfl, rfl, List.forall_mem_nil _, .nil, List.forall_mem_nil _, Nat.zero_le _⟩

theorem slot_begun (count : ℕ) (first : List (String × Json)) (i : ℕ) :
    slot (State.begun count first) i = .absent := rfl

theorem ne_absent_of_step {s next : Slot} (h : s.step std event = some next) : next ≠ .absent := by
  cases s with
  | absent =>
    simp only [Slot.step, Option.ite_none_right_eq_some, Option.some.injEq] at h
    rw [← h.2]
    simp
  | opened block parts =>
    cases hkind : kind event with
    | blockDelta =>
      simp only [Slot.step, hkind] at h
      obtain ⟨piece, -, hpiece⟩ := Option.bind_eq_some_iff.mp h
      simp only [Option.ite_none_right_eq_some, Option.some.injEq] at hpiece
      rw [← hpiece.2]
      simp
    | blockStop =>
      simp only [Slot.step, hkind, Option.some.injEq] at h
      rw [← h]
      simp
    | _ => simp [Slot.step, hkind] at h
  | closed block => cases h

/-- Nothing goes back to an absent block. -/
theorem foldlM_to_absent {s : Slot} (h : events.foldlM (Slot.step std) s = some .absent) :
    events = [] := by
  induction events using List.reverseRecOn with
  | nil => rfl
  | append_singleton events event =>
    rw [List.foldlM_append] at h
    obtain ⟨mid, -, hlast⟩ := Option.bind_eq_some_iff.mp h
    obtain ⟨last, hlast, heq⟩ := Option.bind_eq_some_iff.mp hlast
    cases heq
    exact absurd rfl (ne_absent_of_step hlast)

theorem slot_eq_closed_iff {i : ℕ} {block : Json} (hopen : st.openBlocks = []) :
    slot st i = .closed block ↔ st.blocks.get? i = some block := by
  unfold slot
  cases st.blocks.get? i <;> simp [hopen]

/-- An index of which nothing has come. -/
theorem own_eq_nil {i : ℕ} : own key i events = [] ↔ ∀ event ∈ events, key event ≠ some i := by
  simp [own, List.filter_eq_nil_iff]

section Middle

variable {count : ℕ} {first : List (String × Json)} {middle : List Json} {mid : State}

theorem slot_of_middle (hfold : middle.foldlM (State.next std) (State.begun count first) = .ok mid)
    (i : ℕ) : (own key i middle).foldlM (Slot.step std) .absent = some (slot mid i) :=
  (splits std).run_slot (reading_begun count first) hfold i

/-- The blocks of a middle without open ones. -/
theorem builds_of_middle (hfold : middle.foldlM (State.next std) (State.begun count first) = .ok mid)
    (hopen : mid.openBlocks = []) {i : ℕ} {block : Json} :
    mid.blocks.get? i = some block ↔ Builds std (own key i middle) block := by
  rw [← slot_eq_closed_iff hopen, ← foldlM_absent, slot_of_middle hfold i, Option.some.injEq]

theorem shared_of_middle (hcount : count ≤ maxStreamEvents)
    (hfold : middle.foldlM (State.next std) (State.begun count first) = .ok mid) :
    (∀ event ∈ middle, admissible event = true) ∧ count + middle.length ≤ maxStreamEvents ∧
      (middle.map (cost std)).sum ≤ maxStreamBytes ∧
      mid.shared = middle.foldl (Shared.after std) (State.begun count first).shared := by
  have hshared := (splits std).run_shared (reading_begun count first) hfold
  have hspec := (foldlM_shared (g := (State.begun count first).shared) hcount
    (Nat.zero_le _)).mp hshared
  simpa [State.shared, State.begun, State.pinged] using hspec

/-- Where each index comes to nothing or to a block, the middle is read without open ones. -/
theorem read_middle (hcount : count + middle.length ≤ maxStreamEvents)
    (hbytes : (middle.map (cost std)).sum ≤ maxStreamBytes)
    (hall : ∀ event ∈ middle, admissible event = true)
    (hown : ∀ i, own key i middle = [] ∨ ∃ block, Builds std (own key i middle) block) :
    ∃ mid, middle.foldlM (State.next std) (State.begun count first) = .ok mid ∧
      mid.openBlocks = [] := by
  have hbegun := reading_begun count first
  have hshared : middle.foldlM (Shared.step std) (State.begun count first).shared = some _ :=
    (foldlM_shared (show count ≤ maxStreamEvents by omega) (Nat.zero_le _)).mpr
      ⟨hall, hcount, by simpa [State.shared, State.begun, State.pinged] using hbytes, rfl⟩
  obtain ⟨mid, hfold⟩ := (splits std).run_accepts hbegun
    (Option.isSome_iff_exists.mpr ⟨_, hshared⟩) fun i => by
      rw [slot_begun]
      rcases hown i with hnil | ⟨block, hbuilds⟩
      · rw [hnil]
        rfl
      · rw [foldlM_absent.mpr hbuilds]
        rfl
  refine ⟨mid, hfold, List.eq_nil_iff_forall_not_mem.mpr fun i hi => ?_⟩
  obtain ⟨block, -, hslot⟩ := ((splits std).run_inv hbegun hfold).get?_opened hi
  have hrun := slot_of_middle hfold i
  rw [hslot] at hrun
  rcases hown i with hnil | ⟨built, hbuilds⟩
  · rw [hnil] at hrun
    cases hrun
  · rw [foldlM_absent.mpr hbuilds] at hrun
    cases hrun

end Middle

theorem log_eq (tr : Transcript) :
    tr.log = (tr.pings ++ tr.start :: tr.middle) ++ tr.stop :: tr.rest := by
  simp [Transcript.log]

/-- A stream that is read to the end of its message sends a whole one. -/
theorem sends_of_read {ends : Option PyError} (h : read std ends events {} = (t, none))
    (hstopped : t.messageStopped = true) :
    ∃ tr body, events = Transcript.log tr ∧ tr.Sends std body ∧ t.message = body.json := by
  obtain ⟨before, stop, rest, mid, rfl, hstop, hfold, hstep⟩ :=
    (read_eq ends (.inl ⟨0, rfl⟩)).mp ⟨h, hstopped⟩
  have hrunning : mid.Running := State.Running.foldlM (.inl ⟨0, rfl⟩) hfold
  obtain ⟨hreading, hevents, hopen, hreason, rfl⟩ := (step_stop hrunning hstop).mp hstep
  obtain ⟨pings, start, middle, first, rfl, hpings, hstart, hcount, husage, hmiddle⟩ :=
    (foldlM_pinged hreading).mp hfold
  obtain ⟨reason, hreason⟩ := Option.isSome_iff_exists.mp hreason
  obtain ⟨hall, hlength, hbytes, hshared⟩ := shared_of_middle hcount hmiddle
  rw [foldl_after] at hshared
  have hbuilds {i : ℕ} {block : Json} : mid.blocks.get? i = some block ↔
      Builds std (own key i middle) block := builds_of_middle hmiddle hopen
  refine ⟨⟨pings, start, middle, stop, rest⟩, ⟨mid.blocks.sorted, mid.usage, reason⟩,
    by simp [Transcript.log], ?_, by simp [State.message, State.counted, Body.json, hreason]⟩
  refine ⟨hpings, hstart, hall, hstop, ⟨first, husage, congrArg Shared.usage hshared⟩, ?_,
    Dict.pairwise_sorted _, fun i block hmem => hbuilds.mp (Dict.mem_sorted.mp hmem), ?_, ?_, hbytes⟩
  · have hlast := congrArg Shared.stopReason hshared
    simpa [State.shared, State.begun, State.pinged, hreason] using hlast.symm
  · intro event hevent i hkey
    by_contra hnot
    have hnone : mid.blocks.get? i = none := by
      rw [Dict.get?_eq_none]
      intro hmem
      obtain ⟨block, hblock⟩ := Option.isSome_iff_exists.mp (Dict.mem_keys.mp hmem)
      exact hnot (List.mem_map.mpr ⟨(i, block), Dict.mem_sorted.mpr hblock, rfl⟩)
    have hrun := slot_of_middle hmiddle i
    rw [show slot mid i = .absent by simp [slot, hnone]] at hrun
    exact own_eq_nil.mp (foldlM_to_absent hrun) event hevent hkey
  · have hlimit := congrArg (fun g => g.limit.events) hshared
    simp only [State.shared, State.begun, State.pinged] at hlimit
    dsimp only
    omega

/-- The fragments of a message are read to its end. -/
theorem read_of_sends {tr : Transcript} {body : Body} (h : tr.Sends std body)
    (ends : Option PyError) : ∃ t, read std ends tr.log {} = (t, none) ∧
      t.messageStopped = true ∧ t.message = body.json := by
  obtain ⟨first, hfirst, husage⟩ := h.usage
  have hcount := h.count
  have hown (i : ℕ) : own key i tr.middle = [] ∨ ∃ block, Builds std (own key i tr.middle) block := by
    by_cases hmem : i ∈ body.blocks.map Prod.fst
    · obtain ⟨⟨j, block⟩, hentry, rfl⟩ := List.mem_map.mp hmem
      exact .inr ⟨block, h.built j block hentry⟩
    · exact .inl (own_eq_nil.mpr fun event hevent hkey => hmem (h.only event hevent i hkey))
  obtain ⟨mid, hfold, hopen⟩ : ∃ mid, tr.middle.foldlM (State.next std)
      (State.begun (tr.pings.length + 1) first) = .ok mid ∧ mid.openBlocks = [] :=
    read_middle (by omega) h.bytes h.middle hown
  obtain ⟨-, -, -, hshared⟩ := shared_of_middle (by omega) hfold
  rw [foldl_after] at hshared
  have hreading : mid.Reading := (splits std).run_inv (reading_begun _ _) hfold
  have hreason : mid.stopReason = some body.stopReason := by
    have hlast := congrArg Shared.stopReason hshared
    simpa [State.shared, h.reason] using hlast
  have hevents : mid.limit.events + 1 ≤ maxStreamEvents := by
    have hlimit := congrArg (fun g => g.limit.events) hshared
    simp only [State.shared, State.begun, State.pinged] at hlimit
    omega
  have hsorted : mid.blocks.sorted = body.blocks := by
    refine Dict.sorted_eq h.sorted fun i block => ?_
    rw [builds_of_middle hfold hopen]
    refine ⟨h.built i block, fun hbuilds => ?_⟩
    have hstart := hbuilds
    obtain ⟨start, deltas, stop, pieces, hevents, -⟩ := hstart
    have hstart : start ∈ own key i tr.middle := hevents ▸ List.mem_cons_self
    obtain ⟨hmem, hkey⟩ := List.mem_filter.mp hstart
    obtain ⟨⟨j, other⟩, hentry, rfl⟩ := List.mem_map.mp
      (h.only start hmem i (of_decide_eq_true hkey))
    have hsame := (foldlM_absent.mpr (h.built j other hentry)).symm.trans
      (foldlM_absent.mpr hbuilds)
    cases hsame
    exact hentry
  have hbefore : (tr.pings ++ tr.start :: tr.middle).foldlM (State.next std) {} = .ok mid :=
    (foldlM_pinged (n := 0) hreading).mpr ⟨tr.pings, tr.start, tr.middle, first, rfl, h.pings,
      h.start, by omega, hfirst, by simpa [State.begun] using hfold⟩
  have hstep : step std mid tr.stop = .ok { mid.counted with messageStopped := true } :=
    (step_stop (.inr hreading) h.stop).mpr ⟨hreading, hevents, hopen, by simp [hreason], rfl⟩
  refine ⟨_, ((read_eq ends (.inl ⟨0, rfl⟩)).mpr ⟨_, tr.stop, tr.rest, mid, log_eq tr, h.stop,
    hbefore, hstep⟩).1, rfl, ?_⟩
  have husage' : mid.usage = body.usage := (congrArg Shared.usage hshared).trans husage.symm
  simp [State.message, State.counted, Body.json, hsorted, hreason, husage']

end Anthropic

end Providers

end Eventide
