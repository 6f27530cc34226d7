import Eventide.Library.Family
import Eventide.Model.ProviderStreams

/-! # The blocks of a message stream

The stream of a message is a family of machines: one for each content block, and what they share.
So a block is put together from its own events alone, however those of several blocks are mixed. -/

namespace Eventide

namespace Providers

open Outcome

/-- The index that a value is, where a number is compared with it. -/
def position? (value : Json) : Option ℕ :=
  value.number?.bind fun q => if (q.num.toNat : ℚ) = q then some q.num.toNat else none

theorem numberEq_int {value : Json} {i : ℕ} :
    Json.numberEq value (.int i) = true ↔ position? value = some i := by
  cases hq : value.number? with
  | none => simp [Json.numberEq, position?, hq]
  | some q =>
    have hnum : Json.number? (.int i) = some (i : ℚ) := rfl
    simp only [Json.numberEq, position?, hq, hnum, beq_iff_eq, Option.bind_some,
      Option.ite_none_right_eq_some, Option.some.injEq]
    constructor
    · rintro rfl
      simp
    · rintro ⟨hq, rfl⟩
      exact hq.symm

theorem pyEq_int {value : Json} {i : ℕ} : value.pyEq (.int i) = true ↔ position? value = some i := by
  cases value with
  | bool | int | float =>
    rw [← numberEq_int]
    simp [Json.pyEq]
  | _ => simp [Json.pyEq, position?, Json.number?]

theorem position?_int {n : ℤ} (h : 0 ≤ n) : position? (.int n) = some n.toNat := by
  have hcast : ((n.toNat : ℕ) : ℚ) = n := by exact_mod_cast Int.toNat_of_nonneg h
  simp [position?, Json.number?, hcast]

theorem add_eq_ok {limit next : StreamLimit} {value : String} : limit.add value = .ok next ↔
    limit.size + value.utf8ByteSize ≤ maxStreamBytes ∧
      next = ⟨limit.size + value.utf8ByteSize, limit.events⟩ := by
  unfold StreamLimit.add
  split
  · rename_i h
    simp only [reduceCtorEq, false_iff, not_and]
    omega
  · rename_i h
    simp only [Except.ok.injEq, eq_comm (b := next)]
    exact (and_iff_right (by omega)).symm

theorem event_eq_ok {limit next : StreamLimit} : limit.event = .ok next ↔
    limit.events + 1 ≤ maxStreamEvents ∧ next = ⟨limit.size, limit.events + 1⟩ := by
  unfold StreamLimit.event
  split
  · rename_i h
    simp only [reduceCtorEq, false_iff, not_and]
    omega
  · rename_i h
    simp only [Except.ok.injEq, eq_comm (b := next)]
    exact (and_iff_right (by omega)).symm

namespace Anthropic

variable (std : Standard)

/-! ## One block -/

/-- What the events of an index have made. -/
inductive Slot where
  | absent
  | opened (block : Json) (parts : Option (List String))
  | closed (block : Json)

def slot (st : State) (i : ℕ) : Slot :=
  match st.blocks.get? i with
  | none => .absent
  | some block =>
    if i ∈ st.openBlocks then .opened block (st.jsonParts.get? i) else .closed block

/-- What a delta adds to its block. -/
inductive Piece where
  | json (part : String)
  | text (key expected part : String)
  | nothing

/-- A delta whose type has no hash is refused. -/
def piece? (delta : Json) : Option Piece :=
  let deltaKind := field delta "type" .null
  if deltaKind.pyEq (.str "input_json_delta") then
    some (.json (std.str (field delta "partial_json" (.str ""))))
  else if deltaKind.hashError?.isSome then none
  else
    match deltaKind.str?.bind fun name => deltaKeys.lookup name with
    | none => some .nothing
    | some (key, expected) => some (.text key expected (std.str (field delta key (.str ""))))

/-- A block of the type that the piece belongs to. -/
def Piece.Suits (block : Json) : Piece → Prop
  | json _ => block.fieldIs "type" "tool_use" = true
  | text _ expected _ => block.fieldIs "type" expected = true
  | nothing => True

instance (block : Json) (piece : Piece) : Decidable (piece.Suits block) := by
  cases piece <;> unfold Piece.Suits <;> infer_instance

def Piece.block (block : Json) : Piece → Json
  | text key _ part => appendPart std block key part
  | json _ | nothing => block

def Piece.parts (parts : Option (List String)) : Piece → Option (List String)
  | json part => some (parts.getD [] ++ [part])
  | text _ _ _ | nothing => parts

def Piece.inBlocks (i : ℕ) (blocks : Dict ℕ Json) : Piece → Dict ℕ Json
  | text key _ part => blocks.set i (appendPart std ((blocks.get? i).getD .null) key part)
  | json _ | nothing => blocks

def Piece.inParts (i : ℕ) (parts : Dict ℕ (List String)) : Piece → Dict ℕ (List String)
  | json part => parts.set i ((parts.get? i).getD [] ++ [part])
  | text _ _ _ | nothing => parts

theorem Piece.get?_inBlocks {i : ℕ} {blocks : Dict ℕ Json} {block : Json}
    (h : blocks.get? i = some block) (piece : Piece) (j : ℕ) :
    (piece.inBlocks std i blocks).get? j =
      if j = i then some (piece.block std block) else blocks.get? j := by
  cases piece with
  | text key expected part => simp [inBlocks, Piece.block, h]
  | _ =>
    rw [inBlocks, Piece.block]
    split
    · rename_i hj
      rw [hj, h]
    · rfl

theorem Piece.get?_inParts (i : ℕ) (parts : Dict ℕ (List String)) (piece : Piece) (j : ℕ) :
    (piece.inParts i parts).get? j =
      if j = i then piece.parts (parts.get? i) else parts.get? j := by
  cases piece with
  | json part => simp [inParts, Piece.parts]
  | _ =>
    rw [inParts, Piece.parts]
    split
    · rename_i hj
      rw [hj]
    · rfl

/-- The block when its events are over. -/
def finished (block : Json) (parts : Option (List String)) : Json :=
  parts.elim block fun parts => block.withField "input" (parseArguments std (String.join parts))

def Slot.step : Slot → Json → Option Slot
  | .absent, event =>
    let block := field event "content_block" .null
    if kind event = .blockStart ∧ block.isObj then some (.opened block none) else none
  | .opened block parts, event =>
    match kind event with
    | .blockDelta =>
      (piece? std (field event "delta" .null)).bind fun piece =>
        if piece.Suits block then some (.opened (piece.block std block) (piece.parts parts)) else none
    | .blockStop => some (.closed (finished std block parts))
    | _ => none
  | .closed _, _ => none

/-- The index that an event of a block names. -/
def key (event : Json) : Option ℕ :=
  match kind event with
  | .blockStart | .blockDelta | .blockStop => position? (field event "index" .null)
  | _ => none

/-! ## What the blocks share -/

structure Shared where
  stopReason : Option String
  limit : StreamLimit
  usage : Dict String Json
  sent : List String

def State.shared (st : State) : Shared where
  stopReason := st.stopReason
  limit := st.limit
  usage := st.usage
  sent := st.sent

/-- The bytes that an event counts for. -/
def cost (event : Json) : ℕ :=
  match kind event with
  | .blockStart => (std.dumps (field event "content_block" .null)).utf8ByteSize
  | .blockDelta =>
    match piece? std (field event "delta" .null) with
    | some (.json part) | some (.text _ _ part) => part.utf8ByteSize
    | _ => 0
  | _ => 0

/-- The text of an event that is shown at once. -/
def shown (event : Json) : List String :=
  match kind event with
  | .blockStart =>
    let block := field event "content_block" .null
    if block.fieldIs "type" "text" && (block.get? "text").any Json.truthy then
      [std.str (field block "text" .null)]
    else []
  | .blockDelta =>
    match piece? std (field event "delta" .null) with
    | some (.text key _ part) => if key = "text" && part ≠ "" then [part] else []
    | _ => []
  | _ => []

/-- The counters that a delta of the message reports. -/
def deltaUsage (event : Json) : Option (List (String × Json)) :=
  let values := field event "usage" .null
  if values.truthy then
    if values.isObj then some (values.items.filter fun entry => !entry.2.isNull) else none
  else some []

/-- The reason that a delta of the message reports. -/
def deltaReason (event : Json) : Option String :=
  let reason := field (field event "delta" .null) "stop_reason" .null
  if reason.isNull then none else some (std.str reason)

/-- An event that may come once the message has started. -/
def admissible (event : Json) : Bool :=
  match kind event with
  | .messageStart | .messageStop | .error => false
  | .blockStart =>
    match field event "index" .null with
    | .int n => 0 ≤ n ∧ n < maxStreamItems
    | _ => false
  | .blockDelta | .blockStop => (key event).isSome
  | .messageDelta => (deltaUsage event).isSome
  | .ping | .other => true

def reasonOf (event : Json) : Option String :=
  if kind event = .messageDelta then deltaReason std event else none

def usageOf (event : Json) : List (String × Json) :=
  if kind event = .messageDelta then (deltaUsage event).getD [] else []

/-- Within the limits after the event. -/
def Shared.Allows (g : Shared) (event : Json) : Prop :=
  g.limit.events + 1 ≤ maxStreamEvents ∧ g.limit.size + cost std event ≤ maxStreamBytes

instance (g : Shared) (event : Json) : Decidable (g.Allows std event) := by
  unfold Shared.Allows
  infer_instance

def Shared.after (g : Shared) (event : Json) : Shared where
  stopReason := (reasonOf std event).or g.stopReason
  limit := ⟨g.limit.size + cost std event, g.limit.events + 1⟩
  usage := g.usage.update (usageOf event)
  sent := g.sent ++ shown std event

def Shared.step (g : Shared) (event : Json) : Option Shared :=
  if admissible event = true ∧ g.Allows std event then some (g.after std event) else none

/-! ## The family -/

/-- A message that is being read. -/
structure State.Reading (st : State) : Prop where
  started : st.messageStarted = true
  running : st.messageStopped = false
  opened : ∀ i ∈ st.openBlocks, i ∈ st.blocks.keys
  nodup : st.openBlocks.Nodup
  parts : ∀ i ∈ st.jsonParts.keys, i ∈ st.blocks.keys
  size : st.limit.size ≤ maxStreamBytes

variable {std : Standard} {st t : State} {event : Json}

theorem openIndex_eq_ok {message : String} {i : ℕ} : openIndex st event message = .ok i ↔
    i ∈ st.openBlocks ∧ position? (field event "index" .null) = some i := by
  unfold openIndex
  dsimp only
  cases hhash : (field event "index" .null).hashError? with
  | some e =>
    have hnone : position? (field event "index" .null) = none := by
      cases hindex : field event "index" .null <;>
        simp_all [Json.hashError?, position?, Json.number?]
    simp [hnone]
  | none =>
    dsimp only
    cases hfind : st.openBlocks.find? fun i : ℕ => (field event "index" .null).pyEq (.int i) with
    | none =>
      simp only [reduceCtorEq, false_iff, not_and]
      intro hopen hposition
      exact absurd (pyEq_int.mpr hposition) (List.find?_eq_none.mp hfind i hopen)
    | some j =>
      have hj : position? (field event "index" .null) = some j :=
        pyEq_int.mp (by simpa using List.find?_some hfind)
      have hopen := List.mem_of_find?_eq_some hfind
      rw [hj]
      constructor
      · intro heq
        cases heq
        exact ⟨hopen, rfl⟩
      · rintro ⟨-, heq⟩
        cases heq
        rfl

theorem startBlock_eq_ok (hkind : kind event = .blockStart) : startBlock std st event = .ok t ↔
    ∃ n : ℕ, field event "index" .null = .int n ∧ n < maxStreamItems ∧ n ∉ st.blocks.keys ∧
      (field event "content_block" .null).isObj = true ∧
      st.limit.size + cost std event ≤ maxStreamBytes ∧
      t = { st with
        limit := ⟨st.limit.size + cost std event, st.limit.events⟩
        blocks := st.blocks.set n (field event "content_block" .null)
        openBlocks := st.openBlocks ++ [n]
        sent := st.sent ++ shown std event } := by
  have hcost : cost std event = (std.dumps (field event "content_block" .null)).utf8ByteSize := by
    rw [cost, hkind]
  unfold startBlock
  cases hindex : field event "index" .null with
  | int n =>
    dsimp only
    split
    · rename_i hrange
      obtain ⟨m, rfl⟩ := Int.eq_ofNat_of_zero_le hrange.1
      have hm : m < maxStreamItems := by simpa using hrange.2
      rw [Int.toNat_natCast]
      split
      · rename_i hold
        rw [Dict.contains_iff] at hold
        simp only [reduceCtorEq, Json.int.injEq, Nat.cast_inj, false_iff, not_exists]
        rintro k ⟨rfl, -, hnew, -⟩
        exact hnew hold
      · rename_i hnew
        rw [Dict.contains_iff] at hnew
        split
        · rename_i hobj
          simp only [bind_eq_ok, add_eq_ok, pure_eq_ok]
          constructor
          · rintro ⟨limit, ⟨hsize, rfl⟩, ht⟩
            cases ht
            refine ⟨m, rfl, hm, hnew, hobj, hcost ▸ hsize, ?_⟩
            rw [hcost, shown, hkind]
          · rintro ⟨k, hk, -, -, -, hsize, rfl⟩
            obtain rfl : m = k := by simpa using hk
            rw [hcost] at hsize
            refine ⟨_, ⟨hsize, rfl⟩, ?_⟩
            rw [hcost, shown, hkind]
        · rename_i hobj
          simp [hobj]
    · rename_i hrange
      simp only [reduceCtorEq, Json.int.injEq, false_iff, not_exists]
      rintro k ⟨rfl, hk, -⟩
      exact hrange ⟨Int.natCast_nonneg k, by exact_mod_cast hk⟩
  | _ => simp

theorem addDelta_eq_ok (hkind : kind event = .blockDelta) (hsize : st.limit.size ≤ maxStreamBytes) :
    addDelta std st event = .ok t ↔ ∃ i piece, i ∈ st.openBlocks ∧
      position? (field event "index" .null) = some i ∧
      piece? std (field event "delta" .null) = some piece ∧
      piece.Suits ((st.blocks.get? i).getD .null) ∧
      st.limit.size + cost std event ≤ maxStreamBytes ∧
      t = { st with
        limit := ⟨st.limit.size + cost std event, st.limit.events⟩
        blocks := piece.inBlocks std i st.blocks
        jsonParts := piece.inParts i st.jsonParts
        sent := st.sent ++ shown std event } := by
  have hcost : cost std event = match piece? std (field event "delta" .null) with
      | some (.json part) | some (.text _ _ part) => part.utf8ByteSize
      | _ => 0 := by
    rw [cost, hkind]
  have hshown : shown std event = match piece? std (field event "delta" .null) with
      | some (.text key _ part) => if key = "text" && part ≠ "" then [part] else []
      | _ => [] := by
    rw [shown, hkind]
  unfold addDelta
  simp only [bind_eq_ok, openIndex_eq_ok, and_assoc]
  refine exists_congr fun i => ?_
  simp only [exists_and_left]
  refine and_congr_right fun _ => and_congr_right fun _ => ?_
  unfold piece? at hcost hshown ⊢
  dsimp only at hcost hshown ⊢
  split
  · rename_i hjson
    rw [if_pos hjson] at hcost hshown
    simp only [Option.some.injEq, exists_eq_left', hcost, hshown, Piece.Suits, List.append_nil]
    split
    · rename_i htool
      simp only [bind_eq_ok, add_eq_ok, pure_eq_ok, htool, true_and]
      constructor
      · rintro ⟨limit, ⟨hadd, rfl⟩, ht⟩
        cases ht
        exact ⟨hadd, rfl⟩
      · rintro ⟨hadd, rfl⟩
        exact ⟨_, ⟨hadd, rfl⟩, rfl⟩
    · rename_i htool
      simp [htool]
  · rename_i hjson
    rw [if_neg hjson] at hcost hshown
    cases hhash : (field (field event "delta" .null) "type" .null).hashError? with
    | some e => simp
    | none =>
      simp only [hhash, Option.isSome_none, Bool.false_eq_true, if_false] at hcost hshown ⊢
      cases hlookup : (field (field event "delta" .null) "type" .null).str?.bind
          fun name => deltaKeys.lookup name with
      | none =>
        simp only [hlookup] at hcost hshown ⊢
        have hcost : cost std event = 0 := hcost
        simp only [Option.some.injEq, exists_eq_left', hcost, hshown, Piece.Suits, true_and,
          Piece.inBlocks, Piece.inParts, Nat.add_zero, List.append_nil]
        constructor
        · intro ht
          cases ht
          exact ⟨hsize, rfl⟩
        · rintro ⟨-, rfl⟩
          rfl
      | some entry =>
        obtain ⟨key, expected⟩ := entry
        simp only [hlookup] at hcost hshown ⊢
        simp only [Option.some.injEq, exists_eq_left', hcost, hshown, Piece.Suits]
        split
        · rename_i htext
          simp only [bind_eq_ok, add_eq_ok, pure_eq_ok, htext, true_and]
          constructor
          · rintro ⟨limit, ⟨hadd, rfl⟩, ht⟩
            cases ht
            exact ⟨hadd, rfl⟩
          · rintro ⟨hadd, rfl⟩
            exact ⟨_, ⟨hadd, rfl⟩, rfl⟩
        · rename_i htext
          simp [htext]

theorem stopBlock_eq_ok : stopBlock std st event = .ok t ↔ ∃ i, i ∈ st.openBlocks ∧
    position? (field event "index" .null) = some i ∧
    t = { st with
      openBlocks := st.openBlocks.erase i
      blocks := if (st.jsonParts.get? i).isSome then
          st.blocks.set i (finished std ((st.blocks.get? i).getD .null) (st.jsonParts.get? i))
        else st.blocks } := by
  unfold stopBlock
  simp only [bind_eq_ok, openIndex_eq_ok, and_assoc]
  refine exists_congr fun i => and_congr_right fun _ => and_congr_right fun _ => ?_
  rw [pure_eq_ok]
  cases hparts : st.jsonParts.get? i with
  | none => simp [eq_comm (a := t)]
  | some parts => simp [finished, eq_comm (a := t)]

theorem addMessageDelta_eq_ok : addMessageDelta std st event = .ok t ↔
    ∃ items, deltaUsage event = some items ∧
      t = { st with
        stopReason := (deltaReason std event).or st.stopReason
        usage := st.usage.update items } := by
  have hreason : (if (field (field event "delta" .null) "stop_reason" .null).isNull then st.stopReason
      else some (std.str (field (field event "delta" .null) "stop_reason" .null))) =
      (deltaReason std event).or st.stopReason := by
    unfold deltaReason
    dsimp only
    split
    · rfl
    · rfl
  unfold addMessageDelta deltaUsage
  dsimp only
  rw [hreason]
  split
  · cases hvalues : field event "usage" .null with
    | obj fields => simp [pure_eq_ok, eq_comm (a := t)]
    | _ => simp [Json.isObj]
  · simp [pure_eq_ok, eq_comm (a := t)]

/-- The event has been counted. -/
def State.counted (st : State) : State :=
  { st with limit := ⟨st.limit.size, st.limit.events + 1⟩ }

/-- A step inside a message. -/
theorem step_eq_ok (hstarted : st.messageStarted = true) : step std st event = .ok t ↔
    st.limit.events + 1 ≤ maxStreamEvents ∧
      match kind event with
      | .messageStart | .error => False
      | .ping | .other => t = st.counted
      | .blockStart => startBlock std st.counted event = .ok t
      | .blockDelta => addDelta std st.counted event = .ok t
      | .blockStop => stopBlock std st.counted event = .ok t
      | .messageDelta => addMessageDelta std st.counted event = .ok t
      | .messageStop => stopMessage st.counted = .ok t := by
  unfold step
  simp only [bind_eq_ok, event_eq_ok, and_assoc, exists_and_left, exists_eq_left]
  refine and_congr_right fun _ => ?_
  cases kind event with
  | messageStart => simp [startMessage, hstarted]
  | ping | other => simp [hstarted, pure_eq_ok, State.counted, eq_comm (a := t)]
  | _ => simp [hstarted, State.counted]

/-- A step that does not end the message. -/
def State.next (std : Standard) (st : State) (event : Json) : Except PyError State :=
  if kind event = .messageStop then .error (failed "Model stream ended") else step std st event

/-- What a step inside a message leaves of the message and of its blocks. -/
structure Next (std : Standard) (st : State) (event : Json) (t : State) : Prop where
  reading : t.Reading
  shared : st.shared.step std event = some t.shared
  own : ∀ k, key event = some k → (slot st k).step std event = some (slot t k)
  other : ∀ k, key event ≠ some k → slot t k = slot st k

theorem slot_congr {i : ℕ} (hblocks : t.blocks.get? i = st.blocks.get? i)
    (hopen : i ∈ t.openBlocks ↔ i ∈ st.openBlocks)
    (hparts : t.jsonParts.get? i = st.jsonParts.get? i) : slot t i = slot st i := by
  simp only [slot, hblocks, hopen, hparts]

theorem slot_eq_opened {i : ℕ} {block : Json} {parts : Option (List String)}
    (hblock : st.blocks.get? i = some block) (hopen : i ∈ st.openBlocks)
    (hparts : st.jsonParts.get? i = parts) : slot st i = .opened block parts := by
  simp [slot, hblock, hopen, hparts]

theorem slot_eq_closed {i : ℕ} {block : Json} (hblock : st.blocks.get? i = some block)
    (hopen : i ∉ st.openBlocks) : slot st i = .closed block := by
  simp [slot, hblock, hopen]

theorem slot_eq_absent {i : ℕ} (h : i ∉ st.blocks.keys) : slot st i = .absent := by
  simp [slot, Dict.get?_eq_none.mpr h]

theorem shared_step (hadmissible : admissible event = true) (hallows : st.shared.Allows std event)
    (hafter : t.shared = st.shared.after std event) :
    st.shared.step std event = some t.shared := by
  rw [Shared.step, if_pos ⟨hadmissible, hallows⟩, hafter]

theorem next_startBlock (hr : st.Reading) (hkind : kind event = .blockStart)
    (hevents : st.limit.events + 1 ≤ maxStreamEvents)
    (h : startBlock std st.counted event = .ok t) : Next std st event t := by
  obtain ⟨n, hindex, hn, hnew, hobj, hsize, rfl⟩ := (startBlock_eq_ok hkind).mp h
  have hkey : key event = some n := by
    rw [key, hkind, hindex]
    exact position?_int (Int.natCast_nonneg n)
  have hparts : st.jsonParts.get? n = none :=
    Dict.get?_eq_none.mpr fun hmem => hnew (hr.parts n hmem)
  refine ⟨⟨hr.started, hr.running, ?_, ?_, ?_, hsize⟩, ?_, ?_, ?_⟩
  · intro i hi
    rw [Dict.mem_keys_set]
    rcases List.mem_append.mp hi with hold | hlast
    · exact .inr (hr.opened i hold)
    · exact .inl (List.mem_singleton.mp hlast)
  · exact Sequence.nodup_concat.mpr ⟨fun hmem => hnew (hr.opened n hmem), hr.nodup⟩
  · exact fun i hi => Dict.mem_keys_set.mpr (.inr (hr.parts i hi))
  · refine shared_step ?_ ⟨hevents, hsize⟩ ?_
    · simp [admissible, hkind, hindex, hn]
    · simp [Shared.after, State.shared, State.counted, reasonOf, usageOf, hkind]
  · intro k hk
    obtain rfl : n = k := Option.some.inj (hkey.symm.trans hk)
    rw [slot_eq_absent (show n ∉ st.blocks.keys from hnew)]
    refine Eq.trans ?_ (congrArg some (slot_eq_opened Dict.get?_set_self
      (List.mem_append_right _ List.mem_cons_self) (by exact hparts)).symm)
    simp [Slot.step, hkind, hobj]
  · intro k hk
    have hne : k ≠ n := fun heq => hk (heq ▸ hkey)
    exact slot_congr (Dict.get?_set_of_ne hne) (by simp [State.counted, hne]) rfl

/-- The block of an open index. -/
theorem State.Reading.get?_opened (hr : st.Reading) {i : ℕ} (hi : i ∈ st.openBlocks) :
    ∃ block, st.blocks.get? i = some block ∧
      slot st i = .opened block (st.jsonParts.get? i) := by
  obtain ⟨block, hblock⟩ := Option.isSome_iff_exists.mp (Dict.mem_keys.mp (hr.opened i hi))
  exact ⟨block, hblock, slot_eq_opened hblock hi rfl⟩

theorem next_addDelta (hr : st.Reading) (hkind : kind event = .blockDelta)
    (hevents : st.limit.events + 1 ≤ maxStreamEvents)
    (h : addDelta std st.counted event = .ok t) : Next std st event t := by
  obtain ⟨i, piece, hopen, hposition, hpiece, hsuits, hsize, rfl⟩ :=
    (addDelta_eq_ok hkind (show st.counted.limit.size ≤ _ from hr.size)).mp h
  have hkey : key event = some i := by rw [key, hkind, hposition]
  obtain ⟨block, hblock, hslot⟩ := hr.get?_opened hopen
  have hget : (st.counted.blocks.get? i).getD .null = block := by simp [State.counted, hblock]
  have hblocks (j : ℕ) : (piece.inBlocks std i st.blocks).get? j =
      if j = i then some (piece.block std block) else st.blocks.get? j :=
    Piece.get?_inBlocks std hblock piece j
  have hkeys (j : ℕ) (hj : j ∈ st.blocks.keys) : j ∈ (piece.inBlocks std i st.blocks).keys := by
    rw [Dict.mem_keys, hblocks]
    split
    · rfl
    · exact Dict.mem_keys.mp hj
  refine ⟨⟨hr.started, hr.running, fun j hj => hkeys j (hr.opened j hj), hr.nodup, ?_, hsize⟩,
    ?_, ?_, ?_⟩
  · intro j hj
    refine hkeys j ?_
    by_cases heq : j = i
    · exact heq ▸ hr.opened i hopen
    · have hold := (piece.get?_inParts i st.jsonParts j).trans (if_neg heq)
      exact hr.parts j (Dict.mem_keys.mpr (hold ▸ Dict.mem_keys.mp hj))
  · refine shared_step ?_ ⟨hevents, hsize⟩ ?_
    · simp [admissible, hkind, hkey]
    · simp [Shared.after, State.shared, State.counted, reasonOf, usageOf, hkind]
  · intro k hk
    obtain rfl : i = k := Option.some.inj (hkey.symm.trans hk)
    rw [hget] at hsuits
    rw [hslot]
    refine Eq.trans ?_ (congrArg some (slot_eq_opened ((hblocks i).trans (if_pos rfl))
      (by exact hopen) ((piece.get?_inParts i st.jsonParts i).trans (if_pos rfl))).symm)
    simp [Slot.step, hkind, hpiece, hsuits]
  · intro k hk
    have hne : k ≠ i := fun heq => hk (heq ▸ hkey)
    refine slot_congr ((hblocks k).trans (if_neg hne)) Iff.rfl ?_
    exact (piece.get?_inParts i st.jsonParts k).trans (if_neg hne)

theorem next_stopBlock (hr : st.Reading) (hkind : kind event = .blockStop)
    (hevents : st.limit.events + 1 ≤ maxStreamEvents)
    (h : stopBlock std st.counted event = .ok t) : Next std st event t := by
  obtain ⟨i, hopen, hposition, rfl⟩ := stopBlock_eq_ok.mp h
  have hkey : key event = some i := by rw [key, hkind, hposition]
  obtain ⟨block, hblock, hslot⟩ := hr.get?_opened hopen
  have hcost : cost std event = 0 := by rw [cost, hkind]
  have hblocks (j : ℕ) : (if (st.jsonParts.get? i).isSome then
        st.blocks.set i (finished std ((st.blocks.get? i).getD .null) (st.jsonParts.get? i))
      else st.blocks).get? j =
      if j = i then some (finished std block (st.jsonParts.get? i)) else st.blocks.get? j := by
    cases hparts : st.jsonParts.get? i with
    | none =>
      by_cases heq : j = i
      · simp [heq, hblock, finished]
      · simp [heq]
    | some parts => simp [hblock]
  have hkeys (j : ℕ) (hj : j ∈ st.blocks.keys) : j ∈ (if (st.jsonParts.get? i).isSome then
        st.blocks.set i (finished std ((st.blocks.get? i).getD .null) (st.jsonParts.get? i))
      else st.blocks).keys := by
    rw [Dict.mem_keys, hblocks]
    split
    · rfl
    · exact Dict.mem_keys.mp hj
  refine ⟨⟨hr.started, hr.running, fun j hj => hkeys j (hr.opened j (List.mem_of_mem_erase hj)),
    hr.nodup.erase i, fun j hj => hkeys j (hr.parts j hj), hr.size⟩, ?_, ?_, ?_⟩
  · refine shared_step ?_ ⟨hevents, by rw [hcost]; exact hr.size⟩ ?_
    · simp [admissible, hkind, hkey]
    · simp [Shared.after, State.shared, State.counted, reasonOf, usageOf, shown, hcost, hkind]
  · intro k hk
    obtain rfl : i = k := Option.some.inj (hkey.symm.trans hk)
    have hclosed : i ∉ st.openBlocks.erase i := hr.nodup.not_mem_erase
    rw [hslot]
    refine Eq.trans ?_ (congrArg some (slot_eq_closed ((hblocks i).trans (if_pos rfl)) hclosed).symm)
    simp [Slot.step, hkind]
  · intro k hk
    have hne : k ≠ i := fun heq => hk (heq ▸ hkey)
    refine slot_congr ((hblocks k).trans (if_neg hne)) ?_ rfl
    exact List.mem_erase_of_ne hne

theorem next_aside (hr : st.Reading) (hkey : key event = none) (hcost : cost std event = 0)
    (hshown : shown std event = []) (hadmissible : admissible event = true)
    (hevents : st.limit.events + 1 ≤ maxStreamEvents)
    (ht : t = { st.counted with
      stopReason := (reasonOf std event).or st.stopReason
      usage := st.usage.update (usageOf event) }) : Next std st event t := by
  subst ht
  refine ⟨⟨hr.started, hr.running, hr.opened, hr.nodup, hr.parts, hr.size⟩, ?_, ?_, fun _ _ => rfl⟩
  · refine shared_step hadmissible ⟨hevents, by rw [hcost]; exact hr.size⟩ ?_
    simp [Shared.after, State.shared, State.counted, hcost, hshown]
  · intro k hk
    rw [hkey] at hk
    cases hk

theorem next_step (hr : st.Reading) (h : st.next std event = .ok t) : Next std st event t := by
  unfold State.next at h
  split at h
  · cases h
  · rename_i hstop
    obtain ⟨hevents, hkind⟩ := (step_eq_ok hr.started).mp h
    cases hcase : kind event with
    | messageStart | error => simp [hcase] at hkind
    | messageStop => exact absurd hcase hstop
    | blockStart =>
      rw [hcase] at hkind
      exact next_startBlock hr hcase hevents hkind
    | blockDelta =>
      rw [hcase] at hkind
      exact next_addDelta hr hcase hevents hkind
    | blockStop =>
      rw [hcase] at hkind
      exact next_stopBlock hr hcase hevents hkind
    | messageDelta =>
      rw [hcase] at hkind
      obtain ⟨items, hitems, rfl⟩ := addMessageDelta_eq_ok.mp hkind
      refine next_aside hr (by simp [key, hcase]) (by simp [cost, hcase]) (by simp [shown, hcase])
        (by simp [admissible, hcase, hitems]) hevents ?_
      simp [reasonOf, usageOf, hcase, hitems, State.counted]
    | ping | other =>
      rw [hcase] at hkind
      subst hkind
      refine next_aside hr (by simp [key, hcase]) (by simp [cost, hcase]) (by simp [shown, hcase])
        (by simp [admissible, hcase]) hevents ?_
      simp [reasonOf, usageOf, hcase, State.counted]

theorem of_slot_absent {i : ℕ} (h : slot st i = .absent) : i ∉ st.blocks.keys := by
  rw [← Dict.get?_eq_none]
  unfold slot at h
  split at h
  · assumption
  · split at h
    · cases h
    · cases h

theorem of_slot_opened {i : ℕ} {block : Json} {parts : Option (List String)}
    (h : slot st i = .opened block parts) : st.blocks.get? i = some block ∧ i ∈ st.openBlocks := by
  unfold slot at h
  split at h
  · cases h
  · rename_i other hother
    split at h
    · rename_i hopen
      cases h
      exact ⟨hother, hopen⟩
    · cases h

/-- Only the start of a block is accepted where there is none. -/
theorem of_start {s : Slot} (hkind : kind event = .blockStart) (h : (s.step std event).isSome) :
    s = .absent ∧ (field event "content_block" .null).isObj = true := by
  cases s with
  | absent => simpa [Slot.step, hkind] using h
  | opened | closed => simp [Slot.step, hkind] at h

theorem of_delta {s : Slot} (hkind : kind event = .blockDelta) (h : (s.step std event).isSome) :
    ∃ block parts piece, s = .opened block parts ∧
      piece? std (field event "delta" .null) = some piece ∧ piece.Suits block := by
  cases s with
  | absent | closed => simp [Slot.step, hkind] at h
  | opened block parts =>
    cases hpiece : piece? std (field event "delta" .null) with
    | none => simp [Slot.step, hkind, hpiece] at h
    | some piece =>
      by_cases hsuits : piece.Suits block
      · exact ⟨block, parts, piece, rfl, rfl, hsuits⟩
      · simp [Slot.step, hkind, hpiece, hsuits] at h

theorem of_stop {s : Slot} (hkind : kind event = .blockStop) (h : (s.step std event).isSome) :
    ∃ block parts, s = .opened block parts := by
  cases s with
  | absent | closed => simp [Slot.step, hkind] at h
  | opened block parts => exact ⟨block, parts, rfl⟩

theorem next_accepts (hr : st.Reading) (hadmissible : admissible event = true)
    (hallows : st.shared.Allows std event)
    (hs : ∀ k, key event = some k → ((slot st k).step std event).isSome) :
    ∃ t, st.next std event = .ok t := by
  obtain ⟨hevents, hsize⟩ := hallows
  have hnext (hstop : kind event ≠ .messageStop) : st.next std event = step std st event :=
    if_neg hstop
  cases hkind : kind event with
  | messageStart | messageStop | error => simp [admissible, hkind] at hadmissible
  | blockStart =>
    simp only [admissible, hkind] at hadmissible
    split at hadmissible
    · rename_i n hindex
      obtain ⟨hpos, hn⟩ := of_decide_eq_true hadmissible
      obtain ⟨m, rfl⟩ := Int.eq_ofNat_of_zero_le hpos
      have hkey : key event = some m := by
        rw [key, hkind, hindex]
        exact position?_int hpos
      obtain ⟨habsent, hobj⟩ := of_start hkind (hs m hkey)
      rw [hnext (by simp [hkind])]
      simp only [step_eq_ok hr.started, hkind]
      exact ⟨_, hevents, (startBlock_eq_ok hkind).mpr ⟨m, hindex, by exact_mod_cast hn,
        of_slot_absent habsent, hobj, hsize, rfl⟩⟩
    · cases hadmissible
  | blockDelta =>
    simp only [admissible, hkind] at hadmissible
    obtain ⟨i, hkey⟩ := Option.isSome_iff_exists.mp hadmissible
    obtain ⟨block, parts, piece, hslot, hpiece, hsuits⟩ := of_delta hkind (hs i hkey)
    obtain ⟨hblock, hopen⟩ := of_slot_opened hslot
    rw [key, hkind] at hkey
    rw [hnext (by simp [hkind])]
    simp only [step_eq_ok hr.started, hkind]
    refine ⟨_, hevents, (addDelta_eq_ok hkind (show st.counted.limit.size ≤ _ from hr.size)).mpr
      ⟨i, piece, hopen, hkey, hpiece, ?_, hsize, rfl⟩⟩
    rw [show st.counted.blocks.get? i = some block from hblock]
    exact hsuits
  | blockStop =>
    simp only [admissible, hkind] at hadmissible
    obtain ⟨i, hkey⟩ := Option.isSome_iff_exists.mp hadmissible
    obtain ⟨block, parts, hslot⟩ := of_stop hkind (hs i hkey)
    rw [key, hkind] at hkey
    rw [hnext (by simp [hkind])]
    simp only [step_eq_ok hr.started, hkind]
    exact ⟨_, hevents, stopBlock_eq_ok.mpr ⟨i, (of_slot_opened hslot).2, hkey, rfl⟩⟩
  | messageDelta =>
    simp only [admissible, hkind] at hadmissible
    obtain ⟨items, hitems⟩ := Option.isSome_iff_exists.mp hadmissible
    rw [hnext (by simp [hkind])]
    simp only [step_eq_ok hr.started, hkind]
    exact ⟨_, hevents, addMessageDelta_eq_ok.mpr ⟨items, hitems, rfl⟩⟩
  | ping | other =>
    rw [hnext (by simp [hkind])]
    simp only [step_eq_ok hr.started, hkind]
    exact ⟨_, hevents, rfl⟩

/-- The stream of a message is a family of blocks. -/
theorem splits (std : Standard) : Family.Splits State.Reading (State.next std) State.shared slot
    (Shared.step std) (Slot.step std) key where
  keeps hr h := (next_step hr h).reading
  moves hr h := (next_step hr h).shared
  slot_own hr h hkey := (next_step hr h).own _ hkey
  slot_other hr h hkey := (next_step hr h).other _ hkey
  accepts hr hg hs := by
    unfold Shared.step at hg
    split at hg
    · rename_i hboth
      exact next_accepts hr hboth.1 hboth.2 hs
    · cases hg

end Anthropic

end Providers

end Eventide
