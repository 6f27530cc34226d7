import Eventide.Verification.Providers.Blocks

/-! # A chat completion and its stream

The chunks of a completion are read as one list of choices, and the pieces of its calls by their
indexes: what the stream puts together is the completion whose fragments the chunks are. -/

namespace Eventide

namespace Providers

open Outcome

namespace Chat

variable {std : Standard} {st t : State} {call choice chunk : Json} {calls choices chunks : List Json}

/-! ## Calls -/

/-- The index of a piece of a call. -/
def callIndex? (call : Json) : Option ℕ :=
  match field call "index" .null with
  | .int n => if 0 ≤ n ∧ n < maxStreamItems then some n.toNat else none
  | _ => none

def callIndex (call : Json) : ℕ := (callIndex? call).getD 0

/-- What a piece adds to its call. -/
def pieceOf (call : Json) : CallParts where
  id := (field call "id" .null).str?.getD ""
  name := (field (field call "function" .null) "name" .null).str?.getD ""
  arguments := (field (field call "function" .null) "arguments" .null).str?.getD ""

def CallParts.size (parts : CallParts) : ℕ :=
  parts.id.utf8ByteSize + parts.name.utf8ByteSize + parts.arguments.utf8ByteSize

def CallParts.add (parts : CallParts) (call : Json) : CallParts where
  id := parts.id ++ (pieceOf call).id
  name := parts.name ++ (pieceOf call).name
  arguments := parts.arguments ++ (pieceOf call).arguments

def gather (parts : Dict ℕ CallParts) (call : Json) : Dict ℕ CallParts :=
  parts.set (callIndex call) (((parts.get? (callIndex call)).getD {}).add call)

theorem addPart_eq_ok {limit : StreamLimit} {target : String} {value : Json}
    {out : StreamLimit × String} (hsize : limit.size ≤ maxStreamBytes) :
    addPart limit target value = .ok out ↔
      limit.size + (value.str?.getD "").utf8ByteSize ≤ maxStreamBytes ∧
      out = (⟨limit.size + (value.str?.getD "").utf8ByteSize, limit.events⟩,
        target ++ value.str?.getD "") := by
  cases value with
  | str part =>
    simp only [addPart, bind_eq_ok, add_eq_ok, pure_eq_ok, Json.str?, Option.getD_some]
    constructor
    · rintro ⟨next, ⟨hnext, rfl⟩, hout⟩
      cases hout
      exact ⟨hnext, rfl⟩
    · rintro ⟨hnext, rfl⟩
      exact ⟨_, ⟨hnext, rfl⟩, rfl⟩
  | _ => simp [addPart, Json.str?, hsize, eq_comm]

def State.called (st : State) (call : Json) : State :=
  { st with
    limit := ⟨st.limit.size + (pieceOf call).size, st.limit.events⟩
    calls := gather st.calls call }

theorem addCall_eq_ok (hsize : st.limit.size ≤ maxStreamBytes) : addCall st call = .ok t ↔
    (callIndex? call).isSome ∧ st.limit.size + (pieceOf call).size ≤ maxStreamBytes ∧
      t = st.called call := by
  unfold addCall
  cases hindex : field call "index" .null with
  | int n =>
    dsimp only
    split
    · rename_i hrange
      have hn : callIndex? call = some n.toNat := by simp [callIndex?, hindex, hrange]
      simp only [hn, Option.isSome_some, true_and, bind_eq_ok, pure_eq_ok]
      constructor
      · rintro ⟨⟨first, id⟩, hid, ⟨second, name⟩, hname, ⟨third, arguments⟩, harguments, ht⟩
        obtain ⟨hfirst, hid⟩ := (addPart_eq_ok hsize).mp hid
        cases hid
        obtain ⟨hsecond, hname⟩ := (addPart_eq_ok hfirst).mp hname
        cases hname
        obtain ⟨hthird, harguments⟩ := (addPart_eq_ok hsecond).mp harguments
        cases harguments
        cases ht
        refine ⟨by simpa [pieceOf, CallParts.size, Nat.add_assoc] using hthird, ?_⟩
        simp [State.called, gather, callIndex, hn, CallParts.add, pieceOf, CallParts.size, Nat.add_assoc]
      · rintro ⟨hbytes, rfl⟩
        have hsum : (pieceOf call).size = (pieceOf call).id.utf8ByteSize +
          (pieceOf call).name.utf8ByteSize + (pieceOf call).arguments.utf8ByteSize := rfl
        have hfirst : st.limit.size + (pieceOf call).id.utf8ByteSize ≤ maxStreamBytes := by omega
        have hsecond : st.limit.size + (pieceOf call).id.utf8ByteSize +
          (pieceOf call).name.utf8ByteSize ≤ maxStreamBytes := by omega
        have hthird : st.limit.size + (pieceOf call).id.utf8ByteSize +
          (pieceOf call).name.utf8ByteSize + (pieceOf call).arguments.utf8ByteSize ≤
            maxStreamBytes := by omega
        refine ⟨_, (addPart_eq_ok hsize).mpr ⟨hfirst, rfl⟩, _,
          (addPart_eq_ok hfirst).mpr ⟨hsecond, rfl⟩, _,
          (addPart_eq_ok hsecond).mpr ⟨hthird, rfl⟩, ?_⟩
        simp [State.called, gather, callIndex, hn, CallParts.add, pieceOf, CallParts.size, Nat.add_assoc]
    · rename_i hrange
      simp [callIndex?, hindex, hrange]
  | _ => simp [callIndex?, hindex]

theorem foldlM_addCall (hsize : st.limit.size ≤ maxStreamBytes) :
    calls.foldlM addCall st = .ok t ↔ (∀ call ∈ calls, (callIndex? call).isSome) ∧
      st.limit.size + (calls.map fun call => (pieceOf call).size).sum ≤ maxStreamBytes ∧
      t = { st with
        limit := ⟨st.limit.size + (calls.map fun call => (pieceOf call).size).sum, st.limit.events⟩
        calls := calls.foldl gather st.calls } := by
  have hnext (calls : List Json) (st : State) : calls.foldl State.called st = { st with
      limit := ⟨st.limit.size + (calls.map fun call => (pieceOf call).size).sum, st.limit.events⟩
      calls := calls.foldl gather st.calls } := by
    induction calls generalizing st with
    | nil => rfl
    | cons call calls ih => simp [ih, State.called, Nat.add_assoc]
  have hstep (s : State) (x : Json) (u : State) (hs : s.limit.size ≤ maxStreamBytes) :
      addCall s x = .ok u ↔ (callIndex? x).isSome ∧
        s.limit.size + (pieceOf x).size ≤ maxStreamBytes ∧ u = s.called x := addCall_eq_ok hs
  rw [foldlM_budget hstep (fun _ _ => rfl) hsize, ← hnext]
  refine and_congr_left fun _ => ⟨fun h call hcall => ?_, fun h before call after heq => ?_⟩
  · obtain ⟨before, after, heq⟩ := List.append_of_mem hcall
    exact h before call after heq
  · exact h call (heq ▸ List.mem_append_right _ List.mem_cons_self)

/-! ## Choices -/

def deltaOf (choice : Json) : Json := field choice "delta" .null

def textsOf (choice : Json) : List String :=
  match field (deltaOf choice) "content" .null with
  | .str text => if text = "" then [] else [text]
  | _ => []

def thoughtsOf (choice : Json) : List String :=
  match field (deltaOf choice) "reasoning_content" .null with
  | .str text => [text]
  | _ => []

def callsOf? (choice : Json) : Option (List Json) :=
  (iterateOr (field (deltaOf choice) "tool_calls" (.arr []))).toOption

def callsOf (choice : Json) : List Json := (callsOf? choice).getD []

def reasonOf (std : Standard) (choice : Json) : Option String :=
  let reason := field choice "finish_reason" .null
  if reason.isNull then none else some (std.str reason)

theorem reasonOf_or (finishReason : Option String) :
    (if (field choice "finish_reason" .null).isNull then finishReason
      else some (std.str (field choice "finish_reason" .null))) =
      (reasonOf std choice).or finishReason := by
  unfold reasonOf
  cases hreason : (field choice "finish_reason" .null).isNull with
  | true => simp [hreason]
  | false => simp [hreason]

def bytes (choice : Json) : ℕ :=
  ((textsOf choice ++ thoughtsOf choice).map String.utf8ByteSize).sum +
    ((callsOf choice).map fun call => (pieceOf call).size).sum

/-- A choice that may come. -/
structure Suits (choice : Json) : Prop where
  expected : isExpected choice = true
  calls : (callsOf? choice).isSome
  indexes : ∀ call ∈ callsOf choice, (callIndex? call).isSome

def State.after (std : Standard) (st : State) (choice : Json) : State where
  limit := ⟨st.limit.size + bytes choice, st.limit.events⟩
  textParts := st.textParts ++ textsOf choice
  reasoning := st.reasoning ++ thoughtsOf choice
  calls := (callsOf choice).foldl gather st.calls
  finishReason := (reasonOf std choice).or st.finishReason
  usage := st.usage
  sent := st.sent ++ textsOf choice

theorem addText_eq_ok (hsize : st.limit.size ≤ maxStreamBytes) :
    addText st (field (deltaOf choice) "content" .null) = .ok t ↔
      st.limit.size + ((textsOf choice).map String.utf8ByteSize).sum ≤ maxStreamBytes ∧
      t = { st with
        limit := ⟨st.limit.size + ((textsOf choice).map String.utf8ByteSize).sum, st.limit.events⟩
        textParts := st.textParts ++ textsOf choice
        sent := st.sent ++ textsOf choice } := by
  unfold textsOf
  cases field (deltaOf choice) "content" .null with
  | str text =>
    by_cases hempty : text = ""
    · simp [addText, hempty, hsize, eq_comm (a := t)]
    · simp only [addText, hempty, if_false, bind_eq_ok, add_eq_ok]
      constructor
      · rintro ⟨next, ⟨hnext, rfl⟩, ht⟩
        cases ht
        exact ⟨by simpa using hnext, by simp⟩
      · rintro ⟨hnext, rfl⟩
        exact ⟨_, ⟨by simpa using hnext, rfl⟩, by simp [pure_eq_ok]⟩
  | _ => simp [addText, hsize, eq_comm (a := t)]

theorem addThought_eq_ok (hsize : st.limit.size ≤ maxStreamBytes) :
    addThought st (field (deltaOf choice) "reasoning_content" .null) = .ok t ↔
      st.limit.size + ((thoughtsOf choice).map String.utf8ByteSize).sum ≤ maxStreamBytes ∧
      t = { st with
        limit := ⟨st.limit.size + ((thoughtsOf choice).map String.utf8ByteSize).sum, st.limit.events⟩
        reasoning := st.reasoning ++ thoughtsOf choice } := by
  unfold thoughtsOf
  cases field (deltaOf choice) "reasoning_content" .null with
  | str text =>
    simp only [addThought, bind_eq_ok, add_eq_ok]
    constructor
    · rintro ⟨next, ⟨hnext, rfl⟩, ht⟩
      cases ht
      exact ⟨by simpa using hnext, by simp⟩
    · rintro ⟨hnext, rfl⟩
      exact ⟨_, ⟨by simpa using hnext, rfl⟩, by simp [pure_eq_ok]⟩
  | _ => simp [addThought, hsize, eq_comm (a := t)]

theorem addChoice_eq_ok (hsize : st.limit.size ≤ maxStreamBytes) : addChoice std st choice = .ok t ↔
    (st.finishReason = none ∧ Suits choice) ∧ st.limit.size + bytes choice ≤ maxStreamBytes ∧
      t = st.after std choice := by
  unfold addChoice enterChoice
  split
  · rename_i hfinished
    simp [Option.isSome_iff_ne_none.mp hfinished]
  · rename_i hfinished
    rw [Option.not_isSome_iff_eq_none] at hfinished
    split
    · rename_i hexpected
      simp only [error_bind, reduceCtorEq, false_iff, not_and]
      rintro ⟨-, hsuits⟩
      simp [hsuits.expected] at hexpected
    · rename_i hexpected
      rw [Bool.not_eq_true', Bool.not_eq_false] at hexpected
      rw [show field choice "delta" .null = deltaOf choice from rfl]
      simp only [bind_eq_ok]
      constructor
      · rintro ⟨first, htext, second, hthought, calls, hiterate, third, hfold, ht⟩
        obtain ⟨hfirst, rfl⟩ := (addText_eq_ok hsize).mp htext
        obtain ⟨hsecond, rfl⟩ := (addThought_eq_ok hfirst).mp hthought
        obtain ⟨hindexes, hthird, rfl⟩ := (foldlM_addCall hsecond).mp hfold
        have hcalls : callsOf? choice = some calls := by simp [callsOf?, hiterate, Except.toOption]
        have hcallsOf : callsOf choice = calls := by simp [callsOf, hcalls]
        cases ht
        refine ⟨⟨hfinished, hexpected, by simp [hcalls], hcallsOf ▸ hindexes⟩, ?_, ?_⟩
        · simpa [bytes, hcallsOf, Nat.add_assoc] using hthird
        · simp [State.after, bytes, hcallsOf, reasonOf_or, Nat.add_assoc]
      · rintro ⟨⟨-, hsuits⟩, hbytes, rfl⟩
        obtain ⟨calls, hcalls⟩ := Option.isSome_iff_exists.mp hsuits.calls
        have hcallsOf : callsOf choice = calls := by simp [callsOf, hcalls]
        have hiterate : iterateOr (field (deltaOf choice) "tool_calls" (.arr [])) = .ok calls := by
          unfold callsOf? at hcalls
          cases hvalue : iterateOr (field (deltaOf choice) "tool_calls" (.arr [])) with
          | error e => simp [hvalue, Except.toOption] at hcalls
          | ok value => simpa [hvalue, Except.toOption] using hcalls
        have hsum : bytes choice = ((textsOf choice).map String.utf8ByteSize).sum +
            ((thoughtsOf choice).map String.utf8ByteSize).sum +
            (calls.map fun call => (pieceOf call).size).sum := by simp [bytes, hcallsOf]
        have hfirst : st.limit.size + ((textsOf choice).map String.utf8ByteSize).sum ≤
          maxStreamBytes := by omega
        have hsecond : st.limit.size + ((textsOf choice).map String.utf8ByteSize).sum +
          ((thoughtsOf choice).map String.utf8ByteSize).sum ≤ maxStreamBytes := by omega
        refine ⟨_, (addText_eq_ok hsize).mpr ⟨hfirst, rfl⟩, _,
          (addThought_eq_ok hfirst).mpr ⟨hsecond, rfl⟩, calls, hiterate, _,
          (foldlM_addCall hsecond).mpr ⟨hcallsOf ▸ hsuits.indexes, ?_, rfl⟩, ?_⟩
        · dsimp only
          omega
        · simp [State.after, hsum, hcallsOf, reasonOf_or, Nat.add_assoc, pure_eq_ok]

/-- All that some choices add. -/
theorem foldl_after : choices.foldl (State.after std) st = {
    limit := ⟨st.limit.size + (choices.map bytes).sum, st.limit.events⟩
    textParts := st.textParts ++ choices.flatMap textsOf
    reasoning := st.reasoning ++ choices.flatMap thoughtsOf
    calls := (choices.flatMap callsOf).foldl gather st.calls
    finishReason := ((choices.filterMap (reasonOf std)).getLast?).or st.finishReason
    usage := st.usage
    sent := st.sent ++ choices.flatMap textsOf } := by
  induction choices generalizing st with
  | nil => simp
  | cons choice choices ih =>
    rw [List.foldl_cons, ih]
    have hreason : ((choices.filterMap (reasonOf std)).getLast?).or
        ((reasonOf std choice).or st.finishReason) =
        (((choice :: choices).filterMap (reasonOf std)).getLast?).or st.finishReason := by
      rw [List.filterMap_cons, ← Option.or_assoc]
      cases reasonOf std choice with
      | none => simp
      | some reason =>
        rw [List.getLast?_cons, Option.some_or]
        cases (choices.filterMap (reasonOf std)).getLast? <;> simp
    simp only [State.after, hreason, List.map_cons, List.sum_cons, List.flatMap_cons,
      List.foldl_append, List.append_assoc, Nat.add_assoc]

theorem limit_foldl_after : (choices.foldl (State.after std) st).limit =
    ⟨st.limit.size + (choices.map bytes).sum, st.limit.events⟩ := by
  rw [foldl_after]

theorem finishReason_foldl_after : (choices.foldl (State.after std) st).finishReason =
    ((choices.filterMap (reasonOf std)).getLast?).or st.finishReason := by
  rw [foldl_after]

/-- Choices that may come one after the other: nothing comes after the one that ends. -/
structure Orderly (std : Standard) (finishReason : Option String) (choices : List Json) : Prop where
  suits : ∀ choice ∈ choices, Suits choice
  open' : choices ≠ [] → finishReason = none
  last : ∀ before choice after, choices = before ++ choice :: after → after ≠ [] →
    reasonOf std choice = none

theorem foldlM_addChoice (hsize : st.limit.size ≤ maxStreamBytes) :
    choices.foldlM (addChoice std) st = .ok t ↔ Orderly std st.finishReason choices ∧
      st.limit.size + (choices.map bytes).sum ≤ maxStreamBytes ∧
      t = choices.foldl (State.after std) st := by
  have hstep (s : State) (x : Json) (u : State) (hs : s.limit.size ≤ maxStreamBytes) :
      addChoice std s x = .ok u ↔ (s.finishReason = none ∧ Suits x) ∧
        s.limit.size + bytes x ≤ maxStreamBytes ∧ u = s.after std x := addChoice_eq_ok hs
  rw [foldlM_budget hstep (fun _ _ => rfl) hsize]
  refine and_congr_left fun _ => ⟨fun h => ⟨fun choice hchoice => ?_, fun hne => ?_, ?_⟩,
    fun h before choice after heq => ⟨?_, ?_⟩⟩
  · obtain ⟨before, after, heq⟩ := List.append_of_mem hchoice
    exact (h before choice after heq).2
  · obtain ⟨choice, rest, rfl⟩ := List.exists_cons_of_ne_nil hne
    exact (h [] choice rest rfl).1
  · intro before choice after heq hne
    obtain ⟨next, rest, rfl⟩ := List.exists_cons_of_ne_nil hne
    have hnext := (h (before ++ [choice]) next rest (by simp [heq])).1
    rw [List.foldl_append, List.foldl_cons, List.foldl_nil, State.after] at hnext
    exact (Option.or_eq_none_iff.mp hnext).1
  · have hnone : ∀ other ∈ before, reasonOf std other = none := by
      intro other hother
      obtain ⟨front, back, rfl⟩ := List.append_of_mem hother
      exact h.last front other (back ++ choice :: after) (by simp [heq]) (by simp)
    rw [finishReason_foldl_after, h.open' (by simp [heq]), List.filterMap_eq_nil_iff.mpr hnone]
    rfl
  · exact h.suits choice (heq ▸ List.mem_append_right _ List.mem_cons_self)

/-! ## Chunks -/

def choicesOf? (chunk : Json) : Option (List Json) :=
  (iterateOr (field chunk "choices" (.arr []))).toOption

def choicesOf (chunk : Json) : List Json := (choicesOf? chunk).getD []

/-- The usage that a chunk reports. -/
def usageOf (chunk : Json) : Option Json :=
  let usage := field chunk "usage" .null
  if usage.isNull then none else some usage

def reported (usage : Option Json) (earlier : Dict String ℕ) : Dict String ℕ :=
  usage.elim earlier (normalizeProviderUsage "openai_compatible")

theorem iterateOr_eq_ok {value : Json} {items : List Json} :
    iterateOr value = .ok items ↔ (iterateOr value).toOption = some items := by
  cases iterateOr value <;> simp [Except.toOption]

theorem addChunk_eq_ok (hsize : st.limit.size ≤ maxStreamBytes) : addChunk std st chunk = .ok t ↔
    st.limit.events + 1 ≤ maxStreamEvents ∧ (choicesOf? chunk).isSome ∧
      Orderly std st.finishReason (choicesOf chunk) ∧
      st.limit.size + ((choicesOf chunk).map bytes).sum ≤ maxStreamBytes ∧
      t = (choicesOf chunk).foldl (State.after std) { st with
        limit := ⟨st.limit.size, st.limit.events + 1⟩
        usage := reported (usageOf chunk) st.usage } := by
  have husage : (if (field chunk "usage" .null).isNull then st.usage
      else normalizeProviderUsage "openai_compatible" (field chunk "usage" .null)) =
      reported (usageOf chunk) st.usage := by
    cases hnull : (field chunk "usage" .null).isNull with
    | true => simp [usageOf, reported, hnull]
    | false => simp [usageOf, reported, hnull]
  unfold addChunk enterChunk
  simp only [bind_eq_ok, event_eq_ok, husage]
  constructor
  · rintro ⟨_, ⟨limit, ⟨hevents, rfl⟩, choices, hiterate, hpair⟩, hfold⟩
    cases hpair
    have hchoices : choicesOf? chunk = some choices := iterateOr_eq_ok.mp hiterate
    have hchoicesOf : choicesOf chunk = choices := by simp [choicesOf, hchoices]
    obtain ⟨horderly, hbytes, rfl⟩ := (foldlM_addChoice (by exact hsize)).mp hfold
    rw [hchoicesOf]
    exact ⟨hevents, by simp [hchoices], horderly, hbytes, rfl⟩
  · rintro ⟨hevents, hsome, horderly, hbytes, rfl⟩
    obtain ⟨choices, hchoices⟩ := Option.isSome_iff_exists.mp hsome
    have hchoicesOf : choicesOf chunk = choices := by simp [choicesOf, hchoices]
    rw [hchoicesOf] at horderly hbytes ⊢
    exact ⟨_, ⟨_, ⟨hevents, rfl⟩, choices, iterateOr_eq_ok.mpr hchoices, rfl⟩,
      (foldlM_addChoice (by exact hsize)).mpr ⟨horderly, hbytes, rfl⟩⟩

theorem reasons_eq_none {finishReason : Option String} :
    ((choices.filterMap (reasonOf std)).getLast?).or finishReason = none ↔
      (∀ choice ∈ choices, reasonOf std choice = none) ∧ finishReason = none := by
  rw [Option.or_eq_none_iff, List.getLast?_eq_none_iff, List.filterMap_eq_nil_iff]

theorem orderly_append {finishReason : Option String} {more : List Json} :
    Orderly std finishReason (choices ++ more) ↔ Orderly std finishReason choices ∧
      Orderly std (((choices.filterMap (reasonOf std)).getLast?).or finishReason) more := by
  constructor
  · intro h
    refine ⟨⟨fun choice hc => h.suits choice (List.mem_append_left _ hc), fun hne =>
      h.open' (by simp [hne]), fun before choice after heq hne => ?_⟩,
      ⟨fun choice hc => h.suits choice (List.mem_append_right _ hc), fun hne => ?_, ?_⟩⟩
    · exact h.last before choice (after ++ more) (by simp [heq]) (by simp [hne])
    · refine reasons_eq_none.mpr ⟨fun choice hchoice => ?_, h.open' (by simp [hne])⟩
      obtain ⟨before, after, rfl⟩ := List.append_of_mem hchoice
      exact h.last before choice (after ++ more) (by simp) (by simp [hne])
    · intro before choice after heq hne
      exact h.last (choices ++ before) choice after (by simp [heq]) hne
  · rintro ⟨hfirst, hrest⟩
    refine ⟨fun choice hchoice => ?_, fun hne => ?_, fun before choice after heq hne => ?_⟩
    · exact (List.mem_append.mp hchoice).elim (hfirst.suits choice) (hrest.suits choice)
    · by_cases hchoices : choices = []
      · have hmore : more ≠ [] := by
          rintro rfl
          simp [hchoices] at hne
        exact (reasons_eq_none.mp (hrest.open' hmore)).2
      · exact hfirst.open' hchoices
    · rcases List.append_eq_append_iff.mp heq with ⟨front, rfl, hmore⟩ | ⟨back, hback, hafter⟩
      · exact hrest.last front choice after hmore hne
      · cases back with
        | nil =>
          rw [List.append_nil] at hback
          exact hrest.last [] choice after hafter.symm hne
        | cons other back =>
          obtain ⟨rfl, rfl⟩ := List.cons.inj hafter
          by_cases hmore : more = []
          · subst hmore
            exact hfirst.last before choice back hback (by simpa using hne)
          · exact (reasons_eq_none.mp (hrest.open' hmore)).1 choice
              (hback ▸ List.mem_append_right _ List.mem_cons_self)

/-- All that some chunks add. -/
def State.read (std : Standard) (st : State) (chunks : List Json) : State :=
  { (chunks.flatMap choicesOf).foldl (State.after std) st with
    limit := ⟨st.limit.size + ((chunks.flatMap choicesOf).map bytes).sum,
      st.limit.events + chunks.length⟩
    usage := chunks.foldl (fun usage chunk => reported (usageOf chunk) usage) st.usage }

theorem read_cons : ((choicesOf chunk).foldl (State.after std) { st with
      limit := ⟨st.limit.size, st.limit.events + 1⟩
      usage := reported (usageOf chunk) st.usage }).read std chunks =
    st.read std (chunk :: chunks) := by
  simp only [State.read, foldl_after, List.flatMap_cons, List.map_append, List.sum_append,
    List.foldl_append, List.foldl_cons, List.length_cons, List.append_assoc, Nat.add_assoc,
    Nat.add_comm 1 chunks.length]

theorem foldlM_addChunk (hevents : st.limit.events ≤ maxStreamEvents)
    (hsize : st.limit.size ≤ maxStreamBytes) : chunks.foldlM (addChunk std) st = .ok t ↔
      (∀ chunk ∈ chunks, (choicesOf? chunk).isSome) ∧
      Orderly std st.finishReason (chunks.flatMap choicesOf) ∧
      st.limit.events + chunks.length ≤ maxStreamEvents ∧
      st.limit.size + ((chunks.flatMap choicesOf).map bytes).sum ≤ maxStreamBytes ∧
      t = st.read std chunks := by
  induction chunks generalizing st with
  | nil =>
    constructor
    · intro h
      cases h
      refine ⟨fun chunk hchunk => absurd hchunk List.not_mem_nil,
        ⟨fun choice hchoice => absurd hchoice List.not_mem_nil, fun hne => absurd rfl hne,
          fun before choice after heq => ?_⟩, hevents, hsize, rfl⟩
      simp at heq
    · rintro ⟨-, -, -, -, rfl⟩
      rfl
  | cons chunk chunks ih =>
    rw [List.foldlM_cons, List.forall_mem_cons, List.flatMap_cons, orderly_append, List.map_append,
      List.sum_append, List.length_cons]
    constructor
    · intro h
      obtain ⟨mid, hmid, hrest⟩ := bind_eq_ok.mp h
      obtain ⟨hcount, hsome, horderly, hbytes, rfl⟩ := (addChunk_eq_ok hsize).mp hmid
      obtain ⟨hall, hmore, hlength, hsum, ht⟩ := (ih (by rw [limit_foldl_after]; exact hcount)
        (by rw [limit_foldl_after]; exact hbytes)).mp hrest
      rw [finishReason_foldl_after] at hmore
      rw [limit_foldl_after] at hlength hsum
      dsimp only at hlength hsum
      exact ⟨⟨hsome, hall⟩, ⟨horderly, hmore⟩, by omega, by omega, ht.trans read_cons⟩
    · rintro ⟨⟨hsome, hall⟩, ⟨horderly, hmore⟩, hlength, hsum, rfl⟩
      have hmid : addChunk std st chunk = .ok _ := (addChunk_eq_ok hsize).mpr
        ⟨by omega, hsome, horderly, by omega, rfl⟩
      refine bind_eq_ok.mpr ⟨_, hmid, (ih ?_ ?_).mpr ⟨hall, ?_, ?_, ?_, read_cons.symm⟩⟩
      · rw [limit_foldl_after]
        dsimp only
        omega
      · rw [limit_foldl_after]
        dsimp only
        omega
      · rw [finishReason_foldl_after]
        exact hmore
      · rw [limit_foldl_after]
        dsimp only
        omega
      · rw [limit_foldl_after]
        dsimp only
        omega

/-! ## The whole stream -/

/-- A completion that `complete` is given. -/
structure Completion where
  text : String
  reasoning : Option String
  /-- The calls by their indexes. -/
  calls : List (ℕ × CallParts)
  finishReason : String
  usage : Json

def CallParts.json (parts : CallParts) : Json := .obj [("id", .str parts.id),
  ("function", .obj [("name", .str parts.name), ("arguments", .str parts.arguments)])]

def Completion.json (c : Completion) : Json := .obj [
  ("choices", .arr [.obj [
    ("message", .obj [("content", .str c.text), ("reasoning_content", c.reasoning.elim .null .str),
      ("tool_calls", .arr (c.calls.map fun call => call.2.json))]),
    ("finish_reason", .str c.finishReason)]]),
  ("usage", c.usage)]

/-- The pieces of the call of an index. -/
def own (i : ℕ) (choices : List Json) : List Json :=
  (choices.flatMap callsOf).filter fun call => callIndex call = i

/-- The pieces of a call, put together. -/
def joined (calls : List Json) : CallParts where
  id := String.join (calls.map fun call => (pieceOf call).id)
  name := String.join (calls.map fun call => (pieceOf call).name)
  arguments := String.join (calls.map fun call => (pieceOf call).arguments)

/-- The chunks are the fragments of the completion, within the limits. -/
structure Sends (std : Standard) (chunks : List Json) (c : Completion) : Prop where
  listed : ∀ chunk ∈ chunks, (choicesOf? chunk).isSome
  suits : ∀ choice ∈ chunks.flatMap choicesOf, Suits choice
  ends : ∃ before last, chunks.flatMap choicesOf = before ++ [last] ∧
    (∀ choice ∈ before, reasonOf std choice = none) ∧ reasonOf std last = some c.finishReason
  text : c.text = String.join ((chunks.flatMap choicesOf).flatMap textsOf)
  reasoning : c.reasoning = if (chunks.flatMap choicesOf).flatMap thoughtsOf = [] then none
    else some (String.join ((chunks.flatMap choicesOf).flatMap thoughtsOf))
  sorted : c.calls.Pairwise fun a b => a.1 < b.1
  calls : ∀ i parts, (i, parts) ∈ c.calls ↔ own i (chunks.flatMap choicesOf) ≠ [] ∧
    parts = joined (own i (chunks.flatMap choicesOf))
  named : ∀ i parts, (i, parts) ∈ c.calls → parts.id ≠ "" ∧ parts.name ≠ ""
  usage : c.usage = ((chunks.filterMap usageOf).getLast?).getD .null
  count : chunks.length ≤ maxStreamEvents
  bytes : ((chunks.flatMap choicesOf).map bytes).sum ≤ maxStreamBytes

theorem foldl_add {parts : CallParts} : calls.foldl CallParts.add parts = {
    id := parts.id ++ (joined calls).id
    name := parts.name ++ (joined calls).name
    arguments := parts.arguments ++ (joined calls).arguments } := by
  induction calls generalizing parts with
  | nil => simp [joined]
  | cons call calls ih =>
    simp [ih, joined, CallParts.add, String.append_assoc]

/-- The calls that have been put together. -/
theorem get?_gathered {i : ℕ} : ((choices.flatMap callsOf).foldl gather .empty).get? i =
    if own i choices = [] then none else some (joined (own i choices)) := by
  have hgather : ((choices.flatMap callsOf).foldl gather .empty).get? i = _ :=
    Dict.get?_foldl_gather callIndex CallParts.add {} (choices.flatMap callsOf) .empty i
  rw [hgather, Dict.get?_empty, Option.getD_none, foldl_add]
  simp only [String.empty_append]
  rfl

/-- The last reported usage. -/
theorem foldl_reported {usage : Dict String ℕ} :
    chunks.foldl (fun usage chunk => reported (usageOf chunk) usage) usage =
      reported ((chunks.filterMap usageOf).getLast?) usage := by
  induction chunks generalizing usage with
  | nil => rfl
  | cons chunk chunks ih =>
    rw [List.foldl_cons, ih, List.filterMap_cons]
    cases usageOf chunk with
    | none => rfl
    | some value =>
      rw [List.getLast?_cons]
      cases (chunks.filterMap usageOf).getLast? <;> rfl

theorem orderly_none : Orderly std none choices ↔ (∀ choice ∈ choices, Suits choice) ∧
    ∀ before choice after, choices = before ++ choice :: after → after ≠ [] →
      reasonOf std choice = none :=
  ⟨fun h => ⟨h.suits, h.last⟩, fun h => ⟨h.1, fun _ => rfl, h.2⟩⟩

/-- Orderly choices that give a reason give it last. -/
theorem ends_iff {reason : String} : (Orderly std none choices ∧
    (choices.filterMap (reasonOf std)).getLast? = some reason) ↔
      (∀ choice ∈ choices, Suits choice) ∧ ∃ before last, choices = before ++ [last] ∧
        (∀ choice ∈ before, reasonOf std choice = none) ∧ reasonOf std last = some reason := by
  rw [orderly_none]
  constructor
  · rintro ⟨⟨hsuits, hlast⟩, hreason⟩
    refine ⟨hsuits, ?_⟩
    rcases List.eq_nil_or_concat choices with rfl | ⟨before, last, rfl⟩
    · cases hreason
    · rw [List.concat_eq_append] at hlast hreason ⊢
      have hbefore : ∀ choice ∈ before, reasonOf std choice = none := by
        intro choice hchoice
        obtain ⟨front, back, rfl⟩ := List.append_of_mem hchoice
        exact hlast front choice (back ++ [last]) (by simp) (by simp)
      refine ⟨before, last, rfl, hbefore, ?_⟩
      rw [List.filterMap_append, List.filterMap_eq_nil_iff.mpr hbefore, List.nil_append] at hreason
      cases hvalue : reasonOf std last with
      | none => simp [hvalue] at hreason
      | some value => simpa [hvalue] using hreason
  · rintro ⟨hsuits, before, last, rfl, hbefore, hlast⟩
    refine ⟨⟨hsuits, fun front choice back heq hne => ?_⟩, ?_⟩
    · obtain ⟨init, final, rfl⟩ := List.eq_nil_or_concat back |>.resolve_left hne
      rw [List.concat_eq_append, ← List.cons_append, ← List.append_assoc] at heq
      have hinit := (List.append_inj' heq rfl).1
      exact hbefore choice (hinit ▸ List.mem_append_right _ List.mem_cons_self)
    · rw [List.filterMap_append, List.filterMap_eq_nil_iff.mpr hbefore]
      simp [hlast]

/-! ## The response -/

theorem read_eq {ends : Option PyError} : read std ends chunks st = (t, none) ↔
    ends = none ∧ chunks.foldlM (addChunk std) st = .ok t := by
  induction chunks generalizing st with
  | nil =>
    rw [read, List.foldlM_nil, pure_eq_ok, Prod.mk.injEq, Except.ok.injEq]
    exact and_comm
  | cons chunk chunks ih =>
    rw [read, List.foldlM_cons, bind_eq_ok]
    cases addChunk std st chunk with
    | error e => simp
    | ok next => simp [ih]

/-- The call that its pieces make. -/
def CallParts.toCall (std : Standard) (parts : CallParts) : ToolCall :=
  ⟨parts.id, parts.name, parseArguments std parts.arguments⟩

/-- What the stream makes of a completion. -/
def Completion.response (std : Standard) (c : Completion) : ModelResponse where
  text := c.text
  toolCalls := c.calls.map fun call => call.2.toCall std
  stopReason := c.finishReason
  usage := countersOf (normalizeProviderUsage "openai_compatible" c.usage)
  providerItems := c.reasoning.elim [] fun reasoning =>
    [.obj [("reasoning_content", .str reasoning)]]
  stateProvider := "openai_compatible"

theorem textOr_empty (text : String) : textOr (.str text) "" = .ok text := by
  by_cases htext : text = ""
  · simp [textOr, htext]
  · simp [textOr, htext]

/-- An empty text of arguments is read as the empty dictionary. -/
theorem parseArguments_default (hloads : std.loads "{}" = some (.obj [])) (text : String) :
    parseArguments std (if text = "" then "{}" else text) = parseArguments std text := by
  by_cases htext : text = ""
  · simp [parseArguments, htext, hloads]
  · rw [if_neg htext]

theorem parseCall_json (hloads : std.loads "{}" = some (.obj [])) (parts : CallParts) :
    parseCall std parts.json = .ok (parts.toCall std) := by
  have harguments : textOr (.str parts.arguments) "{}" =
    .ok (if parts.arguments = "" then "{}" else parts.arguments) := rfl
  simp [parseCall, CallParts.json, getAttribute, textAttribute, List.lookup_cons, harguments,
    parseArguments_default hloads, CallParts.toCall, pure_eq_ok, ok_bind]

theorem iterateOr_arr (items : List Json) : iterateOr (.arr items) = .ok items := by
  cases items <;> rfl

/-- What `complete` makes of a completion: an empty reason is read as `stop`. -/
theorem parseCompletion_json (hloads : std.loads "{}" = some (.obj [])) (c : Completion) :
    parseCompletion std c.json = .ok { c.response std with
      stopReason := if c.finishReason = "" then "stop" else c.finishReason } := by
  have hcalls : (c.calls.map fun call => call.2.json).mapM (parseCall std) =
      .ok (c.calls.map fun call => call.2.toCall std) := by
    rw [mapM_eq_ok, List.forall₂_map_left_iff, List.forall₂_map_right_iff, List.forall₂_same]
    exact fun call _ => parseCall_json hloads call.2
  have hreason : textOr (.str c.finishReason) "stop" =
    .ok (if c.finishReason = "" then "stop" else c.finishReason) := rfl
  cases hreasoning : c.reasoning with
  | none =>
    simp [parseCompletion, Completion.json, getAttribute, List.lookup_cons, field, iterateOr_arr, hcalls,
      textOr_empty, hreason, hreasoning, Completion.response, pure_eq_ok, ok_bind]
  | some reasoning =>
    simp [parseCompletion, Completion.json, getAttribute, List.lookup_cons, field, iterateOr_arr, hcalls,
      textOr_empty, hreason, hreasoning, Completion.response, pure_eq_ok, ok_bind]

/-- What has been put together, with what it is closed by. -/
def State.completion (st : State) (finishReason : String) (usage : Json) : Completion where
  text := String.join st.textParts
  reasoning := if st.reasoning = [] then none else some (String.join st.reasoning)
  calls := st.calls.sorted
  finishReason := finishReason
  usage := usage

theorem finishCall_eq_ok {parts : CallParts} {out : ToolCall} : finishCall std parts = .ok out ↔
    (parts.id ≠ "" ∧ parts.name ≠ "") ∧ out = parts.toCall std := by
  unfold finishCall
  by_cases hparts : parts.id = "" ∨ parts.name = ""
  · simp only [if_pos hparts, reduceCtorEq, false_iff]
    rintro ⟨⟨hid, hname⟩, -⟩
    exact hparts.elim hid hname
  · rw [if_neg hparts, Except.ok.injEq]
    exact ⟨fun h => ⟨not_or.mp hparts, h.symm⟩, fun h => h.2.symm⟩

theorem mapM_finishCall {rows : List (ℕ × CallParts)} {out : List ToolCall} :
    (rows.map Prod.snd).mapM (finishCall std) = .ok out ↔
      (∀ row ∈ rows, row.2.id ≠ "" ∧ row.2.name ≠ "") ∧ out = rows.map fun row => row.2.toCall std := by
  induction rows generalizing out with
  | nil =>
    constructor
    · intro h
      cases h
      exact ⟨List.forall_mem_nil _, rfl⟩
    · rintro ⟨-, rfl⟩
      rfl
  | cons row rows ih =>
    simp only [List.map_cons, List.mapM_cons, bind_eq_ok, List.forall_mem_cons, finishCall_eq_ok, ih,
      pure_eq_ok, Except.ok.injEq]
    constructor
    · rintro ⟨first, ⟨hnamed, rfl⟩, rest, ⟨hall, rfl⟩, rfl⟩
      exact ⟨⟨hnamed, hall⟩, rfl⟩
    · rintro ⟨⟨hnamed, hall⟩, rfl⟩
      exact ⟨_, ⟨hnamed, rfl⟩, _, ⟨hall, rfl⟩, rfl⟩

theorem finish_eq_ok {usage : Json} {r : ModelResponse}
    (husage : st.usage = normalizeProviderUsage "openai_compatible" usage) :
    finish std st = .ok r ↔ ∃ reason, st.finishReason = some reason ∧
      (∀ row ∈ st.calls.sorted, row.2.id ≠ "" ∧ row.2.name ≠ "") ∧
      r = (st.completion reason usage).response std := by
  unfold finish
  cases hreason : st.finishReason with
  | none => simp
  | some reason =>
    dsimp only
    simp only [bind_eq_ok, mapM_finishCall, Option.some.injEq, exists_eq_left', pure_eq_ok,
      Except.ok.injEq]
    have hresponse : (st.completion reason usage).response std = {
        text := String.join st.textParts
        toolCalls := st.calls.sorted.map fun row => row.2.toCall std
        stopReason := reason
        usage := countersOf st.usage
        providerItems := if st.reasoning = [] then []
          else [.obj [("reasoning_content", .str (String.join st.reasoning))]]
        stateProvider := "openai_compatible" } := by
      by_cases hreasoning : st.reasoning = []
      · simp [Completion.response, State.completion, hreasoning, husage]
      · simp [Completion.response, State.completion, hreasoning, husage]
    rw [hresponse]
    constructor
    · rintro ⟨out, ⟨hnamed, rfl⟩, rfl⟩
      exact ⟨hnamed, rfl⟩
    · rintro ⟨hnamed, rfl⟩
      exact ⟨_, ⟨hnamed, rfl⟩, rfl⟩

theorem reported_empty (usage : Option Json) :
    reported usage .empty = normalizeProviderUsage "openai_compatible" (usage.getD .null) := by
  cases usage with
  | none => rfl
  | some value => rfl

theorem read_default : State.read std {} chunks = {
    limit := ⟨((chunks.flatMap choicesOf).map bytes).sum, chunks.length⟩
    textParts := (chunks.flatMap choicesOf).flatMap textsOf
    reasoning := (chunks.flatMap choicesOf).flatMap thoughtsOf
    calls := ((chunks.flatMap choicesOf).flatMap callsOf).foldl gather .empty
    finishReason := ((chunks.flatMap choicesOf).filterMap (reasonOf std)).getLast?
    usage := normalizeProviderUsage "openai_compatible"
      (((chunks.filterMap usageOf).getLast?).getD .null)
    sent := (chunks.flatMap choicesOf).flatMap textsOf } := by
  simp [State.read, foldl_after, foldl_reported, reported_empty]

/-- The chunks send what reading them puts together. -/
theorem sends_iff {c : Completion} : Sends std chunks c ↔
    chunks.foldlM (addChunk std) {} = .ok (State.read std {} chunks) ∧
      (State.read std {} chunks).finishReason = some c.finishReason ∧
      (∀ row ∈ (State.read std {} chunks).calls.sorted, row.2.id ≠ "" ∧ row.2.name ≠ "") ∧
      c = (State.read std {} chunks).completion c.finishReason
        (((chunks.filterMap usageOf).getLast?).getD .null) := by
  rw [foldlM_addChunk (Nat.zero_le _) (Nat.zero_le _), read_default]
  have hcalls {i : ℕ} {parts : CallParts} :
      (((chunks.flatMap choicesOf).flatMap callsOf).foldl gather .empty).get? i = some parts ↔
        own i (chunks.flatMap choicesOf) ≠ [] ∧
          parts = joined (own i (chunks.flatMap choicesOf)) := by
    rw [get?_gathered, Option.ite_none_left_eq_some, Option.some.injEq, eq_comm (a := parts)]
  constructor
  · intro h
    obtain ⟨horderly, hreason⟩ := ends_iff.mpr ⟨h.suits, h.ends⟩
    have hsorted : (((chunks.flatMap choicesOf).flatMap callsOf).foldl gather .empty).sorted =
        c.calls := Dict.sorted_eq h.sorted fun i parts => by rw [h.calls, hcalls]
    refine ⟨⟨h.listed, horderly, ?_, ?_, rfl⟩, hreason, fun row hrow => ?_, ?_⟩
    · simpa using h.count
    · simpa using h.bytes
    · exact h.named row.1 row.2 (hsorted ▸ hrow)
    · cases c
      simp only [State.completion, Completion.mk.injEq, true_and]
      exact ⟨h.text, h.reasoning, hsorted.symm, h.usage⟩
  · rintro ⟨⟨hlisted, horderly, hcount, hbytes, -⟩, hreason, hnamed, hc⟩
    obtain ⟨hsuits, hends⟩ := ends_iff.mp ⟨horderly, hreason⟩
    rw [hc]
    exact {
      listed := hlisted
      suits := hsuits
      ends := hends
      text := rfl
      reasoning := rfl
      sorted := Dict.pairwise_sorted _
      calls := fun i parts => Dict.mem_sorted.trans hcalls
      named := fun i parts hrow => hnamed (i, parts) hrow
      usage := rfl
      count := by simpa using hcount
      bytes := by simpa using hbytes }

/-- A call that comes in two pieces. -/
def twoPieces : List Json := [
  .obj [("choices", .arr [.obj [("delta", .obj [("content", .str "Hi"), ("tool_calls", .arr [
    .obj [("index", .int 0), ("id", .str "call"), ("function", .obj [("name", .str "read")])]])])]])],
  .obj [("choices", .arr [.obj [("delta", .obj [("tool_calls", .arr [
    .obj [("index", .int 0), ("id", .str "_1")]])]), ("finish_reason", .str "tool_calls")]])]]

/-- A standard library that reads the empty dictionary only. -/
def emptyStandard : Standard where
  pyStr _ := ""
  dumps _ := ""
  loads text := if text = "{}" then some (.obj []) else none
  dictItems _ := .ok []
  errorText _ := ""

end Chat

end Providers

end Eventide
