import Eventide.Model.ContextBuilder
import Eventide.Verification.Json.Text
import Mathlib.Tactic.Common

/-! # Rewritten messages

Folding replaces the content of tool results, eliding the arguments of plan updates. What both
leave of a message is its role and the identities of its blocks. -/

namespace Eventide.ContextBuilder

open Json

/-! ## What both rewritings are -/

/-- What a rewriting may not change in a block. -/
def blockOutline (block : Json) : Bool × Option Json × Option Json × Option Json × Option Json :=
  (block.isObj, block.get? "type", block.get? "id", block.get? "name", block.get? "tool_use_id")

/-- What a rewriting may not change in a message: its role, and its blocks but for content. -/
def outline (message : Json) : Option Json ×
    Option (List (Bool × Option Json × Option Json × Option Json × Option Json)) :=
  (message.get? "role",
    ((message.get? "content").bind Json.arr?).map fun blocks => blocks.map blockOutline)

/-- The message with some of its blocks rewritten. -/
inductive Rewritten (change : Json → Json → Prop) (message : Json) : Json → Prop
  | same : Rewritten change message message
  | blocks {blocks blocks' : List Json} (hcontent : message.get? "content" = some (.arr blocks))
      (hblocks : List.Forall₂ (fun b b' => b' = b ∨ change b b') blocks blocks') :
      Rewritten change message (message.withField "content" (.arr blocks'))

variable {change : Json → Json → Prop} {text : Rendering}

theorem outline_rewritten (hchange : ∀ b b', change b b' → blockOutline b' = blockOutline b)
    {message message' : Json} (h : Rewritten change message message') :
    outline message' = outline message := by
  cases h with
  | same => rfl
  | @blocks blocks blocks' hcontent hblocks =>
    have hmap : blocks'.map blockOutline = blocks.map blockOutline := by
      clear hcontent
      induction hblocks with
      | nil => rfl
      | cons hb _ ih =>
        rw [List.map_cons, List.map_cons, ih]
        rcases hb with rfl | hb
        · rfl
        · rw [hchange _ _ hb]
    simp [outline, get?_withField, hcontent, hmap, arr?]

theorem size_rewritten {floatText : ℚ → List Char}
    (hchange : ∀ b b', change b b' → size floatText b' ≤ size floatText b)
    {message message' : Json} (h : Rewritten change message message') :
    size floatText message' ≤ size floatText message := by
  cases h with
  | same => exact le_refl _
  | @blocks blocks blocks' hcontent hblocks =>
    refine size_withField_le hcontent (size_arr_le ?_)
    refine hblocks.flip.imp fun b' b hb => ?_
    rcases hb with rfl | hb
    · exact le_refl _
    · exact hchange b b' hb

theorem map_outline_rewritten (hchange : ∀ b b', change b b' → blockOutline b' = blockOutline b)
    {messages messages' : List Json} (h : List.Forall₂ (Rewritten change) messages messages') :
    messages'.map outline = messages.map outline := by
  induction h with
  | nil => rfl
  | cons hm _ ih => rw [List.map_cons, List.map_cons, outline_rewritten hchange hm, ih]

/-- A request does not grow where its blocks do not. -/
theorem requestSize_rewritten {messages messages' tools : List Json} {system : String}
    (hchange : ∀ b b', change b b' → size text.floatText b' ≤ size text.floatText b)
    (h : List.Forall₂ (Rewritten change) messages messages') :
    requestSize text system messages' tools ≤ requestSize text system messages tools := by
  have hmessages : size text.floatText (.arr messages') ≤ size text.floatText (.arr messages) :=
    size_arr_le (h.flip.imp fun _ _ hm => size_rewritten hchange hm)
  have hreplace : requestSize text system messages' tools = size text.floatText
      ((Json.obj [("system", .str system), ("messages", .arr messages),
        ("tools", .arr tools)]).withField "messages" (.arr messages')) := rfl
  rw [hreplace]
  exact size_withField_le rfl hmessages

/-! ## Plan updates -/

/-- A plan update, one of some, whose arguments lose the plan. -/
def Elided (updates : List Json) (b b' : Json) : Prop :=
  ∃ arguments ∈ updates, planArguments b = some arguments ∧ b' = b.withField "input" emptyPlan

theorem planArguments_eq_some {block arguments : Json} (h : planArguments block = some arguments) :
    block.get? "input" = some arguments ∧ (arguments.get? "todos").any truthy = true := by
  unfold planArguments at h
  split at h
  · obtain ⟨hinput, hall⟩ := Option.filter_eq_some_iff.mp h
    exact ⟨hinput, (Bool.and_eq_true_iff.mp hall).2⟩
  · cases h

theorem isObj_of_get? {value item : Json} {key : String} (h : value.get? key = some item) :
    value.isObj = true := by
  cases value with
  | obj fields => rfl
  | null | bool | int | float | str | arr => cases h

/-- A field outside the outline may change. -/
theorem blockOutline_withField {block item : Json} {key : String} (hobj : block.isObj = true)
    (hkey : key ∉ ["type", "id", "name", "tool_use_id"]) :
    blockOutline (block.withField key item) = blockOutline block := by
  simp only [List.mem_cons, List.not_mem_nil, or_false, not_or] at hkey
  obtain ⟨htype, hid, hname, huse⟩ := hkey
  simp only [blockOutline, get?_withField, if_neg (Ne.symm htype), if_neg (Ne.symm hid),
    if_neg (Ne.symm hname), if_neg (Ne.symm huse), hobj]
  rfl

theorem blockOutline_elided {updates : List Json} {b b' : Json} (h : Elided updates b b') :
    blockOutline b' = blockOutline b := by
  obtain ⟨arguments, -, harguments, rfl⟩ := h
  exact blockOutline_withField (isObj_of_get? (planArguments_eq_some harguments).1) (by decide)

theorem content_of_assistantBlocks {message : Json} {blocks : List Json}
    (h : assistantBlocks message = some blocks) : message.get? "content" = some (.arr blocks) := by
  unfold assistantBlocks at h
  split at h
  case isFalse => cases h
  case isTrue =>
    obtain ⟨content, hcontent, harr⟩ := Option.bind_eq_some_iff.mp h
    cases content with
    | arr items =>
      obtain rfl : items = blocks := Option.some.inj harr
      exact hcontent
    | null | bool | int | float | str | obj => cases harr

theorem rewritten_elideMessage {updates : List Json} {message : Json}
    (h : ∀ arguments ∈ planUpdates [message], arguments ∈ updates) :
    Rewritten (Elided updates) message (elideMessage message) := by
  unfold elideMessage
  split
  case h_2 => exact .same
  case h_1 blocks hblocks =>
    split
    case isFalse => exact .same
    case isTrue =>
      refine .blocks (content_of_assistantBlocks hblocks) ?_
      rw [List.forall₂_map_right_iff]
      refine List.forall₂_same.mpr fun block hblock => ?_
      unfold elideBlock
      split
      · rename_i hsome
        obtain ⟨arguments, harguments⟩ := Option.isSome_iff_exists.mp hsome
        refine .inr ⟨arguments, h arguments ?_, harguments, rfl⟩
        simp only [planUpdates, List.flatMap_cons, List.flatMap_nil, List.append_nil, hblocks,
          Option.getD_some]
        exact List.mem_filterMap.mpr ⟨block, hblock, harguments⟩
      · exact .inl rfl

theorem rewritten_elide (messages : List Json) :
    List.Forall₂ (Rewritten (Elided (planUpdates messages))) messages
      (elideTaskPlanUpdates text messages).1 := by
  change List.Forall₂ _ messages (messages.map elideMessage)
  rw [List.forall₂_map_right_iff]
  refine List.forall₂_same.mpr fun message hmessage => rewritten_elideMessage fun arguments h => ?_
  simp only [planUpdates, List.flatMap_cons, List.flatMap_nil, List.append_nil] at h
  exact List.mem_flatMap.mpr ⟨message, hmessage, h⟩

/-- Every plan in the messages is a list. -/
def ListPlans (messages : List Json) : Prop :=
  ∀ arguments ∈ planUpdates messages, ∃ todos, arguments.get? "todos" = some (.arr todos)

theorem size_emptyPlan_le {arguments : Json} {todos : List Json}
    (h : arguments.get? "todos" = some (.arr todos)) :
    size text.floatText emptyPlan ≤ size text.floatText arguments := by
  have hfield := @le_size_of_get? text.floatText _ _ _ h
  have hlist : 2 ≤ size text.floatText (.arr todos) := by
    have hopen : "[".toList.length = 1 := rfl
    have hclose : "]".toList.length = 1 := rfl
    simp only [size, dumps, List.length_append, hopen, hclose]
    omega
  have hkey : (dumpsStr "todos").length = 7 := by decide +kernel
  have hempty : size text.floatText emptyPlan = 13 := by
    simp [size, emptyPlan, dumps, dumpsFields, dumpsItems, separator, hkey]
  omega

theorem size_elided {messages : List Json} (hplans : ListPlans messages) (b b' : Json)
    (h : Elided (planUpdates messages) b b') :
    size text.floatText b' ≤ size text.floatText b := by
  obtain ⟨arguments, hin, harguments, rfl⟩ := h
  obtain ⟨todos, htodos⟩ := hplans arguments hin
  exact size_withField_le (planArguments_eq_some harguments).1 (size_emptyPlan_le htodos)

/-! ## Folded results -/

/-- A tool result whose content gave way to its placeholder. -/
def Shortened (text : Rendering) (names : Dict String String) (b b' : Json) : Prop :=
  ∃ placeholder, placeholder? text names b = some placeholder ∧
    b' = b.withField "content" (.str placeholder)

variable {names : Dict String String} {messages working : List Json} {slot : Slot}
  {placeholder : String}

theorem placeholder?_eq_some {block : Json} (h : placeholder? text names block = some placeholder) :
    ∃ content, block.get? "content" = some (.str content) ∧ placeholder.length < content.length ∧
      placeholder = foldedPlaceholder ((names.get? (callIdOf text block)).getD "tool")
        content.length := by
  unfold placeholder? at h
  split at h
  case isFalse => cases h
  case isTrue =>
    split at h
    case h_2 => cases h
    case h_1 content hcontent =>
      dsimp only at h
      split at h
      · cases h
      · rename_i hlength
        obtain rfl := Option.some.inj h
        exact ⟨content, hcontent, Nat.lt_of_not_le hlength, rfl⟩

theorem blockOutline_shortened {b b' : Json} (h : Shortened text names b b') :
    blockOutline b' = blockOutline b := by
  obtain ⟨placeholder, hplaceholder, rfl⟩ := h
  obtain ⟨content, hcontent, -⟩ := placeholder?_eq_some hplaceholder
  exact blockOutline_withField (isObj_of_get? hcontent) (by decide)

/-- No name needs an escape. -/
def PlainNames (names : Dict String String) : Prop :=
  ∀ name ∈ names.values, ∀ c ∈ name.toList, plain c

theorem plain_placeholder (hnames : PlainNames names) (callId : String) (omitted : ℕ) :
    ∀ c ∈ (foldedPlaceholder ((names.get? callId).getD "tool") omitted).toList, plain c := by
  have hname : ∀ c ∈ ((names.get? callId).getD "tool").toList, plain c := by
    cases hget : names.get? callId with
    | none =>
      exact plain_of_all (by decide +kernel)
    | some name => exact hnames name (Dict.mem_values.mpr ⟨callId, hget⟩)
  have hopen : ∀ c ∈ "[".toList, plain c := plain_of_all (by decide +kernel)
  have hmiddle : ∀ c ∈ " output folded to fit the context budget: ".toList, plain c :=
    plain_of_all (by decide +kernel)
  have hclose : ∀ c ∈ " characters omitted]".toList, plain c := plain_of_all (by decide +kernel)
  intro c hc
  simp only [foldedPlaceholder, String.toList_append, List.mem_append] at hc
  rcases hc with (((hc | hc) | hc) | hc) | hc
  · exact hopen c hc
  · exact hname c hc
  · exact hmiddle c hc
  · exact plain_of_mem_toString hc
  · exact hclose c hc

theorem size_shortened (hnames : PlainNames names) (b b' : Json) (h : Shortened text names b b') :
    size text.floatText b' ≤ size text.floatText b := by
  obtain ⟨placeholder, hplaceholder, rfl⟩ := h
  obtain ⟨content, hcontent, hlength, rfl⟩ := placeholder?_eq_some hplaceholder
  refine size_withField_le hcontent ?_
  have hshort := length_dumpsStr_of_plain (plain_placeholder hnames (callIdOf text b) content.length)
  have hlong := length_dumpsStr_le content
  simp only [size, dumps]
  omega

/-! ## One fold -/

theorem mem_slots (h : slot ∈ slots messages) : slot.index ∈ olderGroups messages ∧
    ∃ message, messages[slot.index]? = some message ∧
      (contentBlocks message)[slot.position]? = some slot.block := by
  obtain ⟨index, hindex, h⟩ := List.mem_flatMap.mp h
  obtain ⟨⟨block, position⟩, hblock, rfl⟩ := List.mem_map.mp h
  refine ⟨hindex, ?_⟩
  have hget := List.mem_zipIdx_iff_getElem?.mp hblock
  cases hmessage : messages[index]? with
  | none =>
    rw [hmessage] at hget
    cases hget
  | some message =>
    rw [hmessage] at hget
    exact ⟨message, rfl, hget⟩

theorem content_of_contentBlocks {message block : Json} {position : ℕ}
    (h : (contentBlocks message)[position]? = some block) :
    message.get? "content" = some (.arr (contentBlocks message)) := by
  unfold contentBlocks at h ⊢
  cases hcontent : message.get? "content" with
  | none =>
    rw [hcontent] at h
    cases h
  | some content =>
    rw [hcontent] at h
    cases content with
    | arr items => rfl
    | null | bool | int | float | str | obj => cases h

@[simp] theorem contentBlocks_withField (message : Json) (blocks : List Json) :
    contentBlocks (message.withField "content" (.arr blocks)) = blocks := by
  simp [contentBlocks, get?_withField, arr?]

theorem forall₂_set {α β : Type} {R : α → β → Prop} {xs : List α} {ys : List β} {i : ℕ} {x : α}
    {y : β} (h : List.Forall₂ R xs ys) (hx : xs[i]? = some x) (hxy : R x y) :
    List.Forall₂ R xs (ys.set i y) := by
  induction h generalizing i with
  | nil => exact .nil
  | cons hab hrest ih =>
    cases i with
    | zero =>
      obtain rfl := Option.some.inj hx
      exact .cons hxy hrest
    | succ i => exact .cons hab (ih hx)

theorem forall₂_modify {α β : Type} {R : α → β → Prop} {xs : List α} {ys : List β} {i : ℕ} {x : α}
    {f : β → β} (h : List.Forall₂ R xs ys) (hx : xs[i]? = some x) (hf : ∀ y, R x y → R x (f y)) :
    List.Forall₂ R xs (ys.modify i f) := by
  induction h generalizing i with
  | nil => simp
  | cons hab hrest ih =>
    cases i with
    | zero =>
      obtain rfl := Option.some.inj hx
      exact .cons (hf _ hab) hrest
    | succ i => exact .cons hab (ih hx)

theorem rewritten_setBlock {message message' block block' : Json} {position : ℕ}
    (h : Rewritten change message message')
    (hblock : (contentBlocks message)[position]? = some block) (hchange : change block block') :
    Rewritten change message (setBlock position block' message') := by
  have hcontent := content_of_contentBlocks hblock
  cases h with
  | same =>
    have hsame : List.Forall₂ (fun b b' => b' = b ∨ change b b') (contentBlocks message)
        (contentBlocks message) := List.forall₂_same.mpr fun _ _ => .inl rfl
    exact .blocks hcontent (forall₂_set hsame hblock (.inr hchange))
  | @blocks blocks blocks' hcontent' hblocks =>
    obtain rfl : contentBlocks message = blocks := by
      rw [hcontent'] at hcontent
      exact (arr.inj (Option.some.inj hcontent)).symm
    rw [setBlock, contentBlocks_withField, withField_withField]
    exact .blocks hcontent (forall₂_set hblocks hblock (.inr hchange))

theorem rewritten_putBlock (hslot : slot ∈ slots messages)
    (hplaceholder : placeholder? text names slot.block = some placeholder)
    (h : List.Forall₂ (Rewritten (Shortened text names)) messages working) :
    List.Forall₂ (Rewritten (Shortened text names)) messages
      (putBlock working slot placeholder) := by
  obtain ⟨-, message, hmessage, hblock⟩ := mem_slots hslot
  exact forall₂_modify h hmessage fun message' hm =>
    rewritten_setBlock hm hblock ⟨placeholder, hplaceholder, rfl⟩

/-! ## The loop -/

/-- The results that can be folded, oldest first, each with its placeholder. -/
def foldable (text : Rendering) (names : Dict String String) (slots : List Slot) :
    List (Slot × String) :=
  slots.filterMap fun slot => (placeholder? text names slot.block).map fun p => (slot, p)

def applyFolds (working : List Json) (folds : List (Slot × String)) : List Json :=
  folds.foldl (fun working fold => putBlock working fold.1 fold.2) working

variable {size : List Json → ℕ} {budget : ℕ}

/-- The loop folds the first of the foldable results, up to where the request fits. -/
theorem foldSlots_spec (folded : Folded) (slots : List Slot) :
    ∃ n ≤ (foldable text names slots).length,
      (foldSlots text size budget names folded slots).working =
        applyFolds folded.working ((foldable text names slots).take n) ∧
      (∀ k, 0 < k → k < n →
        budget < size (applyFolds folded.working ((foldable text names slots).take k))) ∧
      (n < (foldable text names slots).length → 0 < n ∧
        size (foldSlots text size budget names folded slots).working ≤ budget) := by
  induction slots generalizing folded with
  | nil => exact ⟨0, le_refl _, rfl, by omega, fun h => absurd h (by simp [foldable])⟩
  | cons slot slots ih =>
    cases hplaceholder : placeholder? text names slot.block with
    | none =>
      have hfold : foldSlot text names folded slot = none := by simp [foldSlot, hplaceholder]
      have hrest : foldable text names (slot :: slots) = foldable text names slots := by
        simp [foldable, hplaceholder]
      rw [foldSlots, hfold, hrest]
      exact ih folded
    | some placeholder =>
      obtain ⟨next, hnext, hworking⟩ : ∃ next, foldSlot text names folded slot = some next ∧
          next.working = putBlock folded.working slot placeholder := by
        simp [foldSlot, hplaceholder]
      have hrest : foldable text names (slot :: slots) =
          (slot, placeholder) :: foldable text names slots := by
        simp [foldable, hplaceholder]
      have happly (folds : List (Slot × String)) :
          applyFolds folded.working ((slot, placeholder) :: folds) =
            applyFolds next.working folds := by
        rw [hworking]
        rfl
      rw [foldSlots, hnext, hrest]
      dsimp only
      split
      case isTrue hfits =>
        refine ⟨1, by simp, ?_, by omega, fun _ => ⟨Nat.one_pos, hfits⟩⟩
        exact hworking
      case isFalse hover =>
        obtain ⟨n, hn, hresult, hearlier, hstopped⟩ := ih next
        refine ⟨n + 1, by simpa using hn, ?_, ?_, fun h => ⟨Nat.succ_pos n, ?_⟩⟩
        · rw [List.take_succ_cons, happly]
          exact hresult
        · intro k hk hkn
          obtain ⟨j, rfl⟩ := Nat.exists_eq_succ_of_ne_zero (Nat.pos_iff_ne_zero.mp hk)
          rw [Nat.succ_eq_add_one, List.take_succ_cons, happly]
          rcases Nat.eq_zero_or_pos j with rfl | hj
          · exact Nat.lt_of_not_le hover
          · exact hearlier j hj (by omega)
        · exact (hstopped (by simpa using h)).2

theorem mem_foldable {slots : List Slot} {fold : Slot × String}
    (h : fold ∈ foldable text names slots) :
    fold.1 ∈ slots ∧ placeholder? text names fold.1.block = some fold.2 := by
  obtain ⟨slot, hslot, h⟩ := List.mem_filterMap.mp h
  obtain ⟨placeholder, hplaceholder, rfl⟩ := Option.map_eq_some_iff.mp h
  exact ⟨hslot, hplaceholder⟩

/-- However many results are folded, only blocks are rewritten, and only in older groups. -/
theorem applyFolds_spec {folds : List (Slot × String)}
    (hfolds : ∀ fold ∈ folds, fold ∈ foldable text names (slots messages))
    (h : List.Forall₂ (Rewritten (Shortened text names)) messages working) :
    List.Forall₂ (Rewritten (Shortened text names)) messages (applyFolds working folds) ∧
      ∀ i ∉ olderGroups messages, (applyFolds working folds)[i]? = working[i]? := by
  induction folds generalizing working with
  | nil => exact ⟨h, fun _ _ => rfl⟩
  | cons fold folds ih =>
    obtain ⟨hfold, hfolds⟩ := List.forall_mem_cons.mp hfolds
    obtain ⟨hslot, hplaceholder⟩ := mem_foldable hfold
    obtain ⟨hrewritten, hkept⟩ := ih hfolds (rewritten_putBlock hslot hplaceholder h)
    refine ⟨hrewritten, fun i hi => (hkept i hi).trans ?_⟩
    have hne : fold.1.index ≠ i := fun heq => hi (heq ▸ (mem_slots hslot).1)
    exact List.getElem?_modify_ne _ _ hne

/-! ## What is folded stays folded -/

def blockAt (working : List Json) (slot : Slot) : Option Json :=
  (working[slot.index]?).bind fun message => (contentBlocks message)[slot.position]?

theorem blockAt_putBlock_self {present : Json} (h : blockAt working slot = some present)
    (placeholder : String) : blockAt (putBlock working slot placeholder) slot =
      some (slot.block.withField "content" (.str placeholder)) := by
  obtain ⟨message, hmessage, hblock⟩ := Option.bind_eq_some_iff.mp h
  have hlt : slot.position < (contentBlocks message).length :=
    (List.getElem?_eq_some_iff.mp hblock).1
  simp [blockAt, putBlock, hmessage, setBlock, List.getElem?_set_self hlt]

theorem blockAt_putBlock_ne {other : Slot} (placeholder : String)
    (h : ¬ (other.index = slot.index ∧ other.position = slot.position)) :
    blockAt (putBlock working slot placeholder) other = blockAt working other := by
  unfold blockAt putBlock
  rw [List.getElem?_modify]
  by_cases hindex : slot.index = other.index
  · have hposition : slot.position ≠ other.position := fun heq => h ⟨hindex.symm, heq.symm⟩
    cases working[other.index]? with
    | none => simp
    | some message => simp [hindex, setBlock, List.getElem?_set_ne hposition]
  · simp [hindex]

theorem isSome_blockAt_putBlock {other : Slot} (placeholder : String)
    (h : (blockAt working other).isSome) :
    (blockAt (putBlock working slot placeholder) other).isSome := by
  by_cases hplace : other.index = slot.index ∧ other.position = slot.position
  · have hsame : blockAt working other = blockAt working slot := by
      simp only [blockAt, hplace.1, hplace.2]
    obtain ⟨present, hpresent⟩ := Option.isSome_iff_exists.mp (hsame ▸ h)
    have hself := blockAt_putBlock_self hpresent placeholder
    have hother : blockAt (putBlock working slot placeholder) other =
        blockAt (putBlock working slot placeholder) slot := by
      simp only [blockAt, hplace.1, hplace.2]
    rw [hother, hself]
    rfl
  · rw [blockAt_putBlock_ne placeholder hplace]
    exact h

/-- Two slots at one place hold one block. -/
theorem block_eq_of_place {other : Slot} (h : slot ∈ slots messages) (h' : other ∈ slots messages)
    (hindex : other.index = slot.index) (hposition : other.position = slot.position) :
    other.block = slot.block := by
  obtain ⟨-, message, hmessage, hblock⟩ := mem_slots h
  obtain ⟨-, message', hmessage', hblock'⟩ := mem_slots h'
  rw [hindex, hmessage] at hmessage'
  obtain rfl := Option.some.inj hmessage'
  rw [hposition, hblock] at hblock'
  exact (Option.some.inj hblock').symm

/-- The block that a fold leaves. -/
def foldedBlock (fold : Slot × String) : Json := fold.1.block.withField "content" (.str fold.2)

theorem blockAt_putBlock_folded {fold other : Slot × String}
    (hfold : fold ∈ foldable text names (slots messages))
    (hother : other ∈ foldable text names (slots messages))
    (h : blockAt working other.1 = some (foldedBlock other)) :
    blockAt (putBlock working fold.1 fold.2) other.1 = some (foldedBlock other) := by
  by_cases hplace : other.1.index = fold.1.index ∧ other.1.position = fold.1.position
  · obtain ⟨hslot, hplaceholder⟩ := mem_foldable hfold
    obtain ⟨hslot', hplaceholder'⟩ := mem_foldable hother
    have hblock := block_eq_of_place hslot hslot' hplace.1 hplace.2
    rw [hblock, hplaceholder] at hplaceholder'
    have hsame : other.1 = fold.1 := by
      cases hslots : other.1
      cases hslots' : fold.1
      simp_all
    have hpair : other = fold := Prod.ext hsame (Option.some.inj hplaceholder').symm
    subst hpair
    exact blockAt_putBlock_self h _
  · rw [blockAt_putBlock_ne _ hplace]
    exact h

theorem blockAt_applyFolds_folded {folds : List (Slot × String)} {other : Slot × String}
    (hfolds : ∀ fold ∈ folds, fold ∈ foldable text names (slots messages))
    (hother : other ∈ foldable text names (slots messages))
    (h : blockAt working other.1 = some (foldedBlock other)) :
    blockAt (applyFolds working folds) other.1 = some (foldedBlock other) := by
  induction folds generalizing working with
  | nil => exact h
  | cons fold folds ih =>
    obtain ⟨hfold, hfolds⟩ := List.forall_mem_cons.mp hfolds
    exact ih hfolds (blockAt_putBlock_folded hfold hother h)

theorem blockAt_applyFolds {folds : List (Slot × String)} {other : Slot × String}
    (hfolds : ∀ fold ∈ folds, fold ∈ foldable text names (slots messages))
    (hother : other ∈ folds) (h : (blockAt working other.1).isSome) :
    blockAt (applyFolds working folds) other.1 = some (foldedBlock other) := by
  induction folds generalizing working with
  | nil => cases hother
  | cons fold folds ih =>
    obtain ⟨hfold, hrest⟩ := List.forall_mem_cons.mp hfolds
    rcases List.mem_cons.mp hother with rfl | hin
    · obtain ⟨present, hpresent⟩ := Option.isSome_iff_exists.mp h
      change blockAt (applyFolds (putBlock working other.1 other.2) folds) other.1 = _
      exact blockAt_applyFolds_folded hrest hfold (blockAt_putBlock_self hpresent other.2)
    · exact ih hrest hin (isSome_blockAt_putBlock _ h)

theorem isSome_blockAt (h : slot ∈ slots messages) : (blockAt messages slot).isSome := by
  obtain ⟨-, message, hmessage, hblock⟩ := mem_slots h
  simp [blockAt, hmessage, hblock]

/-! ## The checkpoint -/

theorem saved_finishBuild {b : BuildInput} {draft : Draft} {pending : Pending}
    (h : (finishBuild b draft).saved = some pending) :
    ∃ built, (finishBuild b draft).outcome = .ok built ∧ b.size built.messages ≤ b.budget := by
  unfold finishBuild at h ⊢
  dsimp only at h ⊢
  split at h
  case isFalse => cases h
  case isTrue hfits =>
    rw [if_pos hfits]
    exact ⟨_, rfl, hfits⟩

/-- A checkpoint is saved only by a build that returns messages within the budget. -/
theorem saved_build {b : BuildInput} {s : SummaryInput} {pending : Pending}
    (h : (build b s).saved = some pending) :
    ∃ built, (build b s).outcome = .ok built ∧ b.size built.messages ≤ b.budget := by
  unfold build at h ⊢
  split
  case h_1 e he => rw [he] at h; cases h
  case h_2 messages trimmed hm =>
    rw [hm] at h
    dsimp only at h ⊢
    split
    case isTrue hfits => rw [if_pos hfits] at h; cases h
    case isFalse hover =>
      rw [if_neg hover] at h
      split
      · rename_i claimed e hsummary
        rw [hsummary] at h
        cases h
      · rename_i claimed draft hsummary
        rw [hsummary] at h
        exact saved_finishBuild h

/-- The newest groups of tool results. -/
def newestGroups (messages : List Json) : List ℕ :=
  (groups messages).drop ((groups messages).length - keepRecentToolResults)

theorem not_mem_olderGroups {i : ℕ} (h : i ∈ newestGroups messages) : i ∉ olderGroups messages := by
  have hnodup : (groups messages).Nodup := List.nodup_range.filter _
  rw [← List.take_append_drop ((groups messages).length - keepRecentToolResults)
    (groups messages)] at hnodup
  intro hold
  exact (List.nodup_append.mp hnodup).2.2 i hold i h rfl

def plainRendering : Rendering where
  floatText := fun _ => "0.5".toList
  pyStr := fun _ => "None"
  errorText := fun _ => "ValueError"

/-- Four groups of one long result each, of which the first can be folded. -/
def longResults : List Json :=
  ["a", "b", "c", "d"].map fun callId => .obj [("role", .str "user"), ("content", .arr [
    .obj [("type", .str "tool_result"), ("tool_use_id", .str callId),
      ("content", .str (String.ofList (List.replicate 90 'x')))]])]

end Eventide.ContextBuilder
