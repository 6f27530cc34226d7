import Eventide.Model.InputComposition
import Eventide.Verification.Usage.Rows

/-! # The composition of a request adds up

The text of a request is cut into segments, each of one component. The values that are measured
are the segments outside the envelope, so the envelope is what is left of the text. -/

namespace Eventide

namespace InputComposition

open Json

/-- A part of the text of a request. -/
abbrev Segment := Component × List Char

def textOf (segments : List Segment) : List Char := segments.flatMap Prod.snd

def lengthOf (segments : List Segment) (component : Component) : ℕ :=
  ((segments.filter (·.1 = component)).map fun segment => segment.2.length).sum

/-- The segments outside the envelope. -/
def values (segments : List Segment) : List Segment := segments.filter (·.1 ≠ .envelope)

@[simp] theorem textOf_nil : textOf [] = [] := rfl

@[simp] theorem textOf_cons (segment : Segment) (segments : List Segment) :
    textOf (segment :: segments) = segment.2 ++ textOf segments :=
  List.flatMap_cons

@[simp] theorem textOf_append (first second : List Segment) :
    textOf (first ++ second) = textOf first ++ textOf second :=
  List.flatMap_append

@[simp] theorem values_nil : values [] = [] := rfl

@[simp] theorem values_append (first second : List Segment) :
    values (first ++ second) = values first ++ values second :=
  List.filter_append ..

@[simp] theorem values_envelope (text : List Char) (segments : List Segment) :
    values ((.envelope, text) :: segments) = values segments :=
  List.filter_cons_of_neg (by simp)

theorem values_cons {segment : Segment} (h : segment.1 ≠ .envelope) (segments : List Segment) :
    values (segment :: segments) = segment :: values segments :=
  List.filter_cons_of_pos (by simpa using h)

/-- Each segment has one component. -/
theorem sum_lengthOf (segments : List Segment) :
    (Component.all.map (lengthOf segments)).sum = (textOf segments).length := by
  induction segments with
  | nil => rfl
  | cons segment segments ih =>
    obtain ⟨component, text⟩ := segment
    rw [textOf_cons, List.length_append, ← ih]
    cases component <;>
      simp [Component.all, lengthOf] <;> omega

theorem lengthOf_values {segments : List Segment} {component : Component}
    (h : component ≠ .envelope) : lengthOf (values segments) component =
      lengthOf segments component := by
  have hfilter : (values segments).filter (·.1 = component) =
      segments.filter (·.1 = component) := by
    rw [values, List.filter_filter]
    apply List.filter_congr
    intro segment _
    by_cases hsame : segment.1 = component <;> simp [hsame, h]
  rw [lengthOf, hfilter, lengthOf]

theorem lengthOf_perm {first second : List Segment} (h : first.Perm second)
    (component : Component) : lengthOf first component = lengthOf second component :=
  ((h.filter _).map _).sum_eq

/-! ## The segments -/

variable (floatText : ℚ → List Char)

def blockSegments (component : Json → Component) (first : Bool) : List Json → List Segment
  | [] => []
  | block :: blocks =>
    (.envelope, separator first) :: (component block, dumps floatText block) ::
      blockSegments component false blocks

def valueSegments (component : Json → Component) (key : String) (value : Json) : List Segment :=
  if key = "role" then [(.envelope, dumps floatText value)]
  else if key = "content" then
    match value with
    | .arr blocks => (.envelope, "[".toList) ::
        (blockSegments floatText component true blocks ++ [(.envelope, "]".toList)])
    | value => [(.history, dumps floatText value)]
  else [(.history, dumps floatText value)]

def fieldSegments (component : Json → Component) (first : Bool) :
    List (String × Json) → List Segment
  | [] => []
  | (key, value) :: fields =>
    (.envelope, separator first ++ dumpsStr key ++ ": ".toList) ::
      (valueSegments floatText component key value ++ fieldSegments component false fields)

def messageSegments (component : Json → Component) : Json → List Segment
  | .obj fields => (.envelope, "\x7b".toList) ::
      (fieldSegments floatText component true (Json.obj fields).items ++
        [(.envelope, "\x7d".toList)])
  | message => [(.envelope, dumps floatText message)]

def messagesSegments (calls : Calls) (first : Bool) : List (Json × ℕ) → List Segment
  | [] => []
  | (message, index) :: messages =>
    (.envelope, separator first) ::
      (messageSegments floatText (componentOf calls index message) message ++
        messagesSegments calls false messages)

/-- The text of a request, cut by component. -/
def segments (request : ModelRequest) : List Segment :=
  [(.envelope, "\x7b\"system\": ".toList), (.instructions, dumps floatText (.str request.system)),
    (.envelope, ", \"messages\": ".toList)] ++
  (match request.messages with
  | .arr messages => (.envelope, "[".toList) ::
      (messagesSegments floatText (toolCalls messages) true messages.zipIdx ++
        [(.envelope, "]".toList)])
  | messages => [(.envelope, dumps floatText messages)]) ++
  [(.envelope, ", \"tools\": ".toList), (.toolCatalog, dumps floatText request.tools),
    (.envelope, "\x7d".toList)]

variable {floatText}

theorem textOf_blockSegments (component : Json → Component) (first : Bool) (blocks : List Json) :
    textOf (blockSegments floatText component first blocks) = dumpsItems floatText first blocks := by
  induction blocks generalizing first with
  | nil => rfl
  | cons block blocks ih => simp [blockSegments, dumpsItems, ih]

theorem textOf_valueSegments (component : Json → Component) (key : String) (value : Json) :
    textOf (valueSegments floatText component key value) = dumps floatText value := by
  unfold valueSegments
  split_ifs
  · simp
  · split
    · simp [textOf_blockSegments, dumps]
    · simp
  · simp

/-- The fields whose key is not in `seen`, each key once. -/
def unseen (seen : List String) : List (String × Json) → List (String × Json)
  | [] => []
  | (key, value) :: fields =>
    (if seen.contains key then [] else [(key, value)]) ++ unseen (key :: seen) fields

theorem entries_foldl_eq (fields : List (String × Json)) (d : Dict String Json)
    (seen : List String) (h : ∀ key, key ∈ seen ↔ key ∈ d.keys) :
    (fields.foldl (fun d field => d.setDefault field.1 field.2) d).entries =
      d.entries ++ unseen seen fields := by
  induction fields generalizing d seen with
  | nil => simp [unseen]
  | cons field fields ih =>
    obtain ⟨key, value⟩ := field
    rw [List.foldl_cons, unseen]
    have hseen (j : String) : j ∈ key :: seen ↔ j ∈ (d.setDefault key value).keys := by
      rw [List.mem_cons, h, Dict.keys_setDefault]
      split_ifs with hkey
      · exact ⟨fun hj => hj.elim (fun heq => heq ▸ hkey) id, .inr⟩
      · simp [or_comm]
    rw [ih _ _ hseen]
    by_cases hkey : key ∈ d.keys
    · have hcontains : seen.contains key = true := by simpa using (h key).mpr hkey
      rw [Dict.setDefault_of_mem hkey, if_pos hcontains, List.nil_append]
    · have hcontains : seen.contains key = false := by
        simpa using fun hmem => hkey ((h key).mp hmem)
      rw [Dict.setDefault_of_not_mem hkey, Dict.entries_set_of_not_mem hkey, hcontains]
      simp

/-- The items of a dictionary are the fields that its text shows. -/
theorem items_obj (fields : List (String × Json)) : (Json.obj fields).items = unseen [] fields := by
  rw [Json.items, Dict.ofLookup, fields_obj, entries_foldl_eq fields Dict.empty [] (by simp),
    Dict.entries_empty, List.nil_append]

theorem textOf_fieldSegments (component : Json → Component) (fields : List (String × Json))
    (seen : List String) :
    textOf (fieldSegments floatText component seen.isEmpty (unseen seen fields)) =
      dumpsFields floatText seen fields := by
  induction fields generalizing seen with
  | nil => rfl
  | cons field fields ih =>
    obtain ⟨key, value⟩ := field
    have hrest := ih (key :: seen)
    rw [List.isEmpty_cons] at hrest
    rw [unseen, dumpsFields, ← hrest]
    by_cases hkey : seen.contains key = true
    · have hne : seen.isEmpty = false := by
        cases seen with
        | nil => cases hkey
        | cons first seen => rfl
      rw [if_pos hkey, if_pos hkey, hne, List.nil_append, List.nil_append]
    · rw [if_neg hkey, if_neg hkey]
      simp [fieldSegments, textOf_valueSegments]

theorem textOf_messageSegments (component : Json → Component) (message : Json) :
    textOf (messageSegments floatText component message) = dumps floatText message := by
  cases message with
  | obj fields =>
    have hfields : textOf (fieldSegments floatText component true (Json.obj fields).items) =
        dumpsFields floatText [] fields := by
      rw [items_obj]
      exact textOf_fieldSegments component fields []
    simp [messageSegments, dumps, hfields]
  | _ => simp [messageSegments]

theorem textOf_messagesSegments (calls : Calls) (first : Bool) (messages : List Json) (n : ℕ) :
    textOf (messagesSegments floatText calls first (messages.zipIdx n)) =
      dumpsItems floatText first messages := by
  induction messages generalizing first n with
  | nil => rfl
  | cons message messages ih =>
    simp [messagesSegments, dumpsItems, textOf_messageSegments, ih]

/-- Together the segments are the text of the request. -/
theorem textOf_segments (request : ModelRequest) :
    textOf (segments floatText request) = dumps floatText (whole request) := by
  have hmessages : textOf (match request.messages with
      | .arr messages => (.envelope, "[".toList) ::
          (messagesSegments floatText (toolCalls messages) true messages.zipIdx ++
            [(.envelope, "]".toList)])
      | messages => [(.envelope, dumps floatText messages)]) = dumps floatText request.messages := by
    cases request.messages with
    | arr messages => simp [textOf_messagesSegments, dumps]
    | _ => simp
  have hsystem : (["system"] : List String).contains "messages" = false := by decide
  have hboth : (["messages", "system"] : List String).contains "tools" = false := by decide
  simp only [segments, textOf_append, hmessages, whole, dumps, dumpsFields, hsystem, hboth]
  simp [separator, dumpsStr, quote, escape]

/-! ## The values that are measured -/

/-- The segments outside the envelope are the texts of these values. -/
def Measures (floatText : ℚ → List Char) (segments : List Segment)
    (charges : List (Component × Json)) : Prop :=
  (values segments).Perm (charges.map fun charge => (charge.1, dumps floatText charge.2))

theorem Measures.append {first second : List Segment} {charges more : List (Component × Json)}
    (h : Measures floatText first charges) (k : Measures floatText second more) :
    Measures floatText (first ++ second) (charges ++ more) := by
  rw [Measures, values_append, List.map_append]
  exact List.Perm.append h k

theorem Measures.envelope {segments : List Segment} {charges : List (Component × Json)}
    (h : Measures floatText segments charges) (text : List Char) :
    Measures floatText ((.envelope, text) :: segments) charges := by
  rwa [Measures, values_envelope]

theorem Measures.closed {segments : List Segment} {charges : List (Component × Json)}
    (h : Measures floatText segments charges) (text : List Char) :
    Measures floatText (segments ++ [(.envelope, text)]) charges := by
  rwa [Measures, values_append, values_envelope, values_nil, List.append_nil]

theorem Measures.value (floatText : ℚ → List Char) {component : Component}
    (h : component ≠ .envelope) (value : Json) : Measures floatText [(component, dumps floatText value)] [(component, value)] := by
  rw [Measures, values_cons h]
  exact .refl _

theorem Measures.nil : Measures floatText [] [] := .refl _

theorem Measures.perm {segments : List Segment} {charges more : List (Component × Json)}
    (h : Measures floatText segments charges) (hperm : charges.Perm more) :
    Measures floatText segments more :=
  List.Perm.trans h (hperm.map _)

theorem componentOf_ne (calls : Calls) (index : ℕ) (message block : Json) :
    componentOf calls index message block ≠ .envelope := by
  unfold componentOf
  split_ifs
  · dsimp only
    split
    · split_ifs <;> decide
    · decide
  · decide

theorem measures_blockSegments {component : Json → Component}
    (h : ∀ block, component block ≠ .envelope) (first : Bool) (blocks : List Json) :
    Measures floatText (blockSegments floatText component first blocks)
      (blocks.map fun block => (component block, block)) := by
  induction blocks generalizing first with
  | nil => exact .nil
  | cons block blocks ih =>
    have hblock := Measures.value floatText (h block) block
    exact (hblock.append (ih false)).envelope _

/-- The values of one field. -/
def fieldCharges (component : Json → Component) (key : String) (value : Json) :
    List (Component × Json) :=
  if key = "role" then []
  else if key = "content" then
    match value with
    | .arr blocks => blocks.map fun block => (component block, block)
    | value => [(.history, value)]
  else [(.history, value)]

theorem measures_valueSegments {component : Json → Component}
    (h : ∀ block, component block ≠ .envelope) (key : String) (value : Json) :
    Measures floatText (valueSegments floatText component key value)
      (fieldCharges component key value) := by
  unfold valueSegments fieldCharges
  split_ifs
  · exact Measures.nil.envelope _
  · cases value with
    | arr blocks => exact ((measures_blockSegments h true blocks).closed _).envelope _
    | _ => exact .value _ (by decide) _
  · exact .value _ (by decide) _

theorem measures_fieldSegments {component : Json → Component}
    (h : ∀ block, component block ≠ .envelope) (first : Bool) (fields : List (String × Json)) :
    Measures floatText (fieldSegments floatText component first fields)
      (fields.flatMap fun field => fieldCharges component field.1 field.2) := by
  induction fields generalizing first with
  | nil => exact .nil
  | cons field fields ih =>
    exact ((measures_valueSegments h field.1 field.2).append (ih false)).envelope _

theorem lookup_unseen (seen : List String) (fields : List (String × Json)) (key : String) :
    (unseen seen fields).lookup key = if key ∈ seen then none else fields.lookup key := by
  induction fields generalizing seen with
  | nil => simp [unseen]
  | cons field fields ih =>
    obtain ⟨k, value⟩ := field
    rw [unseen, List.lookup_append, ih, Dict.lookup_cons_eq]
    by_cases hseen : seen.contains k = true
    · rw [if_pos hseen]
      have hk : k ∈ seen := by simpa using hseen
      by_cases hkey : key ∈ seen
      · simp [hkey]
      · have hne : key ≠ k := fun heq => hkey (heq ▸ hk)
        simp [hkey, hne]
    · rw [if_neg hseen]
      have hk : k ∉ seen := by simpa using hseen
      by_cases hsame : key = k
      · simp [hsame, hk]
      · simp [hsame, Dict.lookup_cons_eq]

theorem get?_eq_lookup_items (fields : List (String × Json)) (key : String) :
    (Json.obj fields).get? key = (Json.obj fields).items.lookup key := by
  rw [items_obj, lookup_unseen, get?_obj, if_neg List.not_mem_nil]

/-- The content of a message is one of its fields. -/
theorem flatMap_fieldCharges_perm (component : Json → Component) {fields : List (String × Json)}
    (h : (fields.map Prod.fst).Nodup) :
    (fields.flatMap fun field => fieldCharges component field.1 field.2).Perm
      (((fields.filter fun field => field.1 ∉ ["role", "content"]).map fun field =>
        (.history, field.2)) ++
      ((fields.lookup "content").elim [] (fieldCharges component "content"))) := by
  induction fields with
  | nil => exact .refl _
  | cons field fields ih =>
    obtain ⟨key, value⟩ := field
    rw [List.map_cons, List.nodup_cons] at h
    have hrest := ih h.2
    rw [List.flatMap_cons]
    by_cases hcontent : key = "content"
    · subst hcontent
      have hnone : fields.lookup "content" = none := Dict.lookup_eq_none_of_not_mem h.1
      rw [hnone, Option.elim_none, List.append_nil] at hrest
      rw [List.filter_cons_of_neg (by simp), List.lookup_cons_self, Option.elim_some]
      exact (hrest.append_left _).trans List.perm_append_comm
    · have hlookup : List.lookup "content" ((key, value) :: fields) =
          fields.lookup "content" := by
        rw [Dict.lookup_cons_eq, if_neg (Ne.symm hcontent)]
      rw [hlookup]
      by_cases hrole : key = "role"
      · rw [List.filter_cons_of_neg (by simp [hrole])]
        simpa [fieldCharges, hrole] using hrest
      · rw [List.filter_cons_of_pos (by simp [hrole, hcontent])]
        simpa [fieldCharges, hrole, hcontent] using hrest

theorem messageCharges_obj (calls : Calls) (fields : List (String × Json)) (index : ℕ) :
    messageCharges calls (.obj fields) index =
      ((((Json.obj fields).items.filter fun field => field.1 ∉ ["role", "content"]).map fun field =>
        (.history, field.2)) ++
      (((Json.obj fields).items.lookup "content").elim []
        (fieldCharges (componentOf calls index (.obj fields)) "content"))) := by
  rw [messageCharges, ← get?_eq_lookup_items]
  congr 1
  cases (Json.obj fields).get? "content" with
  | none => rfl
  | some content => cases content <;> rfl

theorem measures_messageSegments (calls : Calls) (message : Json) (index : ℕ) :
    Measures floatText (messageSegments floatText (componentOf calls index message) message)
      (messageCharges calls message index) := by
  cases message with
  | obj fields =>
    have hfields : Measures floatText (fieldSegments floatText
        (componentOf calls index (.obj fields)) true (Json.obj fields).items) _ :=
      measures_fieldSegments (componentOf_ne calls index (.obj fields)) true _
    have hnodup : ((Json.obj fields).items.map Prod.fst).Nodup :=
      (Dict.ofLookup (Json.obj fields).fields).nodup
    rw [messageCharges_obj]
    exact ((hfields.perm (flatMap_fieldCharges_perm _ hnodup)).closed _).envelope _
  | _ => exact Measures.nil.envelope _

theorem measures_messagesSegments (calls : Calls) (first : Bool) (messages : List (Json × ℕ)) :
    Measures floatText (messagesSegments floatText calls first messages)
      (messages.flatMap fun message => messageCharges calls message.1 message.2) := by
  induction messages generalizing first with
  | nil => exact .nil
  | cons message messages ih =>
    exact ((measures_messageSegments calls message.1 message.2).append (ih false)).envelope _

/-- Every value that is measured is one segment of the text, and every segment outside the
envelope is a value that is measured. -/
theorem measures_segments (request : ModelRequest) :
    Measures floatText (segments floatText request) (charges request) := by
  have hmessages : Measures floatText (match request.messages with
      | .arr messages => (.envelope, "[".toList) ::
          (messagesSegments floatText (toolCalls messages) true messages.zipIdx ++
            [(.envelope, "]".toList)])
      | messages => [(.envelope, dumps floatText messages)])
      (((request.messages.arr?).getD []).zipIdx.flatMap fun message =>
        messageCharges (toolCalls ((request.messages.arr?).getD [])) message.1 message.2) := by
    cases request.messages with
    | arr messages => exact ((measures_messagesSegments _ true messages.zipIdx).closed _).envelope _
    | _ => exact Measures.nil.envelope _
  have hinstructions : Component.instructions ≠ .envelope := by decide
  have hcatalog : Component.toolCatalog ≠ .envelope := by decide
  have hsystem := ((Measures.value floatText hinstructions (.str request.system)).closed
    ", \"messages\": ".toList).envelope "\x7b\"system\": ".toList
  have htools := ((Measures.value floatText hcatalog request.tools).closed
    "\x7d".toList).envelope ", \"tools\": ".toList
  refine ((hsystem.append hmessages).append htools).perm ?_
  exact (List.perm_append_comm.cons _ : ((_, _) :: (_ ++ [_])).Perm _)

/-! ## The counts -/

theorem charged_eq (request : ModelRequest) {component : Component} (h : component ≠ .envelope) :
    charged floatText request component = lengthOf (segments floatText request) component := by
  rw [← lengthOf_values h, lengthOf_perm (measures_segments request), lengthOf, List.filter_map,
    List.map_map, charged]
  rfl

theorem charged_envelope (request : ModelRequest) : charged floatText request .envelope = 0 := by
  have hnone : (charges request).filter (·.1 = .envelope) = [] := by
    apply List.filter_eq_nil_iff.mpr
    intro charge hcharge hsame
    have hmem : (charge.1, dumps (fun _ => []) charge.2) ∈ values (segments (fun _ => []) request) :=
      (measures_segments request).mem_iff.mpr (List.mem_map.mpr ⟨charge, hcharge, rfl⟩)
    have hne := (List.mem_filter.mp hmem).2
    simp_all
  rw [charged, hnone, List.map_nil, List.sum_nil]

/-- A component is the length of its segments; the envelope too. -/
theorem components_eq (request : ModelRequest) (component : Component) :
    components floatText request component = lengthOf (segments floatText request) component := by
  cases component with
  | envelope =>
    have htotal := sum_lengthOf (segments floatText request)
    rw [textOf_segments] at htotal
    simp only [components, size, ← htotal, Component.all, List.map_cons, List.map_nil,
      List.sum_cons, List.sum_nil, charged_envelope,
      charged_eq request (show Component.instructions ≠ .envelope by decide),
      charged_eq request (show Component.history ≠ .envelope by decide),
      charged_eq request (show Component.toolCatalog ≠ .envelope by decide),
      charged_eq request (show Component.skills ≠ .envelope by decide),
      charged_eq request (show Component.retrieval ≠ .envelope by decide),
      charged_eq request (show Component.toolResults ≠ .envelope by decide)]
    omega
  | _ => exact congrArg Nat.cast (charged_eq request (by decide))

/-- A value of this form, whose counts add up to its total. -/
def composed (total : ℕ) (counts : Component → ℕ) : Json :=
  .obj [("method", .str "serialized_unicode_characters_v1"), ("unit", .str "characters"),
    ("total_characters", .int total),
    ("components", .obj (Component.all.map fun component =>
      (component.name, .int (counts component))))]

theorem count?_ofNat (n : ℕ) : (Json.int n).count? = some n := by
  rw [count?, if_pos (Int.natCast_nonneg n), Int.toNat_natCast]

theorem compositionComponents_eq : compositionComponents = Component.all.map Component.name := rfl

theorem getNull_counts (counts : Component → ℕ) (component : Component) :
    (Json.obj (Component.all.map fun component =>
      (component.name, .int (counts component)))).getNull component.name =
        .int (counts component) := by
  cases component <;> rfl

theorem validate_composed {total : ℕ} {counts : Component → ℕ}
    (h : (Component.all.map counts).sum = total) :
    validateInputComposition (composed total counts) = some (composed total counts) := by
  have hkeys : (composed total counts).hasExactly
      ["method", "unit", "total_characters", "components"] = true := rfl
  have hmethod : ((composed total counts).getNull "method").pyEq
      (.str "serialized_unicode_characters_v1") = true := Json.pyEq_refl _
  have hunit : ((composed total counts).getNull "unit").pyEq (.str "characters") = true :=
    Json.pyEq_refl _
  have htotal : ((composed total counts).getNull "total_characters").count? = some total :=
    count?_ofNat total
  have hcounts : ((composed total counts).getNull "components").hasExactly
      compositionComponents = true := rfl
  have hget (component : Component) :
      ((composed total counts).getNull "components").getNull component.name =
        .int (counts component) := getNull_counts counts component
  have hnumbers : compositionComponents.mapM (fun key =>
      (((composed total counts).getNull "components").getNull key).count?) =
        some (Component.all.map counts) := by
    rw [compositionComponents_eq, List.mapM_map]
    simp only [Function.comp_def, hget, count?_ofNat]
    rfl
  have hmap : (compositionComponents.map fun key =>
      (key, ((composed total counts).getNull "components").getNull key)) =
        Component.all.map fun component => (component.name, .int (counts component)) := by
    rw [compositionComponents_eq, List.map_map]
    simp only [Function.comp_def, hget]
  unfold validateInputComposition
  simp only [hkeys, hmethod, hunit, htotal, hcounts, hnumbers, hmap, guard_true, Option.pure_def,
    Option.bind_eq_bind, Option.bind_some, h]
  rfl

/-- The measure of a request: the components are the lengths of the segments of its text. -/
theorem measure_eq_composed (request : ModelRequest) :
    measureInputComposition floatText request =
      composed (dumps floatText (whole request)).length (lengthOf (segments floatText request)) := by
  simp only [measureInputComposition, components_eq]
  rfl

/-- What the ledger reads back of an attempt that was started with a value. -/
theorem inputComposition_attemptRow {attemptId : String} {record : AttemptRecord}
    {start : LedgerEvent} {row : UsageCall} (hstart : record.start = some start)
    (h : attemptRow attemptId record = .ok row) :
    row.inputComposition =
      validateInputComposition (start.payload.getNull "input_composition") := by
  unfold attemptRow at h
  split at h
  · cases h
  · simp only [Outcome.bind_eq_ok, Outcome.pure_eq_ok, Except.ok.injEq] at h
    obtain ⟨_, _, _, _, snapshot, _, rfl⟩ := h
    simp only [hstart, Option.map_some, Option.getD_some]

end InputComposition

end Eventide
