import Eventide.Verification.Experiments.Differences
import Eventide.Verification.Experiments.Evidence
import Mathlib.Data.List.Infix

/-! # The frozen parts of an identity

The paths that no variant may change cover the tasks, the generation and the model of every case,
and so the set of the cases itself. -/

namespace Eventide

open Outcome Json Pointer

namespace Experiments

variable {std : Standard}

/-! ## Cases -/

/-- What every case of an identity has. -/
structure CaseIdentity.Valid (case : CaseIdentity) : Prop where
  task : case.task.isObj = true
  settings : case.configuration.isObj = true
  generation : validateGeneration case.generation = .ok ()
  configuration : ∀ field ∈ ["provider", "model", "adapter"],
    ∃ text, case.configuration.get? field = some (.str text)

theorem nonempty?_isNone {value : Option Json} (h : (nonempty? value).isNone = false) :
    ∃ text, value = some (.str text) := by
  unfold nonempty? at h
  cases value with
  | none => cases h
  | some value =>
    cases value with
    | str text => exact ⟨text, rfl⟩
    | _ => cases h

theorem caseIdentity_valid {known : List String} {case : Json} {id : String}
    {identity : CaseIdentity} (h : caseIdentity std known case = .ok (id, identity)) :
    identity.Valid := by
  unfold caseIdentity at h
  obtain ⟨benchmark, hbenchmark, h⟩ := bind_eq_ok.mp h
  obtain ⟨_, -, h⟩ := bind_eq_ok.mp h
  obtain ⟨evidence, -, h⟩ := bind_eq_ok.mp h
  obtain ⟨runs, -, h⟩ := bind_eq_ok.mp h
  obtain ⟨main, -, h⟩ := bind_eq_ok.mp h
  obtain ⟨htask, rfl⟩ := object_eq_ok hbenchmark
  cases main with
  | none => cases h
  | some main =>
    obtain ⟨_, -, h⟩ := bind_eq_ok.mp h
    obtain ⟨_, -, h⟩ := bind_eq_ok.mp h
    obtain ⟨⟨⟩, hgeneration, h⟩ := bind_eq_ok.mp h
    obtain ⟨configuration, hconfiguration, h⟩ := bind_eq_ok.mp h
    obtain ⟨hsettings, rfl⟩ := object_eq_ok hconfiguration
    obtain ⟨_, hfields, h⟩ := bind_eq_ok.mp h
    obtain ⟨_, -, h⟩ := bind_eq_ok.mp h
    obtain ⟨_, -, h⟩ := bind_eq_ok.mp h
    obtain ⟨requests, -, h⟩ := bind_eq_ok.mp h
    obtain ⟨-, rfl⟩ := Prod.mk.inj (Except.ok.inj h)
    refine ⟨htask, hsettings, hgeneration, fun field hfield => nonempty?_isNone ?_⟩
    rw [raiseIf_eq_ok, Bool.not_eq_true, List.any_eq_false] at hfields
    exact Bool.eq_false_iff.mpr (hfields field hfield)

theorem foldlM_addCase {cases cases' : Dict String CaseIdentity} {items : List Json}
    (hvalid : ∀ id case, cases.get? id = some case → case.Valid)
    (h : items.foldlM (addCase std) cases = .ok cases') :
    ∀ id case, cases'.get? id = some case → case.Valid := by
  induction items generalizing cases with
  | nil =>
    obtain rfl := Except.ok.inj h
    exact hvalid
  | cons item items ih =>
    rw [List.foldlM_cons] at h
    obtain ⟨mid, hitem, h⟩ := bind_eq_ok.mp h
    obtain ⟨⟨id, identity⟩, hcase, hitem⟩ := bind_eq_ok.mp hitem
    obtain rfl := Except.ok.inj hitem
    refine ih (fun j case hj => ?_) h
    rw [Dict.get?_set] at hj
    split at hj
    · obtain rfl := Option.some.inj hj
      exact caseIdentity_valid hcase
    · exact hvalid j case hj

theorem experimentIdentity_valid {report : Json} {identity : Identity}
    (h : experimentIdentity std report = .ok identity) :
    ∀ id case, identity.cases.get? id = some case → case.Valid := by
  unfold experimentIdentity at h
  obtain ⟨_, -, h⟩ := bind_eq_ok.mp h
  obtain ⟨_, -, h⟩ := bind_eq_ok.mp h
  obtain ⟨_, -, h⟩ := bind_eq_ok.mp h
  obtain ⟨_, -, h⟩ := bind_eq_ok.mp h
  obtain ⟨_, -, h⟩ := bind_eq_ok.mp h
  obtain ⟨cases, hcases, h⟩ := bind_eq_ok.mp h
  obtain rfl := Except.ok.inj h
  exact foldlM_addCase (fun _ _ hc => by cases hc) hcases

/-! ## Generations -/

/-- A field of a generation is null or a value without fields. -/
theorem generationField_of_get? {generation value : Json} {k : String}
    (h : validateGeneration generation = .ok ()) (hk : generation.get? k = some value) :
    generationField (k, value) = true := by
  unfold validateGeneration at h
  split at h
  · rename_i hvalid
    rw [Bool.and_eq_true, List.all_eq_true] at hvalid
    refine hvalid.2 _ (Dict.mem_entries.mpr ?_)
    cases generation with
    | obj fields => rw [Dict.get?_ofLookup]; exact hk
    | _ => cases hk
  · cases h

theorem isObj_of_generation {generation : Json} (h : validateGeneration generation = .ok ()) :
    generation.isObj = true := by
  unfold validateGeneration at h
  split at h
  · rename_i hvalid
    exact (Bool.and_eq_true _ _ ▸ hvalid).1
  · cases h

theorem generationField_not_obj {k : String} {value : Json}
    (h : generationField (k, value) = true) : value.isObj = false := by
  cases value with
  | obj fields =>
    unfold generationField at h
    split at h
    · cases h
    · rename_i check hcheck
      simp only [generationFields, Dict.lookup_cons_eq] at hcheck
      split_ifs at hcheck <;>
        first
          | cases hcheck; simp [rational?, str?] at h
          | simp at hcheck
  | _ => rfl

/-- Nothing in a generation reads like the marker. -/
theorem not_concealed_generation {g g' : Json} {ks : List String}
    (hg : validateGeneration g = .ok ()) (hg' : validateGeneration g' = .ok ()) :
    ¬ Concealed g g' ks := by
  intro h
  have hhidden : ∀ {v : Json}, Hidden v → v.isObj = true := by
    rintro v ⟨hmark, -⟩
    exact isObj_of_get? hmark
  cases h with
  | onlyOn h hv =>
    obtain ⟨-, -, ⟨hk, -⟩ | ⟨hk, -⟩⟩ := h
    · have hobj := generationField_not_obj (generationField_of_get? hg hk)
      rw [hhidden hv] at hobj
      cases hobj
    · have hobj := generationField_not_obj (generationField_of_get? hg' hk)
      rw [hhidden hv] at hobj
      cases hobj
  | under hk _ h =>
    have hobj := generationField_not_obj (generationField_of_get? hg hk)
    cases h with
    | onlyOn h =>
      rw [h.1] at hobj
      cases hobj
    | under hv =>
      rw [isObj_of_get? hv] at hobj
      cases hobj

/-! ## Paths -/

theorem within_append (part : String) (xs ys : List Char) :
    within part (xs ++ (part.toList ++ ys)) = true := by
  refine List.any_eq_true.mpr ⟨part.toList ++ ys, (List.mem_tails _ _).mpr ⟨xs, rfl⟩, ?_⟩
  exact List.isPrefixOf_iff_prefix.mpr ⟨ys, rfl⟩

/-- Everything below the task and the generation of a case is frozen. -/
theorem isFrozen_under {field : String} (hf : field = "task" ∨ field = "generation")
    (xs : List String) (k : String) (ys : List String) :
    isFrozen (pointer (xs ++ field :: k :: ys)) = true := by
  have hpath : pointer (xs ++ field :: k :: ys) =
      pointer xs ++ ((('/' :: token field) ++ ['/']) ++ (token k ++ pointer ys)) := by
    rw [pointer_append, pointer_cons, pointer_cons]
    simp
  rw [hpath, isFrozen]
  rcases hf with rfl | rfl
  · have hwithin := within_append "/task/" (pointer xs) (token k ++ pointer ys)
    rw [show (('/' :: token "task") ++ ['/']) = "/task/".toList by decide, hwithin]
    simp
  · have hwithin := within_append "/generation/" (pointer xs) (token k ++ pointer ys)
    rw [show (('/' :: token "generation") ++ ['/']) = "/generation/".toList by decide, hwithin]
    simp

/-- The settings of a model that are frozen. -/
def modelFields : List String :=
  ["provider", "model", "adapter", "endpoint_sha256", "max_output_tokens"]

/-- So are the settings of the model. -/
theorem isFrozen_configuration {field : String} (hf : field ∈ modelFields) (xs : List String) :
    isFrozen (pointer (xs ++ ["configuration", field])) = true := by
  have hend : ∃ text ∈ frozenEnds, text.toList = pointer ["configuration", field] := by
    simp only [modelFields, List.mem_cons, List.not_mem_nil, or_false] at hf
    rcases hf with rfl | rfl | rfl | rfl | rfl <;> decide
  obtain ⟨text, htext, heq⟩ := hend
  have hany : (frozenEnds.any fun text =>
      text.toList.isSuffixOf (pointer (xs ++ ["configuration", field]))) = true := by
    refine List.any_eq_true.mpr ⟨text, htext, List.isSuffixOf_iff_suffix.mpr ?_⟩
    rw [pointer_append, heq]
    exact List.suffix_append _ _
  rw [isFrozen, hany, Bool.or_true]

/-- The settings of a batch. -/
def batchFields : List String :=
  ["mode", "measurement_kind", "suite_source_sha256", "inputs_sha256", "split", "case_timeout"]

theorem isFrozen_batch {field : String} (hf : field ∈ batchFields) :
    isFrozen (pointer [field]) = true := by
  have hmem : pointer [field] ∈ frozenPaths.map String.toList := by
    simp only [batchFields, List.mem_cons, List.not_mem_nil, or_false] at hf
    rcases hf with rfl | rfl | rfl | rfl | rfl | rfl <;> decide
  rw [isFrozen, decide_eq_true hmem, Bool.true_or, Bool.true_or, Bool.true_or]

/-! ## Cases of two identities -/

theorem Compared.trans {l r a b c d : Json} {ks more : List String} (h : Compared l r ks a b)
    (h' : Compared a b more c d) : Compared l r (ks ++ more) c d := by
  induction h with
  | here => exact h'
  | under hl hr hk _ ih => exact .under hl hr hk (ih h')

theorem get?_cases {cases : Dict String CaseIdentity} {id : String} :
    (Json.obj (cases.entries.map fun p => (p.1, p.2.json))).get? id =
      (cases.get? id).map CaseIdentity.json := by
  rw [get?_obj, Dict.lookup_map]
  rfl

variable {left right : Identity} {b c : CaseIdentity} {id : String}

/-- What is compared in a case that one side has at least. -/
theorem compared_case (h : (left.cases.get? id).isSome = true ∨ (right.cases.get? id).isSome = true) :
    Compared left.json right.json ["cases", id]
      (((left.cases.get? id).map CaseIdentity.json).getD missing)
      (((right.cases.get? id).map CaseIdentity.json).getD missing) := by
  refine .under rfl rfl (Or.inl rfl) (.under rfl rfl ?_ ?_)
  · rw [marked_of_get? (v := left.json) rfl, marked_of_get? (v := right.json) rfl, get?_cases,
      get?_cases, Option.isSome_map, Option.isSome_map]
    exact h
  · rw [marked_of_get? (v := left.json) rfl, marked_of_get? (v := right.json) rfl]
    simp only [marked, get?_cases]
    exact .here

/-- No place that a variant may not change is reported. -/
def Unfrozen (std : Standard) (l r : Json) : Prop :=
  ∀ ks a b, Compared l r ks a b → Apart std a b → isFrozen (pointer ks) = false

theorem Unfrozen.symm {l r : Json} (h : Unfrozen std l r) : Unfrozen std r l :=
  fun ks a b hc ha => h ks b a hc.symm ha.symm

theorem NoCollision.of_compared {l r a b : Json} {ks : List String} (h : NoCollision std l r)
    (hc : Compared l r ks a b) : NoCollision std a b :=
  fun _ _ _ hab => h _ _ _ (hc.trans hab)

/-- A dictionary of a case whose places are all frozen differs at concealed places only. -/
theorem concealed_of_frozen {v w : Json} {field : String}
    (hf : field = "task" ∨ field = "generation") (hd : NoCollision std left.json right.json)
    (hfrozen : Unfrozen std left.json right.json) (hv : v.isObj = true) (hw : w.isObj = true)
    (hc : Compared left.json right.json ["cases", id, field] v w) :
    ∀ ks, Difference v w ks → Concealed v w ks := by
  intro ks hdiff
  by_contra hshown
  obtain ⟨more, x, y, hxy, ha⟩ := hdiff.reported (hd.of_compared hc) hshown
  cases hkeys : ks ++ more with
  | nil =>
    rw [hkeys] at hxy
    cases hxy
    have hobj := ha.obj
    rw [hv, hw] at hobj
    cases hobj
  | cons k rest =>
    rw [hkeys] at hxy
    have hplace := hfrozen _ _ _ (hc.trans hxy) ha
    rw [show ["cases", id, field] ++ k :: rest = ["cases", id] ++ field :: k :: rest from rfl,
      isFrozen_under hf] at hplace
    cases hplace

/-- What two cases have in common when nothing frozen is reported. -/
structure SameTask (b c : CaseIdentity) : Prop where
  task : ∀ ks, Difference b.task c.task ks → Concealed b.task c.task ks
  generation : Same b.generation c.generation
  model : ∀ field ∈ modelFields, let v := marked b.configuration field
    let w := marked c.configuration field
    (v.isObj && w.isObj) = false → Same v w

theorem compared_field {v w : Json} {field : String} (hb : left.cases.get? id = some b)
    (hc : right.cases.get? id = some c) (hv : b.json.get? field = some v)
    (hw : c.json.get? field = some w) :
    Compared left.json right.json ["cases", id, field] v w := by
  have hcase : Compared left.json right.json ["cases", id] _ _ :=
    compared_case (Or.inl (by simp [hb]))
  rw [hb, hc, Option.map_some, Option.map_some, Option.getD_some, Option.getD_some] at hcase
  refine hcase.trans (.under rfl rfl (Or.inl (by simp [hv])) ?_)
  rw [marked_of_get? hv, marked_of_get? hw]
  exact .here

theorem sameTask (hd : NoCollision std left.json right.json)
    (hfrozen : Unfrozen std left.json right.json) (hb : left.cases.get? id = some b)
    (hc : right.cases.get? id = some c) (hvb : b.Valid) (hvc : c.Valid) : SameTask b c where
  task := concealed_of_frozen (Or.inl rfl) hd hfrozen hvb.task hvc.task
    (compared_field hb hc rfl rfl)
  generation := by
    refine same_iff.mpr fun ks hdiff => ?_
    have hconcealed := concealed_of_frozen (Or.inr rfl) hd hfrozen
      (isObj_of_generation hvb.generation) (isObj_of_generation hvc.generation)
      (compared_field hb hc rfl rfl) ks hdiff
    exact not_concealed_generation hvb.generation hvc.generation hconcealed
  model := by
    intro field hfield v w hobj
    have hconf : Compared left.json right.json ["cases", id, "configuration"] b.configuration
        c.configuration := compared_field hb hc rfl rfl
    have hkeys : ∀ {x : Json}, (marked x field).isObj = false → (x.get? field).isSome = true := by
      intro x hx
      cases hget : x.get? field with
      | some value => rfl
      | none =>
        rw [marked_of_none hget] at hx
        cases hx
    have hkey : (b.configuration.get? field).isSome = true ∨
        (c.configuration.get? field).isSome = true :=
      (Bool.and_eq_false_iff.mp hobj).imp hkeys hkeys
    have hplace : Compared left.json right.json (["cases", id] ++ ["configuration", field]) v w :=
      hconf.trans (.under hvb.settings hvc.settings hkey .here)
    by_contra hne
    have ha : Apart std v w := ⟨hobj, fun he => hne (hd _ _ _ hplace hobj he)⟩
    have hfree := hfrozen _ _ _ hplace ha
    rw [isFrozen_configuration hfield] at hfree
    cases hfree

theorem get?_missing_generation {generation : Json} (h : validateGeneration generation = .ok ()) :
    generation.get? "missing" = none := by
  by_contra hsome
  obtain ⟨value, hvalue⟩ := Option.ne_none_iff_exists'.mp hsome
  have hfield := generationField_of_get? h hvalue
  cases hfield

/-- A case of one side is a case of the other. -/
theorem isSome_of_unfrozen (hd : NoCollision std left.json right.json)
    (hfrozen : Unfrozen std left.json right.json) (hb : left.cases.get? id = some b)
    (hvb : b.Valid) : (right.cases.get? id).isSome = true := by
  by_contra hnone
  rw [Bool.not_eq_true, Option.isSome_eq_false_iff, Option.isNone_iff_eq_none] at hnone
  have hcase : Compared left.json right.json ["cases", id] _ _ :=
    compared_case (Or.inl (by simp [hb]))
  rw [hb, hnone, Option.map_some, Option.map_none, Option.getD_some, Option.getD_none] at hcase
  have hplace : Compared left.json right.json (["cases", id] ++ ["generation", "missing"])
      missing (.bool true) := by
    refine hcase.trans (.under rfl rfl (Or.inl rfl) ?_)
    rw [marked_of_get? (v := b.json) (w := b.generation) rfl, marked_of_none (v := missing) rfl]
    refine .under (isObj_of_generation hvb.generation) rfl (Or.inr rfl) ?_
    rw [marked_of_none (get?_missing_generation hvb.generation),
      marked_of_get? (v := missing) (w := .bool true) rfl]
    exact .here
  have ha : Apart std missing (.bool true) := by
    refine ⟨rfl, fun he => ?_⟩
    have hsame := hd _ _ _ hplace rfl he
    cases sortKeys_eq_bool.mp hsame
  have hfree := hfrozen _ _ _ hplace ha
  rw [show ["cases", id] ++ ["generation", "missing"] = ["cases", id] ++ "generation" :: "missing" :: []
    from rfl, isFrozen_under (Or.inr rfl)] at hfree
  cases hfree

/-- A setting of the batch is the same unless both sides have dictionaries. -/
theorem same_batch {field : String} {v w : Json} (hf : field ∈ batchFields)
    (hd : NoCollision std left.json right.json) (hfrozen : Unfrozen std left.json right.json)
    (hv : left.json.get? field = some v) (hw : right.json.get? field = some w)
    (hobj : (v.isObj && w.isObj) = false) : Same v w := by
  have hplace : Compared left.json right.json [field] v w := by
    refine .under rfl rfl (Or.inl (by simp [hv])) ?_
    rw [marked_of_get? hv, marked_of_get? hw]
    exact .here
  by_contra hne
  have hfree := hfrozen _ _ _ hplace ⟨hobj, fun he => hne (hd _ _ _ hplace hobj he)⟩
  rw [isFrozen_batch hf] at hfree
  cases hfree

end Experiments

end Eventide
