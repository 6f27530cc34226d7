import Eventide.Verification.TaskPlan.Update

/-! # The laws of a plan, over chains of updates -/

namespace Eventide.TaskPlan

open Outcome RuntimeStore

/-! ## Dependencies -/

/-- One task must wait for another. -/
def Waits (todos : List Todo) (dependency taskId : String) : Prop :=
  ∃ todo ∈ todos, todo.id = taskId ∧ dependency ∈ todo.dependencies

/-- The dependency laws of a plan. -/
structure Ordered (todos : List Todo) : Prop where
  closed : ∀ todo ∈ todos, ∀ dependency ∈ todo.dependencies, dependency ∈ todos.map (·.id)
  acyclic : ∀ todo ∈ todos, ¬ Relation.TransGen (Waits todos) todo.id todo.id
  ready : ∀ todo ∈ todos, todo.status = .in_progress ∨ todo.status = .completed →
    ∀ dependency ∈ todo.dependencies,
      ∃ other ∈ todos, other.id = dependency ∧ other.status = .completed

section Ordered

variable {todos : List Todo} (honce : (todos.map (·.id)).Nodup)

theorem find?_id {todo : Todo} (honce : (todos.map (·.id)).Nodup) (h : todo ∈ todos) :
    todos.find? (·.id = todo.id) = some todo := by
  cases hf : todos.find? (·.id = todo.id) with
  | none => simpa using List.find?_eq_none.mp hf todo h
  | some found =>
    have hid : found.id = todo.id := by simpa using List.find?_some hf
    rw [List.inj_on_of_nodup_map honce (List.mem_of_find?_eq_some hf) h hid]

include honce

theorem waits_below {dependency taskId : String} (h : Waits todos dependency taskId) :
    Search.Below (dependenciesById todos) dependency taskId := by
  obtain ⟨todo, hm, rfl, hd⟩ := h
  simpa [Search.Below, dependenciesById, find?_id honce hm] using hd

theorem validateDependencies_ordered (h : validateDependencies todos = .ok ()) :
    Ordered todos := by
  simp only [validateDependencies, bind_eq_ok] at h
  obtain ⟨⟨⟩, hclosed, visited, hvisit, hready⟩ := h
  rw [forM_eq_ok] at hclosed hready
  constructor
  · intro todo hm dependency hd
    have hall := hclosed todo hm
    rw [forM_eq_ok] at hall
    simpa using hall dependency hd
  · intro todo hm hcycle
    apply Search.visitAll_acyclic hvisit (List.mem_map_of_mem hm)
    exact Relation.TransGen.mono (fun _ _ => waits_below honce) _ _ hcycle
  · intro todo hm hs dependency hd
    have hunmet : todo.unmet todos = [] := by simpa using hready todo hm
    rw [Todo.unmet, if_pos hs, List.filter_eq_nil_iff] at hunmet
    have hstatus : statusById todos dependency = some .completed := by
      simpa using hunmet dependency hd
    obtain ⟨other, hfind, hdone⟩ := Option.map_eq_some_iff.mp hstatus
    exact ⟨other, List.mem_of_find?_eq_some hfind, by simpa using List.find?_some hfind, hdone⟩

end Ordered

/-! ## Submitting a plan again -/

/-- The item as `_semantic` stores it: texts may be redacted, the rest stays. -/
def Todo.stored (semantic : String → String) (todo : Todo) : Todo :=
  { todo with content := semantic todo.content, summary := todo.summary.map semantic }

section Verbatim

variable {semantic : String → String} {todo : Todo}

theorem toJson_keys (todo : Todo) : (todo.toJson.isObj && todo.toJson.fields.all (·.1 ∈ itemKeys)) = true := by
  obtain ⟨_, _, _, summary, dependsOn⟩ := todo
  cases summary <;> cases dependsOn <;> simp [Todo.toJson, itemKeys]

theorem get?_toJson (todo : Todo) : todo.toJson.get? "id" = some (.str todo.id) ∧
    todo.toJson.get? "content" = some (.str todo.content) ∧
    todo.toJson.get? "status" = some (.str todo.status.text) ∧
    todo.toJson.get? "summary" = todo.summary.map Json.str ∧
    todo.toJson.get? "depends_on" = todo.dependsOn.map fun ds => .arr (ds.map .str) := by
  obtain ⟨_, _, _, summary, dependsOn⟩ := todo
  cases summary <;> cases dependsOn <;> simp [Todo.toJson, List.lookup_cons]

theorem summaryOf_toJson (hs : todo.Shaped) (index : ℕ) (prior : Option Todo) :
    summaryOf index todo.toJson todo.status prior = .ok todo.summary := by
  have hget := (get?_toJson todo).2.2.2.1
  cases hsum : todo.summary with
  | some text =>
    obtain ⟨hstrip, hne, hshort, hstatus⟩ := hs.claim text hsum
    have hclaim : claimOf index todo.toJson todo.status prior = .ok (some text) := by
      have hnull : todo.toJson.getNull "summary" = .str text := by simp [Json.getNull, hget, hsum]
      rcases hstatus with h | h <;> simp [claimOf, h, hnull, hstrip, hne, raiseIf]
    have hle : ¬ maxSummaryChars < text.length := not_lt.mpr hshort
    simp [summaryOf, hclaim, hstrip, hne, raiseIf, hle]
  | none =>
    have hstatus : todo.status ≠ .completed := fun h => by simpa [hsum] using hs.claimed h
    have hclaim : claimOf index todo.toJson todo.status prior = .ok none := by
      have hnull : todo.toJson.getNull "summary" = .null := by simp [Json.getNull, hget, hsum]
      cases h : todo.status <;> simp_all [claimOf]
    simp [summaryOf, hclaim, raiseIf]

theorem dependsOnOf_toJson (hs : todo.Shaped) (index : ℕ) :
    dependsOnOf index todo.toJson todo.id (some (todo.stored semantic)) = .ok todo.dependsOn := by
  have hget := (get?_toJson todo).2.2.2.2
  cases hd : todo.dependsOn with
  | some ds =>
    have hl : Listed todo.id ds := by
      have honce := hs.once
      have hknown := hs.known
      simp only [Todo.dependencies, hd, Option.getD_some] at honce hknown
      exact ⟨honce, hknown⟩
    have hfew : ds.length ≤ maxTodos := by simpa [Todo.dependencies, hd] using hs.few
    simp [dependsOnOf, hget, hd, dependenciesOf_listed hl hfew, Except.map]
  | none => simp [dependsOnOf, hget, hd, Todo.stored]

theorem ofText?_text (status : Status) : Status.ofText? status.text = some status := by
  cases status <;> decide

/-- An item of an accepted plan, submitted again, comes back as it is. -/
theorem step_toJson {available : Dict String Todo} {st : PlanFold} (hs : todo.Shaped)
    (hn : (idNumber? todo.id).isSome) (ha : available.get? todo.id = some (todo.stored semantic))
    (hid : todo.id ∉ st.todos.map (·.id)) (hc : todo.content ∉ st.todos.map (·.content)) :
    PlanFold.step available st todo.toJson =
      .ok { todos := st.todos ++ [todo], sequence := st.sequence } := by
  obtain ⟨hgid, hgcontent, hgstatus, -, -⟩ := get?_toJson todo
  have hkeys : (!todo.toJson.isObj || !todo.toJson.fields.all (·.1 ∈ itemKeys)) = false := by
    rw [← Bool.not_and, toJson_keys]
    rfl
  have hcontent : contentOf (st.todos.length + 1) todo.toJson (st.todos.map (·.content)) =
      .ok todo.content :=
    contentOf_eq_ok.mpr ⟨todo.content, by simp [Json.getNull, hgcontent], hs.stripped.symm,
      hs.nonempty, hs.short, hc⟩
  have hstatus : statusOf (st.todos.length + 1) todo.toJson = .ok todo.status := by
    simp [statusOf, Json.getNull, hgstatus, Json.str?, ofText?_text]
  have hidentity : identityOf (st.todos.length + 1) todo.toJson available
      (st.todos.map (·.id)) st.sequence todo.content = .ok (todo.id, st.sequence) := by
    have hn' : (idNumber? todo.id).isNone = false := by simpa [← Option.not_isSome] using hn
    have ha' : (available.get? todo.id).isNone = false := by simp [ha]
    have hnull : todo.toJson.getNull "id" = .str todo.id := by simp [Json.getNull, hgid]
    simp only [identityOf, hnull, hn', ha', Bool.false_eq_true, raiseIf_of_not not_false, ok_bind,
      raiseIf_of_not hid, pure_eq_ok]
  have hitem : itemOf (st.todos.length + 1) todo.toJson todo.id todo.content todo.status available =
      .ok todo := by
    simp [itemOf, ha, summaryOf_toJson hs, dependsOnOf_toJson hs]
  simp [PlanFold.step, hkeys, Json.hasKey, hgcontent, hgstatus, hcontent, hstatus, hidentity, hitem,
    raiseIf]

theorem fold_toJson {available : Dict String Todo} {todos : List Todo} {sequence : ℕ}
    (hids : (todos.map (·.id)).Nodup) (hcontents : (todos.map (·.content)).Nodup)
    (hshaped : ∀ todo ∈ todos, todo.Shaped)
    (hnumber : ∀ todo ∈ todos, (idNumber? todo.id).isSome)
    (ha : ∀ todo ∈ todos, available.get? todo.id = some (todo.stored semantic)) :
    (todos.map Todo.toJson).foldlM (PlanFold.step available) { sequence } =
      .ok { todos, sequence } := by
  induction todos using List.reverseRecOn with
  | nil => rfl
  | append_singleton todos todo ih =>
    rw [List.map_append, List.map_singleton, Sequence.nodup_concat] at hids hcontents
    have hfold := ih hids.2 hcontents.2 (fun t ht => hshaped t (by simp [ht]))
      (fun t ht => hnumber t (by simp [ht])) (fun t ht => ha t (by simp [ht]))
    have hlast : todo ∈ todos ++ [todo] := by simp
    rw [List.map_append, List.map_singleton, foldlM_concat_eq_ok]
    exact ⟨_, hfold, step_toJson (hshaped todo hlast) (hnumber todo hlast) (ha todo hlast) hids.1
      hcontents.1⟩

end Verbatim

/-! ## One update -/

theorem planUpdate_eq_ok {value : Json} {previous : Option (List Todo)} {next : Option ℕ}
    {todos : List Todo} {following : ℕ} :
    planUpdate value previous next = .ok (todos, following) ↔ ∃ items, value = .arr items ∧
      items.length ≤ maxTodos ∧
      items.foldlM (PlanFold.step (availableOf (previous.getD [])))
        { sequence := max (next.getD 0) (claimedSequence (previous.getD []) + 1) } =
        .ok { todos, sequence := following } ∧
      todos.countP (·.status = .in_progress) ≤ 1 ∧ validateDependencies todos = .ok () := by
  cases value with
  | arr items =>
    simp only [planUpdate, bind_eq_ok, raiseIf_eq_ok, not_lt, pure_eq_ok, Except.ok.injEq,
      Prod.mk.injEq, Json.arr.injEq]
    constructor
    · rintro ⟨_, hlen, st, hfold, _, hactive, _, hvalid, rfl, rfl⟩
      exact ⟨items, rfl, hlen, hfold, hactive, hvalid⟩
    · rintro ⟨_, rfl, hlen, hfold, hactive, hvalid⟩
      exact ⟨(), hlen, _, hfold, (), hactive, (), hvalid, rfl, rfl⟩
  | _ => simp [planUpdate]

/-- The stored plan and the sequence number stored with it. -/
structure PlanState where
  todos : List Todo
  nextTaskSeq : ℕ

/-- A chain of accepted updates, with every id that it has handed out so far. Texts are stored
as `semantic` leaves them. -/
inductive PlanReached (semantic : String → String) : Option PlanState → List String → Prop
  | start : PlanReached semantic none []
  | update {state : Option PlanState} {handed : List String} {value : Json} {todos : List Todo}
      {following : ℕ} : PlanReached semantic state handed →
      planUpdate value (state.map (·.todos)) (state.map (·.nextTaskSeq)) =
        .ok (todos, following) →
      PlanReached semantic (some ⟨todos.map (Todo.stored semantic), following⟩)
        (handed ++ newIds ((state.map (·.todos)).getD []) todos)

/-- The sequence number that the next id is minted from. -/
def sequenceOf (state : Option PlanState) : ℕ := (state.map (·.nextTaskSeq)).getD 1

def todosOf (state : Option PlanState) : List Todo := (state.map (·.todos)).getD []

/-- What a chain keeps: the ids handed out are numbered upwards, below the stored sequence. -/
structure PlanInvariant (state : Option PlanState) (handed : List String) : Prop where
  plan : Minted (todosOf state) (sequenceOf state)
  numbered : ∃ numbers : List ℕ, handed = numbers.map mintId ∧ numbers.Pairwise (· < ·) ∧
    ∀ n ∈ numbers, n < sequenceOf state

section Chain

variable {semantic : String → String} {state : Option PlanState} {handed : List String}
  {value : Json} {todos : List Todo} {following : ℕ}

theorem PlanInvariant.updated (hi : PlanInvariant state handed)
    (h : planUpdate value (state.map (·.todos)) (state.map (·.nextTaskSeq)) =
      .ok (todos, following)) : ∃ items, value = .arr items ∧ items.length ≤ maxTodos ∧
      Updated (todosOf state) (sequenceOf state) items { todos, sequence := following } := by
  obtain ⟨items, rfl, hlen, hfold, -⟩ := planUpdate_eq_ok.mp h
  refine ⟨items, rfl, hlen, Updated.fold hi.plan ?_⟩
  rw [← hi.plan.start_eq]
  cases state with
  | none => exact hfold
  | some state => exact hfold

theorem Updated.numbers {previous : List Todo} {sequence : ℕ} {items : List Json} {st : PlanFold}
    (hu : Updated previous sequence items st) (hm : Minted previous sequence) :
    Minted st.todos st.sequence := by
  refine ⟨hu.once, fun todo ht => ?_, hm.pos.trans_le hu.le⟩
  by_cases hp : todo.id ∈ previous.map (·.id)
  · obtain ⟨old, ho, hid⟩ := List.mem_map.mp hp
    obtain ⟨n, hpos, hn, hold⟩ := hm.minted old ho
    exact ⟨n, hpos, hn.trans_le hu.le, hid ▸ hold⟩
  · have hnew : todo.id ∈ newIds previous st.todos :=
      List.mem_filter.mpr ⟨List.mem_map_of_mem ht, by simpa using hp⟩
    rw [hu.fresh] at hnew
    obtain ⟨n, hn, hid⟩ := List.mem_map.mp hnew
    have hrange := List.mem_range'_1.mp hn
    have hpos := hm.pos
    have hle := hu.le
    exact ⟨n, by omega, by omega, hid.symm⟩

/-- An update goes on numbering where the chain stopped. -/
theorem PlanInvariant.numbered_update (hi : PlanInvariant state handed) {items : List Json}
    (hu : Updated (todosOf state) (sequenceOf state) items { todos, sequence := following }) :
    ∃ numbers : List ℕ, handed ++ newIds (todosOf state) todos = numbers.map mintId ∧
      numbers.Pairwise (· < ·) ∧ ∀ n ∈ numbers, n < following := by
  obtain ⟨numbers, rfl, hsorted, hbound⟩ := hi.numbered
  have hle : sequenceOf state ≤ following := hu.le
  refine ⟨numbers ++ List.range' (sequenceOf state) (following - sequenceOf state),
    by rw [List.map_append, ← hu.fresh], List.pairwise_append.mpr ⟨hsorted,
      List.pairwise_lt_range', fun a ha b hb => ?_⟩, fun n hn => ?_⟩
  · have hlt := hbound a ha
    have hrange := List.mem_range'_1.mp hb
    omega
  · rcases List.mem_append.mp hn with hn | hn
    · exact (hbound n hn).trans_le hle
    · have hrange := List.mem_range'_1.mp hn
      omega

theorem Minted.stored {previous : List Todo} {sequence : ℕ} (h : Minted previous sequence) :
    Minted (previous.map (Todo.stored semantic)) sequence := by
  refine ⟨by simpa [Function.comp_def, Todo.stored] using h.once, fun old ho => ?_, h.pos⟩
  obtain ⟨todo, ht, rfl⟩ := List.mem_map.mp ho
  exact h.minted todo ht

theorem PlanReached.invariant (h : PlanReached semantic state handed) :
    PlanInvariant state handed := by
  induction h with
  | start => exact ⟨⟨List.nodup_nil, by simp [todosOf], by decide⟩, [], rfl, .nil, by simp⟩
  | update _ hupdate ih =>
    obtain ⟨items, -, -, hu⟩ := ih.updated hupdate
    exact ⟨(hu.numbers ih.plan).stored, ih.numbered_update hu⟩

/-- The laws of an accepted update: `items` was submitted, `todos` was returned. -/
structure PlanLaws (previous : List Todo) (handed : List String) (items : List Json)
    (todos : List Todo) : Prop where
  unique : (todos.map (·.id)).Nodup
  increasing : ∃ numbers : List ℕ, handed ++ newIds previous todos = numbers.map mintId ∧
    numbers.Pairwise (· < ·)
  origins : List.Forall₂ (Origin previous) items todos
  ordered : Ordered todos
  active : todos.countP (·.status = .in_progress) ≤ 1

theorem PlanInvariant.laws (hi : PlanInvariant state handed)
    (h : planUpdate value (state.map (·.todos)) (state.map (·.nextTaskSeq)) =
      .ok (todos, following)) :
    ∃ items, value = .arr items ∧ PlanLaws (todosOf state) handed items todos := by
  obtain ⟨items, hvalue, -, hu⟩ := hi.updated h
  obtain ⟨numbers, hn, hsorted, -⟩ := hi.numbered_update hu
  obtain ⟨-, -, -, -, hactive, hvalid⟩ := planUpdate_eq_ok.mp h
  exact ⟨items, hvalue, hu.once, ⟨numbers, hn, hsorted⟩, hu.origins,
    validateDependencies_ordered hu.once hvalid, hactive⟩

/-- Submitting a plan again is accepted, unchanged, where its ids have at most four digits. -/
theorem PlanInvariant.verbatim_iff (hi : PlanInvariant state handed)
    (h : planUpdate value (state.map (·.todos)) (state.map (·.nextTaskSeq)) =
      .ok (todos, following)) :
    planUpdate (.arr (todos.map Todo.toJson)) (some (todos.map (Todo.stored semantic)))
      (some following) = .ok (todos, following) ↔
    ∀ todo ∈ todos, ∃ n ≤ 9999, todo.id = mintId n := by
  obtain ⟨items, hvalue, hlen, hu⟩ := hi.updated h
  have hminted := hu.numbers hi.plan
  have hnumber : ∀ todo ∈ todos, (idNumber? todo.id).isSome ↔ ∃ n ≤ 9999, todo.id = mintId n := by
    intro todo ht
    obtain ⟨n, hpos, -, hid⟩ := hminted.minted todo ht
    rw [hid, idNumber?_mintId hpos]
    constructor
    · intro hs
      by_cases hn : n ≤ 9999
      · exact ⟨n, hn, rfl⟩
      · simp [hn] at hs
    · rintro ⟨k, hk, he⟩
      obtain rfl := mintId_injective he
      simp [hk]
  have hagain : PlanInvariant (some ⟨todos.map (Todo.stored semantic), following⟩)
      (handed ++ newIds (todosOf state) todos) :=
    ⟨hminted.stored, hi.numbered_update hu⟩
  constructor
  · intro hv todo ht
    obtain ⟨again, he, -, hu'⟩ := hagain.updated hv
    obtain rfl := Json.arr.inj he
    have hpairs := List.forall₂_map_left_iff.mp hu'.origins
    obtain ⟨other, ho, horigin⟩ := Sequence.mem_of_forall₂ hpairs ht
    have hget : todo.toJson.getNull "id" = .str todo.id := by
      simp [Json.getNull, (get?_toJson todo).1]
    exact (hnumber todo ht).mp (horigin.named todo.id hget).2
  · intro hall
    obtain ⟨-, -, -, -, hactive, hvalid⟩ := planUpdate_eq_ok.mp h
    have hcount : todos.length = items.length := hu.origins.length_eq.symm
    refine planUpdate_eq_ok.mpr ⟨_, rfl, by simpa [hcount] using hlen, ?_, hactive, hvalid⟩
    have hstored : Minted (todos.map (Todo.stored semantic)) following := hminted.stored
    simp only [Option.getD_some]
    rw [hstored.start_eq]
    have havailable : ∀ todo ∈ todos, (availableOf (todos.map (Todo.stored semantic))).get?
        todo.id = some (todo.stored semantic) :=
      fun todo ht => hstored.get?_available.mpr ⟨List.mem_map_of_mem ht, rfl⟩
    exact fold_toJson hu.once hu.distinct hu.shaped
      (fun todo ht => (hnumber todo ht).mpr (hall todo ht)) havailable

/-- The laws of task plans, for every accepted update of every chain. -/
theorem taskPlan_identity (hr : PlanReached semantic state handed)
    (h : planUpdate value (state.map (·.todos)) (state.map (·.nextTaskSeq)) =
      .ok (todos, following)) :
    (∃ items, value = .arr items ∧ PlanLaws (todosOf state) handed items todos) ∧
    (planUpdate (.arr (todos.map Todo.toJson)) (some (todos.map (Todo.stored semantic)))
      (some following) = .ok (todos, following) ↔
    ∀ todo ∈ todos, ∃ n ≤ 9999, todo.id = mintId n) :=
  ⟨hr.invariant.laws h, hr.invariant.verbatim_iff h⟩

end Chain

/-! ## Past the last id that the pattern matches -/

/-- A plan with one new task. -/
def newTask : Json := .arr [Json.obj [("content", .str "a"), ("status", .str "pending")]]

theorem planUpdate_newTask {n : ℕ} (hn : 0 < n) : planUpdate newTask (some []) (some n) =
    .ok ([⟨mintId n, "a", .pending, none, none⟩], n + 1) := by
  have hstart : max n (claimedSequence [] + 1) = n := max_eq_left hn
  refine planUpdate_eq_ok.mpr ⟨_, rfl, by decide, ?_, by simp, ?_⟩
  · simp only [Option.getD_some, hstart]
    rfl
  · simp [validateDependencies, Search.visitAll, Search.visit, dependenciesById,
      Todo.dependencies, Todo.unmet, raiseIf, Except.map, pure, Except.pure]

theorem planUpdate_clear {n : ℕ} {todos : List Todo} (h : Minted todos n) :
    planUpdate (.arr []) (some todos) (some n) = .ok ([], n) := by
  refine planUpdate_eq_ok.mpr ⟨[], rfl, by decide, ?_, by decide, rfl⟩
  simp only [Option.getD_some, h.start_eq]
  rfl

/-- Adding a task and clearing the plan, over and over, uses up every id. -/
theorem cleared_reached (n : ℕ) :
    ∃ handed, PlanReached id (some ⟨[], n + 1⟩) handed := by
  induction n with
  | zero =>
    have hempty : planUpdate (.arr []) none none = .ok ([], 1) := rfl
    exact ⟨_, .update .start hempty⟩
  | succ n ih =>
    obtain ⟨handed, hr⟩ := ih
    have hadded := PlanReached.update hr (planUpdate_newTask n.succ_pos)
    exact ⟨_, .update hadded (planUpdate_clear hadded.invariant.plan)⟩

/-- The plan with task `t10000` cannot be submitted again. -/
theorem taskPlan_verbatim_false :
    ¬ ∀ (state : Option PlanState) (handed : List String) (value : Json) (todos : List Todo)
      (following : ℕ), PlanReached id state handed →
      planUpdate value (state.map (·.todos)) (state.map (·.nextTaskSeq)) =
        .ok (todos, following) →
      planUpdate (.arr (todos.map Todo.toJson)) (some (todos.map (Todo.stored id)))
        (some following) = .ok (todos, following) := by
  intro hall
  obtain ⟨handed, hr⟩ := cleared_reached 9999
  have hadded := planUpdate_newTask (show 0 < 10000 by decide)
  have hverbatim := hall (some ⟨[], 10000⟩) handed newTask _ _ hr hadded
  obtain ⟨n, hn, hid⟩ := (hr.invariant.verbatim_iff hadded).mp hverbatim _ (List.mem_singleton_self _)
  have hten : 10000 = n := mintId_injective hid
  omega

def sampleItem (content status : String) (more : List (String × Json)) : Json :=
  .obj ([("content", .str content), ("status", .str status)] ++ more)

def firstPlan : Json :=
  .arr [sampleItem "read" "pending" [], sampleItem "write" "in_progress" [],
    sampleItem "tidy" "pending" []]

def firstTodos : List Todo :=
  [⟨"t1", "read", .pending, none, none⟩, ⟨"t2", "write", .in_progress, none, none⟩,
   ⟨"t3", "tidy", .pending, none, none⟩]

/-- It drops the first task, goes on with the others and adds one. -/
def secondPlan : Json :=
  .arr [sampleItem "write" "completed" [("summary", .str "written")],
    sampleItem "check" "in_progress" [("depends_on", .arr [.str "t2"])],
    sampleItem "tidied" "pending" [("id", .str "t3"), ("depends_on", .arr [.str "t2"])]]

def secondTodos : List Todo :=
  [⟨"t2", "write", .completed, some "written", none⟩,
   ⟨"t4", "check", .in_progress, none, some ["t2"]⟩,
   ⟨"t3", "tidied", .pending, none, some ["t2"]⟩]

theorem taskPlan_identity_second :
    (∃ items, secondPlan = .arr items ∧
      PlanLaws (firstTodos.map (Todo.stored id)) ["t1", "t2", "t3"] items secondTodos) ∧
    planUpdate (.arr (secondTodos.map Todo.toJson)) (some (secondTodos.map (Todo.stored id)))
      (some 5) = .ok (secondTodos, 5) := by
  have hfirst : planUpdate firstPlan none none = .ok (firstTodos, 4) := rfl
  have hreached : PlanReached id (some ⟨firstTodos.map (Todo.stored id), 4⟩) ["t1", "t2", "t3"] :=
    .update .start hfirst
  have hsecond : planUpdate secondPlan (some (firstTodos.map (Todo.stored id))) (some 4) =
      .ok (secondTodos, 5) := rfl
  obtain ⟨hlaws, hverbatim⟩ := taskPlan_identity hreached hsecond
  have hids : ∀ todo ∈ secondTodos, todo.id ∈ [2, 3, 4].map mintId := by decide
  refine ⟨hlaws, hverbatim.mpr fun todo ht => ?_⟩
  obtain ⟨n, hn, hid⟩ := List.mem_map.mp (hids todo ht)
  have hsmall : ∀ n ∈ [2, 3, 4], n ≤ 9999 := by decide
  exact ⟨n, hsmall n hn, hid.symm⟩

end Eventide.TaskPlan
