import Eventide.Model.Experiments

/-! # What the reports of an arm are read as

The calls of the evidence are the rows of the reports in their order, and no two of them have one
key, whatever was read before them. -/

namespace Eventide

open Outcome

namespace Experiments

/-- The key of a row that is read. -/
def rowKey (row : Json) : Option (String × String) := do
  let runId ← nonempty? (row.get? "run_id")
  let attemptId ← nonempty? (row.get? "attempt_id")
  return (runId, attemptId)

/-- The rows of a case that brings usage evidence. -/
def caseRows (case : Json) : List Json :=
  (((case.get? "evidence").getD (.obj [])).get? "usage").elim [] fun usage =>
    ((usage.get? "calls").bind Json.arr?).getD []

def results (report : Json) : List Json := ((report.get? "results").bind Json.arr?).getD []

def reportRows (report : Json) : List Json := (results report).flatMap caseRows

/-- A call as it was read: its key is that of its row, and its snapshot is what the row says. -/
structure Call.Reads (call : Call) (row : Json) : Prop where
  key : rowKey row = some call.key
  basis : call.basis = (row.get? "usage_basis").getD (.str "input_output")
  snapshot : usageSnapshot (row.getNull "usage") (row.getNull "usage_source") call.basis =
    .ok call.snapshot
  row : call.row = row

theorem object_eq_ok {value result : Json} {name : String} (h : object value name = .ok result) :
    value.isObj = true ∧ value = result := by
  obtain ⟨_, hobj, h⟩ := bind_eq_ok.mp h
  rw [raiseIf_eq_ok, Bool.not_eq_false] at hobj
  exact ⟨hobj, Except.ok.inj h⟩

/-- A row that is read is new, and is read by itself. -/
theorem readRow_eq_ok {calls own : List Call} {row : Json} {call : Call}
    (h : readRow calls own row = .ok call) :
    call.Reads row ∧ ∀ other ∈ calls, other.key ≠ call.key := by
  obtain ⟨row', hrow, h⟩ := bind_eq_ok.mp h
  obtain ⟨-, rfl⟩ := object_eq_ok hrow
  split at h
  · rename_i runId attemptId hrun hattempt
    obtain ⟨_, hnew, h⟩ := bind_eq_ok.mp h
    obtain ⟨snapshot, hsnapshot, h⟩ := bind_eq_ok.mp h
    obtain ⟨_, -, h⟩ := bind_eq_ok.mp h
    obtain rfl := Except.ok.inj h
    rw [raiseIf_eq_ok, not_or] at hnew
    refine ⟨⟨?_, rfl, hsnapshot, rfl⟩, fun other hother heq => hnew.1 ⟨other, hother, heq⟩⟩
    rw [rowKey, hrun, hattempt]
    rfl
  · cases h

theorem readRows_eq_ok {calls own : List Call} {rows : List Json}
    (h : readRows calls rows = .ok own) :
    List.Forall₂ Call.Reads own rows ∧
      ((calls.map Call.key).Nodup → ((calls ++ own).map Call.key).Nodup) := by
  unfold readRows at h
  induction rows using List.reverseRecOn generalizing own with
  | nil =>
    obtain rfl := Except.ok.inj h
    exact ⟨.nil, by simp⟩
  | append_singleton rows row ih =>
    obtain ⟨before, hbefore, h⟩ := foldlM_concat_eq_ok.mp h
    obtain ⟨call, hcall, h⟩ := bind_eq_ok.mp h
    obtain rfl := Except.ok.inj h
    obtain ⟨hreads, hnodup⟩ := ih hbefore
    obtain ⟨hread, hnew⟩ := readRow_eq_ok hcall
    refine ⟨List.rel_append hreads (.cons hread .nil), fun hcalls => ?_⟩
    rw [← List.append_assoc, List.map_append, List.map_singleton, Sequence.nodup_concat]
    refine ⟨fun hm => ?_, hnodup hcalls⟩
    obtain ⟨other, hother, heq⟩ := List.mem_map.mp hm
    exact hnew other hother heq

/-- What more reports add to the evidence. -/
structure Grows (st : Evidence) (cases rows : List Json) (st' : Evidence) : Prop where
  cases : st'.cases = st.cases ++ cases
  calls : ∃ own, st'.calls = st.calls ++ own ∧ List.Forall₂ Call.Reads own rows
  nodup : (st.calls.map Call.key).Nodup → (st'.calls.map Call.key).Nodup

theorem Grows.refl (st : Evidence) : Grows st [] [] st :=
  ⟨(List.append_nil _).symm, ⟨[], (List.append_nil _).symm, .nil⟩, id⟩

theorem Grows.trans {st mid last : Evidence} {cases rows cases' rows' : List Json}
    (h : Grows st cases rows mid) (h' : Grows mid cases' rows' last) :
    Grows st (cases ++ cases') (rows ++ rows') last where
  cases := by rw [h'.cases, h.cases, List.append_assoc]
  calls := by
    obtain ⟨own, hown, hreads⟩ := h.calls
    obtain ⟨own', hown', hreads'⟩ := h'.calls
    exact ⟨own ++ own', by rw [hown', hown, List.append_assoc], List.rel_append hreads hreads'⟩
  nodup := fun hn => h'.nodup (h.nodup hn)

/-- A case that is read has its id and its mark. -/
structure ReadCase (case : Json) : Prop where
  id : ((case.get? "id").bind Json.str?).isSome = true
  passed : ∃ mark, case.getNull "passed" = .bool mark

theorem readCase_eq_ok {st st' : Evidence} {case : Json} (h : readCase st case = .ok st') :
    Grows st [case] (caseRows case) st' ∧ ReadCase case := by
  obtain ⟨case', hcase, h⟩ := bind_eq_ok.mp h
  obtain ⟨-, rfl⟩ := object_eq_ok hcase
  obtain ⟨_, hread, h⟩ := bind_eq_ok.mp h
  obtain ⟨evidence, hevidence, h⟩ := bind_eq_ok.mp h
  obtain ⟨-, rfl⟩ := object_eq_ok hevidence
  have hvalid : ReadCase case := by
    rw [raiseIf_eq_ok, not_or] at hread
    refine ⟨Option.isSome_iff_ne_none.mpr fun hc => hread.1 (by rw [hc]; rfl), ?_⟩
    cases hpassed : case.getNull "passed" with
    | bool mark => exact ⟨mark, rfl⟩
    | _ => exact absurd rfl (hpassed ▸ hread.2)
  refine ⟨?_, hvalid⟩
  unfold caseRows
  split at h
  · rename_i hnone
    obtain rfl := Except.ok.inj h
    rw [hnone]
    exact ⟨rfl, ⟨[], (List.append_nil _).symm, .nil⟩, id⟩
  · rename_i usage husage
    obtain ⟨ledger, hledger, h⟩ := bind_eq_ok.mp h
    obtain ⟨-, rfl⟩ := object_eq_ok hledger
    split at h
    · rename_i rows hrows
      obtain ⟨_, -, h⟩ := bind_eq_ok.mp h
      obtain ⟨_, -, h⟩ := bind_eq_ok.mp h
      obtain ⟨_, -, h⟩ := bind_eq_ok.mp h
      obtain ⟨own, hown, h⟩ := bind_eq_ok.mp h
      obtain ⟨_, -, h⟩ := bind_eq_ok.mp h
      obtain ⟨_, -, h⟩ := bind_eq_ok.mp h
      obtain ⟨_, -, h⟩ := bind_eq_ok.mp h
      obtain rfl := Except.ok.inj h
      obtain ⟨hreads, hnodup⟩ := readRows_eq_ok hown
      rw [husage]
      refine ⟨rfl, ⟨own, rfl, ?_⟩, hnodup⟩
      rw [Option.elim_some, hrows]
      exact hreads
    · cases h

theorem foldlM_readCase {st st' : Evidence} {cases : List Json}
    (h : cases.foldlM readCase st = .ok st') :
    Grows st cases (cases.flatMap caseRows) st' ∧ ∀ case ∈ cases, ReadCase case := by
  induction cases generalizing st with
  | nil =>
    obtain rfl := Except.ok.inj h
    exact ⟨.refl st, fun _ hc => absurd hc List.not_mem_nil⟩
  | cons case cases ih =>
    rw [List.foldlM_cons] at h
    obtain ⟨mid, hcase, h⟩ := bind_eq_ok.mp h
    obtain ⟨hgrow, hread⟩ := readCase_eq_ok hcase
    obtain ⟨hrest, hall⟩ := ih h
    exact ⟨hgrow.trans hrest, List.forall_mem_cons.mpr ⟨hread, hall⟩⟩

theorem checkReport_eq_ok {report : Json} {cases : List Json}
    (h : checkReport report = .ok cases) : cases = results report := by
  obtain ⟨_, -, h⟩ := bind_eq_ok.mp h
  split at h
  · rename_i items hitems
    obtain ⟨_, -, h⟩ := bind_eq_ok.mp h
    obtain ⟨_, -, h⟩ := bind_eq_ok.mp h
    obtain ⟨_, -, h⟩ := bind_eq_ok.mp h
    obtain ⟨_, -, h⟩ := bind_eq_ok.mp h
    obtain ⟨_, -, h⟩ := bind_eq_ok.mp h
    obtain ⟨_, -, h⟩ := bind_eq_ok.mp h
    obtain ⟨_, -, h⟩ := bind_eq_ok.mp h
    obtain rfl := Except.ok.inj h
    rw [results, hitems]
    rfl
  · cases h

/-- Reports that are read, from whatever evidence there is. -/
theorem foldlM_readReports {st st' : Evidence} {reports : List Json}
    (h : reports.foldlM (fun st report => do
      let cases ← checkReport report
      cases.foldlM readCase st) st = .ok st') :
    Grows st (reports.flatMap results) (reports.flatMap reportRows) st' ∧
      ∀ case ∈ reports.flatMap results, ReadCase case := by
  induction reports generalizing st with
  | nil =>
    obtain rfl := Except.ok.inj h
    exact ⟨.refl st, fun _ hc => absurd hc List.not_mem_nil⟩
  | cons report reports ih =>
    rw [List.foldlM_cons] at h
    obtain ⟨mid, hreport, h⟩ := bind_eq_ok.mp h
    obtain ⟨cases, hcases, hreport⟩ := bind_eq_ok.mp hreport
    obtain rfl := checkReport_eq_ok hcases
    obtain ⟨hgrow, hread⟩ := foldlM_readCase hreport
    obtain ⟨hrest, hall⟩ := ih h
    refine ⟨?_, ?_⟩
    · rw [List.flatMap_cons, List.flatMap_cons]
      exact hgrow.trans hrest
    · rw [List.flatMap_cons]
      intro case hc
      rcases List.mem_append.mp hc with hc | hc
      · exact hread case hc
      · exact hall case hc

/-- The evidence of reports. -/
structure Evidence.Of (evidence : Evidence) (reports : List Json) : Prop where
  cases : evidence.cases = reports.flatMap results
  calls : List.Forall₂ Call.Reads evidence.calls (reports.flatMap reportRows)
  nodup : (evidence.calls.map Call.key).Nodup
  read : ∀ case ∈ evidence.cases, ReadCase case

theorem readReports_eq_ok {reports : List Json} {evidence : Evidence}
    (h : readReports reports = .ok evidence) : evidence.Of reports := by
  obtain ⟨_, -, h⟩ := bind_eq_ok.mp h
  obtain ⟨hgrow, hread⟩ := foldlM_readReports h
  obtain ⟨own, hown, hreads⟩ := hgrow.calls
  have hcases : evidence.cases = reports.flatMap results := hgrow.cases
  obtain rfl : evidence.calls = own := hown
  exact ⟨hcases, hreads, hgrow.nodup List.nodup_nil, hcases ▸ hread⟩

/-- The keys of the evidence are those of the rows. -/
theorem Evidence.Of.keys {evidence : Evidence} {reports : List Json} (h : evidence.Of reports) :
    evidence.calls.map (fun call => some call.key) = (reports.flatMap reportRows).map rowKey := by
  have hcalls := h.calls
  generalize evidence.calls = calls at hcalls ⊢
  generalize reports.flatMap reportRows = rows at hcalls ⊢
  induction hcalls with
  | nil => rfl
  | cons hread _ ih => rw [List.map_cons, List.map_cons, hread.key, ih]

/-- Reports that are read together share no attempt. -/
theorem readReports_disjoint {before after : List Json} {all base next : Evidence}
    (hall : readReports (before ++ after) = .ok all) (hbase : readReports before = .ok base)
    (hnext : readReports after = .ok next) : ∀ x ∈ base.calls, ∀ y ∈ next.calls, x.key ≠ y.key := by
  have hkeys := (readReports_eq_ok hall).keys
  rw [List.flatMap_append, List.map_append, ← (readReports_eq_ok hbase).keys,
    ← (readReports_eq_ok hnext).keys] at hkeys
  have hnodup : (all.calls.map fun call => some call.key).Nodup := by
    rw [show (all.calls.map fun call => some call.key) = (all.calls.map Call.key).map some by
      rw [List.map_map]; rfl]
    exact (readReports_eq_ok hall).nodup.map (Option.some_injective _)
  rw [hkeys] at hnodup
  intro x hx y hy heq
  exact (List.disjoint_of_nodup_append hnodup) (List.mem_map_of_mem hx)
    (List.mem_map.mpr ⟨y, hy, by rw [heq]⟩)

end Experiments

end Eventide
