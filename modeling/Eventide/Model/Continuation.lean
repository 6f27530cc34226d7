import Eventide.Model.Store

/-! # Continued runs

A turn names the run that it continues. -/

namespace Eventide

namespace RuntimeStore

/-- A visited run is one less to visit. -/
theorem unseen_lt {s : RuntimeStore} {seen : List String} {runId : String}
    (hseen : runId ∉ seen) (h : ∃ run ∈ s.runs, run.id = runId) :
    (s.runs.filter fun run => run.id ∉ runId :: seen).length <
      (s.runs.filter fun run => run.id ∉ seen).length := by
  obtain ⟨run, hmem, hid⟩ := h
  have hsplit : s.runs.filter (fun run => run.id ∉ runId :: seen) =
      (s.runs.filter fun run => run.id ∉ seen).filter fun run => run.id ≠ runId := by
    rw [List.filter_filter]
    apply List.filter_congr
    intro other _
    simp
  rw [hsplit, List.length_filter_lt_length_iff_exists]
  exact ⟨run, List.mem_filter.mpr ⟨hmem, by simpa [hid] using hseen⟩, by simp [hid]⟩

theorem mem_of_getRunIdentity {s : RuntimeStore} {runId : String} {identity : Run × Option String}
    (h : s.getRunIdentity runId = some identity) : ∃ run ∈ s.runs, run.id = runId := by
  obtain ⟨run, hrun, -⟩ := Option.bind_eq_some_iff.mp h
  exact ⟨run, List.mem_of_find?_eq_some hrun, by simpa using List.find?_some hrun⟩

variable {s : RuntimeStore}

/-- The runs that a run continues, itself first. -/
def chain (s : RuntimeStore) (seen : List String) (runId : String) : List String :=
  if _ : runId = "" ∨ runId ∈ seen then []
  else
    match _ : s.getRunIdentity runId with
    | none => []
    | some identity => runId :: chain s (runId :: seen) (identity.2.getD "")
termination_by (s.runs.filter fun run => run.id ∉ seen).length
decreasing_by
  rename_i hseen hrun
  exact unseen_lt (fun h => hseen (.inr h)) (mem_of_getRunIdentity hrun)

theorem chain_seen {seen : List String} {runId : String} (h : runId = "" ∨ runId ∈ seen) :
    chain s seen runId = [] := by
  rw [chain, dif_pos h]

theorem chain_missing {seen : List String} {runId : String} (h : ¬(runId = "" ∨ runId ∈ seen))
    (hrun : s.getRunIdentity runId = none) : chain s seen runId = [] := by
  rw [chain, dif_neg h]
  split
  · rfl
  · rename_i hsome
    rw [hrun] at hsome
    cases hsome

theorem chain_step {seen : List String} {runId : String} {identity : Run × Option String}
    (h : ¬(runId = "" ∨ runId ∈ seen)) (hrun : s.getRunIdentity runId = some identity) :
    chain s seen runId = runId :: chain s (runId :: seen) (identity.2.getD "") := by
  rw [chain, dif_neg h]
  split
  · rename_i hnone
    rw [hrun] at hnone
    cases hnone
  · rename_i other hsome
    rw [hrun] at hsome
    rw [Option.some.inj hsome]

theorem chain_exists {seen : List String} {runId : String} :
    ∀ run ∈ chain s seen runId, ∃ identity, s.getRunIdentity run = some identity := by
  induction seen, runId using chain.induct s with
  | case1 seen runId hseen =>
    rw [chain_seen hseen]
    exact fun run hmem => nomatch hmem
  | case2 seen runId hseen hrun =>
    rw [chain_missing hseen hrun]
    exact fun run hmem => nomatch hmem
  | case3 seen runId hseen identity hrun ih =>
    rw [chain_step hseen hrun]
    exact List.forall_mem_cons.mpr ⟨⟨identity, hrun⟩, ih⟩

end RuntimeStore

end Eventide
