import Eventide.Model.Delegation
import Eventide.Verification.Store.Growth

/-! # The history of the delegations

Every admission that counts, of any run of the chain, is in the history, so a batch that is accepted
repeats none of them. -/

namespace Eventide

open Outcome RuntimeStore

namespace Delegation

variable {s : RuntimeStore}

/-- An admission counts with a fingerprint. -/
def Counts (s : RuntimeStore) (runId : String) (event : Event) (signature : String) : Prop :=
  ∃ callId, recognized (delegateCalls s runId) event.payload = some (signature, callId)

/-! ## One run -/

theorem foldl_keeps {calls : List String} {runId signature : String} {events : List Event}
    {history : History}
    (h : signature ∈ history.keys ∨ ∃ event ∈ events, ∃ callId,
      recognized calls event.payload = some (signature, callId)) :
    signature ∈ (events.foldl (fun history event =>
      match recognized calls event.payload with
      | some (signature, callId) => history.setDefault signature ⟨runId, callId, event.runId⟩
      | none => history) history).keys := by
  induction events generalizing history with
  | nil =>
    rcases h with h | ⟨event, hmem, -⟩
    · exact h
    · cases hmem
  | cons event events ih =>
    rw [List.foldl_cons]
    apply ih
    rcases h with h | ⟨other, hmem, callId, hcounts⟩
    · refine .inl ?_
      cases hevent : recognized calls event.payload with
      | none => exact h
      | some found =>
        rw [Dict.keys_setDefault]
        split
        · exact h
        · exact List.mem_append_left _ h
    · rcases List.mem_cons.mp hmem with rfl | hmem
      · refine .inl ?_
        rw [hcounts, Dict.keys_setDefault]
        split
        · assumption
        · exact List.mem_append_right _ List.mem_cons_self
      · exact .inr ⟨other, hmem, callId, hcounts⟩

theorem mem_addAdmissions {runId signature : String} {history : History}
    (h : signature ∈ history.keys ∨
      ∃ event ∈ workerAdmissions s runId, Counts s runId event signature) :
    signature ∈ (addAdmissions s runId history).keys :=
  foldl_keeps h

/-! ## The chain -/

theorem collectHistory_step {sessionId runId : String} {seen : List String} {history : History}
    {identity : Run × Option String} (hseen : runId ∉ seen)
    (hidentity : s.getRunIdentity runId = some identity) :
    collectHistory s sessionId seen history runId =
      if identity.1.sessionId ≠ sessionId then
        .error (.value "Worker continuation crosses Session boundary")
      else
        match givenRun identity.2 with
        | none => .ok (addAdmissions s runId history)
        | some source =>
          collectHistory s sessionId (runId :: seen) (addAdmissions s runId history) source := by
  rw [collectHistory, dif_neg hseen]
  split
  · rename_i hnone
    rw [hidentity] at hnone
    cases hnone
  · rename_i other hsome
    rw [hidentity] at hsome
    obtain rfl := Option.some.inj hsome
    rfl

theorem collectHistory_spec {sessionId runId : String} {seen : List String}
    {history found : History} (hne : runId ≠ "")
    (h : collectHistory s sessionId seen history runId = .ok found) {signature : String}
    (hsignature : signature ∈ history.keys ∨ ∃ run ∈ s.chain seen runId,
      ∃ event ∈ workerAdmissions s run, Counts s run event signature) :
    signature ∈ found.keys := by
  induction seen, history, runId using collectHistory.induct s sessionId with
  | case1 seen history runId hseen =>
    rw [collectHistory, dif_pos hseen] at h
    obtain rfl := Except.ok.inj h
    rw [chain_seen (.inr hseen)] at hsignature
    exact hsignature.resolve_right fun ⟨_, hmem, _⟩ => nomatch hmem
  | case2 seen history runId hseen hnone =>
    rw [collectHistory, dif_neg hseen] at h
    rw [chain_missing (not_or.mpr ⟨hne, hseen⟩) hnone] at hsignature
    split at h
    · obtain rfl := Except.ok.inj h
      exact hsignature.resolve_right fun ⟨_, hmem, _⟩ => nomatch hmem
    · rename_i hsome
      rw [hnone] at hsome
      cases hsome
  | case3 seen history runId hseen identity hidentity hcross =>
    rw [collectHistory_step hseen hidentity, if_pos hcross] at h
    cases h
  | case4 seen history runId hseen identity hidentity hsame hlast =>
    rw [collectHistory_step hseen hidentity, if_neg hsame, hlast] at h
    obtain rfl := Except.ok.inj h
    have hend : identity.2.getD "" = "" := by
      cases hsource : identity.2 with
      | none => rfl
      | some source =>
        rw [hsource, givenRun] at hlast
        exact of_not_not fun hne' => Option.some_ne_none _ ((if_neg hne').symm.trans hlast)
    rw [chain_step (not_or.mpr ⟨hne, hseen⟩) hidentity, hend, chain_seen (.inl rfl)] at hsignature
    apply mem_addAdmissions
    refine hsignature.imp_right ?_
    rintro ⟨run, hmem, hcounts⟩
    obtain rfl := List.mem_singleton.mp hmem
    exact hcounts
  | case5 seen history runId hseen identity hidentity hsame source hsource ih =>
    rw [collectHistory_step hseen hidentity, if_neg hsame, hsource] at h
    obtain ⟨hidentity', hsource'⟩ := givenRun_eq_some.mp hsource
    rw [chain_step (not_or.mpr ⟨hne, hseen⟩) hidentity, hidentity', Option.getD_some] at hsignature
    apply ih hsource' h
    rcases hsignature with hold | ⟨run, hmem, hcounts⟩
    · exact .inl (mem_addAdmissions (.inl hold))
    · rcases List.mem_cons.mp hmem with rfl | hmem
      · exact .inl (mem_addAdmissions (.inr hcounts))
      · exact .inr ⟨run, hmem, hcounts⟩

theorem delegationHistory_spec {runId : String} {history : History} (hne : runId ≠ "")
    (h : delegationHistory s runId = .ok history) {run : String} (hrun : run ∈ s.chain [] runId)
    {event : Event} (hevent : event ∈ workerAdmissions s run) {signature : String}
    (hcounts : Counts s run event signature) : signature ∈ history.keys := by
  rw [delegationHistory] at h
  split at h
  · cases h
  · exact collectHistory_spec hne h (.inr ⟨run, hrun, event, hevent, hcounts⟩)

/-! ## The batch -/

/-- What the check of a batch lets through. -/
structure Accepted (digest : Json → HexDigest) (s : RuntimeStore) (runId : String)
    (goals : List WorkerTask) (snapshots : List SourceSnapshot) (children : List Child)
    (prepared : Json) : Prop where
  signed : children = signed digest goals snapshots
  length : children.length = goals.length
  distinct : (children.map (·.signature)).Nodup
  fresh : ∃ history, delegationHistory s runId = .ok history ∧
    ∀ child ∈ children, child.signature ∉ history.keys
  called : ∃ event ∈ s.runEvents runId, isDelegateCall event = true ∧ event.payload = prepared

theorem lastPrepared_spec {runId : String} {prepared : Json}
    (h : lastPrepared s runId = some prepared) :
    ∃ event ∈ s.runEvents runId, event.type = .toolPrepared ∧ event.isPartial = false ∧
      event.payload = prepared := by
  obtain ⟨event, hevent, rfl⟩ := Option.map_eq_some_iff.mp h
  have hmem := List.mem_reverse.mp (List.mem_of_find?_eq_some hevent)
  have hkind := List.find?_some hevent
  simp only [decide_eq_true_eq, Bool.not_eq_true'] at hkind
  exact ⟨event, hmem, hkind.1, hkind.2, rfl⟩

theorem checkBatch_accepted {digest : Json → HexDigest} {runId : String}
    {goals : List WorkerTask} {snapshots : List SourceSnapshot} {children : List Child}
    {prepared : Json}
    (h : checkBatch digest s runId goals snapshots = .ok (.accepted children prepared)) :
    Accepted digest s runId goals snapshots children prepared := by
  obtain ⟨_, hlength, h⟩ := bind_eq_ok.mp h
  obtain ⟨_, -, h⟩ := bind_eq_ok.mp h
  obtain ⟨history, hhistory, h⟩ := bind_eq_ok.mp h
  dsimp only at h
  split at h
  · cases Except.ok.inj h
  · rename_i hno
    obtain ⟨hduplicates, hdistinct⟩ := not_or.mp hno
    cases hprepared : lastPrepared s runId with
    | none =>
      rw [hprepared] at h
      cases h
    | some payload =>
      rw [hprepared] at h
      obtain ⟨_, hname, h⟩ := bind_eq_ok.mp h
      obtain ⟨rfl, rfl⟩ := Checked.accepted.inj (Except.ok.inj h)
      have hlength' := not_not.mp (raiseIf_eq_ok.mp hlength)
      refine ⟨rfl, ?_, not_not.mp hdistinct, ⟨history, hhistory, fun child hchild hmem => ?_⟩, ?_⟩
      · rw [signed, List.length_zipWith, hlength', min_self]
      · obtain ⟨existing, hexisting⟩ := Option.isSome_iff_exists.mp (Dict.mem_keys.mp hmem)
        have hfound : existing ∈ (signed digest goals snapshots).filterMap fun child =>
            history.get? child.signature := List.mem_filterMap.mpr ⟨child, hchild, hexisting⟩
        rw [List.isEmpty_iff.mp (not_not.mp hduplicates)] at hfound
        cases hfound
      · obtain ⟨event, hevent, htype, hwhole, hpayload⟩ := lastPrepared_spec hprepared
        refine ⟨event, hevent, ?_, hpayload⟩
        have hcall := not_not.mp (raiseIf_eq_ok.mp hname)
        simp only [isDelegateCall, htype, hwhole, hpayload, hcall]
        rfl

end Delegation

end Eventide
