import Eventide.Verification.ModelCalls.Steps

/-! # The facts that a call writes of an attempt -/

namespace Eventide.ModelCalls

open Outcome

theorem get?_fields (value : Json) (key : String) : value.fields.lookup key = value.get? key := by
  cases value with
  | obj fields => rfl
  | _ => rfl

theorem get?_merge (left right : Json) (key : String) :
    (left.merge right).get? key = (right.get? key).or (left.get? key) := by
  unfold Json.merge
  rw [Json.get?_obj, List.lookup_append, get?_fields, get?_fields]

variable {c : CallConfig} {requestId attemptId callKind : String} {attempt : ℕ}

theorem identity_attemptId :
    (identity c requestId attemptId callKind attempt).get? "attempt_id" =
      some (.str attemptId) := by
  simp [identity, List.lookup_cons]

theorem identity_attempt :
    (identity c requestId attemptId callKind attempt).get? "attempt" =
      some (Json.ofNat attempt) := by
  simp [identity, List.lookup_cons]

/-- A key that `identity` does not write. -/
theorem identity_none {key : String} (h : key ∉ ["request_id", "attempt_id", "attempt", "kind",
    "model", "generation", "max_output_tokens", "provider", "phase", "evaluation_origin"]) :
    (identity c requestId attemptId callKind attempt).get? key = none := by
  rw [identity, Json.get?_obj]
  refine Dict.lookup_eq_none_of_not_mem fun hmem => h ?_
  obtain ⟨⟨name, value⟩, hp, rfl⟩ := List.mem_map.mp hmem
  rcases List.mem_append.mp hp with hp | hp
  · rcases List.mem_append.mp hp with hp | hp
    · simp only [List.mem_cons, Prod.mk.injEq, List.not_mem_nil, or_false] at hp
      rcases hp with h | h | h | h | h | h | h | h <;> simp [h.1]
    · obtain ⟨phase, -, hphase⟩ := List.mem_map.mp hp
      simp [← (Prod.mk.inj hphase).1]
  · obtain ⟨origin, -, horigin⟩ := List.mem_map.mp hp
    simp [← (Prod.mk.inj horigin).1]

/-! ## What the ledger makes of a finish fact -/

/-- A finish fact of the attempt that keeps the basis of its reservation. -/
structure Finishes (finished : Json) (id : String) (number : ℕ) : Prop where
  attemptId : finished.get? "attempt_id" = some (.str id)
  attempt : finished.get? "attempt" = some (Json.ofNat number)
  basis : finished.get? "usage_basis" = none

theorem Finishes.merge {result : List (String × Json)}
    (hid : result.lookup "attempt_id" = none) (hnumber : result.lookup "attempt" = none)
    (hbasis : result.lookup "usage_basis" = none) :
    Finishes ((identity c requestId attemptId callKind attempt).merge (.obj result)) attemptId
      attempt := by
  refine ⟨?_, ?_, ?_⟩
  · rw [get?_merge, Json.get?_obj, hid, Option.none_or, identity_attemptId]
  · rw [get?_merge, Json.get?_obj, hnumber, Option.none_or, identity_attempt]
  · rw [get?_merge, Json.get?_obj, hbasis, Option.none_or, identity_none (by simp)]

theorem finishes_failed {exc : CallError} {started stopped : ℚ} :
    Finishes (failedIdentity (identity c requestId attemptId callKind attempt) exc started
      stopped) attemptId attempt :=
  .merge rfl rfl rfl

/-- The finish fact of a recordable response. -/
theorem completedIdentity_of_recordable {response : ModelResponse} (h : Recordable response)
    (identity : Json) (started stopped : ℚ) :
    ∃ usage stopReason, response.reported? = some usage ∧ Named usage ∧
      response.stopReason.string? = some stopReason ∧
      completedIdentity identity response started stopped = some (identity.merge (.obj
        [("status", .str "completed"), ("usage", countersJson usage),
          ("usage_source", .str (if response.usage.entries = [] then "unknown" else "reported")),
          ("stop_reason", .str stopReason), ("duration_ms", durationMs started stopped)])) := by
  obtain ⟨usage, husage, hnamed⟩ := h.reported
  obtain ⟨stopReason, hstop⟩ := Option.isSome_iff_exists.mp h.stopReason
  exact ⟨usage, stopReason, husage, hnamed, hstop, by simp [completedIdentity, husage, hstop]⟩

theorem Finishes.otherBasis {finished : Json} {id : String} {number : ℕ}
    (h : Finishes finished id number) : otherBasis finished "input_output" = false := by
  simp [Eventide.otherBasis, h.basis, Json.pyEq]

/-- The counters that a fact reports. -/
def reportedBy (finished : Json) (usage : Option (Dict String ℕ)) : Prop :=
  finished.get? "usage" = usage.map countersJson

theorem reportedBy_failed {exc : CallError} {started stopped : ℚ} :
    reportedBy (failedIdentity (identity c requestId attemptId callKind attempt) exc started
      stopped) none := by
  unfold reportedBy failedIdentity
  rw [get?_merge, identity_none (by simp)]
  rfl

theorem checkCounters_countersJson {usage : Dict String ℕ} (h : Named usage) :
    checkCounters (Dict.ofLookup (countersJson usage).fields) = .ok usage := by
  have hentries : (Dict.ofLookup (countersJson usage).fields).entries =
      usage.entries.map fun p => (p.1, Json.ofNat p.2) := by
    have hnodup : ((usage.entries.map fun p => (p.1, Json.ofNat p.2)).map Prod.fst).Nodup := by
      rw [List.map_map]
      exact usage.nodup
    exact congrArg Dict.entries (Dict.ofLookup_entries ⟨_, hnodup⟩)
  have hcheck : ∀ entries : List (String × ℕ), (∀ p ∈ entries, validText p.1 = true) →
      (entries.map fun p => (p.1, Json.ofNat p.2)).mapM (fun p => do
        let key ← checkText p.1 "usage category"
        let n ← checkCount p.2 p.1
        return (key, n)) = Except.ok entries := by
    intro entries
    induction entries with
    | nil => simp
    | cons p entries ih =>
      intro hp
      have hkey : checkText p.1 "usage category" = .ok p.1 :=
        checkText_eq_ok.mpr ⟨hp p (by simp), rfl⟩
      have hcount : checkCount (Json.ofNat p.2) p.1 = .ok p.2 := by
        simp [checkCount, count?_ofNat]
      rw [List.map_cons, List.mapM_cons, hkey, ok_bind, hcount]
      dsimp only [ok_bind]
      rw [ih fun q hq => hp q (by simp [hq])]
      rfl
  rw [checkCounters, hentries, hcheck usage.entries fun p hp => h p.1 (List.mem_map_of_mem hp),
    ok_bind, pure_eq_ok, Dict.ofLookup_entries]

/-- The source that `finish` gives with counters, or without any. -/
theorem source_of_reported {finished : Json} {usage : Option (Dict String ℕ)}
    (hu : reportedBy finished usage) :
    (finished.getNull "usage").truthy = !(usage.getD Dict.empty).entries.isEmpty := by
  unfold Json.getNull
  rw [hu]
  cases usage with
  | none => rfl
  | some u => simp [countersJson, Json.truthy]

/-- The ledger takes the finish fact of a named attempt. -/
theorem finishArgs_ok {s : RuntimeStore} {run : Run} {finished : Json} {id : String} {number : ℕ}
    {usage : Option (Dict String ℕ)} (hh : s.Hosts run) (hf : Finishes finished id number)
    (hid : validText id = true) (hu : reportedBy finished usage)
    (hnamed : ∀ u ∈ usage, Named u) :
    ∃ args, s.finishArgs run.id finished = .ok args ∧ args.attemptId = id ∧
      args.observed = .ok (usage.getD Dict.empty) := by
  obtain ⟨continuation, hrow⟩ := hh.identity
  have hattempt : finished.readField Json.str? "attempt_id" = .ok id := by
    simp [Json.readField, Json.require, hf.attemptId, Json.str?]
  have hargs : s.finishArgs run.id finished = .ok
      { sessionId := run.sessionId, attemptId := id
        usage := usage.map fun u => Dict.ofLookup (countersJson u).fields
        source := if (finished.getNull "usage").truthy then "reported" else "unknown"
        runId := some run.id, attemptFinished := some finished } := by
    have husage : RuntimeStore.usageOf finished =
        .ok (usage.map fun u => Dict.ofLookup (countersJson u).fields) := by
      unfold RuntimeStore.usageOf Json.getNull
      rw [hu]
      cases usage <;> rfl
    simp only [RuntimeStore.finishArgs, hrow, Option.elim_some, ok_bind, hattempt, husage,
      pure_eq_ok]
  refine ⟨_, hargs, rfl, ?_⟩
  have hnull : finished.getNull "attempt_id" = .str id := by simp [Json.getNull, hf.attemptId]
  have hsame : ¬ (some finished).any (fun finished => (some run.id).isNone ||
      !(finished.getNull "attempt_id").pyEq (.str id)) = true := by
    simp [hnull, Json.pyEq_refl]
  have hcounters : checkCounters
      ((usage.map fun u => Dict.ofLookup (countersJson u).fields).getD Dict.empty) =
        .ok (usage.getD Dict.empty) := by
    cases usage with
    | none => rfl
    | some u => exact checkCounters_countersJson (hnamed u rfl)
  simp only [SettleArgs.observed, raiseIf_of_not hsame, ok_bind, hcounters,
    checkText_eq_ok.mpr ⟨hid, rfl⟩, pure_eq_ok, source_of_reported hu]
  cases usage with
  | none => rfl
  | some u =>
    by_cases hentries : u.entries = []
    · have hempty : (Dict.ofLookup (countersJson u).fields).entries = [] := by
        simp [countersJson, hentries, Dict.ofLookup]
      simp [hentries, hempty, raiseIf]
    · simp [hentries, raiseIf]

/-- What the settlement of an attempt without a report holds. -/
theorem payload_ok (args : SettleArgs) (observed : Dict String ℕ) :
    ∃ p, args.payload observed "input_output" = .ok p ∧
      (observed = Dict.empty → p.actualTokens = none ∧ p.observed = 0) := by
  refine ⟨_, rfl, ?_⟩
  rintro rfl
  exact ⟨rfl, rfl⟩

end Eventide.ModelCalls
