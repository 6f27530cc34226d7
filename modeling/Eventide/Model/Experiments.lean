import Eventide.Library.Pointer
import Eventide.Model.JsonText
import Eventide.Model.Prices
import Eventide.Model.Projections

/-! # Experiment comparison

`evaluation_metrics.py`: what evaluation reports say about two variants of one experiment. -/

namespace Eventide

open Outcome

namespace Experiments

/-- What the comparison takes from the standard library: the SHA-256 of the compact text of a
value, `json.dumps(value, sort_keys=True)` and `str(value)`. -/
structure Standard where
  sha256 : Json → String
  dumps : Json → String
  pyStr : Json → String

/-- `_digest`. -/
def Standard.digest (std : Standard) (value : Json) : String := std.sha256 value.sortKeys

/-- `str(value)`. -/
def Standard.str (std : Standard) (value : Json) : String := value.str?.getD (std.pyStr value)

/-! ## Reading -/

/-- `value.get(key)`, of a value that may be no dictionary. -/
def attr (value : Json) (key : String) : Except PyError (Option Json) :=
  match value with
  | .obj fields => .ok (fields.lookup key)
  | _ => .error (.raised "AttributeError" "object has no attribute 'get'")

/-- `hash(value)`. -/
def requireHashable : Json → Except PyError Unit
  | .arr _ | .obj _ => .error (.type "unhashable type")
  | _ => .ok ()

/-- `_object`. -/
def object (value : Json) (name : String) : Except PyError Json := do
  raiseIf (value.isObj = false) (.value (name ++ " must be an object"))
  return value

/-- `_count`. -/
def count (value : Json) (name : String) : Except PyError ℕ :=
  match value.count? with
  | some n => .ok n
  | none => .error (.value (name ++ " must be a nonnegative integer"))

/-- `_number`. -/
def number? : Json → Option ℚ
  | .int value => if 0 ≤ value then some value else none
  | .float value => if 0 ≤ value then some value else none
  | _ => none

/-- `_amount`. -/
def amount (value : Json) : Except PyError Decimal :=
  match value.str?.bind parseDecimal with
  | some (.finite d) =>
    if d.value < 0 then .error (.value "Cost amount must be a finite nonnegative decimal string")
    else .ok d
  | _ => .error (.value "Cost amount must be a finite nonnegative decimal string")

/-! ## Evidence -/

/-- A row of the attempt evidence, with the snapshot of its usage that it agrees with. -/
structure Call where
  runId : String
  attemptId : String
  row : Json
  basis : Json
  snapshot : UsageSnapshot

def Call.key (call : Call) : String × String := (call.runId, call.attemptId)

/-- The results of `_read_reports`. -/
structure Evidence where
  cases : List Json := []
  calls : List Call := []
  costs : Dict (String × String) Json := .empty
  missing : ℕ := 0

/-- `isinstance(value, str) and value`. -/
def nonempty? (value : Option Json) : Option String := (value.bind Json.str?).filter (· ≠ "")

/-- `snapshot["usage"]`. -/
def usageJson (snapshot : UsageSnapshot) : Json :=
  .obj (snapshot.usage.map fun c => (c.1, Json.ofNat c.2))

/-- One row of a case; `own` has the rows of the case before it. -/
def readRow (calls own : List Call) (row : Json) : Except PyError Call := do
  let row ← object row "attempt"
  match nonempty? (row.get? "run_id"), nonempty? (row.get? "attempt_id") with
  | some runId, some attemptId => do
    raiseIf ((∃ call ∈ calls, call.key = (runId, attemptId)) ∨
        ∃ call ∈ own, call.attemptId = attemptId)
      (.value "Duplicate attempt evidence; do not count report replays")
    let basis := (row.get? "usage_basis").getD (.str "input_output")
    let snapshot ← usageSnapshot (row.getNull "usage") (row.getNull "usage_source") basis
    raiseIf (!(usageJson snapshot).pyEq (row.getNull "usage") ∨
        !(Json.str snapshot.source).pyEq (row.getNull "usage_source") ∨
        !(Json.bool snapshot.complete).pyEq (row.getNull "usage_complete"))
      (.value "Invalid attempt usage snapshot")
    return { runId, attemptId, row, basis, snapshot }
  | _, _ => .error (.value "Attempt identity is missing")

/-- The rows of a case, after the calls of the cases before it. -/
def readRows (calls : List Call) (rows : List Json) : Except PyError (List Call) :=
  rows.foldlM (fun own row => do
    let call ← readRow (calls ++ own) own row
    return own ++ [call]) []

/-- The snapshot of a cost, of an attempt of the case. -/
def readCost (own : List Call) (costs : Dict (String × String) Json) (cost : Json) :
    Except PyError (Dict (String × String) Json) := do
  let attempt ← attr cost "attempt_id"
  requireHashable (attempt.getD .null)
  match (attempt.bind Json.str?).bind fun id => own.find? (·.attemptId = id) with
  | none => .error (.value "Cost snapshot has no unique matching attempt")
  | some call => do
    raiseIf (call.key ∈ costs.keys) (.value "Cost snapshot has no unique matching attempt")
    let source := cost.getNull "usage_source"
    requireHashable source
    raiseIf ((knownSource source).isNone = true) (.value "Invalid cost usage source")
    let _ ← object (cost.getNull "estimates") "cost estimates"
    return costs.set call.key cost

/-- One result of a report. -/
def readCase (st : Evidence) (value : Json) : Except PyError Evidence := do
  let case ← object value "case"
  raiseIf (((case.get? "id").bind Json.str?).isNone = true ∨
      !(case.getNull "passed" matches .bool _))
    (.value "Case identity and boolean pass result are required")
  let st := { st with cases := st.cases ++ [case] }
  let evidence ← object ((case.get? "evidence").getD (.obj [])) "case evidence"
  match evidence.get? "usage" with
  | none => return { st with missing := st.missing + 1 }
  | some usage => do
    let ledger ← object usage "usage ledger"
    match ledger.get? "calls" with
    | some (.arr rows) => do
      raiseIf (!(ledger.getNull "scope").pyEq (.str "exclusive"))
        (.value "Metrics require exclusive attempt evidence")
      let attempts ← count (ledger.getNull "attempt_count") "attempt_count"
      raiseIf (attempts ≠ rows.length) (.value "Attempt count differs from call evidence")
      let own ← readRows st.calls rows
      let latest ← attr ((evidence.get? "costs").getD (.obj [])) "latest"
      let latest ← Json.iterate (latest.getD (.arr []))
      let costs ← latest.foldlM (readCost own) st.costs
      return { st with calls := st.calls ++ own, costs }
    | _ => .error (.value "Metrics require exclusive attempt evidence")

/-- A result counts as passed; it has to be a dictionary. -/
def isPassed (item : Json) : Except PyError Bool := do
  let passed ← attr item "passed"
  return (passed.getD .null) matches .bool true

/-- The checks of a report before its cases. -/
def checkReport (report : Json) : Except PyError (List Json) := do
  raiseIf (!(report.getNull "schema_version") matches .int 2)
    (.value "Only evaluation schema_version 2 is supported")
  match report.get? "results" with
  | some (.arr results) => do
    let attempted ← count (report.getNull "attempted") "attempted"
    raiseIf (attempted ≠ results.length) (.value "Attempted case count differs from results")
    let total ← count (report.getNull "total") "total"
    raiseIf (total < results.length) (.value "Total case count is smaller than results")
    let passed ← count (report.getNull "passed") "passed"
    let marks ← results.mapM isPassed
    raiseIf (passed ≠ marks.count true) (.value "Passed case count differs from results")
    return results
  | _ => .error (.value "Evaluation results must be a list")

/-- `_read_reports`. -/
def readReports (reports : List Json) : Except PyError Evidence := do
  raiseIf (reports.isEmpty = true) (.value "At least one evaluation report is required")
  reports.foldlM (fun st report => do
    let results ← checkReport report
    results.foldlM readCase st) {}

/-! ## Identities -/

/-- A number of a `GenerationPatch`, which is strict: no boolean is a number. -/
def rational? : Json → Option ℚ
  | .int value => some value
  | .float value => some value
  | _ => none

/-- The fields of `GenerationPatch`; each may be null. -/
def generationFields : List (String × (Json → Bool)) :=
  [("temperature", fun value => (rational? value).any fun q => 0 ≤ q ∧ q ≤ 2),
    ("top_p", fun value => (rational? value).any fun q => 0 < q ∧ q ≤ 1),
    ("max_output_tokens", fun value => value matches .int _ &&
      (rational? value).any fun q => 0 < q ∧ q ≤ 1000000),
    ("reasoning_effort", fun value => value.str?.any fun text => text ∈
      ["none", "minimal", "low", "medium", "high", "xhigh", "max", "ultra"]),
    ("thinking", fun value => value.str?.any fun text => text ∈ ["enabled", "disabled"]),
    ("response_format", fun value => value.str?.any fun text => text ∈ ["text", "json_object"])]

/-- A field that `GenerationPatch` accepts; it forbids every other. -/
def generationField (field : String × Json) : Bool :=
  match generationFields.lookup field.1 with
  | none => false
  | some check => field.2 matches .null || check field.2

/-- `GenerationPatch.model_validate`. -/
def validateGeneration (value : Json) : Except PyError Unit :=
  if value.isObj && value.items.all generationField then .ok ()
  else .error (.raised "ValidationError" "GenerationPatch")

/-- An entry of `cases` of an identity. -/
structure CaseIdentity where
  task : Json
  configuration : Json
  generation : Json
  context : Json
  catalogHash : Json
  selected : Json
  executionConfig : Json
  requests : Dict String (List Json)

def CaseIdentity.json (case : CaseIdentity) : Json :=
  .obj [("task", case.task), ("configuration", case.configuration),
    ("generation", case.generation), ("context", case.context),
    ("skills", .obj [("catalog_hash", case.catalogHash), ("selected", case.selected)]),
    ("execution_config", case.executionConfig),
    ("requests", .obj (case.requests.entries.map fun p => (p.1, .arr p.2)))]

structure Identity where
  measurementKind : Json
  mode : Json
  codeSha256 : Json
  python : Json
  suiteSourceSha256 : Json
  inputsSha256 : Json
  split : Json
  caseTimeout : Json
  cases : Dict String CaseIdentity

def Identity.json (identity : Identity) : Json :=
  .obj [("measurement_kind", identity.measurementKind), ("mode", identity.mode),
    ("runtime", .obj [("code_sha256", identity.codeSha256), ("python", identity.python)]),
    ("suite_source_sha256", identity.suiteSourceSha256),
    ("inputs_sha256", identity.inputsSha256), ("split", identity.split),
    ("case_timeout", identity.caseTimeout),
    ("cases", .obj (identity.cases.entries.map fun p => (p.1, p.2.json)))]

/-- `value[key]` where `value` may be no dictionary. -/
def item (value : Json) (key : String) : Except PyError Json :=
  match value with
  | .obj _ => value.require key
  | _ => .error (.type "object is not subscriptable")

/-- The state of the loop of `_request_profiles`. -/
structure Profiles where
  observed : List (String × String) := []
  profiles : Dict String (List Json) := .empty

/-- One actual request; the profile of a kind that is there already is not added again. -/
def readProfile (std : Standard) (calls : List (String × String)) (configuration : Json)
    (st : Profiles) (attempt : Json) : Except PyError Profiles := do
  let run ← attr attempt "run_id"
  let id ← attr attempt "attempt_id"
  requireHashable (run.getD .null)
  requireHashable (id.getD .null)
  match run.bind Json.str?, id.bind Json.str? with
  | some runId, some attemptId => do
    raiseIf ((runId, attemptId) ∉ calls ∨ (runId, attemptId) ∈ st.observed)
      (.value "Actual request profile has no unique matching attempt")
    raiseIf (["provider", "model"].any fun field =>
        !(attempt.getNull field).pyEq (configuration.getNull field))
      (.value "Actual request provider/model differs from frozen configuration")
    let generation ← object (attempt.getNull "generation") "actual request generation"
    validateGeneration generation
    match attempt.getNull "max_output_tokens" with
    | .int maximum => do
      raiseIf (maximum < 1) (.value "Actual request output limit is missing")
      let profile := Json.sortKeys
        (.obj [("generation", generation), ("max_output_tokens", .int maximum)])
      let kind := std.str ((attempt.get? "kind").getD (.str "unknown"))
      let others := (st.profiles.get? kind).getD []
      return {
        observed := st.observed ++ [(runId, attemptId)]
        profiles := st.profiles.set kind
          (if others.any fun other => std.dumps other = std.dumps profile then others
            else others ++ [profile]) }
    | _ => .error (.value "Actual request output limit is missing")
  | _, _ => .error (.value "Actual request profile has no unique matching attempt")

/-- `_request_profiles`; the evidence has been read, so its rows have their ids. -/
def requestProfiles (std : Standard) (evidence configuration : Json) :
    Except PyError (Dict String (List Json)) := do
  let usage ← attr ((evidence.get? "usage").getD (.obj [])) "calls"
  let rows ← Json.iterate (usage.getD (.arr []))
  let calls := rows.filterMap fun row => do
    let runId ← (row.get? "run_id").bind Json.str?
    let attemptId ← (row.get? "attempt_id").bind Json.str?
    return (runId, attemptId)
  let attempts ← Json.iterate ((evidence.get? "model_attempts").getD (.arr []))
  let st ← attempts.foldlM (readProfile std calls configuration) {}
  raiseIf (∃ call ∈ calls, call ∉ st.observed)
    (.value "Comparison requires every actual request generation profile")
  return Dict.ofList ((sortedSet st.profiles.keys).map fun kind =>
    (kind, ((st.profiles.get? kind).getD []).insertionSort fun a b => std.dumps a ≤ std.dumps b))

/-- `next((run for run in runs if run.get("run_id") == main), None)`. -/
def firstRun (main : Json) : List Json → Except PyError (Option Json)
  | [] => .ok none
  | run :: runs => do
    let id ← attr run "run_id"
    if (id.getD .null).pyEq main then return some run else firstRun main runs

/-- The frozen identities of a task. -/
def benchmarkFields : List String :=
  ["suite_id", "suite_version", "suite_sha256", "task_version", "task_sha256", "split"]

def fingerprintError : PyError :=
  .value "Comparison requires actual generation, tool and Skill fingerprints"

/-- The identity of a case whose id is not yet known. -/
def caseIdentity (std : Standard) (known : List String) (case : Json) :
    Except PyError (String × CaseIdentity) := do
  let benchmark ← object (case.getNull "benchmark") "frozen benchmark"
  raiseIf (¬ benchmarkFields.all fun field => (benchmark.getNull field).truthy)
    (.value "Comparison requires frozen task identities")
  let evidence ← case.require "evidence"
  let runs ← Json.iterate ((evidence.get? "runs").getD (.arr []))
  match ← firstRun (evidence.getNull "main_run_id") runs with
  | none => .error fingerprintError
  | some main => do
    raiseIf (¬ (["generation", "context_fingerprints", "skill_snapshot"].all fun field =>
      (main.getNull field).isObj)) fingerprintError
    let fingerprints := main.getNull "context_fingerprints"
    let skills := main.getNull "skill_snapshot"
    raiseIf (¬ (fingerprints.getNull "tool_catalog_hash").truthy ∨
        ¬ (skills.getNull "catalog_hash").truthy)
      (.value "Comparison requires tool and Skill fingerprints")
    validateGeneration (main.getNull "generation")
    let configuration ← object (case.getNull "configuration") "configuration"
    raiseIf (["provider", "model", "adapter"].any fun field =>
        (nonempty? (configuration.get? field)).isNone)
      (.value "Comparison requires actual provider and model configuration")
    let id := (case.getNull "id").str?.getD ""
    raiseIf (id ∈ known) (.value "Duplicate task identity in one report")
    let execution := (main.get? "execution_config").getD (.obj [])
    raiseIf (execution.isObj = false) (.raised "AttributeError" "object has no attribute 'items'")
    let requests ← requestProfiles std evidence configuration
    return (id, {
      task := benchmark
      configuration
      generation := main.getNull "generation"
      context := fingerprints
      catalogHash := skills.getNull "catalog_hash"
      selected := (skills.get? "selected").getD (.arr [])
      -- Delivery ids locate evidence; they are no setting of the execution.
      executionConfig := execution.withoutField "writer_delivery_id"
      requests })

/-- One result of a report in its identity. -/
def addCase (std : Standard) (cases : Dict String CaseIdentity) (case : Json) :
    Except PyError (Dict String CaseIdentity) := do
  let (id, identity) ← caseIdentity std cases.keys case
  return cases.set id identity

/-- `experiment_identity`. -/
def experimentIdentity (std : Standard) (report : Json) : Except PyError Identity := do
  let _ ← readReports [report]
  let provenance ← object (report.getNull "provenance") "provenance"
  let runtime ← object (provenance.getNull "runtime") "runtime provenance"
  let inputs ← attr ((provenance.get? "inputs").getD (.obj [])) "sha256"
  raiseIf (¬ (provenance.getNull "suite_source_sha256").truthy ∨ ¬ (inputs.getD .null).truthy ∨
      ¬ (runtime.getNull "code_sha256").truthy)
    (.value "Comparison requires suite, input and runtime fingerprints")
  let cases ← ((report.getNull "results").arr?.getD []).foldlM (addCase std) .empty
  return {
    measurementKind := report.getNull "measurement_kind"
    mode := report.getNull "mode"
    codeSha256 := runtime.getNull "code_sha256"
    python := runtime.getNull "python"
    suiteSourceSha256 := provenance.getNull "suite_source_sha256"
    inputsSha256 := inputs.getD .null
    split := provenance.getNull "split"
    caseTimeout := provenance.getNull "case_timeout"
    cases }

/-! ## Differences -/

/-- `_MISSING`. -/
def missing : Json := .obj [("missing", .bool true)]

/-- `value.get(key, _MISSING)`. -/
def marked (value : Json) (key : String) : Json := (value.get? key).getD missing

/-- How many dictionaries lie inside each other. -/
def depth : Json → ℕ
  | .obj fields => fieldsDepth fields + 1
  | _ => 0
where
  fieldsDepth : List (String × Json) → ℕ
    | [] => 0
    | (_, value) :: fields => max (depth value) (fieldsDepth fields)

/-- `left.keys() | right.keys()`, sorted. -/
def bothKeys (left right : Json) : List String :=
  sortedSet (left.fields.map Prod.fst ++ right.fields.map Prod.fst)

abbrev Differences := Dict (List Char) (Json × Json)

/-- `_differences`, down to the given depth. -/
def differencesTo (std : Standard) : ℕ → Json → Json → List Char → Differences
  | rounds, left, right, path =>
    if left.isObj && right.isObj then
      match rounds with
      | 0 => .empty
      | rounds + 1 => (bothKeys left right).foldl (fun result key => result.update
          (differencesTo std rounds (marked left key) (marked right key)
            (Pointer.child path key)).entries) .empty
    else if std.digest left = std.digest right then .empty
    else Dict.empty.set path (left, right)

/-- `_differences`. Each level down takes a level off one side at least. -/
def differences (std : Standard) (left right : Json) : Differences :=
  differencesTo std (max (depth left) (depth right)) left right []

/-! ## Totals -/

/-- The part of `_tokens` that a comparison reads. -/
structure Tokens where
  complete : Bool
  totalTokens : Option ℕ

/-- `sum(call["usage"][field] for field in usage_total_fields(call["usage_basis"]))`. -/
def callTokens (call : Call) : Except PyError ℕ := do
  let fields ← usageTotalFields call.basis
  let counts ← fields.mapM fun field =>
    match call.snapshot.usage.lookup field with
    | some n => Except.ok n
    | none => .error (PyError.key field)
  return counts.sum

/-- `_tokens`. -/
def tokens (evidence : Evidence) : Except PyError Tokens :=
  if evidence.missing = 0 ∧ evidence.calls.all (·.snapshot.complete) then do
    let counts ← evidence.calls.mapM callTokens
    return ⟨true, some counts.sum⟩
  else .ok ⟨false, none⟩

/-- What `_costs` collects for a currency. -/
structure CurrencyFold where
  known : Decimal := .ofNat 0
  estimated : Decimal := .ofNat 0
  reportedSeen : ℕ := 0
  covered : ℕ := 0
  versions : List Json := []
  pricing : List String := []
  pricingComplete : Bool := true

/-- A sum in the context of the fees. -/
def addAmount (total amount : Decimal) : Except PyError Decimal :=
  match Decimal.add feeContext total amount with
  | some sum => .ok sum
  | none => .error (.raised "Overflow" "")

/-- `if item.get("known_amount") is not None`. -/
def CurrencyFold.addKnown (st : CurrencyFold) (source known : Json) : Except PyError CurrencyFold :=
  match known with
  | .null => .ok st
  | value => do
    let value ← amount value
    if source.pyEq (.str "estimated") then
      let estimated ← addAmount st.estimated value
      return { st with estimated }
    else if source.pyEq (.str "reported") then
      let known ← addAmount st.known value
      return { st with known, reportedSeen := st.reportedSeen + 1 }
    else return st

/-- The entry of `pricing` that a line makes. -/
def priceText (std : Standard) (provider model currency category rate : String) (version : Json) :
    String :=
  std.dumps (.obj [("provider", .str provider), ("model", .str model),
    ("category", .str category), ("currency", .str currency), ("price_version", version),
    ("price_per_million", .str rate)])

/-- A line of an estimate. -/
def CurrencyFold.addLine (std : Standard) (call : Call) (currency : String) (st : CurrencyFold)
    (line : Json) : Except PyError CurrencyFold := do
  let version ← item line "price_version"
  requireHashable version
  let st := { st with
    versions := if st.versions.any version.pyEq then st.versions else st.versions ++ [version] }
  match (line.getNull "price_per_million").str?, (line.getNull "category").str?,
      (call.row.getNull "provider").str?, (call.row.getNull "model").str? with
  | some rate, some category, some provider, some model => do
    let _ ← amount (.str rate)
    let text := priceText std provider model currency category rate version
    return { st with pricing := if text ∈ st.pricing then st.pricing else st.pricing ++ [text] }
  | _, _, _, _ => return { st with pricingComplete := false }

/-- A call in the loop for a currency. -/
def CurrencyFold.addCall (std : Standard) (costs : Dict (String × String) Json) (currency : String)
    (st : CurrencyFold) (call : Call) : Except PyError CurrencyFold :=
  match costs.get? call.key with
  | none => .ok st
  | some cost =>
    match (cost.getNull "estimates").getNull currency with
    | .null => .ok st
    | estimate => do
      let known ← attr estimate "known_amount"
      let st ← st.addKnown (cost.getNull "usage_source") (known.getD .null)
      let lines := (estimate.get? "lines").getD (.arr [])
      let lines ← Json.iterate lines
      let st ← lines.foldlM (addLine std call currency) st
      let st := { st with
        pricingComplete := st.pricingComplete && ((estimate.getNull "lines").truthy) }
      if (estimate.getNull "complete" matches .bool true) ∧
          (cost.getNull "usage_source").pyEq (.str "reported") ∧ call.snapshot.complete ∧
          !(known.getD .null matches .null) then
        return { st with covered := st.covered + 1 }
      else return st

/-- The entry of a currency. The amounts stay numbers here. -/
structure CurrencyCosts where
  knownAmount : Option Decimal
  complete : Bool
  priceVersions : List Json
  pricing : List String
  pricingFingerprint : Option String

/-- The entry of a currency in `by_currency`. -/
def currencyCosts (std : Standard) (evidence : Evidence) (currency : String) :
    Except PyError CurrencyCosts := do
  let st ← evidence.calls.foldlM (CurrencyFold.addCall std evidence.costs currency) {}
  return {
    knownAmount := if st.reportedSeen = 0 then none else some st.known
    complete := evidence.missing = 0 && st.covered = evidence.calls.length
    priceVersions := st.versions
    pricing := sortedSet st.pricing
    pricingFingerprint := if st.pricingComplete && !st.pricing.isEmpty then
      some (std.digest (.arr ((sortedSet st.pricing).map .str))) else none }

/-- The currencies of all estimates. -/
def currencies (evidence : Evidence) : List String :=
  sortedSet (evidence.costs.values.flatMap fun cost =>
    (cost.getNull "estimates").fields.map Prod.fst)

/-- `by_currency` of `_costs`. -/
def costs (std : Standard) (evidence : Evidence) : Except PyError (Dict String CurrencyCosts) := do
  let entries ← (currencies evidence).mapM fun currency => do
    let entry ← currencyCosts std evidence currency
    return (currency, entry)
  return Dict.ofList entries

/-- More tokens were read from the cache than went in. -/
def exceedsInput (usage : List (String × ℕ)) : Bool :=
  match usage.lookup "input_tokens", usage.lookup "cache_read_input_tokens" with
  | some input, some cached => input < cached
  | _, _ => false

/-- The check of `_cache`. -/
def checkCache (evidence : Evidence) : Except PyError Unit :=
  raiseIf (∃ call ∈ evidence.calls, call.snapshot.source = "reported" ∧
      call.basis.pyEq (.str "input_output") = true ∧ exceedsInput call.snapshot.usage = true)
    (.value "Cache detail exceeds its input total")

/-- The part of `summarize_experiment` that a comparison reads. -/
structure Summary where
  successful : ℕ
  tokens : Tokens
  costs : Dict String CurrencyCosts

/-- A case that passed. -/
def passed (case : Json) : Bool := case.getNull "passed" matches .bool true

/-- `summarize_experiment`. -/
def summarize (std : Standard) (reports : List Json) : Except PyError Summary := do
  let evidence ← readReports reports
  let tokens ← tokens evidence
  checkCache evidence
  let costs ← costs std evidence
  return ⟨evidence.cases.countP passed, tokens, costs⟩

/-! ## Comparison -/

/-- `ExperimentVariant`. -/
structure ExperimentVariant where
  name : String
  recordedAt : Json
  differences : Differences

/-- `changes == dict(variant.differences)`. -/
def sameDifferences (changes declared : Differences) : Bool :=
  changes.entries.length = declared.entries.length ∧
    changes.entries.all fun change => (declared.get? change.1).any fun pair =>
      change.2.1.pyEq pair.1 && change.2.2.pyEq pair.2

/-- The paths that no variant may change. -/
def frozenPaths : List String :=
  ["/mode", "/measurement_kind", "/suite_source_sha256", "/inputs_sha256", "/split",
    "/case_timeout"]

def frozenEnds : List String :=
  ["/configuration/provider", "/configuration/model", "/configuration/adapter",
    "/configuration/endpoint_sha256", "/configuration/max_output_tokens"]

/-- `part in path`. -/
def within (part : String) (path : List Char) : Bool := path.tails.any part.toList.isPrefixOf

def isFrozen (path : List Char) : Bool :=
  path ∈ frozenPaths.map String.toList || within "/task/" path || within "/generation/" path ||
    frozenEnds.any fun text => text.toList.isSuffixOf path

/-- `_number(call.get("started_at"))`, which has to be there. -/
def startedAt (call : Call) : Except PyError ℚ :=
  match number? (call.row.getNull "started_at") with
  | some time => .ok time
  | none => .error (.value "Variant must be recorded before all candidate model requests")

/-- The checks of a variant that has differences. -/
def checkVariant (changes : Differences) (variant : Option ExperimentVariant)
    (candidate : List Json) : Except PyError Unit :=
  match variant with
  | none => .error (.value "Undeclared experiment identity differences")
  | some variant => do
    raiseIf (variant.name = "" ∨ sameDifferences changes variant.differences = false)
      (.value "Undeclared experiment identity differences")
    match number? variant.recordedAt with
    | none => .error (.value "Variant recording time is invalid")
    | some recordedAt => do
      raiseIf (changes.keys.any isFrozen)
        (.value "Frozen tasks, model and generation cannot be variant differences")
      let evidence ← readReports candidate
      let starts ← evidence.calls.mapM startedAt
      raiseIf (starts.isEmpty = true ∨ ∃ start ∈ starts, start < recordedAt)
        (.value "Variant must be recorded before all candidate model requests")

/-- The requests of a purpose are the same in both arms. -/
def sameRequests (left right : Identity) : Bool :=
  left.cases.entries.all fun case => ((right.cases.get? case.1).map (·.requests)).all fun next =>
    case.2.requests.entries.all fun kind => (next.get? kind.1).all fun profiles =>
      (Json.arr kind.2).pyEq (.arr profiles)

/-- The passed results of a task. -/
def passes (evidence : Evidence) (id : String) : ℕ :=
  evidence.cases.countP fun case => (case.getNull "id").pyEq (.str id) && passed case

/-- `regressions`. -/
def regressions (before after : Evidence) : List String :=
  (sortedSet ((before.cases.filter passed).filterMap fun case => (case.getNull "id").str?)).filter
    fun id => passes after id < passes before id

/-- `r.get("status") == "completed" and r["attempted"] == r["total"]`. -/
def isCompleted (report : Json) : Bool :=
  (report.getNull "status").pyEq (.str "completed") &&
    (report.getNull "attempted").pyEq (report.getNull "total")

/-- A live batch. -/
def isReal (report : Json) : Bool :=
  (report.getNull "mode").pyEq (.str "live") &&
    (report.getNull "measurement_kind").pyEq (.str "provider_experiment") &&
    (report.getNull "billing_applicable" matches .bool true)

/-- The same versions, in whatever order they were seen. -/
def sameVersions (a b : List Json) : Bool :=
  (a.all fun version => b.any version.pyEq) && b.all fun version => a.any version.pyEq

/-- `comparable`. -/
def comparable (before after : CurrencyCosts) : Bool :=
  before.complete && after.complete && sameVersions before.priceVersions after.priceVersions &&
    before.pricingFingerprint.isSome && before.pricingFingerprint = after.pricingFingerprint

/-- `decreased`, of a currency. -/
def decreased (before after : Dict String CurrencyCosts) (currency : String) :
    Except PyError Bool :=
  match before.get? currency, after.get? currency with
  | some b, some a =>
    if comparable b a then
      match a.knownAmount, b.knownAmount with
      | some x, some y => .ok (x.value < y.value)
      | _, _ => .error (.value "Cost amount must be a finite nonnegative decimal string")
    else .ok false
  | _, _ => .ok false

structure Comparison where
  baseline : Summary
  candidate : Summary
  baselineIdentity : String
  candidateIdentity : String
  qualityPreserved : Bool
  regressedTasks : List String
  completeBatches : Bool
  providerExperiments : Bool
  reportedTokensDecreased : Bool
  feeDecreased : Bool
  improvementDemonstrated : Bool

/-- The identities of an arm, all of which have to be the first. -/
def armIdentity (std : Standard) (reports : List Json) : Except PyError Identity := do
  let identities ← reports.mapM (experimentIdentity std)
  match identities with
  | [] => .error (.value "Comparison requires equal nonzero repetition counts")
  | first :: rest => do
    raiseIf (¬ rest.all fun identity => identity.json.pyEq first.json)
      (.value "Repetitions must use one frozen identity per variant")
    return first

/-- `token_saving`. -/
def tokenSaving (before after : Tokens) : Bool :=
  match before.totalTokens, after.totalTokens with
  | some b, some a => before.complete && after.complete && a < b
  | _, _ => false

/-- The verdict on two arms that may be compared. -/
def verdict (std : Standard) (baseline candidate : List Json) (left right : Identity) :
    Except PyError Comparison := do
  let before ← summarize std baseline
  let after ← summarize std candidate
  let base ← readReports baseline
  let next ← readReports candidate
  let regressed := regressions base next
  let complete := (baseline ++ candidate).all isCompleted
  let real := (baseline ++ candidate).all isReal
  let quality := regressed.isEmpty && decide (before.successful ≤ after.successful)
  let saving := tokenSaving before.tokens after.tokens
  let decreases ← (sortedSet (before.costs.keys ++ after.costs.keys)).mapM
    (decreased before.costs after.costs)
  let fee := decreases.any id
  return {
    baseline := before
    candidate := after
    baselineIdentity := std.digest left.json
    candidateIdentity := std.digest right.json
    qualityPreserved := quality
    regressedTasks := regressed
    completeBatches := complete
    providerExperiments := real
    reportedTokensDecreased := saving
    feeDecreased := fee
    improvementDemonstrated := real && complete && quality && (saving || fee) }

/-- `compare_experiments`. -/
def compareExperiments (std : Standard) (baseline candidate : List Json)
    (variant : Option ExperimentVariant) : Except PyError Comparison := do
  raiseIf (baseline.isEmpty = true ∨ baseline.length ≠ candidate.length)
    (.value "Comparison requires equal nonzero repetition counts")
  let _ ← readReports (baseline ++ candidate)
  let left ← armIdentity std baseline
  let right ← armIdentity std candidate
  let changes := differences std left.json right.json
  raiseIf (¬ sameRequests left right)
    (.value "Actual request generation must be frozen per purpose")
  if changes.entries.isEmpty then
    raiseIf (variant.any fun v => !v.differences.entries.isEmpty)
      (.value "Declared variant differences do not match observed identities")
  else checkVariant changes variant candidate
  verdict std baseline candidate left right

end Experiments

end Eventide
