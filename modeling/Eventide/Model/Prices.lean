import Eventide.Library.Decimal
import Eventide.Model.Budget

/-! # Prices and costs

`budget_prices.py`: registered prices, and what an attempt costs at the rates that applied when it
was reserved. -/

namespace Eventide

open Outcome RuntimeStore

/-! ## Decimal strings -/

/-- The zeros of the scripts that have decimal digits. -/
def decimalZeros : List ℕ :=
  [0x30, 0x660, 0x6f0, 0x7c0, 0x966, 0x9e6, 0xa66, 0xae6, 0xb66, 0xbe6, 0xc66, 0xce6, 0xd66, 0xde6,
    0xe50, 0xed0, 0xf20, 0x1040, 0x1090, 0x17e0, 0x1810, 0x1946, 0x19d0, 0x1a80, 0x1a90, 0x1b50,
    0x1bb0, 0x1c40, 0x1c50, 0xa620, 0xa8d0, 0xa900, 0xa9d0, 0xa9f0, 0xaa50, 0xabf0, 0xff10, 0x104a0,
    0x10d30, 0x11066, 0x110f0, 0x11136, 0x111d0, 0x112f0, 0x11450, 0x114d0, 0x11650, 0x116c0,
    0x11730, 0x118e0, 0x11950, 0x11c50, 0x11d50, 0x11da0, 0x16a60, 0x16ac0, 0x16b50, 0x1d7ce,
    0x1d7d8, 0x1d7e2, 0x1d7ec, 0x1d7f6, 0x1e140, 0x1e2f0, 0x1e950, 0x1fbf0]

/-- The ASCII digit of a decimal digit. -/
def asciiDigit (c : Char) : Char :=
  if c.toNat < 128 then c
  else
    match decimalZeros.find? fun first => first ≤ c.toNat ∧ c.toNat < first + 10 with
    | some first => Char.ofNat (48 + (c.toNat - first))
    | none => c

/-- The characters that `Decimal(text)` reads. -/
def numericText (text : String) : List Char :=
  ((strip text).toList.filter (· ≠ '_')).map asciiDigit

inductive ParsedDecimal where
  | finite (d : Decimal)
  | special
  deriving DecidableEq

/-- The exponents that a decimal can be read with: `MIN_ETINY` to `MAX_EMAX`. -/
def readable (d : Decimal) : Bool :=
  -1999999999999999997 ≤ d.exponent ∧ d.exponent + d.digits.length - 1 ≤ 999999999999999999

/-- `Decimal(text)`; none for `InvalidOperation`. -/
def parseDecimal (text : String) : Option ParsedDecimal :=
  match Decimal.ofText (numericText text) with
  | some d => if readable d then some (.finite d) else none
  | none => if Decimal.isSpecial (numericText text) then some .special else none

/-- `str(d)`. -/
def decimalText (d : Decimal) : String := String.ofList d.toText

/-- `localcontext()`, with a precision of 50. -/
def feeContext : Decimal.Context := ⟨50, -999999, 999999⟩

/-! ## Instants -/

/-- The instants that `datetime` has: those of the years that it has. -/
def OfDatetime (micros : ℤ) : Prop :=
  1 ≤ (civilDate (micros / microsPerDay)).1 ∧ (civilDate (micros / microsPerDay)).1 ≤ 9999

instance (micros : ℤ) : Decidable (OfDatetime micros) := inferInstanceAs (Decidable (_ ∧ _))

/-- A `datetime`. -/
structure Datetime extends Timestamp where
  valid : OfDatetime micros

/-- `utc_time`, of an argument that is given. -/
def Datetime.utc (t : Datetime) : Except PyError ℤ := do
  raiseIf (!t.aware) (.value "An explicit UTC offset is required")
  return t.micros

/-! ## Prices -/

def priceFacts : List EventType := [.priceRegistered, .costEstimated]

def priceCategories : List String :=
  ["input_tokens", "output_tokens", "cache_read_input_tokens", "cache_creation_input_tokens",
    "reasoning_tokens"]

structure PriceVersion where
  versionId : String
  provider : String
  model : String
  category : String
  currency : String
  pricePerMillion : String
  effectiveAt : Datetime

/-- The payload of a registered price. -/
structure Price where
  versionId : String
  provider : String
  model : String
  category : String
  currency : String
  pricePerMillion : String
  effectiveAt : String
  deriving DecidableEq, Inhabited

namespace Price

def toJson (p : Price) : Json :=
  .obj [("version_id", .str p.versionId), ("provider", .str p.provider), ("model", .str p.model),
    ("category", .str p.category), ("currency", .str p.currency),
    ("price_per_million", .str p.pricePerMillion), ("effective_at", .str p.effectiveAt)]

def ofJson (payload : Json) : Except PyError Price := do
  let versionId ← payload.readField Json.str? "version_id"
  let provider ← payload.readField Json.str? "provider"
  let model ← payload.readField Json.str? "model"
  let category ← payload.readField Json.str? "category"
  let currency ← payload.readField Json.str? "currency"
  let pricePerMillion ← payload.readField Json.str? "price_per_million"
  let effectiveAt ← payload.readField Json.str? "effective_at"
  return { versionId, provider, model, category, currency, pricePerMillion, effectiveAt }

/-- A price for the same thing from the same time on. -/
def sameSlot (a b : Price) : Prop :=
  a.provider = b.provider ∧ a.model = b.model ∧ a.category = b.category ∧
    a.currency = b.currency ∧ a.effectiveAt = b.effectiveAt

instance (a b : Price) : Decidable (a.sameSlot b) :=
  inferInstanceAs (Decidable (_ ∧ _))

end Price

/-- `len(currency) == 3`, with uppercase ASCII letters only. -/
def isCurrency (currency : String) : Bool :=
  currency.length = 3 && currency.toList.all fun c => 'A' ≤ c && c ≤ 'Z'

/-- The price of a decimal string. -/
def readPrice (text : String) : Except PyError Decimal :=
  match parseDecimal text with
  | none => .error (.value "Price must be an exact decimal string")
  | some .special => .error (.value "Price must be finite and nonnegative")
  | some (.finite price) => do
    raiseIf (price.value < 0 ∨ 1000000000000 < price.value)
      (.value "Price must be finite and nonnegative")
    raiseIf (price.exponent < -18) (.value "Price precision exceeds eighteen decimal places")
    return price

/-- `PriceVersion.payload`. -/
def PriceVersion.payload (v : PriceVersion) : Except PyError Price := do
  let versionId ← checkText v.versionId "version_id"
  let provider ← checkText v.provider "provider"
  let model ← checkText v.model "model"
  raiseIf (v.category ∉ priceCategories) (.value "Unsupported pricing category")
  raiseIf (!isCurrency v.currency) (.value "Currency must be a three-letter uppercase code")
  raiseIf (64 < v.pricePerMillion.length) (.value "Price must be an exact decimal string")
  let price ← readPrice v.pricePerMillion
  let micros ← v.effectiveAt.utc
  return {
    versionId, provider, model, category := v.category, currency := v.currency
    pricePerMillion := decimalText price, effectiveAt := isoformat micros }

/-! ## The lines of an estimate -/

/-- The totals of a usage, each with the details that are subsets of it. -/
def priceTotals : List (String × List String) :=
  [("input_tokens", ["cache_read_input_tokens", "cache_creation_input_tokens"]),
    ("output_tokens", ["reasoning_tokens"])]

/-- What remains of a total without the details that have a rate, these details, and the detail that
is not known. -/
def splitDetails (usage : Dict String ℕ) (rates : Dict String Price) :
    List String → ℤ → List (String × ℕ) → ℤ × List (String × ℕ) × List String
  | [], quantity, parts => (quantity, parts, [])
  | detail :: details, quantity, parts =>
    if rates.contains detail then
      match usage.get? detail with
      | none => (-1, parts, [detail])
      | some n => splitDetails usage rates details (quantity - n) (parts ++ [(detail, n)])
    else splitDetails usage rates details quantity parts

/-- The quantities of a total and of its details, and what is not known. -/
def splitTotal (usage : Dict String ℕ) (rates : Dict String Price) (total : String)
    (details : List String) : List (String × ℕ) × List String :=
  match usage.get? total with
  | none => ([], [total])
  | some n =>
    let (quantity, parts, unknown) := splitDetails usage rates details n []
    if quantity < 0 then ([], unknown ++ [total])
    else (parts ++ [(total, quantity.toNat)], unknown)

/-- The quantities of all totals, and what is not known. No category is named twice. -/
def splitUsage (usage : Dict String ℕ) (rates : Dict String Price) (totals : List String) :
    List (String × ℕ) × List String :=
  let split := (priceTotals.filter fun t => t.1 ∈ totals).map fun t =>
    splitTotal usage rates t.1 t.2
  (split.flatMap Prod.fst, split.flatMap Prod.snd)

structure CostLine where
  category : String
  quantity : ℕ
  priceVersion : String
  pricePerMillion : String
  amount : String
  deriving DecidableEq

/-- `Decimal(price) * quantity / Decimal(1_000_000)`. -/
def lineAmount (price : String) (quantity : ℕ) : Except PyError Decimal :=
  match parseDecimal price with
  | some (.finite d) =>
    match (Decimal.mul feeContext d (.ofNat quantity)).bind fun product =>
        Decimal.div feeContext product (.ofNat (10 ^ 6)) with
    | some amount => .ok amount
    | none => .error (.raised "Overflow" "")
  | _ => .error (.raised "InvalidOperation" "")

def costLine (rate : Price) (category : String) (quantity : ℕ) : Except PyError CostLine := do
  let amount ← lineAmount rate.pricePerMillion quantity
  return {
    category, quantity, priceVersion := rate.versionId, pricePerMillion := rate.pricePerMillion
    amount := decimalText amount }

/-- `sorted(set(names))`. -/
def sortedSet (names : List String) : List String :=
  names.dedup.insertionSort (· ≤ ·)

/-- `_price_lines`. -/
def priceLines (usage : Dict String ℕ) (rates : Dict String Price) (basis : String) :
    Except PyError (List CostLine × List String) := do
  let totals ← usageTotalFields (.str basis)
  let (quantities, unknown) := splitUsage usage rates totals
  let priced := quantities.filterMap fun q => (rates.get? q.1).map fun rate => (rate, q)
  let lines ← priced.mapM fun p => costLine p.1 p.2.1 p.2.2
  let unpriced := (quantities.filter fun q => !rates.contains q.1).map Prod.fst
  return (lines, sortedSet (unknown ++ unpriced))

/-! ## Estimates -/

/-- The identity of an estimate. -/
structure CostIntent where
  attemptId : String
  provider : String
  model : String
  estimateId : String
  reevaluationOf : Option String
  deriving DecidableEq

def CostIntent.fields (intent : CostIntent) : List (String × Json) :=
  [("attempt_id", .str intent.attemptId), ("provider", .str intent.provider),
    ("model", .str intent.model), ("estimate_id", .str intent.estimateId),
    ("reevaluation_of", Json.ofOption .str intent.reevaluationOf)]

/-- The identity of an earlier estimate. -/
def CostIntent.ofJson (payload : Json) : Except PyError CostIntent := do
  let attemptId ← payload.readField Json.str? "attempt_id"
  let provider ← payload.readField Json.str? "provider"
  let model ← payload.readField Json.str? "model"
  let estimateId ← payload.readField Json.str? "estimate_id"
  let reevaluationOf ← payload.readField (Json.option? Json.str?) "reevaluation_of"
  return { attemptId, provider, model, estimateId, reevaluationOf }

structure CurrencyEstimate where
  knownAmount : Option String
  complete : Bool
  unknownCategories : List String
  lines : List CostLine
  deriving DecidableEq

structure CostEstimate where
  intent : CostIntent
  sessionId : String
  pricingAt : String
  usageSource : String
  estimates : List (String × CurrencyEstimate)
  complete : Bool
  unknownReason : Option String
  deriving DecidableEq

def CostLine.toJson (line : CostLine) : Json :=
  .obj [("category", .str line.category), ("quantity", Json.ofNat line.quantity),
    ("price_version", .str line.priceVersion), ("price_per_million", .str line.pricePerMillion),
    ("amount", .str line.amount)]

def CurrencyEstimate.toJson (estimate : CurrencyEstimate) : Json :=
  .obj [("known_amount", Json.ofOption .str estimate.knownAmount),
    ("complete", .bool estimate.complete),
    ("unknown_categories", .arr (estimate.unknownCategories.map .str)),
    ("lines", .arr (estimate.lines.map CostLine.toJson))]

def CostEstimate.toJson (estimate : CostEstimate) : Json :=
  .obj (estimate.intent.fields ++
    [("session_id", .str estimate.sessionId), ("pricing_at", .str estimate.pricingAt),
      ("usage_source", .str estimate.usageSource),
      ("estimates", .obj (estimate.estimates.map fun e => (e.1, e.2.toJson))),
      ("complete", .bool estimate.complete),
      ("unknown_reason", Json.ofOption .str estimate.unknownReason)])

/-- The rates by currency and category. -/
abbrev Rates := Dict String (Dict String Price)

/-- A price takes the place of an earlier one. -/
def addRate (currencies : Rates) (price : Price) : Rates :=
  let rates := (currencies.get? price.currency).getD Dict.empty
  let newer := (rates.get? price.category).all fun previous =>
    previous.effectiveAt < price.effectiveAt
  currencies.set price.currency (if newer then rates.set price.category price else rates)

/-- The rates that apply at a time. -/
def effectiveRates (intent : CostIntent) (priceAt : String) (prices : List Price) : Rates :=
  (prices.filter fun price => price.provider = intent.provider ∧ price.model = intent.model ∧
    ¬ priceAt < price.effectiveAt).foldl addRate Dict.empty

/-- `sum(…, Decimal(0))`. -/
def totalAmount (lines : List CostLine) : Except PyError Decimal :=
  lines.foldlM (fun sum line =>
    match parseDecimal line.amount with
    | some (.finite amount) =>
      match Decimal.add feeContext sum amount with
      | some sum => .ok sum
      | none => .error (.raised "Overflow" "")
    | _ => .error (.raised "InvalidOperation" "")) (.ofNat 0)

def estimateCurrency (usage : Dict String ℕ) (basis : String) (rates : Dict String Price) :
    Except PyError CurrencyEstimate := do
  let (lines, unknown) ← priceLines usage rates basis
  let amount ← totalAmount lines
  return {
    knownAmount := if lines = [] then none else some (decimalText amount)
    complete := unknown = [], unknownCategories := unknown, lines }

/-- The estimate of a reserved attempt. -/
def estimate (intent : CostIntent) (sessionId : String) (reservation : Reservation)
    (settlement : Option Settlement) (prices : List Price) : Except PyError CostEstimate := do
  let usage := (settlement.map (·.usage)).getD Dict.empty
  let currencies := effectiveRates intent reservation.reservedAt prices
  let estimates ← currencies.entries.mapM fun c => do
    let estimate ← estimateCurrency usage reservation.basis c.2
    return (c.1, estimate)
  return {
    intent, sessionId, pricingAt := reservation.reservedAt
    usageSource := (settlement.map (·.usageSource)).getD "unknown"
    estimates, complete := estimates ≠ [] && estimates.all fun e => e.2.complete
    unknownReason := if estimates = [] then some "no_effective_price" else none }

namespace CostLedger

/-- The loop of `register_price`. -/
def decideRegister (payload : Price) : List Event → Except PyError (Price × List (EventType × Json))
  | [] => .ok (payload, [(.priceRegistered, payload.toJson)])
  | event :: events =>
    if event.type ≠ .priceRegistered then decideRegister payload events
    else do
      let old ← Price.ofJson event.payload
      if old.versionId = payload.versionId then do
        raiseIf (old ≠ payload) (.value "Price version identity was reused")
        return (payload, [])
      else do
        raiseIf (old.sameSlot payload)
          (.value "A price category already has a version at this time")
        decideRegister payload events

/-- `register_price`. -/
def registerPrice (s : RuntimeStore) (env : Env) (sessionId : String) (price : PriceVersion) :
    Except PyError Price × RuntimeStore :=
  match price.payload with
  | .error error => (.error error, s)
  | .ok payload => s.transactFacts env sessionId priceFacts (decideRegister payload) "user"

def checkIntent (intent : CostIntent) : Except PyError Unit := do
  let _ ← checkText intent.attemptId "attempt identity"
  let _ ← checkText intent.provider "provider"
  let _ ← checkText intent.model "model"
  let _ ← checkText intent.estimateId "estimate identity"
  return ()

/-- The payloads of one kind of facts. -/
def payloads {α : Type} (kind : EventType) (decode : Json → Except PyError α)
    (events : List Event) : Except PyError (List α) :=
  (events.filter fun event => event.type = kind).mapM fun event => decode event.payload

/-- The checks of a new estimate against the earlier ones. -/
def checkRevaluation (intent : CostIntent) (prior : List CostIntent) : Except PyError Unit :=
  match intent.reevaluationOf with
  | none =>
    raiseIf (∃ old ∈ prior, old.attemptId = intent.attemptId)
      (.value "An existing cost estimate requires explicit reevaluation")
  | some revaluated =>
    raiseIf (¬ (prior.find? fun old => old.estimateId = revaluated).any fun old =>
        old.attemptId = intent.attemptId ∧ old.provider = intent.provider ∧
          old.model = intent.model)
      (.value "Revaluation must reference an estimate of the same attempt")

/-- `decide` of `estimate_cost`. -/
def decideEstimate (intent : CostIntent) (sessionId : String) (events : List Event) :
    Except PyError (Json × List (EventType × Json)) := do
  let reservations ← payloads .budgetReserved Reservation.ofJson events
  match reservations.find? fun r => r.attemptId = intent.attemptId with
  | none => .error (.value "Unknown attempt reservation")
  | some reservation => do
    raiseIf (reservation.sessionId ≠ sessionId) (.value "Attempt/session identity mismatch")
    let prior ← payloads .costEstimated
      (fun payload => do return (← CostIntent.ofJson payload, payload)) events
    match prior.find? fun old => old.1.estimateId = intent.estimateId with
    | some old => do
      raiseIf (old.1 ≠ intent) (.value "Cost estimate identity was reused")
      return (old.2, [])
    | none => do
      checkRevaluation intent (prior.map Prod.fst)
      let settlements ← payloads .budgetSettled Settlement.ofJson events
      let settlement := (settlements.filter fun p => p.attemptId = intent.attemptId).getLast?
      let prices ← payloads .priceRegistered Price.ofJson events
      let result ← estimate intent sessionId reservation settlement prices
      return (result.toJson, [(.costEstimated, result.toJson)])

/-- `estimate_cost`. -/
def estimateCost (s : RuntimeStore) (env : Env) (sessionId : String) (intent : CostIntent) :
    Except PyError Json × RuntimeStore :=
  match checkIntent intent with
  | .error error => (.error error, s)
  | .ok () => s.transactFacts env sessionId (priceFacts ++ budgetFacts)
      (decideEstimate intent sessionId)

end CostLedger

end Eventide
