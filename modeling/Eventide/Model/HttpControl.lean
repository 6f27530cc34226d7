import Eventide.Model.StoreCalls
import Eventide.Model.JsonText

/-! # HTTP mutations and their receipts -/

namespace Eventide

open Outcome

/-- What `digest` takes from the standard library. -/
structure Digests where
  sha256 : String → String
  floatText : ℚ → List Char

namespace Digests

/-- `json.dumps(value, sort_keys=True, ensure_ascii=False)`. -/
def text (d : Digests) (value : Json) : String :=
  String.ofList (Json.dumps d.floatText value.sortKeys)

/-- `digest`. -/
def digest (d : Digests) (value : Json) : String := d.sha256 (d.text value)

end Digests

/-- An `HTTPException`, with the header of a rejected mutation, or an exception of the store. -/
inductive HttpError where
  | http (statusCode detail : Json) (rejected : Bool := false)
  | python (error : PyError)
  deriving Inhabited

namespace HttpError

def invalidKey : HttpError :=
  .http (.int 422) (.str "Idempotency-Key must be 1–128 visible ASCII characters")

def otherContent : HttpError :=
  .http (.int 409) (.str "Idempotency-Key was already used with different content")

def outcomeUnknown : HttpError :=
  .http (.int 409) (.str "Mutation is running or its outcome is unknown; inspect current state")

end HttpError

/-- `type.startswith("http.mutation_")`. -/
def EventType.isHttpMutation : EventType → Bool
  | httpMutationStarted | httpMutationCompleted | httpMutationFailed => true
  | other name => "http.mutation_".toList.isPrefixOf name.toList
  | _ => false

/-- `payload.get(name)` where only a string can match. -/
def Json.text (payload : Json) (name : String) : Option String := (payload.get? name).bind str?

/-- The test that both kinds of keys pass. -/
def invalidKey (key : String) : Bool :=
  key = "" || 128 < key.length || key.toList.any fun c => c.toNat ≤ 32 || 127 ≤ c.toNat

/-! ## Runs -/

structure RunReceipt where
  runId : String
  fingerprint : Option String
  existing : Bool := false

namespace RuntimeStore

/-- The payload of the first `run.admitted` row of the run. -/
def admittedPayload (s : RuntimeStore) (runId : String) : Json :=
  (((s.runEvents runId).find? (·.type = .runAdmitted)).map (·.payload)).getD (.obj [])

/-- `run_receipt`; `header` is the `Idempotency-Key` of the request. -/
def runReceipt (s : RuntimeStore) (d : Digests) (uuid : String) (header : Option String)
    (sessionId operation : String) (payload : Json) : Except HttpError RunReceipt :=
  match header with
  | none => .ok { runId := "run_" ++ shortHex uuid, fingerprint := none }
  | some key =>
    let hashed := d.digest (.arr [.str sessionId, .str operation, .str key])
    let runId := "run_" ++ String.ofList (hashed.toList.take 32)
    let fingerprint := d.digest (.arr [.str sessionId, .str operation, payload])
    if invalidKey key then .error .invalidKey
    else match s.getRunIdentity runId with
      | none => .ok { runId, fingerprint := some fingerprint }
      | some (run, _) =>
        if run.sessionId ≠ sessionId ∨
            (s.admittedPayload runId).text "request_fingerprint" ≠ some fingerprint then
          .error .otherContent
        else .ok { runId, fingerprint := some fingerprint, existing := true }

end RuntimeStore

/-! ## Mutations -/

/-- The result of a receipt that is fresh is `None`; every recorded one is a dictionary. -/
structure MutationReceipt where
  identity : String
  owner : String
  result : Json := .null

/-- `mutation_key`. -/
def mutationKey (header : Option String) : Except HttpError String :=
  let key := header.getD ""
  if invalidKey key then .error .invalidKey else .ok key

/-- The identity of a mutation. -/
def mutationIdentity (d : Digests) (owner operation key : String) : String :=
  "mutation_" ++ d.digest (.arr [.str owner, .str operation, .str key])

/-- The fact of a mutation that begins. -/
def startedFact (identity operation fingerprint : String) : Fact :=
  { type := .httpMutationStarted, author := "user"
    payload := .obj [("identity", .str identity), ("operation", .str operation),
      ("fingerprint", .str fingerprint)] }

/-- The payload of `fail_mutation`. -/
def failurePayload (identity message : String) (statusCode : ℤ) (rejected : Bool) : Json :=
  .obj ([("identity", .str identity), ("message", .str message),
    ("status_code", .int statusCode)] ++
    if rejected then [("outcome", .str "rejected")] else [])

/-- What `begin_mutation` answers when its identity has rows. -/
def repeatedMutation (identity owner fingerprint : String) (first : Event) (rest : List Event) :
    Except HttpError MutationReceipt :=
  if first.payload.text "fingerprint" ≠ some fingerprint then .error .otherContent
  else
    let terminal := (first :: rest).getLast (List.cons_ne_nil first rest)
    match terminal.type with
    | .httpMutationCompleted =>
      match terminal.payload.get? "result" with
      | some result => .ok { identity, owner, result }
      | none => .error (.python (.key "result"))
    | .httpMutationFailed =>
      match terminal.payload.get? "status_code", terminal.payload.get? "message" with
      | some statusCode, some message =>
        .error (.http statusCode message (terminal.payload.text "outcome" = some "rejected"))
      | none, _ => .error (.python (.key "status_code"))
      | some _, none => .error (.python (.key "message"))
    | _ => .error .outcomeUnknown

namespace RuntimeStore

/-- The rows of a mutation. -/
def mutationEvents (s : RuntimeStore) (owner identity : String) : List Event :=
  (s.sessionEvents owner).filter fun e =>
    e.type.isHttpMutation && e.payload.text "identity" = some identity

/-- `begin_mutation`. -/
def beginMutation (s : RuntimeStore) (d : Digests) (env : Env) (header : Option String)
    (owner operation : String) (payload : Json) :
    Except HttpError MutationReceipt × RuntimeStore :=
  match mutationKey header with
  | .error error => (.error error, s)
  | .ok key =>
    let identity := mutationIdentity d owner operation key
    let fingerprint := d.digest payload
    match s.mutationEvents owner identity with
    | first :: rest => (repeatedMutation identity owner fingerprint first rest, s)
    | [] =>
      match s.appendFact env owner (startedFact identity operation fingerprint) with
      | (.ok _, s') => (.ok { identity, owner }, s')
      | (.error error, s') => (.error (.python error), s')

/-- `finish_mutation`. -/
def finishMutation (s : RuntimeStore) (env : Env) (receipt : MutationReceipt)
    (result : List (String × Json)) : Except PyError Json × RuntimeStore :=
  (s.appendFact env receipt.owner (mutationReceipt receipt.identity (.obj result))).map
    (·.map fun _ => .obj result) id

/-- `fail_mutation`. -/
def failMutation (s : RuntimeStore) (env : Env) (receipt : MutationReceipt) (message : String)
    (statusCode : ℤ) (rejected : Bool) : Except PyError Unit × RuntimeStore :=
  (s.appendFact env receipt.owner
    { type := .httpMutationFailed, author := "user"
      payload := failurePayload receipt.identity message statusCode rejected }).map
    (·.map fun _ => ()) id

end RuntimeStore

/-! ## Calls -/

/-- The facts of the modelled calls that are not receipts are of other kinds. -/
def NoReceipt (kind : EventType) : Prop := kind.isHttpMutation = false

/-- An addition of a decision that returns `result`: of another kind, or its receipt. -/
def ReceiptOf (result : Json) (addition : EventType × Json) : Prop :=
  NoReceipt addition.1 ∨ ∃ identity, addition =
    (.httpMutationCompleted, (RuntimeStore.mutationReceipt identity result).payload)

/-- The receipts of the call are for a dictionary, as every caller of the source writes them. -/
def StoreCall.WritesReceipts : StoreCall → Prop
  | createRun _ _ _ => True
  | admitRun _ _ facts _ => ∀ fact ∈ facts, NoReceipt fact.type
  | appendFact _ fact _ _ => NoReceipt fact.type
  | transactFacts _ _ choose _ _ => ∀ events result additions,
      choose events = .ok (result, additions) →
        result.isObj = true ∧ ∀ a ∈ additions, ReceiptOf result a
  | commitConfiguration _ facts result _ _ => (∀ fact ∈ facts, NoReceipt fact.1) ∧
      ∀ s response, result s = .ok response → response.isObj = true
  | commitSessionMetadata _ _ _ _ result _ _ _ =>
      ∀ s response, result s = .ok response → response.isObj = true

/-- One call on the event loop. A crash after it leaves the store that it committed. -/
inductive HttpCall where
  | begin (header : Option String) (owner operation : String) (payload : Json)
  | finish (receipt : MutationReceipt) (result : List (String × Json))
  | fail (receipt : MutationReceipt) (message : String) (statusCode : ℤ) (rejected : Bool)
  | commit (call : StoreCall) (receipts : call.WritesReceipts)

namespace HttpCall

def perform (d : Digests) (s : RuntimeStore) (env : Env) : HttpCall → RuntimeStore
  | begin header owner operation payload => (s.beginMutation d env header owner operation payload).2
  | finish receipt result => (s.finishMutation env receipt result).2
  | fail receipt message statusCode rejected =>
    (s.failMutation env receipt message statusCode rejected).2
  | commit call _ => (call.perform s env).2

/-- The state of a database after a sequence of calls. -/
def after (d : Digests) (s : RuntimeStore) (calls : List (Env × HttpCall)) : RuntimeStore :=
  runCalls (fun s c => c.2.perform d s c.1) s calls

end HttpCall

end Eventide
