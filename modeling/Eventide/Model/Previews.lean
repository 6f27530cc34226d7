import Eventide.Library.Replace
import Eventide.Model.PyText

/-! # Previews of a stream

`normalize` takes the secrets out of a text, and `SafeTextBuffer` holds back the end of a stream
until no secret can begin in it. -/

namespace Eventide

/-- `"[REDACTED]"`. -/
def redacted : PyStr := Text.mark (.scalar '[') (PyStr.ofString "REDACTED") (.scalar ']')

/-- `normalize`, of a text. -/
def normalize (secrets : List PyStr) (value : PyStr) : PyStr :=
  secrets.foldl (fun value secret =>
    if secret ≠ [] then Text.replaceAll secret redacted value else value) value

/-- `SafeTextBuffer`. -/
structure SafeTextBuffer where
  secrets : List PyStr
  lookahead : ℕ
  clean : PyStr → PyStr
  pending : PyStr
  enabled : Bool

namespace SafeTextBuffer

/-- `__init__`. -/
def make (secrets : List PyStr) (clean : PyStr → PyStr) : SafeTextBuffer :=
  let kept := secrets.filter fun secret => secret ≠ []
  let lookahead := (kept.map fun secret => secret.length - 1).foldl max 0
  { secrets := kept
    lookahead
    clean
    pending := []
    enabled := decide (lookahead ≤ 65536) }

/-- The places that `pending.find(secret, …)` goes through. -/
def occurrences (secret pending : PyStr) : List ℕ :=
  (List.range (pending.length + 1)).filter fun start => secret.isPrefixOf (pending.drop start)

/-- One turn of the loop over the secrets: the cut goes to the start of the first occurrence
that it falls into. -/
def lower (pending : PyStr) (cut : ℕ) (secret : PyStr) : ℕ :=
  match (occurrences secret pending).find? fun start =>
    start < cut ∧ cut < start + secret.length with
  | some start => start
  | none => cut

/-- Where `feed` cuts the pending text. -/
def cut (buffer : SafeTextBuffer) (pending : PyStr) (final : Bool) : ℕ :=
  buffer.secrets.foldl (lower pending)
    (if final then pending.length else pending.length - buffer.lookahead)

/-- `feed`. -/
def feed (buffer : SafeTextBuffer) (text : PyStr) (final : Bool) : PyStr × SafeTextBuffer :=
  if !buffer.enabled then ([], buffer)
  else
    let pending := buffer.pending ++ text
    let cut := buffer.cut pending final
    (buffer.clean (pending.take cut), { buffer with pending := pending.drop cut })

/-- The outputs of the calls with these fragments and of the last, final one. -/
def preview (buffer : SafeTextBuffer) : List PyStr → PyStr → PyStr
  | [], last => (buffer.feed last true).1
  | fragment :: fragments, last =>
    (buffer.feed fragment false).1 ++ (buffer.feed fragment false).2.preview fragments last

end SafeTextBuffer

end Eventide
