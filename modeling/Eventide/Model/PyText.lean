import Mathlib.Data.List.Basic
import Mathlib.Data.String.Basic

/-! # Python strings

A `str` of Python holds code points, a surrogate that stands alone among them. UTF-8 has bytes for
the others only. -/

namespace Eventide

/-- A code point. -/
inductive PyChar where
  | scalar (c : Char)
  | surrogate (code : Fin 2048)
  deriving DecidableEq, Repr

/-- `ord(char)`. -/
def PyChar.code : PyChar → ℕ
  | .scalar c => c.toNat
  | .surrogate code => 0xD800 + code

abbrev PyStr := List PyChar

namespace PyStr

def ofChars (text : List Char) : PyStr := text.map .scalar

def ofString (text : String) : PyStr := ofChars text.toList

/-- The characters of a text without surrogates. -/
def chars? : PyStr → Option (List Char)
  | [] => some []
  | .scalar c :: text => (chars? text).map (c :: ·)
  | .surrogate _ :: _ => none

/-- The text as Lean has it, where UTF-8 has bytes for all of it. -/
def string? (text : PyStr) : Option String := text.chars?.map String.ofList

end PyStr

/-- `text.encode("utf-8")`, of a text without surrogates. -/
def encodeChars (text : List Char) : List UInt8 := text.flatMap String.utf8EncodeChar

/-- `text.encode("utf-8")`. -/
def encode (text : PyStr) : Option (List UInt8) := text.chars?.map encodeChars

/-- `raw.decode("utf-8")`. -/
def decode (raw : List UInt8) : Option (List Char) :=
  raw.toByteArray.utf8Decode?.map Array.toList

end Eventide
