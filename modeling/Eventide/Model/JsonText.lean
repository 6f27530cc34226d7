import Eventide.Model.Json
import Mathlib.Data.List.Sort

/-! # The text of a JSON value

`json.dumps(value, ensure_ascii=False)`. The text of a float is left to Python. -/

namespace Eventide.Json

/-- `\u00` and two digits. -/
def controlText (n : ℕ) : List Char :=
  "\\u00".toList ++ [Nat.digitChar (n / 16), Nat.digitChar (n % 16)]

/-- A character inside a string. -/
def escape (c : Char) : List Char :=
  match c.toNat with
  | 34 => "\\\"".toList
  | 92 => "\\\\".toList
  | 10 => "\\n".toList
  | 13 => "\\r".toList
  | 9 => "\\t".toList
  | 8 => "\\b".toList
  | 12 => "\\f".toList
  | n => if n < 32 then controlText n else [c]

def quote : List Char := "\"".toList

def dumpsStr (text : String) : List Char := quote ++ text.toList.flatMap escape ++ quote

/-- What stands before an item that is not the first. -/
def separator (first : Bool) : List Char := if first then [] else ", ".toList

mutual

/-- The value that `sort_keys=True` writes: each key once, in the order of its characters. -/
def sortKeys : Json → Json
  | arr items => arr (sortItems items)
  | obj fields => obj (sortFields [] fields)
  | value => value

def sortItems : List Json → List Json
  | [] => []
  | item :: items => sortKeys item :: sortItems items

def sortFields (seen : List String) : List (String × Json) → List (String × Json)
  | [] => []
  | (key, value) :: fields =>
    let rest := sortFields (key :: seen) fields
    if seen.contains key then rest
    else List.orderedInsert (fun a b => a.1 ≤ b.1) (key, sortKeys value) rest

end

variable (floatText : ℚ → List Char)

mutual

def dumps : Json → List Char
  | null => "null".toList
  | bool value => if value then "true".toList else "false".toList
  | int value => (toString value).toList
  | float value => floatText value
  | str text => dumpsStr text
  | arr items => "[".toList ++ dumpsItems true items ++ "]".toList
  | obj fields => "\x7b".toList ++ dumpsFields [] fields ++ "\x7d".toList

def dumpsItems (first : Bool) : List Json → List Char
  | [] => []
  | item :: items => separator first ++ dumps item ++ dumpsItems false items

/-- A field that an earlier one shadows is not there. -/
def dumpsFields (seen : List String) : List (String × Json) → List Char
  | [] => []
  | (key, value) :: fields =>
    (if seen.contains key then []
      else separator seen.isEmpty ++ dumpsStr key ++ ": ".toList ++ dumps value) ++
    dumpsFields (key :: seen) fields

end

/-- `len(json.dumps(value, ensure_ascii=False))`. -/
def size (value : Json) : ℕ := (dumps floatText value).length

end Eventide.Json
