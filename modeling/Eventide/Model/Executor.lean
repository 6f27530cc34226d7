import Mathlib.Data.Int.Basic

/-! # The output of a command

`_BoundedOutput` keeps both ends of what a process writes, and `_collect` drains the pipes. -/

namespace Eventide

/-- `_BoundedOutput`. -/
structure BoundedOutput where
  headLimit : ℕ
  tailLimit : ℕ
  head : List UInt8 := []
  tail : List UInt8 := []
  totalBytes : ℕ := 0

namespace BoundedOutput

/-- `__init__`, of a limit that an executor accepts. -/
def make (limit : ℕ) : BoundedOutput where
  headLimit := (limit + 1) / 2
  tailLimit := limit / 2

/-- `append`. -/
def append (output : BoundedOutput) (data : List UInt8) : BoundedOutput :=
  let headSize := min (output.headLimit - output.head.length) data.length
  let tail := output.tail ++ data.drop headSize
  { output with
    totalBytes := output.totalBytes + data.length
    head := output.head ++ data.take headSize
    tail := if output.tailLimit = 0 then output.tail
      else tail.drop (tail.length - output.tailLimit) }

/-- `omitted_bytes`. -/
def omittedBytes (output : BoundedOutput) : ℤ :=
  output.totalBytes - output.head.length - output.tail.length

/-- `drain`, over what the reads of a stream return. -/
def drain (output : BoundedOutput) (chunks : List (List UInt8)) : BoundedOutput :=
  chunks.foldl append output

end BoundedOutput

end Eventide
