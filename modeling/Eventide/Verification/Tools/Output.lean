import Eventide.Model.Executor
import Mathlib.Data.List.DropRight
import Mathlib.Tactic.Ring

/-! # What a bounded output captures -/

namespace Eventide.BoundedOutput

/-- The output has taken these bytes: their first ones, the last ones of the rest, and their
number. -/
structure Captures (limit : ℕ) (bytes : List UInt8) (output : BoundedOutput) : Prop where
  headLimit : output.headLimit = (limit + 1) / 2
  tailLimit : output.tailLimit = limit / 2
  head : output.head = bytes.take ((limit + 1) / 2)
  tail : output.tail = (bytes.drop ((limit + 1) / 2)).rtake (limit / 2)
  totalBytes : output.totalBytes = bytes.length

theorem head_append (output : BoundedOutput) (data : List UInt8) :
    (output.append data).head =
      output.head ++ data.take (output.headLimit - output.head.length) := by
  have htake : data.take (min (output.headLimit - output.head.length) data.length) =
      data.take (output.headLimit - output.head.length) :=
    List.take_eq_take_iff.mpr (by omega)
  rw [← htake]
  rfl

theorem tail_append (output : BoundedOutput) (data : List UInt8)
    (h : output.tailLimit = 0 → output.tail = []) : (output.append data).tail =
      (output.tail ++ data.drop (output.headLimit - output.head.length)).rtake
        output.tailLimit := by
  have hdrop : data.drop (min (output.headLimit - output.head.length) data.length) =
      data.drop (output.headLimit - output.head.length) := by
    rcases Nat.le_total (output.headLimit - output.head.length) data.length with hle | hle
    · rw [Nat.min_eq_left hle]
    · rw [Nat.min_eq_right hle, List.drop_eq_nil_of_le le_rfl, List.drop_eq_nil_of_le hle]
  rw [← hdrop]
  by_cases hlimit : output.tailLimit = 0
  · simp [append, hlimit, h hlimit]
  · simp only [append, if_neg hlimit]
    rfl

/-- The last items of a list, when others are appended to what was kept of it. -/
theorem rtake_append_rtake (n : ℕ) (xs ys : List UInt8) :
    (xs.rtake n ++ ys).rtake n = (xs ++ ys).rtake n := by
  simp only [List.rtake, List.length_append, List.length_drop, List.drop_append, List.drop_drop]
  congr 2 <;> omega

theorem captures_make (limit : ℕ) : Captures limit [] (make limit) :=
  ⟨rfl, rfl, by simp [make], by simp [make], rfl⟩

/-- One read: it fills the head, and pushes out of the tail what no longer fits. -/
theorem Captures.append {limit : ℕ} {bytes : List UInt8} {output : BoundedOutput}
    (h : Captures limit bytes output) (data : List UInt8) :
    Captures limit (bytes ++ data) (output.append data) := by
  have hroom : output.headLimit - output.head.length = (limit + 1) / 2 - bytes.length := by
    rw [h.headLimit, h.head, List.length_take]
    omega
  refine ⟨h.headLimit, h.tailLimit, ?_, ?_, ?_⟩
  · rw [head_append, hroom, h.head, List.take_append]
  · rw [tail_append, hroom, h.tail, h.tailLimit, List.drop_append, rtake_append_rtake]
    intro hzero
    rw [h.tail, ← h.tailLimit, hzero, List.rtake_zero]
  · simp [BoundedOutput.append, h.totalBytes]

theorem Captures.drain {limit : ℕ} {bytes : List UInt8} {output : BoundedOutput}
    (h : Captures limit bytes output) (chunks : List (List UInt8)) :
    Captures limit (bytes ++ chunks.flatten) (output.drain chunks) := by
  induction chunks generalizing bytes output with
  | nil => simpa [BoundedOutput.drain] using h
  | cons chunk chunks ih =>
    have hrest := ih (h.append chunk)
    rwa [List.append_assoc] at hrest

/-- What was taken determines the output. -/
theorem Captures.unique {limit : ℕ} {bytes : List UInt8} {output other : BoundedOutput}
    (h : Captures limit bytes output) (k : Captures limit bytes other) : output = other := by
  obtain ⟨h1, h2, h3, h4, h5⟩ := h
  obtain ⟨k1, k2, k3, k4, k5⟩ := k
  cases output
  cases other
  simp_all

/-- The bytes in neither end lie between them, and are counted. -/
theorem Captures.omitted {limit : ℕ} {bytes : List UInt8} {output : BoundedOutput}
    (h : Captures limit bytes output) : ∃ between,
      bytes = output.head ++ between ++ output.tail ∧ output.omittedBytes = between.length := by
  have hrest : bytes.drop ((limit + 1) / 2) =
      (bytes.drop ((limit + 1) / 2)).rdrop (limit / 2) ++ output.tail := by
    rw [h.tail, List.rdrop, List.rtake, List.take_append_drop]
  have hbytes : bytes = output.head ++ (bytes.drop ((limit + 1) / 2)).rdrop (limit / 2) ++
      output.tail := by
    rw [List.append_assoc, ← hrest, h.head, List.take_append_drop]
  refine ⟨_, hbytes, ?_⟩
  have hlength := congrArg List.length hbytes
  rw [List.length_append, List.length_append] at hlength
  rw [omittedBytes, h.totalBytes]
  omega

/-- However the bytes are divided into reads, both ends are kept, and the rest is counted. -/
theorem drain_captures (limit : ℕ) (chunks : List (List UInt8)) :
    ((make limit).drain chunks).head = chunks.flatten.take ((limit + 1) / 2) ∧
      ((make limit).drain chunks).tail =
        (chunks.flatten.drop ((limit + 1) / 2)).rtake (limit / 2) ∧
      (∃ between, chunks.flatten =
          ((make limit).drain chunks).head ++ between ++ ((make limit).drain chunks).tail ∧
        ((make limit).drain chunks).omittedBytes = between.length) ∧
      (((make limit).drain chunks).head ++ ((make limit).drain chunks).tail = chunks.flatten ↔
        ((make limit).drain chunks).omittedBytes = 0) ∧
      ∀ others : List (List UInt8), others.flatten = chunks.flatten →
        (make limit).drain others = (make limit).drain chunks := by
  have hcaptures : ∀ reads : List (List UInt8),
      Captures limit reads.flatten ((make limit).drain reads) := fun reads => by
    simpa using (captures_make limit).drain reads
  have h := hcaptures chunks
  obtain ⟨between, hbytes, homitted⟩ := h.omitted
  refine ⟨h.head, h.tail, ⟨between, hbytes, homitted⟩, ?_, fun others heq => ?_⟩
  · rw [homitted]
    constructor
    · intro hwhole
      have hlength := congrArg List.length (hwhole.trans hbytes)
      simp only [List.length_append] at hlength
      omega
    · intro hzero
      have hnil : between = [] := List.eq_nil_of_length_eq_zero (by omega)
      rw [hnil, List.append_nil] at hbytes
      exact hbytes.symm
  · exact (heq ▸ hcaptures others).unique h

end Eventide.BoundedOutput
