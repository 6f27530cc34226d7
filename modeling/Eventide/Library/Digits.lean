import Mathlib.Data.String.Basic
import Mathlib.Tactic.Linarith

/-! # Numbers as decimal texts

The number of a text of digits, and the order of texts whose numbers have fixed widths. -/

namespace Digits

open Nat (ofDigitChars toDigits)

/-- The number that a text of digits stands for. -/
def number (cs : List Char) : ℕ := ofDigitChars 10 cs 0

theorem number_cons (c : Char) (cs : List Char) :
    number (c :: cs) = 10 ^ cs.length * (c.toNat - '0'.toNat) + number cs := by
  rw [number, Nat.ofDigitChars_cons, Nat.ofDigitChars_eq_ofDigitChars_zero, Nat.mul_zero,
    Nat.zero_add, number]

theorem number_append (xs ys : List Char) :
    number (xs ++ ys) = 10 ^ ys.length * number xs + number ys := by
  rw [number, Nat.ofDigitChars_append, Nat.ofDigitChars_eq_ofDigitChars_zero, number, number]

@[simp] theorem number_toDigits (n : ℕ) : number (toDigits 10 n) = n :=
  Nat.ofDigitChars_ten_toDigits

theorem number_zeros (n : ℕ) (cs : List Char) :
    number (List.replicate n '0' ++ cs) = number cs := by
  rw [number_append, number, Nat.ofDigitChars_replicate_zero, Nat.mul_zero, Nat.mul_zero,
    Nat.zero_add]

theorem isDigit_toDigits (n : ℕ) : ∀ c ∈ toDigits 10 n, c.isDigit = true := fun _ hc =>
  Nat.isDigit_of_mem_toDigits (by decide) (by decide) hc

theorem isDigit_iff {c : Char} : c.isDigit = true ↔ 48 ≤ c.toNat ∧ c.toNat ≤ 57 := by
  simp only [Char.isDigit, Bool.and_eq_true, decide_eq_true_eq, UInt32.le_iff_toNat_le]
  exact Iff.rfl

/-! ## Fixed widths -/

theorem number_lt {cs : List Char} (h : ∀ c ∈ cs, c.isDigit = true) :
    number cs < 10 ^ cs.length := by
  induction cs with
  | nil => decide
  | cons c cs ih =>
    obtain ⟨hc, hcs⟩ := List.forall_mem_cons.mp h
    have hdigit := (isDigit_iff.mp hc).2
    have hzero : '0'.toNat = 48 := rfl
    have hrest := ih hcs
    rw [number_cons, List.length_cons, Nat.pow_succ, hzero]
    have hle : 10 ^ cs.length * (c.toNat - 48) ≤ 10 ^ cs.length * 9 :=
      Nat.mul_le_mul_left _ (by omega)
    omega

/-- Texts of digits of one length are in the order of their numbers. -/
theorem lt_of_number_lt {xs ys : List Char} (hlength : xs.length = ys.length)
    (hx : ∀ c ∈ xs, c.isDigit = true) (hy : ∀ c ∈ ys, c.isDigit = true)
    (h : number xs < number ys) : xs < ys := by
  induction xs generalizing ys with
  | nil =>
    obtain rfl := List.eq_nil_of_length_eq_zero hlength.symm
    exact absurd h (lt_irrefl _)
  | cons x xs ih =>
    cases ys with
    | nil => cases hlength
    | cons y ys =>
      obtain ⟨hx0, hxs⟩ := List.forall_mem_cons.mp hx
      obtain ⟨hy0, hys⟩ := List.forall_mem_cons.mp hy
      have hlen : xs.length = ys.length := Nat.succ.inj hlength
      have hxd := isDigit_iff.mp hx0
      have hyd := isDigit_iff.mp hy0
      have hzero : '0'.toNat = 48 := rfl
      rw [number_cons, number_cons, hlen, hzero] at h
      rw [List.cons_lt_cons_iff]
      rcases lt_trichotomy x.toNat y.toNat with hlt | heq | hgt
      · exact .inl hlt
      · obtain rfl : x = y := Char.toNat_inj.mp heq
        exact .inr ⟨rfl, ih hlen hxs hys (by omega)⟩
      · have hbound := number_lt hys
        have hstep : 10 ^ ys.length * (y.toNat - 48) + 10 ^ ys.length ≤
            10 ^ ys.length * (x.toNat - 48) := by
          rw [← Nat.mul_succ]
          exact Nat.mul_le_mul_left _ (by omega)
        omega

theorem append_lt_append {α : Type} [LT α] {xs ys : List α} (hlength : xs.length = ys.length)
    (h : xs < ys) (s t : List α) : xs ++ s < ys ++ t := by
  induction xs generalizing ys with
  | nil =>
    obtain rfl := List.eq_nil_of_length_eq_zero hlength.symm
    exact absurd h (List.not_lt_nil [])
  | cons x xs ih =>
    cases ys with
    | nil => cases hlength
    | cons y ys =>
      rw [List.cons_append, List.cons_append, List.cons_lt_cons_iff]
      rcases List.cons_lt_cons_iff.mp h with hlt | ⟨rfl, hrest⟩
      · exact .inl hlt
      · exact .inr ⟨rfl, ih (Nat.succ.inj hlength) hrest⟩

/-- A number with leading zeros, of this width at least. -/
def padded (width n : ℕ) : List Char :=
  List.replicate (width - (toDigits 10 n).length) '0' ++ toDigits 10 n

theorem number_padded (width n : ℕ) : number (padded width n) = n := by
  rw [padded, number_zeros, number_toDigits]

theorem isDigit_padded (width n : ℕ) : ∀ c ∈ padded width n, c.isDigit = true := by
  intro c hc
  rcases List.mem_append.mp hc with hc | hc
  · obtain rfl := List.eq_of_mem_replicate hc
    rfl
  · exact isDigit_toDigits n c hc

theorem length_padded {width n : ℕ} (h : n < 10 ^ width) (hpos : 0 < width) :
    (padded width n).length = width := by
  have hle := (Nat.length_toDigits_le_iff (by decide) hpos).mpr h
  rw [padded, List.length_append, List.length_replicate]
  omega

/-- Numbers with their widths and what is written after each. -/
def written : List (ℕ × List Char) → List ℕ → List Char → List Char
  | (width, mark) :: layout, n :: ns, rest => padded width n ++ (mark ++ written layout ns rest)
  | _, _, rest => rest

/-- Numbers that fit their widths. -/
def Fits : List (ℕ × List Char) → List ℕ → Prop
  | (width, _) :: layout, n :: ns => 0 < width ∧ n < 10 ^ width ∧ Fits layout ns
  | [], [] => True
  | _, _ => False

theorem written_lt {layout : List (ℕ × List Char)} {ns ms : List ℕ} (hn : Fits layout ns)
    (hm : Fits layout ms) (h : ns < ms) (s t : List Char) :
    written layout ns s < written layout ms t := by
  induction layout generalizing ns ms with
  | nil =>
    cases ms with
    | nil => exact absurd h (List.not_lt_nil ns)
    | cons m ms => cases hm
  | cons field layout ih =>
    obtain ⟨width, mark⟩ := field
    cases ns with
    | nil => cases hn
    | cons n ns =>
      cases ms with
      | nil => cases hm
      | cons m ms =>
        obtain ⟨hpos, hnlt, hns⟩ := hn
        obtain ⟨-, hmlt, hms⟩ := hm
        rw [written, written]
        have hlength : (padded width n).length = (padded width m).length := by
          rw [length_padded hnlt hpos, length_padded hmlt hpos]
        rcases List.cons_lt_cons_iff.mp h with hlt | ⟨rfl, hrest⟩
        · refine append_lt_append hlength (lt_of_number_lt hlength (isDigit_padded _ _)
            (isDigit_padded _ _) ?_) _ _
          rwa [number_padded, number_padded]
        · exact List.append_left_lt (List.append_left_lt (ih hns hms hrest))

theorem written_lt_rest (layout : List (ℕ × List Char)) (ns : List ℕ) {s t : List Char}
    (h : s < t) : written layout ns s < written layout ns t := by
  induction layout generalizing ns with
  | nil => simpa [written] using h
  | cons field layout ih =>
    cases ns with
    | nil => simpa [written] using h
    | cons n ns => exact List.append_left_lt (List.append_left_lt (ih ns))

end Digits
