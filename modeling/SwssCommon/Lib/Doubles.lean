import SwssCommon.Lib.Bytes

/-! # Whole numbers as doubles

Whole numbers are doubles up to `2 ^ 53` and are rounded beyond, to the even neighbour if half-way.
`Tracks x n` says that a double knows a sum exactly up to `2 ^ 53`, and beyond only that it is
beyond. `printG` is the conversion `%.14g` of `printf`, for any precision.
-/

namespace SwssCommon.Doubles

open Bytes List

/-- The quotient rounded to the nearest whole number, half-way to the even one. -/
def halfEven (n d : Nat) : Nat :=
  if d < 2 * (n % d) ∨ d = 2 * (n % d) ∧ n / d % 2 = 1 then n / d + 1 else n / d

theorem le_halfEven (n d : Nat) : n / d ≤ halfEven n d := by
  unfold halfEven
  split <;> omega

def round (n : Nat) : Nat :=
  let dropped := n.log2 - 52
  halfEven n (2 ^ dropped) * 2 ^ dropped

def add (x y : Nat) : Nat :=
  round (x + y)

variable {n : Nat}

theorem round_of_lt (small : n < 2 ^ 53) : round n = n := by
  have dropped : n.log2 - 52 = 0 := by
    cases n with
    | zero => rfl
    | succ n =>
      have bits : (n + 1).log2 < 53 := (Nat.log2_lt (Nat.succ_ne_zero n)).mpr small
      omega
  simp [round, dropped, halfEven, Nat.mod_one]

theorem le_round (big : 2 ^ 53 ≤ n) : 2 ^ 53 ≤ round n := by
  have positive : n ≠ 0 := by omega
  have bits : 53 ≤ n.log2 := (Nat.le_log2 positive).mpr big
  have quotient : 2 ^ 52 ≤ n / 2 ^ (n.log2 - 52) := by
    rw [Nat.le_div_iff_mul_le (Nat.two_pow_pos _), ← Nat.pow_add,
      Nat.add_sub_cancel' (by omega : 52 ≤ n.log2)]
    exact Nat.log2_self_le positive
  have shift : 2 ^ 1 ≤ 2 ^ (n.log2 - 52) := Nat.pow_le_pow_right (by decide) (by omega)
  calc 2 ^ 53 = 2 ^ 52 * 2 ^ 1 := by decide
    _ ≤ halfEven n (2 ^ (n.log2 - 52)) * 2 ^ (n.log2 - 52) :=
      Nat.mul_le_mul (quotient.trans (le_halfEven _ _)) shift

/-- The double is the number, or both are `2 ^ 53` or more. -/
def Tracks (x n : Nat) : Prop :=
  x = n ∨ 2 ^ 53 ≤ x ∧ 2 ^ 53 ≤ n

theorem tracks_round (n : Nat) : Tracks (round n) n := by
  by_cases small : n < 2 ^ 53
  · exact .inl (round_of_lt small)
  · have big : 2 ^ 53 ≤ n := Nat.le_of_not_lt small
    exact .inr ⟨le_round big, big⟩

theorem Tracks.trans {x y} (first : Tracks x y) (second : Tracks y n) : Tracks x n := by
  unfold Tracks at *
  omega

theorem Tracks.add {x y m} (left : Tracks x n) (right : Tracks y m) :
    Tracks (Doubles.add x y) (n + m) := by
  have sum : Tracks (x + y) (n + m) := by
    unfold Tracks at *
    omega
  exact (tracks_round (x + y)).trans sum

/-! ## Printing -/

def stripZeros (digits : Bytes) : Bytes :=
  (digits.reverse.dropWhile (· = digit 0)).reverse

/-- The digits of the significand and the exponent in scientific notation. -/
def scientific (precision n : Nat) : Bytes × Nat :=
  let dropped := (decimal n).length - precision
  let significand := halfEven n (10 ^ dropped)
  if significand = 10 ^ precision then ([digit 1], dropped + precision)
  else (stripZeros (decimal significand), dropped + precision - 1)

def exponentDigits (exponent : Nat) : Bytes :=
  if exponent < 10 then digit 0 :: decimal exponent else decimal exponent

def exponentMark : UInt8 := 101

/-- `%.*g` of a whole number: all its digits if the precision allows, and otherwise scientific
    notation without zeros at the end. -/
def printG (precision n : Nat) : Bytes :=
  if n < 10 ^ precision then decimal n
  else
    let (digits, exponent) := scientific precision n
    digits.take 1 ++ (if digits.length = 1 then [] else ascii "." ++ digits.drop 1) ++
      exponentMark :: ascii "+" ++ exponentDigits exponent

example : printG 14 (2 ^ 46) = ascii "70368744177664" := by decide +kernel

example : printG 14 (10 ^ 14) = ascii "1e+14" := by decide +kernel

example : printG 14 (123456789012345 * 1000) = ascii "1.2345678901234e+17" := by decide +kernel

theorem exponentMark_mem_printG {precision} (big : 10 ^ precision ≤ n) :
    exponentMark ∈ printG precision n := by
  rw [printG, if_neg (Nat.not_lt.mpr big)]
  simp

theorem nul_notMem_decimal (n : Nat) : 0 ∉ decimal n := by
  intro member
  exact absurd (decimal_isDigit n 0 member) (by decide)

theorem nul_notMem_scientific (precision n : Nat) : 0 ∉ (scientific precision n).1 := by
  unfold scientific
  dsimp only
  split
  · exact show 0 ∉ [digit 1] by decide
  · intro member
    rw [stripZeros, mem_reverse] at member
    have digit := (dropWhile_suffix _).subset member
    exact nul_notMem_decimal _ (mem_reverse.mp digit)

theorem nul_notMem_exponentDigits (exponent : Nat) : 0 ∉ exponentDigits exponent := by
  unfold exponentDigits
  split
  · rw [mem_cons, not_or]
    exact ⟨by decide, nul_notMem_decimal exponent⟩
  · exact nul_notMem_decimal exponent

theorem nul_notMem_printG (precision n : Nat) : 0 ∉ printG precision n := by
  unfold printG
  split
  · exact nul_notMem_decimal n
  · have digits := nul_notMem_scientific precision n
    have exponent := nul_notMem_exponentDigits (scientific precision n).2
    generalize scientific precision n = notated at digits exponent ⊢
    have point : 0 ∉
        if notated.1.length = 1 then [] else ascii "." ++ notated.1.drop 1 := by
      split
      · exact not_mem_nil
      · rw [mem_append, not_or]
        exact ⟨by decide, fun member => digits (mem_of_mem_drop member)⟩
    have mark : 0 ∉ exponentMark :: ascii "+" := by decide
    simp only [mem_append, not_or]
    exact ⟨⟨⟨fun member => digits (mem_of_mem_take member), point⟩, mark⟩, exponent⟩

theorem printG_eq_decimal_iff {precision x} :
    printG precision x = decimal n ↔ x < 10 ^ precision ∧ x = n := by
  constructor
  · intro printed
    by_cases small : x < 10 ^ precision
    · rw [printG, if_pos small] at printed
      refine ⟨small, ?_⟩
      rw [← decimalValue_decimal x, printed, decimalValue_decimal]
    · have mark := exponentMark_mem_printG (Nat.le_of_not_lt small)
      rw [printed] at mark
      exact absurd (decimal_isDigit n _ mark) (by decide)
  · rintro ⟨small, rfl⟩
    rw [printG, if_pos small]

theorem Tracks.printG_eq_iff {precision x} (tracks : Tracks x n)
    (exact : 10 ^ precision ≤ 2 ^ 53) : printG precision x = decimal n ↔ n < 10 ^ precision := by
  rw [printG_eq_decimal_iff]
  unfold Tracks at tracks
  omega

end SwssCommon.Doubles
