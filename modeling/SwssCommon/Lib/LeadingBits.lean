import Mathlib.Data.BitVec
import Mathlib.Data.Nat.Bitwise

/-! # Blocks of numbers with the same leading bits

The numbers of `w` bits that have their first bits in common form a block, from the one with zeros
after them to the one with ones.
-/

namespace SwssCommon.LeadingBits

open BitVec

variable {w : Nat}

/-- The number with these bits, of which the first is the most significant. -/
def leading : (w : Nat) → (Nat → Bool) → BitVec w
  | 0, _ => 0#0
  | w + 1, bit => (leading w bit).concat (bit w)

theorem getMsbD_leading {bit i} (within : i < w) :
    (leading w bit).getMsbD i = bit i := by
  induction w with
  | zero => cases within
  | succ w ih =>
    rw [leading]
    cases Nat.lt_succ_iff_lt_or_eq.mp within with
    | inl before => simp [before, ih before]
    | inr last => simp [last]

def ones (w m : Nat) : BitVec w :=
  leading w fun i => decide (i < m)

theorem getMsbD_ones {m i} (within : i < w) : (ones w m).getMsbD i = decide (i < m) :=
  getMsbD_leading within

/-- The first of the numbers that agree in the places of the mask. -/
def first (x mask : BitVec w) : BitVec w :=
  x &&& mask

def last (x mask : BitVec w) : BitVec w :=
  x ||| ~~~mask

theorem first_last (x mask : BitVec w) : first (last x mask) mask = first x mask := by
  apply eq_of_getMsbD_eq
  intro i within
  simp only [first, last, getMsbD_and, getMsbD_or, getMsbD_not]
  cases x.getMsbD i <;> cases mask.getMsbD i <;> simp [within]

theorem le_last {x y mask : BitVec w} (same : first y mask = first x mask) :
    y ≤ last x mask := by
  have covered : y &&& last x mask = y := by
    apply eq_of_getMsbD_eq
    intro i within
    have here := congrArg (getMsbD · i) same
    simp only [first, getMsbD_and] at here
    simp only [last, getMsbD_and, getMsbD_or, getMsbD_not]
    revert here
    cases y.getMsbD i <;> cases x.getMsbD i <;> cases mask.getMsbD i <;> simp [within]
  rw [← covered]
  exact Nat.and_le_right

end SwssCommon.LeadingBits
