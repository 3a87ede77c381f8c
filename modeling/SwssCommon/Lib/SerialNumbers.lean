import Mathlib.Algebra.Order.BigOperators.Group.Finset
import Mathlib.Data.BitVec
import Mathlib.Order.Lattice.Nat
import Mathlib.Tactic.Abel

/-! # Numbers that wrap around, and the ones that are missing

A sender sends the count of its messages in a word of `w` bits. A receiver subtracts the number it
saw last and one more, and gets the number of messages in between, or a negative one for a message
it may have seen, as long as messages are less than half the words apart.
-/

namespace SwssCommon.Serial

open List Finset

variable {w : Nat}

theorem sub_of_ahead (last missing : Nat) :
    BitVec.ofNat w (last + 1 + missing) - BitVec.ofNat w last - 1#w = BitVec.ofNat w missing := by
  rw [BitVec.ofNat_add, BitVec.ofNat_add]
  abel

theorem sub_of_behind (number behind : Nat) :
    BitVec.ofNat w number - BitVec.ofNat w (number + behind) - 1#w = ~~~BitVec.ofNat w behind := by
  rw [BitVec.ofNat_add, BitVec.not_eq_neg_add]
  abel

theorem zero_sub (last : BitVec w) : 0#w - last - 1#w = BitVec.allOnes w - last := by
  rw [← BitVec.neg_one_eq_allOnes, BitVec.zero_sub]
  abel

theorem toInt_of_ahead {missing} (near : 2 * missing < 2 ^ w) :
    ¬ (BitVec.ofNat w missing).toInt < 0 := by
  rw [BitVec.toInt_neg_iff, BitVec.toNat_ofNat, Nat.mod_eq_of_lt (by omega)]
  omega

theorem toInt_of_behind {behind} (near : 2 * behind + 2 ≤ 2 ^ w) :
    (~~~BitVec.ofNat w behind).toInt < 0 := by
  rw [BitVec.toInt_neg_iff, BitVec.toNat_not, BitVec.toNat_ofNat, Nat.mod_eq_of_lt (by omega)]
  omega

/-! ## Missing numbers -/

/-- The numbers between two of these that are not among them. -/
def missing (numbers : Finset Nat) : Finset Nat :=
  (Finset.range (numbers.sup id)).filter fun x => x ∉ numbers ∧ ∃ a ∈ numbers, a < x

def gap (numbers : Finset Nat) (n : Nat) : Nat :=
  if numbers = ∅ then 0 else n - numbers.sup id - 1

variable {numbers : Finset Nat}

theorem sup_mem (some : numbers ≠ ∅) : numbers.sup id ∈ numbers := by
  obtain ⟨a, member, top⟩ := exists_mem_eq_sup numbers (nonempty_iff_ne_empty.mpr some) id
  rw [top]
  exact member

variable {n : Nat}

theorem le_sup_of_mem (member : n ∈ numbers) : n ≤ numbers.sup id := le_sup (f := id) member

theorem missing_of_ahead (some : numbers ≠ ∅) (ahead : numbers.sup id < n) :
    missing (insert n numbers) = missing numbers ∪ Finset.Ioo (numbers.sup id) n := by
  have top : (insert n numbers).sup id = n := by
    rw [Finset.sup_insert]
    exact sup_eq_left.mpr (le_of_lt ahead)
  ext x
  simp only [missing, top, Finset.mem_filter, Finset.mem_range, Finset.mem_insert, Finset.mem_union,
    Finset.mem_Ioo, not_or, exists_eq_or_imp]
  constructor
  · rintro ⟨below, ⟨_, new⟩, past | ⟨a, member, above⟩⟩
    · omega
    · rcases Nat.lt_trichotomy x (numbers.sup id) with inside | same | beyond
      · exact .inl ⟨inside, new, a, member, above⟩
      · exact absurd (same ▸ sup_mem some) new
      · exact .inr ⟨beyond, below⟩
  · rintro (⟨inside, new, between⟩ | ⟨beyond, below⟩)
    · exact ⟨by omega, ⟨by omega, new⟩, .inr between⟩
    · refine ⟨below, ⟨by omega, fun member => ?_⟩, .inr ⟨_, sup_mem some, beyond⟩⟩
      have := le_sup_of_mem member
      omega

theorem missing_singleton (n : Nat) : missing {n} = ∅ := by
  ext x
  simp only [missing, Finset.sup_singleton, id_eq, Finset.mem_filter, Finset.mem_range,
    Finset.mem_singleton, exists_eq_left, Finset.notMem_empty, iff_false]
  omega

theorem card_missing_insert (order : n ∈ numbers ∨ numbers.sup id < n ∨ numbers = ∅) :
    (missing (insert n numbers)).card = (missing numbers).card + gap numbers n := by
  by_cases empty : numbers = ∅
  · subst empty
    rw [insert_empty_eq, missing_singleton]
    rfl
  rw [gap, if_neg empty]
  rcases order with seen | ahead | none
  · have small := le_sup_of_mem seen
    rw [Finset.insert_eq_of_mem seen]
    omega
  · have apart : Disjoint (missing numbers) (Finset.Ioo (numbers.sup id) n) := by
      rw [Finset.disjoint_left]
      intro x inside beyond
      simp only [missing, Finset.mem_filter, Finset.mem_range] at inside
      simp only [Finset.mem_Ioo] at beyond
      omega
    rw [missing_of_ahead empty ahead, Finset.card_union_of_disjoint apart, Nat.card_Ioo]
  · exact absurd none empty

/-! ## Stretches that overlap -/

theorem gap_eq_zero (next : numbers = ∅ ∨ n - 1 ∈ numbers) : gap numbers n = 0 := by
  unfold gap
  rcases next with none | before
  · rw [if_pos none]
  · have small := le_sup_of_mem before
    rw [if_neg (ne_empty_of_mem before)]
    omega

theorem take_row (i s n : Nat) : (range' s n).take i = range' s (min i n) := by
  cases Nat.le_total n i with
  | inl whole => rw [take_range'_of_length_le whole, min_eq_right whole]
  | inr part => rw [take_range'_of_length_ge part, min_eq_left part]

/-- Numbers come in a row and then in a second row that starts over among them. Each is the next, or
    has come in the first row. -/
theorem next_or_again {a p b k earlier}
    (rows : earlier ++ [n] <+: range' a p ++ range' b k) (start : a ≤ b)
    (meets : b ≤ a + p) :
    ((∀ x ∈ earlier, x < n) ∧ gap earlier.toFinset n = 0) ∨
      (n ∈ earlier ∧ n ∈ range' b k ∧ ∀ x ∈ earlier, x ∈ range' a p) := by
  have before : earlier =
      range' a (min earlier.length p) ++ range' b (min (earlier.length - p) k) := by
    have taken := prefix_iff_eq_take.mp ((prefix_append earlier [n]).trans rows)
    rw [take_append, take_row, take_row, length_range'] at taken
    exact taken
  have here : (range' a p ++ range' b k)[earlier.length]? = some n := by
    obtain ⟨rest, split⟩ := rows
    rw [← split, append_assoc, getElem?_append_right (Nat.le_refl _), Nat.sub_self]
    rfl
  have member (x : Nat) : x ∈ earlier ↔ (a ≤ x ∧ x < a + min earlier.length p) ∨
      (b ≤ x ∧ x < b + min (earlier.length - p) k) := by
    conv_lhs => rw [before]
    rw [mem_append, mem_range'_1, mem_range'_1]
  have empty : earlier.toFinset = ∅ ↔ earlier.length = 0 := by
    rw [toFinset_eq_empty_iff, length_eq_zero_iff]
  rw [getElem?_append, length_range'] at here
  simp only [mem_range'_1]
  by_cases first : earlier.length < p
  · rw [if_pos first, getElem?_range' first, Option.some.injEq] at here
    refine .inl ⟨fun x seen => ?_, gap_eq_zero ?_⟩
    · rw [member] at seen
      omega
    · rw [empty, mem_toFinset, member]
      omega
  · rw [if_neg first] at here
    have second : earlier.length - p < k := by
      have inside := (List.getElem?_eq_some_iff.mp here).1
      rwa [List.length_range'] at inside
    rw [getElem?_range' second, Option.some.injEq] at here
    by_cases again : n < a + p
    · refine .inr ⟨?_, by omega, fun x seen => ?_⟩
      · rw [member]
        omega
      · rw [member] at seen
        omega
    · refine .inl ⟨fun x seen => ?_, gap_eq_zero ?_⟩
      · rw [member] at seen
        omega
      · rw [empty, mem_toFinset, member]
        omega

end SwssCommon.Serial
