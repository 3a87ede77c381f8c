import Mathlib.Data.List.Basic

/-! # Codes that can be read from the left

A code writes letters as non-empty words. If no word begins another one, a text says which letters
were written.
-/

namespace SwssCommon.PrefixCode

open List

variable {α β : Type*} {code : α → List β}

theorem flatMap_injective {first : List β → α} (some : ∀ a, code a ≠ [])
    (reads : ∀ a text, first (code a ++ text) = a) : Function.Injective (flatMap code) := by
  intro l l' same
  induction l generalizing l' with
  | nil =>
    cases l' with
    | nil => rfl
    | cons b l' => simp [some b] at same
  | cons a l ih =>
    cases l' with
    | nil => simp [some a] at same
    | cons b l' =>
      rw [flatMap_cons, flatMap_cons] at same
      obtain rfl : a = b := by rw [← reads a, same, reads b]
      rw [ih (append_cancel_left same)]

end SwssCommon.PrefixCode
