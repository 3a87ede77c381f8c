import SwssCommon.Lib.Bytes
import SwssCommon.Lib.PrefixCode

/-! # Binary data as printable text

A printable byte stands for itself, a backslash is doubled, blanks other than the space have a
letter behind a backslash, and the rest is written in two hexadecimal digits.
-/

namespace SwssCommon

open Bytes List

/-- `isprint` in the C locale. -/
def isprint (c : UInt8) : Bool :=
  32 ≤ c && c ≤ 126

/-- `"0123456789ABCDEF"[d]`. -/
def upperHexDigit (d : UInt8) : UInt8 :=
  if d < 10 then 48 + d else 55 + d

def printableByte (c : UInt8) : Bytes :=
  if isprint c then if c = 92 then [92, 92] else [c]
  else if isSpace c then
    92 :: if c = 10 then [110] else if c = 13 then [114] else if c = 9 then [116]
      else if c = 11 then [118] else if c = 12 then [102] else []
  else [92, 120, upperHexDigit (c >>> 4), upperHexDigit (c &&& 15)]

def binaryToPrintable (buffer : Bytes) : Bytes :=
  buffer.flatMap printableByte

def upperHexValue (c : UInt8) : UInt8 :=
  if c < 58 then c - 48 else c - 55

def escaped : Bytes → UInt8
  | [] => 0
  | e :: rest =>
    if e = 120 then upperHexValue (rest.getD 0 0) <<< 4 ||| upperHexValue (rest.getD 1 0)
    else if e = 110 then 10 else if e = 114 then 13 else if e = 116 then 9
    else if e = 118 then 11 else if e = 102 then 12 else e

def firstByte : Bytes → UInt8
  | [] => 0
  | c :: rest => if c = 92 then escaped rest else c

theorem upperHexValue_upperHexDigit : ∀ c : UInt8,
    upperHexValue (upperHexDigit (c >>> 4)) <<< 4 |||
      upperHexValue (upperHexDigit (c &&& 15)) = c :=
  forall_byte (by decide +kernel)

theorem isSpace_cases : ∀ c, isprint c = false → isSpace c →
    c = 10 ∨ c = 13 ∨ c = 9 ∨ c = 11 ∨ c = 12 :=
  forall_byte (by decide +kernel)

theorem firstByte_printableByte (c : UInt8) (text : Bytes) :
    firstByte (printableByte c ++ text) = c := by
  unfold printableByte
  split
  · split
    · rename_i backslash
      rw [backslash]
      rfl
    · rename_i plain
      exact if_neg plain
  · rename_i unprintable
    split
    · rename_i space
      rcases isSpace_cases c (by simpa using unprintable) space with rfl | rfl | rfl | rfl | rfl <;>
        rfl
    · exact upperHexValue_upperHexDigit c

theorem printableByte_printable : ∀ c, printableByte c ≠ [] ∧
    (printableByte c).all isprint ∧ (printableByte c).length ≤ 4 :=
  forall_byte (by decide +kernel)

/-- Different data have different texts, of printable characters only, at most four for
    each byte. -/
theorem printable_encoding :
    Function.Injective binaryToPrintable ∧
      ∀ buffer, (∀ d ∈ binaryToPrintable buffer, isprint d = true) ∧
        (binaryToPrintable buffer).length ≤ 4 * buffer.length := by
  refine ⟨PrefixCode.flatMap_injective (fun c => (printableByte_printable c).1)
    firstByte_printableByte, fun buffer => ⟨fun d member => ?_, ?_⟩⟩
  · obtain ⟨c, -, here⟩ := mem_flatMap.mp member
    exact all_eq_true.mp (printableByte_printable c).2.1 d here
  · induction buffer with
    | nil => exact le_rfl
    | cons c buffer ih =>
      have short := (printableByte_printable c).2.2
      simp only [binaryToPrintable, flatMap_cons, length_append, length_cons] at ih ⊢
      omega

end SwssCommon
