import Mathlib.Data.List.TakeWhile
import Mathlib.Data.Nat.Digits.Lemmas

/-! # Byte strings

Strings of the modelled programs are sequences of bytes. Programs share a few views of them:
literals, C strings, decimal numerals and little-endian words.
-/

namespace SwssCommon

open List Nat

abbrev Bytes := List UInt8

namespace Bytes

instance instLawfulBEq : LawfulBEq Bytes := inferInstance

def ascii (s : String) : Bytes :=
  s.toList.map fun c => UInt8.ofNat c.toNat

theorem forall_byte {P : UInt8 → Prop} (all : ∀ n < 256, P (UInt8.ofNat n)) : ∀ c, P c := by
  intro c
  simpa using all c.toNat c.toNat_lt

/-- What a NUL-terminated C string carries: the bytes before the first NUL. -/
def cStr (s : Bytes) : Bytes :=
  s.takeWhile (· ≠ 0)

theorem nul_notMem_cStr (s : Bytes) : 0 ∉ cStr s := by
  intro member
  simpa using mem_takeWhile_imp member

variable {s : Bytes}

theorem cStr_of_nulFree (nulFree : 0 ∉ s) : cStr s = s := by
  apply takeWhile_eq_self_iff.mpr
  intro c member
  simpa using fun isNul : c = 0 => nulFree (isNul ▸ member)

theorem cStr_cStr (s : Bytes) : cStr (cStr s) = cStr s := cStr_of_nulFree (nul_notMem_cStr s)

theorem eq_cStr_append_of_nul (nul : 0 ∈ s) : ∃ rest, s = cStr s ++ 0 :: rest := by
  induction s with
  | nil => simp at nul
  | cons c s ih =>
    by_cases here : c = 0
    · exact ⟨s, by simp [cStr, here]⟩
    · obtain ⟨rest, split⟩ := ih (by simpa [Ne.symm here] using nul)
      refine ⟨rest, ?_⟩
      have keeps : cStr (c :: s) = c :: cStr s := by simp [cStr, here]
      rw [keeps, cons_append, ← split]

theorem cStr_append_of_nul (nul : 0 ∈ s) (r : Bytes) : cStr (s ++ r) = cStr s := by
  induction s with
  | nil => simp at nul
  | cons c s ih =>
    by_cases here : c = 0
    · simp [cStr, here]
    · have rest := ih (by simpa [Ne.symm here] using nul)
      simpa [cStr, here] using rest

/-! ## Names up to a separator -/

variable {c : UInt8}

theorem prefix_of_separatorFree {a b rest : Bytes} (free : c ∉ a) (h : a <+: b ++ c :: rest) :
    a <+: b := by
  induction b generalizing a with
  | nil =>
    cases a with
    | nil => exact nil_prefix
    | cons d a =>
      obtain ⟨rfl, -⟩ := cons_prefix_cons.mp h
      simp at free
  | cons d b ih =>
    cases a with
    | nil => exact nil_prefix
    | cons e a =>
      simp only [cons_append, cons_prefix_cons, mem_cons, not_or] at h free ⊢
      exact ⟨h.1, ih free.2 h.2⟩

theorem takeWhile_ne_append {rest : Bytes} (free : c ∉ s) :
    (s ++ c :: rest).takeWhile (· ≠ c) = s := by
  rw [takeWhile_append_of_pos]
  · simp
  · intro b member
    simpa using fun same : b = c => free (same ▸ member)

theorem dropWhile_ne_append {rest : Bytes} (free : c ∉ s) :
    (s ++ c :: rest).dropWhile (· ≠ c) = c :: rest := by
  rw [dropWhile_append_of_pos]
  · simp
  · intro b member
    simpa using fun same : b = c => free (same ▸ member)

/-! ## Decimal numerals -/

def digit (d : Nat) : UInt8 :=
  UInt8.ofNat (48 + d)

def isDigit (c : UInt8) : Bool :=
  48 ≤ c && c ≤ 57

def isHexDigit (c : UInt8) : Bool :=
  isDigit c || (97 ≤ c && c ≤ 102) || (65 ≤ c && c ≤ 70)

def digitValue (c : UInt8) : Nat :=
  c.toNat - 48

/-- The shortest decimal numeral of `n`. -/
def decimal (n : Nat) : Bytes :=
  if n = 0 then [digit 0] else ((digits 10 n).map digit).reverse

/-- Positional value of a digit sequence, most significant digit first. -/
def decimalValue (s : Bytes) : Nat :=
  s.foldl (fun n c => 10 * n + digitValue c) 0

def parseDecimal (s : Bytes) : Option Nat :=
  if s ≠ [] ∧ s.all isDigit then some (decimalValue s) else none

variable {d : Nat}

private theorem digit_toNat (small : d < 10) : (digit d).toNat = 48 + d := by
  simp only [digit, UInt8.toNat_ofNat']
  omega

theorem digitValue_digit (small : d < 10) : digitValue (digit d) = d := by
  simp only [digitValue, digit_toNat small]
  omega

theorem isDigit_digit (small : d < 10) : isDigit (digit d) := by
  have value := digit_toNat small
  simp only [isDigit, Bool.and_eq_true, UInt8.le_iff_toNat_le, value]
  exact ⟨by simp, by simp; omega⟩

theorem decimal_ne_nil (n : Nat) : decimal n ≠ [] := by
  unfold decimal
  split
  · simp
  · rename_i positive
    simpa using digits_ne_nil_iff_ne_zero.mpr positive

theorem decimal_isDigit (n : Nat) : ∀ c ∈ decimal n, isDigit c := by
  intro c member
  unfold decimal at member
  split at member
  · rw [mem_singleton.mp member]
    exact isDigit_digit (by omega)
  · obtain ⟨d, inDigits, rfl⟩ := mem_map.mp (mem_reverse.mp member)
    exact isDigit_digit (digits_lt_base (by omega) inDigits)

private theorem foldl_digits (ds : List Nat) (small : ∀ d ∈ ds, d < 10) :
    ((ds.map digit).reverse).foldl (fun n c => 10 * n + digitValue c) 0 = ofDigits 10 ds := by
  induction ds with
  | nil => rfl
  | cons d ds ih =>
    have rest := ih (fun e member => small e (mem_cons_of_mem d member))
    simp only [map_cons, reverse_cons, foldl_append, foldl_cons,
      foldl_nil, digitValue_digit (small d (by simp)), ofDigits_cons]
    omega

theorem decimalValue_decimal (n : Nat) : decimalValue (decimal n) = n := by
  unfold decimal decimalValue
  split
  · rename_i zero
    simp only [foldl_cons, foldl_nil, digitValue_digit (d := 0) (by omega)]
    omega
  · rw [foldl_digits _ (fun d member => digits_lt_base (by omega) member)]
    exact ofDigits_digits 10 n

theorem parseDecimal_decimal (n : Nat) : parseDecimal (decimal n) = some n := by
  have allDigits : (decimal n).all isDigit := all_eq_true.mpr (decimal_isDigit n)
  simp only [parseDecimal, ne_eq, decimal_ne_nil, not_false_eq_true, allDigits, and_self, if_true,
    decimalValue_decimal]

theorem decimalValue_lt (digits : ∀ c ∈ s, isDigit c) : decimalValue s < 10 ^ s.length := by
  induction s using reverseRecOn with
  | nil => decide
  | append_singleton s c ih =>
    have front := ih fun d member => digits d (by simp [member])
    have last : digitValue c < 10 := by
      have digit := digits c (by simp)
      simp only [isDigit, UInt8.le_iff_toNat_le] at digit
      simp at digit
      unfold digitValue
      omega
    simp only [decimalValue, foldl_append, foldl_cons, foldl_nil,
      length_append, length_singleton] at front ⊢
    omega

variable {n : Nat}

theorem decimal_length_le_iff {k} (positive : 0 < k) :
    (decimal n).length ≤ k ↔ n < 10 ^ k := by
  unfold decimal
  split
  · rename_i zero
    simpa [zero] using succ_le_iff.mpr positive
  · rw [length_reverse, length_map, digits_length_le_iff (by omega)]

theorem decimal_length_le (n : Nat) : (decimal n).length ≤ n + 1 :=
  (decimal_length_le_iff (Nat.succ_pos n)).mpr
    ((Nat.lt_pow_self (by omega)).trans (Nat.pow_lt_pow_succ (by omega)))

/-! ## std::stoi -/

def INT_MAX : Int := 2 ^ 31 - 1

def INT_MIN : Int := -2 ^ 31

inductive StoiError where
  | invalidArgument
  | outOfRange
  deriving DecidableEq

def isSpace (c : UInt8) : Bool :=
  c = 32 || (9 ≤ c && c ≤ 13)

/-- Whether there is a minus sign, and what follows the sign. -/
def splitSign : Bytes → Bool × Bytes
  | 45 :: s => (true, s)
  | 43 :: s => (false, s)
  | s => (false, s)

/-- Blanks in front are skipped, a sign may follow, and what comes after the digits is
    ignored. -/
def stoi (s : Bytes) : Except StoiError Int :=
  let (negative, s) := splitSign (s.dropWhile isSpace)
  let digits := s.takeWhile isDigit
  if digits = [] then .error .invalidArgument
  else
    let n : Int := if negative then -decimalValue digits else decimalValue digits
    if n < INT_MIN ∨ INT_MAX < n then .error .outOfRange else .ok n

theorem splitSign_digits (digits : ∀ c ∈ s, isDigit c) :
    splitSign (s.dropWhile isSpace) = (false, s) := by
  have spaceless : s.dropWhile isSpace = s := by
    cases s with
    | nil => rfl
    | cons c rest =>
      have digit : isDigit c := digits c (by simp)
      rw [dropWhile_cons_of_neg]
      simp only [isDigit, isSpace,
        UInt8.le_iff_toNat_le, ← UInt8.toNat_inj] at digit ⊢
      simp at digit ⊢
      omega
  rw [spaceless]
  unfold splitSign
  split
  · exact absurd (digits 45 (by simp)) (by decide)
  · exact absurd (digits 43 (by simp)) (by decide)
  · rfl

theorem splitSign_decimal (n : Nat) :
    splitSign ((decimal n).dropWhile isSpace) = (false, decimal n) :=
  splitSign_digits (decimal_isDigit n)

theorem takeWhile_isDigit_decimal (n : Nat) : (decimal n).takeWhile isDigit = decimal n :=
  takeWhile_eq_self_iff.mpr (decimal_isDigit n)

theorem stoi_digits (digits : ∀ c ∈ s, isDigit c) (some : s ≠ []) :
    stoi s = if INT_MAX < decimalValue s then .error .outOfRange else .ok (decimalValue s) := by
  have positive : ¬ (decimalValue s : Int) < INT_MIN := by
    simp only [INT_MIN]
    omega
  simp only [stoi, splitSign_digits digits, takeWhile_eq_self_iff.mpr digits, some, if_false,
    Bool.false_eq_true, positive, false_or]

theorem stoi_decimal (small : (n : Int) ≤ INT_MAX) : stoi (decimal n) = .ok (n : Int) := by
  rw [stoi_digits (decimal_isDigit n) (decimal_ne_nil n), decimalValue_decimal,
    if_neg (not_lt.mpr small)]

theorem decimal_length_le_of_stoi {n} (read : stoi s = .ok n) (positive : 0 ≤ n) :
    (decimal n.toNat).length ≤ s.length := by
  unfold stoi at read
  generalize split : splitSign (s.dropWhile isSpace) = signed at read
  obtain ⟨negative, rest⟩ := signed
  have shorter : rest.length ≤ s.length := by
    have blanks := (s.dropWhile_suffix isSpace).length_le
    unfold splitSign at split
    split at split
    all_goals
      simp_all
      try omega
  have digits : (rest.takeWhile isDigit).length ≤ rest.length :=
    (List.takeWhile_prefix isDigit).length_le
  dsimp only at read
  split at read
  · cases read
  · rename_i some
    have value : n.toNat ≤ decimalValue (rest.takeWhile isDigit) := by
      generalize decimalValue (rest.takeWhile isDigit) = k at read ⊢
      generalize signed : (if negative then -(k : Int) else k) = value at read
      split at read
      · cases read
      · cases read
        cases negative with
        | true =>
          omega
        | false =>
          rw [if_neg (by decide)] at signed
          omega
    have below : decimalValue (rest.takeWhile isDigit) < _ :=
      decimalValue_lt fun c member => mem_takeWhile_imp member
    have length := length_pos_iff.mpr some
    exact ((decimal_length_le_iff length).mpr (value.trans_lt below)).trans (digits.trans shorter)

theorem eq_of_stoi_decimal {i} (read : stoi (decimal n) = .ok i) : i = n := by
  rw [stoi_digits (decimal_isDigit n) (decimal_ne_nil n), decimalValue_decimal] at read
  split at read
  · cases read
  · cases read
    rfl

theorem stoi_append_nul (s rest : Bytes) : stoi (s ++ 0 :: rest) = stoi s := by
  have spaces : (s ++ 0 :: rest).dropWhile isSpace = s.dropWhile isSpace ++ 0 :: rest := by
    rw [dropWhile_append]
    split
    · rename_i all
      rw [isEmpty_iff.mp all]
      rfl
    · rfl
  have sign : ∀ s, splitSign (s ++ 0 :: rest) =
      ((splitSign s).1, (splitSign s).2 ++ 0 :: rest) := by
    intro s
    cases s with
    | nil => rfl
    | cons c s =>
      unfold splitSign
      split
      all_goals simp_all
  have digits : ∀ s, (s ++ 0 :: rest).takeWhile isDigit = s.takeWhile isDigit := by
    intro s
    rw [takeWhile_append]
    split
    · rename_i all
      rw [takeWhile_cons_of_neg (by decide), append_nil]
      exact ((List.takeWhile_prefix isDigit).eq_of_length all).symm
    · rfl
  simp only [stoi, spaces, sign, digits]

/-- `std::stoul` on a 64-bit machine. A minus sign is applied modulo the word. -/
def stoul (s : Bytes) : Except StoiError (BitVec 64) :=
  let (negative, s) := splitSign (s.dropWhile isSpace)
  let digits := s.takeWhile isDigit
  if digits = [] then .error .invalidArgument
  else
    let n := decimalValue digits
    if 2 ^ 64 ≤ n then .error .outOfRange
    else .ok (if negative then -BitVec.ofNat 64 n else BitVec.ofNat 64 n)

theorem digits_of_parseDecimal (read : parseDecimal s = some n) :
    s ≠ [] ∧ (∀ c ∈ s, isDigit c) ∧ decimalValue s = n := by
  unfold parseDecimal at read
  split at read
  · rename_i numeral
    simp_all
  · cases read

theorem stoul_numeral (read : parseDecimal s = some n) :
    stoul s = if 2 ^ 64 ≤ n then .error .outOfRange else .ok (BitVec.ofNat 64 n) := by
  obtain ⟨some, digits, rfl⟩ := digits_of_parseDecimal read
  simp only [stoul, splitSign_digits digits, takeWhile_eq_self_iff.mpr digits, some, if_false,
    Bool.false_eq_true]

/-! ## Numbers read from a stream -/

/-- Extraction of an unsigned number by `>>`. Without digits it is zero, one that is too large
    becomes the largest, and a minus sign is applied modulo the word. -/
def extractUnsigned (w : Nat) (s : Bytes) : BitVec w :=
  let (negative, s) := splitSign (s.dropWhile isSpace)
  let n := decimalValue (s.takeWhile isDigit)
  if 2 ^ w ≤ n then BitVec.allOnes w
  else if negative then -BitVec.ofNat w n else BitVec.ofNat w n

/-- Extraction of a signed number of `w` bits, cut off at the limits. -/
def extractSigned (w : Nat) (s : Bytes) : Int :=
  let (negative, s) := splitSign (s.dropWhile isSpace)
  let n := decimalValue (s.takeWhile isDigit)
  if negative then max (-2 ^ (w - 1)) (-n) else min (2 ^ (w - 1) - 1) n

theorem extractUnsigned_decimal {w} (n : BitVec w) :
    extractUnsigned w (decimal n.toNat) = n := by
  have inRange : ¬ 2 ^ w ≤ n.toNat := not_le.mpr n.isLt
  simp only [extractUnsigned, splitSign_decimal, takeWhile_isDigit_decimal, decimalValue_decimal,
    if_neg inRange, Bool.false_eq_true, if_false, BitVec.ofNat_toNat, BitVec.setWidth_eq]

theorem extractSigned_decimal (w n : Nat) :
    extractSigned w (decimal n) = min (2 ^ (w - 1) - 1) (n : Int) := by
  simp only [extractSigned, splitSign_decimal, takeWhile_isDigit_decimal, decimalValue_decimal,
    Bool.false_eq_true, if_false]

/-! ## Little-endian words -/

/-- The `size` low-order bytes of `n`, least significant first. -/
def littleEndian : Nat → Nat → Bytes
  | 0, _ => []
  | size + 1, n => UInt8.ofNat n :: littleEndian size (n / 256)

def ofLittleEndian : Bytes → Nat
  | [] => 0
  | b :: bs => b.toNat + 256 * ofLittleEndian bs

@[simp]
theorem littleEndian_length (size n : Nat) : (littleEndian size n).length = size := by
  induction size generalizing n with
  | zero => rfl
  | succ size ih => simp only [littleEndian, length_cons, ih]

theorem ofLittleEndian_littleEndian {size} (fits : n < 256 ^ size) :
    ofLittleEndian (littleEndian size n) = n := by
  induction size generalizing n with
  | zero => simp at fits; simp [littleEndian, ofLittleEndian, fits]
  | succ size ih =>
    have rest : n / 256 < 256 ^ size := by
      apply Nat.div_lt_of_lt_mul
      rwa [Nat.mul_comm, ← Nat.pow_succ]
    simp only [littleEndian, ofLittleEndian, ih rest, UInt8.toNat_ofNat']
    omega

theorem littleEndian_ofLittleEndian (s : Bytes) : littleEndian s.length (ofLittleEndian s) = s := by
  induction s with
  | nil => rfl
  | cons b s ih =>
    have byte := b.toNat_lt
    have low : UInt8.ofNat (b.toNat + 256 * ofLittleEndian s) = b := by
      rw [← UInt8.toNat_inj, UInt8.toNat_ofNat']
      omega
    have high : (b.toNat + 256 * ofLittleEndian s) / 256 = ofLittleEndian s := by omega
    rw [length_cons, ofLittleEndian, littleEndian, low, high, ih]

end Bytes

end SwssCommon
