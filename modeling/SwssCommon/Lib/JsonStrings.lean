import SwssCommon.Lib.Bytes

/-! # Arrays of strings as JSON text

A string stands between quotes; the quote, the backslash and control characters are escaped. A
library writes and reads such texts; that it can be done is shown with a writer and its reader.
-/

namespace SwssCommon

open Bytes List

namespace JsonStrings

def hexDigit (d : UInt8) : UInt8 :=
  if d < 10 then 48 + d else 87 + d

def hexValue (c : UInt8) : UInt8 :=
  if c < 58 then c - 48 else c - 87

/-- The character after the backslash, where there is a short form. -/
def shortEscapes : List (UInt8 × UInt8) :=
  [(34, 34), (92, 92), (8, 98), (12, 102), (10, 110), (13, 114), (9, 116)]

def escape (b : UInt8) : Bytes :=
  match shortEscapes.lookup b with
  | some c => [92, c]
  | none => if b < 32 then [92, 117, 48, 48, hexDigit (b / 16), hexDigit (b % 16)] else [b]

def Plain (b : UInt8) : Prop :=
  escape b = [b]

instance (b : UInt8) : Decidable (Plain b) :=
  inferInstanceAs (Decidable (_ = _))

def quote (s : Bytes) : Bytes :=
  [34] ++ s.flatMap escape ++ [34]

def dumpRest (words : List Bytes) : Bytes :=
  words.flatMap (fun w => [44] ++ quote w) ++ [93]

def dump : List Bytes → Bytes
  | [] => [91, 93]
  | w :: words => [91] ++ quote w ++ dumpRest words

/-- What is left of a string after its opening quote, and what follows it. -/
def readString : Bytes → Option (Bytes × Bytes)
  | [] => none
  | 34 :: rest => some ([], rest)
  | 92 :: 117 :: 48 :: 48 :: high :: low :: rest =>
    (readString rest).map fun (s, left) => ((hexValue high * 16 + hexValue low) :: s, left)
  | 92 :: c :: rest => match (shortEscapes.map Prod.swap).lookup c with
    | some b => (readString rest).map fun (s, left) => (b :: s, left)
    | none => none
  | b :: rest => (readString rest).map fun (s, left) => (b :: s, left)

/-- Elements, each with the comma before it, up to the closing bracket. -/
def readRest : Nat → Bytes → Option (List Bytes)
  | _, [93] => some []
  | fuel + 1, 44 :: 34 :: text => match readString text with
    | some (w, left) => (readRest fuel left).map (w :: ·)
    | none => none
  | _, _ => none

def read : Bytes → Option (List Bytes)
  | [91, 93] => some []
  | 91 :: 34 :: text => match readString text with
    | some (w, left) => (readRest left.length left).map (w :: ·)
    | none => none
  | _ => none

def readsBack (b : UInt8) : Bool :=
  match shortEscapes.lookup b with
  | some c => c != 117 && (shortEscapes.map Prod.swap).lookup c == some b
  | none => if b < 32 then hexValue (hexDigit (b / 16)) * 16 + hexValue (hexDigit (b % 16)) == b
      else b != 34 && b != 92

theorem readsBack_eq_true (b : UInt8) : readsBack b := by
  have all : ∀ n < 256, readsBack (UInt8.ofNat n) := by decide +kernel
  simpa using all b.toNat b.toNat_lt

theorem readString_escape (b : UInt8) (text : Bytes) :
    readString (escape b ++ text) = (readString text).map fun (s, left) => (b :: s, left) := by
  have back := readsBack_eq_true b
  unfold readsBack at back
  unfold escape
  split at back
  · simp only [Bool.and_eq_true, bne_iff_ne, beq_iff_eq] at back
    simp [readString, back.1, back.2]
  · split at back
    · rename_i control
      simp only [beq_iff_eq] at back
      simp [readString, control, back]
    · rename_i printable
      simp only [Bool.and_eq_true, bne_iff_ne] at back
      simp [readString, printable, back.1, back.2]

theorem readString_quoted (s text : Bytes) :
    readString (s.flatMap escape ++ 34 :: text) = some (s, text) := by
  induction s with
  | nil => simp [readString]
  | cons b s ih => rw [flatMap_cons, append_assoc, readString_escape, ih, Option.map_some]

theorem dumpRest_cons (w : Bytes) (words : List Bytes) :
    dumpRest (w :: words) = 44 :: 34 :: (w.flatMap escape ++ 34 :: dumpRest words) := by
  simp [dumpRest, quote]

theorem dump_cons (w : Bytes) (words : List Bytes) :
    dump (w :: words) = 91 :: 34 :: (w.flatMap escape ++ 34 :: dumpRest words) := by
  simp [dump, quote]

theorem length_le_dumpRest (words : List Bytes) : words.length ≤ (dumpRest words).length := by
  induction words with
  | nil => simp
  | cons w words ih =>
    rw [dumpRest_cons]
    simp only [length_cons, length_append]
    omega

theorem readRest_dumpRest {words fuel} (enough : words.length ≤ fuel) :
    readRest fuel (dumpRest words) = some words := by
  induction words generalizing fuel with
  | nil => simp [dumpRest, readRest]
  | cons w words ih =>
    cases fuel with
    | zero => simp at enough
    | succ fuel =>
      rw [dumpRest_cons, readRest, readString_quoted]
      simp only [ih (by simpa using enough), Option.map_some]

theorem read_dump (words : List Bytes) : read (dump words) = some words := by
  cases words with
  | nil => simp [dump, read]
  | cons w words =>
    rw [dump_cons, read, readString_quoted]
    simp only [readRest_dumpRest (length_le_dumpRest words), Option.map_some]

theorem nul_notMem_escape (b : UInt8) : 0 ∉ escape b := by
  have all : ∀ n < 256, 0 ∉ escape (UInt8.ofNat n) := by decide +kernel
  simpa using all b.toNat b.toNat_lt

theorem nul_notMem_quoted (s : Bytes) : 0 ∉ s.flatMap escape := by
  intro member
  obtain ⟨b, -, inside⟩ := mem_flatMap.mp member
  exact nul_notMem_escape b inside

theorem nul_notMem_dump (words : List Bytes) : 0 ∉ dump words := by
  have rest : ∀ words, 0 ∉ dumpRest words := by
    intro words
    induction words with
    | nil => simp [dumpRest]
    | cons w words ih => simp [dumpRest_cons, nul_notMem_quoted w, ih]
  cases words with
  | nil => simp [dump]
  | cons w words => simp [dump_cons, nul_notMem_quoted w, rest words]

theorem flatMap_escape_of_plain {s : Bytes} (plain : ∀ b ∈ s, Plain b) : s.flatMap escape = s := by
  induction s with
  | nil => rfl
  | cons b s ih =>
    obtain ⟨head, tail⟩ := forall_mem_cons.mp plain
    rw [flatMap_cons, ih tail, show escape b = [b] from head, singleton_append]

theorem exists_dump_eq {w : Bytes} (words : List Bytes) (plain : ∀ b ∈ w, Plain b) :
    ∃ rest, dump (w :: words) = 91 :: 34 :: (w ++ 34 :: rest) := by
  refine ⟨dumpRest words, ?_⟩
  rw [dump_cons, flatMap_escape_of_plain plain]

theorem quote_notMem_of_plain {s : Bytes} (plain : ∀ b ∈ s, Plain b) : (34 : UInt8) ∉ s :=
  fun member => absurd (plain 34 member) (by decide)

end JsonStrings

/-- A JSON library, for arrays of strings: which strings it accepts as UTF-8, what it writes, and
    its parser. -/
structure Nlohmann where
  validUtf8 : Bytes → Bool
  dump : List Bytes → Bytes
  parse : Bytes → Option (List Bytes)
  parse_dump : ∀ words, (∀ w ∈ words, validUtf8 w = true) → parse (dump words) = some words
  dump_nulFree : ∀ words, (∀ w ∈ words, validUtf8 w = true) → (0 : UInt8) ∉ dump words
  /-- The first string comes after a bracket and a quote, as it is if nothing in it is escaped. -/
  dump_plain : ∀ w words, (∀ v ∈ w :: words, validUtf8 v = true) →
    (∀ b ∈ w, JsonStrings.Plain b) → ∃ rest, dump (w :: words) = 91 :: 34 :: (w ++ 34 :: rest)

/-- The writer and reader above, without a look at the encoding. -/
def Nlohmann.plain : Nlohmann where
  validUtf8 _ := true
  dump := JsonStrings.dump
  parse := JsonStrings.read
  parse_dump words _ := JsonStrings.read_dump words
  dump_nulFree words _ := JsonStrings.nul_notMem_dump words
  dump_plain _ words _ plain := JsonStrings.exists_dump_eq words plain

end SwssCommon
