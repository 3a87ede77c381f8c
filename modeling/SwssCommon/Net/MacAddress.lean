import SwssCommon.Lib.Bytes

/-! # MAC addresses as texts

The text of an address has two hexadecimal digits for each of its six bytes, with a separator
between the pairs.
-/

namespace SwssCommon.MacAddress

open Bytes List

def ETHER_ADDR_LEN : Nat := 6

def macAddressStrLength : Nat := ETHER_ADDR_LEN * 2 + 5

/-- `char_table[half]`. -/
def charTable (half : UInt8) : UInt8 :=
  if half < 10 then 48 + half else 87 + half

def toString (mac : Bytes) : Bytes :=
  (range ETHER_ADDR_LEN).foldl (fun str i =>
    (str.set (i * 3) (charTable (mac.getD i 0 >>> 4))).set (i * 3 + 1)
      (charTable (mac.getD i 0 &&& 0x0f))) (replicate macAddressStrLength 58)

def half (c : UInt8) : Option UInt8 :=
  if 48 ≤ c ∧ c ≤ 57 then some (c - 48)
  else if 65 ≤ c ∧ c ≤ 70 then some (c - 65 + 0x0a)
  else if 97 ≤ c ∧ c ≤ 102 then some (c - 97 + 0x0a)
  else none

def byte (left right : UInt8) : Option UInt8 := do
  let high ← half left
  let low ← half right
  pure (high <<< 4 ||| low)

def parseMacString (strMac : Bytes) : Option Bytes :=
  if strMac.length ≠ macAddressStrLength then none
  else
    let ptrMac (k : Nat) := strMac.getD k 0
    if ¬ (ptrMac 2 = ptrMac 5 ∧ ptrMac 5 = ptrMac 8 ∧ ptrMac 8 = ptrMac 11 ∧
        ptrMac 11 = ptrMac 14) then none
    else if ptrMac 2 ≠ 58 ∧ ptrMac 2 ≠ 45 then none
    else (range ETHER_ADDR_LEN).mapM fun i => byte (ptrMac (i * 3)) (ptrMac (i * 3 + 1))

def text (separator : UInt8) (pairs : List (UInt8 × UInt8)) : Bytes :=
  [separator].intercalate (pairs.map fun p => [p.1, p.2])

structure IsText (separator : UInt8) (pairs : List (UInt8 × UInt8)) : Prop where
  separator : separator = 58 ∨ separator = 45
  six : pairs.length = ETHER_ADDR_LEN
  digits : ∀ p ∈ pairs, isHexDigit p.1 ∧ isHexDigit p.2

/-- A character as `toString` writes it: letters in lower case, and colons. -/
def normal (c : UInt8) : UInt8 :=
  if c = 45 then 58 else if 65 ≤ c ∧ c ≤ 90 then c + 32 else c

theorem half_isSome : ∀ c, (half c).isSome = isHexDigit c :=
  forall_byte (by decide +kernel)

theorem byte_isSome {p : UInt8 × UInt8} :
    (byte p.1 p.2).isSome ↔ isHexDigit p.1 ∧ isHexDigit p.2 := by
  rw [← half_isSome, ← half_isSome, byte]
  cases half p.1 <;> cases half p.2 <;> simp

theorem half_normal : ∀ c, (half c).all (fun h => h < 16 ∧ charTable h = normal c) :=
  forall_byte (by decide +kernel)

theorem byte_charTable : ∀ b : UInt8,
    byte (charTable (b >>> 4)) (charTable (b &&& 0x0f)) = some b :=
  forall_byte (by decide +kernel)

theorem halves : ∀ high : UInt8, high < 16 → ∀ low, low < 16 →
    (high <<< 4 ||| low) >>> 4 = high ∧ (high <<< 4 ||| low) &&& 0x0f = low := by
  have all : ∀ m < 16, ∀ n < 16, (UInt8.ofNat m <<< 4 ||| .ofNat n) >>> 4 = .ofNat m ∧
      (UInt8.ofNat m <<< 4 ||| .ofNat n) &&& 0x0f = .ofNat n := by decide +kernel
  intro high small low small'
  simpa using all high.toNat (UInt8.lt_iff_toNat_lt.mp small) low.toNat
    (UInt8.lt_iff_toNat_lt.mp small')

theorem byte_normal {left right b} (read : byte left right = some b) :
    charTable (b >>> 4) = normal left ∧ charTable (b &&& 0x0f) = normal right := by
  have first := half_normal left
  have second := half_normal right
  unfold byte at read
  cases high : half left with
  | none => simp [high] at read
  | some h =>
    cases low : half right with
    | none => simp [high, low] at read
    | some l =>
      simp only [high, low, Option.all_some, decide_eq_true_eq] at first second
      obtain ⟨up, down⟩ := halves h first.1 l second.1
      obtain rfl : h <<< 4 ||| l = b := by simpa [high, low] using read
      rw [up, down]
      exact ⟨first.2, second.2⟩

theorem mapM_isSome {α β : Type} {f : α → Option β} {l : List α} :
    (l.mapM f).isSome ↔ ∀ a ∈ l, (f a).isSome := by
  induction l with
  | nil => simp
  | cons a l ih =>
    rw [forall_mem_cons, ← ih, mapM_cons]
    cases f a <;> cases l.mapM f <;> simp

theorem parseMacString_eq (a a' b b' c c' d d' e e' f f' s t u v w : UInt8) :
    parseMacString [a, a', s, b, b', t, c, c', u, d, d', v, e, e', w, f, f'] =
      if ¬ (s = t ∧ t = u ∧ u = v ∧ v = w) then none else if s ≠ 58 ∧ s ≠ 45 then none
      else [(a, a'), (b, b'), (c, c'), (d, d'), (e, e'), (f, f')].mapM fun p => byte p.1 p.2 :=
  rfl

theorem parseMacString_text {separator pairs}
    (allowed : separator = 58 ∨ separator = 45) (six : pairs.length = ETHER_ADDR_LEN) :
    parseMacString (text separator pairs) = pairs.mapM fun p => byte p.1 p.2 := by
  match pairs, six with
  | [p, q, r, s, t, u], _ =>
    change parseMacString [p.1, p.2, separator, q.1, q.2, separator, r.1, r.2, separator, s.1,
      s.2, separator, t.1, t.2, separator, u.1, u.2] = _
    rw [parseMacString_eq, if_neg (by simp), if_neg (by rcases allowed with rfl | rfl <;> decide)]

theorem text_of_parse {s m} (parsed : parseMacString s = some m) :
    ∃ separator pairs, (separator = 58 ∨ separator = 45) ∧ pairs.length = ETHER_ADDR_LEN ∧
      s = text separator pairs := by
  by_cases length : s.length = macAddressStrLength
  · match s, length with
    | [a, a', s, b, b', t, c, c', u, d, d', v, e, e', w, f, f'], _ =>
      rw [parseMacString_eq] at parsed
      split at parsed
      · cases parsed
      · rename_i same
        obtain ⟨rfl, rfl, rfl, rfl⟩ := not_not.mp same
        split at parsed
        · cases parsed
        · rename_i allowed
          exact ⟨s, [(a, a'), (b, b'), (c, c'), (d, d'), (e, e'), (f, f')], by tauto, rfl, rfl⟩
  · rw [parseMacString, if_pos length] at parsed
    cases parsed

theorem toString_pairs {pairs : List (UInt8 × UInt8)} {separator} {m : Bytes}
    (allowed : separator = 58 ∨ separator = 45) (six : pairs.length = ETHER_ADDR_LEN)
    (read : (pairs.mapM fun p => byte p.1 p.2) = some m) :
    toString m = (text separator pairs).map normal := by
  have colon : normal separator = 58 := by rcases allowed with rfl | rfl <;> rfl
  match pairs, six with
  | [p, q, r, s, t, u], _ =>
    simp only [mapM_cons, mapM_nil, Option.bind_eq_bind, Option.bind_eq_some_iff, Option.pure_def,
      Option.some.injEq] at read
    obtain ⟨a, ha, _, ⟨b, hb, _, ⟨c, hc, _, ⟨d, hd, _, ⟨e, he, _, ⟨f, hf, _, rfl, rfl⟩, rfl⟩, rfl⟩,
      rfl⟩, rfl⟩, rfl⟩ := read
    change [_, _, 58, _, _, 58, _, _, 58, _, _, 58, _, _, 58, _, _] =
      [normal p.1, normal p.2, normal separator, normal q.1, normal q.2, normal separator,
        normal r.1, normal r.2, normal separator, normal s.1, normal s.2, normal separator,
        normal t.1, normal t.2, normal separator, normal u.1, normal u.2]
    simp only [colon, ← byte_normal ha, ← byte_normal hb, ← byte_normal hc, ← byte_normal hd,
      ← byte_normal he, ← byte_normal hf]
    rfl

/-- Texts of six pairs with one separator are read, and what is printed is such a text in lower
    case, with colons. -/
theorem mac_text :
    (∀ s, (parseMacString s).isSome ↔ ∃ separator pairs, IsText separator pairs ∧
        s = text separator pairs) ∧
      (∀ m : Bytes, m.length = ETHER_ADDR_LEN → parseMacString (toString m) = some m) ∧
      ∀ s m, parseMacString s = some m → toString m = s.map normal := by
  refine ⟨fun s => ⟨fun accepted => ?_, ?_⟩, fun m six => ?_, fun s m parsed => ?_⟩
  · obtain ⟨m, parsed⟩ := Option.isSome_iff_exists.mp accepted
    obtain ⟨separator, pairs, allowed, six, rfl⟩ := text_of_parse parsed
    rw [parseMacString_text allowed six, mapM_isSome] at accepted
    exact ⟨separator, pairs,
      ⟨allowed, six, fun p member => byte_isSome.mp (accepted p member)⟩, rfl⟩
  · rintro ⟨separator, pairs, isText, rfl⟩
    rw [parseMacString_text isText.separator isText.six, mapM_isSome]
    exact fun p member => byte_isSome.mpr (isText.digits p member)
  · match m, six with
    | [a, b, c, d, e, f], _ =>
      change parseMacString [_, _, 58, _, _, 58, _, _, 58, _, _, 58, _, _, 58, _, _] = _
      rw [parseMacString_eq, if_neg (by simp), if_neg (by simp)]
      simp [byte_charTable]
  · obtain ⟨separator, pairs, allowed, six, rfl⟩ := text_of_parse parsed
    rw [parseMacString_text allowed six] at parsed
    exact toString_pairs allowed six parsed

end SwssCommon.MacAddress
