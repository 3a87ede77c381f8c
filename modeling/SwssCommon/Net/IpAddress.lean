import SwssCommon.Lib.Bytes
import SwssCommon.Lib.LeadingBits

/-! # Addresses of the Internet protocol

An `IpAddress` has the four bytes of an IPv4 address in a `uint32_t`, in the order of the network,
or the sixteen bytes of an IPv6 address in an array. The host is little-endian, so the least
significant byte of the word is the first one of the network.
-/

namespace SwssCommon

open Bytes LeadingBits List BitVec

/-- What the constructors and the accessors throw, with its text. -/
inductive IpError where
  | invalidArgument (what : Bytes)
  | logicError (what : Bytes)
  deriving DecidableEq

def AF_INET : UInt8 := 2

def AF_INET6 : UInt8 := 10

/-- The union of `ip_addr_t` is read only where the family is one of the two known ones. -/
inductive IpAddress where
  | v4 (addr : BitVec 32)
  | v6 (addr : Fin 16 → BitVec 8)
  | other (family : {family : UInt8 // family ≠ AF_INET ∧ family ≠ AF_INET6})
  deriving DecidableEq

/-- `htonl`: the bytes of the word in the opposite order. -/
def htonl (x : BitVec 32) : BitVec 32 :=
  x.extractLsb' 0 8 ++ x.extractLsb' 8 8 ++ x.extractLsb' 16 8 ++ x.extractLsb' 24 8

theorem getLsbD_word (a b c d : BitVec 8) {k j} (byte : k < 4) (bit : j < 8) :
    (d ++ c ++ b ++ a : BitVec 32).getLsbD (8 * k + j) = ([a, b, c, d].getD k 0).getLsbD j := by
  simp only [getLsbD_append]
  have notFirst : ∀ n, 8 ≤ n → ¬ n + j < 8 := by omega
  interval_cases k
  · simp [bit]
  · simp [bit]
  · simp [bit, notFirst, show 16 + j - 8 = 8 + j by omega]
  · simp [notFirst, show 24 + j - 8 = 16 + j by omega, show 16 + j - 8 = 8 + j by omega]

theorem getLsbD_htonl (x : BitVec 32) {k j} (byte : k < 4) (bit : j < 8) :
    (htonl x).getLsbD (8 * k + j) = x.getLsbD (8 * (3 - k) + j) := by
  rw [htonl, getLsbD_word _ _ _ _ byte bit]
  interval_cases k <;> simp [bit]

private theorem eq_of_bytes {x y : BitVec 32}
    (same : ∀ k j, k < 4 → j < 8 → x.getLsbD (8 * k + j) = y.getLsbD (8 * k + j)) : x = y := by
  apply eq_of_getLsbD_eq
  intro i within
  have place : i = 8 * (i / 8) + i % 8 := by omega
  rw [place]
  exact same _ _ (by omega) (by omega)

theorem htonl_htonl (x : BitVec 32) : htonl (htonl x) = x := by
  apply eq_of_bytes
  intro k j byte bit
  rw [getLsbD_htonl _ byte bit, getLsbD_htonl _ (by omega) bit, show 3 - (3 - k) = k by omega]

theorem htonl_and (x y : BitVec 32) : htonl (x &&& y) = htonl x &&& htonl y := by
  apply eq_of_bytes
  intro k j byte bit
  simp only [getLsbD_and, getLsbD_htonl _ byte bit]

theorem htonl_or (x y : BitVec 32) : htonl (x ||| y) = htonl x ||| htonl y := by
  apply eq_of_bytes
  intro k j byte bit
  simp only [getLsbD_or, getLsbD_htonl _ byte bit]

theorem htonl_not (x : BitVec 32) : htonl (~~~x) = ~~~(htonl x) := by
  apply eq_of_bytes
  intro k j byte bit
  simp only [getLsbD_not, getLsbD_htonl _ byte bit]
  simp [show 8 * k + j < 32 by omega, show 8 * (3 - k) + j < 32 by omega]

theorem htonl_inj {x y} : htonl x = htonl y ↔ x = y :=
  ⟨fun same => by rw [← htonl_htonl x, same, htonl_htonl], congrArg htonl⟩

/-- The sixteen bytes as one number, the first byte being the most significant. -/
def bigEndian (addr : Fin 16 → BitVec 8) : BitVec 128 :=
  leading 128 fun i => (addr (Fin.ofNat 16 (i / 8))).getMsbD (i % 8)

theorem getMsbD_bigEndian (addr : Fin 16 → BitVec 8) {i} (within : i < 128) :
    (bigEndian addr).getMsbD i = (addr (Fin.ofNat 16 (i / 8))).getMsbD (i % 8) :=
  getMsbD_leading within

theorem bigEndian_and (a b : Fin 16 → BitVec 8) :
    bigEndian (fun i => a i &&& b i) = bigEndian a &&& bigEndian b := by
  apply eq_of_getMsbD_eq
  intro i within
  simp only [getMsbD_and, getMsbD_bigEndian _ within]

theorem bigEndian_or (a b : Fin 16 → BitVec 8) :
    bigEndian (fun i => a i ||| b i) = bigEndian a ||| bigEndian b := by
  apply eq_of_getMsbD_eq
  intro i within
  simp only [getMsbD_or, getMsbD_bigEndian _ within]

theorem bigEndian_not (a : Fin 16 → BitVec 8) :
    bigEndian (fun i => ~~~(a i)) = ~~~(bigEndian a) := by
  apply eq_of_getMsbD_eq
  intro i within
  simp only [getMsbD_not, getMsbD_bigEndian _ within]
  simp [within, Nat.mod_lt]

theorem bigEndian_inj {a b} : bigEndian a = bigEndian b ↔ a = b := by
  constructor
  · intro same
    funext k
    apply eq_of_getMsbD_eq
    intro j bit
    have here := congrArg (getMsbD · (8 * k + j)) same
    have byte : (8 * k.val + j) / 8 = k := by omega
    simp only [getMsbD_bigEndian _ (show 8 * k.val + j < 128 by omega), byte,
      Nat.mul_add_mod, Nat.mod_eq_of_lt bit, Fin.ofNat_val_eq_self] at here
    exact here
  · exact congrArg bigEndian

namespace IpAddress

def family : IpAddress → UInt8
  | v4 _ => AF_INET
  | v6 _ => AF_INET6
  | other family => family

def isV4 (ip : IpAddress) : Bool :=
  ip.family = AF_INET

/-- Whether the family is one of the two that the code handles. -/
def known : IpAddress → Bool
  | v4 _ | v6 _ => true
  | other _ => false

def width : IpAddress → Nat
  | v4 _ => 32
  | v6 _ => 128
  | other _ => 0

def bit : IpAddress → Nat → Bool
  | v4 addr, i => (htonl addr).getMsbD i
  | v6 addr, i => (bigEndian addr).getMsbD i
  | other _, _ => false

def networkValue : IpAddress → Nat
  | v4 addr => (htonl addr).toNat
  | v6 addr => (bigEndian addr).toNat
  | other _ => 0

/-- `operator==` holds of no two addresses of an unknown family. -/
def equal : IpAddress → IpAddress → Bool
  | v4 a, v4 b => a = b
  | v6 a, v6 b => a = b
  | _, _ => false

end IpAddress

/-! ## Texts -/

/-- `inet_pton` and `inet_ntop`: reading inverts printing and takes the characters of an address.
    Every IPv6 address has a colon, no IPv4 address. -/
structure Inet where
  pton4 : Bytes → Option (BitVec 32)
  pton6 : Bytes → Option (Fin 16 → BitVec 8)
  ntop4 : BitVec 32 → Bytes
  ntop6 : (Fin 16 → BitVec 8) → Bytes
  pton4_ntop4 : ∀ addr, pton4 (ntop4 addr) = some addr
  pton6_ntop6 : ∀ addr, pton6 (ntop6 addr) = some addr
  pton4_text : ∀ {s addr}, pton4 s = some addr → s ≠ [] ∧ ∀ c ∈ s, isDigit c = true ∨ c = 46
  pton6_text : ∀ {s addr}, pton6 s = some addr →
    58 ∈ s ∧ ∀ c ∈ s, isHexDigit c = true ∨ c = 58 ∨ c = 46

namespace Inet

/-- The first byte in memory is the least significant one of the word. -/
def octets (addr : BitVec 32) : List (BitVec 8) :=
  [addr.extractLsb' 0 8, addr.extractLsb' 8 8, addr.extractLsb' 16 8, addr.extractLsb' 24 8]

def dotted (addr : BitVec 32) : Bytes :=
  [46].intercalate ((octets addr).map fun octet => decimal octet.toNat)

def ofDotted (s : Bytes) : BitVec 32 :=
  match (s.splitOn 46).map fun t => BitVec.ofNat 8 (decimalValue t) with
  | [a, b, c, d] => d ++ c ++ b ++ a
  | _ => 0

theorem dot_notMem_decimal (n : Nat) : (46 : UInt8) ∉ decimal n := fun member =>
  absurd (decimal_isDigit n 46 member) (by decide)

theorem ofDotted_dotted (addr : BitVec 32) : ofDotted (dotted addr) = addr := by
  have dotless : ∀ t ∈ (octets addr).map (fun octet => decimal octet.toNat), (46 : UInt8) ∉ t := by
    intro t member
    obtain ⟨octet, -, rfl⟩ := mem_map.mp member
    exact dot_notMem_decimal octet.toNat
  rw [ofDotted, dotted, splitOn_intercalate 46 dotless (by simp [octets])]
  simp only [octets, map_cons, map_nil, decimalValue_decimal, BitVec.ofNat_toNat]
  apply eq_of_bytes
  intro k j byte bit
  rw [getLsbD_word _ _ _ _ byte bit]
  interval_cases k <;> simp [bit]

theorem dotted_text (addr : BitVec 32) :
    dotted addr ≠ [] ∧ ∀ c ∈ dotted addr, isDigit c ∨ c = 46 := by
  simp only [dotted, octets, map_cons, map_nil, intercalate_cons_cons, intercalate_singleton]
  constructor
  · simp
  · intro c member
    simp only [mem_append] at member
    have digits := fun n => decimal_isDigit n c
    grind

def hexDigit (n : Nat) : UInt8 :=
  if n < 10 then 48 + n.toUInt8 else 87 + n.toUInt8

def hexDigitValue (c : UInt8) : Nat :=
  if isDigit c then c.toNat - 48 else c.toNat - 87

/-- Eight groups of four digits, with a colon between two of them. -/
def groupChar (addr : Fin 16 → BitVec 8) (i : Nat) : UInt8 :=
  if i % 5 = 4 then 58
  else
    let byte := (addr (Fin.ofNat 16 (2 * (i / 5) + i % 5 / 2))).toNat
    hexDigit (if i % 5 % 2 = 0 then byte / 16 else byte % 16)

def groups (addr : Fin 16 → BitVec 8) : Bytes :=
  (range 39).map (groupChar addr)

def ofGroups (s : Bytes) : Fin 16 → BitVec 8 := fun k =>
  let place := 5 * (k.val / 2) + 2 * (k.val % 2)
  BitVec.ofNat 8 (16 * hexDigitValue (s.getD place 0) + hexDigitValue (s.getD (place + 1) 0))

theorem hexDigitValue_hexDigit {n} (small : n < 16) : hexDigitValue (hexDigit n) = n := by
  interval_cases n <;> rfl

theorem isHexDigit_hexDigit {n} (small : n < 16) : isHexDigit (hexDigit n) := by
  interval_cases n <;> rfl

theorem groups_getD (addr : Fin 16 → BitVec 8) {i} (within : i < 39) :
    (groups addr).getD i 0 = groupChar addr i := by
  simp [groups, within]

theorem groupChar_digit (addr : Fin 16 → BitVec 8) (k : Fin 16) {b} (two : b < 2) :
    groupChar addr (5 * (k.val / 2) + 2 * (k.val % 2) + b) =
      hexDigit (if b = 0 then (addr k).toNat / 16 else (addr k).toNat % 16) := by
  have group : (5 * (k.val / 2) + 2 * (k.val % 2) + b) / 5 = k / 2 := by omega
  have digit : (5 * (k.val / 2) + 2 * (k.val % 2) + b) % 5 = 2 * (k % 2) + b := by omega
  have half : (2 * (k.val % 2) + b) % 2 = b := by omega
  rw [groupChar, group, digit, if_neg (by omega)]
  dsimp only
  rw [half, show 2 * (k.val / 2) + (2 * (k.val % 2) + b) / 2 = k by omega, Fin.ofNat_val_eq_self]

theorem ofGroups_groups (addr : Fin 16 → BitVec 8) : ofGroups (groups addr) = addr := by
  funext k
  have high := groupChar_digit addr k two_pos
  have low := groupChar_digit addr k one_lt_two
  rw [Nat.add_zero, if_pos rfl] at high
  rw [if_neg one_ne_zero] at low
  rw [ofGroups, groups_getD addr (by omega), groups_getD addr (by omega), high, low,
    hexDigitValue_hexDigit (by omega), hexDigitValue_hexDigit (by omega),
    Nat.div_add_mod, BitVec.ofNat_toNat, BitVec.setWidth_eq]

theorem groups_text (addr : Fin 16 → BitVec 8) :
    58 ∈ groups addr ∧ ∀ c ∈ groups addr, isHexDigit c ∨ c = 58 ∨ c = 46 := by
  constructor
  · exact mem_map.mpr ⟨4, by decide, rfl⟩
  · intro c member
    obtain ⟨i, -, rfl⟩ := mem_map.mp member
    unfold groupChar
    split
    · exact .inr (.inl rfl)
    · exact .inl (isHexDigit_hexDigit (by split <;> omega))

def plain : Inet where
  pton4 s := if dotted (ofDotted s) = s then some (ofDotted s) else none
  pton6 s := if groups (ofGroups s) = s then some (ofGroups s) else none
  ntop4 := dotted
  ntop6 := groups
  pton4_ntop4 addr := by simp [ofDotted_dotted]
  pton6_ntop6 addr := by simp [ofGroups_groups]
  pton4_text := by
    intro s addr read
    split at read
    · rename_i same
      rw [← same]
      exact dotted_text (ofDotted s)
    · cases read
  pton6_text := by
    intro s addr read
    split at read
    · rename_i same
      rw [← same]
      exact groups_text (ofGroups s)
    · cases read

end Inet

namespace IpAddress

variable (inet : Inet)

/-- The constructor from a text. The family is chosen by a colon anywhere in the text; the C
    library reads it up to its first NUL. -/
def ofString (ipStr : Bytes) : Except IpError {ip : IpAddress // ip.known = true} :=
  let read : Option {ip : IpAddress // ip.known = true} :=
    if 58 ∈ ipStr then (inet.pton6 (cStr ipStr)).map fun addr => ⟨v6 addr, rfl⟩
    else (inet.pton4 (cStr ipStr)).map fun addr => ⟨v4 addr, rfl⟩
  match read with
  | some ip => .ok ip
  | none => .error (.invalidArgument (ascii "Error converting " ++ ipStr ++ ascii " to IP address"))

/-- `inet_ntop` gives a null pointer for a family it does not know, which `std::string` refuses. -/
def toString : IpAddress → Except IpError Bytes
  | v4 addr => .ok (inet.ntop4 addr)
  | v6 addr => .ok (inet.ntop6 addr)
  | other _ => .error (.logicError (ascii "basic_string: construction from null is not valid"))

/-! An address that was read has none of the characters that mark the end of a text. -/

variable {s : Bytes}

theorem notMem_of_pton4 {addr} (read : inet.pton4 s = some addr) {c}
    (notDigit : isDigit c = false) (notDot : c ≠ 46) : c ∉ s := by
  intro member
  cases (inet.pton4_text read).2 c member with
  | inl digit => exact Bool.false_ne_true (notDigit.symm.trans digit)
  | inr dot => exact notDot dot

theorem notMem_of_pton6 {addr} (read : inet.pton6 s = some addr) {c}
    (notDigit : isHexDigit c = false) (notColon : c ≠ 58) (notDot : c ≠ 46) : c ∉ s := by
  intro member
  obtain digit | colon | dot := (inet.pton6_text read).2 c member
  · exact Bool.false_ne_true (notDigit.symm.trans digit)
  · exact notColon colon
  · exact notDot dot

/-- What `inet_pton` is able to read as an address of some family. -/
def Reads (s : Bytes) (ip : IpAddress) : Prop :=
  (∃ addr, inet.pton4 s = some addr ∧ ip = v4 addr) ∨
    ∃ addr, inet.pton6 s = some addr ∧ ip = v6 addr

variable {inet}

variable {ip : IpAddress}

theorem Reads.ne_nil (reads : Reads inet s ip) : s ≠ [] := by
  obtain ⟨addr, read, -⟩ | ⟨addr, read, -⟩ := reads
  · exact (inet.pton4_text read).1
  · exact ne_nil_of_mem (inet.pton6_text read).1

theorem Reads.slash_notMem (reads : Reads inet s ip) : 47 ∉ s := by
  obtain ⟨addr, read, -⟩ | ⟨addr, read, -⟩ := reads
  · exact notMem_of_pton4 inet read rfl (by decide)
  · exact notMem_of_pton6 inet read rfl (by decide) (by decide)

theorem Reads.nul_notMem (reads : Reads inet s ip) : 0 ∉ s := by
  obtain ⟨addr, read, -⟩ | ⟨addr, read, -⟩ := reads
  · exact notMem_of_pton4 inet read rfl (by decide)
  · exact notMem_of_pton6 inet read rfl (by decide) (by decide)

theorem Reads.known (reads : Reads inet s ip) : ip.known := by
  obtain ⟨addr, -, rfl⟩ | ⟨addr, -, rfl⟩ := reads <;> rfl

theorem ofString_reads (reads : Reads inet s ip) : ofString inet s = .ok ⟨ip, reads.known⟩ := by
  have whole : cStr s = s := cStr_of_nulFree reads.nul_notMem
  obtain ⟨addr, read, rfl⟩ | ⟨addr, read, rfl⟩ := reads
  · have colonless : 58 ∉ s := notMem_of_pton4 inet read rfl (by decide)
    simp only [ofString, if_neg colonless, whole, read, Option.map_some]
  · simp only [ofString, if_pos (inet.pton6_text read).1, whole, read, Option.map_some]

theorem reads_of_ofString {ip} (nulFree : 0 ∉ s)
    (made : ofString inet s = .ok ip) : Reads inet s ip := by
  rw [ofString, cStr_of_nulFree nulFree] at made
  by_cases colon : 58 ∈ s
  · cases read : inet.pton6 s with
    | none => simp [colon, read] at made
    | some addr =>
      simp only [if_pos colon, read, Option.map_some, Except.ok.injEq] at made
      exact .inr ⟨addr, read, by rw [← made]⟩
  · cases read : inet.pton4 s with
    | none => simp [colon, read] at made
    | some addr =>
      simp only [if_neg colon, read, Option.map_some, Except.ok.injEq] at made
      exact .inl ⟨addr, read, by rw [← made]⟩

end IpAddress

end SwssCommon
