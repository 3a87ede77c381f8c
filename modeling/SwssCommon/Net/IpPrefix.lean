import SwssCommon.Net.IpAddress

/-! # Prefixes of addresses

An `IpPrefix` is an address with the number of its leading bits that name the subnet. Its
constructors refuse a length that the family does not have.
-/

namespace SwssCommon

open Bytes LeadingBits BitVec IpAddress

def IpPrefix.isValid (ip : IpAddress) (mask : Int) : Bool :=
  if mask < 0 then false
  else
    match ip with
    | .v4 _ => !(32 < mask)
    | .v6 _ => !(128 < mask)
    | .other _ => false

structure IpPrefix where
  ip : IpAddress
  mask : Int
  valid : IpPrefix.isValid ip mask = true
  deriving DecidableEq

namespace IpPrefix

variable (inet : Inet)

/-! ## Constructors -/

def checked (what : Bytes) (ip : IpAddress) (mask : Int) : Except IpError IpPrefix :=
  if valid : isValid ip mask = true then .ok ⟨ip, mask, valid⟩ else .error (.invalidArgument what)

def ofWord (ipPrefix : BitVec 32) (mask : Int) : Except IpError IpPrefix :=
  checked (ascii "Invalid IpPrefix from prefix and mask") (.v4 ipPrefix) mask

def ofAddress (ip : IpAddress) (mask : Int) : Except IpError IpPrefix :=
  checked (ascii "Invalid IpPrefix from ip structure and mask") ip mask

def ipStr (s : Bytes) : Bytes :=
  s.takeWhile (· ≠ 47)

def maskStr (s : Bytes) : Option Bytes :=
  match s.dropWhile (· ≠ 47) with
  | [] => none
  | _ :: rest => some rest

def fullLength (ip : IpAddress) : Int :=
  if ip.isV4 then 32 else 128

variable {ip : IpAddress}

theorem valid_fullLength (isKnown : ip.known) : isValid ip (fullLength ip) := by
  cases ip with
  | v4 | v6 => rfl
  | other => cases isKnown

def readIp (ipStr : Bytes) : Except IpError {ip : IpAddress // ip.known = true} :=
  if ipStr = [] then .ok ⟨.v4 0, rfl⟩ else ofString inet ipStr

/-- Without a slash the length is not checked. Both exceptions of `std::stoi` have the text
    "stoi". -/
def readMask (ip : {ip : IpAddress // ip.known = true}) : Option Bytes → Except IpError IpPrefix
  | none => .ok ⟨ip.val, fullLength ip.val, valid_fullLength ip.property⟩
  | some maskStr =>
    match stoi maskStr with
    | .error _ => .error (.invalidArgument (ascii "Failed to convert mask: " ++ ascii "stoi"))
    | .ok mask => checked (ascii "Invalid IpPrefix from string") ip.val mask

def ofString (ipPrefixStr : Bytes) : Except IpError IpPrefix := do
  let ip ← readIp inet (ipStr ipPrefixStr)
  readMask ip (maskStr ipPrefixStr)

def toString (p : IpPrefix) : Except IpError Bytes := do
  pure ((← p.ip.toString inet) ++ 47 :: decimal p.mask.toNat)

/-! ## Accessors -/

def invalidFamily : IpError :=
  .logicError (ascii "Invalid family")

def mask4 (mask : Int) : BitVec 32 :=
  htonl (((0xFFFFFFFF#64 <<< (32 - mask).toNat) &&& 0xFFFFFFFF#64).setWidth 32)

/-- The `memset` of the bytes before `mid`, the store to it and the `memset` of the rest. -/
def mask6 (mask : Int) : Fin 16 → BitVec 8 :=
  let mid := mask.toNat >>> 3
  let bits := mask.toNat &&& 0x7
  fun i =>
    if i.val < mid then 0xFF#8
    else if i.val = mid then (0xFF#32 <<< (8 - bits)).setWidth 8
    else 0#8

def getMask (p : IpPrefix) : Except IpError IpAddress :=
  match p.ip with
  | .v4 _ => .ok (.v4 (mask4 p.mask))
  | .v6 _ => .ok (.v6 (mask6 p.mask))
  | .other _ => .error invalidFamily

def getBroadcastIp (p : IpPrefix) : Except IpError IpAddress :=
  match p.ip with
  | .v4 addr => .ok (.v4 (addr ||| ~~~(mask4 p.mask)))
  | .v6 addr => .ok (.v6 fun i => addr i ||| ~~~(mask6 p.mask i))
  | .other _ => .error invalidFamily

def isAddressInSubnet (p : IpPrefix) (addr : IpAddress) : Except IpError Bool :=
  if p.ip.family ≠ addr.family then .ok false
  else
    match p.ip, addr with
    | .v4 ip, .v4 addr => .ok (ip &&& mask4 p.mask = addr &&& mask4 p.mask)
    | .v6 ip, .v6 addr => .ok (∀ i, ip i &&& mask6 p.mask i = addr i &&& mask6 p.mask i)
    | _, _ => .error invalidFamily

def getSubnet (p : IpPrefix) : Except IpError IpPrefix :=
  match p.ip with
  | .v4 addr => ofWord (addr &&& mask4 p.mask) p.mask
  | .v6 addr =>
    ofString inet (inet.ntop6 (fun i => addr i &&& mask6 p.mask i) ++ 47 :: decimal p.mask.toNat)
  | .other _ => .error invalidFamily

def equal (p q : IpPrefix) : Bool :=
  p.ip.equal q.ip && decide (p.mask = q.mask)

/-! ## Lengths -/

variable {mask : Int}

theorem valid_v4 {addr} : isValid (.v4 addr) mask ↔ 0 ≤ mask ∧ mask ≤ 32 := by
  simp [isValid]

theorem valid_v6 {addr} :
    isValid (.v6 addr) mask ↔ 0 ≤ mask ∧ mask ≤ 128 := by
  simp [isValid]

theorem isKnown (p : IpPrefix) : p.ip.known := by
  obtain ⟨ip, mask, valid⟩ := p
  cases ip with
  | v4 | v6 => rfl
  | other =>
    simp [isValid] at valid

theorem checked_valid {what} (valid : isValid ip mask) :
    checked what ip mask = .ok ⟨ip, mask, valid⟩ :=
  dif_pos valid

/-! ## Texts -/

theorem ipStr_append {a l : Bytes} (slashless : 47 ∉ a) : ipStr (a ++ 47 :: l) = a :=
  takeWhile_ne_append slashless

theorem maskStr_append {a l : Bytes} (slashless : 47 ∉ a) :
    maskStr (a ++ 47 :: l) = some l := by
  rw [maskStr, dropWhile_ne_append slashless]

theorem valid_small (valid : isValid ip mask) : 0 ≤ mask ∧ mask ≤ 128 := by
  cases ip with
  | v4 =>
    have := valid_v4.mp valid
    omega
  | v6 => exact valid_v6.mp valid
  | other => simp [isValid] at valid

variable {inet}

theorem ofString_printed {a} (reads : Reads inet a ip)
    (valid : isValid ip mask) :
    ofString inet (a ++ 47 :: decimal mask.toNat) = .ok ⟨ip, mask, valid⟩ := by
  obtain ⟨low, high⟩ := valid_small valid
  have small : (mask.toNat : Int) ≤ INT_MAX := by
    rw [Int.toNat_of_nonneg low]
    exact high.trans (by decide)
  have length : stoi (decimal mask.toNat) = .ok mask := by
    rw [stoi_decimal small, Int.toNat_of_nonneg low]
  rw [ofString, ipStr_append reads.slash_notMem, maskStr_append reads.slash_notMem, readIp,
    if_neg reads.ne_nil, ofString_reads reads]
  change readMask ⟨ip, reads.known⟩ (some _) = _
  rw [readMask, length]
  exact checked_valid valid

theorem ofString_toString (p : IpPrefix) :
    ∃ s, p.toString inet = .ok s ∧ ofString inet s = .ok p := by
  obtain ⟨ip, mask, valid⟩ := p
  cases ip with
  | v4 addr =>
    exact ⟨_, rfl, ofString_printed (.inl ⟨addr, inet.pton4_ntop4 addr, rfl⟩) valid⟩
  | v6 addr =>
    exact ⟨_, rfl, ofString_printed (.inr ⟨addr, inet.pton6_ntop6 addr, rfl⟩) valid⟩
  | other => exact absurd (isKnown ⟨_, mask, valid⟩) (by simp [known])

/-! ## Masks -/

theorem getLsbD_lowOnes (j : Nat) : (0xFFFFFFFF#64).getLsbD j = decide (j < 32) := by
  have whole : 0xFFFFFFFF#64 = setWidth 64 (allOnes 32) := by decide
  rw [whole, getLsbD_setWidth, getLsbD_allOnes]
  grind

theorem htonl_mask4 (low : 0 ≤ mask) : htonl (mask4 mask) = ones 32 mask.toNat := by
  rw [mask4, htonl_htonl]
  apply eq_of_getMsbD_eq
  intro i within
  rw [getMsbD_ones within, getMsbD_eq_getLsbD]
  simp only [getLsbD_setWidth, getLsbD_and, getLsbD_shiftLeft, getLsbD_lowOnes]
  grind

theorem getMsbD_byte {bits j} (small : bits < 8) (bit : j < 8) :
    ((0xFF#32 <<< (8 - bits)).setWidth 8).getMsbD j = decide (j < bits) := by
  interval_cases bits <;> interval_cases j <;> rfl

theorem bigEndian_mask6 (mask : Int) : bigEndian (mask6 mask) = ones 128 mask.toNat := by
  apply eq_of_getMsbD_eq
  intro i within
  have mid : mask.toNat >>> 3 = mask.toNat / 8 := Nat.shiftRight_eq_div_pow mask.toNat 3
  have bits : mask.toNat &&& 0x7 = mask.toNat % 8 := Nat.and_two_pow_sub_one_eq_mod mask.toNat 3
  have byte : (Fin.ofNat 16 (i / 8)).val = i / 8 := Nat.mod_eq_of_lt (by omega)
  have bit : i % 8 < 8 := Nat.mod_lt i (by decide)
  rw [getMsbD_bigEndian _ within, getMsbD_ones within]
  simp only [mask6, bits]
  split
  · rw [show (0xFF#8) = allOnes 8 by decide, getMsbD_allOnes]
    grind
  · split
    · rw [getMsbD_byte (Nat.mod_lt _ (by decide)) bit]
      grind
    · rw [getMsbD_zero]
      grind

/-! ## Subnets

Each family keeps its bits in its own order. The operations are those on the numbers of the network.
-/

section V4

variable {mask : Int} (range : 0 ≤ mask ∧ mask ≤ 32) (addr other : BitVec 32)

def v4 : IpPrefix :=
  ⟨.v4 addr, mask, valid_v4.mpr range⟩

theorem getSubnet_v4 : (v4 range addr).getSubnet inet = .ok (v4 range (addr &&& mask4 mask)) :=
  checked_valid (valid_v4.mpr range)

theorem htonl_subnet : htonl (addr &&& mask4 mask) = first (htonl addr) (htonl (mask4 mask)) :=
  htonl_and addr (mask4 mask)

theorem isAddressInSubnet_v4 :
    (v4 range addr).isAddressInSubnet (.v4 other) =
      .ok (addr &&& mask4 mask = other &&& mask4 mask) :=
  rfl

theorem isAddressInSubnet_v4_iff :
    (v4 range addr).isAddressInSubnet (.v4 other) = .ok true ↔
      first (htonl other) (htonl (mask4 mask)) = first (htonl addr) (htonl (mask4 mask)) := by
  rw [← htonl_subnet, ← htonl_subnet, htonl_inj, isAddressInSubnet_v4, Except.ok.injEq,
    decide_eq_true_eq, eq_comm]

theorem htonl_broadcast :
    htonl (addr ||| ~~~(mask4 mask)) = last (htonl addr) (htonl (mask4 mask)) := by
  rw [htonl_or, htonl_not, last]

end V4

section V6

variable {mask : Int} (range : 0 ≤ mask ∧ mask ≤ 128) (addr other : Fin 16 → BitVec 8)

def v6 : IpPrefix :=
  ⟨.v6 addr, mask, valid_v6.mpr range⟩

theorem getSubnet_v6 :
    (v6 range addr).getSubnet inet = .ok (v6 range fun i => addr i &&& mask6 mask i) :=
  ofString_printed (.inr ⟨_, inet.pton6_ntop6 _, rfl⟩) (valid_v6.mpr range)

theorem bigEndian_subnet :
    bigEndian (fun i => addr i &&& mask6 mask i) =
      first (bigEndian addr) (bigEndian (mask6 mask)) :=
  bigEndian_and addr (mask6 mask)

theorem isAddressInSubnet_v6 :
    (v6 range addr).isAddressInSubnet (.v6 other) =
      .ok (∀ i, addr i &&& mask6 mask i = other i &&& mask6 mask i) :=
  rfl

theorem isAddressInSubnet_v6_iff :
    (v6 range addr).isAddressInSubnet (.v6 other) = .ok true ↔
      first (bigEndian other) (bigEndian (mask6 mask)) =
        first (bigEndian addr) (bigEndian (mask6 mask)) := by
  rw [← bigEndian_subnet, ← bigEndian_subnet, bigEndian_inj, isAddressInSubnet_v6,
    Except.ok.injEq, decide_eq_true_eq, eq_comm, funext_iff]

theorem bigEndian_broadcast :
    bigEndian (fun i => addr i ||| ~~~(mask6 mask i)) =
      last (bigEndian addr) (bigEndian (mask6 mask)) := by
  rw [bigEndian_or addr fun i => ~~~(mask6 mask i), bigEndian_not, last]

end V6

theorem isAddressInSubnet_otherFamily {p : IpPrefix} {a}
    (differ : a.family ≠ p.ip.family) : p.isAddressInSubnet a = .ok false :=
  if_pos differ.symm

theorem family_of_isAddressInSubnet {p : IpPrefix} {a}
    (inside : p.isAddressInSubnet a = .ok true) : a.family = p.ip.family := by
  by_contra differ
  rw [isAddressInSubnet_otherFamily differ] at inside
  cases inside

/-- What the operations are for. The bits are those of the network. -/
structure Laws (inet : Inet) (p : IpPrefix) : Prop where
  /-- The mask has as many leading ones as the length says, and zeros after them. -/
  mask : ∃ m, p.getMask = .ok m ∧ m.family = p.ip.family ∧
    ∀ i < p.ip.width, m.bit i = decide ((i : Int) < p.mask)
  /-- The subnet is its own subnet, has the same length and no host bits. -/
  subnet : ∃ q, p.getSubnet inet = .ok q ∧ q.getSubnet inet = .ok q ∧ q.mask = p.mask ∧
    q.ip.family = p.ip.family ∧
    ∀ i < p.ip.width, q.ip.bit i = (p.ip.bit i && decide ((i : Int) < p.mask))
  /-- An address is in the subnet just if it has the same subnet at this length. -/
  member : ∀ a : IpAddress, a.family = p.ip.family →
    ∃ r s q, ofAddress a p.mask = .ok r ∧ r.getSubnet inet = .ok s ∧ p.getSubnet inet = .ok q ∧
      p.isAddressInSubnet a = .ok (s.equal q)
  /-- The broadcast address is the greatest in the subnet. -/
  broadcast : ∃ b, p.getBroadcastIp = .ok b ∧ p.isAddressInSubnet b = .ok true ∧
    ∀ a, p.isAddressInSubnet a = .ok true → a.networkValue ≤ b.networkValue
  otherFamily : ∀ a : IpAddress, a.family ≠ p.ip.family → p.isAddressInSubnet a = .ok false

theorem laws_v4 (range : 0 ≤ mask ∧ mask ≤ 32) (addr : BitVec 32) : Laws inet (v4 range addr) := by
  have ones : ∀ i < 32, (htonl (mask4 mask)).getMsbD i = decide ((i : Int) < mask) := by
    intro i within
    rw [htonl_mask4 range.1, getMsbD_ones within]
    simp only [Int.lt_toNat]
  refine ⟨⟨_, rfl, rfl, ones⟩, ⟨_, getSubnet_v4 range addr, ?_, rfl, rfl, ?_⟩, ?_,
    ⟨_, rfl, ?_, ?_⟩, fun a => isAddressInSubnet_otherFamily⟩
  · rw [getSubnet_v4, BitVec.and_assoc, BitVec.and_self]
  · intro i within
    change (htonl (addr &&& mask4 mask)).getMsbD i = ((htonl addr).getMsbD i && _)
    rw [htonl_subnet, first, getMsbD_and, ones i within]
    rfl
  · intro a same
    cases a with
    | v4 other =>
      refine ⟨v4 range other, _, _, checked_valid (valid_v4.mpr range), getSubnet_v4 range other,
        getSubnet_v4 range addr, ?_⟩
      rw [isAddressInSubnet_v4]
      simp [equal, v4, IpAddress.equal, eq_comm]
    | v6 => cases same
    | other family => exact absurd same family.property.1
  · apply (isAddressInSubnet_v4_iff range addr _).mpr
    rw [← first_last (htonl addr), ← htonl_broadcast]
    rfl
  · intro a inside
    have same := family_of_isAddressInSubnet inside
    cases a with
    | v4 other =>
      have below := le_last ((isAddressInSubnet_v4_iff range addr other).mp inside)
      rw [← htonl_broadcast] at below
      exact le_def.mp below
    | v6 => cases same
    | other family => exact absurd same family.property.1

theorem laws_v6 (range : 0 ≤ mask ∧ mask ≤ 128) (addr : Fin 16 → BitVec 8) :
    Laws inet (v6 range addr) := by
  have ones : ∀ i < 128, (bigEndian (mask6 mask)).getMsbD i = decide ((i : Int) < mask) := by
    intro i within
    rw [bigEndian_mask6, getMsbD_ones within]
    simp only [Int.lt_toNat]
  refine ⟨⟨_, rfl, rfl, ones⟩, ⟨_, getSubnet_v6 range addr, ?_, rfl, rfl, ?_⟩, ?_,
    ⟨_, rfl, ?_, ?_⟩, fun a => isAddressInSubnet_otherFamily⟩
  · simp only [getSubnet_v6, BitVec.and_assoc, BitVec.and_self]
  · intro i within
    change (bigEndian fun i => addr i &&& mask6 mask i).getMsbD i =
      ((bigEndian addr).getMsbD i && _)
    rw [bigEndian_subnet, first, getMsbD_and, ones i within]
    rfl
  · intro a same
    cases a with
    | v4 => cases same
    | v6 other =>
      refine ⟨v6 range other, _, _, checked_valid (valid_v6.mpr range), getSubnet_v6 range other,
        getSubnet_v6 range addr, ?_⟩
      rw [isAddressInSubnet_v6]
      simp [equal, v6, IpAddress.equal, funext_iff, eq_comm]
    | other family => exact absurd same family.property.2
  · apply (isAddressInSubnet_v6_iff range addr _).mpr
    rw [← first_last (bigEndian addr), ← bigEndian_broadcast]
    rfl
  · intro a inside
    have same := family_of_isAddressInSubnet inside
    cases a with
    | v4 => cases same
    | v6 other =>
      have below := le_last ((isAddressInSubnet_v6_iff range addr other).mp inside)
      rw [← bigEndian_broadcast] at below
      exact le_def.mp below
    | other family => exact absurd same family.property.2

theorem prefix_laws (inet : Inet) (p : IpPrefix) : Laws inet p := by
  obtain ⟨ip, mask, valid⟩ := p
  cases ip with
  | v4 addr => exact laws_v4 (valid_v4.mp valid) addr
  | v6 addr => exact laws_v6 (valid_v6.mp valid) addr
  | other => exact absurd (isKnown ⟨_, mask, valid⟩) (by simp [known])

end IpPrefix

end SwssCommon
