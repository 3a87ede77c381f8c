import SwssCommon.Net.IpPrefix

/-! # Texts of prefixes

A prefix is written as an address, or as an address, a slash and a length. Neither `std::stoi` nor
the C library looks at the whole of its part: the one stops after the digits, the other at a NUL.
-/

namespace SwssCommon.IpPrefix

open Bytes

variable {inet : Inet} {s : Bytes} {p : IpPrefix}

/-- The texts of addresses, of which the empty one stands for 0.0.0.0. -/
def WrittenAddress (inet : Inet) (a : Bytes) (ip : IpAddress) : Prop :=
  (a = [] ∧ ip = .v4 0) ∨ IpAddress.Reads inet a ip

/-- The texts of a prefix. That its length is one of the family is part of the prefix. -/
inductive Written (inet : Inet) (p : IpPrefix) : Bytes → Prop
  | whole {a : Bytes} : WrittenAddress inet a p.ip → p.mask = fullLength p.ip → Written inet p a
  | slash {a l : Bytes} : WrittenAddress inet a p.ip → l ≠ [] → (∀ c ∈ l, isDigit c = true) →
      p.mask = decimalValue l → Written inet p (a ++ 47 :: l)

/-- There is an address and a length of its family in a text, but also a NUL in the address or
    something else than digits in the length. -/
def Misread (inet : Inet) (s : Bytes) : Prop :=
  ∃ ip, readIp inet (ipStr s) = .ok ip ∧
    (∀ l ∈ maskStr s, ∃ mask, stoi l = .ok mask ∧ isValid ip.val mask = true) ∧
    (0 ∈ ipStr s ∨ ∃ l ∈ maskStr s, ∃ c ∈ l, isDigit c = false)

/-! ## The two parts of a text -/

theorem ipStr_of_none (bare : maskStr s = none) : ipStr s = s := by
  have rejoined := s.takeWhile_append_dropWhile (p := (· ≠ 47))
  unfold maskStr at bare
  split at bare
  · rename_i empty
    rw [empty, List.append_nil] at rejoined
    exact rejoined
  · cases bare

variable {l : Bytes}

theorem ipStr_of_some (slashed : maskStr s = some l) : s = ipStr s ++ 47 :: l := by
  have rejoined := s.takeWhile_append_dropWhile (p := (· ≠ 47))
  unfold maskStr at slashed
  split at slashed
  · cases slashed
  · rename_i c rest tail
    cases slashed
    have isSlash : c = 47 := by
      have head := List.head?_dropWhile_not (· ≠ (47 : UInt8)) s
      rw [tail] at head
      simpa using head
    rw [tail, isSlash] at rejoined
    exact rejoined.symm

theorem maskStr_of_notMem (slashless : 47 ∉ s) : maskStr s = none := by
  cases mask : maskStr s with
  | none => rfl
  | some l =>
    rw [ipStr_of_some mask] at slashless
    simp at slashless

/-! ## What is read -/

variable {a : Bytes}

theorem WrittenAddress.slash_notMem {ip} (written : WrittenAddress inet a ip) :
    47 ∉ a := by
  obtain ⟨rfl, -⟩ | reads := written
  · exact List.not_mem_nil
  · exact reads.slash_notMem

theorem WrittenAddress.nul_notMem {ip} (written : WrittenAddress inet a ip) :
    0 ∉ a := by
  obtain ⟨rfl, -⟩ | reads := written
  · exact List.not_mem_nil
  · exact reads.nul_notMem

theorem WrittenAddress.readIp {ip} (written : WrittenAddress inet a ip) :
    ∃ isKnown, IpPrefix.readIp inet a = .ok ⟨ip, isKnown⟩ := by
  obtain ⟨rfl, rfl⟩ | reads := written
  · exact ⟨rfl, rfl⟩
  · exact ⟨reads.known,
      by rw [IpPrefix.readIp, if_neg reads.ne_nil, IpAddress.ofString_reads reads]⟩

variable {ip : {ip : IpAddress // ip.known = true}}

theorem writtenAddress_of_readIp (nulFree : 0 ∉ a) (read : readIp inet a = .ok ip) :
    WrittenAddress inet a ip := by
  unfold readIp at read
  split at read
  · rename_i empty
    cases read
    exact .inl ⟨empty, rfl⟩
  · exact .inr (IpAddress.reads_of_ofString nulFree read)

theorem ofString_ok (read : readIp inet (ipStr s) = .ok ip) :
    ofString inet s = readMask ip (maskStr s) := by
  rw [ofString, read]
  rfl

theorem readIp_of_ofString (made : ofString inet s = .ok p) :
    ∃ ip, readIp inet (ipStr s) = .ok ip ∧ readMask ip (maskStr s) = .ok p := by
  cases read : readIp inet (ipStr s) with
  | error e =>
    rw [ofString, read] at made
    cases made
  | ok ip => exact ⟨ip, rfl, (ofString_ok read).symm.trans made⟩

theorem readMask_none : readMask ip none = .ok p ↔ ip.val = p.ip ∧ p.mask = fullLength p.ip := by
  obtain ⟨address, mask, valid⟩ := p
  simp only [readMask]
  grind

theorem readMask_some : readMask ip (some l) = .ok p ↔ ip.val = p.ip ∧ stoi l = .ok p.mask := by
  obtain ⟨address, mask, valid⟩ := p
  simp only [readMask]
  split
  · simp_all
  · rename_i n number
    rw [checked]
    split
    · grind
    · grind

/-! ## Exactness -/

theorem ofString_of_written (written : Written inet p s) : ofString inet s = .ok p := by
  cases written with
  | whole address length =>
    obtain ⟨isKnown, read⟩ := address.readIp
    have bare := maskStr_of_notMem address.slash_notMem
    rw [ofString_ok (by rw [ipStr_of_none bare, read]), bare]
    exact readMask_none.mpr ⟨rfl, length⟩
  | @slash a l address some digits value =>
    obtain ⟨isKnown, read⟩ := address.readIp
    obtain ⟨-, high⟩ := valid_small p.valid
    have small : (decimalValue l : Int) ≤ INT_MAX := by
      rw [← value]
      exact high.trans (by decide)
    rw [ofString_ok (by rw [ipStr_append address.slash_notMem, read]),
      maskStr_append address.slash_notMem]
    refine readMask_some.mpr ⟨rfl, ?_⟩
    rw [stoi_digits digits some, if_neg (not_lt.mpr small), value]

theorem written_of_ofString (notMisread : ¬ Misread inet s) (made : ofString inet s = .ok p) :
    Written inet p s := by
  obtain ⟨ip, read, length⟩ := readIp_of_ofString made
  cases mask : maskStr s with
  | none =>
    rw [mask] at length
    obtain ⟨same, full⟩ := readMask_none.mp length
    have nulFree : 0 ∉ ipStr s := fun nul => notMisread ⟨ip, read, by simp [mask], .inl nul⟩
    have address := writtenAddress_of_readIp nulFree read
    rw [same, ipStr_of_none mask] at address
    exact .whole address full
  | some l =>
    rw [mask] at length
    obtain ⟨same, number⟩ := readMask_some.mp length
    have accepted : ∀ l' ∈ maskStr s, ∃ n, stoi l' = .ok n ∧ isValid ip.val n := by
      rintro l' inside
      rw [mask] at inside
      cases inside
      exact ⟨p.mask, number, same ▸ p.valid⟩
    have nulFree : 0 ∉ ipStr s := fun nul => notMisread ⟨ip, read, accepted, .inl nul⟩
    have digits : ∀ c ∈ l, isDigit c := by
      intro c member
      by_contra notDigit
      exact notMisread ⟨ip, read, accepted, .inr ⟨l, mask, c, member, by simpa using notDigit⟩⟩
    have address := writtenAddress_of_readIp nulFree read
    have some : l ≠ [] := by
      rintro rfl
      cases number
    have value : p.mask = decimalValue l := by
      rw [stoi_digits digits some] at number
      split at number
      · cases number
      · exact (Except.ok.inj number).symm
    rw [same] at address
    rw [ipStr_of_some mask]
    exact .slash address some digits value

theorem Written.nul_notMem (written : Written inet p s) : 0 ∉ ipStr s := by
  cases written with
  | whole address =>
    rw [ipStr_of_none (maskStr_of_notMem address.slash_notMem)]
    exact address.nul_notMem
  | slash address =>
    rw [ipStr_append address.slash_notMem]
    exact address.nul_notMem

theorem Written.isDigit (written : Written inet p s) (slashed : l ∈ maskStr s) {c}
    (member : c ∈ l) : Bytes.isDigit c := by
  cases written with
  | whole address =>
    rw [maskStr_of_notMem address.slash_notMem] at slashed
    cases slashed
  | slash address some digits =>
    rw [maskStr_append address.slash_notMem] at slashed
    cases slashed
    exact digits c member

theorem exists_of_misread (misread : Misread inet s) :
    ∃ p, ofString inet s = .ok p ∧ ¬ Written inet p s := by
  obtain ⟨ip, read, length, wrong⟩ := misread
  have made : ∃ p, ofString inet s = .ok p := by
    rw [ofString_ok read]
    cases mask : maskStr s with
    | none => exact ⟨_, rfl⟩
    | some l =>
      obtain ⟨n, number, valid⟩ := length l mask
      exact ⟨⟨ip.val, n, valid⟩, readMask_some.mpr ⟨rfl, number⟩⟩
  obtain ⟨p, made⟩ := made
  refine ⟨p, made, fun written => ?_⟩
  obtain nul | ⟨l, slashed, c, member, notDigit⟩ := wrong
  · exact written.nul_notMem nul
  · exact Bool.false_ne_true (notDigit.symm.trans (written.isDigit slashed member))

/-- The constructor accepts just the texts of prefixes, apart from those it misreads; a printed
    prefix is always read back. -/
theorem ofString_exact_iff (inet : Inet) :
    (∀ s, (∀ p, ofString inet s = .ok p ↔ Written inet p s) ↔ ¬ Misread inet s) ∧
      ∀ p : IpPrefix, ∃ s, p.toString inet = .ok s ∧ ofString inet s = .ok p := by
  refine ⟨fun s => ⟨?_, ?_⟩, ofString_toString⟩
  · intro exactly misread
    obtain ⟨p, made, unwritten⟩ := exists_of_misread misread
    exact unwritten ((exactly p).mp made)
  · intro notMisread p
    exact ⟨written_of_ofString notMisread, ofString_of_written⟩

/-- A length of "24abc" is taken for 24. -/
theorem ofString_trailing_text :
    let s := ascii "10.0.0.1/24abc"
    let p : IpPrefix := ⟨.v4 0x0100000A#32, 24, rfl⟩
    ofString Inet.plain s = .ok p ∧ ¬ Written Inet.plain p s := by
  refine ⟨by decide, fun written => ?_⟩
  have digit : isDigit 97 = true := written.isDigit (l := ascii "24abc") (by decide) (by decide)
  exact absurd digit (by decide)

end SwssCommon.IpPrefix
