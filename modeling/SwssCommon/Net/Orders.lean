import Mathlib.Data.Prod.Lex
import SwssCommon.Lib.OrderedSet
import SwssCommon.Net.IpPrefix

/-! # Sets of addresses and prefixes

Ordered sets tell their members apart by `operator<`, which compares the families, then the word or
the sixteen bytes; for prefixes the lengths come first.
-/

namespace SwssCommon

open List OrderedSet

/-! ## Orders by a key -/

/-- The set made of some values, inserted one after the other. -/
def OrderedSet.insertAll {α : Type} (lt : α → α → Bool) (values : List α) : List α :=
  values.foldl (fun l a => insert lt a l) []

/-- A strict total order that tells apart what `equal` tells apart, so that a set has each
    value once. -/
structure TellsApart {α : Type} (lt equal : α → α → Bool) : Prop where
  irrefl : ∀ a, lt a a = false
  trans : ∀ a b c, lt a b = true → lt b c = true → lt a c = true
  incomparable : ∀ a b, lt a b = false ∧ lt b a = false ↔ equal a b = true
  equal_iff : ∀ a b, equal a b = true ↔ a = b
  sets : ∀ values, (insertAll lt values).Nodup ∧ ∀ a, a ∈ insertAll lt values ↔ a ∈ values

section Key

variable {α κ : Type} [LinearOrder κ] {lt equal : α → α → Bool} {key : α → κ}

theorem strictWeak_of_key (before : ∀ a b, lt a b = true ↔ key a < key b) : StrictWeak lt where
  asymm {a b} first := by
    rw [Bool.eq_false_iff, ne_eq, before]
    exact lt_asymm ((before a b).mp first)
  cotrans {a b} c first := by
    rw [before, before]
    exact (lt_or_ge (key a) (key c)).imp_right fun late => late.trans_lt ((before a b).mp first)

theorem insertAll_spec (injective : Function.Injective key)
    (before : ∀ a b, lt a b ↔ key a < key b) (values : List α) :
    ((insertAll lt values).Pairwise fun a b => lt a b) ∧
      ∀ a, a ∈ insertAll lt values ↔ a ∈ values := by
  have order := strictWeak_of_key before
  unfold insertAll
  induction values using reverseRecOn with
  | nil => simp
  | append_singleton values v ih =>
    rw [foldl_concat]
    refine ⟨insert_sorted order ih.1 v, fun a => ?_⟩
    have apart : Apart lt (values.foldl (fun l a => insert lt a l) []) v := fun b _ other => by
      rw [before, before]
      exact (lt_or_gt_of_ne fun same => other (injective same)).symm
    rw [mem_insert_of_apart order ih.1 apart, ih.2, mem_append, mem_singleton, or_comm]

theorem tellsApart_of_key (key : α → κ) (injective : Function.Injective key)
    (before : ∀ a b, lt a b = true ↔ key a < key b) (same : ∀ a b, equal a b = true ↔ a = b) :
    TellsApart lt equal where
  irrefl := (strictWeak_of_key before).irrefl
  trans a b c := (strictWeak_of_key before).trans
  incomparable a b := by
    rw [same, Bool.eq_false_iff, Bool.eq_false_iff, ne_eq, ne_eq, before, before, not_lt, not_lt,
      and_comm, ← le_antisymm_iff, injective.eq_iff]
  equal_iff := same
  sets values := by
    obtain ⟨sorted, members⟩ := insertAll_spec injective before values
    refine ⟨sorted.imp fun first same => ?_, members⟩
    rw [same, (strictWeak_of_key before).irrefl] at first
    cases first

end Key

/-! ## Addresses -/

namespace IpAddress

/-- `memcmp` is negative: the first bytes that differ decide. -/
def memcmpLt (a b : Fin 16 → BitVec 8) : Bool :=
  ofFn (fun i => (a i).toNat) < ofFn fun i => (b i).toNat

/-- Of two addresses of one unknown family the code would compare bytes the model has not. -/
def lt (a b : IpAddress) : Bool :=
  if a.family ≠ b.family then a.family < b.family
  else match a, b with
    | v4 x, v4 y => x < y
    | v6 x, v6 y => memcmpLt x y
    | _, _ => false

def key : IpAddress → ℕ ×ₗ List ℕ
  | v4 addr => toLex (AF_INET.toNat, [addr.toNat])
  | v6 addr => toLex (AF_INET6.toNat, ofFn fun i => (addr i).toNat)
  | other family => toLex (family.1.toNat, [])

variable {a b : IpAddress}

theorem lt_iff (known : a.known) (known' : b.known) :
    a.lt b ↔ a.key < b.key := by
  cases a with
  | other _ => cases known
  | v4 x =>
    cases b with
    | other _ => cases known'
    | v4 y => simp [lt, key, family, Prod.Lex.lt_iff, BitVec.lt_def, cons_lt_cons_iff]
    | v6 y => simp [lt, key, family, Prod.Lex.lt_iff, AF_INET, AF_INET6]
  | v6 x =>
    cases b with
    | other _ => cases known'
    | v4 y => simp [lt, key, family, Prod.Lex.lt_iff, AF_INET, AF_INET6]
    | v6 y => simp [lt, key, family, Prod.Lex.lt_iff, memcmpLt]

theorem key_inj (known : a.known) (known' : b.known) : a.key = b.key ↔ a = b := by
  refine ⟨fun same => ?_, congrArg key⟩
  have pair := Prod.mk.inj (toLex.injective same)
  cases a with
  | other _ => cases known
  | v4 x =>
    cases b with
    | other _ => cases known'
    | v4 y => rw [BitVec.eq_of_toNat_eq (cons.inj pair.2).1]
    | v6 y => cases pair.1
  | v6 x =>
    cases b with
    | other _ => cases known'
    | v4 y => cases pair.1
    | v6 y =>
      have bytes := ofFn_injective
        (show ofFn (fun i => (x i).toNat) = ofFn fun i => (y i).toNat from pair.2)
      rw [funext fun i => BitVec.eq_of_toNat_eq (congrFun bytes i)]

theorem equal_iff (known : a.known) : a.equal b ↔ a = b := by
  cases a with
  | other _ => cases known
  | v4 x | v6 x => cases b <;> simp [equal]

end IpAddress

namespace IpPrefix

def lt (p q : IpPrefix) : Bool :=
  if p.mask ≠ q.mask then p.mask < q.mask else p.ip.lt q.ip

theorem lt_iff (p q : IpPrefix) :
    p.lt q ↔ toLex (p.mask, p.ip.key) < toLex (q.mask, q.ip.key) := by
  rw [Prod.Lex.toLex_lt_toLex, ← IpAddress.lt_iff p.isKnown q.isKnown, lt]
  by_cases same : p.mask = q.mask <;> simp [same]

theorem ext_iff {p q : IpPrefix} : p = q ↔ p.ip = q.ip ∧ p.mask = q.mask := by
  cases p
  cases q
  simp

end IpPrefix

/-- No two addresses and no two prefixes are taken for one another in a set. -/
theorem address_orders :
    TellsApart (fun a b : {ip : IpAddress // ip.known = true} => a.1.lt b.1)
        (fun a b => a.1.equal b.1) ∧
      TellsApart IpPrefix.lt IpPrefix.equal := by
  constructor
  · refine tellsApart_of_key (fun a => a.1.key) ?_ (fun a b => IpAddress.lt_iff a.2 b.2) ?_
    · exact fun a b same => Subtype.ext ((IpAddress.key_inj a.2 b.2).mp same)
    · exact fun a b => (IpAddress.equal_iff a.2).trans Subtype.ext_iff.symm
  · refine tellsApart_of_key (fun p => toLex (p.mask, p.ip.key)) ?_ IpPrefix.lt_iff ?_
    · intro p q same
      obtain ⟨mask, ip⟩ := Prod.mk.inj (toLex.injective same)
      exact IpPrefix.ext_iff.mpr ⟨(IpAddress.key_inj p.isKnown q.isKnown).mp ip, mask⟩
    · intro p q
      rw [IpPrefix.ext_iff, ← IpAddress.equal_iff p.isKnown, IpPrefix.equal]
      simp

end SwssCommon
