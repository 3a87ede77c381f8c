import SwssCommon.Lib.Bytes
import SwssCommon.Lib.OrderedMap

/-! # The Redis keyspace

One map from names to typed values. Redis never stores an empty collection, and neither do the
payloads here; readers return the empty collection for a missing key, and `none` where Redis would
answer `WRONGTYPE`.
-/

namespace SwssCommon.Redis

open List Std.ExtTreeMap

abbrev Hash := Std.ExtTreeMap Bytes Bytes compare

/-- Writing the fields of `b` over those of `a`. -/
instance : Monoid Hash where
  one := ∅
  mul a b := a ∪ b
  one_mul a := ext_getElem? fun k => by
    change (∅ ∪ a : Hash)[k]? = a[k]?
    simp [getElem?_union]
  mul_one a := ext_getElem? fun k => by
    change (a ∪ ∅ : Hash)[k]? = a[k]?
    simp [getElem?_union]
  mul_assoc a b c := ext_getElem? fun k => by
    change (a ∪ b ∪ c : Hash)[k]? = (a ∪ (b ∪ c) : Hash)[k]?
    simp [getElem?_union, Option.or_assoc]

namespace Hash

/-- The fields a list of assignments leaves, the last one of a field winning. -/
def ofFields (fields : List (Bytes × Bytes)) : Hash :=
  ofList fields compare

theorem one_eq_empty : (1 : Hash) = ∅ := rfl

@[simp]
theorem getElem?_one (f : Bytes) : (1 : Hash)[f]? = none := getElem?_empty

@[simp]
theorem getElem?_mul (a b : Hash) (f : Bytes) : (a * b)[f]? = b[f]?.or a[f]? := getElem?_union

@[ext]
theorem ext {a b : Hash} (same : ∀ f : Bytes, a[f]? = b[f]?) : a = b := ext_getElem? same

theorem ofFields_nil : ofFields [] = 1 := rfl

theorem ofFields_singleton (f v : Bytes) : ofFields [(f, v)] = (∅ : Hash).insert f v :=
  ofList_singleton

theorem insert_eq_mul (a : Hash) (f v : Bytes) : a.insert f v = a * ofFields [(f, v)] := by
  ext g : 1
  rw [getElem?_mul, ofFields_singleton, Std.ExtTreeMap.getElem?_insert,
    Std.ExtTreeMap.getElem?_insert]
  split <;> simp

theorem foldl_insert (fields : List (Bytes × Bytes)) (a : Hash) :
    fields.foldl (fun h p => h.insert p.1 p.2) a = a * ofFields fields := by
  rw [ofFields, ofList_eq_insertMany_empty, insertMany_list_eq_foldl]
  induction fields using reverseRecOn with
  | nil => exact (mul_one a).symm
  | append_singleton fields p ih =>
    rw [foldl_append, foldl_append, foldl_cons, foldl_cons, foldl_nil,
      foldl_nil, ih, insert_eq_mul, insert_eq_mul (foldl _ _ _), mul_assoc]

theorem ofFields_cons (p : Bytes × Bytes) (fields : List (Bytes × Bytes)) :
    ofFields (p :: fields) = ofFields [p] * ofFields fields := by
  rw [← foldl_insert fields, ← one_mul (ofFields (p :: fields)), ← foldl_insert]
  rfl

variable {fields : List (Bytes × Bytes)}

theorem mem_ofFields {f} : f ∈ ofFields fields ↔ f ∈ fields.map Prod.fst := by
  induction fields with
  | nil => simp [ofFields_nil, one_eq_empty]
  | cons p fields ih =>
    rw [ofFields_cons, mem_iff_isSome_getElem?, map_cons,
      mem_cons, ← ih, ofFields_singleton]
    by_cases here : p.1 = f
    · simp [here]
    · simp [here, Ne.symm here]

theorem ofFields_append (xs ys : List (Bytes × Bytes)) :
    ofFields (xs ++ ys) = ofFields xs * ofFields ys := by
  induction xs with
  | nil => exact (one_mul _).symm
  | cons p xs ih => rw [cons_append, ofFields_cons, ih, ← mul_assoc, ← ofFields_cons]

theorem mul_ofFields_take {i p} (found : fields[i]? = some p) (a : Hash) :
    a * ofFields (fields.take (i + 1)) = (a * ofFields (fields.take i)).insert p.1 p.2 := by
  rw [take_add_one, found, Option.toList_some, ofFields_append, ← mul_assoc, insert_eq_mul]

theorem ofFields_of_perm {h : Hash} (same : fields.Perm h.toList) : ofFields fields = h := by
  ext f : 1
  cases found : h[f]? with
  | none =>
    apply getElem?_ofList_of_contains_eq_false
    rw [(same.map Prod.fst).contains_eq]
    simpa using found
  | some v =>
    have listed := mem_toList_iff_getElem?_eq_some.mpr found
    have distinct := same.symm.pairwise distinct_keys_toList fun ne eq =>
      ne (Std.OrientedCmp.eq_comm.mp eq)
    exact getElem?_ofList_of_mem (by simp) distinct (same.mem_iff.mpr listed)

theorem ofFields_toList (h : Hash) : ofFields h.toList = h :=
  ofFields_of_perm (.refl _)

theorem ofFields_eq_one_iff (fields : List (Bytes × Bytes)) :
    ofFields fields = 1 ↔ fields = [] := by
  constructor
  · intro empty
    exact ofList_eq_empty_iff.mp empty
  · rintro rfl
    rfl

theorem mul_ofFields_ne_one (some : fields ≠ []) (a : Hash) : a * ofFields fields ≠ 1 := by
  intro gone
  apply some
  rw [← ofFields_eq_one_iff]
  ext f : 1
  have absent := congrArg (fun h => h[f]?) gone
  simp only [getElem?_mul, getElem?_one, Option.or_eq_none_iff] at absent
  rw [absent.1, getElem?_one]

end Hash

inductive Value where
  | hash (fields : { h : Hash // h ≠ ∅ })
  | set (members : { s : Finset Bytes // s ≠ ∅ })
  | list (elements : { l : List Bytes // l ≠ [] })
  | string (content : Bytes)
  deriving DecidableEq

namespace Value

def ofHash (h : Hash) : Option Value :=
  if nonempty : h ≠ ∅ then some (.hash ⟨h, nonempty⟩) else none

def ofSet (s : Finset Bytes) : Option Value :=
  if nonempty : s ≠ ∅ then some (.set ⟨s, nonempty⟩) else none

def ofList (l : List Bytes) : Option Value :=
  if nonempty : l ≠ [] then some (.list ⟨l, nonempty⟩) else none

def hash? : Option Value → Option Hash
  | none => some ∅
  | some (.hash h) => some h
  | some _ => none

def set? : Option Value → Option (Finset Bytes)
  | none => some ∅
  | some (.set s) => some s
  | some _ => none

def list? : Option Value → Option (List Bytes)
  | none => some []
  | some (.list l) => some l
  | some _ => none

@[simp]
theorem hash?_ofHash (h : Hash) : hash? (ofHash h) = some h := by
  unfold ofHash
  split
  · rfl
  · rename_i empty
    simp only [not_not] at empty
    simp [hash?, empty]

@[simp]
theorem set?_ofSet (s : Finset Bytes) : set? (ofSet s) = some s := by
  unfold ofSet
  split
  · rfl
  · rename_i empty
    simp only [not_not] at empty
    simp [set?, empty]

@[simp]
theorem list?_ofList (l : List Bytes) : list? (ofList l) = some l := by
  unfold ofList
  split
  · rfl
  · rename_i empty
    simp only [not_not] at empty
    simp [list?, empty]

end Value

abbrev Keyspace := Std.ExtTreeMap Bytes Value compare

namespace Keyspace

def write (ks : Keyspace) (k : Bytes) : Option Value → Keyspace
  | some v => ks.insert k v
  | none => ks.erase k

theorem getElem?_write (ks : Keyspace) (k j : Bytes) (v : Option Value) :
    (ks.write k v)[j]? = if k = j then v else ks[j]? := by
  cases v with
  | some v => simp [write, Std.ExtTreeMap.getElem?_insert]
  | none => simp [write, Std.ExtTreeMap.getElem?_erase]

@[simp]
theorem getElem?_write_self (ks : Keyspace) (k : Bytes) (v : Option Value) :
    (ks.write k v)[k]? = v := by
  rw [getElem?_write, if_pos rfl]

variable {k : Bytes}

theorem getElem?_write_of_ne {j} (different : k ≠ j) (ks : Keyspace) (v : Option Value) :
    (ks.write k v)[j]? = ks[j]? := by
  rw [getElem?_write, if_neg different]

theorem write_write (ks : Keyspace) (k : Bytes) (v w : Option Value) :
    (ks.write k v).write k w = ks.write k w := by
  apply Std.ExtTreeMap.ext_getElem?
  intro j
  simp only [getElem?_write]
  split <;> rfl

theorem write_getElem? (ks : Keyspace) (k : Bytes) : ks.write k ks[k]? = ks := by
  apply Std.ExtTreeMap.ext_getElem?
  intro j
  rw [getElem?_write]
  split
  · rename_i same
    rw [same]
  · rfl

def hashAt (ks : Keyspace) (k : Bytes) : Option Hash :=
  Value.hash? ks[k]?

def setAt (ks : Keyspace) (k : Bytes) : Option (Finset Bytes) :=
  Value.set? ks[k]?

def listAt (ks : Keyspace) (k : Bytes) : Option (List Bytes) :=
  Value.list? ks[k]?

theorem hashAt_write (ks : Keyspace) (k j : Bytes) (v : Option Value) :
    (ks.write k v).hashAt j = if k = j then Value.hash? v else ks.hashAt j := by
  unfold hashAt
  rw [getElem?_write]
  split <;> rfl

theorem hashAt_write_ofHash (ks : Keyspace) (k : Bytes) (h : Hash) :
    (ks.write k (Value.ofHash h)).hashAt k = some h := by
  rw [hashAt, getElem?_write_self, Value.hash?_ofHash]

theorem hashAt_write_none (ks : Keyspace) (k : Bytes) : (ks.write k none).hashAt k = some ∅ := by
  rw [hashAt, getElem?_write_self]
  rfl

variable {ks : Keyspace}

theorem getElem?_of_setAt {members} (found : ks.setAt k = some members) :
    ks[k]? = Value.ofSet members := by
  unfold setAt at found
  cases stored : ks[k]? with
  | none =>
    rw [stored] at found
    obtain rfl : ∅ = members := by simpa [Value.set?] using found
    rfl
  | some v =>
    rw [stored] at found
    cases v with
    | set payload =>
      obtain rfl : payload.1 = members := by simpa [Value.set?] using found
      simp [Value.ofSet, payload.2]
    | hash _ | list _ | string _ => simp [Value.set?] at found

theorem getElem?_of_hashAt {h} (found : ks.hashAt k = some h) : ks[k]? = Value.ofHash h := by
  unfold hashAt at found
  cases stored : ks[k]? with
  | none =>
    rw [stored] at found
    obtain rfl : ∅ = h := by simpa [Value.hash?] using found
    rfl
  | some v =>
    rw [stored] at found
    cases v with
    | hash payload =>
      obtain rfl : payload.1 = h := by simpa [Value.hash?] using found
      simp [Value.ofHash, payload.2]
    | set _ | list _ | string _ => simp [Value.hash?] at found

theorem mem_iff_of_hashAt {h} (found : ks.hashAt k = some h) : k ∈ ks ↔ h ≠ 1 := by
  rw [mem_iff_isSome_getElem?, getElem?_of_hashAt found, Value.ofHash]
  split
  · rename_i empty
    simp [empty, Hash.one_eq_empty]
  · rename_i nonempty
    simpa [Hash.one_eq_empty] using nonempty

end Keyspace

end SwssCommon.Redis
