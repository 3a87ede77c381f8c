import SwssCommon.Table.Content

/-! # One field and all of them

`get` returns the values of an entry whole and strips the names of its fields. `hget` takes the
value for a C string and strips the value.
-/

namespace SwssCommon

open Bytes Redis Script List Std.ExtTreeMap

namespace Table

def hset (t : TableBase) (key field value : Bytes) : Script Unit := do
  let _ ← Script.hset (cStr (t.getKeyName key)) (cStr field) (cStr value)

variable (server : RedisServer)

/-- A field with its value is in the result of `get`. -/
def Lists (t : TableBase) (ks : Keyspace) (key field value : Bytes) : Prop :=
  ∃ values, get server t ks key = .ok (some values) ∧ (field, value) ∈ values

def ReadsAlike (t : TableBase) (ks : Keyspace) (key field : Bytes) : Prop :=
  ∀ value, Lists server t ks key field value ↔ hget t ks key field = .ok (some value)

/-- Every name that comes out as this field is the field or repeats it, its value comes out whole,
    and a name that goes in cut is not there. -/
structure PlainField (h : Hash) (field : Bytes) : Prop where
  whole : ∀ f v : Bytes, h[f]? = some v → cStr f = field → h[field]? = some v ∧ Readable v
  uncut : (0 : UInt8) ∈ field → h[cStr field]? = none

theorem atFree_stripSpecialSym (s : Bytes) : (64 : UInt8) ∉ stripSpecialSym s := by
  intro member
  simpa using mem_takeWhile_imp member

theorem stripSpecialSym_eq_self_iff {s} : stripSpecialSym s = s ↔ (64 : UInt8) ∉ s := by
  constructor
  · intro whole
    rw [← whole]
    exact atFree_stripSpecialSym s
  · exact stripSpecialSym_of_notMem

theorem read_eq_self_iff {v} : stripSpecialSym (cStr v) = v ↔ Readable v := by
  constructor
  · intro whole
    have part : 0 ∉ stripSpecialSym (cStr v) := fun member =>
      nul_notMem_cStr v (takeWhile_subset _ member)
    rw [whole] at part
    rw [cStr_of_nulFree part] at whole
    exact ⟨part, stripSpecialSym_eq_self_iff.mp whole⟩
  · rintro ⟨nulFree, atFree⟩
    rw [cStr_of_nulFree nulFree, stripSpecialSym_of_notMem atFree]

variable {server} {t : TableBase} {ks : Keyspace} {key : Bytes} {h : Hash}

theorem mem_of_found {f v} (found : h[f]? = some v) : f ∈ h := by
  rw [mem_iff_isSome_getElem?, found]
  rfl

theorem hget_eq (entry : ks.hashAt (cStr (t.getKeyName key)) = some h) (field : Bytes) :
    hget t ks key field = .ok (h[cStr field]?.map fun value => stripSpecialSym (cStr value)) := by
  rw [hget, entry]

theorem lists_iff (entry : ks.hashAt (cStr (t.getKeyName key)) = some h)
    (atFree : ∀ f ∈ h, (64 : UInt8) ∉ f) (field value : Bytes) :
    Lists server t ks key field value ↔ ∃ f, h[f]? = some value ∧ cStr f = field := by
  have name : ∀ f ∈ h, stripSpecialSym (cStr f) = cStr f := fun f member =>
    stripSpecialSym_of_notMem fun inside => atFree f member (takeWhile_subset _ inside)
  unfold Lists get
  rw [entry]
  constructor
  · rintro ⟨values, read, member⟩
    dsimp only at read
    split at read
    · cases read
    · cases read
      obtain ⟨⟨f, v⟩, stored, same⟩ := mem_map.mp member
      have found := server.mem_fields.mp stored
      obtain ⟨rfl, rfl⟩ := Prod.mk.inj same
      exact ⟨f, found, (name f (mem_of_found found)).symm⟩
  · rintro ⟨f, found, rfl⟩
    have stored := server.mem_fields.mpr found
    refine ⟨_, if_neg (ne_nil_of_mem stored), mem_map.mpr ⟨(f, value), stored, ?_⟩⟩
    rw [name f (mem_of_found found)]

theorem readsAlike_iff (entry : ks.hashAt (cStr (t.getKeyName key)) = some h)
    (atFree : ∀ f ∈ h, (64 : UInt8) ∉ f) (field : Bytes) :
    ReadsAlike server t ks key field ↔ PlainField h field := by
  unfold ReadsAlike
  simp only [lists_iff entry atFree, hget_eq entry, Except.ok.injEq, Option.map_eq_some_iff]
  constructor
  · intro alike
    constructor
    · rintro f v found rfl
      obtain ⟨u, stored, read⟩ := (alike v).mp ⟨f, found, rfl⟩
      rw [cStr_cStr] at stored
      obtain ⟨u', again, whole⟩ := (alike u).mp ⟨cStr f, stored, cStr_cStr f⟩
      rw [cStr_cStr, stored] at again
      cases again
      obtain rfl : u = v := whole.symm.trans read
      exact ⟨stored, read_eq_self_iff.mp read⟩
    · intro nul
      cases stored : h[cStr field]? with
      | none => rfl
      | some u =>
        obtain ⟨f, -, rfl⟩ := (alike _).mpr ⟨u, stored, rfl⟩
        exact absurd nul (nul_notMem_cStr f)
  · intro plain value
    constructor
    · rintro ⟨f, found, rfl⟩
      obtain ⟨stored, readable⟩ := plain.whole f value found rfl
      exact ⟨value, by rwa [cStr_cStr], read_eq_self_iff.mpr readable⟩
    · rintro ⟨u, stored, rfl⟩
      by_cases nul : 0 ∈ field
      · rw [plain.uncut nul] at stored
        cases stored
      · rw [cStr_of_nulFree nul] at stored
        obtain ⟨-, readable⟩ := plain.whole field u stored (cStr_of_nulFree nul)
        exact ⟨field, by rwa [read_eq_self_iff.mpr readable], cStr_of_nulFree nul⟩

theorem plainField_of_nulFree (nulFree : ∀ f ∈ h, (0 : UInt8) ∉ f) {field : Bytes}
    (uncut : (0 : UInt8) ∉ field) (whole : ∀ v, h[field]? = some v → Readable v) :
    PlainField h field where
  whole f v found same := by
    rw [cStr_of_nulFree (nulFree f (mem_of_found found))] at same
    subst same
    exact ⟨found, whole v found⟩
  uncut nul := absurd nul uncut

variable {s : Server}

/-- A field that was written is read back, unless its value has an `@`; and both calls read a field
    alike exactly if it is plain. -/
theorem hget_after_hset (entry : s.keyspace.hashAt (cStr (t.getKeyName key)) = some h)
    (atFree : ∀ f ∈ h, (64 : UInt8) ∉ f) {field value : Bytes} (readable : Readable field)
    (nulFree : (0 : UInt8) ∉ value) :
    ∃ s', hset t key field value s = (.ok (), s') ∧
      (hget t s'.keyspace key field = .ok (some value) ↔ (64 : UInt8) ∉ value) ∧
      ∀ f, ReadsAlike server t s'.keyspace key f ↔ PlainField (h.insert field value) f := by
  obtain ⟨⟨⟩, s', ran, after⟩ : Ensures (hset t key field value) s fun _ s' =>
      s'.keyspace.hashAt (cStr (t.getKeyName key)) = some (h.insert field value) := by
    refine Ensures.bind (hset_ensures entry (Ensures.pure ?_))
    rw [cStr_of_nulFree readable.1, cStr_of_nulFree nulFree]
    simp [Keyspace.hashAt_write]
  have names : ∀ f ∈ h.insert field value, (64 : UInt8) ∉ f := by
    intro f member
    cases mem_insert.mp member with
    | inl same =>
      rw [← Std.compare_eq_iff_eq.mp same]
      exact readable.2
    | inr before => exact atFree f before
  refine ⟨s', ran, ?_, readsAlike_iff after names⟩
  rw [hget_eq after, cStr_of_nulFree readable.1, getElem?_insert_self,
    Option.map_some, Except.ok.injEq, Option.some.injEq, read_eq_self_iff]
  exact and_iff_right nulFree

private def portTable : TableBase := ⟨ascii "PORT_TABLE", .colon⟩

private def aliased : Hash := Hash.ofFields [(ascii "alias", ascii "etp2@a")]

private def ethernet4 : Server :=
  ⟨(∅ : Keyspace).write (ascii "PORT_TABLE:Ethernet4") (Value.ofHash aliased), []⟩

/-- A speed is read back, next to an alias that has an `@` in it. -/
theorem hget_after_hset_speed : ∃ s',
    hset portTable (ascii "Ethernet4") (ascii "speed") (ascii "40000") ethernet4 = (.ok (), s') ∧
    hget portTable s'.keyspace (ascii "Ethernet4") (ascii "speed") = .ok (some (ascii "40000")) ∧
    ReadsAlike .sorted portTable s'.keyspace (ascii "Ethernet4") (ascii "speed") := by
  have entry : ethernet4.keyspace.hashAt (cStr (portTable.getKeyName (ascii "Ethernet4"))) =
      some aliased := rfl
  have field : Readable (ascii "speed") := ⟨by decide, by decide⟩
  have nulFree : (0 : UInt8) ∉ ascii "40000" := by decide
  obtain ⟨s', ran, read, alike⟩ :=
    hget_after_hset entry (OrderedMap.forall_mem (by decide)) field nulFree
  refine ⟨s', ran, read.mpr (by decide), (alike _).mpr (plainField_of_nulFree
    (OrderedMap.forall_mem (by decide)) (by decide) ?_)⟩
  rintro v ⟨⟩
  exact ⟨by decide, by decide⟩

/-- What follows an `@` is lost by `hget` only. -/
theorem hget_stripped : ∃ s',
    hset portTable (ascii "Ethernet4") (ascii "descr") (ascii "a@b") ethernet4 = (.ok (), s') ∧
    hget portTable s'.keyspace (ascii "Ethernet4") (ascii "descr") = .ok (some (ascii "a")) ∧
    Lists .sorted portTable s'.keyspace (ascii "Ethernet4") (ascii "descr") (ascii "a@b") := by
  refine ⟨_, rfl, by decide +kernel, _, rfl, by decide +kernel⟩

end Table

end SwssCommon
