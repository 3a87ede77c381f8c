import SwssCommon.Redis.Connector
import SwssCommon.Redis.Script
import SwssCommon.Table.Names

/-! # Reading a table

`KEYS` lists the entries of a table and `HGETALL` reads one. Field names lose what follows an `@`.
-/

namespace SwssCommon

open Bytes Redis List Std.ExtTreeMap Glob TableBase

namespace Table

/-- The part in front of an `@`. -/
def stripSpecialSym (key : Bytes) : Bytes :=
  key.takeWhile (· ≠ 64)

theorem stripSpecialSym_of_notMem {key} (free : (64 : UInt8) ∉ key) :
    stripSpecialSym key = key := by
  rw [stripSpecialSym, takeWhile_eq_self_iff]
  intro c member
  have other : c ≠ 64 := by
    rintro rfl
    exact free member
  simpa using other

def Readable (field : Bytes) : Prop :=
  (0 : UInt8) ∉ field ∧ (64 : UInt8) ∉ field

inductive TableError where
  /-- The reply is an error, not an array. -/
  | wrongType
  deriving DecidableEq

variable (server : RedisServer)

/-- The fields of an entry, `none` if it has none. -/
def get (t : TableBase) (ks : Keyspace) (key : Bytes) :
    Except TableError (Option (List FieldValueTuple)) :=
  match ks.hashAt (cStr (t.getKeyName key)) with
  | none => .error .wrongType
  | some h =>
    if server.fields h = [] then .ok none
    else .ok (some ((server.fields h).map fun iv => (stripSpecialSym (cStr iv.1), iv.2)))

/-- A field of an entry, which loses what follows an `@` in its value. -/
def hget (t : TableBase) (ks : Keyspace) (key field : Bytes) : Except TableError (Option Bytes) :=
  match ks.hashAt (cStr (t.getKeyName key)) with
  | none => .error .wrongType
  | some h => .ok (h[cStr field]?.map fun value => stripSpecialSym (cStr value))

def getKeys (t : TableBase) (ks : Keyspace) : Option (List Bytes) :=
  ((server.names ks).filter (globMatch
    (cStr t.tableName ++ cStr t.getTableNameSeparator ++ [star]))).mapM fun name =>
      substr (cStr name) (t.tableName.length + 1)

variable {server} {t : TableBase} {ks : Keyspace}

theorem get_eq {key : Bytes} {h} (named : 0 ∉ t.tableName)
    (nonempty : key ≠ []) (nulFree : 0 ∉ key)
    (entry : ks.hashAt (t.mainName key) = some h) (readable : ∀ f v, h[f]? = some v → Readable f) :
    get server t ks key = .ok (if h = ∅ then none else some (server.fields h)) := by
  have name : cStr (t.getKeyName key) = t.mainName key := by
    rw [t.getKeyName_of_ne_nil nonempty]
    apply cStr_of_nulFree
    exact t.nul_notMem_mainName named nulFree
  have fields : ((server.fields h).map fun iv => (stripSpecialSym (cStr iv.1), iv.2)) =
      server.fields h := by
    conv => rhs; rw [← map_id (server.fields h)]
    refine map_congr_left fun iv member => ?_
    have field := readable iv.1 iv.2 (server.mem_fields.mp member)
    rw [cStr_of_nulFree field.1, stripSpecialSym_of_notMem field.2]
    rfl
  simp only [get, name, entry, fields, server.fields_eq_nil_iff]
  split <;> rfl

theorem globMatch_entries (plain : Glob.Plain t.tableName) (named : 0 ∉ t.tableName)
    (name : Bytes) :
    globMatch (cStr t.tableName ++ cStr t.getTableNameSeparator ++ [star]) name ↔
      ∃ k, name = t.mainName k := by
  rw [t.cStr_tableName named, t.cStr_separator]
  exact globMatch_mainName plain name

theorem getKeys_spec {main : Bytes → Hash} (plain : Glob.Plain t.tableName)
    (named : 0 ∉ t.tableName)
    (entries : ∀ k, ks.hashAt (t.mainName k) = some (main k))
    (nulFree : ∀ k, main k ≠ ∅ → 0 ∉ k) :
    ∃ keys, getKeys server t ks = some keys ∧ keys.Nodup ∧ ∀ k, k ∈ keys ↔ main k ≠ ∅ := by
  let pattern := cStr t.tableName ++ cStr t.getTableNameSeparator ++ [star]
  let names := (server.names ks).filter (globMatch pattern)
  have listed : ∀ k, t.mainName k ∈ names ↔ main k ≠ ∅ := by
    intro k
    have matching := (globMatch_entries plain named (t.mainName k)).mpr ⟨k, rfl⟩
    rw [mem_filter, server.mem_names, Keyspace.mem_iff_of_hashAt (entries k)]
    exact ⟨And.left, fun present => ⟨present, matching⟩⟩
  have entry : ∀ name ∈ names, ∃ k, name = t.mainName k ∧
      substr (cStr name) (t.tableName.length + 1) = some k := by
    intro name member
    obtain ⟨k, rfl⟩ := (globMatch_entries plain named name).mp (mem_filter.mp member).2
    rw [cStr_of_nulFree (t.nul_notMem_mainName named (nulFree k ((listed k).mp member)))]
    simp [substr, mainName, getTableNameSeparator]
  obtain ⟨keys, stripped, same⟩ : ∃ keys, names.mapM (fun name =>
      substr (cStr name) (t.tableName.length + 1)) = some keys ∧ keys.map t.mainName = names := by
    generalize names = l at entry
    induction l with
    | nil => exact ⟨[], rfl, rfl⟩
    | cons name l ih =>
      obtain ⟨k, rfl, key⟩ := entry name (by simp)
      obtain ⟨keys, stripped, same⟩ := ih fun other member => entry other (by simp [member])
      exact ⟨k :: keys, by simp [key, stripped], by simp [same]⟩
  have distinct : names.Nodup := (server.nodup_names ks).filter _
  refine ⟨keys, stripped, ?_, fun k => ?_⟩
  · rw [← same] at distinct
    exact distinct.of_map t.mainName
  · rw [← listed, ← same, mem_map_of_injective t.mainName_injective]

theorem mem_getKeys {k keys} (plain : Glob.Plain t.tableName)
    (named : 0 ∉ t.tableName) (nulFree : 0 ∉ k)
    (listed : getKeys server t ks = some keys) (present : t.mainName k ∈ ks) : k ∈ keys := by
  have stripped : substr (cStr (t.mainName k)) (t.tableName.length + 1) = some k := by
    rw [cStr_of_nulFree (t.nul_notMem_mainName named nulFree)]
    simp [substr, mainName, getTableNameSeparator]
  have matching := (globMatch_entries plain named (t.mainName k)).mpr ⟨k, rfl⟩
  have member := mem_filter.mpr ⟨server.mem_names.mpr present, matching⟩
  unfold getKeys at listed
  generalize (server.names ks).filter _ = names at listed member
  induction names generalizing keys with
  | nil => simp at member
  | cons name names ih =>
    simp only [mapM_cons, Option.bind_eq_bind, Option.bind_eq_some_iff, Option.pure_def,
      Option.some.injEq] at listed
    obtain ⟨first, isFirst, rest, isRest, rfl⟩ := listed
    rcases mem_cons.mp member with rfl | later
    · obtain rfl := Option.some.inj (stripped.symm.trans isFirst)
      exact mem_cons_self
    · exact mem_cons_of_mem _ (ih isRest later)

end Table

end SwssCommon
