import SwssCommon.ConfigDb.GetConfig
import SwssCommon.ConfigDb.Listen
import SwssCommon.ConfigDb.SetEntry

/-! # What a listener reads

The keys of a table, an entry, a whole table and a message, for tables whose names mean the same
everywhere.
-/

namespace SwssCommon.TypedConfig

open Bytes Redis Throwing List Glob ConfigDBConnector
open SetEntry (readFields)

/-! ## Names -/

def entryName (c : UInt8) (table row : Bytes) : Bytes :=
  table ++ c :: row

/-- The names of the tables are in capitals, without the separator and what a pattern gives a
    meaning to. -/
structure Regular (L : Listener) (c : UInt8) : Prop where
  single : L.separator = [c]
  literal : Glob.Literal c
  notNul : c ≠ 0
  upper : ∀ table ∈ L.handlers, toUpper table = table
  plain : ∀ table ∈ L.handlers, Glob.Plain table
  nulFree : ∀ table ∈ L.handlers, (0 : UInt8) ∉ table
  separatorFree : ∀ table ∈ L.handlers, c ∉ table

section Names

variable {L : Listener} {c : UInt8} {table row : Bytes}

theorem splitOnce_single (c : UInt8) (s : Bytes) : splitOnce [c] s = splitKey [c] s := by
  rfl

theorem splitKey_of_free (free : c ∉ row) : splitKey [c] row = none := by
  cases split : splitKey [c] row with
  | none => rfl
  | some parts =>
    obtain ⟨-, whole⟩ := of_splitKey split
    exact absurd (by rw [whole]; simp) free

theorem splitAll_ne_nil (separator : Bytes) (n : Nat) (s : Bytes) :
    splitAll separator n s ≠ [] := by
  cases n with
  | zero => exact cons_ne_nil s []
  | succ n =>
    rw [splitAll]
    cases splitOnce separator s with
    | none => exact cons_ne_nil s []
    | some parts => exact cons_ne_nil _ _

theorem intercalate_splitAll (c : UInt8) (n : Nat) (s : Bytes) :
    [c].intercalate (splitAll [c] n s) = s := by
  induction n generalizing s with
  | zero => exact intercalate_singleton
  | succ n ih =>
    rw [splitAll, splitOnce_single]
    cases split : splitKey [c] s with
    | none => exact intercalate_singleton
    | some parts =>
      obtain ⟨part, rest⟩ := parts
      obtain ⟨-, rfl⟩ := of_splitKey split
      rw [intercalate_cons_of_ne_nil (splitAll_ne_nil [c] n rest), ih]
      simp

/-- The key that `get_table` makes of a row. -/
def keyOf (c : UInt8) (row : Bytes) : PyKey :=
  if 1 < (splitAll [c] row.length row).length then .tuple (splitAll [c] row.length row)
  else .text row

theorem keyOf_single (free : c ∉ row) : keyOf c row = .text row := by
  have tokens : splitAll [c] row.length row = [row] := by
    cases row.length with
    | zero => rfl
    | succ n => rw [splitAll, splitOnce_single, splitKey_of_free free]
  rw [keyOf, tokens]
  rfl

theorem serializeKey_keyOf (c : UInt8) (row : Bytes) : serializeKey [c] (keyOf c row) = row := by
  rw [keyOf]
  split
  · exact intercalate_splitAll c row.length row
  · rfl

theorem keyOf_injective (c : UInt8) : Function.Injective (keyOf c) :=
  Function.LeftInverse.injective (serializeKey_keyOf c)

theorem entryName_injective {table' row'} (free : c ∉ table) (free' : c ∉ table')
    (same : entryName c table row = entryName c table' row') : table = table' ∧ row = row' := by
  have split := splitKey_append free row
  rw [show table ++ c :: row = table' ++ c :: row' from same, splitKey_append free' row',
    Option.some_inj, Prod.mk.injEq] at split
  exact ⟨split.1.symm, split.2.symm⟩

theorem nulFree_entryName (regular : Regular L c) (known : table ∈ L.handlers)
    (nulFree : 0 ∉ row) : 0 ∉ entryName c table row := by
  rw [entryName, mem_append, mem_cons, not_or, not_or]
  exact ⟨regular.nulFree table known, regular.notNul.symm, nulFree⟩

end Names

/-! ## The database -/

def entry (c : UInt8) (ks : Keyspace) (table row : Bytes) : Hash :=
  (ks.hashAt (entryName c table row)).getD ∅

/-- The tables that are listened to hold hashes, with keys without a NUL. -/
structure Tidy (L : Listener) (c : UInt8) (ks : Keyspace) : Prop where
  hashes : ∀ table ∈ L.handlers, ∀ row, ks.hashAt (entryName c table row) ≠ none
  nulFree : ∀ table ∈ L.handlers, ∀ row, entry c ks table row ≠ ∅ → (0 : UInt8) ∉ row

section Database

variable {L : Listener} {c : UInt8} {ks ks' : Keyspace} {table row : Bytes} {command : Command}
  {events : List Bytes}

theorem entry_executed (executed : Executes ks command ks' events)
    (other : command.name ≠ entryName c table row) :
    entry c ks' table row = entry c ks table row := by
  rw [entry, entry, executed.elsewhere other]

namespace Tidy

theorem executed (tidy : Tidy L c ks) (executed : Executes ks command ks' events)
    (nulFree : ∀ table ∈ L.handlers, ∀ row, command.name = entryName c table row →
      (0 : UInt8) ∉ row) : Tidy L c ks' where
  hashes table inside row := executed.hash (tidy.hashes table inside row)
  nulFree table inside row present := by
    by_cases name : command.name = entryName c table row
    · exact nulFree table inside row name
    · rw [entry_executed executed name] at present
      exact tidy.nulFree table inside row present

theorem hashAt (tidy : Tidy L c ks) (known : table ∈ L.handlers) (row : Bytes) :
    ks.hashAt (entryName c table row) = some (entry c ks table row) := by
  obtain ⟨h, found⟩ := Option.ne_none_iff_exists'.mp (tidy.hashes table known row)
  rw [entry, found]
  rfl

end Tidy

def rowOf (c : UInt8) (data : Std.ExtTreeMap Bytes Hash compare) (key : PyKey) :
    Option TypedData :=
  if keyOf c (serializeKey [c] key) = key then
    data[serializeKey [c] key]?.map fun entry => rawToTyped entry.toList
  else none

theorem rowOf_keyOf (c : UInt8) (data : Std.ExtTreeMap Bytes Hash compare) (row : Bytes) :
    rowOf c data (keyOf c row) = data[row]?.map fun entry => rawToTyped entry.toList := by
  rw [rowOf, serializeKey_keyOf, if_pos rfl]

theorem exists_of_rowOf {data key d}
    (found : rowOf c data key = some d) : ∃ row, key = keyOf c row := by
  rw [rowOf] at found
  split at found
  · rename_i same
    exact ⟨_, same.symm⟩
  · exact nomatch found

def entryData (L : Listener) (h : Hash) : TypedData :=
  rawToTyped (readFields L.server h).toList

variable (regular : Regular L c)
include regular

theorem typedTable_eq (data : Std.ExtTreeMap Bytes Hash compare) :
    ∃ rows, typedTable L.separator data = some rows ∧ ∀ key, rows.get? key = rowOf c data key := by
  let typed (e : Bytes × Hash) : PyKey × TypedData := (keyOf c e.1, rawToTyped e.2.toList)
  have each : typedRow L.separator = fun e => pure (typed e) := by
    funext e
    rw [regular.single]
    rfl
  have nodup : ((data.toList.map typed).map Prod.fst).Nodup := by
    rw [map_map]
    refine pairwise_map.mpr ?_
    refine Std.ExtTreeMap.distinct_keys_toList.imp fun apart same => apart ?_
    rw [keyOf_injective c same]
    exact Std.ReflCmp.compare_self
  refine ⟨.ofItems (data.toList.map typed), ?_, fun key => ?_⟩
  · rw [typedTable, each, mapM_pure]
    rfl
  · ext d
    rw [Dict.get?_eq_some_iff, Dict.items_ofItems nodup, mem_map]
    constructor
    · rintro ⟨⟨row, h⟩, member, same⟩
      obtain ⟨rfl, rfl⟩ := Prod.mk.inj same
      rw [rowOf_keyOf, Std.ExtTreeMap.mem_toList_iff_getElem?_eq_some.mp member]
      rfl
    · intro found
      obtain ⟨row, rfl⟩ := exists_of_rowOf found
      rw [rowOf_keyOf] at found
      obtain ⟨h, stored, rfl⟩ := Option.map_eq_some_iff.mp found
      exact ⟨(row, h), Std.ExtTreeMap.mem_toList_iff_getElem?_eq_some.mpr stored, rfl⟩

variable (tidy : Tidy L c ks) (known : table ∈ L.handlers)
include known

theorem globMatch_pattern (name : Bytes) :
    globMatch (cStr (pattern L.separator table)) name ↔
      ∃ row, name = entryName c table row := by
  have shape : pattern L.separator table = (table ++ [c]) ++ [star] := by
    rw [pattern, regular.upper table known, regular.single]
    rfl
  have free : 0 ∉ (table ++ [c]) ++ [star] := by
    simp only [mem_append, mem_singleton, not_or]
    exact ⟨⟨regular.nulFree table known, regular.notNul.symm⟩, by decide⟩
  have plain : Glob.Plain (table ++ [c]) := forall_mem_append.mpr
    ⟨regular.plain table known, forall_mem_singleton.mpr regular.literal⟩
  rw [shape, cStr_of_nulFree free, globMatch_plain_star plain]
  simp [entryName, List.IsPrefix, eq_comm]

include tidy

theorem keys_spec : ∃ keys,
    DBConnector.keys L.server (pattern L.separator table) ks = .ok keys ks ∧
      (∀ key ∈ keys, ∃ row, key = entryName c table row ∧ 0 ∉ row) ∧
      ∀ row, entryName c table row ∈ keys ↔ entry c ks table row ≠ ∅ := by
  have present (row : Bytes) : entryName c table row ∈ ks ↔ entry c ks table row ≠ ∅ :=
    Keyspace.mem_iff_of_hashAt (tidy.hashAt known row)
  have listed (key : Bytes) : key ∈ ((L.server.names ks).filter
      (globMatch (cStr (pattern L.separator table)))).map cStr ↔
        ∃ row, entry c ks table row ≠ ∅ ∧ key = entryName c table row := by
    simp only [mem_map, mem_filter, globMatch_pattern regular known, L.server.mem_names]
    constructor
    · rintro ⟨_, ⟨inside, row, rfl⟩, rfl⟩
      have filled := (present row).mp inside
      exact ⟨row, filled, cStr_of_nulFree
        (nulFree_entryName regular known (tidy.nulFree table known row filled))⟩
    · rintro ⟨row, filled, rfl⟩
      exact ⟨_, ⟨(present row).mpr filled, row, rfl⟩, cStr_of_nulFree
        (nulFree_entryName regular known (tidy.nulFree table known row filled))⟩
  refine ⟨_, DBConnector.keys_eq _ ks, fun key inside => ?_, fun row => ?_⟩
  · obtain ⟨row, filled, rfl⟩ := (listed key).mp inside
    exact ⟨row, rfl, tidy.nulFree table known row filled⟩
  · rw [listed]
    constructor
    · rintro ⟨row', filled, same⟩
      have free := regular.separatorFree table known
      rw [(entryName_injective free free same).2]
      exact filled
    · exact fun filled => ⟨row, filled, rfl⟩

theorem hgetallMap_entry (nulFree : 0 ∉ row) :
    DBConnector.hgetallMap L.server (entryName c table row) ks =
      .ok (readFields L.server (entry c ks table row)) ks := by
  refine DBConnector.hgetallMap_eq ?_
  rw [cStr_of_nulFree (nulFree_entryName regular known nulFree)]
  exact tidy.hashAt known row

theorem readRow_entry (nulFree : 0 ∉ row) (data : Std.ExtTreeMap Bytes Hash compare) :
    readRow L.server L.separator data (entryName c table row) ks =
      .ok (data.insert row (readFields L.server (entry c ks table row))) ks := by
  have split : splitKey L.separator (entryName c table row) = some (table, row) := by
    rw [regular.single]
    exact splitKey_append (regular.separatorFree table known) row
  unfold readRow
  rw [bind_ok (hgetallMap_entry regular tidy known nulFree), split]
  rfl

theorem foldlM_readRow {keys : List Bytes}
    (nulFree : ∀ key ∈ keys, ∃ row, key = entryName c table row ∧ 0 ∉ row)
    (data : Std.ExtTreeMap Bytes Hash compare) :
    ∃ data', keys.foldlM (readRow L.server L.separator) data ks = .ok data' ks ∧
      ∀ row, data'[row]? =
        if entryName c table row ∈ keys then some (readFields L.server (entry c ks table row))
        else data[row]? := by
  induction keys generalizing data with
  | nil => exact ⟨data, rfl, fun row => (if_neg not_mem_nil).symm⟩
  | cons key keys ih =>
    obtain ⟨row, rfl, free⟩ := nulFree key mem_cons_self
    obtain ⟨data', rest, rows⟩ := ih (fun key member => nulFree key (mem_cons_of_mem _ member))
      (data.insert row (readFields L.server (entry c ks table row)))
    refine ⟨data', ?_, fun row' => ?_⟩
    · rw [foldlM_cons, bind_ok (readRow_entry regular tidy known free data)]
      exact rest
    · have apart := regular.separatorFree table known
      rw [rows, Std.ExtTreeMap.getElem?_insert]
      by_cases here : row = row'
      · subst here
        simp
      · have other : entryName c table row' ≠ entryName c table row := fun same =>
          here (entryName_injective apart apart same).2.symm
        simp [here, other]

theorem getTable_spec :
    ∃ rows, getTable L.server L.separator table ks = .ok (some rows) ks ∧
      (∀ key d, rows.get? key = some d → ∃ row, key = keyOf c row) ∧
      ∀ row, rows.get? (keyOf c row) =
        if entry c ks table row = ∅ then none else some (entryData L (entry c ks table row)) := by
  obtain ⟨keys, listed, nulFree, present⟩ := keys_spec regular tidy known
  obtain ⟨data, read, stored⟩ := foldlM_readRow regular tidy known nulFree ∅
  have whole : ConfigDBConnector.getTable L.server L.separator table ks = .ok data ks := by
    rw [ConfigDBConnector.getTable, bind_ok listed]
    exact read
  obtain ⟨rows, typed, rowsAt⟩ := typedTable_eq regular data
  refine ⟨rows, ?_, fun key d found => exists_of_rowOf ((rowsAt key).symm.trans found),
    fun row => ?_⟩
  · rw [getTable, bind_ok whole, typed]
    rfl
  · rw [rowsAt, rowOf_keyOf, stored]
    by_cases empty : entry c ks table row = ∅
    · simp [present, empty]
    · simp [present, empty, entryData]

end Database

/-! ## Messages -/

section Messages

variable {L : Listener} {c : UInt8} {ks : Keyspace} {table row name event : Bytes}

def eventMessage (L : Listener) (note : Bytes × Bytes) : Reply :=
  .array [ascii "pmessage", L.pattern, keyspaceChannel L.dbId note.1, note.2]

theorem pmessages_pattern (L : Listener) (name event : Bytes) :
    pmessages [L.pattern] L.dbId name event = [eventMessage L (name, event)] := by
  have shape : L.pattern = keyspaceChannel L.dbId [] ++ [star] := by
    simp only [Listener.pattern, keyspaceChannel, append_assoc]
    rfl
  have matching : globMatch L.pattern (keyspaceChannel L.dbId name) := by
    rw [shape, globMatch_plain_star (plain_keyspaceChannel (by decide)), keyspaceChannel_eq,
      keyspaceChannel_eq]
    exact ⟨name, by simp⟩
  simp [pmessages, matching, eventMessage]

theorem onMessage_eventMessage (initData : InitData) (note : Bytes × Bytes) :
    L.onMessage initData (RedisMessage.ofReply (eventMessage L note)) =
      L.onEvent initData (cStr note.1) (cStr note.2) := by
  have channel : splitOnce (ascii ":") (cStr (keyspaceChannel L.dbId note.1)) =
      some (channelOpening L.dbId, cStr note.1) := by
    rw [cStr_keyspaceChannel, keyspaceChannel_eq]
    exact (splitOnce_single 58 _).trans
      (splitKey_append (notMem_channelOpening (by decide) (by decide)) (cStr note.1))
  have type : cStr (ascii "pmessage") = ascii "pmessage" := by decide
  simp only [Listener.onMessage, eventMessage, RedisMessage.ofReply, type, if_true, channel]

theorem onEvent_entry (regular : Regular L c) (tidy : Tidy L c ks) (known : table ∈ L.handlers)
    (nulFree : 0 ∉ row) (initData : InitData) (event : Bytes) :
    L.onEvent initData (entryName c table row) event ks =
      .ok (fire initData table (.text row) (if event = ascii "del" then none
        else some (entryData L (entry c ks table row)))) ks := by
  have split : splitOnce L.separator (entryName c table row) = some (table, row) := by
    rw [regular.single]
    exact splitKey_append (regular.separatorFree table known) row
  simp only [Listener.onEvent, split, if_pos known]
  by_cases del : event = ascii "del"
  · rw [if_pos del, if_pos del]
    rfl
  · rw [if_neg del, if_neg del, bind_ok (hgetallMap_entry regular tidy known nulFree)]
    rfl

theorem onEvent_foreign (regular : Regular L c)
    (foreign : ∀ table ∈ L.handlers, ∀ row, name ≠ entryName c table row) (initData : InitData)
    (event : Bytes) : L.onEvent initData name event ks = .ok (initData, []) ks := by
  rw [Listener.onEvent, regular.single, splitOnce_single]
  cases split : splitKey [c] name with
  | none => rfl
  | some parts =>
    obtain ⟨table, row⟩ := parts
    have outside : table ∉ L.handlers := fun inside =>
      foreign table inside row (of_splitKey split).2
    simp only [if_neg outside]
    rfl

theorem eq_entryName_of_cStr (nulFree : ∀ row, name = entryName c table row → 0 ∉ row)
    (cut : cStr name = entryName c table row) : name = entryName c table row := by
  by_cases nul : 0 ∈ name
  · obtain ⟨rest, whole⟩ := eq_cStr_append_of_nul nul
    have longer : name = entryName c table (row ++ 0 :: rest) := by
      rw [whole, cut]
      simp [entryName]
    exact absurd (nulFree _ longer) (by simp)
  · rw [← cut, cStr_of_nulFree nul]

end Messages

end SwssCommon.TypedConfig
