import SwssCommon.QueueTable.Replay
import SwssCommon.StateTable.ViewSwitch
import SwssCommon.Table.Content

/-! # The names the components put together

Producers write and state tables read the pending hash of a key; consumers write and `Table` reads
its main hash. The names they put together agree on the keys of an ordinary table, but not on the
empty key, on a table whose separator is not `:`, nor on names that a C string or a pattern cannot
carry.
-/

namespace SwssCommon

open Bytes Redis Script List Std.ExtTreeMap Keyspace TableBase ConsumerTable

namespace TableBase

inductive PendingUser where
  | set
  | del
  | batchedSet
  | batchedDel
  | applyTempView
  /-- The pop script of a `ConsumerStateTable`. -/
  | pops

/-- Who works on the main hash of a key, besides `dump`. -/
inductive MainUser where
  | stateTablePops
  | tablePops
  | get

variable (t : TableBase) (key : Bytes)

def pendingHash : PendingUser → Bytes
  | .set | .del | .applyTempView => t.getStateHashPrefix ++ t.getKeyName key
  -- the scripts append the key to one of their words
  | .batchedSet | .batchedDel =>
    t.getStateHashPrefix ++ t.tableName ++ t.getTableNameSeparator ++ key
  | .pops => cStr t.getStateHashPrefix ++ (cStr t.tableName ++ cStr t.getTableNameSeparator) ++ key

def mainHash : MainUser → Bytes
  | .stateTablePops => cStr t.tableName ++ cStr t.getTableNameSeparator ++ key
  | .tablePops => keyname (cStr t.tableName) key
  | .get => cStr (t.getKeyName key)

/-- `dump` lists the hash `name` as the entry `key`. -/
def Lists (name : Bytes) : Prop :=
  Glob.globMatch (cStr t.tableName ++ ascii ":*") name = true ∧
    substr name (t.tableName.length + 1) = some key

structure NamedAlike : Prop where
  pending : ∀ user other, t.pendingHash key user = t.pendingHash key other
  main : ∀ user other, t.mainHash key user = t.mainHash key other
  dump : ∀ name, t.Lists key name ↔ name = t.mainHash key .get

variable {t key}

/-! ## Where the names agree -/

theorem pops_names (nulFree : 0 ∉ t.tableName) :
    t.pendingHash key .pops = t.pendingName key ∧
      t.mainHash key .stateTablePops = t.mainName key := by
  rw [pendingHash, mainHash, t.cStr_tableName nulFree, t.cStr_separator]
  exact ⟨rfl, rfl⟩

theorem tablePops_name (nulFree : 0 ∉ t.tableName) :
    t.mainHash key .tablePops = keyname t.tableName key := by
  rw [mainHash, t.cStr_tableName nulFree]

theorem pendingHash_eq (nonempty : key ≠ []) (nulFree : 0 ∉ t.tableName)
    (user : PendingUser) : t.pendingHash key user = t.pendingName key := by
  cases user with
  | set | del | applyTempView => exact t.bufferName_of_ne_nil nonempty
  | batchedSet | batchedDel => simp [pendingHash, pendingName, mainName]
  | pops => exact (pops_names nulFree).1

theorem separator_eq_colon : t.separator = .colon ↔ t.getTableNameSeparator = ascii ":" := by
  cases other : t.separator with
  | colon | vbar => simp [getTableNameSeparator, other]; decide

theorem mainHash_eq (nonempty : key ≠ []) (colon : t.separator = .colon)
    (nulFree : 0 ∉ t.tableName) (keyNulFree : 0 ∉ key) (user : MainUser) :
    t.mainHash key user = t.mainName key := by
  cases user with
  | stateTablePops => exact (pops_names nulFree).2
  | tablePops =>
    rw [tablePops_name nulFree, keyname, if_neg nonempty, mainName, separator_eq_colon.mp colon]
  | get =>
    rw [mainHash, t.getKeyName_of_ne_nil nonempty]
    exact cStr_of_nulFree (t.nul_notMem_mainName nulFree keyNulFree)

theorem lists_iff (colon : t.separator = .colon) (nulFree : 0 ∉ t.tableName)
    (plain : Glob.Plain t.tableName) (name : Bytes) : t.Lists key name ↔ name = t.mainName key := by
  rw [Lists, t.cStr_tableName nulFree, dump_pattern plain colon]
  constructor
  · rintro ⟨⟨k, rfl⟩, stripped⟩
    rw [substr_mainName] at stripped
    rw [Option.some.inj stripped]
  · rintro rfl
    exact ⟨⟨key, rfl⟩, t.substr_mainName key⟩

/-! ## What it takes -/

theorem nul_notMem_of_cStr {s} (whole : (cStr s).length = s.length) : 0 ∉ s := by
  intro nul
  obtain ⟨rest, cut⟩ := eq_cStr_append_of_nul nul
  have lengths := congrArg length cut
  rw [length_append, length_cons] at lengths
  omega

/-- The components work on the same two hashes for the keys of an ordinary table, and for no
    others. -/
theorem namedAlike_iff (t : TableBase) (key : Bytes) :
    t.NamedAlike key ↔ key ≠ [] ∧ t.separator = .colon ∧ (0 : UInt8) ∉ t.tableName ∧
      (0 : UInt8) ∉ key ∧ Glob.Plain t.tableName := by
  constructor
  · intro alike
    have nonempty : key ≠ [] := by
      rintro rfl
      have lengths := congrArg length (alike.pending .set .batchedSet)
      simp [pendingHash, getKeyName, getTableNameSeparator] at lengths
    have nulFree : (0 : UInt8) ∉ t.tableName := by
      apply nul_notMem_of_cStr
      have lengths := congrArg length (alike.pending .pops .batchedSet)
      simp only [pendingHash, t.cStr_stateHashPrefix, t.cStr_separator, length_append] at lengths
      omega
    have colon : t.separator = .colon := by
      have same := alike.main .stateTablePops .tablePops
      rw [mainHash, mainHash, keyname, if_neg nonempty, t.cStr_separator] at same
      exact separator_eq_colon.mpr (append_cancel_left (append_cancel_right same))
    have keyNulFree : (0 : UInt8) ∉ key := by
      have same := alike.main .get .stateTablePops
      rw [mainHash, mainHash, t.getKeyName_of_ne_nil nonempty, t.cStr_tableName nulFree,
        t.cStr_separator] at same
      have free := nul_notMem_of_cStr (congrArg length same)
      exact fun inKey => free (mem_append_right _ inKey)
    have pattern : ∀ name, t.Lists key name ↔ name = t.tableName ++ 58 :: key := by
      intro name
      rw [alike.dump, mainHash_eq nonempty colon nulFree keyNulFree, mainName,
        separator_eq_colon.mp colon, append_assoc]
      rfl
    have selects := ((pattern _).mpr rfl).1
    rw [t.cStr_tableName nulFree] at selects
    refine ⟨nonempty, colon, nulFree, keyNulFree, Glob.plain_of_selects selects ?_⟩
    intro name length ending selected
    refine (pattern name).mp ⟨(t.cStr_tableName nulFree).symm ▸ selected, ?_⟩
    rw [length_append, length_cons] at length
    rw [substr, if_pos (by omega), ending]
  · rintro ⟨nonempty, colon, nulFree, keyNulFree, plain⟩
    refine ⟨fun user other => ?_, fun user other => ?_, fun name => ?_⟩
    · rw [pendingHash_eq nonempty nulFree, pendingHash_eq nonempty nulFree]
    · rw [mainHash_eq nonempty colon nulFree keyNulFree,
        mainHash_eq nonempty colon nulFree keyNulFree]
    · rw [mainHash_eq nonempty colon nulFree keyNulFree, lists_iff colon nulFree plain]

/-- A single set of the empty key goes to `_T`, and the pop script looks at `_T:`; what a state
    table pops into `T|k`, a queue table pops into `T:k`. -/
theorem named_apart :
    ¬ NamedAlike ⟨ascii "T", .colon⟩ [] ∧ ¬ NamedAlike ⟨ascii "T", .vbar⟩ (ascii "k") := by
  constructor
  · intro alike
    exact absurd (alike.pending .set .pops) (by decide)
  · intro alike
    exact absurd (alike.main .stateTablePops .tablePops) (by decide)

end TableBase

/-! ## The names are those the components work on

For the pop scripts, whose words have to be free of NULs, this is `pops_ensures` and
`popLoop_ensures` with the names of `pops_names` and `tablePops_name`. -/

namespace ProducerStateTable

variable {p : ProducerStateTable} {key : Bytes} {s : Server} {dirty erased : Finset Bytes}
  {h : Hash}

theorem bufferName_ne_keySetName (p : ProducerStateTable) (key : Bytes) :
    p.bufferName key ≠ p.getKeySetName := by
  by_cases empty : key = []
  · rw [empty]
    exact p.foreign_bufferName_nil.keySet
  · rw [p.bufferName_of_ne_nil empty]
    exact p.pendingName_ne_keySetName key

theorem bufferName_ne_delKeySetName (p : ProducerStateTable) (key : Bytes) :
    p.bufferName key ≠ p.getDelKeySetName := by
  by_cases empty : key = []
  · rw [empty]
    exact p.foreign_bufferName_nil.delSet
  · rw [p.bufferName_of_ne_nil empty]
    exact p.pendingName_ne_delKeySetName key

theorem hashAt_putFields {ks name} (found : ks.hashAt name = some h)
    (values : List FieldValueTuple) :
    (putFields ks name values).hashAt name = some (h * Hash.ofFields values) := by
  rw [putFields_of_hashAt found, hashAt_write_ofHash]

theorem set_at (values : List FieldValueTuple)
    (keySet : s.keyspace.setAt p.getKeySetName = some dirty)
    (pending : s.keyspace.hashAt (p.pendingHash key .set) = some h) :
    Ensures (p.set key values) s fun _ s' =>
      s'.keyspace.hashAt (p.pendingHash key .set) = some (h * Hash.ofFields values) := by
  have typed : (s.keyspace.hashAt (p.bufferName key)).isSome := by
    rw [show s.keyspace.hashAt (p.bufferName key) = some h from pending]
    rfl
  refine (set_puts values keySet (bufferName_ne_keySetName p key).symm fun _ => typed).mono ?_
  rintro _ s' rfl
  refine hashAt_putFields ?_ values
  rw [hashAt, getElem?_write_of_ne (bufferName_ne_keySetName p key).symm]
  exact pending

theorem batchedSet_at (value : KeyOpFieldsValuesTuple)
    (keySet : s.keyspace.setAt p.getKeySetName = some dirty)
    (pending : s.keyspace.hashAt (p.pendingHash value.kfvKey .batchedSet) = some h) :
    Ensures (p.batchedSet [value]) s fun _ s' =>
      s'.keyspace.hashAt (p.pendingHash value.kfvKey .batchedSet) =
        some (h * Hash.ofFields value.kfvFieldsValues) := by
  have name : p.pendingHash value.kfvKey .batchedSet = p.pendingName value.kfvKey := by
    simp [pendingHash, pendingName, mainName]
  rw [name] at pending ⊢
  have settable : p.Settable s.keyspace [value] := by
    refine ⟨by rw [keySet]; rfl, fun other member _ => ?_⟩
    rw [mem_singleton.mp member, pending]
    rfl
  refine (batchedSet_writes [value] fun _ => settable).mono ?_
  rintro _ s' rfl
  refine hashAt_putFields ?_ value.kfvFieldsValues
  rw [hashAt, getElem?_write_of_ne (p.pendingName_ne_keySetName _).symm]
  exact pending

theorem applyView_at {diff} {v : TableMap}
    (only : diff.tempViewState.toList = [(key, v)])
    (keySet : s.keyspace.setAt p.getKeySetName = some dirty)
    (delSet : s.keyspace.setAt p.getDelKeySetName = some erased)
    (pending : s.keyspace.hashAt (p.pendingHash key .applyTempView) = some h) :
    Ensures (p.applyView diff) s fun _ s' =>
      s'.keyspace.hashAt (p.pendingHash key .applyTempView) = some (h * v) := by
  have buffer : p.pendingHash key .applyTempView = p.bufferName key := rfl
  rw [buffer] at pending ⊢
  refine (applyView_writes (fun seen s' =>
    s'.keyspace.hashAt (p.bufferName key) = some (h * (seen.map Prod.snd).prod))
    keySet delSet ?_ ?_).mono ?_
  · rw [hashAt, Server.write_keyspace, Server.write_keyspace,
      getElem?_write_of_ne (bufferName_ne_delKeySetName p key).symm,
      getElem?_write_of_ne (bufferName_ne_keySetName p key).symm]
    simpa [hashAt] using pending
  · intro seen kfvPair s' member assigned
    rw [only, mem_singleton] at member
    subst member
    refine ⟨_, assigned, ?_⟩
    rw [Server.write_keyspace, hashAt_write_ofHash, mul_assoc]
    simp
  · rintro _ s' ⟨s₁, assigned, rfl⟩
    rw [only] at assigned
    simpa using assigned

theorem del_at (keySet : s.keyspace.setAt p.getKeySetName = some dirty)
    (delSet : s.keyspace.setAt p.getDelKeySetName = some erased) :
    Ensures (p.del key) s fun _ s' => s'.keyspace.hashAt (p.pendingHash key .del) = some 1 := by
  refine (del_writes keySet delSet).mono ?_
  rintro _ s' rfl
  have gone := getElem?_write_self
    ((s.keyspace.write p.getKeySetName (Value.ofSet (insert key dirty))).write
      p.getDelKeySetName (Value.ofSet (insert key erased))) (p.bufferName key) none
  exact congrArg Value.hash? gone

theorem batchedDel_at (keySet : s.keyspace.setAt p.getKeySetName = some dirty)
    (delSet : s.keyspace.setAt p.getDelKeySetName = some erased) :
    Ensures (p.batchedDel [key]) s fun _ s' =>
      s'.keyspace.hashAt (p.pendingHash key .batchedDel) = some 1 := by
  have deletable : p.Deletable s.keyspace := ⟨by rw [keySet]; rfl, by rw [delSet]; rfl⟩
  refine (batchedDel_writes [key] fun _ => deletable).mono ?_
  rintro _ s' rfl
  exact congrArg Value.hash? (getElem?_write_self _ (p.pendingName key) none)

end ProducerStateTable

namespace TableBase

variable {t : TableBase} {key : Bytes}

theorem get_at {server : RedisServer} {ks h} (found : ks.hashAt (t.mainHash key .get) = some h) :
    Table.get server t ks key = .ok (if server.fields h = [] then none
      else some ((server.fields h).map fun iv => (Table.stripSpecialSym (cStr iv.1), iv.2))) := by
  rw [Table.get, show ks.hashAt (cStr (t.getKeyName key)) = some h from found]
  dsimp only
  split <;> rfl

theorem collect_eq_ok {names} {res res' : TableDump} {s s'}
    (ran : foldEach names res (fun k res => do
      let flat_map ← hgetall k
      pure (res.insert k (Hash.ofFields flat_map))) s = (.ok res', s')) :
    ∀ name, name ∈ res' ↔ name ∈ names ∨ name ∈ res := by
  induction names generalizing res s with
  | nil =>
    cases ran
    simp
  | cons k names ih =>
    obtain ⟨res₁, s₁, first, rest⟩ := bind_eq_ok ran
    obtain ⟨flat_map, s₂, -, inserted⟩ := bind_eq_ok first
    cases inserted
    intro name
    rw [ih rest, mem_insert, mem_cons, Std.compare_eq_iff_eq, or_left_comm, or_assoc, eq_comm]

theorem dumpCommand_collects {json s s' data}
    (ran : t.dumpCommand json s = (.ok data, s')) : ∃ res, data = json.encode res ∧
      ∀ name, name ∈ res ↔ name ∈ s.keyspace ∧
        Glob.globMatch (cStr t.tableName ++ ascii ":*") name := by
  have words : t.dumpCommand json = tableDumpScript json [cStr t.tableName] [ascii "''"] :=
    evalsha_eq (n := 1) [cStr t.tableName] [ascii "''"] rfl
  rw [words] at ran
  obtain ⟨word, s₁, given, ran⟩ := bind_eq_ok ran
  cases given
  obtain ⟨names, s₂, listed, ran⟩ := bind_eq_ok ran
  cases listed
  obtain ⟨res, s₃, collected, encoded⟩ := bind_eq_ok ran
  cases encoded
  refine ⟨res, rfl, fun name => ?_⟩
  rw [collect_eq_ok collected]
  simp

theorem readDump_keys {entries : List (Bytes × TableMap)} {e d : TableDump}
    (ran : entries.foldlM (fun tableDump it => do
      let key ← substr it.1 (t.tableName.length + 1)
      pure (tableDump.insert key (withoutNull it.2))) e = some d) (key : Bytes) :
    key ∈ d ↔ (∃ it ∈ entries, substr it.1 (t.tableName.length + 1) = some key) ∨ key ∈ e := by
  induction entries generalizing e with
  | nil =>
    obtain rfl : e = d := by simpa using ran
    simp
  | cons it entries ih =>
    cases stripped : substr it.1 (t.tableName.length + 1) with
    | none => simp [stripped] at ran
    | some k =>
      rw [ih (by simpa [stripped] using ran)]
      simp only [mem_cons, exists_eq_or_imp, stripped, mem_insert,
        Std.compare_eq_iff_eq, Option.some.injEq]
      rw [or_left_comm, or_assoc]

theorem dump_lists {json s s' data d}
    (ran : t.dumpCommand json s = (.ok data, s')) (read : t.readDump json data = some d) :
    key ∈ d ↔ ∃ name ∈ s.keyspace, t.Lists key name := by
  obtain ⟨res, rfl, collected⟩ := dumpCommand_collects ran
  unfold readDump at read
  cases parsed : json.parse (cStr (json.encode res)) with
  | none => simp [parsed] at read
  | some j =>
    obtain rfl := json.parse_encode res j parsed
    rw [parsed] at read
    rw [readDump_keys read]
    constructor
    · rintro (⟨it, member, stripped⟩ | absurd)
      · have inRes := OrderedMap.mem_iff_getElem?_ne_none.mpr (by
          rw [mem_toList_iff_getElem?_eq_some.mp member]
          exact Option.some_ne_none _)
        have found := (collected it.1).mp inRes
        exact ⟨it.1, found.1, found.2, stripped⟩
      · simp at absurd
    · rintro ⟨name, present, matching, stripped⟩
      have inRes := (collected name).mpr ⟨present, matching⟩
      obtain ⟨h, found⟩ := Option.ne_none_iff_exists'.mp
        (OrderedMap.mem_iff_getElem?_ne_none.mp inRes)
      exact .inl ⟨(name, h), mem_toList_iff_getElem?_eq_some.mpr found, stripped⟩

end TableBase

end SwssCommon
