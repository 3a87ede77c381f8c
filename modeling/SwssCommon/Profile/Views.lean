import SwssCommon.Profile.Marks

/-! # The views of a profile

The keys of a table come from a pattern, all items from a dump that is filtered, and one item is
looked up by its name. For names without a NUL, a space or a tab the three have the same items,
whatever was marked.
-/

namespace SwssCommon.ProfileProvider

open Bytes Redis Throwing DBConnector List

inductive MarkCall where
  | tryDeleteItem (table key : Bytes)
  | tryRevertItem (table key : Bytes)

variable (p : ProfileProvider)

def MarkCall.run : MarkCall → M Bool
  | .tryDeleteItem table key => p.tryDeleteItem table key
  | .tryRevertItem table key => p.tryRevertItem table key

/-- The configuration database after the calls, also after those that throw. -/
def afterCalls (cfg : Keyspace) (calls : List MarkCall) : Keyspace :=
  calls.foldl (fun cfg call => endState (call.run p cfg)) cfg

/-! ## Names -/

theorem toUpper_byte {c} (small : c < 65) (x : UInt8) :
    (if 97 ≤ x ∧ x ≤ 122 then x - 32 else x) = c ↔ x = c := by
  grind

theorem mem_toUpper {c} (small : c < 65) (s : Bytes) : c ∈ toUpper s ↔ c ∈ s := by
  unfold toUpper
  simp only [mem_map, toUpper_byte small, exists_eq_right]

theorem refused_iff {table key} : p.Refused table key ↔ Blank (table ++ key) := by
  have front : ∀ c, c = 32 ∨ c = 9 → c ∉ toUpper PROFILE_DELETE_TABLE ∧
      c ≠ p.cfgSeparator.byte ∧ c ∉ DELETED_KEY_SEPARATOR := by
    rintro c (rfl | rfl) <;> cases p.cfgSeparator <;> decide
  have name : ∀ c, c = 32 ∨ c = 9 →
      (c ∈ p.getDeletedKeyName table key ↔ c ∈ table ++ key) := by
    intro c blank
    obtain ⟨notTable, notSeparator, notJoint⟩ := front c blank
    have small : c < 65 := by
      cases blank with
      | inl space => subst space; decide
      | inr tab => subst tab; decide
    simp only [getDeletedKeyName, getKeyName, mem_append, mem_cons, notTable,
      notSeparator, notJoint, mem_toUpper small, false_or, or_false]
  unfold Refused Blank
  rw [name 32 (.inl rfl), name 9 (.inr rfl)]

variable {p} {profile cfg : Keyspace} {table key : Bytes}

/-! ## The keys of a table -/

theorem globMatch_table (literal : Glob.Plain table) (separator : Separator) (name : Bytes) :
    Glob.globMatch (table ++ separator.byte :: ascii "*") name ↔
      ∃ row, name = table ++ separator.byte :: row := by
  have start : Glob.Plain (table ++ [separator.byte]) := by
    intro c member
    cases mem_append.mp member with
    | inl inName => exact literal c inName
    | inr isSeparator =>
      rw [mem_singleton.mp isSeparator]
      cases separator <;> decide
  have pattern : table ++ separator.byte :: ascii "*" =
      table ++ [separator.byte] ++ [Glob.star] := by
    rw [append_assoc]
    rfl
  rw [pattern, Glob.globMatch_plain_star start]
  constructor
  · rintro ⟨row, same⟩
    exact ⟨row, by simpa using same.symm⟩
  · rintro ⟨row, same⟩
    exact ⟨row, by simpa using same.symm⟩

variable (p profile table) in
def itemNames : List Bytes :=
  (p.server.names profile).filter (Glob.globMatch (table ++ p.separator.byte :: ascii "*"))

theorem mem_itemNames (literal : Glob.Plain table) {name} :
    name ∈ p.itemNames profile table ↔
      name ∈ profile ∧ ∃ row, name = table ++ p.separator.byte :: row := by
  rw [itemNames, mem_filter, p.server.mem_names, globMatch_table literal]

theorem query_keys (hashes : PlainHashes profile) (upper : toUpper table = table)
    (nulFree : 0 ∉ table) :
    query profile (DBConnector.keys p.server (getKeyName p.separator table (ascii "*"))) =
      .ok (p.itemNames profile table) := by
  have pattern : 0 ∉ table ++ p.separator.byte :: ascii "*" := by
    have end' : 0 ∉ p.separator.byte :: ascii "*" := by
      cases p.separator <;> decide
    simp only [mem_append, nulFree, end', or_self, not_false_eq_true]
  have known : ∀ name ∈ p.itemNames profile table, name ∈ profile := fun name member =>
    p.server.mem_names.mp (mem_of_mem_filter member)
  rw [query_ok (keys_eq _ profile), getKeyName, upper, cStr_of_nulFree pattern, ← itemNames,
    hashes.names_eq known]

theorem map_rows (free : p.separator.byte ∉ table) {names}
    (items : ∀ name ∈ names, ∃ row, name = table ++ p.separator.byte :: row) :
    (p.rows names).map (fun row => table ++ p.separator.byte :: row) = names := by
  induction names with
  | nil => rfl
  | cons name names ih =>
    obtain ⟨row, rfl⟩ := items name mem_cons_self
    have others := ih fun other member => items other (mem_cons_of_mem _ member)
    have cut : p.rows ((table ++ p.separator.byte :: row) :: names) = row :: p.rows names := by
      simp [rows, splitKey_append free]
    rw [cut, map_cons, others]

theorem rows_itemNames (profile : Keyspace) (free : p.separator.byte ∉ table)
    (literal : Glob.Plain table) :
    (p.rows (p.itemNames profile table)).Nodup ∧
      ∀ row, row ∈ p.rows (p.itemNames profile table) ↔
        table ++ p.separator.byte :: row ∈ profile := by
  have whole : (p.rows (p.itemNames profile table)).map
      (fun row => table ++ p.separator.byte :: row) = p.itemNames profile table :=
    map_rows free fun name member => ((mem_itemNames literal).mp member).2
  constructor
  · apply List.Nodup.of_map fun row => table ++ p.separator.byte :: row
    rw [whole]
    exact (p.server.nodup_names profile).filter _
  · intro row
    constructor
    · intro member
      have named := mem_map_of_mem (f := fun row => table ++ p.separator.byte :: row) member
      rw [whole] at named
      exact ((mem_itemNames literal).mp named).1
    · intro stored
      have named : table ++ p.separator.byte :: row ∈ p.itemNames profile table :=
        (mem_itemNames literal).mpr ⟨stored, row, rfl⟩
      rw [← whole] at named
      obtain ⟨other, member, same⟩ := mem_map.mp named
      have equal : other = row := by simpa using same
      exact equal ▸ member

def Spaceless (p : ProfileProvider) (profile : Keyspace) : Prop :=
  ∀ name ∈ profile, p.separator.byte ∈ name → ¬ Blank name

theorem Spaceless.accepted (spaceless : p.Spaceless profile)
    (stored : table ++ p.separator.byte :: key ∈ profile) : ¬ p.Refused table key := by
  rw [refused_iff]
  intro blank
  apply spaceless _ stored (by simp)
  cases blank with
  | inl space => exact .inl (by grind)
  | inr tab => exact .inr (by grind)

theorem getKeys_eq (hashes : PlainHashes profile) (spaceless : p.Spaceless profile)
    (upper : toUpper table = table) (free : p.separator.byte ∉ table)
    (literal : Glob.Plain table) (nulFree : 0 ∉ table) (cfg : Keyspace) :
    query cfg (p.getKeys profile table) =
      .ok ((p.rows (p.itemNames profile table)).filter fun row => p.mark table row ∉ cfg) := by
  have accepted : ∀ row ∈ p.rows (p.itemNames profile table), ¬ p.Refused table row :=
    fun row member => spaceless.accepted (((rows_itemNames profile free literal).2 row).mp member)
  have ends := p.keptRows_ends table (p.itemNames profile table) cfg
  unfold getKeys
  rw [query_bind (onProfile_ok (query_keys hashes upper nulFree))]
  cases ran : p.keptRows table (p.itemNames profile table) cfg with
  | ok kept cfg' => rw [query_ok ran, (ends.of_returned ran).2.2]
  | error e cfg' => exact absurd accepted (ends.of_thrown ran).2

/-! ## All items -/

theorem getAllConfigs_of_dump {data}
    (dumped : query profile (ConfigDBConnector.getConfig p.server [p.separator.byte]) = .ok data)
    (cfg : Keyspace) :
    ((∀ item ∈ items data, ¬ p.Refused item.1 item.2) ∧
      query cfg (p.getAllConfigs profile) = .ok
        (((items data).filter fun item => p.mark item.1 item.2 ∈ cfg).foldl eraseItem data)) ∨
    ((¬ ∀ item ∈ items data, ¬ p.Refused item.1 item.2) ∧
      ∃ e, query cfg (p.getAllConfigs profile) = .error e) := by
  have ends := p.filtered_ends data cfg
  unfold getAllConfigs
  rw [query_bind (onProfile_ok dumped)]
  cases ran : (do
      let deleted ← p.deletedItems (items data)
      pure (deleted.foldl eraseItem data) : M ConfigData) cfg with
  | ok left cfg' =>
    obtain ⟨accepted, rfl⟩ := ends.of_returned ran
    exact .inl ⟨accepted, query_ok ran⟩
  | error e cfg' => exact .inr ⟨ends.of_thrown ran, e, query_error ran⟩

theorem getAllConfigs_eq (hashes : PlainHashes profile) (spaceless : p.Spaceless profile)
    (cfg : Keyspace) :
    ∃ configs, query cfg (p.getAllConfigs profile) = .ok configs ∧
      ∀ table key, configs.entry table key =
        if p.mark table key ∉ cfg ∧ p.separator.byte ∉ table ∧
          table ++ p.separator.byte :: key ∈ profile
        then profile.hashAt (table ++ p.separator.byte :: key) else none := by
  have read := ConfigDBConnector.getConfig_ends p.separator.byte p.server hashes
  obtain ⟨data, profile', ran⟩ := read.returns
  obtain ⟨rfl, reflects⟩ := read.of_returned ran
  have stored : ∀ table key, (data.entry table key).isSome →
      table ++ p.separator.byte :: key ∈ profile' := by
    intro table key there
    rw [reflects.entry] at there
    simp only [p.server.mem_names] at there
    grind
  have accepted : ∀ item ∈ items data, ¬ p.Refused item.1 item.2 :=
    fun item member => spaceless.accepted (stored item.1 item.2 (mem_items.mp member))
  rcases getAllConfigs_of_dump (query_ok ran) cfg with ⟨-, left⟩ | ⟨refused, -⟩
  · refine ⟨_, left, fun table key => ?_⟩
    have entry := reflects.entry table key
    simp only [p.server.mem_names] at entry
    rw [entry_foldl_eraseItem]
    simp only [mem_filter, mem_items]
    by_cases marked : p.mark table key ∈ cfg
    · cases data.entry table key <;> simp [marked]
    · simp [marked, entry]
  · exact absurd accepted refused

/-! ## One item -/

theorem getConfigs_eq (hashes : PlainHashes profile) (upper : toUpper table = table)
    (nulFree : 0 ∉ table ++ key) (spaceless : ¬ Blank (table ++ key)) {h}
    (found : profile.hashAt (table ++ p.separator.byte :: key) = some h) (cfg : Keyspace) :
    query cfg (p.getConfigs profile table key) =
      .ok (if p.mark table key ∈ cfg then ∅ else h) := by
  have accepted : ¬ p.Refused table key := fun refused => spaceless ((p.refused_iff).mp refused)
  have read := p.itemDeleted_eq table key cfg
  rw [if_neg accepted] at read
  have name : 0 ∉ table ++ p.separator.byte :: key := by
    have separator : (0 : UInt8) ≠ p.separator.byte := by cases p.separator <;> decide
    grind
  unfold getConfigs
  rw [query_bind read]
  by_cases marked : p.mark table key ∈ cfg
  · simp only [marked]
    rfl
  · rw [if_neg marked, if_neg (by simpa using marked), query_onProfile, getKeyName, upper]
    exact query_ok (hashes.hgetallMap_eq (by rw [cStr_of_nulFree name, found]))

/-- The three views have the same items of a table, with the same fields, after any calls. -/
theorem views_agree (p : ProfileProvider) {profile : Keyspace} {table key : Bytes}
    (hashes : PlainHashes profile) (spaceless : p.Spaceless profile)
    (upper : toUpper table = table) (free : p.separator.byte ∉ table)
    (literal : Glob.Plain table) (nulFree : (0 : UInt8) ∉ table ++ key)
    (noBlank : ¬ Blank (table ++ key)) (cfg : Keyspace) (calls : List MarkCall) :
    ∃ keys configs h, query (p.afterCalls cfg calls) (p.getKeys profile table) = .ok keys ∧
      query (p.afterCalls cfg calls) (p.getAllConfigs profile) = .ok configs ∧
      query (p.afterCalls cfg calls) (p.getConfigs profile table key) = .ok h ∧
      (key ∈ keys ↔ (configs.entry table key).isSome) ∧
      ((configs.entry table key).isSome ↔ h ≠ ∅) ∧
      (∀ fields, configs.entry table key = some fields → fields = h) ∧ keys.Nodup := by
  generalize p.afterCalls cfg calls = cfg'
  have tableNulFree : (0 : UInt8) ∉ table := fun inside => nulFree (mem_append_left key inside)
  obtain ⟨nodup, listed⟩ := rows_itemNames profile free literal
  obtain ⟨configs, dumped, entry⟩ := getAllConfigs_eq hashes spaceless cfg'
  obtain ⟨h, found⟩ := hashes.readable (table ++ p.separator.byte :: key)
  have stored := Keyspace.mem_iff_of_hashAt found
  rw [Hash.one_eq_empty] at stored
  refine ⟨_, configs, _, getKeys_eq hashes spaceless upper free literal tableNulFree cfg', dumped,
    getConfigs_eq hashes upper nulFree noBlank found cfg', ?_, ?_, ?_, nodup.filter _⟩
  · rw [entry, found, mem_filter, listed]
    grind
  · rw [entry, found]
    grind
  · intro fields there
    rw [entry, found] at there
    grind

private def twoItems (first second : Bytes) : Keyspace :=
  ((∅ : Keyspace).write first (Value.ofHash marked)).write second (Value.ofHash marked)

private theorem plainHashes_twoItems {first second} (nulFree : 0 ∉ first)
    (nulFree' : 0 ∉ second) : PlainHashes (twoItems first second) := by
  have fields : ∀ f v : Bytes, marked[f]? = some v → 0 ∉ f ∧ 0 ∉ v :=
    OrderedMap.forall_entries (by decide)
  exact (PlainHashes.empty.write nulFree fields).write nulFree' fields

/-- Two VLANs, one of which is deleted, reverted and deleted again. -/
theorem views_agree_two_vlans :
    let p : ProfileProvider := ⟨.sorted, .vbar, .vbar⟩
    let profile := twoItems (ascii "VLAN|Vlan1") (ascii "VLAN|Vlan2")
    let calls := [MarkCall.tryDeleteItem (ascii "VLAN") (ascii "Vlan1"),
      .tryRevertItem (ascii "VLAN") (ascii "Vlan1"), .tryDeleteItem (ascii "VLAN") (ascii "Vlan1")]
    ∃ keys configs h, query (p.afterCalls ∅ calls) (p.getKeys profile (ascii "VLAN")) = .ok keys ∧
      query (p.afterCalls ∅ calls) (p.getAllConfigs profile) = .ok configs ∧
      query (p.afterCalls ∅ calls) (p.getConfigs profile (ascii "VLAN") (ascii "Vlan1")) = .ok h ∧
      (ascii "Vlan1" ∈ keys ↔ (configs.entry (ascii "VLAN") (ascii "Vlan1")).isSome) ∧
      ((configs.entry (ascii "VLAN") (ascii "Vlan1")).isSome ↔ h ≠ ∅) ∧
      (∀ fields, configs.entry (ascii "VLAN") (ascii "Vlan1") = some fields → fields = h) ∧
      keys.Nodup := by
  intro p profile calls
  have spaceless : p.Spaceless profile := OrderedMap.forall_mem (by decide)
  exact views_agree p (plainHashes_twoItems (by decide) (by decide)) spaceless (by decide)
    (by decide) (by decide) (by decide) (by decide) ∅ calls

/-- With a space in one key there is no view of all items, not even of those of another table. -/
theorem views_spaced :
    let p : ProfileProvider := ⟨.sorted, .vbar, .vbar⟩
    let profile := twoItems (ascii "ACL|my acl") (ascii "VLAN|Vlan1")
    p.Visible profile ∅ (ascii "VLAN") (ascii "Vlan1") .keys ∧
      p.Visible profile ∅ (ascii "VLAN") (ascii "Vlan1") .item ∧
      ∃ e, query ∅ (p.getAllConfigs profile) = .error e :=
  ⟨⟨_, rfl, by decide⟩, ⟨_, rfl, by decide⟩, _, rfl⟩

end SwssCommon.ProfileProvider
