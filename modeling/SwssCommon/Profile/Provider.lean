import SwssCommon.ConfigDb.GetConfig
import SwssCommon.Table.Names

/-! # ProfileProvider

An item of a read-only profile database is deleted by a mark in the configuration database, whose
name joins the table and the key with an underscore. The views of one item, all items and the keys
of a table leave out marked items.
-/

namespace SwssCommon

open Bytes Redis Throwing List Std.ExtTreeMap

structure ProfileProvider where
  server : RedisServer
  cfgSeparator : Separator
  separator : Separator

namespace ProfileProvider

open DBConnector

def DELETED_KEY_SEPARATOR : Bytes := ascii "_"
def PROFILE_DELETE_TABLE : Bytes := ascii "PROFILE_DELETE"

def getKeyName (separator : Separator) (table key : Bytes) : Bytes :=
  toUpper table ++ separator.byte :: key

/-- A call on the profile database, from one on the configuration database. -/
def onProfile {α : Type} (profile : Keyspace) (call : M α) : M α := fun cfg =>
  match query profile call with
  | .ok a => .ok a cfg
  | .error e => .error e cfg

variable (p : ProfileProvider) (profile : Keyspace)

def getDeletedKeyName (table key : Bytes) : Bytes :=
  getKeyName p.cfgSeparator PROFILE_DELETE_TABLE (toUpper table ++ DELETED_KEY_SEPARATOR ++ key)

def itemDeleted (table key : Bytes) : M Bool :=
  existsKey (p.getDeletedKeyName table key)

def deleteItem (table key : Bytes) : M Unit :=
  hset p.server (p.getDeletedKeyName table key) [] []

def revertItem (table key : Bytes) : M Unit :=
  del p.server (p.getDeletedKeyName table key)

def tryDeleteItem (table key : Bytes) : M Bool := do
  if ← p.itemDeleted table key then pure false
  else
    p.deleteItem table key
    pure true

def tryRevertItem (table key : Bytes) : M Bool := do
  if ← p.itemDeleted table key then
    p.revertItem table key
    pure true
  else pure false

/-- `getConfigs(table, key)`. -/
def getConfigs (table key : Bytes) : M Hash := do
  if ← p.itemDeleted table key then pure ∅
  else onProfile profile (hgetallMap p.server (getKeyName p.separator table key))

def items (configs : ConfigData) : List (Bytes × Bytes) :=
  configs.toList.flatMap fun (table, rows) => rows.keys.map fun row => (table, row)

def deletedItems : List (Bytes × Bytes) → M (List (Bytes × Bytes))
  | [] => pure []
  | (table, key) :: rest => do
    let deleted ← p.itemDeleted table key
    let more ← deletedItems rest
    pure (if deleted then (table, key) :: more else more)

/-- `configs[table].erase(key)`. -/
def eraseItem (configs : ConfigData) (item : Bytes × Bytes) : ConfigData :=
  configs.insert item.1 ((configs[item.1]?.getD ∅).erase item.2)

/-- `getConfigs()`. -/
def getAllConfigs : M ConfigData := do
  let configs ← onProfile profile (ConfigDBConnector.getConfig p.server [p.separator.byte])
  let deleted ← p.deletedItems (items configs)
  pure (deleted.foldl eraseItem configs)

def keptRows (table : Bytes) : List Bytes → M (List Bytes)
  | [] => pure []
  | itemKey :: rest =>
    match splitKey [p.separator.byte] itemKey with
    | none => keptRows table rest
    | some (_, row) => do
      let deleted ← p.itemDeleted table row
      let more ← keptRows table rest
      pure (if deleted then more else row :: more)

def getKeys (table : Bytes) : M (List Bytes) := do
  let keys ← onProfile profile (keys p.server (getKeyName p.separator table (ascii "*")))
  p.keptRows table keys

/-! ## Marks -/

def mark (table key : Bytes) : Bytes :=
  cStr (p.getDeletedKeyName table key)

def Refused (table key : Bytes) : Prop :=
  Blank (p.getDeletedKeyName table key)

instance (table key : Bytes) : Decidable (p.Refused table key) :=
  inferInstanceAs (Decidable (Blank _))

theorem itemDeleted_eq (table key : Bytes) (cfg : Keyspace) :
    p.itemDeleted table key cfg = if p.Refused table key then .error invalidKey cfg
      else .ok (decide (p.mark table key ∈ cfg)) cfg := by
  unfold itemDeleted existsKey
  by_cases refused : p.Refused table key
  · have blank : Blank (p.getDeletedKeyName table key) := refused
    rw [if_pos blank, if_pos refused]
    rfl
  · have fine : ¬ Blank (p.getDeletedKeyName table key) := refused
    rw [if_neg fine, if_neg refused]
    rfl

theorem itemDeleted_ends (table key : Bytes) (cfg : Keyspace) :
    Ends (p.itemDeleted table key) cfg
      (fun deleted cfg' => cfg' = cfg ∧ ¬ p.Refused table key ∧
        deleted = decide (p.mark table key ∈ cfg))
      (fun e cfg' => cfg' = cfg ∧ e = invalidKey ∧ p.Refused table key) := by
  unfold Ends
  rw [itemDeleted_eq]
  by_cases refused : p.Refused table key
  · rw [if_pos refused]
    exact ⟨rfl, rfl, refused⟩
  · rw [if_neg refused]
    exact ⟨rfl, refused, rfl⟩

theorem deletedItems_ends (l : List (Bytes × Bytes)) (cfg : Keyspace) :
    Ends (p.deletedItems l) cfg
      (fun deleted cfg' => cfg' = cfg ∧ (∀ item ∈ l, ¬ p.Refused item.1 item.2) ∧
        deleted = l.filter fun item => p.mark item.1 item.2 ∈ cfg)
      (fun _ cfg' => cfg' = cfg ∧ ¬ ∀ item ∈ l, ¬ p.Refused item.1 item.2) := by
  induction l with
  | nil => exact Ends.pure ⟨rfl, by simp, rfl⟩
  | cons item rest ih =>
    apply Ends.bind
    refine (p.itemDeleted_ends item.1 item.2 cfg).mono ?_ ?_
    · rintro deleted _ ⟨rfl, accepted, rfl⟩
      apply Ends.bind
      refine ih.mono ?_ ?_
      · rintro more _ ⟨rfl, others, rfl⟩
        refine Ends.pure ⟨rfl, forall_mem_cons.mpr ⟨accepted, others⟩, ?_⟩
        rw [filter_cons]
      · rintro e _ ⟨rfl, refused⟩
        exact ⟨rfl, fun none => refused (forall_mem_cons.mp none).2⟩
    · rintro e _ ⟨rfl, -, refused⟩
      exact ⟨rfl, fun none => (forall_mem_cons.mp none).1 refused⟩

theorem filtered_ends (configs : ConfigData) (cfg : Keyspace) :
    Ends (do
        let deleted ← p.deletedItems (items configs)
        pure (deleted.foldl eraseItem configs)) cfg
      (fun left _ => (∀ item ∈ items configs, ¬ p.Refused item.1 item.2) ∧
        left = ((items configs).filter fun item => p.mark item.1 item.2 ∈ cfg).foldl
          eraseItem configs)
      (fun _ _ => ¬ ∀ item ∈ items configs, ¬ p.Refused item.1 item.2) := by
  apply Ends.bind
  refine (p.deletedItems_ends (items configs) cfg).mono ?_ fun _ _ thrown => thrown.2
  rintro deleted _ ⟨-, accepted, rfl⟩
  exact Ends.pure ⟨accepted, rfl⟩

def rows (names : List Bytes) : List Bytes :=
  names.filterMap fun name => (splitKey [p.separator.byte] name).map Prod.snd

theorem keptRows_ends (table : Bytes) (names : List Bytes) (cfg : Keyspace) :
    Ends (p.keptRows table names) cfg
      (fun kept cfg' => cfg' = cfg ∧ (∀ row ∈ p.rows names, ¬ p.Refused table row) ∧
        kept = (p.rows names).filter fun row => p.mark table row ∉ cfg)
      (fun _ cfg' => cfg' = cfg ∧ ¬ ∀ row ∈ p.rows names, ¬ p.Refused table row) := by
  induction names with
  | nil => exact Ends.pure ⟨rfl, by simp [rows], rfl⟩
  | cons name names ih =>
    unfold keptRows
    cases split : splitKey [p.separator.byte] name with
    | none =>
      have same : p.rows (name :: names) = p.rows names := by simp [rows, split]
      rw [same]
      exact ih
    | some parts =>
      obtain ⟨front, row⟩ := parts
      have more : p.rows (name :: names) = row :: p.rows names := by simp [rows, split]
      rw [more]
      apply Ends.bind
      refine (p.itemDeleted_ends table row cfg).mono ?_ ?_
      · rintro deleted _ ⟨rfl, accepted, rfl⟩
        apply Ends.bind
        refine ih.mono ?_ ?_
        · rintro kept cfg' ⟨rfl, others, rfl⟩
          refine Ends.pure ⟨rfl, forall_mem_cons.mpr ⟨accepted, others⟩, ?_⟩
          by_cases marked : p.mark table row ∈ cfg' <;> simp [marked]
        · rintro e _ ⟨rfl, refused⟩
          exact ⟨rfl, fun none => refused (forall_mem_cons.mp none).2⟩
      · rintro e _ ⟨rfl, -, refused⟩
        exact ⟨rfl, fun none => (forall_mem_cons.mp none).1 refused⟩

/-! ## Views -/

inductive View where
  | item
  | all
  | keys

def Visible (cfg : Keyspace) (table key : Bytes) : View → Prop
  | .item => ∃ h, query cfg (p.getConfigs profile table key) = .ok h ∧ h ≠ ∅
  | .all => ∃ configs, query cfg (p.getAllConfigs profile) = .ok configs ∧
      (configs.entry table key).isSome
  | .keys => ∃ keys, query cfg (p.getKeys profile table) = .ok keys ∧ key ∈ keys

def InProfile (table key : Bytes) : View → Prop
  | .item => ¬ p.Refused table key ∧
      ∃ h, query profile (hgetallMap p.server (getKeyName p.separator table key)) = .ok h ∧ h ≠ ∅
  | .all => ∃ configs,
      query profile (ConfigDBConnector.getConfig p.server [p.separator.byte]) = .ok configs ∧
      (∀ item ∈ items configs, ¬ p.Refused item.1 item.2) ∧ (configs.entry table key).isSome
  | .keys => ∃ names,
      query profile (keys p.server (getKeyName p.separator table (ascii "*"))) = .ok names ∧
      (∀ row ∈ p.rows names, ¬ p.Refused table row) ∧ key ∈ p.rows names

theorem entry_eraseItem (configs : ConfigData) (item : Bytes × Bytes) (table key : Bytes) :
    (eraseItem configs item).entry table key =
      if item = (table, key) then none else configs.entry table key := by
  obtain ⟨t, k⟩ := item
  unfold eraseItem ConfigData.entry
  by_cases sameTable : t = table
  · subst sameTable
    by_cases sameKey : k = key
    · subst sameKey
      simp
    · cases configs[t]? <;> simp [Std.ExtTreeMap.getElem?_erase]
  · simp [Std.ExtTreeMap.getElem?_insert, sameTable]

theorem entry_foldl_eraseItem (deleted : List (Bytes × Bytes)) (configs : ConfigData)
    (table key : Bytes) :
    (deleted.foldl eraseItem configs).entry table key =
      if (table, key) ∈ deleted then none else configs.entry table key := by
  induction deleted generalizing configs with
  | nil => simp
  | cons item deleted ih =>
    rw [foldl_cons, ih, entry_eraseItem]
    by_cases later : (table, key) ∈ deleted
    · simp [later]
    · by_cases here : item = (table, key)
      · simp [here]
      · simp [here, Ne.symm here]

theorem mem_items {configs table key} :
    (table, key) ∈ items configs ↔ (configs.entry table key).isSome := by
  unfold items ConfigData.entry
  rw [mem_flatMap]
  constructor
  · rintro ⟨⟨t, rows⟩, stored, member⟩
    obtain ⟨row, there, same⟩ := mem_map.mp member
    cases same
    rw [mem_toList_iff_getElem?_eq_some.mp stored, Option.bind_some, ← mem_iff_isSome_getElem?]
    exact Std.ExtTreeMap.mem_keys.mp there
  · intro stored
    cases found : configs[table]? with
    | none => simp [found] at stored
    | some rows =>
      rw [found, Option.bind_some, ← mem_iff_isSome_getElem?] at stored
      refine ⟨(table, rows), mem_toList_iff_getElem?_eq_some.mpr found, ?_⟩
      exact mem_map.mpr ⟨key, Std.ExtTreeMap.mem_keys.mpr stored, rfl⟩

section Reading

variable {α β : Type} {call x : M α} {f : α → M β} {profile cfg : Keyspace} {a : α} {e : Failure}

theorem onProfile_ok (found : query profile call = .ok a) :
    onProfile profile call cfg = .ok a cfg := by
  unfold onProfile
  rw [found]

theorem onProfile_error (found : query profile call = .error e) :
    onProfile profile call cfg = .error e cfg := by
  unfold onProfile
  rw [found]

theorem query_ok {cfg'} (ran : x cfg = .ok a cfg') : query cfg x = .ok a := by
  unfold query
  rw [ran]

theorem query_error {cfg'} (ran : x cfg = .error e cfg') : query cfg x = .error e := by
  unfold query
  rw [ran]

theorem query_onProfile : query cfg (onProfile profile call) = query profile call := by
  cases found : query profile call with
  | ok a => exact query_ok (onProfile_ok found)
  | error e => exact query_error (onProfile_error found)

theorem query_bind (ran : x cfg = .ok a cfg) : query cfg (x >>= f) = query cfg (f a) := by
  unfold query
  rw [bind_ok ran]

theorem query_bind_error (ran : x cfg = .error e cfg) : query cfg (x >>= f) = .error e :=
  query_error (bind_error ran)

theorem query_read {P : β → Prop} :
    (∃ b, query cfg (onProfile profile call >>= f) = .ok b ∧ P b) ↔
      ∃ a, query profile call = .ok a ∧ ∃ b, query cfg (f a) = .ok b ∧ P b := by
  cases found : query profile call with
  | error e => simp [query_bind_error (onProfile_error found)]
  | ok a => simp [query_bind (onProfile_ok found)]

theorem query_returns {accepted} {P : α → Prop}
    (ends : Ends x cfg (fun b _ => accepted ∧ b = a) (fun _ _ => ¬ accepted)) :
    (∃ b, query cfg x = .ok b ∧ P b) ↔ accepted ∧ P a := by
  cases ran : x cfg with
  | ok b cfg' =>
    obtain ⟨held, rfl⟩ := ends.of_returned ran
    simp [query_ok ran, held]
  | error e cfg' =>
    have failed := ends.of_thrown ran
    simp [query_error ran, failed]

end Reading

variable {p profile} {cfg : Keyspace} {table key : Bytes}

theorem visible_item_iff :
    p.Visible profile cfg table key .item ↔
      p.InProfile profile table key .item ∧ p.mark table key ∉ cfg := by
  have read := p.itemDeleted_eq table key cfg
  unfold Visible InProfile getConfigs
  by_cases refused : p.Refused table key
  · rw [if_pos refused] at read
    simp [query_bind_error read, refused]
  · rw [if_neg refused] at read
    rw [query_bind read]
    by_cases marked : p.mark table key ∈ cfg
    · have empty : query cfg (pure ∅ : M Hash) = .ok ∅ := rfl
      simp [marked, empty]
    · simp [marked, refused, query_onProfile]

theorem visible_all_iff :
    p.Visible profile cfg table key .all ↔
      p.InProfile profile table key .all ∧ p.mark table key ∉ cfg := by
  unfold Visible InProfile getAllConfigs
  rw [query_read]
  simp only [query_returns (p.filtered_ends _ cfg), entry_foldl_eraseItem, mem_filter, mem_items]
  grind

theorem visible_keys_iff :
    p.Visible profile cfg table key .keys ↔
      p.InProfile profile table key .keys ∧ p.mark table key ∉ cfg := by
  unfold Visible InProfile getKeys
  rw [query_read]
  simp only [query_returns ((p.keptRows_ends table _ cfg).mono (fun _ _ post => post.2)
    fun _ _ post => post.2)]
  grind

theorem not_refused_of_inProfile {view} (there : p.InProfile profile table key view) :
    ¬ p.Refused table key := by
  cases view with
  | item => exact there.1
  | all =>
    obtain ⟨configs, -, accepted, stored⟩ := there
    exact accepted (table, key) (mem_items.mpr stored)
  | keys =>
    obtain ⟨names, -, accepted, listed⟩ := there
    exact accepted key listed

theorem visible_iff (view : View) :
    p.Visible profile cfg table key view ↔
      p.InProfile profile table key view ∧ p.mark table key ∉ cfg := by
  cases view with
  | item => exact visible_item_iff
  | all => exact visible_all_iff
  | keys => exact visible_keys_iff

end ProfileProvider

end SwssCommon
