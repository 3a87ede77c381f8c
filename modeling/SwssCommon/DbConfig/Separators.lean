import SwssCommon.DbConfig.Invariant

/-! # The separator of a database, by its name and by its id

The configuration keeps the separator with the database and in an index by id, where the first
database of an id stays. Databases of different instances may share an id.
-/

namespace SwssCommon.SonicDBConfig

open Bytes Throwing List Std.ExtTreeMap Option Except

def getDbId (files : Files) (dbName : Bytes) (key : SonicDBKey) : M Int := do
  pure (← getDbInfo files dbName key).dbId

def getSeparator (files : Files) (dbName : Bytes) (key : SonicDBKey) : M Bytes := do
  pure (← getDbInfo files dbName key).separator

/-- `getSeparator` of a connector, which has no name if it was opened by id. -/
def getSeparatorFor (files : Files) (dbName : Bytes) (dbId : Int) (key : SonicDBKey) : M Bytes :=
  if dbName.isEmpty then getSeparatorOf files dbId key else getSeparator files dbName key

/-! ## The index of a file -/

/-- The separators by id are those of databases, and there is one for each. -/
structure Indexes (separator : Std.ExtTreeMap Int Bytes compare)
    (db : Std.ExtTreeMap Bytes SonicDBInfo compare) : Prop where
  covers : ∀ (dbName : Bytes) info, db[dbName]? = some info → info.dbId ∈ separator
  taken : ∀ dbId sep, separator[dbId]? = some sep →
    ∃ (dbName : Bytes) (info : SonicDBInfo), db[dbName]? = some info ∧ info.dbId = dbId ∧
      info.separator = sep

theorem indexes_empty : Indexes ∅ ∅ := by
  constructor
  · intro dbName info found
    simp at found
  · intro dbId sep found
    simp at found

section Files

variable {db db' : Std.ExtTreeMap Bytes SonicDBInfo compare}
  {separator separator' : Std.ExtTreeMap Int Bytes compare}

theorem Indexes.add (h : Indexes separator db) {dbName} (new : dbName ∉ db)
    (info : SonicDBInfo) :
    Indexes (separator.insertIfNew info.dbId info.separator) (db.insert dbName info) := by
  constructor
  · intro other info' found
    rw [Std.ExtTreeMap.getElem?_insert] at found
    rw [Std.ExtTreeMap.mem_insertIfNew]
    split at found
    · obtain rfl := some.inj found
      exact .inl Std.ReflCmp.compare_self
    · exact .inr (h.covers other info' found)
  · intro dbId sep found
    rw [getElem?_insertIfNew] at found
    split at found
    · next first =>
        obtain rfl := some.inj found
        refine ⟨dbName, info, ?_, ?_, rfl⟩
        · rw [getElem?_insert_self]
        · exact Std.LawfulEqCmp.eq_of_compare first.1
    · obtain ⟨other, info', found', sameId, sameSep⟩ := h.taken dbId sep found
      refine ⟨other, info', ?_, sameId, sameSep⟩
      rw [Std.ExtTreeMap.getElem?_insert, if_neg, found']
      intro same
      have present : other ∈ db := by
        rw [mem_iff_isSome_getElem?, found']
        rfl
      exact new (Std.LawfulEqCmp.eq_of_compare same ▸ present)

theorem readDatabase_ok {item}
    {maps}
    (read : readDatabase (db, separator) item = .ok maps) :
    ∃ dbName info, item.1 = .ok dbName ∧ maps = (db.insert dbName info,
      separator.insertIfNew info.dbId info.separator) := by
  obtain ⟨dbName, name, read⟩ := except_bind_ok.mp read
  obtain ⟨_, -, read⟩ := except_bind_ok.mp read
  obtain ⟨instName, -, read⟩ := except_bind_ok.mp read
  obtain ⟨_, -, read⟩ := except_bind_ok.mp read
  obtain ⟨dbId, -, read⟩ := except_bind_ok.mp read
  obtain ⟨_, -, read⟩ := except_bind_ok.mp read
  obtain ⟨sep, -, read⟩ := except_bind_ok.mp read
  exact ⟨dbName, ⟨instName, dbId, sep⟩, name, (ok.inj read).symm⟩

theorem indexes_of_databases {members : List (Bytes × JsonValue)}
    (distinct : (members.map Prod.fst).Nodup) (new : ∀ m ∈ members, m.1 ∉ db)
    {maps}
    (h : Indexes separator db)
    (read : (members.map fun m => (ok m.1, m.2)).foldlM readDatabase (db, separator) =
      .ok maps) : Indexes maps.2 maps.1 := by
  induction members generalizing db separator with
  | nil =>
    obtain rfl := ok.inj read
    exact h
  | cons m members ih =>
    obtain ⟨maps', first, rest⟩ := except_bind_ok.mp read
    obtain ⟨dbName, info, name, rfl⟩ := readDatabase_ok first
    obtain rfl : m.1 = dbName := ok.inj name
    rw [map_cons, nodup_cons] at distinct
    apply ih distinct.2 _ (h.add (new m mem_cons_self) info) rest
    intro m' member present
    cases mem_insert.mp present with
    | inl same =>
      apply distinct.1
      rw [Std.LawfulEqCmp.eq_of_compare same]
      exact mem_map_of_mem member
    | inr before => exact new m' (mem_cons_of_mem _ member) before

end Files

/-- The names of an object are all different, as they are in every object the library reads. -/
def DistinctNames : JsonValue → Prop
  | .object members => (members.map Prod.fst).Nodup
  | _ => True

def Sound (files : Files) : Prop :=
  ∀ file j databases, files file = .readable (.ok j) →
    j.subscript (ascii "DATABASES") = .ok databases → DistinctNames databases

theorem indexes_of_items {databases} (distinct : DistinctNames databases)
    {maps}
    (read : databases.items.foldlM readDatabase (∅, ∅) = .ok maps) : Indexes maps.2 maps.1 := by
  have refused : ∀ {e : JsonValue.Exception} {elements : List JsonValue},
      (elements.map fun j => (error e, j)).foldlM readDatabase (∅, ∅) = .ok maps →
      Indexes maps.2 maps.1 := by
    intro e elements read
    cases elements with
    | nil =>
      obtain rfl := ok.inj read
      exact indexes_empty
    | cons j elements =>
      obtain ⟨maps', first, -⟩ := except_bind_ok.mp read
      obtain ⟨_, _, name, -⟩ := readDatabase_ok first
      cases name
  cases databases with
  | object members => exact indexes_of_databases distinct (by simp) indexes_empty read
  | null | boolean _ | integer _ | float _ | string _ | array _ => exact refused read

theorem tell_indexes {files} (sound : Sound files) :
    Tell files fun entries => Indexes entries.separator entries.db := by
  intro file ignoreNonexistent entries parsed
  unfold parseDatabaseConfig at parsed
  split at parsed
  · split at parsed
    · obtain rfl := ok.inj parsed
      exact indexes_empty
    · cases parsed
  · cases parsed
  · next content found =>
      split at parsed
      · next entries' told =>
          obtain rfl := ok.inj parsed
          obtain ⟨j, rfl, read⟩ := except_bind_ok.mp told
          obtain ⟨_, -, read⟩ := except_bind_ok.mp read
          obtain ⟨inst, -, read⟩ := except_bind_ok.mp read
          obtain ⟨databases, listed, read⟩ := except_bind_ok.mp read
          obtain ⟨⟨db, separator⟩, folded, read⟩ := except_bind_ok.mp read
          obtain rfl := ok.inj read
          exact indexes_of_items (sound _ j databases found listed) folded
      · cases parsed

/-! ## The index of the configuration -/

structure Indexed (s : SonicDBConfig) : Prop where
  aligned : Aligned s
  indexes : ∀ (key : SonicDBKey) db separator, s.dbInfo[key]? = some db →
    s.dbSeparator[key]? = some separator → Indexes separator db

variable {s : SonicDBConfig}

theorem indexed_start : Indexed start := by
  constructor
  · simp [Aligned, start]
  · intro key db separator found
    simp [start] at found

theorem indexed_publish (h : Indexed s) (key : SonicDBKey) {entries}
    (told : Indexes entries.separator entries.db) : Indexed (publish key entries s) := by
  refine ⟨aligned_publish h.aligned key entries, ?_⟩
  intro other db separator found found'
  rw [dbInfo_publish] at found
  rw [dbSeparator_publish] at found'
  split at found
  · next something =>
      rw [if_pos something] at found'
      rw [Std.ExtTreeMap.getElem?_insert] at found found'
      split at found
      · next same =>
          rw [if_pos same] at found'
          obtain rfl := some.inj found
          obtain rfl := some.inj found'
          exact told
      · next different =>
          rw [if_neg different] at found'
          exact h.indexes other db separator found found'
  · next nothing =>
      rw [if_neg nothing] at found'
      exact h.indexes other db separator found found'

theorem indexed_adopt (h : Indexed s) {entries}
    (told : Indexes entries.separator entries.db) : Indexed (adopt entries s) := by
  refine ⟨aligned_adopt h.aligned entries, ?_⟩
  intro key db separator found found'
  unfold adopt at found found'
  rw [getElem?_insertIfNew] at found found'
  have together := (h.aligned .default).2
  split at found
  · next new =>
      rw [if_pos ⟨new.1, fun present => new.2 (together.mpr present)⟩] at found'
      obtain rfl := some.inj found
      obtain rfl := some.inj found'
      exact told
  · next old =>
      rw [if_neg fun new => old ⟨new.1, fun present => new.2 (together.mp present)⟩] at found'
      exact h.indexes key db separator found found'

def SoundStep (s : SonicDBConfig) (call : Files × Call) (s' : SonicDBConfig) : Prop :=
  Step s call s' ∧ Sound call.1

theorem indexed_kept {ls} (run : Run SoundStep start ls s) : Indexed s := by
  induction run with
  | refl => exact indexed_start
  | @snoc t u ls call _ step ih =>
    obtain ⟨rfl, sound⟩ := step
    have tell := tell_indexes sound
    apply Keeps.endState _ ih
    apply keeps_call (I := Indexed) tell
      (fun s entries told h => indexed_adopt h told) indexed_start
    intro file ignoreNonexistent _
    exact keeps_initializeGlobalConfig (I := Indexed) tell
      (fun s key entries told h => indexed_publish h key told)
      (fun _ h => ⟨h.aligned, h.indexes⟩) _ _

/-! ## Both lookups -/

variable {files : Files} {key : SonicDBKey}

structure Ready (files : Files) (key : SonicDBKey) (s t : SonicDBConfig) : Prop where
  loaded : ensureInit files s = .ok () t
  allowed : (!key.isEmpty && !t.globalInit) = false

variable {t : SonicDBConfig}

theorem init_of_ensureInit (loaded : ensureInit files s = .ok () t) : t.init := by
  obtain ⟨s', _, here, loaded⟩ := bind_ok_iff.mp loaded
  cases here
  split at loaded
  · next done =>
      cases loaded
      exact done
  · obtain ⟨s', _, here, loaded⟩ := bind_ok_iff.mp loaded
    split at loaded
    · cases loaded
    · obtain ⟨entries, s', -, loaded⟩ := bind_ok_iff.mp loaded
      cases loaded
      rfl

theorem ensureInit_of_init (done : s.init) : ensureInit files s = .ok () s :=
  bind_ok_iff.mpr ⟨s, s, rfl, by rw [if_pos done]; rfl⟩

theorem Ready.again (ready : Ready files key s t) : Ready files key t t :=
  ⟨ensureInit_of_init (init_of_ensureInit ready.loaded), ready.allowed⟩

theorem atKey_ok {V α function invalid found} {a : α}
    {map : SonicDBConfig → Std.ExtTreeMap SonicDBKey V SonicDBKey.cmp} :
    atKey files function key map invalid found s = .ok a t ↔
      ∃ t' v, Ready files key s t' ∧ (map t')[key]? = some v ∧ found v t' = .ok a t := by
  constructor
  · intro ran
    obtain ⟨_, t', loaded, ran⟩ := bind_ok_iff.mp ran
    obtain ⟨_, t'', required, ran⟩ := bind_ok_iff.mp ran
    obtain ⟨_, _, here, required⟩ := bind_ok_iff.mp required
    cases here
    split at required
    · cases required
    · next allowed =>
        cases required
        obtain ⟨_, _, here, ran⟩ := bind_ok_iff.mp ran
        cases here
        cases stored : (map t')[key]? with
        | none =>
          rw [stored] at ran
          cases ran
        | some v =>
          rw [stored] at ran
          exact ⟨t', v, ⟨loaded, by simpa using allowed⟩, stored, ran⟩
  · rintro ⟨t', v, ready, stored, ran⟩
    refine bind_ok_iff.mpr ⟨(), t', ready.loaded, bind_ok_iff.mpr ⟨(), t', ?_, ?_⟩⟩
    · refine bind_ok_iff.mpr ⟨t', t', rfl, ?_⟩
      rw [if_neg (by rw [ready.allowed]; exact Bool.false_ne_true)]
      rfl
    · refine bind_ok_iff.mpr ⟨t', t', rfl, ?_⟩
      rw [stored]
      exact ran

theorem orThrow_ok {α found e} {a : α} :
    orThrow found e s = .ok a t ↔ found = some a ∧ t = s := by
  cases found with
  | none =>
    constructor
    · intro thrown
      cases thrown
    · rintro ⟨found, -⟩
      cases found
  | some b =>
    constructor
    · intro returned
      cases returned
      exact ⟨rfl, rfl⟩
    · rintro ⟨found, rfl⟩
      cases found
      rfl

variable {dbName : Bytes} {info : SonicDBInfo}

theorem getDbInfo_ok :
    getDbInfo files dbName key s = .ok info t ↔
      ∃ db, Ready files key s t ∧ t.dbInfo[key]? = some db ∧ db[dbName]? = some info := by
  unfold getDbInfo
  rw [atKey_ok]
  constructor
  · rintro ⟨t', db, ready, stored, looked⟩
    obtain ⟨found, rfl⟩ := orThrow_ok.mp looked
    exact ⟨db, ready, stored, found⟩
  · rintro ⟨db, ready, stored, found⟩
    exact ⟨t, db, ready, stored, orThrow_ok.mpr ⟨found, rfl⟩⟩

theorem getSeparatorOf_ok {dbId sep} :
    getSeparatorOf files dbId key s = .ok sep t ↔
      ∃ separator, Ready files key s t ∧ t.dbSeparator[key]? = some separator ∧
        separator[dbId]? = some sep := by
  unfold getSeparatorOf
  rw [atKey_ok]
  constructor
  · rintro ⟨t', separator, ready, stored, looked⟩
    obtain ⟨found, rfl⟩ := orThrow_ok.mp looked
    exact ⟨separator, ready, stored, found⟩
  · rintro ⟨separator, ready, stored, found⟩
    exact ⟨t, separator, ready, stored, orThrow_ok.mpr ⟨found, rfl⟩⟩

theorem getSeparatorOf_of_getDbInfo (indexed : Indexed s) (sound : Sound files)
    (defined : getDbInfo files dbName key s = .ok info t) :
    ∃ other info', getDbInfo files other key s = .ok info' t ∧ info'.dbId = info.dbId ∧
      getSeparatorOf files info.dbId key t = .ok info'.separator t := by
  have after : Indexed t := by
    have kept := (keeps_getDbInfo (I := Indexed) (tell_indexes sound)
      (fun s entries told h => indexed_adopt h told) dbName key).endState indexed
    rwa [defined] at kept
  obtain ⟨db, ready, stored, found⟩ := getDbInfo_ok.mp defined
  have present : key ∈ t.dbSeparator := by
    rw [← (after.aligned key).2, mem_iff_isSome_getElem?, stored]
    rfl
  obtain ⟨separator, stored'⟩ := isSome_iff_exists.mp (mem_iff_isSome_getElem?.mp present)
  have indexes := after.indexes key db separator stored stored'
  obtain ⟨sep, found'⟩ := isSome_iff_exists.mp
    (mem_iff_isSome_getElem?.mp (indexes.covers dbName info found))
  obtain ⟨other, info', foundOther, sameId, rfl⟩ := indexes.taken info.dbId sep found'
  refine ⟨other, info', ?_, sameId, ?_⟩
  · exact getDbInfo_ok.mpr ⟨db, ready, stored, foundOther⟩
  · exact getSeparatorOf_ok.mpr ⟨separator, ready.again, stored', found'⟩

def Unambiguous (files : Files) (key : SonicDBKey) (s : SonicDBConfig) : Prop :=
  ∀ dbName dbName' info info' t t', getDbInfo files dbName key s = .ok info t →
    getDbInfo files dbName' key s = .ok info' t' → info.dbId = info'.dbId →
    info.separator = info'.separator

theorem getSeparatorFor_agree (indexed : Indexed s) (sound : Sound files)
    (unambiguous : Unambiguous files key s) (defined : getDbInfo files dbName key s = .ok info t) :
    getSeparatorFor files dbName info.dbId key t = getSeparatorFor files [] info.dbId key t := by
  obtain ⟨other, info', definedOther, sameId, found⟩ :=
    getSeparatorOf_of_getDbInfo indexed sound defined
  obtain ⟨db, ready, stored, looked⟩ := getDbInfo_ok.mp defined
  have again : getDbInfo files dbName key t = .ok info t :=
    getDbInfo_ok.mpr ⟨db, ready.again, stored, looked⟩
  have byName : getSeparator files dbName key t = .ok info.separator t := bind_ok again
  unfold getSeparatorFor
  cases dbName with
  | nil => rfl
  | cons c dbName =>
    rw [if_neg (by simp), if_pos (by rfl), byName, found,
      unambiguous other _ info' info t t definedOther defined sameId]

/-- In every configuration that calls lead to, the separators by name and by id agree under a key
    exactly if databases of the same id have the same separator. Then connectors opened by name and
    by id use the same one. -/
theorem separators_agree_iff {ls : List (Files × Call)} {s : SonicDBConfig}
    (run : Run SoundStep start ls s) {files : Files} (sound : Sound files) (key : SonicDBKey) :
    ((∀ dbName, getSeparator files dbName key s =
      (do getSeparatorOf files (← getDbId files dbName key) key : M Bytes) s) ↔
      Unambiguous files key s) ∧
    (Unambiguous files key s → ∀ dbName info t, getDbInfo files dbName key s = .ok info t →
      getSeparatorFor files dbName info.dbId key t =
        getSeparatorFor files [] info.dbId key t) := by
  have indexed := indexed_kept run
  refine ⟨?_, fun unambiguous _ _ _ defined =>
    getSeparatorFor_agree indexed sound unambiguous defined⟩
  -- what the two sides are for a database that is defined
  have byName : ∀ {dbName info t}, getDbInfo files dbName key s = .ok info t →
      getSeparator files dbName key s = .ok info.separator t :=
    fun defined => bind_ok defined
  have byId : ∀ {dbName info t}, getDbInfo files dbName key s = .ok info t →
      (do getSeparatorOf files (← getDbId files dbName key) key : M Bytes) s =
        getSeparatorOf files info.dbId key t :=
    fun defined => bind_ok (bind_ok defined)
  constructor
  · intro agree dbName dbName' info info' t t' defined defined' sameId
    have first := agree dbName
    have second := agree dbName'
    rw [byName defined, byId defined] at first
    rw [byName defined', byId defined'] at second
    obtain ⟨_, ready, _, _⟩ := getDbInfo_ok.mp defined
    obtain ⟨_, ready', _, _⟩ := getDbInfo_ok.mp defined'
    obtain rfl : t = t' := by
      have same := ready.loaded.symm.trans ready'.loaded
      cases same
      rfl
    rw [sameId, ← second] at first
    exact (EStateM.Result.ok.inj first).1
  · intro unambiguous dbName
    cases defined : getDbInfo files dbName key s with
    | error e t =>
      have failed : getSeparator files dbName key s = .error e t := bind_error defined
      rw [failed]
      exact (bind_error (bind_error defined)).symm
    | ok info t =>
      obtain ⟨other, info', definedOther, sameId, found⟩ :=
        getSeparatorOf_of_getDbInfo indexed sound defined
      rw [byName defined, byId defined, found]
      rw [unambiguous other dbName info' info t t definedOther defined sameId]

private def databaseOf (instance' separator : String) : JsonValue :=
  .object [(ascii "id", .integer 0), (ascii "instance", .string (ascii instance')),
    (ascii "separator", .string (ascii separator))]

private def sharing (separator : String) : Files := fun name =>
  if name = ascii "/d/db.json" then
    .readable (.ok (.object [(ascii "DATABASES", .object [
      (ascii "APPL_DB", databaseOf "redis" ":"),
      (ascii "CHASSIS_APP_DB", databaseOf "redis_chassis" separator)])]))
  else .missing

private theorem sharing_sound (separator : String) : Sound (sharing separator) := by
  intro file j databases found listed
  unfold sharing at found
  split at found
  · obtain rfl := ok.inj (File.readable.inj found)
    obtain rfl : _ = databases := ok.inj listed
    exact (by decide +kernel :
      [ascii "APPL_DB", ascii "CHASSIS_APP_DB"].Nodup)
  · cases found

private def loadedFrom (files : Files) : SonicDBConfig :=
  endState ((Call.init (ascii "/d/db.json")).run files start)

private theorem loadedFrom_run (separator : String) :
    Run SoundStep start [(sharing separator, .init (ascii "/d/db.json"))]
      (loadedFrom (sharing separator)) :=
  .single ⟨rfl, sharing_sound separator⟩

private theorem sharing_unambiguous :
    Unambiguous (sharing ":") .default (loadedFrom (sharing ":")) := by
  have colon : ∀ dbName info t, getDbInfo (sharing ":") dbName .default
      (loadedFrom (sharing ":")) = .ok info t → info.separator = ascii ":" := by
    intro dbName info t defined
    obtain ⟨db, ready, stored, found⟩ := getDbInfo_ok.mp defined
    have loaded : ensureInit (sharing ":") (loadedFrom (sharing ":")) =
      .ok () (loadedFrom (sharing ":")) := rfl
    obtain rfl : loadedFrom (sharing ":") = t := by
      have same := loaded.symm.trans ready.loaded
      cases same
      rfl
    have every : ∀ db ∈ (loadedFrom (sharing ":")).dbInfo[SonicDBKey.default]?,
        ∀ entry ∈ db.toList, entry.2.separator = ascii ":" := by decide
    exact every db stored (dbName, info) (mem_toList_iff_getElem?_eq_some.mpr found)
  intro dbName dbName' info info' t t' defined defined' _
  rw [colon dbName info t defined, colon dbName' info' t' defined']

theorem separators_agree_shared :
    let files := sharing ":"
    let s := loadedFrom files
    getSeparator files (ascii "CHASSIS_APP_DB") .default s =
      (do getSeparatorOf files (← getDbId files (ascii "CHASSIS_APP_DB") .default) .default) s :=
  (separators_agree_iff (loadedFrom_run ":") (sharing_sound ":") .default).1.mpr
    sharing_unambiguous (ascii "CHASSIS_APP_DB")

/-- By id there is only the separator of the database with the first name. -/
theorem separators_differ :
    let s := loadedFrom (sharing "|")
    Sound (sharing "|") ∧
    Run SoundStep start [(sharing "|", .init (ascii "/d/db.json"))] s ∧
    getSeparator (sharing "|") (ascii "CHASSIS_APP_DB") .default s = .ok (ascii "|") s ∧
    getDbId (sharing "|") (ascii "CHASSIS_APP_DB") .default s = .ok 0 s ∧
    getSeparatorOf (sharing "|") 0 .default s = .ok (ascii ":") s :=
  ⟨sharing_sound "|", loadedFrom_run "|", rfl, rfl, rfl⟩

end SwssCommon.SonicDBConfig
