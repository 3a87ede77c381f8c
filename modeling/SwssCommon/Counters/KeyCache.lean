import SwssCommon.Redis.Connector

/-! # Counter keys and their cache

Counters are stored under an object id that a name map tells, in the counters database or in that of
the gearbox. Keys are looked up there, or in a cache filled from both, where a name of the counters
database hides that of the gearbox.
-/

namespace SwssCommon

open Bytes Redis Throwing OrderedMap DBConnector

def COUNTERS_DB : Int := 2

def GB_COUNTERS_DB : Int := 10

def COUNTERS_PORT_NAME_MAP : Bytes := ascii "COUNTERS_PORT_NAME_MAP"

def COUNTERS_MACSEC_NAME_MAP : Bytes := ascii "COUNTERS_MACSEC_NAME_MAP"

structure CounterTable where
  countersDB : Keyspace
  gbcountersDB : Keyspace

structure KeyCache (T : Type) where
  keyMap : Std.ExtTreeMap Bytes T compare
  enabled : Bool

namespace KeyCache

variable {T : Type}

abbrev M (T : Type) := EStateM Failure (KeyCache T)

def clear (cache : KeyCache T) : KeyCache T :=
  { cache with keyMap := ∅ }

/-- `at`, with `none` where it throws. -/
def find (cache : KeyCache T) (name : Bytes) : Option T :=
  cache.keyMap[name]?

def insert (entries : List (Bytes × T)) (cache : KeyCache T) : KeyCache T :=
  { cache with keyMap := insertNew cache.keyMap entries }

def refresh (cachingFunc : M T Unit) : M T Unit := do
  modify clear
  cachingFunc

def enable (cachingFunc : M T Unit) : M T Unit := do
  refresh cachingFunc
  modify fun cache => { cache with enabled := true }

/-- `db->hgetall(key)` in a caching function. -/
def readNames (server : RedisServer) (db : Keyspace) (key : Bytes) : M T Hash :=
  match query db (hgetallMap server key) with
  | .ok fvs => pure fvs
  | .error e => throw e

/-- The caching functions: both maps under a key, the counters database first, and what is
    kept for an id of either. -/
def caching (server : RedisServer) (t : CounterTable) (key : Bytes) (counters gearbox : Bytes → T) :
    M T Unit := do
  let fvs ← readNames server t.countersDB key
  modify (insert (fvs.toList.map fun fv => (fv.1, counters fv.2)))
  let fvs ← readNames server t.gbcountersDB key
  modify (insert (fvs.toList.map fun fv => (fv.1, gearbox fv.2)))

end KeyCache

abbrev KeyPair := Int × Bytes

namespace PortCounter

inductive Mode where
  | UNION
  | ASIC
  | SYSTEMSIDE
  | LINESIDE
  deriving DecidableEq

variable (server : RedisServer)

def cachingKey (t : CounterTable) : KeyCache.M Bytes Unit :=
  KeyCache.caching server t COUNTERS_PORT_NAME_MAP id id

def luaKeys : Option Bytes → Option Bytes → Option Bytes → List Bytes
  | some asic, some systemside, some lineside => [asic, systemside, lineside]
  | _, _, _ => []

def getLuaKeys (cache : KeyCache Bytes) (mode : Mode) (t : CounterTable) (name : Bytes) :
    Except Failure (List Bytes) :=
  if mode ≠ .UNION then pure []
  else if cache.enabled then
    pure (luaKeys (cache.find name) (cache.find (name ++ ascii "_system"))
      (cache.find (name ++ ascii "_line")))
  else do
    let lineside ← query t.gbcountersDB
      (hget server COUNTERS_PORT_NAME_MAP (name ++ ascii "_line"))
    let systemside ← query t.gbcountersDB
      (hget server COUNTERS_PORT_NAME_MAP (name ++ ascii "_system"))
    let asic ← query t.countersDB (hget server COUNTERS_PORT_NAME_MAP name)
    pure (luaKeys asic systemside lineside)

def Mode.dbId : Mode → Int
  | .ASIC | .UNION => COUNTERS_DB
  | .SYSTEMSIDE | .LINESIDE => GB_COUNTERS_DB

def Mode.portName (name : Bytes) : Mode → Bytes
  | .ASIC | .UNION => name
  | .SYSTEMSIDE => name ++ ascii "_system"
  | .LINESIDE => name ++ ascii "_line"

def keyPair (dbId : Int) (oid : Option Bytes) : KeyPair :=
  match oid with
  | some oid => (dbId, oid)
  | none => (-1, [])

def Mode.database (t : CounterTable) : Mode → Keyspace
  | .ASIC | .UNION => t.countersDB
  | .SYSTEMSIDE | .LINESIDE => t.gbcountersDB

def getKey (cache : KeyCache Bytes) (mode : Mode) (t : CounterTable) (name : Bytes) :
    Except Failure KeyPair :=
  if cache.enabled then pure (keyPair mode.dbId (cache.find (mode.portName name)))
  else do
    let oid ← query (mode.database t)
      (hget server COUNTERS_PORT_NAME_MAP (mode.portName name))
    pure (keyPair mode.dbId oid)

end PortCounter

namespace MacsecCounter

variable (server : RedisServer)

def cachingKey (t : CounterTable) : KeyCache.M KeyPair Unit :=
  KeyCache.caching server t COUNTERS_MACSEC_NAME_MAP (COUNTERS_DB, ·) (GB_COUNTERS_DB, ·)

def getKey (cache : KeyCache KeyPair) (t : CounterTable) (name : Bytes) :
    Except Failure KeyPair :=
  if cache.enabled then pure ((cache.find name).getD (-1, []))
  else do
    match ← query t.countersDB (hget server COUNTERS_MACSEC_NAME_MAP name) with
    | some oid => pure (COUNTERS_DB, oid)
    | none =>
      match ← query t.gbcountersDB (hget server COUNTERS_MACSEC_NAME_MAP name) with
      | some oid => pure (GB_COUNTERS_DB, oid)
      | none => pure (-1, [])

end MacsecCounter

inductive Counter where
  | port (mode : PortCounter.Mode)
  | macsec

structure KeyCaches where
  port : KeyCache Bytes
  macsec : KeyCache KeyPair

namespace Counter

def getKey (server : RedisServer) (caches : KeyCaches) (t : CounterTable) (name : Bytes) :
    Counter → Except Failure KeyPair
  | port mode => PortCounter.getKey server caches.port mode t name
  | macsec => MacsecCounter.getKey server caches.macsec t name

def getLuaKeys (server : RedisServer) (caches : KeyCaches) (t : CounterTable) (name : Bytes) :
    Counter → Except Failure (List Bytes)
  | port mode => PortCounter.getLuaKeys server caches.port mode t name
  | macsec => pure []

end Counter

/-! ## What is found in a cache and without one -/

variable {server : RedisServer} {t : CounterTable}

def nameMap (db : Keyspace) (key : Bytes) : Hash :=
  (db.hashAt key).getD ∅

/-- The id of a name in a map that was read as a whole, as C strings. -/
def listed (server : RedisServer) (names : Hash) (name : Bytes) : Option Bytes :=
  ((server.fields names).map fun fv => (cStr fv.1, cStr fv.2)).lookup name

def asked (names : Hash) (name : Bytes) : Option Bytes :=
  names[cStr name]?.map cStr

theorem query_hget {db key h} (found : db.hashAt (cStr key) = some h)
    (name : Bytes) : query db (hget server key name) = .ok (asked h name) := by
  unfold query
  rw [hget_eq found]
  rfl

namespace KeyCache

variable {T : Type} {cache : KeyCache T} {key : Bytes}

theorem find_insert (names : Hash) (f : Bytes → T) (cache : KeyCache T) (name : Bytes) :
    (insert (names.toList.map fun fv => (fv.1, f fv.2)) cache).find name =
      (cache.find name).or (names[name]?.map f) := by
  unfold find insert
  rw [getElem?_insertNew, lookup_map, lookup_toList]

theorem readNames_ends (db : Keyspace) (key : Bytes) (cache : KeyCache T) :
    Ends (readNames server db key) cache
      (fun names after => after = cache ∧ ∃ h, db.hashAt (cStr key) = some h ∧
        ∀ name, names[name]? = listed server h name)
      (fun _ _ => True) := by
  unfold readNames query
  cases found : db.hashAt (cStr key) with
  | none =>
    rw [hgetallMap_wrongType found]
    trivial
  | some h =>
    rw [hgetallMap_eq found]
    refine ⟨rfl, h, rfl, fun name => ?_⟩
    rw [getElem?_insertNew]
    simp [listed]

theorem caching_ends {counters gearbox} (empty : cache.keyMap = ∅) :
    Ends (caching server t key counters gearbox) cache
      (fun _ after => ∃ h g, t.countersDB.hashAt (cStr key) = some h ∧
        t.gbcountersDB.hashAt (cStr key) = some g ∧
        ∀ name, after.find name =
          ((listed server h name).map counters).or ((listed server g name).map gearbox))
      (fun _ _ => True) := by
  apply Ends.bind
  apply (readNames_ends t.countersDB key cache).mono _ (fun _ _ _ => trivial)
  rintro names _ ⟨rfl, h, counted, first⟩
  apply Ends.bind_modify
  apply Ends.bind
  apply (readNames_ends t.gbcountersDB key _).mono _ (fun _ _ _ => trivial)
  rintro others _ ⟨rfl, g, geared, second⟩
  refine ⟨h, g, counted, geared, fun name => ?_⟩
  rw [find_insert, find_insert, first, second]
  simp [find, empty]

/-- A cache that is enabled, and was enabled or refreshed last. -/
def Fresh (cachingFunc : M T Unit) (cache : KeyCache T) : Prop :=
  cache.enabled = true ∧ ∃ before,
    enable cachingFunc before = .ok () cache ∨ refresh cachingFunc before = .ok () cache

theorem Fresh.filled {cachingFunc} {I : (Bytes → Option T) → Prop}
    (fresh : Fresh cachingFunc cache)
    (fills : ∀ {empty : KeyCache T}, empty.keyMap = ∅ →
      Ends cachingFunc empty (fun _ after => I after.find) (fun _ _ => True)) : I cache.find := by
  have refreshed : ∀ before, Ends (refresh cachingFunc) before
      (fun _ after => I after.find) (fun _ _ => True) := by
    intro before
    exact fills rfl
  obtain ⟨_, before, enabled | again⟩ := fresh
  · have ends : Ends (enable cachingFunc) before (fun _ after => I after.find)
        (fun _ _ => True) := by
      apply Ends.bind
      apply (refreshed before).mono _ (fun _ _ _ => trivial)
      intro _ after holds
      exact Ends.modify holds
    exact ends.of_returned enabled
  · exact (refreshed before).of_returned again

theorem Fresh.finds {counters gearbox}
    (fresh : cache.Fresh (caching server t key counters gearbox)) (plain : cStr key = key) :
    t.countersDB.hashAt key = some (nameMap t.countersDB key) ∧
    t.gbcountersDB.hashAt key = some (nameMap t.gbcountersDB key) ∧
    ∀ name, cache.find name =
      ((listed server (nameMap t.countersDB key) name).map counters).or
        ((listed server (nameMap t.gbcountersDB key) name).map gearbox) := by
  have filled := fresh.filled (I := fun find => ∃ h g, t.countersDB.hashAt (cStr key) = some h ∧
    t.gbcountersDB.hashAt (cStr key) = some g ∧ ∀ name, find name =
      ((listed server h name).map counters).or ((listed server g name).map gearbox)) caching_ends
  obtain ⟨h, g, counted, geared, finds⟩ := filled
  rw [plain] at counted geared
  simp only [nameMap, counted, geared, Option.getD_some]
  exact ⟨trivial, trivial, finds⟩

end KeyCache

/-! ## Where the cache is transparent -/

namespace PortCounter

def ports (db : Keyspace) : Hash :=
  nameMap db COUNTERS_PORT_NAME_MAP

def cachedOid (server : RedisServer) (t : CounterTable) (name : Bytes) : Option Bytes :=
  (listed server (ports t.countersDB) name).or (listed server (ports t.gbcountersDB) name)

/-- A mode's name has the same id in both maps together as in the map of the mode. -/
def KeyAgrees (server : RedisServer) (t : CounterTable) (name : Bytes) (mode : Mode) : Prop :=
  cachedOid server t (mode.portName name) = asked (ports (mode.database t)) (mode.portName name)

/-- So have the three names of a port, or on either side one of them has no id. -/
def LuaAgrees (server : RedisServer) (t : CounterTable) (name : Bytes) : Prop :=
  (∀ mode, KeyAgrees server t name mode) ∨
    ((∃ mode : Mode, cachedOid server t (mode.portName name) = none) ∧
      ∃ mode : Mode, asked (ports (mode.database t)) (mode.portName name) = none)

theorem Mode.forall {P : Mode → Prop} :
    (∀ mode, P mode) ↔ P .UNION ∧ P .ASIC ∧ P .SYSTEMSIDE ∧ P .LINESIDE := by
  constructor
  · intro all
    exact ⟨all _, all _, all _, all _⟩
  · rintro ⟨union, asic, systemside, lineside⟩ mode
    cases mode <;> assumption

theorem Mode.exists {P : Mode → Prop} :
    (∃ mode, P mode) ↔ P .UNION ∨ P .ASIC ∨ P .SYSTEMSIDE ∨ P .LINESIDE := by
  rw [← not_iff_not]
  simp [Mode.forall]

theorem keyPair_inj (mode : Mode) {a b} :
    keyPair mode.dbId a = keyPair mode.dbId b ↔ a = b := by
  have known : mode.dbId ≠ -1 := by cases mode <;> decide
  cases a with
  | none =>
    cases b with
    | none => simp
    | some b => simp [keyPair, known.symm]
  | some a =>
    cases b with
    | none => simp [keyPair, known]
    | some b => simp [keyPair]

theorem luaKeys_eq_nil {asic systemside lineside} :
    luaKeys asic systemside lineside = [] ↔ asic = none ∨ systemside = none ∨ lineside = none := by
  cases asic <;> cases systemside <;> cases lineside <;> simp [luaKeys]

theorem luaKeys_inj {asic asic' systemside systemside' lineside lineside'} :
    luaKeys asic systemside lineside = luaKeys asic' systemside' lineside' ↔
      (asic = asic' ∧ systemside = systemside' ∧ lineside = lineside') ∨
      (luaKeys asic systemside lineside = [] ∧ luaKeys asic' systemside' lineside' = []) := by
  cases asic <;> cases systemside <;> cases lineside <;> cases asic' <;> cases systemside' <;>
    cases lineside' <;> simp [luaKeys]

section Lookups

variable {on off : KeyCache Bytes}

theorem getKey_on (fresh : on.Fresh (cachingKey server t)) (mode : Mode) (name : Bytes) :
    getKey server on mode t name =
      .ok (keyPair mode.dbId (cachedOid server t (mode.portName name))) := by
  obtain ⟨_, _, finds⟩ := KeyCache.Fresh.finds fresh rfl
  unfold getKey
  rw [if_pos fresh.1, finds, Option.map_id]
  rfl

theorem getKey_off (fresh : on.Fresh (cachingKey server t)) (disabled : off.enabled = false)
    (mode : Mode) (name : Bytes) :
    getKey server off mode t name =
      .ok (keyPair mode.dbId (asked (ports (mode.database t)) (mode.portName name))) := by
  obtain ⟨counted, geared, _⟩ := KeyCache.Fresh.finds fresh rfl
  have found : (mode.database t).hashAt (cStr COUNTERS_PORT_NAME_MAP) =
      some (ports (mode.database t)) := by
    cases mode with
    | ASIC | UNION => exact counted
    | SYSTEMSIDE | LINESIDE => exact geared
  unfold getKey
  rw [if_neg (by simp [disabled]), query_hget found]
  rfl

theorem getLuaKeys_on (fresh : on.Fresh (cachingKey server t)) (name : Bytes) :
    getLuaKeys server on .UNION t name =
      .ok (luaKeys (cachedOid server t name) (cachedOid server t (name ++ ascii "_system"))
        (cachedOid server t (name ++ ascii "_line"))) := by
  obtain ⟨_, _, finds⟩ := KeyCache.Fresh.finds fresh rfl
  unfold getLuaKeys
  rw [if_pos fresh.1]
  simp only [finds, Option.map_id]
  rfl

theorem getLuaKeys_off
    (counted : t.countersDB.hashAt COUNTERS_PORT_NAME_MAP = some (ports t.countersDB))
    (geared : t.gbcountersDB.hashAt COUNTERS_PORT_NAME_MAP = some (ports t.gbcountersDB))
    (disabled : off.enabled = false) (name : Bytes) :
    getLuaKeys server off .UNION t name =
      .ok (luaKeys (asked (ports t.countersDB) name)
        (asked (ports t.gbcountersDB) (name ++ ascii "_system"))
        (asked (ports t.gbcountersDB) (name ++ ascii "_line"))) := by
  unfold getLuaKeys
  rw [if_neg (by simp), if_neg (by simp [disabled]), query_hget geared, query_hget geared,
    query_hget counted]
  rfl

theorem getKey_same_iff (fresh : on.Fresh (cachingKey server t)) (disabled : off.enabled = false)
    (mode : Mode) (name : Bytes) :
    getKey server on mode t name = getKey server off mode t name ↔
      KeyAgrees server t name mode := by
  rw [getKey_on fresh, getKey_off fresh disabled, Except.ok.injEq, keyPair_inj]
  rfl

theorem getLuaKeys_same_iff (fresh : on.Fresh (cachingKey server t))
    (disabled : off.enabled = false) (mode : Mode) (name : Bytes) :
    getLuaKeys server on mode t name = getLuaKeys server off mode t name ↔
      (mode = .UNION → LuaAgrees server t name) := by
  by_cases union : mode = .UNION
  · subst union
    obtain ⟨counted, geared, _⟩ := KeyCache.Fresh.finds fresh rfl
    rw [getLuaKeys_on fresh, getLuaKeys_off counted geared disabled, Except.ok.injEq, luaKeys_inj,
      luaKeys_eq_nil, luaKeys_eq_nil]
    simp only [LuaAgrees, KeyAgrees, Mode.forall, Mode.exists]
    simp [Mode.portName, Mode.database]
  · simp [getLuaKeys, union]

end Lookups

end PortCounter

namespace MacsecCounter

def associations (db : Keyspace) : Hash :=
  nameMap db COUNTERS_MACSEC_NAME_MAP

def keyPair : Option Bytes → Option Bytes → KeyPair
  | some oid, _ => (COUNTERS_DB, oid)
  | none, some oid => (GB_COUNTERS_DB, oid)
  | none, none => (-1, [])

/-- Reading the maps finds for a name what asking them finds. -/
def KeyAgrees (server : RedisServer) (t : CounterTable) (name : Bytes) : Prop :=
  listed server (associations t.countersDB) name = asked (associations t.countersDB) name ∧
    (asked (associations t.countersDB) name = none →
      listed server (associations t.gbcountersDB) name = asked (associations t.gbcountersDB) name)

theorem keyPair_inj {a a' b b'} :
    keyPair a b = keyPair a' b' ↔ a = a' ∧ (a' = none → b = b') := by
  cases a <;> cases a' <;> cases b <;> cases b' <;> simp [keyPair, COUNTERS_DB, GB_COUNTERS_DB]

theorem getKey_same_iff {on off} (fresh : on.Fresh (cachingKey server t))
    (disabled : off.enabled = false) (name : Bytes) :
    getKey server on t name = getKey server off t name ↔ KeyAgrees server t name := by
  obtain ⟨counted, geared, finds⟩ := KeyCache.Fresh.finds fresh rfl
  have cached : getKey server on t name =
      .ok (keyPair (listed server (associations t.countersDB) name)
        (listed server (associations t.gbcountersDB) name)) := by
    unfold getKey
    rw [if_pos fresh.1, finds]
    unfold associations
    cases listed server (nameMap t.countersDB COUNTERS_MACSEC_NAME_MAP) name <;>
      cases listed server (nameMap t.gbcountersDB COUNTERS_MACSEC_NAME_MAP) name <;> rfl
  have uncached : getKey server off t name =
      .ok (keyPair (asked (associations t.countersDB) name)
        (asked (associations t.gbcountersDB) name)) := by
    unfold getKey
    rw [if_neg (by simp [disabled]), query_hget counted, query_hget geared]
    unfold associations
    cases asked (nameMap t.countersDB COUNTERS_MACSEC_NAME_MAP) name <;>
      cases asked (nameMap t.gbcountersDB COUNTERS_MACSEC_NAME_MAP) name <;> rfl
  rw [cached, uncached, Except.ok.injEq, keyPair_inj]
  rfl

end MacsecCounter

/-! ### Names without NUL -/

def NulFree (t : CounterTable) : Prop :=
  ∀ db ∈ [t.countersDB, t.gbcountersDB],
    ∀ key ∈ [COUNTERS_PORT_NAME_MAP, COUNTERS_MACSEC_NAME_MAP],
      ∀ name ∈ nameMap db key, (0 : UInt8) ∉ name

theorem listed_eq {names} (nulFree : ∀ name ∈ names, 0 ∉ name) (name : Bytes) :
    listed server names name = names[name]?.map cStr := by
  have same : (server.fields names).map (fun fv => (cStr fv.1, cStr fv.2)) =
      (server.fields names).map fun fv => (fv.1, cStr fv.2) := by
    apply List.map_congr_left
    intro fv member
    have there : fv.1 ∈ names := by
      rw [Std.ExtTreeMap.mem_iff_isSome_getElem?, server.mem_fields.mp member]
      rfl
    rw [cStr_of_nulFree (nulFree fv.1 there)]
  unfold listed
  rw [same, lookup_map, server.lookup_fields]

theorem asked_eq {name} (nulFree : 0 ∉ name) (names : Hash) :
    asked names name = names[name]?.map cStr := by
  unfold asked
  rw [cStr_of_nulFree nulFree]

namespace PortCounter

/-- No port of the gearbox has the name, unless the counters database has it too; a side of the
    gearbox has no namesake there, or one with the same id. -/
def Mode.Apart (t : CounterTable) (name : Bytes) (mode : Mode) : Prop :=
  match mode with
  | .ASIC | .UNION => name ∈ ports t.countersDB ∨ name ∉ ports t.gbcountersDB
  | .SYSTEMSIDE | .LINESIDE => mode.portName name ∉ ports t.countersDB ∨
      (ports t.countersDB)[mode.portName name]?.map cStr =
        (ports t.gbcountersDB)[mode.portName name]?.map cStr

def Unknown (t : CounterTable) (name : Bytes) : Prop :=
  name ∉ ports t.countersDB ∧ name ∉ ports t.gbcountersDB

variable {name : Bytes}

theorem portName_nulFree (nulFree : 0 ∉ name) (mode : Mode) :
    0 ∉ mode.portName name := by
  have system : 0 ∉ ascii "_system" := by decide
  have line : 0 ∉ ascii "_line" := by decide
  cases mode <;> simp [Mode.portName, nulFree, system, line]

theorem cachedOid_eq (nulFree : NulFree t) (name : Bytes) :
    cachedOid server t name = ((ports t.countersDB)[name]?.map cStr).or
      ((ports t.gbcountersDB)[name]?.map cStr) := by
  have plain : ∀ db ∈ [t.countersDB, t.gbcountersDB], ∀ n ∈ ports db, 0 ∉ n :=
    fun db member => nulFree db member COUNTERS_PORT_NAME_MAP (by simp)
  unfold cachedOid
  rw [listed_eq (plain t.countersDB (by simp)), listed_eq (plain t.gbcountersDB (by simp))]

theorem keyAgrees_iff_apart (nulFree : NulFree t) (plain : 0 ∉ name) (mode : Mode) :
    KeyAgrees server t name mode ↔ mode.Apart t name := by
  have own : ∀ a b, (a.map cStr).or (b.map cStr) = a.map cStr ↔
      a ≠ none ∨ b = none := by
    intro a b
    cases a <;> cases b <;> simp
  have other : ∀ a b : Option Bytes, (a.map cStr).or (b.map cStr) = b.map cStr ↔
      a = none ∨ a.map cStr = b.map cStr := by
    intro a b
    cases a <;> cases b <;> simp
  unfold KeyAgrees
  rw [cachedOid_eq nulFree, asked_eq (portName_nulFree plain mode)]
  cases mode with
  | ASIC | UNION =>
    exact (own _ _).trans (by simp [Mode.Apart, Mode.portName])
  | SYSTEMSIDE | LINESIDE =>
    exact (other _ _).trans (by simp [Mode.Apart])

theorem luaAgrees_iff_apart (nulFree : NulFree t) (plain : 0 ∉ name) :
    LuaAgrees server t name ↔
      (∀ mode : Mode, mode.Apart t name) ∨ ∃ mode : Mode, Unknown t (mode.portName name) := by
  have unknown : ∀ mode : Mode, cachedOid server t (mode.portName name) = none ↔
      Unknown t (mode.portName name) := by
    intro mode
    rw [cachedOid_eq nulFree]
    simp [Unknown]
  have missing : ∀ mode : Mode, Unknown t (mode.portName name) →
      asked (ports (mode.database t)) (mode.portName name) = none := by
    intro mode absent
    rw [asked_eq (portName_nulFree plain mode)]
    cases mode with
    | ASIC | UNION => simpa [Mode.database] using absent.1
    | SYSTEMSIDE | LINESIDE => simpa [Mode.database] using absent.2
  unfold LuaAgrees
  simp only [keyAgrees_iff_apart nulFree plain, unknown]
  constructor
  · exact Or.imp_right And.left
  · exact Or.imp_right fun ⟨mode, absent⟩ => ⟨⟨mode, absent⟩, mode, missing mode absent⟩

end PortCounter

theorem MacsecCounter.keyAgrees_of_nulFree {name} (nulFree : NulFree t)
    (plain : 0 ∉ name) : KeyAgrees server t name := by
  have same : ∀ db ∈ [t.countersDB, t.gbcountersDB],
      listed server (associations db) name = asked (associations db) name := by
    intro db member
    have names : ∀ n ∈ associations db, 0 ∉ n :=
      nulFree db member COUNTERS_MACSEC_NAME_MAP (by simp)
    rw [asked_eq plain, listed_eq names]
  exact ⟨same _ (by simp), fun _ => same _ (by simp)⟩

namespace Counter

def Agrees (server : RedisServer) (t : CounterTable) (name : Bytes) : Counter → Prop
  | port mode => PortCounter.KeyAgrees server t name mode ∧
      (mode = .UNION → PortCounter.LuaAgrees server t name)
  | macsec => MacsecCounter.KeyAgrees server t name

def Apart (t : CounterTable) (name : Bytes) : Counter → Prop
  | port mode => mode.Apart t name ∧ (mode = .UNION →
      (∀ mode : PortCounter.Mode, mode.Apart t name) ∨
        ∃ mode : PortCounter.Mode, PortCounter.Unknown t (mode.portName name))
  | macsec => True

/-- The cache that the counter uses is fresh. -/
def Cached (server : RedisServer) (t : CounterTable) (on : KeyCaches) : Counter → Prop
  | port _ => on.port.Fresh (PortCounter.cachingKey server t)
  | macsec => on.macsec.Fresh (MacsecCounter.cachingKey server t)

def Uncached (off : KeyCaches) : Counter → Prop
  | port _ => off.port.enabled = false
  | macsec => off.macsec.enabled = false

/-- A counter has the same keys with the cache as without it exactly where its names have the same
    ids in both maps together as in their own. -/
theorem cache_transparent {server : RedisServer} {t : CounterTable} (on off : KeyCaches)
    (counter : Counter) (cached : counter.Cached server t on) (uncached : counter.Uncached off)
    (name : Bytes) :
    (counter.getKey server on t name = counter.getKey server off t name ∧
      counter.getLuaKeys server on t name = counter.getLuaKeys server off t name ↔
        counter.Agrees server t name) ∧
    (NulFree t → (0 : UInt8) ∉ name →
      (counter.Agrees server t name ↔ counter.Apart t name)) := by
  constructor
  · cases counter with
    | port mode =>
      exact and_congr (PortCounter.getKey_same_iff cached uncached mode name)
        (PortCounter.getLuaKeys_same_iff cached uncached mode name)
    | macsec =>
      exact (and_iff_left rfl).trans (MacsecCounter.getKey_same_iff cached uncached name)
  · intro nulFree plain
    cases counter with
    | port mode =>
      exact and_congr (PortCounter.keyAgrees_iff_apart nulFree plain mode)
        (imp_congr_right fun _ => PortCounter.luaAgrees_iff_apart nulFree plain)
    | macsec =>
      exact iff_true_intro (MacsecCounter.keyAgrees_of_nulFree nulFree plain)

private def hashOf (fields : List (Bytes × Bytes)) (key : Bytes) : Keyspace :=
  (∅ : Keyspace).write key (Value.ofHash (Hash.ofFields fields))

private def gearbox : CounterTable where
  countersDB := hashOf [(ascii "Ethernet0", ascii "oid:1")] COUNTERS_PORT_NAME_MAP
  gbcountersDB := hashOf [(ascii "Ethernet0_system", ascii "oid:2"),
    (ascii "Ethernet0_line", ascii "oid:3")] COUNTERS_PORT_NAME_MAP

private def disabled : KeyCaches := ⟨⟨∅, false⟩, ⟨∅, false⟩⟩

private def enabledPorts : KeyCache Bytes :=
  endState (KeyCache.enable (PortCounter.cachingKey .sorted gearbox) disabled.port)

/-- The port by its name. -/
theorem cache_transparent_taken_up :
    (port .ASIC).getKey .sorted ⟨enabledPorts, disabled.macsec⟩ gearbox (ascii "Ethernet0") =
      .ok (COUNTERS_DB, ascii "oid:1") ∧
    (port .ASIC).getKey .sorted disabled gearbox (ascii "Ethernet0") =
      .ok (COUNTERS_DB, ascii "oid:1") := by
  have ports : enabledPorts.Fresh (PortCounter.cachingKey .sorted gearbox) :=
    ⟨rfl, disabled.port, .inl rfl⟩
  have transparent := cache_transparent ⟨enabledPorts, disabled.macsec⟩ disabled
    (port .ASIC) ports rfl (ascii "Ethernet0")
  have agrees : (port .ASIC).Agrees .sorted gearbox (ascii "Ethernet0") := ⟨rfl, nofun⟩
  have uncached : (port .ASIC).getKey .sorted disabled gearbox (ascii "Ethernet0") =
      .ok (COUNTERS_DB, ascii "oid:1") := rfl
  exact ⟨(transparent.1.mpr agrees).1.trans uncached, uncached⟩

/-- The name of a side of the gearbox, taken for a port's: only the cache knows it. -/
theorem cache_transparent_not_asic :
    KeyCache.enable (PortCounter.cachingKey .sorted gearbox) disabled.port = .ok () enabledPorts ∧
    (port .ASIC).getKey .sorted ⟨enabledPorts, disabled.macsec⟩ gearbox (ascii "Ethernet0_line") =
      .ok (COUNTERS_DB, ascii "oid:3") ∧
    (port .ASIC).getKey .sorted disabled gearbox (ascii "Ethernet0_line") = .ok (-1, []) :=
  ⟨rfl, rfl, rfl⟩

end Counter

end SwssCommon
