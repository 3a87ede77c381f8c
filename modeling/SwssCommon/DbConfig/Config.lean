import Std.Data.ExtTreeMap
import SwssCommon.Lib.JsonValue
import SwssCommon.Lib.Throwing

/-! # SonicDBConfig

Which databases there are, in which Redis instance, and where those listen. One file tells this for
the default key; a global file includes such files for keys of their own. A lookup that finds
nothing initialized loads the default file first.
-/

namespace SwssCommon

open Bytes Throwing JsonValue Std

structure RedisInstInfo where
  unixSocketPath : Bytes
  hostname : Bytes
  port : Int
  deriving DecidableEq

structure SonicDBInfo where
  instName : Bytes
  dbId : Int
  separator : Bytes
  deriving DecidableEq

structure SonicDBKey where
  containerName : Bytes
  netns : Bytes
  deriving DecidableEq

namespace SonicDBKey

def default : SonicDBKey := ⟨[], []⟩

def isEmpty (key : SonicDBKey) : Bool :=
  key.containerName.isEmpty && key.netns.isEmpty

theorem isEmpty_iff {key} : key.isEmpty ↔ key = default := by
  cases key
  simp [isEmpty, default]

def toString (key : SonicDBKey) : Bytes :=
  key.containerName ++ ascii ":" ++ key.netns

def cmp : SonicDBKey → SonicDBKey → Ordering :=
  compareLex (compareOn containerName) (compareOn netns)

instance : TransCmp cmp :=
  inferInstanceAs (TransCmp (compareLex (compareOn containerName) (compareOn netns)))

instance : LawfulEqCmp cmp where
  compare_self := ReflCmp.compare_self
  eq_of_compare {a b} same := by
    simp only [cmp, compareLex, compareOn, Ordering.then_eq_eq,
      LawfulEqCmp.compare_eq_iff_eq] at same
    cases a
    cases b
    simpa using same

end SonicDBKey

structure Entries where
  inst : ExtTreeMap Bytes RedisInstInfo compare
  db : ExtTreeMap Bytes SonicDBInfo compare
  separator : ExtTreeMap Int Bytes compare

namespace Entries

def none : Entries := ⟨∅, ∅, ∅⟩

def nonempty (entries : Entries) : Bool :=
  !entries.inst.isEmpty || !entries.db.isEmpty || !entries.separator.isEmpty

end Entries

inductive File where
  | missing
  | unreadable
  | readable (content : Except Exception JsonValue)

abbrev Files := Bytes → File

@[ext]
structure SonicDBConfig where
  instInfo : ExtTreeMap SonicDBKey (ExtTreeMap Bytes RedisInstInfo compare) SonicDBKey.cmp
  dbInfo : ExtTreeMap SonicDBKey (ExtTreeMap Bytes SonicDBInfo compare) SonicDBKey.cmp
  dbSeparator : ExtTreeMap SonicDBKey (ExtTreeMap Int Bytes compare) SonicDBKey.cmp
  init : Bool
  globalInit : Bool

namespace SonicDBConfig

inductive Failure where
  | runtime (what : Bytes)
  | outOfRange (what : Bytes)
  deriving DecidableEq

def Failure.what : Failure → Bytes
  | runtime what | outOfRange what => what

abbrev M := EStateM Failure SonicDBConfig

def DEFAULT_SONIC_DB_CONFIG_FILE : Bytes :=
  ascii "/var/run/redis/sonic-db/database_config.json"

/-! ## One file -/

def readInstance (inst : ExtTreeMap Bytes RedisInstInfo compare)
    (item : Except Exception Bytes × JsonValue) :
    Except Exception (ExtTreeMap Bytes RedisInstInfo compare) := do
  let instName ← item.1
  let socket ← match item.2.find (ascii "unix_socket_path") with
    | some path => path.getString
    | none => pure []
  let hostname ← (← item.2.member (ascii "hostname")).getString
  let port ← (← item.2.member (ascii "port")).getInt
  pure (inst.insert instName ⟨socket, hostname, port⟩)

/-- One round over the databases. The first one of an id keeps its separator. -/
def readDatabase
    (maps : ExtTreeMap Bytes SonicDBInfo compare × ExtTreeMap Int Bytes compare)
    (item : Except Exception Bytes × JsonValue) :
    Except Exception
      (ExtTreeMap Bytes SonicDBInfo compare × ExtTreeMap Int Bytes compare) := do
  let dbName ← item.1
  let instName ← (← item.2.member (ascii "instance")).getString
  let dbId ← (← item.2.member (ascii "id")).getInt
  let separator ← (← item.2.member (ascii "separator")).getString
  pure (maps.1.insert dbName ⟨instName, dbId, separator⟩, maps.2.insertIfNew dbId separator)

def readEntries (j : JsonValue) : Except Exception Entries := do
  let instances ← j.subscript (ascii "INSTANCES")
  let inst ← instances.items.foldlM readInstance ∅
  let databases ← j.subscript (ascii "DATABASES")
  let (db, separator) ← databases.items.foldlM readDatabase (∅, ∅)
  pure ⟨inst, db, separator⟩

/-- What a `catch (exception &e)` throws instead. -/
def syntaxError (what : Bytes) : Failure :=
  .runtime (ascii "Sonic database config file syntax error >> " ++ cStr what)

def parseDatabaseConfig (files : Files) (file : Bytes) (ignoreNonexistent : Bool) :
    Except Failure Entries :=
  match files (cStr file) with
  | .missing =>
    if ignoreNonexistent then .ok .none
    else .error (.runtime (ascii "Sonic database config file doesn't exist at " ++ file))
  | .unreadable => .error (.runtime (ascii "Sonic database config file doesn't exist at " ++ file))
  | .readable content =>
    match content.bind readEntries with
    | .ok entries => .ok entries
    | .error what => .error (syntaxError what)

/-! ## The global file -/

structure Inclusion where
  localFile : Bytes
  key : SonicDBKey

def optionalString (element : JsonValue) (name : Bytes) : Except Exception Bytes := do
  let value ← element.subscript name
  if value.empty then pure [] else value.getString

def readInclusion (dirName : Bytes) (element : JsonValue) :
    Except Exception Inclusion := do
  let path ← (← element.subscript (ascii "include")).getString
  let netns ← optionalString element (ascii "namespace")
  let containerName ← optionalString element (ascii "container_name")
  pure ⟨dirName ++ path, ⟨containerName, netns⟩⟩

/-- What an included file told goes into the maps, if it told anything. -/
def publish (key : SonicDBKey) (entries : Entries) (s : SonicDBConfig) : SonicDBConfig :=
  let s := if entries.nonempty then
      { s with
        instInfo := s.instInfo.insert key entries.inst
        dbInfo := s.dbInfo.insert key entries.db
        dbSeparator := s.dbSeparator.insert key entries.separator }
    else s
  -- Make regular init also done
  if key.isEmpty then { s with init := true } else s

theorem init_publish (key : SonicDBKey) (entries : Entries) (s : SonicDBConfig) :
    (publish key entries s).init = (key.isEmpty || s.init) := by
  unfold publish
  cases entries.nonempty <;> cases key.isEmpty <;> rfl

theorem instInfo_publish (key : SonicDBKey) (entries : Entries) (s : SonicDBConfig) :
    (publish key entries s).instInfo =
      if entries.nonempty then s.instInfo.insert key entries.inst else s.instInfo := by
  unfold publish
  cases entries.nonempty <;> cases key.isEmpty <;> rfl

theorem dbInfo_publish (key : SonicDBKey) (entries : Entries) (s : SonicDBConfig) :
    (publish key entries s).dbInfo =
      if entries.nonempty then s.dbInfo.insert key entries.db else s.dbInfo := by
  unfold publish
  cases entries.nonempty <;> cases key.isEmpty <;> rfl

theorem dbSeparator_publish (key : SonicDBKey) (entries : Entries) (s : SonicDBConfig) :
    (publish key entries s).dbSeparator =
      if entries.nonempty then s.dbSeparator.insert key entries.separator
      else s.dbSeparator := by
  unfold publish
  cases entries.nonempty <;> cases key.isEmpty <;> rfl

/-- One round over the includes. What is thrown is known by its text. -/
def loadInclusion (files : Files) (dirName : Bytes) (ignoreNonexistent : Bool)
    (element : JsonValue) : EStateM Exception SonicDBConfig Unit := do
  let inclusion ← ofExcept (readInclusion dirName element)
  -- If database_config.json is already initlized via SonicDBConfig::initialize
  -- skip initializing it here again.
  if inclusion.key.isEmpty && (← get).init then pure ()
  else
    let entries ← ofExcept
      ((parseDatabaseConfig files inclusion.localFile ignoreNonexistent).mapError Failure.what)
    modify (publish inclusion.key entries)

def loadInclusions (files : Files) (dirName : Bytes) (ignoreNonexistent : Bool) :
    List JsonValue → EStateM Exception SonicDBConfig Unit
  | [] => pure ()
  | element :: rest => do
    loadInclusion files dirName ignoreNonexistent element
    loadInclusions files dirName ignoreNonexistent rest

def dirName (file : Bytes) : Bytes :=
  (file.reverse.dropWhile (· ≠ 47)).reverse

def includes (content : Except Exception JsonValue) :
    Except Exception (List JsonValue) := do
  let j ← content
  pure (← j.subscript (ascii "INCLUDES")).elements

def loadGlobal (files : Files) (file : Bytes) (ignoreNonexistent : Bool) : M Unit :=
  match files (cStr file) with
  | .readable content => EStateM.adaptExcept syntaxError do
      loadInclusions files (dirName file) ignoreNonexistent (← ofExcept (includes content))
  | _ => pure ()

def initializeGlobalConfig (files : Files) (file : Bytes) (ignoreNonexistent : Bool) : M Unit := do
  if (← get).globalInit then pure ()
  else
    loadGlobal files file ignoreNonexistent
    -- Set it as the global config file is already parsed and init done.
    modify fun s => { s with globalInit := true }

/-! ## The other calls -/

def adopt (entries : Entries) (s : SonicDBConfig) : SonicDBConfig :=
  { s with
    instInfo := s.instInfo.insertIfNew .default entries.inst
    dbInfo := s.dbInfo.insertIfNew .default entries.db
    dbSeparator := s.dbSeparator.insertIfNew .default entries.separator
    -- Set it as the config file is already parsed and init done.
    init := true }

/-- `initialize`. -/
def initializeConfig (files : Files) (file : Bytes) : M Unit := do
  if (← get).init then throw (.runtime (ascii "SonicDBConfig already initialized"))
  else
    let entries ← ofExcept (parseDatabaseConfig files file false)
    modify (adopt entries)

def start : SonicDBConfig := ⟨∅, ∅, ∅, false, false⟩

def reset : M Unit :=
  modify fun _ => start

/-- `SWSS_LOG_THROW`: the buffer has 4096 characters. -/
def logThrow (function message : Bytes) : Failure :=
  .runtime ((ascii ":- " ++ function ++ ascii ": " ++ message).take 4095)

/-- `if (!m_init) initialize(DEFAULT_SONIC_DB_CONFIG_FILE)`. -/
def ensureInit (files : Files) : M Unit := do
  if (← get).init then pure () else initializeConfig files DEFAULT_SONIC_DB_CONFIG_FILE

/-- Keys other than the default one are for the global file to tell. -/
def requireGlobal (function : Bytes) (key : SonicDBKey) : M Unit := do
  if !key.isEmpty && !(← get).globalInit then
    throw (logThrow function
      (ascii "Initialize global DB config using API SonicDBConfig::initializeGlobalConfig"))
  else pure ()

/-- What the lookups of a key have in common: load the default file if need be, and find
    the key in one of the maps. -/
def atKey {V α : Type} (files : Files) (function : Bytes) (key : SonicDBKey)
    (map : SonicDBConfig → ExtTreeMap SonicDBKey V SonicDBKey.cmp) (invalid : Failure)
    (found : V → M α) : M α := do
  ensureInit files
  requireGlobal function key
  match (map (← get))[key]? with
  | none => throw invalid
  | some entry => found entry

def orThrow {α : Type} (found : Option α) (e : Failure) : M α :=
  match found with
  | none => throw e
  | some a => pure a

def invalidKey (key : SonicDBKey) : Failure :=
  .outOfRange (ascii "Key " ++ key.toString ++ ascii " is not a valid key name in config file")

def getDbInfo (files : Files) (dbName : Bytes) (key : SonicDBKey) : M SonicDBInfo :=
  atKey files (ascii "getDbInfo") key dbInfo (invalidKey key) fun infos =>
    orThrow infos[dbName]? (.outOfRange (ascii "Failed to find " ++ dbName ++
      ascii " database in " ++ key.toString ++ ascii " key"))

def invalidInstanceKey (key : SonicDBKey) : Failure :=
  .outOfRange (ascii "Key " ++ key.toString ++
    ascii " is not a valid key name in Redis instances in config file")

def getRedisInfo (files : Files) (dbName : Bytes) (key : SonicDBKey) : M RedisInstInfo :=
  atKey files (ascii "getRedisInfo") key instInfo (invalidInstanceKey key) fun redisInfos => do
    let info ← getDbInfo files dbName key
    orThrow redisInfos[info.instName]?
      (.outOfRange (ascii "Failed to find the Redis instance for " ++
        dbName ++ ascii " database in " ++ key.toString ++ ascii " key"))

/-- `std::to_string` of an `int`. -/
def decimalInt (n : Int) : Bytes :=
  if n < 0 then ascii "-" ++ decimal n.natAbs else decimal n.natAbs

/-- `getSeparator` by the id of the database. -/
def getSeparatorOf (files : Files) (dbId : Int) (key : SonicDBKey) : M Bytes :=
  atKey files (ascii "getSeparator") key dbSeparator (invalidKey key) fun seps =>
    orThrow seps[dbId]? (.outOfRange (ascii "Failed to find " ++ decimalInt dbId ++
      ascii " database in " ++ key.toString ++ ascii " key"))

def validateNamespace (netns : Bytes) : M Unit := do
  if netns.isEmpty then pure ()
  else if !(← get).globalInit then
    throw (logThrow (ascii "validateNamespace")
      (ascii "Initialize global DB config using API SonicDBConfig::initializeGlobalConfig"))
  else if (← get).instInfo.keys.any (·.netns = netns) then pure ()
  else throw (logThrow (ascii "validateNamespace")
    (ascii "Namespace " ++ cStr netns ++ ascii " is not a valid namespace name in config file"))

/-- `getDbKeys`, in some order. -/
def getDbKeys (files : Files) : M (List SonicDBKey) := do
  ensureInit files
  pure (← get).instInfo.keys

/-- `getNamespaces`, which sorts them. -/
def getNamespaces (files : Files) : M (List Bytes) := do
  ensureInit files
  pure (ExtTreeMap.ofList ((← get).instInfo.keys.map fun key => (key.netns, ())) compare).keys

def getDbList (files : Files) (key : SonicDBKey) : M (List Bytes) := do
  ensureInit files
  validateNamespace key.netns
  let infos ← orThrow (← get).dbInfo[key]? (.outOfRange (ascii "_Map_base::at"))
  pure infos.keys

def getInstanceList (files : Files) (key : SonicDBKey) :
    M (ExtTreeMap Bytes RedisInstInfo compare) := do
  ensureInit files
  validateNamespace key.netns
  pure ((← get).instInfo[key]?.getD ∅)

/-- The calls of the class. The other lookups read the result of one of these. -/
inductive Call where
  | init (file : Bytes)
  | initGlobal (file : Bytes) (ignoreNonexistent : Bool)
  | reset
  | getDbInfo (dbName : Bytes) (key : SonicDBKey)
  | getRedisInfo (dbName : Bytes) (key : SonicDBKey)
  | getSeparator (dbId : Int) (key : SonicDBKey)
  | validateNamespace (netns : Bytes)
  | getDbKeys
  | getNamespaces
  | getDbList (key : SonicDBKey)
  | getInstanceList (key : SonicDBKey)

def Call.run (files : Files) : Call → M Unit
  | init file => initializeConfig files file
  | initGlobal file ignoreNonexistent => initializeGlobalConfig files file ignoreNonexistent
  | reset => SonicDBConfig.reset
  | getDbInfo dbName key => do let _ ← SonicDBConfig.getDbInfo files dbName key
  | getRedisInfo dbName key => do let _ ← SonicDBConfig.getRedisInfo files dbName key
  | getSeparator dbId key => do let _ ← getSeparatorOf files dbId key
  | validateNamespace netns => SonicDBConfig.validateNamespace netns
  | getDbKeys => do let _ ← SonicDBConfig.getDbKeys files
  | getNamespaces => do let _ ← SonicDBConfig.getNamespaces files
  | getDbList key => do let _ ← SonicDBConfig.getDbList files key
  | getInstanceList key => do let _ ← SonicDBConfig.getInstanceList files key

end SonicDBConfig

end SwssCommon
