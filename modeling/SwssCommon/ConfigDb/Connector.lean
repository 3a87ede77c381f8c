import SwssCommon.Redis.Transaction

/-! # The connectors of the configuration database

An entry is a hash named by its table in capitals, a separator and its key. `ConfigDBConnector`
executes its commands one by one; `ConfigDBPipeConnector` collects them for transactions and lists
names with `SCAN`, on a connection of its own.
-/

namespace SwssCommon

open Bytes Redis Throwing DBConnector Connection

/-- `toupper` on every character. -/
def toUpper (s : Bytes) : Bytes :=
  s.map fun c => if 97 ≤ c ∧ c ≤ 122 then c - 32 else c

/-- `std::string::find`. -/
def findFirst (needle : Bytes) : Bytes → Option Nat
  | [] => if needle = [] then some 0 else none
  | c :: rest => if needle <+: c :: rest then some 0 else (findFirst needle rest).map (· + 1)

/-- The name of a table and the key of an entry, in the name of a hash. -/
def splitKey (separator key : Bytes) : Option (Bytes × Bytes) :=
  (findFirst separator key).map fun pos => (key.take pos, key.drop (pos + 1))

abbrev ConfigData :=
  Std.ExtTreeMap Bytes (Std.ExtTreeMap Bytes Hash compare) compare

/-- `f(data[table][row])`, where both are created if they are missing. -/
def ConfigData.update (data : ConfigData) (table row : Bytes) (f : Hash → Hash) : ConfigData :=
  let rows := data[table]?.getD ∅
  data.insert table (rows.insert row (f (rows[row]?.getD ∅)))

namespace ConfigDBConnector

variable (server : RedisServer) (separator : Bytes)

def hashName (table key : Bytes) : Bytes :=
  toUpper table ++ separator ++ key

def pattern (table : Bytes) : Bytes :=
  toUpper table ++ separator ++ ascii "*"

def getEntry (table key : Bytes) : M Hash :=
  hgetallMap server (hashName separator table key)

def extraFields (original data : Hash) : List Bytes :=
  original.keys.filter (· ∉ data)

def setEntry (table key : Bytes) (data : Hash) : M Unit := do
  if data.isEmpty then del server (hashName separator table key)
  else
    let original ← getEntry server separator table key
    hmset server (hashName separator table key) data.toList
    (extraFields original data).forM (hdel server (hashName separator table key))

def deleteTable (table : Bytes) : M Unit := do
  let keys ← keys server (pattern separator table)
  keys.forM (del server)

/-- One round of `DBConnector::getall`. -/
def readKey (data : ConfigData) (key : Bytes) : M ConfigData :=
  match splitKey separator key with
  | none => pure data
  | some (table, row) => do
    let entry ← hgetallMap server key
    pure (if entry.isEmpty then data else data.update table row fun _ => entry)

/-- `DBConnector::getall`. -/
def getConfig : M ConfigData := do
  let keys ← keys server (ascii "*")
  keys.foldlM (readKey server separator) ∅

end ConfigDBConnector

namespace ConfigDBPipeConnector

open RedisTransactioner ConfigDBConnector

abbrev M := RedisTransactioner.M Connection

def fresh (ks : Keyspace) : RedisTransactioner Connection :=
  ⟨⟨ks, none⟩, [], [], .start, []⟩

def onClient {α : Type} (call : DBConnector.M α) : M α := fun s =>
  match call s.server.db with
  | .ok a db => .ok a { s with server.db := db }
  | .error e db => .error e { s with server.db := db }

variable (server : RedisServer) (separator : Bytes)

/-- `pipe.enqueue` of this class. -/
def append (command : RedisCommand) (expectedType : Int) : M Unit :=
  enqueue (peer server) command expectedType

/-- One round of `_delete_table`, with the reply of the server. -/
def deleteEntries (reply : ScanReply) : M Int := do
  let (cursor, keys) ← onClient (scan reply)
  keys.forM fun key => append server (.DEL (cStr key)) REDIS_REPLY_INTEGER
  pure cursor

/-- `_delete_table`, with the replies of the server. -/
def deleteTable : List ScanReply → M Unit
  | [] => throw .blocked
  | reply :: replies => do
    let cursor ← deleteEntries server reply
    if cursor ≠ 0 then deleteTable replies else pure ()

/-- `_set_entry`. -/
def appendEntry (table key : Bytes) (data : Hash) : M Unit := do
  if data.isEmpty then
    append server (.DEL (cStr (hashName separator table key))) REDIS_REPLY_INTEGER
  else
    let original ← onClient (getEntry server separator table key)
    append server (.HSET (cStr (hashName separator table key)) data.toList) REDIS_REPLY_INTEGER
    (extraFields original data).forM fun field =>
      append server (.HDEL (cStr (hashName separator table key)) (cStr field)) REDIS_REPLY_INTEGER

def setEntry (table key : Bytes) (data : Hash) : M Unit := do
  multi (peer server)
  appendEntry server separator table key data
  let _ ← exec (peer server)

def requestKey (key : Bytes) : M Unit :=
  match splitKey separator key with
  | none => pure ()
  | some _ => append server (.HGETALL (cStr key)) REDIS_REPLY_ARRAY

def collectKey (data : ConfigData) (key : Bytes) : M ConfigData :=
  match splitKey separator key with
  | none => pure data
  | some (table, row) => do
    match ← dequeueReply with
    | none => throw .nullPointer
    | some r => pure (data.update table row fun entry =>
      OrderedMap.insertNew entry (pairs (elements r.reply)))

/-- `_get_config`, with the reply of the server. -/
def getBatch (data : ConfigData) (reply : ScanReply) : M (Int × ConfigData) := do
  let (cursor, keys) ← onClient (scan reply)
  multi (peer server)
  keys.forM (requestKey server separator)
  let _ ← exec (peer server)
  let data ← keys.foldlM (collectKey separator) data
  pure (cursor, data)

/-- The loop of `get_config`, with the replies of the server. -/
def getConfig : List ScanReply → ConfigData → M ConfigData
  | [], _ => throw .blocked
  | reply :: replies, data => do
    let (cursor, data) ← getBatch server separator data reply
    if cursor ≠ 0 then getConfig replies data else pure data

theorem onClient_ends {α call a ks}
    {s}
    {Q : α → RedisTransactioner Connection → Prop}
    {E}
    (ran : call s.server.db = .ok a ks) (post : Q a { s with server.db := ks }) :
    Ends (onClient call) s Q E := by
  unfold Ends onClient
  rw [ran]
  exact post

end ConfigDBPipeConnector

end SwssCommon
