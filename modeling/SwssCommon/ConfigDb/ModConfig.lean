import SwssCommon.ConfigDb.Connector
import SwssCommon.Lib.MapHistory

/-! # Writing to several tables

A table without rows in the data is deleted. The plain connector asks for its entries when its turn
comes, the other one while it collects its commands. So this one misses entries that the call itself
makes in a table of the same name in other letters or matched by the pattern.
-/

namespace SwssCommon

open Bytes Redis Throwing List Keyspace Value DBConnector Connection MapEvent

/-- What the data asks for, one after the other: an entry is written, an entry is deleted, a
    table is deleted. -/
inductive Operation where
  | put (key : Bytes) (fvs : Hash)
  | del (key : Bytes)
  | sweep (table : Bytes)

namespace Operation

open ConfigDBConnector

section Code

variable (separator : Bytes)

variable (server : RedisServer)

def run : Operation → DBConnector.M Unit
  | put key fvs => DBConnector.hmset server key fvs.toList
  | del key => DBConnector.del server key
  | sweep table => deleteTable server separator table

def append (scan : Bytes → List ScanReply) : Operation → ConfigDBPipeConnector.M Unit
  | put key fvs => ConfigDBPipeConnector.append server (.HSET key fvs.toList) REDIS_REPLY_INTEGER
  | del key => ConfigDBPipeConnector.append server (.DEL key) REDIS_REPLY_INTEGER
  | sweep table => ConfigDBPipeConnector.deleteTable server (scan table)

end Code

/-! ## What the operations make of the database -/

def Swept (ks : Keyspace) (pattern key : Bytes) : Prop :=
  ∃ name ∈ ks, Glob.globMatch pattern name = true ∧ cStr name = key

def eraseAll (ks : Keyspace) (names : List Bytes) : Keyspace :=
  names.foldl (fun ks name => ks.write name none) ks

theorem getElem?_eraseAll (ks : Keyspace) (names : List Bytes) (key : Bytes) :
    (eraseAll ks names)[key]? = if key ∈ names then none else ks[key]? :=
  OrderedMap.getElem?_foldl_erase names ks key

/-- An operation on a database, with the names that go with a table. A key with a value that
    is no hash is not written. -/
def apply (listed : Keyspace → Bytes → List Bytes) (ks : Keyspace) : Operation → Keyspace
  | put key fvs =>
    match ks.hashAt key with
    | some h => ks.write key (ofHash (h * fvs))
    | none => ks
  | del key => ks.write key none
  | sweep table => eraseAll ks (listed ks table)

open Classical in
/-- What an operation is to a key, if a table goes with these names. -/
noncomputable def event (gone : Bytes → Bytes → Prop) (key : Bytes) : Operation → MapEvent Hash
  | put key' fvs => if key' = key then .put fvs else .other
  | del key' => if key' = key then .clear else .other
  | sweep table => if gone table key then .clear else .other

section Runs

variable (separator : Bytes)

def found (server : RedisServer) (ks : Keyspace) (table : Bytes) : List Bytes :=
  ((server.names ks).filter (Glob.globMatch (cStr (pattern separator table)))).map cStr

def scanned (scan : Bytes → List ScanReply) (table : Bytes) : List Bytes :=
  (scan table).flatMap fun reply => reply.keys.map cStr

/-- A name that is in the database before the call and goes with a table. -/
def Listed (ks : Keyspace) (table key : Bytes) : Prop :=
  Swept ks (cStr (pattern separator table)) key

/-- A name that goes with a table if it is there when its turn comes. -/
def Matched (ks : Keyspace) (table key : Bytes) : Prop :=
  Listed separator ks table key ∨
    ((0 : UInt8) ∉ key ∧ Glob.globMatch (cStr (pattern separator table)) key = true)

variable {separator} {server : RedisServer} {ks : Keyspace} {scan : Bytes → List ScanReply}
  {ops : List Operation}

variable {key table : Bytes}

/-- Only names without NUL are written or deleted, and something is written. -/
def Sound : Operation → Prop
  | put key fvs => (0 : UInt8) ∉ key ∧ fvs ≠ ∅
  | del key => (0 : UInt8) ∉ key
  | sweep _ => True

variable {op : Operation}

/-- An operation that deletes a key in either way of doing it. -/
def Deletes (separator : Bytes) (ks : Keyspace) (op : Operation) (key : Bytes) : Prop :=
  op = .del key ∨ ∃ table, op = .sweep table ∧ Listed separator ks table key

variable {gone : Bytes → Bytes → Prop}

/-- A key that may be written at some point: it holds a hash, or nothing any more. -/
def Fits (separator : Bytes) (ks : Keyspace) (earlier : List Operation) (key : Bytes) : Prop :=
  ks.hashAt key = none → ∃ op ∈ earlier, Deletes separator ks op key

variable {earlier : List Operation}

open Classical in
variable (separator ks) in
/-- The operations before the first that writes to a key it does not fit. -/
noncomputable def carried (earlier : List Operation) : List Operation → List Operation
  | [] => []
  | op :: ops =>
    if ∀ key fvs, op = .put key fvs → Fits separator ks earlier key then
      op :: carried (earlier ++ [op]) ops
    else []

def Ready (ks : Keyspace) (op : Operation) : Prop :=
  ∀ key fvs, op = .put key fvs → ks.hashAt key ≠ none

/-- What is collected for an operation, with the types of the replies. -/
def commands (scan : Bytes → List ScanReply) : Operation → List (RedisCommand × Int)
  | put key fvs => [(.HSET key fvs.toList, REDIS_REPLY_INTEGER)]
  | del key => [(.DEL key, REDIS_REPLY_INTEGER)]
  | sweep table => (scanned scan table).map fun name => (.DEL name, REDIS_REPLY_INTEGER)

open RedisTransactioner

variable {s : RedisTransactioner Connection} {collected : List (RedisCommand × Int)}

/-- What the other connector writes and does not delete is not deleted by the plain one either, or
    is written once more. -/
def Covered (separator : Bytes) (ks : Keyspace) (ops : List Operation) : Prop :=
  ∀ before key fvs after field, ops = before ++ .put key fvs :: after → field ∈ fvs →
    (∀ op ∈ after, ¬ Deletes separator ks op key) →
    ∃ before' fvs' after', ops = before' ++ .put key fvs' :: after' ∧ field ∈ fvs' ∧
      ∀ op ∈ after', ¬ Deletes separator ks op key ∧ ∀ table, op = .sweep table →
        Glob.globMatch (cStr (pattern separator table)) key = false

end Runs

end Operation

open Operation ConfigDBConnector

end SwssCommon
