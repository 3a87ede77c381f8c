import SwssCommon.Lib.Glob
import SwssCommon.Lib.Throwing
import SwssCommon.Redis.Keyspace
import SwssCommon.Redis.Reply

/-! # Commands of a DBConnector

An argument formatted with `%s` ends at its first NUL, one of a vector of strings does not. A string
in a reply is read as a C string. In which order a server lists fields or names is up to the server.
-/

namespace SwssCommon

open Bytes Redis Throwing List Value

/-- The orders in which a server lists things, and how a command is quoted in errors. -/
structure RedisServer where
  fields : Hash → List (Bytes × Bytes)
  fields_perm : ∀ h, (fields h).Perm h.toList
  names : Keyspace → List Bytes
  names_perm : ∀ ks, (names ks).Perm ks.keys
  toPrintableString : List Bytes → Bytes

/-- A server that lists in the order of the names and quotes the first word. -/
def RedisServer.sorted : RedisServer where
  fields h := h.toList
  fields_perm _ := .refl _
  names ks := ks.keys
  names_perm _ := .refl _
  toPrintableString argv := argv.headD []

namespace RedisServer

variable (server : RedisServer)

theorem mem_fields {h f v} : (f, v) ∈ server.fields h ↔ h[f]? = some v := by
  rw [(server.fields_perm h).mem_iff, Std.ExtTreeMap.mem_toList_iff_getElem?_eq_some]

theorem fields_eq_nil_iff {h} : server.fields h = [] ↔ h = ∅ := by
  rw [← Std.ExtTreeMap.toList_eq_nil_iff, ← length_eq_zero_iff,
    (server.fields_perm h).length_eq, length_eq_zero_iff]

theorem mem_names {ks k} : k ∈ server.names ks ↔ k ∈ ks := by
  rw [(server.names_perm ks).mem_iff, Std.ExtTreeMap.mem_keys]

theorem nodup_names (ks : Keyspace) : (server.names ks).Nodup :=
  (server.names_perm ks).nodup_iff.mpr ks.nodup_keys

theorem ofFields_fields (h : Hash) : Hash.ofFields (server.fields h) = h :=
  Hash.ofFields_of_perm (server.fields_perm h)

theorem lookup_fields (h : Hash) (f : Bytes) : (server.fields h).lookup f = h[f]? :=
  OrderedMap.lookup_of_entries fun _ => server.mem_fields

end RedisServer

inductive RedisCommand where
  | HGET (key field : Bytes)
  | HGETALL (key : Bytes)
  | HSET (key : Bytes) (values : List (Bytes × Bytes))
  | HDEL (key field : Bytes)
  | DEL (key : Bytes)
  | KEYS (pattern : Bytes)

namespace RedisCommand

def argv : RedisCommand → List Bytes
  | HGET key field => [ascii "HGET", key, field]
  | HGETALL key => [ascii "HGETALL", key]
  | HSET key values => ascii "HSET" :: key :: values.flatMap fun fv => [fv.1, fv.2]
  | HDEL key field => [ascii "HDEL", key, field]
  | DEL key => [ascii "DEL", key]
  | KEYS pattern => [ascii "KEYS", pattern]

def WRONGTYPE : RedisReply :=
  .error (ascii "WRONGTYPE Operation against a key holding the wrong kind of value")

def onHash (ks : Keyspace) (key : Bytes) (act : Hash → RedisReply × Keyspace) :
    RedisReply × Keyspace :=
  match ks.hashAt key with
  | none => (WRONGTYPE, ks)
  | some h => act h

/-- What the server answers to a command and makes of the database. -/
def execute (server : RedisServer) (ks : Keyspace) : RedisCommand → RedisReply × Keyspace
  | HGET key field => onHash ks key fun h => (h[field]?.elim .nil .string, ks)
  | HGETALL key => onHash ks key fun h =>
    (.array ((server.fields h).flatMap fun fv => [.string fv.1, .string fv.2]), ks)
  | HSET key values => onHash ks key fun h =>
    (.integer ((h * Hash.ofFields values).size - h.size : Nat),
      ks.write key (ofHash (h * Hash.ofFields values)))
  | HDEL key field => onHash ks key fun h =>
    (.integer (if field ∈ h then 1 else 0), ks.write key (ofHash (h.erase field)))
  | DEL key => (.integer (if key ∈ ks then 1 else 0), ks.write key none)
  | KEYS pattern =>
    (.array (((server.names ks).filter (Glob.globMatch pattern)).map .string), ks)

end RedisCommand

/-- A reply to `SCAN`: where to go on, and some names. -/
structure ScanReply where
  cursor : Nat
  keys : List Bytes

/-- The replies to a scan of a database that does not change. The cursor 0 is the end. A
    name may come more than once. -/
structure Scans (ks : Keyspace) (pattern : Bytes) (replies : List ScanReply) : Prop where
  ends : ∃ before last, replies = before ++ [last] ∧ last.cursor = 0 ∧
    ∀ reply ∈ before, 0 < reply.cursor ∧ reply.cursor < 2 ^ 31
  keys : ∀ k, (∃ reply ∈ replies, k ∈ reply.keys) ↔ k ∈ ks ∧ Glob.globMatch pattern k = true

namespace DBConnector

inductive Failure where
  | system (e : SystemError)
  | runtime (what : Bytes)
  | invalidArgument (what : Bytes)
  /-- Waiting for a reply. -/
  | blocked
  /-- A null pointer is followed. -/
  | nullPointer
  deriving DecidableEq

abbrev M := EStateM Failure Keyspace

def pairs : List RedisReply → List (Bytes × Bytes)
  | field :: value :: rest => (cStr field.str, cStr value.str) :: pairs rest
  | _ => []

def elements : RedisReply → List RedisReply
  | .array element => element
  | _ => []

section Calls

variable (server : RedisServer)

def check (command : RedisCommand) (result : Except SystemError Unit) : M Unit :=
  match RedisReply.guard result (server.toPrintableString command.argv) with
  | .ok () => pure ()
  | .error e => throw (.system e)

/-- `RedisReply(ctx, command)`. -/
def request (command : RedisCommand) : M RedisReply := do
  let r ← modifyGet fun ks => command.execute server ks
  check server command r.checkReply
  pure r

/-- `RedisReply(ctx, command, expectedType)`. -/
def requestOf (command : RedisCommand) (expectedType : Int) : M RedisReply := do
  let r ← request server command
  check server command (r.checkReplyType expectedType)
  pure r

def hget (key field : Bytes) : M (Option Bytes) := do
  match ← request server (.HGET (cStr key) (cStr field)) with
  | .nil => pure none
  | .string str => pure (some (cStr str))
  | _ => throw (.runtime (ascii "HGET failed, unexpected reply type, memory exception"))

/-- `hgetall(key, result)`: what is written to `result`, in order. -/
def hgetall (key : Bytes) : M (List (Bytes × Bytes)) := do
  let r ← requestOf server (.HGETALL (cStr key)) REDIS_REPLY_ARRAY
  pure (pairs (elements r))

/-- `hgetall<ReturnType>(key)`, with a map to return. -/
def hgetallMap (key : Bytes) : M Hash := do
  pure (OrderedMap.insertNew ∅ (← hgetall server key))

def hmset (key : Bytes) (values : List (Bytes × Bytes)) : M Unit := do
  if values = [] then throw (.invalidArgument (ascii "empty values"))
  else
    let _ ← requestOf server (.HSET (cStr key) values) REDIS_REPLY_INTEGER

def hdel (key field : Bytes) : M Unit := do
  let _ ← requestOf server (.HDEL (cStr key) (cStr field)) REDIS_REPLY_INTEGER

def del (key : Bytes) : M Unit := do
  let _ ← requestOf server (.DEL (cStr key)) REDIS_REPLY_INTEGER

def keys (key : Bytes) : M (List Bytes) := do
  let r ← requestOf server (.KEYS (cStr key)) REDIS_REPLY_ARRAY
  pure ((elements r).map fun element => cStr element.str)

/-- `scan`, for the reply of the server. -/
def scan (reply : ScanReply) : M (Int × List Bytes) :=
  match stoi (decimal reply.cursor) with
  | .ok cursor => pure (cursor, reply.keys.map cStr)
  | .error _ => throw (.system
      ⟨ascii "Invalid cursor string returned by scan: " ++ decimal reply.cursor⟩)

end Calls

/-! ## What the calls come to -/

variable {server : RedisServer} {ks : Keyspace} {key : Bytes} {h : Hash}

variable {command : RedisCommand}

theorem check_ok {result} (passed : result = .ok ()) :
    check server command result ks = .ok () ks := by
  unfold check
  rw [RedisReply.guard_eq_ok.mpr passed]
  rfl

theorem answered {r ks'} (executed : command.execute server ks = (r, ks')) :
    (modifyGet fun ks => command.execute server ks : M RedisReply) ks = .ok r ks' := by
  change (match command.execute server ks with | (r, ks') => EStateM.Result.ok r ks') = _
  rw [executed]

theorem request_ok {r ks'}
    (executed : command.execute server ks = (r, ks')) (passed : r.checkReply = .ok ()) :
    request server command ks = .ok r ks' := by
  unfold request
  rw [bind_ok (answered executed), bind_ok (check_ok passed)]
  rfl

theorem requestOf_ok {expectedType r ks'}
    (executed : command.execute server ks = (r, ks')) (meets : r.Meets expectedType) :
    requestOf server command expectedType ks = .ok r ks' := by
  unfold requestOf
  rw [bind_ok (request_ok executed meets.1), bind_ok (check_ok meets.2)]
  rfl

/-- The error of a command on a key that holds something else. -/
def wrongType (server : RedisServer) (command : RedisCommand) : Failure :=
  .system ⟨ascii "RedisReply catches system_error: command: " ++
    server.toPrintableString command.argv ++ ascii ", reason: " ++
    SystemError.what ⟨cStr RedisCommand.WRONGTYPE.str⟩⟩

theorem request_wrongType (executed : command.execute server ks = (RedisCommand.WRONGTYPE, ks)) :
    request server command ks = .error (wrongType server command) ks := by
  unfold request
  rw [bind_ok (answered executed)]
  rfl

theorem onHash_some {act} (found : ks.hashAt key = some h) :
    RedisCommand.onHash ks key act = act h := by
  unfold RedisCommand.onHash
  rw [found]

theorem onHash_none {act} (other : ks.hashAt key = none) :
    RedisCommand.onHash ks key act = (RedisCommand.WRONGTYPE, ks) := by
  unfold RedisCommand.onHash
  rw [other]

theorem hget_eq (found : ks.hashAt (cStr key) = some h) (field : Bytes) :
    hget server key field ks = .ok (h[cStr field]?.map cStr) ks := by
  have executed : (RedisCommand.HGET (cStr key) (cStr field)).execute server ks =
      (h[cStr field]?.elim .nil .string, ks) := onHash_some found
  unfold hget
  cases stored : h[cStr field]? with
  | none | some v =>
    rw [stored] at executed
    rw [bind_ok (request_ok executed rfl)]
    rfl

theorem pairs_flatMap (fvs : List (Bytes × Bytes)) :
    pairs (fvs.flatMap fun fv => [.string fv.1, .string fv.2]) =
      fvs.map fun fv => (cStr fv.1, cStr fv.2) := by
  induction fvs with
  | nil => rfl
  | cons fv fvs ih =>
    rw [map_cons, ← ih]
    rfl

theorem hgetall_eq (found : ks.hashAt (cStr key) = some h) :
    hgetall server key ks =
      .ok ((server.fields h).map fun fv => (cStr fv.1, cStr fv.2)) ks := by
  have executed : (RedisCommand.HGETALL (cStr key)).execute server ks =
      (.array ((server.fields h).flatMap fun fv => [.string fv.1, .string fv.2]), ks) :=
    onHash_some found
  unfold hgetall
  rw [bind_ok (requestOf_ok executed ⟨rfl, rfl⟩), ← pairs_flatMap]
  rfl

theorem hgetallMap_eq (found : ks.hashAt (cStr key) = some h) :
    hgetallMap server key ks =
      .ok (OrderedMap.insertNew ∅ ((server.fields h).map fun fv => (cStr fv.1, cStr fv.2))) ks := by
  unfold hgetallMap
  rw [bind_ok (hgetall_eq found)]
  rfl

theorem hgetallMap_wrongType (other : ks.hashAt (cStr key) = none) :
    hgetallMap server key ks = .error (wrongType server (.HGETALL (cStr key))) ks := by
  have executed : (RedisCommand.HGETALL (cStr key)).execute server ks =
      (RedisCommand.WRONGTYPE, ks) := onHash_none other
  unfold hgetallMap hgetall requestOf
  rw [bind_error (bind_error (bind_error (request_wrongType executed)))]

theorem hmset_eq {values} (nonempty : values ≠ [])
    (found : ks.hashAt (cStr key) = some h) :
    hmset server key values ks =
      .ok () (ks.write (cStr key) (ofHash (h * Hash.ofFields values))) := by
  have executed : (RedisCommand.HSET (cStr key) values).execute server ks =
      (_, ks.write (cStr key) (ofHash (h * Hash.ofFields values))) := onHash_some found
  unfold hmset
  rw [if_neg nonempty, bind_ok (requestOf_ok executed ⟨rfl, rfl⟩)]
  rfl

theorem hdel_eq (found : ks.hashAt (cStr key) = some h) (field : Bytes) :
    hdel server key field ks =
      .ok () (ks.write (cStr key) (ofHash (h.erase (cStr field)))) := by
  have executed : (RedisCommand.HDEL (cStr key) (cStr field)).execute server ks =
      (_, ks.write (cStr key) (ofHash (h.erase (cStr field)))) := onHash_some found
  unfold hdel
  rw [bind_ok (requestOf_ok executed ⟨rfl, rfl⟩)]
  rfl

theorem keys_eq (pattern : Bytes) (ks : Keyspace) :
    keys server pattern ks =
      .ok (((server.names ks).filter (Glob.globMatch (cStr pattern))).map cStr) ks := by
  change EStateM.Result.ok (map _ (map _ _)) ks = _
  rw [map_map]
  rfl

theorem scan_eq {reply} (small : reply.cursor < 2 ^ 31) (ks : Keyspace) :
    scan reply ks = .ok ((reply.cursor : Int), reply.keys.map cStr) ks := by
  unfold scan
  rw [stoi_decimal (by unfold INT_MAX; omega)]
  rfl

def Blank (key : Bytes) : Prop :=
  (32 : UInt8) ∈ key ∨ (9 : UInt8) ∈ key

instance (key : Bytes) : Decidable (Blank key) :=
  inferInstanceAs (Decidable (_ ∨ _))

def invalidKey : Failure :=
  .runtime (ascii "EXISTS failed, invalid space or tab in single key")

/-- `exists`. There is no error reply to `EXISTS`. -/
def existsKey (key : Bytes) : M Bool :=
  if Blank key then throw invalidKey else do pure (decide (cStr key ∈ (← get)))

def hset (server : RedisServer) (key field value : Bytes) : M Unit := do
  let _ ← requestOf server (.HSET (cStr key) [(cStr field, cStr value)]) REDIS_REPLY_INTEGER

theorem hset_eq (found : ks.hashAt (cStr key) = some h) (field value : Bytes) :
    hset server key field value ks =
      .ok () (ks.write (cStr key) (ofHash (h * Hash.ofFields [(cStr field, cStr value)]))) := by
  have executed : (RedisCommand.HSET (cStr key) [(cStr field, cStr value)]).execute server ks =
      (_, ks.write (cStr key) (ofHash (h * Hash.ofFields [(cStr field, cStr value)]))) :=
    onHash_some found
  unfold hset
  rw [bind_ok (requestOf_ok executed ⟨rfl, rfl⟩)]
  rfl

end DBConnector

def query {α : Type} (db : Keyspace) (call : DBConnector.M α) : Except DBConnector.Failure α :=
  match call db with
  | .ok a _ => .ok a
  | .error e _ => .error e

end SwssCommon
