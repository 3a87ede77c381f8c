import SwssCommon.Redis.Script
import SwssCommon.Table.Names

/-! # The scripts behind ProducerTable and ConsumerTable

A producer pushes three elements for an operation: the key, the fields as a JSON array, and the
operation with a letter that tells a set from a delete. A consumer takes operations from the other
end and, unless told not to, replays them on the hashes of the table.
-/

namespace SwssCommon

open Bytes Redis Script

/-- The producer writes arrays of strings (and throws on invalid UTF-8), the script decodes them. A
    text has no NUL in it. -/
structure JsonArray where
  dump : List Bytes → Option Bytes
  decode : Bytes → Option (List Bytes)
  decode_dump : ∀ {words text}, dump words = some text → decode text = some words
  dump_nulFree : ∀ {words text}, dump words = some text → (0 : UInt8) ∉ text
  /-- An empty object decodes to an empty table. -/
  decode_object : decode (ascii "\x7b\x7d") = some []

/-- Libraries of which one text is known besides the empty object. -/
def JsonArray.only (words : List Bytes) (text : Bytes) (array : text ≠ ascii "\x7b\x7d")
    (nulFree : (0 : UInt8) ∉ text) : JsonArray where
  dump ws := if ws = words then some text else none
  decode value :=
    if value = ascii "\x7b\x7d" then some [] else if value = text then some words else none
  decode_dump {ws value} dumped := by
    by_cases same : ws = words
    · rw [if_pos same] at dumped
      rw [← Option.some.inj dumped, if_neg array, if_pos rfl, same]
    · rw [if_neg same] at dumped
      cases dumped
  dump_nulFree {ws value} dumped := by
    by_cases same : ws = words
    · rw [if_pos same] at dumped
      exact Option.some.inj dumped ▸ nulFree
    · rw [if_neg same] at dumped
      cases dumped
  decode_object := if_pos rfl

structure ProducerTable extends TableBase where
  dbId : Nat

namespace ProducerTable

def luaEnque (KEYS ARGV : List Bytes) : Script Unit := do
  lpush (← argument KEYS 1) [← argument ARGV 1, ← argument ARGV 2, ← argument ARGV 3]
  publish (← argument KEYS 2) (← argument ARGV 4)

variable (p : ProducerTable) (json : JsonArray)

def enqueueDbChange (key value op : Bytes) : Script Unit :=
  evalsha luaEnque
    [ascii "2", cStr p.getKeyValueOpQueueTableName, cStr (p.getChannelName p.dbId), cStr key,
      cStr value, cStr op, ascii "G"]

/-- `none` where the fields have no JSON text and nothing is sent. -/
def set (key : Bytes) (values : List FieldValueTuple) (op : Bytes) : Option (Script Unit) :=
  (json.dump (flatten values)).map fun value => p.enqueueDbChange key value (ascii "S" ++ op)

def del (key op : Bytes) : Script Unit :=
  p.enqueueDbChange key (ascii "\x7b\x7d") (ascii "D" ++ op)

end ProducerTable

structure ConsumerTable extends TableBase where
  POP_BATCH_SIZE : Nat
  modifyRedis : Bool

namespace ConsumerTable

def modifyingOps : List Bytes :=
  [ascii "set", ascii "SET", ascii "create", ascii "remove", ascii "DEL"]

def queryOps : List Bytes :=
  [ascii "flush", ascii "flushresponse", ascii "get", ascii "bulkget", ascii "getresponse",
    ascii "notify", ascii "get_stats", ascii "clear_stats", ascii "attribute_capability_query",
    ascii "attribute_capability_response", ascii "attr_enum_values_capability_query",
    ascii "attr_enum_values_capability_response", ascii "object_type_get_availability_query",
    ascii "object_type_get_availability_response", ascii "stats_capability_query",
    ascii "stats_capability_response", ascii "stats_st_capability_query",
    ascii "stats_st_capability_response", ascii "link_event_damping_config_set"]

def bulkOps : List Bytes :=
  [ascii "bulkset", ascii "bulkcreate", ascii "bulkremove"]

/-- `HSET` of consecutive fields and values. -/
def hsetWords (keyname : Bytes) : List Bytes → Script Unit
  | [] => pure ()
  | [_] => raise .nilArgument
  | field :: value :: rest => do
    let _ ← hset keyname field value
    hsetWords keyname rest

def keyname (tablename key : Bytes) : Bytes :=
  if key = [] then tablename else tablename ++ ascii ":" ++ key

/-! ## Bulk operations -/

/-- `s:sub(1, string.find(s, c) - 1)`, an error if `c` is not in `s`. -/
def before (c : UInt8) (s : Bytes) : Script Bytes :=
  if c ∈ s then pure (s.takeWhile (· ≠ c)) else raise .nilArgument

/-- `s:sub(string.find(s, c) + 1)`, an error if `c` is not in `s`. -/
def after (c : UInt8) (s : Bytes) : Script Bytes :=
  if c ∈ s then pure ((s.dropWhile (· ≠ c)).drop 1) else raise .nilArgument

/-- The matches of `([^|]+)`. -/
def bars (vars : Bytes) : List Bytes :=
  (vars.splitOnP (· = 124)).filter (· ≠ [])

/-- One object of a bulk operation, with its attributes as `a=v|a=v|...`. -/
def bulkObject (removes : Bool) (keyname vars : Bytes) : Script Unit :=
  if removes then do
    let _ ← Script.del keyname
  else
    foldEach (bars vars) () fun value _ => do
      let _ ← hset keyname (← before 61 value) (← after 61 value)

def bulkWords (removes : Bool) (objectKey : Bytes) : List Bytes → Script Unit
  | [] => pure ()
  | [field] =>
    if removes then bulkObject removes (objectKey ++ ascii ":" ++ field) []
    else raise .nilArgument
  | field :: vars :: rest => do
    bulkObject removes (objectKey ++ ascii ":" ++ field) vars
    bulkWords removes objectKey rest

/-! ## Popping -/

def replay (tablename key dbop op : Bytes) (jj : List Bytes) : Script Unit :=
  if op ∈ bulkOps then do
    bulkWords (op = ascii "bulkremove") (tablename ++ ascii ":" ++ (← before 58 key)) jj
  else if op ∈ modifyingOps then
    if dbop = ascii "D" then do
      let _ ← Script.del (keyname tablename key)
    else hsetWords (keyname tablename key) jj
  else if op ∈ queryOps then pure ()
  else raise (.raised (ascii "unsupported operation command: " ++ op ++ ascii ", FIXME"))

/-- The loop of the script. It runs over the elements from the last one back, three
    a round. -/
def popLoop (json : JsonArray) (tablename modify : Bytes) :
    List Bytes → List (List Bytes) → Script (List (List Bytes))
  | [], rets => pure rets
  | key :: value :: op :: rest, rets => do
    let dbop := op.take 1
    let op := op.drop 1
    match json.decode value with
    | none => raise .undecodable
    | some jj => do
      let ret := key :: op :: jj
      if modify = ascii "0" then
        popLoop json tablename modify rest (rets ++ [ret])
      else
        replay tablename key dbop op jj
        popLoop json tablename modify rest (rets ++ [ret])
  | [_], _ => raise .nilArgument
  | [_, _], _ => raise .nilArgument

/-- `consumer_table_pops.lua`. -/
def popScript (json : JsonArray) (KEYS ARGV : List Bytes) : Script (List (List Bytes)) := do
  let popsize : Int := (← toNumber (← argument ARGV 1)) * 3
  let keys ← lrange (← argument KEYS 1) (-popsize) (-1)
  ltrim (← argument KEYS 1) 0 (-popsize - 1)
  popLoop json (← argument KEYS 2) (← argument ARGV 2) keys.reverse []

def readFields : List Bytes → Option (List FieldValueTuple)
  | [] => some []
  | [_] => none
  | field :: value :: rest => ((cStr field, cStr value) :: ·) <$> readFields rest

def readTuple : List Bytes → Option KeyOpFieldsValuesTuple
  | key :: op :: words => (⟨cStr key, cStr op, ·⟩) <$> readFields words
  | _ => none

/-- The command of `pops`, with the default prefix. -/
def popCommand (c : ConsumerTable) (json : JsonArray) : Script (List (List Bytes)) :=
  evalsha (popScript json)
    [ascii "2", cStr c.getKeyValueOpQueueTableName, cStr c.tableName, decimal c.POP_BATCH_SIZE,
      decimal (if c.modifyRedis then 1 else 0)]

def pops (c : ConsumerTable) (json : JsonArray) : Script (List KeyOpFieldsValuesTuple) := do
  let reply ← c.popCommand json
  match reply.mapM readTuple with
  | some vkco => pure vkco
  | none => raise (.raised (ascii "invalid number of elements in returned table"))

end ConsumerTable

end SwssCommon
