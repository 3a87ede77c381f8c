import SwssCommon.Redis.Script
import SwssCommon.Table.Names

/-! # The scripts behind ProducerStateTable and ConsumerStateTable

A producer writes the fields of a key into its pending hash and adds the key to the key set; a
delete also adds it to the delete set. A consumer pops keys and moves their pending hashes into the
main table.
-/

namespace SwssCommon

open Bytes Redis Script

/-- A producer object: its table, the database it writes to and its modes. -/
structure ProducerStateTable extends TableBase where
  dbId : Nat
  buffered : Bool
  flushPub : Bool

namespace ProducerStateTable

/-- Whether the scripts publish. In buffered flush-publish mode the pipeline publishes once per
    flush instead. -/
def publishes (p : ProducerStateTable) : Bool :=
  !p.flushPub || !p.buffered

/-- The tail every script gets unless the pipeline publishes. -/
def luaPub (publishes : Bool) (added : Nat) (KEYS ARGV : List Bytes) : Script Unit :=
  if publishes then
    if added > 0 then do
      publish (← argument KEYS 1) (← argument ARGV 1)
    else pure ()
  else pure ()

def luaSet (publishes : Bool) (KEYS ARGV : List Bytes) : Script Unit := do
  let added ← sadd (← argument KEYS 2) (← argument ARGV 2)
  -- for i = 0, #KEYS - 3
  foldRange 0 (KEYS.length - 2) () fun i _ => do
    let _ ← hset (← argument KEYS (3 + i)) (← argument ARGV (3 + i * 2))
      (← argument ARGV (4 + i * 2))
  luaPub publishes added KEYS ARGV

def luaDel (publishes : Bool) (KEYS ARGV : List Bytes) : Script Unit := do
  let added ← sadd (← argument KEYS 2) (← argument ARGV 2)
  let _ ← sadd (← argument KEYS 4) (← argument ARGV 2)
  let _ ← Script.del (← argument KEYS 3)
  luaPub publishes added KEYS ARGV

def luaBatchedSet (publishes : Bool) (KEYS ARGV : List Bytes) : Script Unit := do
  -- for i = 0, #KEYS - 4, with the local variables (added, idx)
  let (added, _) ← foldRange 0 (KEYS.length - 3) (0, 2) fun i (added, idx) => do
    let more ← sadd (← argument KEYS 2) (← argument KEYS (4 + i))
    let count ← toNumber (← argument ARGV idx)
    foldRange 0 count () fun j _ => do
      let attr ← argument ARGV (idx + j * 2 + 1)
      let val ← argument ARGV (idx + j * 2 + 2)
      let _ ← hset ((← argument KEYS 3) ++ (← argument KEYS (4 + i))) attr val
    pure (added + more, idx + count * 2 + 1)
  luaPub publishes added KEYS ARGV

def luaBatchedDel (publishes : Bool) (KEYS ARGV : List Bytes) : Script Unit := do
  -- for i = 0, #KEYS - 5
  let added ← foldRange 0 (KEYS.length - 4) 0 fun i added => do
    let more ← sadd (← argument KEYS 2) (← argument KEYS (5 + i))
    let _ ← sadd (← argument KEYS 3) (← argument KEYS (5 + i))
    let _ ← Script.del ((← argument KEYS 4) ++ (← argument KEYS (5 + i)))
    pure (added + more)
  luaPub publishes added KEYS ARGV

variable (p : ProducerStateTable)

/-- `set(key, values)` outside a temporary view. -/
def set (key : Bytes) (values : List FieldValueTuple) : Script Unit :=
  evalsha (luaSet p.publishes) <|
    [decimal (values.length + 2), p.getChannelName p.dbId, p.getKeySetName] ++
    List.replicate values.length (p.getStateHashPrefix ++ p.getKeyName key) ++
    [ascii "G", key] ++ flatten values

def del (key : Bytes) : Script Unit :=
  evalsha (luaDel p.publishes) <|
    [ascii "4", p.getChannelName p.dbId, p.getKeySetName, p.getStateHashPrefix ++ p.getKeyName key,
      p.getDelKeySetName, ascii "G", key, ascii "''", ascii "''"]

/-- `set` of a vector: one script for all its entries. -/
def batchedSet (values : List KeyOpFieldsValuesTuple) : Script Unit :=
  evalsha (luaBatchedSet p.publishes) <|
    [decimal (values.length + 3), p.getChannelName p.dbId, p.getKeySetName,
      p.getStateHashPrefix ++ p.tableName ++ p.getTableNameSeparator] ++
    values.map (·.kfvKey) ++ [ascii "G"] ++
    values.flatMap fun value =>
      decimal value.kfvFieldsValues.length :: flatten value.kfvFieldsValues

/-- `del` of a vector. -/
def batchedDel (keys : List Bytes) : Script Unit :=
  evalsha (luaBatchedDel p.publishes) <|
    [decimal (keys.length + 4), p.getChannelName p.dbId, p.getKeySetName, p.getDelKeySetName,
      p.getStateHashPrefix ++ p.tableName ++ p.getTableNameSeparator] ++
    keys ++ [ascii "G"]

end ProducerStateTable

structure ConsumerStateTable extends TableBase where
  POP_BATCH_SIZE : Nat

namespace ConsumerStateTable

/-- The loop body of the pop script: move one key, and reply with its new fields. -/
def popKey (tablename stateprefix delset key : Bytes) : Script (List FieldValueTuple) := do
  -- Check if there was request to delete the key, clear it in table first
  let num ← srem delset key
  let _ ← (if num = 1 then Script.del (tablename ++ key) else pure 0 : Script Nat)
  -- Push the new set of field/value for this key in table
  let fieldvalues ← hgetall <| stateprefix ++ tablename ++ key
  foldEach fieldvalues () fun fv _ => do
    let _ ← hset (tablename ++ key) fv.1 fv.2
  -- Clean up the key in temporary state table
  let _ ← Script.del <| stateprefix ++ tablename ++ key
  pure fieldvalues

/-- `consumer_state_table_pops.lua`: the popped keys with their new fields. -/
def popScript (choice : SpopChoice) (KEYS ARGV : List Bytes) :
    Script (List (Bytes × List FieldValueTuple)) := do
  let tablename ← argument KEYS 2
  let stateprefix ← argument ARGV 2
  let keys ← spop choice (← argument KEYS 1) (← toNumber (← argument ARGV 1))
  foldEach keys [] fun key ret => do
    let fieldvalues ← popKey tablename stateprefix (← argument KEYS 3) key
    pure (ret ++ [(key, fieldvalues)])

/-- One popped entry as handed to the caller: without fields it is a delete. -/
def toTuple (entry : Bytes × List FieldValueTuple) : KeyOpFieldsValuesTuple where
  kfvKey := entry.1
  kfvOp := if entry.2 = [] then DEL_COMMAND else SET_COMMAND
  kfvFieldsValues := entry.2

/-- `pops`. The command is formatted from C strings. -/
def pops (c : ConsumerStateTable) (choice : SpopChoice) : Script (List KeyOpFieldsValuesTuple) := do
  let reply ← evalsha (popScript choice)
    [ascii "3", cStr c.getKeySetName, cStr c.tableName ++ cStr c.getTableNameSeparator,
      cStr c.getDelKeySetName, decimal c.POP_BATCH_SIZE, cStr c.getStateHashPrefix]
  pure (reply.map toTuple)

end ConsumerStateTable

end SwssCommon
