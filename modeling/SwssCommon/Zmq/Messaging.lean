import SwssCommon.Lib.OrderedMap
import SwssCommon.Zmq.RoundTrip

/-! # Producers, consumers and what is between them

A producer serializes its records into the buffer of its client, which tries while ZMQ is busy. The
server decodes a message and looks its table up in the registry of handlers, which are consumers
that queue the records.
-/

namespace SwssCommon

open Bytes BinarySerializer Std.ExtTreeMap

def MQ_RESPONSE_MAX_COUNT : Nat :=
  16 * 1024 * 1024

def MQ_MAX_RETRY : Nat :=
  10

/-! ## Client -/

/-- The outcome of one `zmq_send`. -/
inductive ZmqSend where
  | sent
  | eintr
  | efsm
  | eagain
  | eterm
  | failed
  deriving DecidableEq

inductive ZmqError where
  | connectionReset
  | ioError
  /-- The last attempt failed as well. -/
  | retriesExhausted
  deriving DecidableEq

inductive ClientError where
  | serializer (e : SerializerError)
  | tooBig (serializedlen : Nat)
  | zmq (e : ZmqError)
  deriving DecidableEq

structure ZmqClient where
  sendbuffer : Bytes
  resized : sendbuffer.length = MQ_RESPONSE_MAX_COUNT

namespace ZmqClient

/-- The retry loop, with the attempts left and the number of the next one. -/
def sendLoop (zmqSend : Nat → ZmqSend) : Nat → Nat → Except ZmqError Unit
  | 0, _ => .error .retriesExhausted
  | left + 1, i =>
    match zmqSend i with
    | .sent => .ok ()
    | .eintr | .efsm | .eagain => sendLoop zmqSend left (i + 1)
    | .eterm => .error .connectionReset
    | .failed => .error .ioError

def sendMsg (c : ZmqClient) (zmqSend : Nat → ZmqSend) (dbName tableName : Bytes)
    (kcos : List KeyOpFieldsValuesTuple) : Except ClientError Bytes :=
  match serializeBuffer c.sendbuffer dbName tableName kcos with
  | .error e => .error (.serializer e)
  | .ok (serializedlen, sendbuffer) =>
    if serializedlen ≥ MQ_RESPONSE_MAX_COUNT then .error (.tooBig serializedlen)
    else match sendLoop zmqSend (MQ_MAX_RETRY + 1) 0 with
      | .error e => .error (.zmq e)
      | .ok () => .ok (sendbuffer.take serializedlen)

variable {c : ZmqClient} {zmqSend : Nat → ZmqSend} {dbName tableName bytes : Bytes}
  {kcos : List KeyOpFieldsValuesTuple}

theorem sendMsg_eq (c : ZmqClient) (zmqSend : Nat → ZmqSend)
    (inMemory : footprint dbName tableName kcos < 2 ^ 64) :
    if serializedSize dbName tableName kcos < MQ_RESPONSE_MAX_COUNT then
      c.sendMsg zmqSend dbName tableName kcos =
        match sendLoop zmqSend (MQ_MAX_RETRY + 1) 0 with
        | .error e => .error (.zmq e)
        | .ok () => .ok (messageBytes dbName tableName kcos)
    else ∃ e, c.sendMsg zmqSend dbName tableName kcos = .error e := by
  have small := (messageBytes_le_footprint dbName tableName kcos).trans_lt inMemory
  have room : word ≤ c.sendbuffer.length := by rw [c.resized]; decide
  have spec := serializeBuffer_spec room small
  rw [serializedSize_eq_length small, sendMsg]
  by_cases fits : (messageBytes dbName tableName kcos).length < MQ_RESPONSE_MAX_COUNT
  · rw [if_pos (by rw [c.resized]; omega)] at spec
    rw [if_pos fits, spec]
    simp only [if_neg (show ¬ (messageBytes dbName tableName kcos).length ≥ MQ_RESPONSE_MAX_COUNT
      by omega)]
    simp [overwrite]
  · rw [if_neg fits]
    split at spec
    · rw [spec]
      exact ⟨_, if_pos (by omega)⟩
    · obtain ⟨e, failed⟩ := spec
      rw [failed]
      exact ⟨_, rfl⟩

theorem sendMsg_sent (inMemory : footprint dbName tableName kcos < 2 ^ 64)
    (sent : c.sendMsg zmqSend dbName tableName kcos = .ok bytes) :
    serializedSize dbName tableName kcos < MQ_RESPONSE_MAX_COUNT ∧
      bytes = messageBytes dbName tableName kcos := by
  have spec := sendMsg_eq c zmqSend inMemory
  split at spec
  · next fits =>
      refine ⟨fits, ?_⟩
      rw [sent] at spec
      split at spec
      · cases spec
      · cases spec
        rfl
  · obtain ⟨e, failed⟩ := spec
    rw [sent] at failed
    cases failed

end ZmqClient

/-! ## Producer -/

structure ZmqProducerStateTable where
  dbName : Bytes
  tableNameStr : Bytes

namespace ZmqProducerStateTable

variable (p : ZmqProducerStateTable) (c : ZmqClient) (zmqSend : Nat → ZmqSend)

def set (key : Bytes) (values : List FieldValueTuple) (op : Bytes) : Except ClientError Bytes :=
  c.sendMsg zmqSend p.dbName p.tableNameStr [⟨key, op, values⟩]

def del (key op : Bytes) : Except ClientError Bytes :=
  c.sendMsg zmqSend p.dbName p.tableNameStr [⟨key, op, []⟩]

def batchedSet (values : List KeyOpFieldsValuesTuple) : Except ClientError Bytes :=
  c.sendMsg zmqSend p.dbName p.tableNameStr values

def batchedDel (keys : List Bytes) : Except ClientError Bytes :=
  c.sendMsg zmqSend p.dbName p.tableNameStr (keys.map fun key => ⟨key, DEL_COMMAND, []⟩)

def send (kcos : List KeyOpFieldsValuesTuple) : Except ClientError Bytes :=
  c.sendMsg zmqSend p.dbName p.tableNameStr kcos

inductive Call where
  | set (key : Bytes) (values : List FieldValueTuple) (op : Bytes)
  | del (key op : Bytes)
  | batchedSet (values : List KeyOpFieldsValuesTuple)
  | batchedDel (keys : List Bytes)
  | send (kcos : List KeyOpFieldsValuesTuple)

def Call.kcos : Call → List KeyOpFieldsValuesTuple
  | .set key values op => [⟨key, op, values⟩]
  | .del key op => [⟨key, op, []⟩]
  | .batchedSet values => values
  | .batchedDel keys => keys.map fun key => ⟨key, DEL_COMMAND, []⟩
  | .send kcos => kcos

def run : Call → Except ClientError Bytes
  | .set key values op => p.set c zmqSend key values op
  | .del key op => p.del c zmqSend key op
  | .batchedSet values => p.batchedSet c zmqSend values
  | .batchedDel keys => p.batchedDel c zmqSend keys
  | .send kcos => p.send c zmqSend kcos

theorem run_eq (call : Call) :
    p.run c zmqSend call = c.sendMsg zmqSend p.dbName p.tableNameStr call.kcos := by
  cases call <;> rfl

end ZmqProducerStateTable

/-! ## Registry -/

structure ZmqHandlerRegistry (ι : Type) where
  handlers : Std.ExtTreeMap Bytes (Std.ExtTreeMap Bytes ι compare) compare

namespace ZmqHandlerRegistry

variable {ι : Type}

def empty : ZmqHandlerRegistry ι :=
  ⟨∅⟩

def tables (r : ZmqHandlerRegistry ι) (dbName : Bytes) : Std.ExtTreeMap Bytes ι compare :=
  (r.handlers[dbName]?).getD ∅

def registerHandler (r : ZmqHandlerRegistry ι) (dbName tableName : Bytes) (handler : ι) :
    ZmqHandlerRegistry ι :=
  ⟨r.handlers.insert dbName ((r.tables dbName).insertIfNew tableName handler)⟩

def removeHandler (r : ZmqHandlerRegistry ι) (dbName tableName : Bytes) : ZmqHandlerRegistry ι :=
  match r.handlers[dbName]? with
  | none => r
  | some tables =>
    let tables := tables.erase tableName
    if tables.isEmpty then ⟨r.handlers.erase dbName⟩ else ⟨r.handlers.insert dbName tables⟩

/-- The handler that `dispatch` calls. -/
def find (r : ZmqHandlerRegistry ι) (dbName tableName : Bytes) : Option ι :=
  (r.tables dbName)[tableName]?

@[simp]
theorem find_empty (dbName tableName : Bytes) :
    (empty : ZmqHandlerRegistry ι).find dbName tableName = none := by
  simp [find, tables, empty]

theorem tables_registerHandler (r : ZmqHandlerRegistry ι) (dbName tableName : Bytes) (handler : ι)
    (dbName' : Bytes) :
    (r.registerHandler dbName tableName handler).tables dbName' =
      if dbName' = dbName then (r.tables dbName).insertIfNew tableName handler
      else r.tables dbName' := by
  unfold registerHandler tables
  rw [getElem?_insert]
  by_cases same : dbName' = dbName
  · simp [same]
  · have other : ¬ dbName = dbName' := fun same' => same same'.symm
    simp [same, other]

theorem find_registerHandler (r : ZmqHandlerRegistry ι) (dbName tableName : Bytes) (handler : ι)
    (dbName' tableName' : Bytes) :
    (r.registerHandler dbName tableName handler).find dbName' tableName' =
      if dbName' = dbName ∧ tableName' = tableName then
        some ((r.find dbName tableName).getD handler)
      else r.find dbName' tableName' := by
  unfold find
  rw [tables_registerHandler]
  by_cases sameDb : dbName' = dbName
  · subst sameDb
    rw [if_pos rfl, getElem?_insertIfNew]
    by_cases sameTable : tableName' = tableName
    · subst sameTable
      cases present : (r.tables dbName')[tableName']? with
      | none | some other => simp [OrderedMap.mem_iff_getElem?_ne_none, present]
    · have other : ¬ tableName = tableName' := fun same => sameTable same.symm
      simp [sameTable, other]
  · simp [sameDb]

theorem tables_removeHandler (r : ZmqHandlerRegistry ι) (dbName tableName dbName' : Bytes) :
    (r.removeHandler dbName tableName).tables dbName' =
      if dbName' = dbName then (r.tables dbName).erase tableName else r.tables dbName' := by
  unfold removeHandler
  cases found : r.handlers[dbName]? with
  | none =>
    by_cases same : dbName' = dbName
    · simp [tables, same, found]
    · simp [same]
  | some inner =>
    by_cases empty : (inner.erase tableName).isEmpty
    · have gone := isEmpty_iff.mp empty
      by_cases same : dbName' = dbName
      · simp [tables, same, found, gone]
      · have other : ¬ dbName = dbName' := fun same' => same same'.symm
        simp [tables, same, other, empty, getElem?_erase]
    · by_cases same : dbName' = dbName
      · simp [tables, same, found, empty]
      · have other : ¬ dbName = dbName' := fun same' => same same'.symm
        simp [tables, same, other, empty, getElem?_insert]

theorem find_removeHandler (r : ZmqHandlerRegistry ι)
    (dbName tableName dbName' tableName' : Bytes) :
    (r.removeHandler dbName tableName).find dbName' tableName' =
      if dbName' = dbName ∧ tableName' = tableName then none else r.find dbName' tableName' := by
  unfold find
  rw [tables_removeHandler]
  by_cases sameDb : dbName' = dbName
  · subst sameDb
    by_cases sameTable : tableName' = tableName
    · simp [sameTable]
    · have other : ¬ tableName = tableName' := fun same => sameTable same.symm
      simp [sameTable, other, getElem?_erase]
  · simp [sameDb]

def Populated (r : ZmqHandlerRegistry ι) : Prop :=
  ∀ (dbName : Bytes) tables, r.handlers[dbName]? = some tables → tables ≠ ∅

theorem populated_empty : (empty : ZmqHandlerRegistry ι).Populated := by
  intro dbName tables found
  simp [empty] at found

theorem Populated.registerHandler {r : ZmqHandlerRegistry ι} (h : r.Populated)
    (dbName tableName : Bytes) (handler : ι) :
    (r.registerHandler dbName tableName handler).Populated := by
  intro dbName' tables found
  unfold ZmqHandlerRegistry.registerHandler at found
  rw [getElem?_insert] at found
  split at found
  · obtain rfl := Option.some.inj found
    intro empty
    simpa using congrArg (tableName ∈ ·) empty
  · exact h dbName' tables found

theorem Populated.removeHandler {r : ZmqHandlerRegistry ι} (h : r.Populated)
    (dbName tableName : Bytes) : (r.removeHandler dbName tableName).Populated := by
  unfold ZmqHandlerRegistry.removeHandler
  cases inner : r.handlers[dbName]? with
  | none => exact h
  | some old =>
    dsimp only
    split
    · intro dbName' tables found
      rw [getElem?_erase] at found
      split at found
      · cases found
      · exact h dbName' tables found
    · rename_i nonempty
      intro dbName' tables found
      rw [getElem?_insert] at found
      split at found
      · obtain rfl := Option.some.inj found
        exact fun empty => nonempty (isEmpty_iff.mpr empty)
      · exact h dbName' tables found

end ZmqHandlerRegistry

/-! ## Consumer -/

structure ZmqConsumerStateTable where
  dbName : Bytes
  tableName : Bytes
  popBatchSize : Nat
  positive : 0 < popBatchSize

namespace ZmqConsumerStateTable

def DEFAULT_POP_BATCH_SIZE : Nat :=
  128

/-- The constructor replaces a batch size that is not positive. -/
def make (dbName tableName : Bytes) (popBatchSize : Int) : ZmqConsumerStateTable where
  dbName := dbName
  tableName := tableName
  popBatchSize := if popBatchSize > 0 then popBatchSize.toNat else DEFAULT_POP_BATCH_SIZE
  positive := by
    split
    · omega
    · decide

def registered {ι : Type} (consumer : ι → ZmqConsumerStateTable) (order : List ι) :
    ZmqHandlerRegistry ι :=
  order.foldl (fun r i => r.registerHandler (consumer i).dbName (consumer i).tableName i) .empty

theorem find_registered {ι} (consumer : ι → ZmqConsumerStateTable) (order : List ι)
    (dbName tableName : Bytes) :
    (registered consumer order).find dbName tableName = order.find? fun i =>
      dbName = (consumer i).dbName ∧ tableName = (consumer i).tableName := by
  -- over any registry: what it already has comes first
  have general : ∀ r : ZmqHandlerRegistry ι,
      (order.foldl (fun r i => r.registerHandler (consumer i).dbName (consumer i).tableName i)
        r).find dbName tableName = (r.find dbName tableName).or (order.find? fun i =>
          dbName = (consumer i).dbName ∧ tableName = (consumer i).tableName) := by
    induction order with
    | nil => simp
    | cons i order ih =>
      intro r
      rw [List.foldl_cons, ih, ZmqHandlerRegistry.find_registerHandler]
      by_cases here : dbName = (consumer i).dbName ∧ tableName = (consumer i).tableName
      · obtain ⟨rfl, rfl⟩ := here
        cases r.find (consumer i).dbName (consumer i).tableName <;> simp
      · simp [here]
  simpa [registered] using general .empty

end ZmqConsumerStateTable

end SwssCommon
