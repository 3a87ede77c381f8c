import SwssCommon.Consumer.Machine
import SwssCommon.Redis.Notifications
import SwssCommon.Table.Content

/-! # A table followed by its keyspace events

The constructor subscribes to the events of the table, lists the keys and reads the entries. Then
events are read into a buffer, and popping reads the entry of each. Writers come in between any two
commands.
-/

namespace SwssCommon

open Bytes Redis

structure SubscriberStateTable extends TableBase where
  dbId : Nat
  server : RedisServer

namespace SubscriberStateTable

variable (t : SubscriberStateTable)

def keyspace : Bytes :=
  ascii "__keyspace@" ++ decimal t.dbId ++ ascii "__:" ++ t.tableName ++ t.getTableNameSeparator ++
    ascii "*"

def psubscribeText : Bytes :=
  ascii "PSUBSCRIBE " ++ t.keyspace

/-- What follows the first `c`. -/
def afterFirst (c : UInt8) (s : Bytes) : Option Bytes :=
  (s.findIdx? (· = c)).map fun pos => s.drop (pos + 1)

/-- The key and the operation of an event, `none` if it is passed over. -/
def readEvent (event : Reply) : Option (Bytes × Bytes) :=
  let message := RedisMessage.ofReply event
  if message.type = [] then none
  else if message.pattern ≠ t.keyspace then none
  else do
    let table_entry ← afterFirst 58 message.channel
    let key ← afterFirst t.separator.byte table_entry
    some (key, message.data)

/-- One round of the loop of `pops`: the entry an event becomes, if any. -/
def popEvent (ks : Keyspace) (event : Reply) :
    Except Table.TableError (Option KeyOpFieldsValuesTuple) :=
  match t.readEvent event with
  | none => .ok none
  | some (key, op) =>
    if op = ascii "del" then .ok (some ⟨key, DEL_COMMAND, []⟩)
    else (Table.get t.server t.toTableBase ks key).map
      (·.map fun values => ⟨key, SET_COMMAND, values⟩)

/-! ## The system -/

inductive Phase where
  | unsubscribed
  | subscribed
  /-- Keys that were listed and have still to be read. -/
  | fetching (keys : List Bytes)
  | idle
  /-- The loop of `pops`, called by `pop` or by the user. `pop` lets it fill `m_buffer`,
      which is empty then. -/
  | popping (byPop : Bool) (vkco : List KeyOpFieldsValuesTuple)

structure System where
  database : Keyspace
  patterns : List Bytes
  /-- Messages sent to the connection of the subscription. -/
  unread : List Reply
  keyspaceEventBuffer : List Reply
  buffer : List KeyOpFieldsValuesTuple
  phase : Phase

inductive Event where
  | wrote (command : Command)
  | constructed
  | read
  | took
  | popped (vkco : List KeyOpFieldsValuesTuple)

inductive Step (hiredis : Hiredis) : System → Event → System → Prop where
  | write {sys : System} {command : Command} {database : Keyspace} {events : List Bytes}
      (executed : Executes sys.database command database events) :
      Step hiredis sys (.wrote command) { sys with
        database := database
        unread := sys.unread ++ events.flatMap (pmessages sys.patterns t.dbId command.name) }
  -- a reply to each pattern, of which the constructor reads the first
  | psubscribe {sys : System} {first : Bytes} {more : List Bytes} (new : sys.phase = .unsubscribed)
      (words : hiredis.words t.psubscribeText = ascii "PSUBSCRIBE" :: first :: more) :
      Step hiredis sys .constructed { sys with
        patterns := first :: more
        unread := more.mapIdx fun i p => .array [ascii "psubscribe", p, decimal (i + 2)]
        phase := .subscribed }
  | getKeys {sys : System} {keys : List Bytes} (subscribed : sys.phase = .subscribed)
      (listed : Table.getKeys t.server t.toTableBase sys.database = some keys) :
      Step hiredis sys .constructed { sys with phase := .fetching keys }
  | get {sys : System} {key : Bytes} {keys : List Bytes} {values : Option (List FieldValueTuple)}
      (fetching : sys.phase = .fetching (key :: keys))
      (fetched : Table.get t.server t.toTableBase sys.database key = .ok values) :
      Step hiredis sys .constructed { sys with
        buffer := sys.buffer ++ (values.map fun fvs => ⟨key, SET_COMMAND, fvs⟩).toList
        phase := .fetching keys }
  | built {sys : System} (fetched : sys.phase = .fetching []) :
      Step hiredis sys .constructed { sys with phase := .idle }
  | readData {sys : System} {event : Reply} {more rest : List Reply} (idle : sys.phase = .idle)
      (waiting : sys.unread = event :: more ++ rest) :
      Step hiredis sys .read { sys with
        unread := rest
        keyspaceEventBuffer := sys.keyspaceEventBuffer ++ event :: more }
  | popsBuffer {sys : System} (idle : sys.phase = .idle) (filled : sys.buffer ≠ []) :
      Step hiredis sys (.popped sys.buffer) { sys with buffer := [] }
  | popBuffer {sys : System} {kco : KeyOpFieldsValuesTuple} {rest : List KeyOpFieldsValuesTuple}
      (idle : sys.phase = .idle) (filled : sys.buffer = kco :: rest) :
      Step hiredis sys (.popped [kco]) { sys with buffer := rest }
  | popsStart {sys : System} {byPop : Bool} (idle : sys.phase = .idle) (empty : sys.buffer = []) :
      Step hiredis sys .took { sys with phase := .popping byPop [] }
  | popsEvent {sys : System} {byPop : Bool} {vkco : List KeyOpFieldsValuesTuple} {event : Reply}
      {rest : List Reply} {kco : Option KeyOpFieldsValuesTuple}
      (popping : sys.phase = .popping byPop vkco) (next : sys.keyspaceEventBuffer = event :: rest)
      (became : t.popEvent sys.database event = .ok kco) :
      Step hiredis sys .took { sys with
        keyspaceEventBuffer := rest
        phase := .popping byPop (vkco ++ kco.toList) }
  | popsReturn {sys : System} {vkco : List KeyOpFieldsValuesTuple}
      (popping : sys.phase = .popping false vkco) (done : sys.keyspaceEventBuffer = []) :
      Step hiredis sys (.popped vkco) { sys with phase := .idle }
  | popReturn {sys : System} {vkco : List KeyOpFieldsValuesTuple}
      (popping : sys.phase = .popping true vkco) (done : sys.keyspaceEventBuffer = []) :
      Step hiredis sys (.popped (vkco.take 1)) { sys with buffer := vkco.drop 1, phase := .idle }

def start (database : Keyspace) : System where
  database := database
  patterns := []
  unread := []
  keyspaceEventBuffer := []
  buffer := []
  phase := .unsubscribed

/-! ## Replaying what was popped -/

def replay (table : Bytes → Hash) : List KeyOpFieldsValuesTuple → Bytes → Hash
  | [] => table
  | kco :: kcos => replay (Function.update table kco.kfvKey
      (if kco.kfvOp = SET_COMMAND then Hash.ofFields kco.kfvFieldsValues else ∅)) kcos

def popped : List Event → List KeyOpFieldsValuesTuple
  | [] => []
  | .popped vkco :: ls => vkco ++ popped ls
  | _ :: ls => popped ls

end SubscriberStateTable

end SwssCommon
