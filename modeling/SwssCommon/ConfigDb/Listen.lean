import SwssCommon.ConfigDb.Typed
import SwssCommon.Lib.Run
import SwssCommon.Redis.Notifications

/-! # Listening to the configuration

`listen` subscribes to the events of the database, reads the tables that have handlers and calls
these. Then it calls the handler of a table for each event, with the entry as it is by then, unless
a cache of the first reads shows that nothing is new. Writers come in between any two commands.
-/

namespace SwssCommon

open Bytes Redis Throwing DBConnector

namespace ConfigDBConnector

variable (server : RedisServer) (separator : Bytes)

/-- One round of the loop of `get_table`. -/
def readRow (data : Std.ExtTreeMap Bytes Hash compare) (key : Bytes) :
    M (Std.ExtTreeMap Bytes Hash compare) := do
  let entry ← hgetallMap server key
  match splitKey separator key with
  | none => pure data
  | some (_, row) => pure (data.insert row entry)

def getTable (table : Bytes) : M (Std.ExtTreeMap Bytes Hash compare) := do
  let keys ← keys server (pattern separator table)
  keys.foldlM (readRow server separator) ∅

end ConfigDBConnector

namespace TypedConfig

/-- `s.split(separator, 1)`, with `none` if that does not give two parts. An empty separator is a
    `ValueError`. -/
def splitOnce (separator s : Bytes) : Option (Bytes × Bytes) :=
  if separator = [] then none
  else (findFirst separator s).map fun pos => (s.take pos, s.drop (pos + separator.length))

/-- `s.split(separator)`, cut so often at most. -/
def splitAll (separator : Bytes) : Nat → Bytes → List Bytes
  | 0, s => [s]
  | n + 1, s =>
    match splitOnce separator s with
    | none => [s]
    | some (part, rest) => part :: splitAll separator n rest

/-- `deserialize_key`, with `none` for the `ValueError` of an empty separator. -/
def deserializeKey (separator key : Bytes) : Option PyKey :=
  if separator = [] then none
  else
    let tokens := splitAll separator key.length key
    some (if 1 < tokens.length then .tuple tokens else .text key)

/-- One round of the loop of `get_table`. -/
def typedRow (separator : Bytes) : Bytes × Hash → Option (PyKey × TypedData)
  | (row, entry) => (deserializeKey separator row).map (·, rawToTyped entry.toList)

def typedTable (separator : Bytes) (data : Std.ExtTreeMap Bytes Hash compare) :
    Option (Dict PyKey TypedData) :=
  (data.toList.mapM (typedRow separator)).map .ofItems

/-- `get_table`, with `none` for a `ValueError`. -/
def getTable (server : RedisServer) (separator table : Bytes) :
    M (Option (Dict PyKey TypedData)) := do
  let data ← ConfigDBConnector.getTable server separator table
  pure (typedTable separator data)

/-- A call of the handler of a table, with `none` for `None`. -/
structure Call where
  table : Bytes
  key : PyKey
  data : Option TypedData

def built (table : Bytes) (calls : List Call) : PyKey → Option TypedData :=
  calls.foldl (fun m call =>
    if call.table = table then Function.update m call.key call.data else m) fun _ => none

abbrev InitData := Dict Bytes (Dict PyKey TypedData)

/-- The calls that `load_data` makes. -/
def loadData (initData : InitData) : List Call :=
  initData.items.flatMap fun (tbl, data) => data.items.map fun (row, x) => ⟨tbl, row, some x⟩

def cacheHit (cached : TypedData) : Option TypedData → Bool
  | none => false
  | some data => cached.Same data

/-- What is left of the cache when the entry is taken from it. -/
def InitData.take (initData : InitData) (table : Bytes) (rows : Dict PyKey TypedData)
    (row : PyKey) : InitData :=
  if (rows.erase row).items = [] then initData.erase table
  else initData.set table (rows.erase row)

/-- An event of an entry: the cache is asked before the handler is called. -/
def fire (initData : InitData) (table : Bytes) (row : PyKey) (data : Option TypedData) :
    InitData × List Call :=
  match initData.get? table with
  | none => (initData, [⟨table, row, data⟩])
  | some rows =>
    match rows.get? row with
    | none => (initData, [⟨table, row, data⟩])
    | some cached =>
      (initData.take table rows row, if cacheHit cached data then [] else [⟨table, row, data⟩])

/-- A connector with the tables that have been subscribed to, all with `fire_init_data`. -/
structure Listener where
  server : RedisServer
  dbId : Nat
  separator : Bytes
  handlers : List Bytes

namespace Listener

variable (L : Listener)

def pattern : Bytes :=
  ascii "__keyspace@" ++ decimal L.dbId ++ ascii "__:*"

def onEvent (initData : InitData) (key event : Bytes) : M (InitData × List Call) :=
  match splitOnce L.separator key with
  | none => pure (initData, [])
  | some (table, row) =>
    if table ∈ L.handlers then
      if event = ascii "del" then pure (fire initData table (.text row) none)
      else do
        let rawData ← hgetallMap L.server key
        pure (fire initData table (.text row) (some (rawToTyped rawData.toList)))
    else pure (initData, [])

def onMessage (initData : InitData) (item : RedisMessage) : M (InitData × List Call) :=
  if item.type = ascii "pmessage" then
    match splitOnce (ascii ":") item.channel with
    | none => throw (.runtime (ascii "list index out of range"))
    | some (_, key) => L.onEvent initData key item.data
  else pure (initData, [])

end Listener

inductive Phase where
  | unsubscribed
  /-- The tables that have still to be read. -/
  | reading (todo : List Bytes) (initData : InitData)
  /-- In `get_table`, with the keys that have still to be read. -/
  | fetching (table : Bytes) (keys : List Bytes) (data : Std.ExtTreeMap Bytes Hash compare)
      (todo : List Bytes) (initData : InitData)
  | looping (initData : InitData)

structure System where
  database : Keyspace
  patterns : List Bytes
  /-- Messages sent to the connection of the subscription. -/
  unread : List Reply
  phase : Phase
  calls : List Call

inductive Label where
  | wrote (command : Command)
  | listened

/-- `HDEL` tells of something that was deleted. -/
def Heard (ks : Keyspace) (command : Command) (events : List Bytes) : Prop :=
  ∀ name fields, command = .hdel name fields → ks.hashAt name = some ∅ → events = []

inductive Step (L : Listener) : System → Label → System → Prop where
  | write {sys command database events} (executed : Executes sys.database command database events)
      (heard : Heard sys.database command events) :
      Step L sys (.wrote command) { sys with
        database := database
        unread := sys.unread ++ events.flatMap (pmessages sys.patterns L.dbId command.name) }
  | psubscribe {sys} (new : sys.phase = .unsubscribed) :
      Step L sys .listened { sys with
        patterns := [L.pattern]
        phase := .reading L.handlers .empty }
  | keys {sys table todo initData keys} (reading : sys.phase = .reading (table :: todo) initData)
      (listed : DBConnector.keys L.server (ConfigDBConnector.pattern L.separator table)
        sys.database = .ok keys sys.database) :
      Step L sys .listened { sys with phase := .fetching table keys ∅ todo initData }
  | row {sys table key keys data todo initData data'}
      (fetching : sys.phase = .fetching table (key :: keys) data todo initData)
      (fetched : ConfigDBConnector.readRow L.server L.separator data key sys.database =
        .ok data' sys.database) :
      Step L sys .listened { sys with phase := .fetching table keys data' todo initData }
  | table {sys table data todo initData rows}
      (fetched : sys.phase = .fetching table [] data todo initData)
      (typed : typedTable L.separator data = some rows) :
      Step L sys .listened { sys with phase := .reading todo (initData.set table rows) }
  | load {sys initData} (read : sys.phase = .reading [] initData) :
      Step L sys .listened { sys with
        phase := .looping initData
        calls := sys.calls ++ loadData initData }
  | message {sys initData reply rest initData' calls} (looping : sys.phase = .looping initData)
      (next : sys.unread = reply :: rest)
      (handled : L.onMessage initData (RedisMessage.ofReply reply) sys.database =
        .ok (initData', calls) sys.database) :
      Step L sys .listened { sys with
        unread := rest
        phase := .looping initData'
        calls := sys.calls ++ calls }

/-- Before `listen`. -/
def start (database : Keyspace) : System where
  database := database
  patterns := []
  unread := []
  phase := .unsubscribed
  calls := []

end TypedConfig

end SwssCommon
