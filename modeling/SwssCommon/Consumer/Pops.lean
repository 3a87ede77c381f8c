import SwssCommon.Notification.Consumer
import SwssCommon.QueueTable.Scripts
import SwssCommon.StateTable.Refinement
import SwssCommon.Subscriber.StateTable
import SwssCommon.Zmq.Delivery

/-! # The deque that `pops` is handed

`pops` may find in its deque what an earlier call has left. Every kind of consumer clears it, each
at another point. A call works on the deque and the consumer together, and an exception leaves both
as they are where it is thrown.
-/

namespace SwssCommon

open Bytes Redis Script Throwing List ConsumerStateTable

/-- The deque of the caller, and the consumer with what it is connected to. -/
structure Handed (σ : Type) where
  vkco : List KeyOpFieldsValuesTuple
  consumer : σ

namespace Handed

variable {ε σ α : Type}

def inside (call : EStateM ε σ α) : EStateM ε (Handed σ) α := fun s =>
  match call s.consumer with
  | .ok a consumer => .ok a { s with consumer }
  | .error e consumer => .error e { s with consumer }

def edit (f : List KeyOpFieldsValuesTuple → List KeyOpFieldsValuesTuple) :
    EStateM ε (Handed σ) Unit :=
  modify fun s => { s with vkco := f s.vkco }

def clear : EStateM ε (Handed σ) Unit :=
  edit fun _ => []

def pushBack (kco : KeyOpFieldsValuesTuple) : EStateM ε (Handed σ) Unit :=
  edit (· ++ [kco])

/-- `resize(n)`, which adds entries made of empty strings. -/
def resize (n : Nat) : EStateM ε (Handed σ) Unit :=
  edit fun vkco => vkco.take n ++ replicate (n - vkco.length) ⟨[], [], []⟩

/-- Whatever the deque holds, the call ends in the same way, with the same deque and the
    same consumer. -/
def Independent (call : EStateM ε (Handed σ) Unit) (consumer : σ) : Prop :=
  ∀ vkco vkco', call ⟨vkco, consumer⟩ = call ⟨vkco', consumer⟩

def LeavesEmpty (call : EStateM ε (Handed σ) Unit) (consumer : σ) : Prop :=
  ∀ vkco, ∃ consumer', call ⟨vkco, consumer⟩ = .ok () ⟨[], consumer'⟩

variable {call : EStateM ε σ α} {next : α → EStateM ε (Handed σ) Unit} {consumer consumer' : σ}
  {vkco : List KeyOpFieldsValuesTuple}

theorem inside_ok {a} (ran : call consumer = .ok a consumer') :
    inside call ⟨vkco, consumer⟩ = .ok a ⟨vkco, consumer'⟩ := by
  unfold inside
  rw [ran]

theorem inside_error {e} (ran : call consumer = .error e consumer') :
    inside call ⟨vkco, consumer⟩ = .error e ⟨vkco, consumer'⟩ := by
  unfold inside
  rw [ran]

theorem clear_resize (n : Nat) (rest : EStateM ε (Handed σ) Unit) :
    (do clear; resize n; rest : EStateM ε (Handed σ) Unit) ⟨vkco, consumer⟩ =
      rest ⟨replicate n ⟨[], [], []⟩, consumer⟩ := by
  change rest ⟨take n [] ++ replicate (n - 0) _, consumer⟩ = _
  rw [take_nil, nil_append, Nat.sub_zero]

theorem independent_clear (rest : EStateM ε (Handed σ) Unit) :
    Independent (do clear; rest) consumer :=
  fun _ _ => rfl

theorem independent_iff_first_returns :
    Independent (do let a ← inside call; clear; next a) consumer ↔
      ∃ a consumer', call consumer = .ok a consumer' := by
  constructor
  · intro independent
    cases ran : call consumer with
    | ok a consumer' => exact ⟨a, consumer', rfl⟩
    | error e consumer' =>
      have same := independent [] [⟨[], [], []⟩]
      rw [bind_error (inside_error ran), bind_error (inside_error ran)] at same
      cases same
  · rintro ⟨a, consumer', ran⟩ vkco vkco'
    rw [bind_ok (inside_ok ran), bind_ok (inside_ok ran)]
    rfl

end Handed

open Handed

/-! ## Consumers that have a script pop for them -/

structure RedisLink where
  connected : Bool
  server : Server

inductive PopsError where
  /-- `redisGetReply` has failed. -/
  | connection
  | script (e : ScriptError)
  /-- `"invalid number of elements in returned table"`. -/
  | invalidNumber
  deriving DecidableEq

/-- `RedisReply(m_db, command)`, which throws for an error. -/
def RedisLink.reply {α : Type} (command : Script α) : EStateM PopsError RedisLink α := fun link =>
  if link.connected then
    match command link.server with
    | (.ok a, server) => .ok a { link with server }
    | (.error e, server) => .error (.script e) { link with server }
  else .error .connection link

/-- The server is there and answers the command with something else than an error. -/
def RedisLink.Answers {α : Type} (link : RedisLink) (command : Script α) : Prop :=
  link.connected = true ∧ ∃ a, (command link.server).1 = .ok a

theorem RedisLink.answers_iff {α link} {command : Script α} :
    link.Answers command ↔ ∃ a link', reply command link = .ok a link' := by
  obtain ⟨connected, server⟩ := link
  unfold Answers reply
  cases connected with
  | false => simp
  | true =>
    cases command server with
    | mk outcome server' => cases outcome <;> simp

namespace ConsumerTable

/-- The loop over the fields of an entry, and whether it comes to its end. -/
def fillFields (kco : KeyOpFieldsValuesTuple) : List Bytes → KeyOpFieldsValuesTuple × Bool
  | [] => (kco, true)
  | [_] => (kco, false)
  | field :: value :: rest =>
    fillFields
      { kco with kfvFieldsValues := kco.kfvFieldsValues ++ [(cStr field, cStr value)] } rest

def fillEntry (kco : KeyOpFieldsValuesTuple) : List Bytes → KeyOpFieldsValuesTuple × Bool
  | key :: op :: words => fillFields { kco with kfvKey := cStr key, kfvOp := cStr op } words
  | _ => (kco, false)

/-- The loop over the elements of the reply, each for an entry of the deque. -/
def fillEntries : List (List Bytes) → List KeyOpFieldsValuesTuple →
    List KeyOpFieldsValuesTuple × Bool
  | words :: reply, kco :: vkco =>
    match fillEntry kco words with
    | (kco, false) => (kco :: vkco, false)
    | (kco, true) => ((kco :: (fillEntries reply vkco).1), (fillEntries reply vkco).2)
  | _, vkco => (vkco, true)

/-- `pops` with the deque of its caller. -/
def popsInto (c : ConsumerTable) (json : JsonArray) :
    EStateM PopsError (Handed RedisLink) Unit := do
  let reply ← inside (RedisLink.reply (c.popCommand json))
  clear
  resize reply.length
  let filled := fillEntries reply (← get).vkco
  edit fun _ => filled.1
  if filled.2 then pure () else throw .invalidNumber

theorem fillFields_of_read {words fvs}
    (kco : KeyOpFieldsValuesTuple) (read : readFields words = some fvs) :
    fillFields kco words = ({ kco with kfvFieldsValues := kco.kfvFieldsValues ++ fvs }, true) := by
  induction words using readFields.induct generalizing kco fvs with
  | case1 =>
    cases read
    simp [fillFields]
  | case2 word => cases read
  | case3 field value rest ih =>
    obtain ⟨more, others, rfl⟩ := Option.map_eq_some_iff.mp read
    simp [fillFields, ih _ others]

theorem fillEntry_of_read {words kco}
    (read : readTuple words = some kco) : fillEntry ⟨[], [], []⟩ words = (kco, true) := by
  unfold readTuple at read
  split at read
  · obtain ⟨fvs, fields, rfl⟩ := Option.map_eq_some_iff.mp read
    simp [fillEntry, fillFields_of_read _ fields]
  · cases read

theorem fillEntries_of_read {reply vkco}
    (read : reply.mapM readTuple = some vkco) :
    fillEntries reply (replicate reply.length ⟨[], [], []⟩) = (vkco, true) := by
  induction reply generalizing vkco with
  | nil =>
    cases read
    rfl
  | cons words reply ih =>
    rw [mapM_cons] at read
    obtain ⟨kco, first, read⟩ := Option.bind_eq_some_iff.mp read
    obtain ⟨more, rest, read⟩ := Option.bind_eq_some_iff.mp read
    cases read
    simp [replicate_succ, fillEntries, fillEntry_of_read first, ih rest]

theorem popsInto_of_pops {c : ConsumerTable} {json server server'}
    {vkco out} (popped : c.pops json server = (.ok out, server')) :
    c.popsInto json ⟨vkco, ⟨true, server⟩⟩ = .ok () ⟨out, ⟨true, server'⟩⟩ := by
  obtain ⟨reply, server₁, ran, entries⟩ := bind_eq_ok popped
  have answered : RedisLink.reply (c.popCommand json) ⟨true, server⟩ =
      .ok reply ⟨true, server₁⟩ := by
    simp [RedisLink.reply, ran]
  cases read : reply.mapM readTuple with
  | none =>
    rw [read] at entries
    cases entries
  | some kcos =>
    rw [read] at entries
    cases entries
    unfold popsInto
    rw [bind_ok (inside_ok answered), clear_resize]
    change (if (fillEntries reply (replicate reply.length _)).2 then
      (pure () : EStateM PopsError (Handed RedisLink) Unit) else throw .invalidNumber)
      ⟨(fillEntries reply (replicate reply.length _)).1, _⟩ = _
    rw [fillEntries_of_read read]
    rfl

end ConsumerTable

namespace ConsumerStateTable

/-- The command of `pops`. -/
def popCommand (c : ConsumerStateTable) (choice : SpopChoice) :
    Script (List (Bytes × List FieldValueTuple)) :=
  evalsha (popScript choice)
    [ascii "3", cStr c.getKeySetName, cStr c.tableName ++ cStr c.getTableNameSeparator,
      cStr c.getDelKeySetName, decimal c.POP_BATCH_SIZE, cStr c.getStateHashPrefix]

def fillEntry (kco : KeyOpFieldsValuesTuple) (entry : Bytes × List FieldValueTuple) :
    KeyOpFieldsValuesTuple :=
  let values := kco.kfvFieldsValues ++ entry.2
  ⟨entry.1, if values = [] then DEL_COMMAND else SET_COMMAND, values⟩

/-- `pops` with the deque of its caller. -/
def popsInto (c : ConsumerStateTable) (choice : SpopChoice) :
    EStateM PopsError (Handed RedisLink) Unit := do
  let reply ← inside (RedisLink.reply (c.popCommand choice))
  clear
  resize reply.length
  edit fun vkco => zipWith fillEntry vkco reply

theorem zipWith_fillEntry (reply : List (Bytes × List FieldValueTuple)) :
    zipWith fillEntry (replicate reply.length ⟨[], [], []⟩) reply =
      reply.map toTuple := by
  induction reply with
  | nil => rfl
  | cons entry reply ih =>
    simp only [length_cons, replicate_succ, zipWith_cons_cons, ih]
    rfl

theorem popsInto_of_popCommand {c : ConsumerStateTable} {choice}
    {server server' vkco}
    {reply}
    (popped : c.popCommand choice server = (.ok reply, server')) :
    c.popsInto choice ⟨vkco, ⟨true, server⟩⟩ = .ok () ⟨reply.map toTuple, ⟨true, server'⟩⟩ := by
  have answered : RedisLink.reply (c.popCommand choice) ⟨true, server⟩ =
      .ok reply ⟨true, server'⟩ := by
    simp [RedisLink.reply, popped]
  unfold popsInto
  rw [bind_ok (inside_ok answered), clear_resize, ← zipWith_fillEntry]
  rfl

end ConsumerStateTable

/-! ## Consumers that hold what they pop -/

namespace SubscriberStateTable

structure Buffers where
  buffer : List KeyOpFieldsValuesTuple
  keyspaceEventBuffer : List Reply

variable (t : SubscriberStateTable)

/-- The loop over the events. The database may be another one at each event. -/
def popsRounds (database : Nat → Keyspace) : List Reply → Nat →
    EStateM Table.TableError (Handed Buffers) Unit
  | [], _ => pure ()
  | event :: rest, i => do
    modify fun s => { s with consumer.keyspaceEventBuffer := rest }
    match t.popEvent (database i) event with
    | .error e => throw e
    | .ok kco =>
      edit (· ++ kco.toList)
      popsRounds database rest (i + 1)

/-- `pops` with the deque of its caller. -/
def popsInto (database : Nat → Keyspace) : EStateM Table.TableError (Handed Buffers) Unit := do
  clear
  let held := (← get).consumer
  if held.buffer ≠ [] then
    modify fun s => ⟨s.vkco ++ held.buffer, { held with buffer := [] }⟩
  else
    popsRounds t database held.keyspaceEventBuffer 0
    modify fun s => { s with consumer.keyspaceEventBuffer := [] }

end SubscriberStateTable

namespace NotificationConsumer

variable {Q : Type} (base : NotificationQueueBase Q) (json : Nlohmann)

def drainInto : Nat → EStateM Failure (Handed (NotificationConsumer Q)) Unit
  | 0 => pure ()
  | rounds + 1 => do
    if base.empty (← get).consumer.queue then pure ()
    else
      let n ← inside (pop base json)
      pushBack n.tuple
      drainInto rounds

/-- One round of the outer loop, and `next` after it unless the batch is full. -/
def popsIntoRound (next : EStateM Failure (Handed (NotificationConsumer Q)) Unit) :
    EStateM Failure (Handed (NotificationConsumer Q)) Unit := do
  if base.empty (← get).consumer.queue then pure ()
  else
    drainInto base json (base.size (← get).consumer.queue)
    if (← get).vkco.length ≥ (← get).consumer.POP_BATCH_SIZE then pure () else next

def popsIntoLoop : List Glance → EStateM Failure (Handed (NotificationConsumer Q)) Unit
  | [] => popsIntoRound base json (pure ())
  | glance :: glances => popsIntoRound base json do
      if glance.ready && !(← get).consumer.unread.isEmpty then
        inside (readData base glance.held)
        popsIntoLoop glances
      else pure ()

/-- `pops` with the deque of its caller. -/
def popsInto (glances : List Glance) : EStateM Failure (Handed (NotificationConsumer Q)) Unit := do
  clear
  popsIntoLoop base json glances

end NotificationConsumer

namespace ZmqConsumerStateTable

/-- The loop that takes this many records. Others may be pushed before each of them. -/
def popsTakes (arrives : Nat → List KeyOpFieldsValuesTuple) : Nat → Nat →
    EStateM Empty (Handed Zmq.Consumer) Unit
  | 0, _ => pure ()
  | left + 1, i => do
    modify fun s => { s with
      consumer.receivedOperationQueue := s.consumer.receivedOperationQueue ++ arrives i }
    match (← get).consumer.receivedOperationQueue with
    -- the queue was long enough
    | [] => pure ()
    | kco :: rest =>
      pushBack kco
      modify fun s => { s with consumer.receivedOperationQueue := rest }
      popsTakes arrives left (i + 1)

/-- `pops` with the deque of its caller. -/
def popsInto (t : ZmqConsumerStateTable) (arrives : Nat → List KeyOpFieldsValuesTuple) :
    EStateM Empty (Handed Zmq.Consumer) Unit := do
  let count := (← get).consumer.receivedOperationQueue.length
  if count = 0 then pure ()
  else
    clear
    popsTakes arrives (min count t.popBatchSize) 0
    if count > t.popBatchSize then modify fun s => { s with consumer := s.consumer.notify }
    else pure ()

theorem popsInto_empty {t : ZmqConsumerStateTable} {arrives}
    {c} (empty : c.receivedOperationQueue = [])
    (vkco : List KeyOpFieldsValuesTuple) : t.popsInto arrives ⟨vkco, c⟩ = .ok () ⟨vkco, c⟩ := by
  change (if c.receivedOperationQueue.length = 0 then _ else _ : EStateM _ _ _) _ = _
  rw [if_pos (by simp [empty])]
  rfl

theorem independent_popsInto_iff {t : ZmqConsumerStateTable}
    {arrives c} :
    Independent (t.popsInto arrives) c ↔ c.receivedOperationQueue ≠ [] := by
  constructor
  · intro independent empty
    have same := independent [] [⟨[], [], []⟩]
    rw [popsInto_empty empty, popsInto_empty empty] at same
    cases same
  · intro some vkco vkco'
    have counted : ¬ c.receivedOperationQueue.length = 0 := by simpa using some
    change (if c.receivedOperationQueue.length = 0 then _ else _ : EStateM _ _ _) _ =
      (if c.receivedOperationQueue.length = 0 then _ else _ : EStateM _ _ _) _
    rw [if_neg counted]
    rfl

end ZmqConsumerStateTable

/-! ## All of them -/

/-- A consumer in any state, with what else a call of `pops` may meet. -/
inductive AnyConsumer where
  | consumerTable (c : ConsumerTable) (json : JsonArray) (link : RedisLink)
  | consumerStateTable (c : ConsumerStateTable) (choice : SpopChoice) (link : RedisLink)
  | subscriberStateTable (t : SubscriberStateTable) (database : Nat → Keyspace)
      (held : SubscriberStateTable.Buffers)
  | zmqConsumerStateTable (t : ZmqConsumerStateTable)
      (arrives : Nat → List KeyOpFieldsValuesTuple) (c : Zmq.Consumer)
  | notificationConsumer {Q : Type} (base : NotificationQueueBase Q) (json : Nlohmann)
      (glances : List NotificationConsumer.Glance) (c : NotificationConsumer Q)

namespace AnyConsumer

def Independent : AnyConsumer → Prop
  | consumerTable c json link => Handed.Independent (c.popsInto json) link
  | consumerStateTable c choice link => Handed.Independent (c.popsInto choice) link
  | subscriberStateTable t database held => Handed.Independent (t.popsInto database) held
  | zmqConsumerStateTable t arrives c => Handed.Independent (t.popsInto arrives) c
  | notificationConsumer base json glances c =>
    Handed.Independent (NotificationConsumer.popsInto base json glances) c

def LeavesEmpty : AnyConsumer → Prop
  | consumerTable c json link => Handed.LeavesEmpty (c.popsInto json) link
  | consumerStateTable c choice link => Handed.LeavesEmpty (c.popsInto choice) link
  | subscriberStateTable t database held => Handed.LeavesEmpty (t.popsInto database) held
  | zmqConsumerStateTable t arrives c => Handed.LeavesEmpty (t.popsInto arrives) c
  | notificationConsumer base json glances c =>
    Handed.LeavesEmpty (NotificationConsumer.popsInto base json glances) c

def Idle : AnyConsumer → Prop
  | consumerTable c _ link =>
    link.server.keyspace.listAt (cStr c.getKeyValueOpQueueTableName) = some []
  | consumerStateTable c _ link => link.server.keyspace.setAt (cStr c.getKeySetName) = some ∅
  | subscriberStateTable _ _ held => held.buffer = [] ∧ held.keyspaceEventBuffer = []
  | zmqConsumerStateTable _ _ c => c.receivedOperationQueue = []
  | notificationConsumer base _ _ c => base.empty c.queue = true

/-- The server answers the pop command of a consumer that has one, and a consumer that
    looks at its queue first has something in it. -/
def Overwrites : AnyConsumer → Prop
  | consumerTable c json link => link.Answers (c.popCommand json)
  | consumerStateTable c choice link => link.Answers (c.popCommand choice)
  | subscriberStateTable _ _ _ => True
  | zmqConsumerStateTable _ _ c => c.receivedOperationQueue ≠ []
  | notificationConsumer _ _ _ _ => True

theorem independent_iff (a : AnyConsumer) : a.Independent ↔ a.Overwrites := by
  cases a with
  | consumerTable c json link | consumerStateTable c choice link =>
    exact independent_iff_first_returns.trans RedisLink.answers_iff.symm
  | subscriberStateTable t database held | notificationConsumer base json glances c =>
    exact iff_of_true (independent_clear _) trivial
  | zmqConsumerStateTable t arrives c => exact ZmqConsumerStateTable.independent_popsInto_iff

theorem leavesEmpty_consumerTable {c : ConsumerTable} {json link}
    (connected : link.connected)
    (idle : link.server.keyspace.listAt (cStr c.getKeyValueOpQueueTableName) = some []) :
    Handed.LeavesEmpty (c.popsInto json) link := by
  obtain ⟨_, server⟩ := link
  obtain rfl : _ := connected
  have nothing : Ensures (c.pops json) server fun out _ => out = [] := by
    refine .bind (evalsha_ensures (n := 2) [cStr c.getKeyValueOpQueueTableName, cStr c.tableName]
      [decimal c.POP_BATCH_SIZE, decimal (if c.modifyRedis then 1 else 0)] rfl ?_)
    refine .argument (j := 0) rfl rfl (.bind (toNumber_ensures ?_))
    refine .argument (j := 0) rfl rfl (.bind (lrange_ensures idle ?_))
    refine .argument (j := 0) rfl rfl (.bind (ltrim_ensures idle ?_))
    rw [show slice ([] : List Bytes) (-(c.POP_BATCH_SIZE * 3)) (-1) = [] by simp [slice]]
    exact .pure (.pure rfl)
  obtain ⟨out, server', popped, rfl⟩ := nothing
  intro vkco
  exact ⟨⟨true, server'⟩, ConsumerTable.popsInto_of_pops popped⟩

theorem leavesEmpty_consumerStateTable {c : ConsumerStateTable} {choice}
    {link} (connected : link.connected)
    (idle : link.server.keyspace.setAt (cStr c.getKeySetName) = some ∅) :
    Handed.LeavesEmpty (c.popsInto choice) link := by
  obtain ⟨_, server⟩ := link
  obtain rfl : _ := connected
  have nothing : Ensures (c.popCommand choice) server fun reply _ => reply = [] := by
    unfold popCommand
    rw [popCommand_eq]
    have none : choice.pick ∅ c.POP_BATCH_SIZE = [] := by
      apply eq_nil_iff_forall_not_mem.mpr
      intro key member
      exact absurd ((choice.reply ∅ c.POP_BATCH_SIZE).subset key member) (Finset.notMem_empty key)
    refine .bind (spop_ensures idle ?_)
    rw [none]
    exact .pure rfl
  obtain ⟨reply, server', popped, rfl⟩ := nothing
  intro vkco
  exact ⟨⟨true, server'⟩, popsInto_of_popCommand popped⟩

theorem leavesEmpty_of_idle {a : AnyConsumer} (overwrites : a.Overwrites) (idle : a.Idle) :
    a.LeavesEmpty := by
  cases a with
  | consumerTable c json link => exact leavesEmpty_consumerTable overwrites.1 idle
  | consumerStateTable c choice link => exact leavesEmpty_consumerStateTable overwrites.1 idle
  | subscriberStateTable t database held =>
    obtain ⟨buffer, events⟩ := held
    obtain ⟨rfl, rfl⟩ := idle
    exact fun vkco => ⟨⟨[], []⟩, rfl⟩
  | zmqConsumerStateTable t arrives c => exact absurd idle overwrites
  | notificationConsumer base json glances c =>
    refine fun vkco => ⟨c, ?_⟩
    have empty : base.empty c.queue := idle
    cases glances with
    | nil | cons glance glances =>
      change (if base.empty c.queue then pure () else _ : EStateM _ _ _) _ = _
      rw [if_pos empty]
      rfl

/-- What `pops` leaves does not depend on what the deque held exactly in the states in which it gets
    to clear the deque. -/
theorem pops_independent_iff (a : AnyConsumer) :
    (a.Independent ∧ (a.Idle → a.LeavesEmpty)) ↔ a.Overwrites := by
  rw [independent_iff]
  exact and_iff_left_of_imp leavesEmpty_of_idle

/-- With a ZMQ consumer that has received one record, a caller that uses its deque again gets the
    record twice. -/
theorem pops_again :
    let kco : KeyOpFieldsValuesTuple :=
      ⟨ascii "Ethernet0", SET_COMMAND, [(ascii "mtu", ascii "9100")]⟩
    let t := ZmqConsumerStateTable.make (ascii "APPL_DB") (ascii "PORT_TABLE") 128
    let empty : Zmq.Consumer := ⟨[], 1, none⟩
    t.popsInto (fun _ => []) ⟨[], ⟨[kco], 1, none⟩⟩ = .ok () ⟨[kco], empty⟩ ∧
      t.popsInto (fun _ => []) ⟨[kco], empty⟩ = .ok () ⟨[kco], empty⟩ ∧
      t.popsInto (fun _ => []) ⟨[], empty⟩ = .ok () ⟨[], empty⟩ :=
  ⟨rfl, rfl, rfl⟩

end AnyConsumer

end SwssCommon
