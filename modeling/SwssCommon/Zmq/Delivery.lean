import SwssCommon.Lib.Run
import SwssCommon.Zmq.Messaging

/-! # Every record arrives, once, where it was sent

The poll thread takes messages from ZMQ and pushes their records to the queues of the consumers,
from where `pops` takes them. What was popped, what `pops` has taken, the queue and what is still to
be pushed are the records of the messages that arrived, in order.
-/

namespace SwssCommon.Zmq

open Bytes BinarySerializer List Function ZmqProducerStateTable ZmqConsumerStateTable

variable {ι : Type} [DecidableEq ι]

/-! ## The system -/

/-- A call of `pops` at work: the size of the queue when it began, the iterations left
    and what it has taken. -/
structure Popping where
  count : Nat
  left : Nat
  vkco : List KeyOpFieldsValuesTuple

structure Consumer where
  receivedOperationQueue : List KeyOpFieldsValuesTuple
  selectableEvent : Nat
  popping : Option Popping

namespace Consumer

def push (c : Consumer) (kco : KeyOpFieldsValuesTuple) : Consumer :=
  { c with receivedOperationQueue := c.receivedOperationQueue ++ [kco] }

def notify (c : Consumer) : Consumer :=
  { c with selectableEvent := c.selectableEvent + 1 }

def readData (c : Consumer) : Consumer :=
  { c with selectableEvent := 0 }

/-- The records that have left the poll thread and not yet been returned. -/
def held (c : Consumer) : List KeyOpFieldsValuesTuple :=
  (c.popping.map (·.vkco)).getD [] ++ c.receivedOperationQueue

def take (c : Consumer) (p : Popping) (left : Nat) (kco : KeyOpFieldsValuesTuple)
    (rest : List KeyOpFieldsValuesTuple) : Consumer :=
  { c with
    receivedOperationQueue := rest
    popping := some { p with left := left, vkco := p.vkco ++ [kco] } }

/-- `pops` returns; it asks to be called again if it left records behind. -/
def finish (c : Consumer) (p : Popping) (popBatchSize : Nat) : Consumer :=
  let c := { c with popping := none }
  if p.count > popBatchSize then c.notify else c

end Consumer

inductive Poll (ι : Type) where
  | polling
  | dispatching (handler : ι) (kcos : List KeyOpFieldsValuesTuple)
  /-- An exception has left the thread. -/
  | terminated

/-- The records the poll thread has still to push to this consumer. -/
def Poll.pushing (i : ι) : Poll ι → List KeyOpFieldsValuesTuple
  | .dispatching handler kcos => if handler = i then kcos else []
  | _ => []

inductive ServerError where
  | truncated (rc : Nat)
  | serializer (e : SerializerError)

/-- What the poll thread does with a message: nothing, if no table is registered for it. -/
def handleReceivedData (registry : ZmqHandlerRegistry ι) (bytes : Bytes) :
    Except ServerError (Poll ι) :=
  if bytes.length ≥ MQ_RESPONSE_MAX_COUNT then .error (.truncated bytes.length)
  else match deserializeBuffer bytes ⟨[], [], []⟩ with
    | .error e => .error (.serializer e)
    | .ok m => .ok (match registry.find m.dbName m.tableName with
        | none => .polling
        | some handler => .dispatching handler m.kcos)

structure System (ι : Type) where
  registry : ZmqHandlerRegistry ι
  /-- Messages that ZMQ has accepted and not delivered, oldest first. -/
  network : List Bytes
  poll : Poll ι
  consumers : ι → Consumer

namespace System

def update (sys : System ι) (i : ι) (c : Consumer) : System ι :=
  { sys with consumers := Function.update sys.consumers i c }

end System

inductive Event (ι : Type) where
  | sent (p : ZmqProducerStateTable) (call : Call)
  | threw (p : ZmqProducerStateTable) (call : Call) (e : ClientError)
  | received
  | terminated
  | pushed
  | notified
  | started (i : ι)
  | took (i : ι)
  | popped (i : ι) (vkco : List KeyOpFieldsValuesTuple)
  | read (i : ι)

/-- The result of `pops` is a deque that was empty before the call. -/
inductive Step (consumer : ι → ZmqConsumerStateTable) : System ι → Event ι → System ι → Prop where
  | send {sys p call} {c : ZmqClient} {zmqSend bytes}
      (inMemory : footprint p.dbName p.tableNameStr call.kcos < 2 ^ 64)
      (sent : p.run c zmqSend call = .ok bytes) :
      Step consumer sys (.sent p call) { sys with network := sys.network ++ [bytes] }
  | throw {sys p call} {c : ZmqClient} {zmqSend e}
      (inMemory : footprint p.dbName p.tableNameStr call.kcos < 2 ^ 64)
      (threw : p.run c zmqSend call = .error e) : Step consumer sys (.threw p call e) sys
  | receive {sys : System ι} {bytes rest poll} (idle : sys.poll = .polling)
      (next : sys.network = bytes :: rest)
      (decoded : handleReceivedData sys.registry bytes = .ok poll) :
      Step consumer sys .received { sys with network := rest, poll := poll }
  | terminate {sys : System ι} {bytes rest e} (idle : sys.poll = .polling)
      (next : sys.network = bytes :: rest)
      (failed : handleReceivedData sys.registry bytes = .error e) :
      Step consumer sys .terminated { sys with network := rest, poll := .terminated }
  | push {sys : System ι} {i kco kcos} (busy : sys.poll = .dispatching i (kco :: kcos)) :
      Step consumer sys .pushed
        { sys.update i ((sys.consumers i).push kco) with poll := .dispatching i kcos }
  | notify {sys : System ι} {i} (busy : sys.poll = .dispatching i []) :
      Step consumer sys .notified { sys.update i (sys.consumers i).notify with poll := .polling }
  | popsNothing {sys : System ι} {i} (idle : (sys.consumers i).popping = none)
      (empty : (sys.consumers i).receivedOperationQueue = []) :
      Step consumer sys (.popped i []) sys
  | popsStart {sys : System ι} {i} (idle : (sys.consumers i).popping = none)
      (some : (sys.consumers i).receivedOperationQueue ≠ []) :
      Step consumer sys (.started i) (sys.update i { sys.consumers i with
        popping := Option.some ⟨(sys.consumers i).receivedOperationQueue.length,
          min (sys.consumers i).receivedOperationQueue.length (consumer i).popBatchSize, []⟩ })
  | popsTake {sys : System ι} {i p left kco rest} (busy : (sys.consumers i).popping = some p)
      (more : p.left = left + 1) (front : (sys.consumers i).receivedOperationQueue = kco :: rest) :
      Step consumer sys (.took i) (sys.update i ((sys.consumers i).take p left kco rest))
  | popsReturn {sys : System ι} {i p} (busy : (sys.consumers i).popping = some p)
      (done : p.left = 0) :
      Step consumer sys (.popped i p.vkco)
        (sys.update i ((sys.consumers i).finish p (consumer i).popBatchSize))
  | readData {sys : System ι} {i} (signalled : 0 < (sys.consumers i).selectableEvent) :
      Step consumer sys (.read i) (sys.update i (sys.consumers i).readData)

/-- The consumers have been constructed and nothing has been sent. -/
def start (consumer : ι → ZmqConsumerStateTable) (order : List ι) : System ι where
  registry := registered consumer order
  network := []
  poll := .polling
  consumers _ := ⟨[], 0, none⟩

/-! ## Histories -/

def sentBy : List (Event ι) → List Message
  | [] => []
  | .sent p call :: ls => ⟨p.dbName, p.tableNameStr, call.kcos⟩ :: sentBy ls
  | _ :: ls => sentBy ls

def poppedBy (i : ι) : List (Event ι) → List KeyOpFieldsValuesTuple
  | [] => []
  | .popped j vkco :: ls => if j = i then vkco ++ poppedBy i ls else poppedBy i ls
  | _ :: ls => poppedBy i ls

/-- The records of the messages for this consumer's table, as they arrive. -/
def addressedTo (c : ZmqConsumerStateTable) (messages : List Message) :
    List KeyOpFieldsValuesTuple :=
  (messages.filter fun m => m.dbName = c.dbName ∧ m.tableName = c.tableName).flatMap
    fun m => m.kcos.map received

omit [DecidableEq ι] in
theorem sentBy_append (ls ks : List (Event ι)) : sentBy (ls ++ ks) = sentBy ls ++ sentBy ks := by
  induction ls with
  | nil => rfl
  | cons l ls ih => cases l <;> simp [sentBy, ih]

theorem poppedBy_append (i : ι) (ls ks : List (Event ι)) :
    poppedBy i (ls ++ ks) = poppedBy i ls ++ poppedBy i ks := by
  induction ls with
  | nil => rfl
  | cons l ls ih =>
    cases l with
    | popped j vkco =>
      by_cases same : j = i
      · simp [poppedBy, same, ih]
      · simp [poppedBy, same, ih]
    | _ => simpa [poppedBy] using ih

theorem addressedTo_append (c : ZmqConsumerStateTable) (messages more : List Message) :
    addressedTo c (messages ++ more) = addressedTo c messages ++ addressedTo c more := by
  simp [addressedTo]

/-! ## Receiving -/

def Message.bytes (m : Message) : Bytes :=
  messageBytes m.dbName m.tableName m.kcos

omit [DecidableEq ι] in
theorem handleReceivedData_bytes (registry : ZmqHandlerRegistry ι) {m}
    (fits : (Message.bytes m).length < MQ_RESPONSE_MAX_COUNT) :
    handleReceivedData registry (Message.bytes m) =
      .ok (match registry.find m.dbName m.tableName with
        | none => .polling
        | some handler => .dispatching handler (m.kcos.map received)) := by
  have max : MQ_RESPONSE_MAX_COUNT = 2 ^ 24 := by decide
  have counts : ∀ kco ∈ m.kcos, (kco.kfvFieldsValues.length : Int) ≤ INT_MAX := by
    intro kco member
    have fields := length_le_messageBytes m.dbName m.tableName member
    change _ ≤ (Message.bytes m).length at fields
    simp only [INT_MAX]
    omega
  have decoded := deserializeBuffer_messageBytes ⟨[], [], []⟩
    (show (messageBytes m.dbName m.tableName m.kcos).length < 2 ^ 64 by
      change (Message.bytes m).length < _
      omega) counts
  rw [handleReceivedData, if_neg (by omega), Message.bytes, decoded]
  rfl

/-! ## Conservation -/

/-- The messages that have arrived and those still in the network. -/
structure Conserved (consumer : ι → ZmqConsumerStateTable) (order : List ι) (ls : List (Event ι))
    (sys : System ι) (arrived flying : List Message) : Prop where
  sent : sentBy ls = arrived ++ flying
  network : sys.network = flying.map Message.bytes
  fits : ∀ m ∈ flying, (Message.bytes m).length < MQ_RESPONSE_MAX_COUNT
  registry : sys.registry = registered consumer order
  alive : sys.poll ≠ .terminated
  records : ∀ i ∈ order, poppedBy i ls ++ (sys.consumers i).held ++ sys.poll.pushing i =
    addressedTo (consumer i) arrived
  popping : ∀ i p, (sys.consumers i).popping = some p →
    p.left ≤ (sys.consumers i).receivedOperationQueue.length ∧
      p.vkco.length + p.left ≤ (consumer i).popBatchSize
  batches : ∀ i vkco, .popped i vkco ∈ ls → vkco.length ≤ (consumer i).popBatchSize

variable {consumer : ι → ZmqConsumerStateTable} {order : List ι} {ls : List (Event ι)} {l : Event ι}
  {sys sys' : System ι} {arrived flying : List Message}

def Distinct (consumer : ι → ZmqConsumerStateTable) (order : List ι) : Prop :=
  ∀ i ∈ order, ∀ j ∈ order, (consumer i).dbName = (consumer j).dbName →
    (consumer i).tableName = (consumer j).tableName → i = j

theorem pushing_dispatched {i} (distinct : Distinct consumer order) (member : i ∈ order)
    (m : Message) :
    Poll.pushing i (match order.find? fun j =>
        m.dbName = (consumer j).dbName ∧ m.tableName = (consumer j).tableName with
      | none => .polling
      | some handler => .dispatching handler (m.kcos.map received)) =
      addressedTo (consumer i) [m] := by
  by_cases mine : m.dbName = (consumer i).dbName ∧ m.tableName = (consumer i).tableName
  · have records : addressedTo (consumer i) [m] = m.kcos.map received := by
      simp [addressedTo, mine]
    rw [records]
    split
    · next missing =>
        exact absurd mine (by simpa using find?_eq_none.mp missing i member)
    · next handler found =>
        have itsOwn := find?_some found
        simp only [decide_eq_true_eq] at itsOwn
        have same := distinct i member handler (mem_of_find?_eq_some found)
          (mine.1.symm.trans itsOwn.1) (mine.2.symm.trans itsOwn.2)
        simp [Poll.pushing, same]
  · have records : addressedTo (consumer i) [m] = [] := by simp [addressedTo, mine]
    rw [records]
    split
    · rfl
    · next handler found =>
        have itsOwn := find?_some found
        simp only [decide_eq_true_eq] at itsOwn
        have other : handler ≠ i := by
          rintro rfl
          exact mine itsOwn
        simp [Poll.pushing, other]

namespace Conserved

variable {i : ι}

theorem updated {c : Consumer} {poll : Poll ι} (h : Conserved consumer order ls sys arrived flying)
    (unsent : sentBy [l] = []) (alive : poll ≠ .terminated)
    (others : ∀ j, j ≠ i → poppedBy j [l] = [] ∧ poll.pushing j = sys.poll.pushing j)
    (records : poppedBy i [l] ++ (c.held ++ poll.pushing i) =
      (sys.consumers i).held ++ sys.poll.pushing i)
    (popping : ∀ p, c.popping = some p → p.left ≤ c.receivedOperationQueue.length ∧
      p.vkco.length + p.left ≤ (consumer i).popBatchSize)
    (batch : ∀ j vkco, .popped j vkco = l → vkco.length ≤ (consumer j).popBatchSize) :
    Conserved consumer order (ls ++ [l]) { sys.update i c with poll := poll } arrived flying where
  sent := by rw [sentBy_append, unsent, append_nil, h.sent]
  network := h.network
  fits := h.fits
  registry := h.registry
  alive := alive
  records j member := by
    change _ ++ (Function.update sys.consumers i c j).held ++ poll.pushing j = _
    rw [poppedBy_append, ← h.records j member]
    simp only [append_assoc]
    by_cases same : j = i
    · subst same
      rw [update_self, records]
    · rw [update_of_ne same, (others j same).1, (others j same).2, nil_append]
  popping j p := by
    change (Function.update sys.consumers i c j).popping = some p → _ ≤
      (Function.update sys.consumers i c j).receivedOperationQueue.length ∧ _
    by_cases same : j = i
    · subst same
      rw [update_self]
      exact popping p
    · rw [update_of_ne same]
      exact h.popping j p
  batches j vkco member := by
    rcases mem_append.mp member with earlier | now
    · exact h.batches j vkco earlier
    · exact batch j vkco (mem_singleton.mp now)

theorem unmoved (h : Conserved consumer order ls sys arrived flying) (unsent : sentBy [l] = [])
    (returned : ∀ j vkco, .popped j vkco = l → vkco = []) :
    Conserved consumer order (ls ++ [l]) sys arrived flying where
  sent := by rw [sentBy_append, unsent, append_nil, h.sent]
  network := h.network
  fits := h.fits
  registry := h.registry
  alive := h.alive
  records j member := by
    have nothing : poppedBy j [l] = [] := by
      cases l with
      | popped k vkco => simp [poppedBy, returned k vkco rfl]
      | _ => rfl
    rw [poppedBy_append, nothing, append_nil, h.records j member]
  popping := h.popping
  batches j vkco member := by
    rcases mem_append.mp member with earlier | now
    · exact h.batches j vkco earlier
    · simp [returned j vkco (mem_singleton.mp now)]

theorem send {p call c}
    {zmqSend bytes}
    (h : Conserved consumer order ls sys arrived flying)
    (inMemory : footprint p.dbName p.tableNameStr call.kcos < 2 ^ 64)
    (sent : p.run c zmqSend call = .ok bytes) :
    Conserved consumer order (ls ++ [.sent p call]) { sys with network := sys.network ++ [bytes] }
      arrived (flying ++ [⟨p.dbName, p.tableNameStr, call.kcos⟩]) := by
  rw [p.run_eq] at sent
  obtain ⟨size, rfl⟩ := ZmqClient.sendMsg_sent inMemory sent
  have small := (messageBytes_le_footprint p.dbName p.tableNameStr call.kcos).trans_lt inMemory
  rw [serializedSize_eq_length small] at size
  refine ⟨?_, ?_, ?_, h.registry, h.alive, fun i member => ?_, h.popping, ?_⟩
  · rw [sentBy_append, h.sent, append_assoc]
    rfl
  · simp [h.network, Message.bytes]
  · intro m member
    rcases mem_append.mp member with earlier | new
    · exact h.fits m earlier
    · rw [mem_singleton.mp new]
      exact size
  · rw [poppedBy_append, show poppedBy i [.sent p call] = [] from rfl, append_nil]
    exact h.records i member
  · intro i vkco member
    exact h.batches i vkco (by simpa using member)

theorem receive {m poll} (distinct : Distinct consumer order)
    (h : Conserved consumer order ls sys arrived (m :: flying)) (idle : sys.poll = .polling)
    (decoded : handleReceivedData sys.registry (Message.bytes m) = .ok poll) :
    Conserved consumer order (ls ++ [.received])
      { sys with network := flying.map Message.bytes, poll := poll } (arrived ++ [m]) flying := by
  rw [handleReceivedData_bytes _ (h.fits m mem_cons_self), h.registry,
    find_registered] at decoded
  cases decoded
  refine ⟨?_, rfl, fun m' member => h.fits m' (mem_cons_of_mem _ member), h.registry, ?_,
    fun i member => ?_, h.popping, ?_⟩
  · rw [sentBy_append, h.sent]
    simp [sentBy]
  · split <;> simp
  · have before := h.records i member
    rw [idle, show Poll.pushing i .polling = [] from rfl, append_nil] at before
    rw [poppedBy_append, addressedTo_append, ← before, ← pushing_dispatched distinct member m]
    simp only [poppedBy, append_nil]
  · intro i vkco member
    exact h.batches i vkco (by simpa using member)

theorem push {kco kcos}
    (h : Conserved consumer order ls sys arrived flying)
    (busy : sys.poll = .dispatching i (kco :: kcos)) :
    Conserved consumer order (ls ++ [.pushed])
      { sys.update i ((sys.consumers i).push kco) with poll := .dispatching i kcos }
      arrived flying := by
  refine h.updated rfl (by simp) (fun j other => ?_) ?_ (fun p working => ?_) (by simp)
  · simp [poppedBy, Poll.pushing, busy, other.symm]
  · simp [poppedBy, Poll.pushing, busy, Consumer.held, Consumer.push]
  · have before := h.popping i p working
    refine ⟨before.1.trans ?_, before.2⟩
    simp [Consumer.push]

theorem notify (h : Conserved consumer order ls sys arrived flying)
    (busy : sys.poll = .dispatching i []) :
    Conserved consumer order (ls ++ [.notified])
      { sys.update i (sys.consumers i).notify with poll := .polling } arrived flying := by
  refine h.updated rfl (by simp) (fun j other => ?_) ?_ (h.popping i) (by simp)
  · simp [poppedBy, Poll.pushing, busy]
  · simp [poppedBy, Poll.pushing, busy, Consumer.held, Consumer.notify]

theorem popsStart (h : Conserved consumer order ls sys arrived flying)
    (idle : (sys.consumers i).popping = none) :
    Conserved consumer order (ls ++ [.started i]) (sys.update i { sys.consumers i with
      popping := some ⟨(sys.consumers i).receivedOperationQueue.length,
        min (sys.consumers i).receivedOperationQueue.length (consumer i).popBatchSize, []⟩ })
      arrived flying := by
  refine h.updated rfl h.alive (fun _ _ => ⟨rfl, rfl⟩) ?_ (fun p working => ?_) (by simp)
  · simp [poppedBy, Consumer.held, idle]
  · cases working
    simp

theorem popsTake {p left kco}
    {rest} (h : Conserved consumer order ls sys arrived flying)
    (busy : (sys.consumers i).popping = some p) (more : p.left = left + 1)
    (front : (sys.consumers i).receivedOperationQueue = kco :: rest) :
    Conserved consumer order (ls ++ [.took i])
      (sys.update i ((sys.consumers i).take p left kco rest)) arrived flying := by
  have before := h.popping i p busy
  rw [front, length_cons] at before
  refine h.updated rfl h.alive (fun _ _ => ⟨rfl, rfl⟩) ?_ (fun p' working => ?_) (by simp)
  · simp [poppedBy, Consumer.held, Consumer.take, busy, front]
  · cases working
    simp only [Consumer.take, length_append, length_singleton]
    omega

theorem popsReturn {p} (h : Conserved consumer order ls sys arrived flying)
    (busy : (sys.consumers i).popping = some p) (done : p.left = 0) :
    Conserved consumer order (ls ++ [.popped i p.vkco])
      (sys.update i ((sys.consumers i).finish p (consumer i).popBatchSize)) arrived flying := by
  have rest : ((sys.consumers i).finish p (consumer i).popBatchSize).held =
      (sys.consumers i).receivedOperationQueue := by
    unfold Consumer.finish
    split <;> rfl
  have idle : ((sys.consumers i).finish p (consumer i).popBatchSize).popping = none := by
    unfold Consumer.finish
    split <;> rfl
  refine h.updated rfl h.alive (fun j other => ?_) ?_ (fun p' working => ?_) ?_
  · simp [poppedBy, other.symm]
  · rw [rest]
    simp [poppedBy, Consumer.held, busy]
  · rw [idle] at working
    cases working
  · intro j vkco same
    cases same
    have batch := (h.popping i p busy).2
    omega

theorem step (distinct : Distinct consumer order)
    (h : Conserved consumer order ls sys arrived flying) (taken : Step consumer sys l sys') :
    ∃ arrived' flying', Conserved consumer order (ls ++ [l]) sys' arrived' flying' := by
  cases taken with
  | send inMemory sent => exact ⟨_, _, h.send inMemory sent⟩
  | throw _ _ => exact ⟨_, _, h.unmoved rfl (by simp)⟩
  | receive idle next decoded =>
    cases flying with
    | nil => simp [h.network] at next
    | cons m flying =>
      rw [h.network] at next
      obtain ⟨rfl, rfl⟩ := cons.inj next
      exact ⟨_, _, h.receive distinct idle decoded⟩
  | terminate idle next failed =>
    cases flying with
    | nil => simp [h.network] at next
    | cons m flying =>
      rw [h.network] at next
      obtain ⟨rfl, rfl⟩ := cons.inj next
      rw [handleReceivedData_bytes _ (h.fits m mem_cons_self)] at failed
      cases failed
  | push busy => exact ⟨_, _, h.push busy⟩
  | notify busy => exact ⟨_, _, h.notify busy⟩
  | popsNothing idle empty => exact ⟨_, _, h.unmoved rfl (by simp)⟩
  | popsStart idle some => exact ⟨_, _, h.popsStart idle⟩
  | popsTake busy more front => exact ⟨_, _, h.popsTake busy more front⟩
  | popsReturn busy done => exact ⟨_, _, h.popsReturn busy done⟩
  | readData signalled =>
    exact ⟨_, _, h.updated rfl h.alive (fun _ _ => ⟨rfl, rfl⟩) rfl (h.popping _) (by simp)⟩

theorem run (distinct : Distinct consumer order)
    (taken : Run (Step consumer) (start consumer order) ls sys) :
    ∃ arrived flying, Conserved consumer order ls sys arrived flying := by
  refine taken.invariant (I := fun ls sys => ∃ arrived flying,
    Conserved consumer order ls sys arrived flying) ?_ ?_
  · exact ⟨[], [], rfl, rfl, by simp, rfl, by simp [start], fun _ _ => rfl,
      by simp [start], by simp⟩
  · rintro ls sys l sys' ⟨arrived, flying, h⟩ step
    exact h.step distinct step

end Conserved

/-- Everything a call sends arrives in order at the consumer of its table and nowhere else. Calls
    throw only if ZMQ fails or the message does not fit. -/
theorem delivery {sys : System ι} (distinct : Distinct consumer order)
    (run : Run (Step consumer) (start consumer order) ls sys) :
    (∃ arrived flying, sentBy ls = arrived ++ flying ∧ flying.length = sys.network.length ∧
      ∀ i ∈ order, poppedBy i ls ++ (sys.consumers i).held ++ sys.poll.pushing i =
        addressedTo (consumer i) arrived) ∧
    (sys.network = [] → sys.poll = .polling → ∀ i ∈ order, (sys.consumers i).popping = none →
      poppedBy i ls ++ (sys.consumers i).receivedOperationQueue =
        addressedTo (consumer i) (sentBy ls)) ∧
    (∀ i vkco, .popped i vkco ∈ ls → vkco.length ≤ (consumer i).popBatchSize) ∧
    (∀ p call e, .threw p call e ∈ ls →
      serializedSize p.dbName p.tableNameStr call.kcos < MQ_RESPONSE_MAX_COUNT →
      ∃ failure, e = .zmq failure) ∧
    sys.poll ≠ .terminated := by
  obtain ⟨arrived, flying, h⟩ := Conserved.run distinct run
  refine ⟨⟨arrived, flying, h.sent, by simp [h.network], h.records⟩, ?_, h.batches, ?_, h.alive⟩
  · intro quiet polling i member idle
    have landed : flying = [] := by simpa [quiet] using h.network
    have records := h.records i member
    rw [polling, show Poll.pushing i .polling = [] from rfl, append_nil] at records
    rw [h.sent, landed, append_nil, ← records]
    simp [Consumer.held, idle]
  · intro p call e member fits
    obtain ⟨s, t, taken⟩ := run.step_of_mem member
    cases taken with
    | throw inMemory threw =>
      rename_i c zmqSend
      have spec := ZmqClient.sendMsg_eq c zmqSend inMemory
      rw [p.run_eq] at threw
      rw [if_pos fits, threw] at spec
      split at spec
      · cases spec
        exact ⟨_, rfl⟩
      · cases spec

private def portsAndRoutes (ports : Bool) : ZmqConsumerStateTable :=
  .make (ascii "APPL_DB") (if ports then ascii "PORT" else ascii "ROUTE") 1

/-- A set of a port reaches the consumer of ports and is popped. -/
theorem delivery_set_pop :
    let kco : KeyOpFieldsValuesTuple := ⟨ascii "p", SET_COMMAND, [(ascii "f", [0])]⟩
    Distinct portsAndRoutes [true, false] ∧ ∃ ls sys,
      Run (Step portsAndRoutes) (start portsAndRoutes [true, false]) ls sys ∧
      poppedBy true ls = [kco] ∧
      poppedBy true ls ++ (sys.consumers true).receivedOperationQueue =
        addressedTo (portsAndRoutes true) (sentBy ls) ∧
      poppedBy false ls ++ (sys.consumers false).receivedOperationQueue = [] := by
  intro kco
  have distinct : Distinct portsAndRoutes [true, false] := by
    unfold Distinct
    decide
  let p : ZmqProducerStateTable := ⟨ascii "APPL_DB", ascii "PORT"⟩
  let call : Call := .set (ascii "p") [(ascii "f", [0])] SET_COMMAND
  let client : ZmqClient := ⟨replicate MQ_RESPONSE_MAX_COUNT 0, length_replicate⟩
  have inMemory : footprint p.dbName p.tableNameStr call.kcos < 2 ^ 64 := by decide
  have size : serializedSize p.dbName p.tableNameStr call.kcos < MQ_RESPONSE_MAX_COUNT := by decide
  have sent : p.run client (fun _ => .sent) call =
      .ok (Message.bytes ⟨p.dbName, p.tableNameStr, call.kcos⟩) := by
    have spec := ZmqClient.sendMsg_eq client (fun _ => .sent) inMemory
    rwa [if_pos size] at spec
  have dispatched : handleReceivedData (start portsAndRoutes [true, false]).registry
      (Message.bytes ⟨p.dbName, p.tableNameStr, call.kcos⟩) = .ok (.dispatching true [kco]) := by
    rw [handleReceivedData_bytes _ (by decide), start, find_registered]
    rfl
  have nothing : Run (Step portsAndRoutes) (start portsAndRoutes [true, false]) []
    (start portsAndRoutes [true, false]) := .refl _
  have queued := (((nothing.snoc (.send inMemory sent)).snoc (.receive rfl rfl dispatched)).snoc
    (.push rfl)).snoc (.notify rfl)
  have steps := ((queued.snoc (.popsStart (i := true) rfl (by simp [System.update, Consumer.push,
    Consumer.notify]))).snoc (.popsTake (i := true) rfl rfl rfl)).snoc
    (.popsReturn (i := true) rfl rfl)
  have delivered := (delivery distinct steps).2.1 rfl rfl
  exact ⟨distinct, _, _, steps, rfl, delivered true (by simp) rfl,
    delivered false (by simp) rfl⟩

end SwssCommon.Zmq
