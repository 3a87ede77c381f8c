import SwssCommon.Table.Updater
import SwssCommon.Zmq.Delivery

/-! # The tables on both sides

A producer and a consumer may each have an updater. As operations do not travel, an hset arrives as
a set. The two tables agree as long as every hset names all the fields of its entry.
-/

namespace SwssCommon.Zmq.Persistence

open Bytes Redis BinarySerializer AsyncDBUpdater List Std.ExtTreeMap Function Hash Table

/-! ## Records -/

/-- The operations an updater knows, with the fields they need. -/
def Legal (kco : KeyOpFieldsValuesTuple) : Prop :=
  (kco.kfvOp = SET_COMMAND ∨ kco.kfvOp = HSET_COMMAND) ∧ kco.kfvFieldsValues ≠ [] ∨
    kco.kfvOp = DEL_COMMAND ∧ kco.kfvFieldsValues = []

/-- The record names every field that deleting its entry would take away. -/
def Covers (t : TableBase) (main : Bytes → Hash) (kco : KeyOpFieldsValuesTuple) : Prop :=
  ∀ f ∈ main (entryName t kco.kfvKey), f ∈ kco.kfvFieldsValues.map Prod.fst

def Covering (t : TableBase) : (Bytes → Hash) → List KeyOpFieldsValuesTuple → Prop
  | _, [] => True
  | main, kco :: kcos =>
    (kco.kfvOp = HSET_COMMAND → Covers t main kco) ∧ Covering t (written t main kco) kcos

variable {t : TableBase} {main : Bytes → Hash} {kco : KeyOpFieldsValuesTuple}

theorem merged_deleted (covers : Covers t main kco) :
    merged (entryName t kco.kfvKey) kco.kfvFieldsValues (deleted (entryName t kco.kfvKey) main) =
      merged (entryName t kco.kfvKey) kco.kfvFieldsValues main := by
  simp only [merged, deleted, update_self, update_idem]
  congr 1
  apply ext
  intro f
  rw [getElem?_mul, getElem?_mul, getElem?_one]
  by_cases there : f ∈ main (entryName t kco.kfvKey)
  · have rewritten := mem_ofFields.mpr (covers f there)
    rw [getElem?_eq_some_getElem rewritten]
    rfl
  · rw [getElem?_eq_none there]

theorem written_received (legal : Legal kco)
    (covers : kco.kfvOp = HSET_COMMAND → Covers t main kco) :
    written t main (received kco) = written t main kco := by
  rcases legal with ⟨set | hset, some⟩ | ⟨del, none⟩
  · rw [show received kco = kco by simp [received, some, ← set]]
  · have ops : HSET_COMMAND ≠ SET_COMMAND := by decide
    rw [written, if_pos (by simp [received, some]), written, if_neg (by rwa [hset]), if_pos hset]
    exact merged_deleted (covers hset)
  · rw [show received kco = kco by simp only [received, none, if_true, ← del]; rw [← none]]

theorem foldl_received {kcos} (legal : ∀ kco ∈ kcos, Legal kco)
    (covering : Covering t main kcos) :
    (kcos.map received).foldl (written t) main = kcos.foldl (written t) main := by
  induction kcos generalizing main with
  | nil => rfl
  | cons kco kcos ih =>
    rw [map_cons, foldl_cons, written_received (legal kco mem_cons_self) covering.1]
    exact ih (fun kco member => legal kco (mem_cons_of_mem _ member)) covering.2

/-! ## System -/

variable {ι : Type} [DecidableEq ι]

/-- A producer with an updater and a consumer with one, among others without. -/
structure System (ι : Type) where
  delivery : Zmq.System ι
  /-- The records of the call that has been sent but not cloned yet. -/
  cloning : List KeyOpFieldsValuesTuple
  producer : AsyncDBUpdater
  consumer : AsyncDBUpdater

inductive Event (ι : Type) where
  | delivery (l : Zmq.Event ι)
  | cloned
  | producerWrote
  | consumerWrote

/-- The updaters open the tables by name, in a database with this separator. -/
inductive Step (consumer : ι → ZmqConsumerStateTable) (p : ZmqProducerStateTable) (i : ι)
    (separator : Separator) : System ι → Event ι → System ι → Prop where
  | call {sys call d} (idle : sys.cloning = [])
      (step : Zmq.Step consumer sys.delivery (.sent p call) d) :
      Step consumer p i separator sys (.delivery (.sent p call))
        { sys with delivery := d, cloning := call.kcos }
  | clone {sys kco kcos} (busy : sys.cloning = kco :: kcos) :
      Step consumer p i separator sys .cloned
        { sys with cloning := kcos, producer := sys.producer.update kco }
  | push {sys kco kcos d} (busy : sys.delivery.poll = .dispatching i (kco :: kcos))
      (step : Zmq.Step consumer sys.delivery .pushed d) :
      Step consumer p i separator sys (.delivery .pushed)
        { sys with delivery := d, consumer := sys.consumer.update kco }
  | other {sys l d} (step : Zmq.Step consumer sys.delivery l d)
      (call : ∀ call, l ≠ .sent p call) (push : l = .pushed → sys.delivery.poll.pushing i = []) :
      Step consumer p i separator sys (.delivery l) { sys with delivery := d }
  | producerWrite {sys u}
      (wrote : sys.producer.dbUpdateThread ⟨p.tableNameStr, separator⟩ = some u) :
      Step consumer p i separator sys .producerWrote { sys with producer := u }
  | consumerWrite {sys u}
      (wrote : sys.consumer.dbUpdateThread ⟨(consumer i).tableName, separator⟩ = some u) :
      Step consumer p i separator sys .consumerWrote { sys with consumer := u }

/-- Nothing has been sent, and the updaters find these databases. -/
def start (consumer : ι → ZmqConsumerStateTable) (order : List ι) (producerDb consumerDb : Server) :
    System ι where
  delivery := Zmq.start consumer order
  cloning := []
  producer := ⟨[], producerDb⟩
  consumer := ⟨[], consumerDb⟩

def deliveries : List (Event ι) → List (Zmq.Event ι) :=
  filterMap fun
    | .delivery l => some l
    | _ => none

def produced (p : ZmqProducerStateTable) (ls : List (Event ι)) : List KeyOpFieldsValuesTuple :=
  (deliveries ls).flatMap fun
    | .sent q call =>
      if q.dbName = p.dbName ∧ q.tableNameStr = p.tableNameStr then call.kcos else []
    | _ => []

structure Drained (sys : System ι) : Prop where
  landed : sys.delivery.network = []
  dispatched : sys.delivery.poll = .polling
  cloned : sys.cloning = []
  producer : sys.producer.dbUpdateDataQueue = []
  consumer : sys.consumer.dbUpdateDataQueue = []

variable {consumer : ι → ZmqConsumerStateTable} {order : List ι} {p : ZmqProducerStateTable} {i : ι}
  {separator : Separator}

/-! ## Both updaters get every record -/

def dispatched (i : ι) (sys : Zmq.System ι) : Zmq.Event ι → List KeyOpFieldsValuesTuple
  | .pushed => (sys.poll.pushing i).take 1
  | _ => []

theorem held_step {sys sys' l} (i : ι)
    (step : Zmq.Step consumer sys l sys') :
    poppedBy i [l] ++ (sys'.consumers i).held = (sys.consumers i).held ++ dispatched i sys l := by
  have elsewhere : ∀ {j c}, i ≠ j → (sys.update j c).consumers i = sys.consumers i :=
    fun other => update_of_ne other _ _
  have here : ∀ {c}, (sys.update i c).consumers i = c := update_self ..
  cases step with
  | send | throw | receive | terminate => simp [poppedBy, dispatched]
  | push busy =>
    rename_i j kco kcos
    by_cases same : i = j
    · subst same
      simp [poppedBy, dispatched, busy, Poll.pushing, here, Consumer.push, Consumer.held]
    · simp [poppedBy, dispatched, busy, Poll.pushing, elsewhere same, Ne.symm same]
  | notify busy =>
    rename_i j
    by_cases same : i = j
    · subst same
      simp [poppedBy, dispatched, here, Consumer.notify, Consumer.held]
    · simp [poppedBy, dispatched, elsewhere same]
  | popsNothing idle empty =>
    rename_i j
    by_cases same : j = i <;> simp [poppedBy, dispatched]
  | popsStart idle waiting =>
    rename_i j
    by_cases same : i = j
    · subst same
      simp [poppedBy, dispatched, here, Consumer.held, idle]
    · simp [poppedBy, dispatched, elsewhere same]
  | popsTake busy more front =>
    rename_i j taken left kco rest
    by_cases same : i = j
    · subst same
      simp [poppedBy, dispatched, here, Consumer.held, Consumer.take, busy, front]
    · simp [poppedBy, dispatched, elsewhere same]
  | popsReturn busy done =>
    rename_i j taken
    by_cases same : i = j
    · subst same
      have rest : ((sys.consumers i).finish taken (consumer i).popBatchSize).held =
          (sys.consumers i).receivedOperationQueue := by
        unfold Consumer.finish
        split <;> rfl
      rw [here, rest]
      simp [poppedBy, dispatched, Consumer.held, busy]
    · simp [poppedBy, dispatched, elsewhere same, Ne.symm same]
  | readData signalled =>
    rename_i j
    by_cases same : i = j
    · subst same
      simp [poppedBy, dispatched, here, Consumer.readData, Consumer.held]
    · simp [poppedBy, dispatched, elsewhere same]

omit [DecidableEq ι] in
theorem deliveries_append (ls ks : List (Event ι)) :
    deliveries (ls ++ ks) = deliveries ls ++ deliveries ks :=
  filterMap_append ..

omit [DecidableEq ι] in
theorem produced_append (p : ZmqProducerStateTable) (ls ks : List (Event ι)) :
    produced p (ls ++ ks) = produced p ls ++ produced p ks := by
  rw [produced, deliveries_append, flatMap_append]
  rfl

omit [DecidableEq ι] in
theorem addressedTo_sentBy (sameDb : p.dbName = (consumer i).dbName)
    (sameTable : p.tableNameStr = (consumer i).tableName) (ls : List (Event ι)) :
    addressedTo (consumer i) (sentBy (deliveries ls)) = (produced p ls).map received := by
  unfold produced
  induction deliveries ls with
  | nil => rfl
  | cons l ls ih =>
    cases l with
    | sent q call =>
      rw [sentBy, ← singleton_append, addressedTo_append, ih, flatMap_cons]
      simp only [addressedTo, sameDb, sameTable]
      split <;> simp_all
    | _ => exact ih

/-- The updaters have got what the producer has cloned and what the consumer has
    received. -/
structure Persisted (consumer : ι → ZmqConsumerStateTable) (order : List ι)
    (p : ZmqProducerStateTable) (i : ι) (t : TableBase) (main : Bytes → Hash)
    (ls : List (Event ι)) (sys : System ι) : Prop where
  delivery : Run (Zmq.Step consumer) (Zmq.start consumer order) (deliveries ls) sys.delivery
  producer : ∃ kcos, produced p ls = kcos ++ sys.cloning ∧ Given t main kcos sys.producer
  consumer : Given t main (poppedBy i (deliveries ls) ++ (sys.delivery.consumers i).held)
    sys.consumer

namespace Persisted

variable {ls : List (Event ι)} {l : Event ι} {sys sys' : System ι}

theorem deliver {d l}
    (h : Persisted consumer order p i t main ls sys) (step : Zmq.Step consumer sys.delivery l d)
    {u} (given : Given t main (poppedBy i (deliveries ls) ++
      (sys.delivery.consumers i).held ++ dispatched i sys.delivery l) u) :
    Run (Zmq.Step consumer) (Zmq.start consumer order) (deliveries (ls ++ [.delivery l])) d ∧
      Given t main (poppedBy i (deliveries (ls ++ [.delivery l])) ++ (d.consumers i).held) u := by
  rw [deliveries_append]
  refine ⟨h.delivery.snoc step, ?_⟩
  rw [append_assoc, ← held_step i step, ← append_assoc, ← poppedBy_append] at given
  exact given

theorem undelivered (h : Persisted consumer order p i t main ls sys)
    (nothing : deliveries [l] = []) {kcos cloning}
    {producer consumer'}
    (sent : produced p ls = kcos ++ cloning) (cloned : Given t main kcos producer)
    (received : Given t main (poppedBy i (deliveries ls) ++ (sys.delivery.consumers i).held)
      consumer') :
    Persisted consumer order p i t main (ls ++ [l])
      { sys with cloning := cloning, producer := producer, consumer := consumer' } := by
  have same : deliveries (ls ++ [l]) = deliveries ls := by
    rw [deliveries_append, nothing, append_nil]
  refine ⟨?_, ⟨kcos, ?_, cloned⟩, ?_⟩
  · rw [same]
    exact h.delivery
  · rw [← sent, produced, same, produced]
  · rw [same]
    exact received

theorem step (sameTable : p.tableNameStr = (consumer i).tableName)
    (h : Persisted consumer order p i ⟨p.tableNameStr, separator⟩ main ls sys)
    (taken : Step consumer p i separator sys l sys') :
    Persisted consumer order p i ⟨p.tableNameStr, separator⟩ main (ls ++ [l]) sys' := by
  obtain ⟨kcos, sent, given⟩ := h.producer
  cases taken with
  | call idle step =>
    obtain ⟨run, received⟩ := h.deliver step (u := sys.consumer)
      (by simpa [dispatched] using h.consumer)
    refine ⟨run, ⟨kcos, ?_, given⟩, received⟩
    rw [produced_append, sent, idle]
    simp [produced, deliveries]
  | clone busy =>
    rename_i kco rest
    refine h.undelivered rfl ?_ (given.update kco) h.consumer
    rw [sent, busy, append_assoc]
    rfl
  | push busy step =>
    rename_i kco rest d
    have handed : dispatched i sys.delivery .pushed = [kco] := by
      simp [dispatched, busy, Poll.pushing]
    obtain ⟨run, received⟩ := h.deliver step (by rw [handed]; exact h.consumer.update kco)
    refine ⟨run, ⟨kcos, ?_, given⟩, received⟩
    rw [produced_append, sent]
    simp [produced, deliveries]
  | other step call push =>
    rename_i l d
    have nothing : dispatched i sys.delivery l = [] := by
      cases l with
      | pushed => simp [dispatched, push rfl]
      | _ => rfl
    have foreign : produced p [.delivery l] = [] := by
      cases l with
      | sent q c =>
        have other : ¬ (q.dbName = p.dbName ∧ q.tableNameStr = p.tableNameStr) := by
          cases q
          cases p
          simp_all
        simp [produced, deliveries, other]
      | _ => rfl
    obtain ⟨run, received⟩ := h.deliver step (u := sys.consumer) (by
      rw [nothing, append_nil]
      exact h.consumer)
    refine ⟨run, ⟨kcos, ?_, given⟩, received⟩
    rw [produced_append, foreign, append_nil, sent]
  | producerWrite wrote => exact h.undelivered rfl sent (given.dbUpdateThread wrote) h.consumer
  | consumerWrite wrote =>
    rw [← sameTable] at wrote
    exact h.undelivered rfl sent given (h.consumer.dbUpdateThread wrote)

theorem run {producerDb consumerDb} (sameTable : p.tableNameStr = (consumer i).tableName)
    (producerStores : Stores ⟨p.tableNameStr, separator⟩ main producerDb)
    (consumerStores : Stores ⟨p.tableNameStr, separator⟩ main consumerDb)
    (taken : Run (Step consumer p i separator)
      (start consumer order producerDb consumerDb) ls sys) :
    Persisted consumer order p i ⟨p.tableNameStr, separator⟩ main ls sys := by
  refine taken.invariant (I := Persisted consumer order p i ⟨p.tableNameStr, separator⟩ main)
    ?_ fun h taken => h.step sameTable taken
  exact ⟨.refl _, ⟨[], rfl, .initially producerStores⟩, .initially consumerStores⟩

theorem drained (distinct : Distinct consumer order) (member : i ∈ order)
    (sameDb : p.dbName = (consumer i).dbName) (sameTable : p.tableNameStr = (consumer i).tableName)
    (h : Persisted consumer order p i t main ls sys) (drained : Drained sys) :
    Stores t ((produced p ls).foldl (written t) main) sys.producer.db ∧
      Stores t (((produced p ls).map received).foldl (written t) main) sys.consumer.db := by
  obtain ⟨kcos, sent, given⟩ := h.producer
  rw [drained.cloned, append_nil] at sent
  obtain ⟨arrived, flying, conserved⟩ := Conserved.run distinct h.delivery
  have landed : flying = [] := by simpa [drained.landed] using conserved.network
  have records := conserved.records i member
  rw [drained.dispatched, show Poll.pushing i .polling = [] from rfl, append_nil] at records
  have consumer := h.consumer.drained drained.consumer
  rw [records, ← append_nil arrived, ← landed, ← conserved.sent,
    addressedTo_sentBy sameDb sameTable] at consumer
  rw [sent]
  refine ⟨given.drained drained.producer, ?_⟩
  rwa [← sent]

end Persisted

/-- The tables agree once everything has been delivered and written, if every hset names all the
    fields of its entry. The updaters never stop for an error. -/
theorem tables_agree {producerDb consumerDb : Server} {ls : List (Event ι)} {sys : System ι}
    (distinct : Distinct consumer order) (member : i ∈ order)
    (sameDb : p.dbName = (consumer i).dbName)
    (sameTable : p.tableNameStr = (consumer i).tableName)
    (producerStores : Stores ⟨p.tableNameStr, separator⟩ main producerDb)
    (consumerStores : Stores ⟨p.tableNameStr, separator⟩ main consumerDb)
    (run : Run (Step consumer p i separator) (start consumer order producerDb consumerDb) ls sys)
    (legal : ∀ kco ∈ produced p ls, Legal kco)
    (covering : Covering ⟨p.tableNameStr, separator⟩ main (produced p ls)) :
    (sys.producer.dbUpdateDataQueue ≠ [] →
      ∃ sys', Step consumer p i separator sys .producerWrote sys') ∧
    (sys.consumer.dbUpdateDataQueue ≠ [] →
      ∃ sys', Step consumer p i separator sys .consumerWrote sys') ∧
    (Drained sys → ∀ key,
      sys.producer.db.keyspace.hashAt (entryName ⟨p.tableNameStr, separator⟩ key) =
        sys.consumer.db.keyspace.hashAt (entryName ⟨p.tableNameStr, separator⟩ key)) := by
  have h := Persisted.run sameTable producerStores consumerStores run
  refine ⟨fun waiting => ?_, fun waiting => ?_, fun drained key => ?_⟩
  · obtain ⟨_, _, given⟩ := h.producer
    obtain ⟨u, wrote⟩ := given.next waiting
    exact ⟨_, .producerWrite wrote⟩
  · obtain ⟨u, wrote⟩ := h.consumer.next waiting
    exact ⟨_, .consumerWrite (by rwa [← sameTable])⟩
  · obtain ⟨producer, consumer⟩ := h.drained distinct member sameDb sameTable drained
    rw [foldl_received legal covering] at consumer
    rw [producer key, consumer key]

private def nextHops : ZmqProducerStateTable := ⟨ascii "APPL_DB", ascii "NH"⟩

private def nextHopConsumer : Unit → ZmqConsumerStateTable :=
  fun _ => .make (ascii "APPL_DB") (ascii "NH") 1

private def nextHopTable : TableBase := ⟨nextHops.tableNameStr, .colon⟩

private def withEntry (key : Bytes) (h : Hash) : Server :=
  Server.write ⟨∅, []⟩ (entryName nextHopTable key) (Value.ofHash h)

private theorem withEntry_stores (key : Bytes) (h : Hash) :
    Stores nextHopTable (update (fun _ => 1) (entryName nextHopTable key) h) (withEntry key h) :=
  Stores.write (fun _ => rfl) _ (Value.hash?_ofHash h)

private theorem one_record (kco : KeyOpFieldsValuesTuple) {db}
    (stored : Stores nextHopTable main db)
    (inMemory : footprint nextHops.dbName nextHops.tableNameStr [kco] < 2 ^ 64)
    (size : serializedSize nextHops.dbName nextHops.tableNameStr [kco] < MQ_RESPONSE_MAX_COUNT)
    (fits : (Message.bytes ⟨nextHops.dbName, nextHops.tableNameStr, [kco]⟩).length <
      MQ_RESPONSE_MAX_COUNT) :
    ∃ ls sys,
      Run (Step nextHopConsumer nextHops () .colon) (start nextHopConsumer [()] db db) ls sys ∧
      produced nextHops ls = [kco] ∧ Drained sys := by
  let client : ZmqClient := ⟨replicate MQ_RESPONSE_MAX_COUNT 0, length_replicate⟩
  have sent : nextHops.run client (fun _ => .sent) (.send [kco]) =
      .ok (Message.bytes ⟨nextHops.dbName, nextHops.tableNameStr, [kco]⟩) := by
    have spec := ZmqClient.sendMsg_eq client (fun _ => .sent) inMemory
    rwa [if_pos size] at spec
  have dispatched : handleReceivedData (Zmq.start nextHopConsumer [()]).registry
      (Message.bytes ⟨nextHops.dbName, nextHops.tableNameStr, [kco]⟩) =
        .ok (.dispatching () [received kco]) := by
    rw [handleReceivedData_bytes _ fits]
    rfl
  have sending : Zmq.Step nextHopConsumer (Zmq.start nextHopConsumer [()])
    (.sent nextHops (.send [kco])) _ := .send inMemory sent
  obtain ⟨_, producerDb, producerRan, -⟩ := write_ensures stored kco
  obtain ⟨_, consumerDb, consumerRan, -⟩ := write_ensures stored (received kco)
  have nothing : Run (Step nextHopConsumer nextHops () .colon) (start nextHopConsumer [()] db db) []
    (start nextHopConsumer [()] db db) := .refl _
  have cloned := (nothing.snoc (.call rfl sending)).snoc (.clone rfl)
  have handed := ((cloned.snoc (.other (.receive rfl rfl dispatched) (by simp) (by simp))).snoc
    (.push rfl (.push rfl))).snoc (.other (.notify rfl) (by simp) (by simp))
  have written := (handed.snoc
    (.producerWrite (u := ⟨[], producerDb⟩) (dbUpdateThread_cons producerRan))).snoc
    (.consumerWrite (u := ⟨[], consumerDb⟩) (dbUpdateThread_cons consumerRan))
  exact ⟨_, _, written, rfl, rfl, rfl, rfl, rfl, rfl⟩

/-- An hset of the only field of an entry. -/
theorem tables_agree_hset :
    let key := ascii "10.0.0.1"
    let before := ofFields [(ascii "mac", ascii "1")]
    let kco : KeyOpFieldsValuesTuple := ⟨key, HSET_COMMAND, [(ascii "mac", ascii "2")]⟩
    ∃ ls sys, Run (Step nextHopConsumer nextHops () .colon)
        (start nextHopConsumer [()] (withEntry key before) (withEntry key before)) ls sys ∧
      produced nextHops ls = [kco] ∧ Drained sys ∧
      sys.producer.db.keyspace.hashAt (entryName nextHopTable key) =
        sys.consumer.db.keyspace.hashAt (entryName nextHopTable key) := by
  intro key before kco
  have stored := withEntry_stores key before
  obtain ⟨ls, sys, run, sent, drained⟩ := one_record kco stored (by decide) (by decide)
    (by decide)
  have covers : Covers nextHopTable
      (update (fun _ => 1) (entryName nextHopTable key) before) kco := by
    intro f there
    rwa [update_self, mem_ofFields] at there
  have agree := (tables_agree (by unfold Distinct; decide) (by decide) rfl rfl stored stored run
    (by
      rw [sent]
      simp only [Legal, mem_singleton, forall_eq]
      decide)
    (by
      rw [sent]
      exact ⟨fun _ => covers, trivial⟩)).2.2 drained key
  exact ⟨ls, sys, run, sent, drained, agree⟩

/-- An hset of one of two fields: the producer's table keeps the other field, the
    consumer's loses it. -/
theorem tables_disagree_hset :
    let key := ascii "10.0.0.1"
    let before := ofFields [(ascii "mac", ascii "1"), (ascii "vlan", ascii "7")]
    let kco : KeyOpFieldsValuesTuple := ⟨key, HSET_COMMAND, [(ascii "mac", ascii "2")]⟩
    Legal kco ∧ ∃ ls sys, Run (Step nextHopConsumer nextHops () .colon)
        (start nextHopConsumer [()] (withEntry key before) (withEntry key before)) ls sys ∧
      produced nextHops ls = [kco] ∧ Drained sys ∧
      sys.producer.db.keyspace.hashAt (entryName nextHopTable key) =
        some (ofFields [(ascii "mac", ascii "2"), (ascii "vlan", ascii "7")]) ∧
      sys.consumer.db.keyspace.hashAt (entryName nextHopTable key) =
        some (ofFields [(ascii "mac", ascii "2")]) := by
  intro key before kco
  have stored := withEntry_stores key before
  obtain ⟨ls, sys, run, sent, drained⟩ := one_record kco stored (by decide) (by decide)
    (by decide)
  have h := Persisted.run rfl stored stored run
  obtain ⟨producer, consumer⟩ := h.drained (by unfold Distinct; decide) (by decide) rfl rfl drained
  rw [sent] at producer consumer
  refine ⟨by unfold Legal; decide, ls, sys, run, sent, drained, ?_, ?_⟩
  · exact (producer key).trans (by decide)
  · exact (consumer key).trans (by decide)

end SwssCommon.Zmq.Persistence
