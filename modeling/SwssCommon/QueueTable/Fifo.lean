import SwssCommon.Lib.Run
import SwssCommon.QueueTable.Replay

/-! # The queue is first in, first out

Of any number of producers and consumers: what was popped, followed by what is queued, is what was
enqueued; and the hashes of the table are the popped operations replayed.
-/

namespace SwssCommon.QueueTable

open Bytes Redis Script ConsumerTable List Option Keyspace QueueTable.Operation

variable {json : JsonArray} {t : TableBase} {s : Server} {ops : List Operation}
  {main : Bytes → Hash}

/-- The database holds these operations in the queue, oldest first, and these hashes. -/
structure Holds (json : JsonArray) (t : TableBase) (ks : Keyspace) (ops : List Operation)
    (main : Bytes → Hash) : Prop where
  queue : ks.listAt t.getKeyValueOpQueueTableName = some (ops.flatMap (·.words json)).reverse
  sent : ∀ o ∈ ops, o.Sent json
  hashes : Hashes t ks main

/-! ## Enqueuing -/

def Operation.enqueue (p : ProducerTable) (json : JsonArray) (o : Operation) : Script Unit :=
  p.enqueueDbChange o.key ((o.text json).getD []) (o.letter ++ o.op)

theorem set_eq_enqueue {p key op values}
    {script} (encoded : p.set json key values op = some script) :
    script = enqueue p json ⟨key, op, values, false⟩ ∧
      text json ⟨key, op, values, false⟩ ≠ none := by
  obtain ⟨value, dumped, rfl⟩ := map_eq_some_iff.mp encoded
  simp only [enqueue, text, letter, if_false,
    dumped, getD_some, ne_eq, reduceCtorEq, not_false_eq_true, and_self]

variable {o : Operation}

theorem Operation.Sent.words_nulFree (h : o.Sent json) : ∀ w ∈ o.words json, 0 ∉ w := by
  have text : 0 ∉ (o.text json).getD [] := by
    have encoded := h.encoded
    cases removes : o.removes with
    | true =>
      simp only [text, removes, if_true]
      decide
    | false =>
      simp only [text, removes] at encoded ⊢
      obtain ⟨value, dumped⟩ := ne_none_iff_exists'.mp encoded
      rw [dumped]
      exact json.dump_nulFree dumped
  have op : 0 ∉ o.letter ++ o.op := by
    intro member
    rcases mem_append.mp member with inLetter | inOp
    · revert inLetter
      unfold letter
      split <;> decide
    · exact h.op_nulFree inOp
  intro w member
  simp only [words, mem_cons, not_mem_nil, or_false] at member
  obtain rfl | rfl | rfl := member
  · exact h.key
  · exact text
  · exact op

theorem enqueue_ensures {p} (nulFree : 0 ∉ p.tableName)
    (sent : o.Sent json) (h : Holds json p.toTableBase s.keyspace ops main) :
    Ensures (o.enqueue p json) s fun _ s' =>
      Holds json p.toTableBase s'.keyspace (ops ++ [o]) main ∧
        s'.published = s.published ++ [(p.getChannelName p.dbId, ascii "G")] := by
  unfold enqueue ProducerTable.enqueueDbChange
  have plain := sent.words_nulFree
  simp only [words, mem_cons, not_mem_nil, or_false, forall_eq_or_imp, forall_eq] at plain
  rw [p.cStr_queueName nulFree, p.cStr_channelName nulFree, cStr_of_nulFree plain.1,
    cStr_of_nulFree plain.2.1, cStr_of_nulFree plain.2.2]
  apply evalsha_ensures (n := 2) [p.getKeyValueOpQueueTableName, p.getChannelName p.dbId] _ rfl
  refine .argument (j := 0) rfl rfl (.argument (j := 0) rfl rfl ?_)
  refine .argument (j := 1) rfl rfl (.argument (j := 2) rfl rfl ?_)
  refine .bind (lpush_ensures h.queue ?_)
  refine publish_ensures ⟨⟨?_, ?_, fun k => ?_⟩, rfl⟩
  · rw [listAt]
    simp [words]
  · intro o' member
    rcases mem_append.mp member with earlier | new
    · exact h.sent o' earlier
    · exact mem_singleton.mp new ▸ sent
  · rw [hashAt, Server.write_keyspace, getElem?_write_of_ne (keyname_ne_queueName _ k).symm]
    exact h.hashes k

/-! ## Popping -/

theorem take_flatMap {α β : Type} {f : α → List β} {n} (length : ∀ a, (f a).length = n)
    (xs : List α) (k : Nat) :
    (xs.flatMap f).take (k * n) = (xs.take k).flatMap f ∧
      (xs.flatMap f).drop (k * n) = (xs.drop k).flatMap f := by
  induction xs generalizing k with
  | nil => simp
  | cons x xs ih =>
    cases k with
    | zero => simp
    | succ k =>
      have long : (k + 1) * n = (f x).length + k * n := by rw [length]; ring
      rw [flatMap_cons, long, take_length_add_append]
      simp [ih k]

theorem readFields_flatten {fields}
    (nulFree : ∀ iv ∈ fields, 0 ∉ iv.1 ∧ 0 ∉ iv.2) :
    readFields (flatten fields) = some fields := by
  induction fields with
  | nil => rfl
  | cons iv fields ih =>
    have rest := ih fun other member => nulFree other (by simp [member])
    have here := nulFree iv (by simp)
    change (fun more => (cStr iv.1, cStr iv.2) :: more) <$> readFields (flatten fields) = _
    rw [rest, cStr_of_nulFree here.1, cStr_of_nulFree here.2]
    rfl

theorem readTuple_reply (sent : o.Sent json) : readTuple o.reply = some o.tuple := by
  simp only [readTuple, reply, readFields_flatten sent.fields,
    cStr_of_nulFree sent.key, cStr_of_nulFree sent.op_nulFree]
  rfl

theorem mapM_readTuple (sent : ∀ o ∈ ops, o.Sent json) :
    (ops.map reply).mapM readTuple = some (ops.map tuple) := by
  induction ops with
  | nil => rfl
  | cons o ops ih =>
    have rest := ih fun o' member => sent o' (by simp [member])
    simp [readTuple_reply (sent o (by simp)), rest]

theorem pops_ensures {c : ConsumerTable} (nulFree : 0 ∉ c.tableName)
    (batch : 1 ≤ c.POP_BATCH_SIZE) (h : Holds json c.toTableBase s.keyspace ops main) :
    Ensures (c.pops json) s fun vkco s' =>
      vkco = (ops.take c.POP_BATCH_SIZE).map tuple ∧
        Holds json c.toTableBase s'.keyspace (ops.drop c.POP_BATCH_SIZE)
          (if c.modifyRedis then (ops.take c.POP_BATCH_SIZE).foldl apply main else main) ∧
        s'.published = s.published := by
  let B := c.POP_BATCH_SIZE
  let modify := decimal (if c.modifyRedis then 1 else 0)
  have split := take_flatMap (f := fun o => o.words json) (n := 3) (fun _ => rfl) ops B
  have run : c.popCommand json s = _ := popCommand_run nulFree batch h.queue
  rw [length_reverse, ← reverse_take, ← reverse_drop, reverse_reverse, split.1, split.2] at run
  have hashes : Hashes c.toTableBase (s.write c.getKeyValueOpQueueTableName
      (Value.ofList ((ops.drop B).flatMap (·.words json)).reverse)).keyspace main := by
    intro k
    rw [hashAt, Server.write_keyspace, getElem?_write_of_ne (keyname_ne_queueName _ k).symm]
    exact h.hashes k
  have sentTaken : ∀ o ∈ ops.take B, o.Sent json :=
    fun o member => h.sent o (mem_of_mem_take member)
  have popped := popLoop_ensures modify sentTaken [] hashes
  unfold Ensures at popped
  rw [← run] at popped
  refine .bind (Ensures.mono ?_ popped)
  rintro reply s' ⟨replied, after⟩
  rw [nil_append] at replied
  rw [replied, mapM_readTuple sentTaken]
  refine .pure ⟨rfl, ⟨?_, fun o member => h.sent o (mem_of_mem_drop member), ?_⟩, after.quiet⟩
  · rw [listAt, after.queue, Server.write_keyspace, getElem?_write_self, Value.list?_ofList]
  · have flag : modify = ascii "0" ↔ c.modifyRedis = false := by
      cases hm : c.modifyRedis <;> simp only [modify, hm] <;> decide
    have replayed := after.hashes
    cases hm : c.modifyRedis with
    | true | false => simpa [flag, hm] using replayed

/-! ## Runs -/

/-- One call of one of the objects sharing the queue. A pop comes with its reply. -/
inductive Call where
  | set (p : ProducerTable) (key : Bytes) (values : List FieldValueTuple) (op : Bytes)
  | del (p : ProducerTable) (key op : Bytes)
  | pops (c : ConsumerTable) (reply : Except ScriptError (List KeyOpFieldsValuesTuple))

/-- The calls that may come next: strings without NUL, and operations the script
    knows and does not treat as bulk. -/
inductive Step (json : JsonArray) (t : TableBase) : Server → Call → Server → Prop where
  | set {p : ProducerTable} {key op : Bytes} {values : List FieldValueTuple} {s : Server}
      {script : Script Unit} :
      p.toTableBase = t → (0 : UInt8) ∉ key →
      (∀ iv ∈ values, (0 : UInt8) ∉ iv.1 ∧ (0 : UInt8) ∉ iv.2) →
      op ∈ modifyingOps ∨ op ∈ queryOps → p.set json key values op = some script →
      Step json t s (.set p key values op) (script s).2
  | del {p : ProducerTable} {key op : Bytes} {s : Server} :
      p.toTableBase = t → (0 : UInt8) ∉ key → op ∈ modifyingOps ∨ op ∈ queryOps →
      Step json t s (.del p key op) (p.del key op s).2
  | pops {c : ConsumerTable} {s : Server} :
      c.toTableBase = t → 1 ≤ c.POP_BATCH_SIZE →
      Step json t s (.pops c (c.pops json s).1) (c.pops json s).2

def Call.enqueued : Call → List Operation
  | .set _ key values op => [⟨key, op, values, false⟩]
  | .del _ key op => [⟨key, op, [], true⟩]
  | .pops _ _ => []

def Call.popped : Call → List KeyOpFieldsValuesTuple
  | .pops _ (.ok vkco) => vkco
  | _ => []

def enqueued (calls : List Call) : List Operation :=
  calls.flatMap Call.enqueued

def popped (calls : List Call) : List KeyOpFieldsValuesTuple :=
  calls.flatMap Call.popped

/-- What the elements of the queue stand for, read from the oldest one. -/
def decodeQueue (json : JsonArray) : List Bytes → Option (List KeyOpFieldsValuesTuple)
  | [] => some []
  | key :: value :: op :: rest => do
    let fields ← readFields (← json.decode value)
    let more ← decodeQueue json rest
    some (⟨key, op.drop 1, fields⟩ :: more)
  | _ => none

theorem decodeQueue_words (sent : ∀ o ∈ ops, o.Sent json) :
    decodeQueue json (ops.flatMap (·.words json)) = some (ops.map tuple) := by
  induction ops with
  | nil => rfl
  | cons o ops ih =>
    have sentO := sent o (by simp)
    have rest := ih fun o' member => sent o' (by simp [member])
    simp only [flatMap_cons, words, cons_append,
      decodeQueue, sentO.decodes, letter_append_drop]
    simp only [words] at rest
    simp [rest, readFields_flatten sentO.fields, tuple]

/-- The queue after these calls on a table that started with an empty queue. -/
structure InStep (json : JsonArray) (t : TableBase) (base : Bytes → Hash) (calls : List Call)
    (remaining : List Operation) (s : Server) : Prop where
  order : ∃ taken, enqueued calls = taken ++ remaining ∧ popped calls = taken.map tuple ∧
    ∃ main, Holds json t s.keyspace remaining main ∧
      ((∀ c reply, .pops c reply ∈ calls → c.modifyRedis = true) →
        main = taken.foldl apply base)
  answered : ∀ c e, .pops c (.error e) ∉ calls

variable {base : Bytes → Hash} {calls : List Call} {remaining : List Operation}

theorem InStep.enqueue {call s'} (h : InStep json t base calls remaining s)
    (puts : call.enqueued = [o]) (holds : ∀ main, Holds json t s.keyspace remaining main →
      Holds json t s'.keyspace (remaining ++ [o]) main) :
    InStep json t base (calls ++ [call]) (remaining ++ [o]) s' := by
  obtain ⟨⟨past, order, replies, main, before, replayed⟩, answered⟩ := h
  have noPop : call.popped = [] ∧ ∀ c reply, call ≠ .pops c reply := by
    cases call with
    | set | del => exact ⟨rfl, fun _ _ same => by cases same⟩
    | pops => cases puts
  have earlier : ∀ {c reply}, .pops c reply ∈ calls ++ [call] → .pops c reply ∈ calls := by
    intro c reply member
    rcases mem_append.mp member with earlier | new
    · exact earlier
    · exact (noPop.2 c reply (mem_singleton.mp new).symm).elim
  refine ⟨⟨past, ?_, ?_, main, holds main before, fun modifying => ?_⟩, fun c e member => ?_⟩
  · rw [enqueued, flatMap_append, flatMap_singleton, puts, ← append_assoc, ← order]
    rfl
  · rw [popped, flatMap_append, flatMap_singleton, noPop.1, append_nil, ← replies]
    rfl
  · exact replayed fun c reply member => modifying c reply (mem_append_left _ member)
  · exact answered c e (earlier member)

theorem InStep.pop {c} (nulFree : 0 ∉ c.tableName)
    (batch : 1 ≤ c.POP_BATCH_SIZE) (h : InStep json c.toTableBase base calls remaining s) :
    InStep json c.toTableBase base (calls ++ [.pops c (c.pops json s).1])
      (remaining.drop c.POP_BATCH_SIZE) (c.pops json s).2 := by
  obtain ⟨⟨past, order, replies, main, holds, replayed⟩, answered⟩ := h
  obtain ⟨vkco, s', ran, rfl, after, -⟩ := pops_ensures nulFree batch holds
  rw [ran]
  refine ⟨⟨past ++ remaining.take c.POP_BATCH_SIZE, ?_, ?_, _, after, fun modifying => ?_⟩,
    fun c' e member => ?_⟩
  · simpa [enqueued, Call.enqueued] using order
  · rw [popped, flatMap_append, flatMap_singleton, map_append, ← replies]
    rfl
  · rw [if_pos (modifying c _ (mem_append_right _ (mem_singleton_self _))), foldl_append,
      replayed fun c' reply member => modifying c' reply (mem_append_left _ member)]
  · rcases mem_append.mp member with earlier | new
    · exact answered c' e earlier
    · cases mem_singleton.mp new

theorem InStep.step {call s'} (nulFree : 0 ∉ t.tableName)
    (h : InStep json t base calls remaining s) (taken : Step json t s call s') :
    ∃ remaining', InStep json t base (calls ++ [call]) remaining' s' := by
  cases taken with
  | @set p key op values s script here keyNul fieldsNul known encoded =>
    subst here
    obtain ⟨rfl, text⟩ := set_eq_enqueue encoded
    have sent : Operation.Sent json ⟨key, op, values, false⟩ :=
      ⟨keyNul, fieldsNul, known, text, fun removes => by cases removes⟩
    exact ⟨_, h.enqueue rfl fun main holds =>
      (enqueue_ensures nulFree sent holds).finalState.1⟩
  | @del p key op s here keyNul known =>
    subst here
    have sent : Operation.Sent json ⟨key, op, [], true⟩ :=
      ⟨keyNul, by simp, known, by simp [text], fun _ => rfl⟩
    exact ⟨_, h.enqueue rfl fun main holds =>
      (enqueue_ensures nulFree sent holds).finalState.1⟩
  | @pops c s here batch =>
    subst here
    exact ⟨_, h.pop nulFree batch⟩

/-- Nothing is lost, duplicated or split; every pop is answered; and if all consumers modify the
    database, its hashes are the popped operations replayed in order. -/
theorem queue_fifo {base : Bytes → Hash} {calls : List Call} {s' : Server}
    (nulFree : (0 : UInt8) ∉ t.tableName) (start : Holds json t s.keyspace [] base)
    (run : Run (Step json t) s calls s') :
    ∃ elements remaining, s'.keyspace.listAt t.getKeyValueOpQueueTableName = some elements ∧
      decodeQueue json elements.reverse = some remaining ∧
      popped calls ++ remaining = (enqueued calls).map tuple ∧
      (∀ c e, .pops c (.error e) ∉ calls) ∧
      ((∀ c reply, .pops c reply ∈ calls → c.modifyRedis = true) → ∀ k,
        s'.keyspace.hashAt (keyname t.tableName k) =
          some (((enqueued calls).take (popped calls).length).foldl apply base k)) := by
  obtain ⟨remaining, ⟨past, order, replies, main, holds, replayed⟩, answered⟩ := run.invariant
    (I := fun calls s => ∃ remaining, InStep json t base calls remaining s)
    ⟨[], ⟨[], rfl, rfl, base, start, fun _ => rfl⟩, by simp⟩
    fun ⟨_, inStep⟩ taken => inStep.step nulFree taken
  refine ⟨_, remaining.map tuple, holds.queue, ?_, ?_, answered, fun modifying k => ?_⟩
  · rw [reverse_reverse, decodeQueue_words holds.sent]
  · rw [order, replies, map_append]
  · rw [replies, length_map, order, take_left, ← replayed modifying]
    exact holds.hashes k

/-- Two operations through the queue, by a consumer that takes one at a time. -/
theorem queue_fifo_set_pop :
    let t : TableBase := ⟨ascii "PORT", .colon⟩
    let p : ProducerTable := ⟨t, 0⟩
    let c : ConsumerTable := ⟨t, 1, true⟩
    let values := [(ascii "mtu", ascii "9100")]
    let json : JsonArray :=
      .only (flatten values) (ascii "[\"mtu\",\"9100\"]") (by decide) (by decide)
    ∃ s' first second remaining,
      Run (Step json t) ⟨∅, []⟩ [.set p (ascii "e0") values (ascii "set"),
        .del p (ascii "e4") (ascii "DEL"), .pops c first, .pops c second] s' ∧
      Call.popped (.pops c first) ++ (Call.popped (.pops c second) ++ remaining) =
        [⟨ascii "e0", ascii "set", values⟩, ⟨ascii "e4", ascii "DEL", []⟩] := by
  intro t p c values json
  have run : Run (Step json t) ⟨∅, []⟩ [.set p (ascii "e0") values (ascii "set"),
      .del p (ascii "e4") (ascii "DEL"), .pops c _, .pops c _] _ :=
    .cons (.set rfl (by decide) (by decide) (.inl (by decide)) rfl)
      (.cons (.del rfl (by decide) (.inl (by decide)))
        (.cons (.pops rfl (by decide)) (.single (.pops rfl (by decide)))))
  have start : Holds json t (∅ : Keyspace) [] fun _ => 1 := ⟨rfl, by simp, fun _ => rfl⟩
  obtain ⟨elements, remaining, -, -, order, -, -⟩ := queue_fifo (s := ⟨∅, []⟩) (by decide) start run
  exact ⟨_, _, _, remaining, run, by
    simpa [popped, Call.popped, enqueued, Call.enqueued, tuple] using order⟩

end SwssCommon.QueueTable
