import SwssCommon.Consumer.Awake
import SwssCommon.QueueTable.Failure
import SwssCommon.QueueTable.Fifo

/-! # Wake-ups for queue tables

Every operation is announced, and a pop takes up to a batch of them off the queue before it replays
them: a replay that fails loses them, but the queue is shorter all the same.
-/

namespace SwssCommon

open Bytes Redis Script List Option Keyspace

namespace QueueTable

open ConsumerTable

variable {json : JsonArray} {t : TableBase} {s : Server}

/-! ## Replays stay off the queue -/

def Untouched (t : TableBase) (queue : Option Value) (published : List (Bytes × Bytes))
    (s : Server) : Prop :=
  s.keyspace[t.getKeyValueOpQueueTableName]? = queue ∧ s.published = published

section Replay

variable {queue : Option Value} {published : List (Bytes × Bytes)}

theorem Untouched.write {name} (other : name ≠ t.getKeyValueOpQueueTableName) (s : Server)
    (v : Option Value) (h : Untouched t queue published s) :
    Untouched t queue published (s.write name v) := by
  refine ⟨?_, h.2⟩
  rw [Server.write_keyspace, getElem?_write_of_ne other]
  exact h.1

theorem replay_untouched (key dbop op : Bytes) (jj : List Bytes) :
    Preserves (Untouched t queue published) (replay t.tableName key dbop op jj) :=
  replay_preserves (fun k => Untouched.write (keyname_ne_queueName t k)) key dbop op jj

end Replay

/-! ## What is on the queue -/

structure Entry where
  key : Bytes
  value : Bytes
  op : Bytes

def Entry.words (e : Entry) : List Bytes :=
  [e.key, e.value, e.op]

/-- How many operations the queue holds. If the fields of one decode at all, they come
    in pairs. -/
def QueueSize (json : JsonArray) (t : TableBase) (s : Server) (n : Nat) : Prop :=
  ∃ entries : List Entry, entries.length = n ∧
    s.keyspace.listAt t.getKeyValueOpQueueTableName = some (entries.flatMap Entry.words).reverse ∧
    ∀ e ∈ entries, ∀ jj, json.decode e.value = some jj → Even jj.length

theorem readFields_of_even : ∀ {words : List Bytes}, Even words.length → readFields words ≠ none
  | [], _ => by simp [readFields]
  | [_], even => by simp at even
  | field :: value :: rest, even => by
    have shorter : Even rest.length := by
      simpa [parity_simps] using even
    obtain ⟨fields, read⟩ := ne_none_iff_exists'.mp (readFields_of_even shorter)
    simp [readFields, read]

/-- However the loop ends, the queue is left alone; if it completes, it replies with
    one readable element for every operation. -/
theorem popLoop_ends {queue published} (modify : Bytes)
    (entries : List Entry)
    (even : ∀ e ∈ entries, ∀ jj, json.decode e.value = some jj → Even jj.length)
    (rets : List (List Bytes)) (readable : ∀ ret ∈ rets, readTuple ret ≠ none)
    (h : Untouched t queue published s) :
    Ends (popLoop json t.tableName modify (entries.flatMap Entry.words) rets) s fun r s' =>
      Untouched t queue published s' ∧ ∀ reply, r = .ok reply →
        reply.length = rets.length + entries.length ∧ ∀ ret ∈ reply, readTuple ret ≠ none := by
  induction entries generalizing s rets with
  | nil =>
    refine .pure ⟨h, ?_⟩
    rintro reply ⟨⟩
    exact ⟨rfl, readable⟩
  | cons e entries ih =>
    have evenRest : ∀ e' ∈ entries, ∀ jj, json.decode e'.value = some jj → Even jj.length :=
      fun e' member => even e' (mem_cons_of_mem _ member)
    simp only [flatMap_cons, Entry.words, cons_append, popLoop]
    cases decoded : json.decode e.value with
    | none => exact .raise ⟨h, by simp⟩
    | some jj =>
      have here : readTuple (e.key :: e.op.drop 1 :: jj) ≠ none := by
        have pairs := even e mem_cons_self jj decoded
        obtain ⟨fields, read⟩ := ne_none_iff_exists'.mp (readFields_of_even pairs)
        simp [readTuple, read]
      have next : ∀ {s}, Untouched t queue published s →
          Ends (popLoop json t.tableName modify (entries.flatMap Entry.words)
            (rets ++ [e.key :: e.op.drop 1 :: jj])) s fun r s' =>
            Untouched t queue published s' ∧ ∀ reply, r = .ok reply →
              reply.length = rets.length + (entries.length + 1) ∧
                ∀ ret ∈ reply, readTuple ret ≠ none := by
        intro s h
        have rest := ih evenRest (rets ++ [e.key :: e.op.drop 1 :: jj])
          (fun ret member => (mem_append.mp member).elim (readable ret)
            fun last => mem_singleton.mp last ▸ here) h
        refine ⟨rest.1, fun reply same => ?_⟩
        obtain ⟨length, all⟩ := rest.2 reply same
        refine ⟨?_, all⟩
        rw [length, length_append, length_singleton]
        omega
      simp only
      split
      · exact next h
      · exact (replay_untouched _ _ _ _).ends_bind h (fun _ _ after => next after)
          fun _ _ after => ⟨after, by simp⟩

theorem popCommand_ends {c : ConsumerTable} {n} (nulFree : 0 ∉ c.tableName)
    (batch : 1 ≤ c.POP_BATCH_SIZE) (h : QueueSize json c.toTableBase s n) :
    Ends (c.popCommand json) s fun r s' =>
      QueueSize json c.toTableBase s' (n - c.POP_BATCH_SIZE) ∧ s'.published = s.published ∧
        ∀ reply, r = .ok reply →
          reply.length = min n c.POP_BATCH_SIZE ∧ ∀ ret ∈ reply, readTuple ret ≠ none := by
  obtain ⟨entries, rfl, queue, even⟩ := h
  let B := c.POP_BATCH_SIZE
  have split := take_flatMap (f := Entry.words) (n := 3) (fun _ => rfl) entries B
  unfold Ends
  rw [popCommand_run nulFree batch queue, length_reverse, ← reverse_take, ← reverse_drop,
    reverse_reverse, split.1, split.2]
  obtain ⟨⟨left, quiet⟩, replied⟩ := popLoop_ends (t := c.toTableBase)
    (decimal (if c.modifyRedis then 1 else 0)) (entries.take B)
    (fun e member => even e (mem_of_mem_take member)) [] (by simp)
    (s := s.write c.getKeyValueOpQueueTableName
      (Value.ofList ((entries.drop B).flatMap Entry.words).reverse))
    ⟨getElem?_write_self _ _ _, rfl⟩
  refine ⟨⟨entries.drop B, length_drop, ?_, fun e member =>
    even e (mem_of_mem_drop member)⟩, quiet, fun reply same => ?_⟩
  · rw [listAt, left, Value.list?_ofList]
  · obtain ⟨length, readable⟩ := replied reply same
    refine ⟨?_, readable⟩
    rw [length, length_nil, length_take]
    omega

theorem mapM_readTuple_of_readable {reply : List (List Bytes)}
    (readable : ∀ ret ∈ reply, readTuple ret ≠ none) :
    ∃ vkco, reply.mapM readTuple = some vkco ∧ vkco.length = reply.length := by
  induction reply with
  | nil => exact ⟨[], rfl, rfl⟩
  | cons ret reply ih =>
    obtain ⟨kco, read⟩ := ne_none_iff_exists'.mp (readable ret mem_cons_self)
    obtain ⟨vkco, rest, length⟩ := ih fun other member =>
      readable other (mem_cons_of_mem _ member)
    exact ⟨kco :: vkco, by simp [read, rest], by simp [length]⟩

end QueueTable

/-! ## The consumer -/

namespace ConsumerTable

variable {hiredis : Hiredis} {json : JsonArray} {c : ConsumerTable} {dbId : Nat}

def program (c : ConsumerTable) (dbId : Nat) : List Instruction :=
  [.watch (ascii "WATCH " ++ c.getKeyValueOpQueueTableName), .multi,
    .enqueue (ascii "LLEN " ++ c.getKeyValueOpQueueTableName),
    .subscribe (ascii "SUBSCRIBE " ++ c.getChannelName dbId),
    .enqueue (ascii "LLEN " ++ c.getKeyValueOpQueueTableName)]

/-- A consumer of the database `dbId`. -/
def consumer (json : JsonArray) (c : ConsumerTable) (dbId : Nat) : Consumer where
  program := c.program dbId
  -- three elements make an operation
  initialLength n := n.tdiv 3
  Pops s out := match c.popCommand json s with
    | (.error _, s') => out = ⟨[], true, s'⟩
    | (.ok reply, s') => match reply.mapM readTuple with
      | some vkco => out = ⟨vkco, false, s'⟩
      -- thrown while the deque, resized already, is being filled
      | none => out.vkco.length = reply.length ∧ out.threw = true ∧ out.server = s'

/-- The commands of the constructor are read as they are written. -/
structure Reads (hiredis : Hiredis) (c : ConsumerTable) (dbId : Nat) : Prop where
  watch : hiredis.words (ascii "WATCH " ++ c.getKeyValueOpQueueTableName) =
    [ascii "WATCH", c.getKeyValueOpQueueTableName]
  count : hiredis.words (ascii "LLEN " ++ c.getKeyValueOpQueueTableName) =
    [ascii "LLEN", c.getKeyValueOpQueueTableName]
  channel : hiredis.words (ascii "SUBSCRIBE " ++ c.getChannelName dbId) =
    [ascii "SUBSCRIBE", c.getChannelName dbId]

theorem Reads.nulFree (reads : c.Reads hiredis dbId) : 0 ∉ c.tableName := by
  intro nul
  have plain := hiredis.nulFree _ c.getKeyValueOpQueueTableName (by rw [reads.count]; simp)
  exact plain (mem_append_left _ nul)

theorem serves (reads : c.Reads hiredis dbId) (batch : 1 ≤ c.POP_BATCH_SIZE) :
    (c.consumer json dbId).Serves hiredis (QueueTable.QueueSize json c.toTableBase)
      (c.getChannelName dbId) c.POP_BATCH_SIZE where
  subscribes := ⟨ascii "SUBSCRIBE " ++ c.getChannelName dbId, by simp [consumer, program]⟩
  listensOn text name member read := by
    simp only [consumer, program, mem_cons, not_mem_nil, or_false, reduceCtorEq,
      false_or, Instruction.subscribe.injEq] at member
    rw [member, reads.channel] at read
    simpa using read.symm
  counts {s n first more} backlog replies := by
    obtain ⟨entries, rfl, queue, -⟩ := backlog
    have commands : queued (c.consumer json dbId).program =
      [ascii "LLEN " ++ c.getKeyValueOpQueueTableName,
        ascii "LLEN " ++ c.getKeyValueOpQueueTableName] := rfl
    have length : (entries.flatMap QueueTable.Entry.words).length = entries.length * 3 :=
      by simp [QueueTable.Entry.words]
    have count : integerReply s (hiredis.words (ascii "LLEN " ++ c.getKeyValueOpQueueTableName)) =
        some ((entries.length * 3 : Nat) : Int) := by
      rw [reads.count, integerReply, queue, ← length,
        ← length_reverse]
      rfl
    rw [commands, mapM_cons, mapM_cons, count] at replies
    rw [← (cons.inj (some.inj replies)).1]
    simp only [consumer]
    rw [Int.tdiv_eq_ediv_of_nonneg (by omega)]
    omega
  pops {s n out} backlog popped := by
    have ended := QueueTable.popCommand_ends reads.nulFree batch backlog
    unfold Script.Ends at ended
    simp only [consumer] at popped
    match ran : c.popCommand json s with
    | (.error e, s') =>
      rw [ran] at popped ended
      obtain rfl := popped
      obtain ⟨less, quiet, -⟩ := ended
      exact ⟨less, congrArg (countP _) quiet, rfl⟩
    | (.ok reply, s') =>
      rw [ran] at popped ended
      obtain ⟨less, quiet, replied⟩ := ended
      obtain ⟨length, readable⟩ := replied reply rfl
      obtain ⟨vkco, read, same⟩ := QueueTable.mapM_readTuple_of_readable readable
      simp only [read] at popped
      obtain rfl := popped
      exact ⟨less, congrArg (countP _) quiet, same.trans length⟩

end ConsumerTable

/-! ## Producers -/

namespace QueueTable

variable {json : JsonArray} {t : TableBase} {dbId : Nat} {s : Server}

theorem enqueueDbChange_ensures {p : ProducerTable} {n value} (key op : Bytes)
    (nulFree : 0 ∉ p.tableName)
    (even : ∀ jj, json.decode (cStr value) = some jj → Even jj.length)
    (h : QueueSize json p.toTableBase s n) :
    Ensures (p.enqueueDbChange key value op) s fun _ s' =>
      QueueSize json p.toTableBase s' (n + 1) ∧
        s'.published = s.published ++ [(p.getChannelName p.dbId, ascii "G")] := by
  obtain ⟨entries, rfl, queue, evens⟩ := h
  unfold ProducerTable.enqueueDbChange
  rw [p.cStr_queueName nulFree, p.cStr_channelName nulFree]
  apply evalsha_ensures (n := 2) [p.getKeyValueOpQueueTableName, p.getChannelName p.dbId] _ rfl
  refine .argument (j := 0) rfl rfl (.argument (j := 0) rfl rfl ?_)
  refine .argument (j := 1) rfl rfl (.argument (j := 2) rfl rfl ?_)
  refine .bind (lpush_ensures queue ?_)
  refine publish_ensures ⟨⟨entries ++ [⟨cStr key, cStr value, cStr op⟩], ?_, ?_, ?_⟩, rfl⟩
  · simp
  · rw [listAt, Server.write_keyspace, getElem?_write_self, Value.list?_ofList]
    simp [Entry.words]
  · intro e member
    rcases mem_append.mp member with earlier | new
    · exact evens e earlier
    · exact mem_singleton.mp new ▸ even

inductive QueueCall where
  | set (p : ProducerTable) (key : Bytes) (values : List FieldValueTuple) (op : Bytes)
  | del (p : ProducerTable) (key op : Bytes)

inductive Enqueues (json : JsonArray) (t : TableBase) (dbId : Nat) :
    Server → Unit → QueueCall → Server → Unit → Prop where
  | set {s : Server} {p : ProducerTable} {key op : Bytes} {values : List FieldValueTuple}
      {script : Script Unit} :
      p.toTableBase = t → p.dbId = dbId → p.set json key values op = some script →
      Enqueues json t dbId s () (.set p key values op) (script s).2 ()
  | del {s : Server} {p : ProducerTable} {key op : Bytes} :
      p.toTableBase = t → p.dbId = dbId →
      Enqueues json t dbId s () (.del p key op) (p.del key op s).2 ()

theorem Enqueues.posts {mode sys call}
    {server} (nulFree : 0 ∉ t.tableName)
    (produced : Enqueues json t dbId sys.server sys.producers call server ()) :
    Consumer.Posts mode (QueueSize json t) (t.getChannelName dbId) 1
      (fun _ => 0) sys server () := by
  intro n size _
  obtain ⟨size', published⟩ : QueueSize json t server (n + 1) ∧
      server.published = sys.server.published ++ [(t.getChannelName dbId, ascii "G")] := by
    cases produced with
    | @set p key op values script here same encoded =>
      subst here same
      obtain ⟨value, dumped, rfl⟩ := map_eq_some_iff.mp encoded
      refine (enqueueDbChange_ensures key _ nulFree (fun jj decoded => ?_) size).finalState
      rw [cStr_of_nulFree (json.dump_nulFree dumped), json.decode_dump dumped] at decoded
      rw [← some.inj decoded, flatten_length]
      exact Nat.even_mul.mpr (.inr even_two)
    | @del p key op here same =>
      subst here same
      refine (enqueueDbChange_ensures key _ nulFree (fun jj decoded => ?_) size).finalState
      rw [show cStr (ascii "\x7b\x7d") = ascii "\x7b\x7d" by decide, json.decode_object] at decoded
      rw [← some.inj decoded]
      exact Even.zero
  have sent : server.sent (t.getChannelName dbId) =
      sys.server.sent (t.getChannelName dbId) + 1 := by
    rw [Server.sent, published]
    simp [Server.sent]
  refine ⟨by omega, n + 1, size', fun _ covers => ?_⟩
  rw [sent, Nat.add_sub_cancel_left]
  exact (covers.post 1).of_le (by omega)

end QueueTable

end SwssCommon
