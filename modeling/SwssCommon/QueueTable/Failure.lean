import SwssCommon.QueueTable.Replay

/-! # A pop that fails

The pop script trims the queue first and replays its batch record by record. An error stops it
there, and what it did stays done: the rest of the batch is lost.
-/

namespace SwssCommon.QueueTable

open Bytes Redis Script ConsumerTable Keyspace

/-! ## What the script accepts -/

/-- The objects of a bulk set or create: every attribute has its `=`, and no object
    comes without attributes. -/
def GoodObjects : List Bytes → Prop
  | [] => True
  | [_] => False
  | _ :: vars :: rest => (∀ value ∈ bars vars, (61 : UInt8) ∈ value) ∧ GoodObjects rest

def Replayable (key dbop op : Bytes) (jj : List Bytes) : Prop :=
  if op ∈ bulkOps then (58 : UInt8) ∈ key ∧ (op = ascii "bulkremove" ∨ GoodObjects jj)
  else if op ∈ modifyingOps then dbop = ascii "D" ∨ jj.length % 2 = 0
  else op ∈ queryOps

/-- A batch, oldest record first, of which no record makes the script raise. -/
def Accepted (json : JsonArray) (modify : Bytes) : List Bytes → Prop
  | [] => True
  | key :: value :: op :: rest =>
    (∃ jj, json.decode value = some jj ∧
      (modify = ascii "0" ∨ Replayable key (op.take 1) (op.drop 1) jj)) ∧
    Accepted json modify rest
  | [_] | [_, _] => False

/-! ## Accepted batches do not fail -/

variable {json : JsonArray} {s : Server} {t : TableBase}

def Typed (t : TableBase) (s : Server) : Prop :=
  ∃ main, Hashes t s.keyspace main

theorem Typed.hset (h : Typed t s) (k f v : Bytes) :
    Ensures (hset (keyname t.tableName k) f v) s fun _ => Typed t := by
  obtain ⟨main, hashes⟩ := h
  exact hset_ensures (hashes k) ⟨_, hashes.write k _⟩

theorem Typed.del (h : Typed t s) (k : Bytes) :
    Ensures (Script.del (keyname t.tableName k)) s fun _ => Typed t := by
  obtain ⟨main, hashes⟩ := h
  exact del_ensures fun _ => ⟨_, hashes.write k 1⟩

theorem before_ensures {c text Q} (there : c ∈ text)
    (post : ∀ a, Q a s) : Ensures (before c text) s Q := by
  rw [before, if_pos there]
  exact .pure (post _)

theorem after_ensures {c text Q} (there : c ∈ text)
    (post : ∀ a, Q a s) : Ensures (after c text) s Q := by
  rw [after, if_pos there]
  exact .pure (post _)

variable {jj : List Bytes}

theorem hsetWords_typed {k} (even : jj.length % 2 = 0) (h : Typed t s) :
    Ensures (hsetWords (keyname t.tableName k) jj) s fun _ => Typed t := by
  induction jj using hsetWords.induct generalizing s with
  | case1 => exact .pure h
  | case2 word => simp at even
  | case3 field value rest ih =>
    refine .bind ((h.hset k field value).mono fun _ s' typed => ih ?_ typed)
    simp only [List.length_cons] at even
    omega

theorem bulkObject_typed {removes : Bool} {k vars}
    (good : removes ∨ ∀ value ∈ bars vars, (61 : UInt8) ∈ value) (h : Typed t s) :
    Ensures (bulkObject removes (keyname t.tableName k) vars) s fun _ => Typed t := by
  cases removes with
  | true => exact .bind ((h.del k).mono fun _ _ typed => .pure typed)
  | false =>
    have good := good.resolve_left (by simp)
    refine foldEach_ensures (fun _ _ => Typed t) h fun seen value rest _ s' split typed => ?_
    have there := good value (by simp [split])
    refine .bind (before_ensures there fun attr => .bind (after_ensures there fun val => ?_))
    exact .bind ((typed.hset k attr val).mono fun _ _ typed => .pure typed)

theorem bulk_keyname (tablename objectType field : Bytes) :
    tablename ++ ascii ":" ++ objectType ++ ascii ":" ++ field =
      keyname tablename (objectType ++ ascii ":" ++ field) := by
  rw [keyname, if_neg (by simp [ascii])]
  simp

theorem bulkWords_typed {removes : Bool} {objectType}
    (good : removes ∨ GoodObjects jj) (h : Typed t s) :
    Ensures (bulkWords removes (t.tableName ++ ascii ":" ++ objectType) jj) s fun _ => Typed t := by
  induction jj using GoodObjects.induct generalizing s with
  | case1 => exact .pure h
  | case2 field =>
    have good := good.resolve_right id
    rw [bulkWords, if_pos good, bulk_keyname]
    exact bulkObject_typed (.inl good) h
  | case3 field vars rest ih =>
    rw [bulkWords, bulk_keyname]
    refine .bind ((bulkObject_typed (good.imp_right And.left) h).mono fun _ s' typed => ?_)
    exact ih (good.imp_right And.right) typed

theorem replay_typed {key dbop op} (good : Replayable key dbop op jj) (h : Typed t s) :
    Ensures (replay t.tableName key dbop op jj) s fun _ => Typed t := by
  unfold Replayable at good
  unfold replay
  by_cases bulk : op ∈ bulkOps
  · rw [if_pos bulk] at good ⊢
    refine .bind (before_ensures good.1 fun objectType => ?_)
    exact bulkWords_typed (good.2.imp_left (by simpa using ·)) h
  · rw [if_neg bulk] at good ⊢
    by_cases modifying : op ∈ modifyingOps
    · rw [if_pos modifying] at good ⊢
      by_cases removes : dbop = ascii "D"
      · rw [if_pos removes]
        exact .bind ((h.del key).mono fun _ _ typed => .pure typed)
      · rw [if_neg removes]
        exact hsetWords_typed (good.resolve_left removes) h
    · rw [if_neg modifying] at good ⊢
      rw [if_pos good]
      exact .pure h

theorem popLoop_completes {modify batch}
    (accepted : Accepted json modify batch) (rets : List (List Bytes)) (h : Typed t s) :
    Ensures (popLoop json t.tableName modify batch rets) s fun _ => Typed t := by
  induction batch using Accepted.induct generalizing s rets with
  | case1 => exact .pure h
  | case2 key value op rest ih =>
    obtain ⟨⟨jj, decoded, good⟩, accepted⟩ := accepted
    simp only [popLoop, decoded]
    by_cases skip : modify = ascii "0"
    · rw [if_pos skip]
      exact ih accepted _ h
    · rw [if_neg skip]
      refine .bind ((replay_typed (good.resolve_left skip) h).mono fun _ s' typed => ?_)
      exact ih accepted _ typed
  | case3 | case4 => exact accepted.elim

/-! ## The batch is gone either way -/

section Preserves

variable {I : Server → Prop} {tablename : Bytes}
  (kept : ∀ k s v, I s → I (s.write (keyname tablename k) v))
include kept

theorem hsetWords_preserves (k : Bytes) (jj : List Bytes) :
    Preserves I (hsetWords (keyname tablename k) jj) := by
  induction jj using hsetWords.induct with
  | case1 => exact .pure _
  | case2 word => exact .raise _
  | case3 field value rest ih => exact (hset_preserves (kept k) field value).bind fun _ => ih

omit kept in
theorem before_preserves (c : UInt8) (text : Bytes) : Preserves I (before c text) := by
  unfold before
  split
  · exact .pure _
  · exact .raise _

omit kept in
theorem after_preserves (c : UInt8) (text : Bytes) : Preserves I (after c text) := by
  unfold after
  split
  · exact .pure _
  · exact .raise _

theorem bulkObject_preserves (removes : Bool) (k vars : Bytes) :
    Preserves I (bulkObject removes (keyname tablename k) vars) := by
  unfold bulkObject
  split
  · exact (del_preserves (kept k)).bind fun _ => .pure _
  · refine foldEach_preserves (fun value _ => ?_) _ _
    refine (before_preserves 61 value).bind fun attr =>
      (after_preserves 61 value).bind fun val => ?_
    exact (hset_preserves (kept k) attr val).bind fun _ => .pure _

theorem bulkWords_preserves (removes : Bool) (objectType : Bytes) (jj : List Bytes) :
    Preserves I (bulkWords removes (tablename ++ ascii ":" ++ objectType) jj) := by
  induction jj using GoodObjects.induct with
  | case1 => exact .pure _
  | case2 field =>
    rw [bulkWords, bulk_keyname]
    split
    · exact bulkObject_preserves kept _ _ _
    · exact .raise _
  | case3 field vars rest ih =>
    rw [bulkWords, bulk_keyname]
    exact (bulkObject_preserves kept _ _ _).bind fun _ => ih

theorem replay_preserves (key dbop op : Bytes) (jj : List Bytes) :
    Preserves I (replay tablename key dbop op jj) := by
  unfold replay
  split
  · exact (before_preserves 58 key).bind fun objectType => bulkWords_preserves kept _ _ _
  · split
    · split
      · exact (del_preserves (kept key)).bind fun _ => .pure _
      · exact hsetWords_preserves kept key jj
    · split
      · exact .pure _
      · exact .raise _

theorem popLoop_preserves (modify : Bytes) (batch : List Bytes) (rets : List (List Bytes)) :
    Preserves I (popLoop json tablename modify batch rets) := by
  induction batch using Accepted.induct generalizing rets with
  | case1 => exact .pure _
  | case2 key value op rest ih =>
    rw [popLoop]
    cases json.decode value with
    | none => exact .raise _
    | some jj =>
      dsimp only
      split
      · exact ih _
      · exact (replay_preserves kept _ _ _ _).bind fun _ => ih _
  | case3 | case4 => exact .raise _

end Preserves

variable {c : ConsumerTable} {l : List Bytes}

theorem popCommand_trims (json : JsonArray) (nulFree : 0 ∉ c.tableName)
    (batch : 1 ≤ c.POP_BATCH_SIZE)
    (queue : s.keyspace.listAt c.getKeyValueOpQueueTableName = some l) :
    (c.popCommand json s).2.keyspace.listAt c.getKeyValueOpQueueTableName =
      some (l.take (l.length - c.POP_BATCH_SIZE * 3)) := by
  rw [popCommand_run nulFree batch queue]
  refine popLoop_preserves (I := fun s' => s'.keyspace.listAt c.getKeyValueOpQueueTableName =
    some (l.take (l.length - c.POP_BATCH_SIZE * 3))) (fun k s' v trimmed => ?_) _ _ _ _ ?_
  · rw [listAt, Server.write_keyspace, getElem?_write_of_ne (keyname_ne_queueName c.toTableBase k)]
    exact trimmed
  · simp only [listAt, Server.write_keyspace, getElem?_write_self, Value.list?_ofList]

theorem popCommand_refused (json : JsonArray) (nulFree : 0 ∉ c.tableName)
    (noList : s.keyspace.listAt c.getKeyValueOpQueueTableName = none) :
    (c.popCommand json s).2 = s := by
  unfold ConsumerTable.popCommand
  rw [c.cStr_queueName nulFree]
  have refused : Ends (popScript json [c.getKeyValueOpQueueTableName, cStr c.tableName]
      [decimal c.POP_BATCH_SIZE, decimal (if c.modifyRedis then 1 else 0)]) s
      fun _ s' => s' = s := by
    refine .after (argument_ensures (j := 0) rfl rfl (.after (toNumber_ensures ?_)))
    refine .after (argument_ensures (j := 0) rfl rfl (.bind ?_))
    simp only [Ends, lrange_wrongType noList]
  exact refused

/-- The script completes, or it leaves the database as it was, if it accepts the batch or there is
    no queue. -/
theorem failed_pop_unchanged (json : JsonArray) {main : Bytes → Hash}
    (nulFree : (0 : UInt8) ∉ c.tableName) (batch : 1 ≤ c.POP_BATCH_SIZE)
    (hashes : Hashes c.toTableBase s.keyspace main)
    (accepted : ∀ l, s.keyspace.listAt c.getKeyValueOpQueueTableName = some l →
      Accepted json (decimal (if c.modifyRedis then 1 else 0))
        (l.drop (l.length - c.POP_BATCH_SIZE * 3)).reverse) :
    (∃ rets, (c.popCommand json s).1 = .ok rets) ∨ (c.popCommand json s).2 = s := by
  cases queue : s.keyspace.listAt c.getKeyValueOpQueueTableName with
  | none => exact .inr (popCommand_refused json nulFree queue)
  | some l =>
    have typed : Typed c.toTableBase (s.write c.getKeyValueOpQueueTableName
        (Value.ofList (l.take (l.length - c.POP_BATCH_SIZE * 3)))) := by
      refine ⟨main, fun k => ?_⟩
      rw [hashAt, Server.write_keyspace, getElem?_write_of_ne (keyname_ne_queueName _ k).symm]
      exact hashes k
    obtain ⟨rets, s', ran, -⟩ := popLoop_completes (accepted l queue) [] typed
    rw [← popCommand_run nulFree batch queue] at ran
    exact .inl ⟨rets, by rw [ran]⟩

/-! ## Records the script breaks at -/

section Broken

private def asicTable : TableBase := ⟨ascii "ASIC_STATE", .colon⟩

private def asicConsumer (batch : Nat) : ConsumerTable := ⟨asicTable, batch, true⟩

private def pair : List Bytes := [ascii "oid:0x1", ascii "MTU"]

private def pairJson : JsonArray :=
  .only pair (ascii "[\"oid:0x1\",\"MTU\"]") (by decide) (by decide)

private def queued (elements : List Bytes) : Server :=
  ⟨(∅ : Keyspace).write asicTable.getKeyValueOpQueueTableName (Value.ofList elements), []⟩

private def record (key value op : Bytes) : List Bytes := [op, value, key]

private def goodRecord : List Bytes :=
  record (ascii "SWITCH") (ascii "[\"oid:0x1\",\"MTU\"]") (ascii "Sset")

private theorem queued_typed (elements : List Bytes) :
    Hashes asicTable (queued elements).keyspace fun _ => 1 := by
  intro k
  rw [hashAt, queued, getElem?_write_of_ne (keyname_ne_queueName _ k).symm]
  rfl

/-- A record that is replayed to its end. -/
theorem failed_pop_unchanged_set :
    ∃ rets, ((asicConsumer 2).popCommand pairJson (queued goodRecord)).1 = .ok rets := by
  have accepted : Accepted pairJson (decimal 1) goodRecord.reverse :=
    ⟨⟨pair, rfl, .inr (.inr rfl)⟩, trivial⟩
  have unchanged := failed_pop_unchanged (c := asicConsumer 2) pairJson (by decide) (by decide)
    (queued_typed goodRecord) (by
      intro l queue
      obtain rfl : goodRecord = l := Option.some.inj queue
      exact accepted)
  refine unchanged.resolve_right fun same => ?_
  have trimmed := congrArg (·.keyspace.listAt asicTable.getKeyValueOpQueueTableName) same
  exact absurd trimmed (by decide)

private def unknownOperation : List Bytes :=
  record (ascii "SWITCH") (ascii "[\"oid:0x1\",\"MTU\"]") (ascii "Sclone")

private def undecodable : List Bytes := record (ascii "SWITCH") (ascii "[") (ascii "Sset")

private def keyWithoutColon : List Bytes :=
  record (ascii "SWITCH") (ascii "[\"oid:0x1\",\"MTU\"]") (ascii "Sbulkset")

private def attributeWithoutValue : List Bytes :=
  record (ascii "PORT:1") (ascii "[\"oid:0x1\",\"MTU\"]") (ascii "Sbulkset")

/-- Behind a good record the script raises, but the good one has been replayed and both
    have left the queue. -/
private def Loses (broken : List Bytes) : Prop :=
  let s := queued (broken ++ goodRecord)
  let after := (asicConsumer 2).popCommand pairJson s
  after.1.isOk = false ∧
    s.keyspace.listAt asicTable.getKeyValueOpQueueTableName = some (broken ++ goodRecord) ∧
    after.2.keyspace.listAt asicTable.getKeyValueOpQueueTableName = some [] ∧
    s.keyspace.hashAt (asicTable.mainName (ascii "SWITCH")) = some 1 ∧
    after.2.keyspace.hashAt (asicTable.mainName (ascii "SWITCH")) =
      some (Hash.ofFields [(ascii "oid:0x1", ascii "MTU")])

/-- The four ways a record can break each take the batch with them. -/
theorem failed_pop_loses :
    Loses unknownOperation ∧ Loses undecodable ∧ Loses keyWithoutColon ∧
      Loses attributeWithoutValue := by
  refine ⟨?_, ?_, ?_, ?_⟩ <;> unfold Loses <;> dsimp only <;> decide +kernel

end Broken

end SwssCommon.QueueTable
