import SwssCommon.QueueTable.Scripts

/-! # What popping does

The list holds whole operations, newest first, three elements each. Popping takes the oldest off the
far end and replays them in order.
-/

namespace SwssCommon

open Bytes Redis Script List Function Keyspace Value

namespace QueueTable

open ConsumerTable

/-- An operation as the producer was asked for it; `removes` if by `del`. -/
structure Operation where
  key : Bytes
  op : Bytes
  fields : List FieldValueTuple
  removes : Bool

namespace Operation

def tuple (o : Operation) : KeyOpFieldsValuesTuple :=
  ⟨o.key, o.op, o.fields⟩

def letter (o : Operation) : Bytes :=
  if o.removes then ascii "D" else ascii "S"

def text (json : JsonArray) (o : Operation) : Option Bytes :=
  if o.removes then some (ascii "\x7b\x7d") else json.dump (flatten o.fields)

/-- The elements of the operation, in the order they are pushed. -/
def words (json : JsonArray) (o : Operation) : List Bytes :=
  [o.key, (o.text json).getD [], o.letter ++ o.op]

/-- An operation that was sent: strings without NUL and an operation the script
    knows and does not treat as bulk. -/
structure Sent (json : JsonArray) (o : Operation) : Prop where
  key : (0 : UInt8) ∉ o.key
  fields : ∀ iv ∈ o.fields, (0 : UInt8) ∉ iv.1 ∧ (0 : UInt8) ∉ iv.2
  known : o.op ∈ modifyingOps ∨ o.op ∈ queryOps
  encoded : o.text json ≠ none
  bare : o.removes = true → o.fields = []

def apply (main : Bytes → Hash) (o : Operation) : Bytes → Hash :=
  if o.op ∈ modifyingOps then
    update main o.key (if o.removes then 1 else main o.key * Hash.ofFields o.fields)
  else main

variable {json : JsonArray} {o : Operation}

theorem Sent.decodes (h : o.Sent json) :
    json.decode ((o.text json).getD []) = some (flatten o.fields) := by
  have encoded := h.encoded
  cases removes : o.removes with
  | true =>
    simp only [text, removes, h.bare removes]
    exact json.decode_object
  | false =>
    simp only [text, removes] at encoded ⊢
    obtain ⟨value, dumped⟩ := Option.ne_none_iff_exists'.mp encoded
    rw [dumped, Option.getD_some]
    exact json.decode_dump dumped

private theorem known_plain :
    ∀ op, op ∈ modifyingOps ∨ op ∈ queryOps → op ∉ bulkOps ∧ 0 ∉ op := by
  have modifying : ∀ op ∈ modifyingOps, op ∉ bulkOps ∧ 0 ∉ op := by decide
  have query : ∀ op ∈ queryOps, op ∉ bulkOps ∧ 0 ∉ op := by decide +kernel
  exact fun op known => known.elim (modifying op) (query op)

theorem Sent.not_bulk (h : o.Sent json) : o.op ∉ bulkOps := (known_plain o.op h.known).1

theorem Sent.op_nulFree (h : o.Sent json) : 0 ∉ o.op := (known_plain o.op h.known).2

end Operation

/-! ## The hashes of a table -/

def Hashes (t : TableBase) (ks : Keyspace) (main : Bytes → Hash) : Prop :=
  ∀ k, ks.hashAt (keyname t.tableName k) = some (main k)

theorem keyname_of_ne_nil (tablename : Bytes) {k : Bytes} (nonempty : k ≠ []) :
    keyname tablename k = tablename ++ (58 :: k) := by
  rw [keyname, if_neg nonempty, append_assoc]
  rfl

theorem keyname_injective (tablename : Bytes) : Function.Injective (keyname tablename) := by
  have bare : ∀ {k : Bytes}, k ≠ [] → keyname tablename k ≠ keyname tablename [] := by
    intro k nonempty same
    rw [keyname_of_ne_nil tablename nonempty] at same
    simpa [keyname] using congrArg length same
  intro j k same
  by_cases emptyJ : j = []
  · by_contra different
    exact bare (fun emptyK => different (emptyJ.trans emptyK.symm)) (emptyJ ▸ same.symm)
  · by_cases emptyK : k = []
    · exact (bare emptyJ (emptyK ▸ same)).elim
    · rw [keyname_of_ne_nil tablename emptyJ, keyname_of_ne_nil tablename emptyK] at same
      exact (cons.inj (append_cancel_left same)).2

theorem keyname_ne_queueName (t : TableBase) (k : Bytes) :
    keyname t.tableName k ≠ t.getKeyValueOpQueueTableName := by
  intro same
  by_cases empty : k = []
  · rw [keyname, if_pos empty] at same
    exact absurd (self_eq_append_right.mp same) (by decide)
  · rw [keyname_of_ne_nil _ empty] at same
    have suffix : (58 :: k)[0]? = (ascii "_KEY_VALUE_OP_QUEUE")[0]? :=
      congrArg (·[0]?) (append_cancel_left same)
    exact absurd suffix (by rw [getElem?_cons_zero]; decide)

variable {t : TableBase} {main : Bytes → Hash}

theorem Hashes.write {ks} (h : Hashes t ks main) (k : Bytes) (entry : Hash) :
    Hashes t (ks.write (keyname t.tableName k) (ofHash entry))
      (update main k entry) := by
  intro j
  by_cases same : j = k
  · subst same
    rw [hashAt, getElem?_write_self, update_self]
    exact hash?_ofHash entry
  · have different : keyname t.tableName k ≠ keyname t.tableName j :=
      fun clash => same (keyname_injective _ clash).symm
    rw [hashAt, getElem?_write_of_ne different, update_of_ne same]
    exact h j

/-! ## Replaying -/

variable {json : JsonArray} {s : Server}

theorem hsetWords_ensures {name h} (fields : List FieldValueTuple)
    (found : s.keyspace.hashAt name = some h) :
    Ensures (hsetWords name (flatten fields)) s fun _ s' =>
      s' = s.write name (ofHash (h * Hash.ofFields fields)) := by
  induction fields generalizing s h with
  | nil =>
    refine .pure ?_
    rw [Hash.ofFields_nil, mul_one, ← getElem?_of_hashAt found, Server.write, write_getElem?]
  | cons iv fields ih =>
    refine .bind (hset_ensures found ?_)
    have next := ih (s := s.write name (ofHash (h.insert iv.1 iv.2)))
      (h := h.insert iv.1 iv.2) (by
        rw [hashAt, Server.write_keyspace, getElem?_write_self]
        exact hash?_ofHash _)
    refine next.mono fun _ s' after => ?_
    rw [after, Hash.insert_eq_mul, mul_assoc, ← Hash.ofFields_append]
    simp only [Server.write, write_write]
    rfl

structure Replayed (t : TableBase) (s : Server) (main : Bytes → Hash) (s' : Server) : Prop where
  hashes : Hashes t s'.keyspace main
  queue : s'.keyspace[t.getKeyValueOpQueueTableName]? = s.keyspace[t.getKeyValueOpQueueTableName]?
  quiet : s'.published = s.published

theorem Replayed.write (h : Hashes t s.keyspace main) (k : Bytes) (entry : Hash) :
    Replayed t s (update main k entry)
      (s.write (keyname t.tableName k) (ofHash entry)) where
  hashes := h.write k entry
  queue := getElem?_write_of_ne (keyname_ne_queueName t k) _ _
  quiet := rfl

theorem replay_ensures {o : Operation} (sent : o.Sent json) (h : Hashes t s.keyspace main) :
    Ensures (replay t.tableName o.key o.letter o.op (flatten o.fields)) s fun _ =>
      Replayed t s (o.apply main) := by
  unfold replay Operation.apply
  rw [if_neg sent.not_bulk]
  by_cases modifies : o.op ∈ modifyingOps
  · rw [if_pos modifies, if_pos modifies]
    cases removes : o.removes with
    | true =>
      rw [if_pos (by simp [Operation.letter, removes])]
      refine .bind (Script.del_ensures fun _ => .pure ?_)
      exact Replayed.write h o.key 1
    | false =>
      rw [if_neg (by simp only [Operation.letter, removes]; decide)]
      refine (hsetWords_ensures o.fields (h o.key)).mono fun _ s' after => ?_
      rw [after]
      exact Replayed.write h o.key _
  · rw [if_neg modifies, if_pos (sent.known.resolve_left modifies), if_neg modifies]
    exact .pure ⟨h, rfl, rfl⟩

/-! ## Popping -/

def Operation.reply (o : Operation) : List Bytes :=
  o.key :: o.op :: flatten o.fields

theorem Operation.letter_append_take (o : Operation) : (o.letter ++ o.op).take 1 = o.letter := by
  unfold letter
  split <;> rfl

theorem Operation.letter_append_drop (o : Operation) : (o.letter ++ o.op).drop 1 = o.op := by
  unfold letter
  split <;> rfl

theorem popLoop_ensures (modify : Bytes) {ops : List Operation} (sent : ∀ o ∈ ops, o.Sent json)
    (rets : List (List Bytes)) (h : Hashes t s.keyspace main) :
    Ensures (popLoop json t.tableName modify (ops.flatMap (·.words json)) rets) s fun reply s' =>
      reply = rets ++ ops.map Operation.reply ∧
        Replayed t s (if modify = ascii "0" then main else ops.foldl Operation.apply main) s' := by
  induction ops generalizing s main rets with
  | nil =>
    refine .pure ⟨by simp, ?_⟩
    rw [foldl_nil, ite_self]
    exact ⟨h, rfl, rfl⟩
  | cons o ops ih =>
    have sentO := sent o (by simp)
    have sentRest : ∀ o' ∈ ops, o'.Sent json := fun o' member => sent o' (by simp [member])
    simp only [flatMap_cons, Operation.words, cons_append, popLoop,
      sentO.decodes, Operation.letter_append_take, Operation.letter_append_drop]
    by_cases skip : modify = ascii "0"
    · rw [if_pos skip]
      refine (ih sentRest (rets ++ [o.reply]) h).mono fun reply s' after => ?_
      simpa [skip] using after
    · rw [if_neg skip]
      refine .bind ((replay_ensures sentO h).mono fun _ s₁ first => ?_)
      refine (ih sentRest (rets ++ [o.reply]) first.hashes).mono fun reply s' after => ?_
      obtain ⟨replied, after⟩ := after
      refine ⟨by simpa using replied, ?_⟩
      rw [if_neg skip] at after ⊢
      exact ⟨after.hashes, after.queue.trans first.queue, after.quiet.trans first.quiet⟩

theorem popCommand_run {c : ConsumerTable} {l} (nulFree : 0 ∉ c.tableName)
    (batch : 1 ≤ c.POP_BATCH_SIZE)
    (queue : s.keyspace.listAt c.getKeyValueOpQueueTableName = some l) :
    c.popCommand json s = popLoop json c.tableName (decimal (if c.modifyRedis then 1 else 0))
      (l.drop (l.length - c.POP_BATCH_SIZE * 3)).reverse []
      (s.write c.getKeyValueOpQueueTableName
        (ofList (l.take (l.length - c.POP_BATCH_SIZE * 3)))) := by
  unfold ConsumerTable.popCommand
  rw [c.cStr_queueName nulFree, c.cStr_tableName nulFree]
  have popsize : (c.POP_BATCH_SIZE : Int) * 3 = ((c.POP_BATCH_SIZE * 3 : Nat) : Int) := by
    rfl
  have taken := slice_last l (show 0 < c.POP_BATCH_SIZE * 3 by omega)
  have left := slice_butLast l (c.POP_BATCH_SIZE * 3)
  have rest : Ends (popScript json [c.getKeyValueOpQueueTableName, c.tableName]
      [decimal c.POP_BATCH_SIZE, decimal (if c.modifyRedis then 1 else 0)]) s fun r s' =>
        (r, s') = popLoop json c.tableName (decimal (if c.modifyRedis then 1 else 0))
          (l.drop (l.length - c.POP_BATCH_SIZE * 3)).reverse []
          (s.write c.getKeyValueOpQueueTableName
            (ofList (l.take (l.length - c.POP_BATCH_SIZE * 3)))) := by
    refine .after (argument_ensures (j := 0) rfl rfl (.after (toNumber_ensures ?_)))
    rw [popsize]
    refine .after (argument_ensures (j := 0) rfl rfl (.after (lrange_ensures queue ?_)))
    refine .after (argument_ensures (j := 0) rfl rfl (.after (ltrim_ensures queue ?_)))
    rw [taken, left]
    rfl
  exact rest

end QueueTable

end SwssCommon
