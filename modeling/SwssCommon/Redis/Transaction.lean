import SwssCommon.Lib.Ownership
import SwssCommon.Redis.Connector

/-! # RedisTransactioner

Between `MULTI` and `EXEC` the server queues the commands of a connection. `EXEC` answers with an
array of all their replies, each an object of its own. They are compared with the types that were
given and then handed out one by one. The connection may be lost, and the server may abort a
transaction.
-/

namespace SwssCommon

open Bytes Redis Throwing List RedisReply DBConnector

inductive TransactionRequest (κ : Type) where
  | MULTI
  | EXEC
  | command (c : κ)

/-- The other end of such a connection, which gives no answer once it is lost, and how requests are
    quoted in errors. -/
structure TransactionPeer (σ κ : Type) where
  answer : TransactionRequest κ → σ → Option RedisReply × σ
  toPrintableString : TransactionRequest κ → Bytes

namespace RedisTransactioner

/-- A `redisReply *`. -/
structure Pointer where
  object : Nat
  reply : RedisReply

/-- A reply as it is allocated: the object itself and its elements, if it is an array. -/
structure Allocated where
  self : Pointer
  element : List Pointer

/-- All that `freeReplyObject` frees. -/
def Allocated.objects (r : Allocated) : List Nat :=
  r.self.object :: r.element.map Pointer.object

/-- Pointers to replies that are allocated one after the other. -/
def number (first : Nat) : List RedisReply → List Pointer
  | [] => []
  | r :: rest => ⟨first, r⟩ :: number (first + 1) rest

end RedisTransactioner

/-- The object, with the other end of its connection, the replies there have been and those it has
    given away. -/
structure RedisTransactioner (σ : Type) where
  server : σ
  expectedResults : List Int
  results : List RedisTransactioner.Pointer
  replies : Ledger RedisReply
  handedOut : List RedisTransactioner.Pointer

namespace RedisTransactioner

abbrev M (σ : Type) := EStateM Failure (RedisTransactioner σ)

section Calls

variable {σ κ α : Type} (peer : TransactionPeer σ κ)

def lift (check : Except SystemError Unit) : M σ Unit :=
  match check with
  | .ok () => pure ()
  | .error e => throw (.system e)

/-- `freeReplyObject`, which does nothing to a null pointer. -/
def free (r : Option Allocated) (s : RedisTransactioner σ) : RedisTransactioner σ :=
  { s with replies := s.replies.release (r.elim [] Allocated.objects) }

def allocation (s : RedisTransactioner σ) (r : RedisReply) : Allocated :=
  ⟨⟨s.replies.next, r⟩, number (s.replies.next + 1) (elements r)⟩

def redisGetReply (req : TransactionRequest κ) : M σ Allocated := fun s =>
  match peer.answer req s.server with
  | (none, server) =>
    .error (.runtime (ascii "Failed to redisGetReply with " ++ peer.toPrintableString req))
      { s with server }
  | (some r, server) =>
    .ok (allocation s r)
      { s with server, replies := s.replies.create (r :: elements r) }

/-- `RedisReply(ctx, command)`. A reply that is an error is freed before it is thrown. -/
def construct (req : TransactionRequest κ) : M σ Allocated := do
  let r ← redisGetReply peer req
  match RedisReply.guard r.self.reply.checkReply (peer.toPrintableString req) with
  | .ok () => pure r
  | .error e =>
    modify (free (some r))
    throw (.system e)

/-- The block of a `RedisReply`. At its end, returned or thrown, what the `RedisReply` still
    holds is freed. -/
def block (r : Allocated) (body : M σ (α × Option Allocated)) : M σ α := fun s =>
  match body s with
  | .ok (a, held) s => .ok a (free held s)
  | .error e s => .error e (free (some r) s)

/-- `checkReplyType` as the constructor with an expected type calls it. -/
def checkReplyType (req : TransactionRequest κ) (r : Allocated) (expectedType : Int) : M σ Unit :=
  lift (RedisReply.guard (r.self.reply.checkReplyType expectedType) (peer.toPrintableString req))

def multi : M σ Unit := do
  modify fun s => { s with expectedResults := [] }
  let r ← construct peer .MULTI
  block r do
    checkReplyType peer .MULTI r REDIS_REPLY_STATUS
    lift r.self.reply.checkStatusOK
    pure ((), some r)

def enqueue (c : κ) (expectedType : Int) : M σ Unit := do
  let r ← construct peer (.command c)
  block r do
    checkReplyType peer (.command c) r REDIS_REPLY_STATUS
    lift r.self.reply.checkStatusQueued
    modify fun s => { s with expectedResults := s.expectedResults ++ [expectedType] }
    pure ((), some r)

def clearResults : M σ Unit := modify fun s =>
  { s with replies := s.replies.release (s.results.map Pointer.object), results := [] }

/-- The check of the replies, which takes the expected types out one by one. -/
def checkTypes : List Pointer → M σ Unit
  | [] => pure ()
  | element :: rest => do
    let expectedType := (← get).expectedResults.headD 0
    modify fun s => { s with expectedResults := s.expectedResults.tail }
    if expectedType ≠ element.reply.type then throw (.system ⟨ascii "Got unexpected result"⟩)
    else checkTypes rest

def exec : M σ Bool := do
  let r ← construct peer .EXEC
  block r do
    match r.self.reply with
    | .array _ =>
      if r.element.length ≠ (← get).expectedResults.length then
        throw (.system ⟨ascii "Got to different number of answers!"⟩)
      else
        clearResults
        checkTypes r.element
        modify fun s => { s with results := s.results ++ r.element }
        -- after `release` only the array is freed, without its elements
        modify fun s => { s with replies := s.replies.release [r.self.object] }
        pure (true, none)
    -- if meet error in transaction
    | _ => pure (false, some r)

def dequeueReply : M σ (Option Pointer) := modifyGet fun s =>
  match s.results with
  | [] => (none, s)
  | reply :: results => (some reply, { s with results, handedOut := s.handedOut ++ [reply] })

/-- `~RedisTransactioner`. -/
def destroy : M σ Unit :=
  clearResults

end Calls

/-! ## What the calls do to the queues -/

theorem map_reply_number (first : Nat) (rs : List RedisReply) :
    (number first rs).map Pointer.reply = rs := by
  induction rs generalizing first with
  | nil => rfl
  | cons r rs ih => rw [number, map_cons, ih]

theorem length_number (first : Nat) (rs : List RedisReply) :
    (number first rs).length = rs.length := by
  rw [← length_map Pointer.reply, map_reply_number]

theorem map_type_number (first : Nat) (rs : List RedisReply) :
    (number first rs).map (fun p => p.reply.type) = rs.map type := by
  conv_rhs => rw [← map_reply_number first rs, map_map]
  rfl

section Queues

variable {σ κ α : Type} {peer : TransactionPeer σ κ} {s : RedisTransactioner σ} {r : Allocated}

theorem block_ends {body : M σ (α × Option Allocated)} {Q E}
    (runs : Ends body s (fun result s' => Q result.1 (free result.2 s'))
      (fun e s' => E e (free (some r) s'))) : Ends (block r body) s Q E := by
  unfold Ends block at *
  cases ran : body s with
  | ok result s' =>
    simpa only [ran] using runs
  | error e s' => simpa only [ran] using runs

structure Undisturbed (server : σ) (s s' : RedisTransactioner σ) : Prop where
  server : s'.server = server
  expected : s'.expectedResults = s.expectedResults
  results : s'.results = s.results

theorem construct_ends (req : TransactionRequest κ) :
    Ends (construct peer req) s
      (fun r s' => (∃ reply, (peer.answer req s.server).1 = some reply ∧ r = allocation s reply) ∧
        Undisturbed (peer.answer req s.server).2 s s')
      (fun _ s' => (∀ element, (peer.answer req s.server).1 ≠ some (.array element)) ∧
        Undisturbed (peer.answer req s.server).2 s s') := by
  apply Ends.bind
  unfold Ends redisGetReply
  cases answered : peer.answer req s.server with
  | mk answer server =>
    cases answer with
    | none => exact ⟨by simp, rfl, rfl, rfl⟩
    | some reply =>
      change Ends _ _ _ _
      cases checked : guard (allocation s reply).self.reply.checkReply
          (peer.toPrintableString req) with
      | ok _ => exact Ends.pure ⟨⟨reply, rfl, rfl⟩, rfl, rfl, rfl⟩
      | error e =>
        refine ⟨?_, rfl, rfl, rfl⟩
        rintro element same
        obtain rfl := Option.some.inj same
        cases checked

theorem checkTypes_ends {types element}
    (expected : s.expectedResults = types) (length : element.length = types.length) :
    Ends (checkTypes element) s
      (fun _ s' => element.map (fun p => p.reply.type) = types ∧ s'.server = s.server ∧
        s'.results = s.results)
      (fun _ s' => element.map (fun p => p.reply.type) ≠ types ∧ s'.server = s.server ∧
        s'.results = s.results) := by
  induction element generalizing s types with
  | nil =>
    obtain rfl := length_eq_zero_iff.mp length.symm
    exact Ends.pure ⟨rfl, rfl, rfl⟩
  | cons p rest ih =>
    cases types with
    | nil => cases length
    | cons type types =>
      apply Ends.bind_get
      apply Ends.bind_modify
      rw [expected, headD_cons]
      split
      · next other => exact Ends.throw ⟨by simp [Ne.symm other], rfl, rfl⟩
      · next same =>
          apply (ih (s := { s with expectedResults := types }) rfl (by simpa using length)).mono
          · rintro _ _ ⟨rest, unchanged⟩
            exact ⟨by simp [rest, not_not.mp same], unchanged⟩
          · rintro _ _ ⟨rest, unchanged⟩
            exact ⟨by simp [rest], unchanged⟩

/-- The answer to `EXEC` is an array with as many replies as are expected. -/
def Matched (peer : TransactionPeer σ κ) (s : RedisTransactioner σ) : Prop :=
  ∃ element, (peer.answer .EXEC s.server).1 = some (.array element) ∧
    element.length = s.expectedResults.length

/-- The queue is filled with the replies if there is one of the right type for each command, emptied
    if there is one for each, and else left as it is. -/
theorem exec_ends :
    Ends (exec peer) s
      (fun done s' => s'.server = (peer.answer .EXEC s.server).2 ∧
        if done then
          (∃ element, (peer.answer .EXEC s.server).1 = some (.array element) ∧
            s'.results = (allocation s (.array element)).element) ∧
          s'.results.map (fun p => p.reply.type) = s.expectedResults
        else s'.results = s.results ∧ ¬ Matched peer s)
      (fun _ s' => s'.server = (peer.answer .EXEC s.server).2 ∧
        (s'.results = [] ∧ (∀ element, (peer.answer .EXEC s.server).1 = some (.array element) →
            element.map type ≠ s.expectedResults) ∨
          s'.results = s.results ∧ ¬ Matched peer s)) := by
  apply Ends.bind
  apply (construct_ends .EXEC).mono
  · rintro r s' ⟨⟨reply, answered, rfl⟩, undisturbed⟩
    apply block_ends
    cases reply with
    | array element =>
      have length : (allocation s (.array element)).element.length = element.length :=
        length_number _ _
      apply Ends.bind_get
      split
      · next other =>
          refine ⟨undisturbed.server, .inr ⟨undisturbed.results, ?_⟩⟩
          rintro ⟨element', answered', sameLength⟩
          rw [answered, Option.some.injEq, array.injEq] at answered'
          rw [length, undisturbed.expected, answered'] at other
          exact other sameLength
      · next same =>
          apply Ends.bind_modify
          apply Ends.bind
          refine (checkTypes_ends ?_ (not_not.mp same)).mono ?_ ?_
          · rfl
          · rintro _ s'' ⟨types, server, results⟩
            have kept : s''.results ++ (allocation s (.array element)).element =
                (allocation s (.array element)).element := by simp [results]
            refine ⟨server.trans undisturbed.server, ⟨element, answered, kept⟩, ?_⟩
            change (s''.results ++ _).map _ = _
            rw [kept, types]
            exact undisturbed.expected
          · rintro _ s'' ⟨types, server, results⟩
            refine ⟨server.trans undisturbed.server, .inl ⟨results, ?_⟩⟩
            rintro element' answered' typed
            rw [answered, Option.some.injEq, array.injEq] at answered'
            apply types
            change (number _ element).map _ = _
            rw [map_type_number, answered', typed]
            exact undisturbed.expected.symm
    | string _ | integer _ | nil | status _ | error _ =>
      refine Ends.pure ⟨undisturbed.server, undisturbed.results, ?_⟩
      rintro ⟨element, answered', -⟩
      rw [answered] at answered'
      cases answered'
  · rintro _ s' ⟨noArray, undisturbed⟩
    refine ⟨undisturbed.server, .inr ⟨undisturbed.results, ?_⟩⟩
    rintro ⟨element, answered, -⟩
    exact noArray element answered

theorem dequeueReply_nil (empty : s.results = []) : dequeueReply s = .ok none s := by
  obtain ⟨server, expected, results, replies, handedOut⟩ := s
  obtain rfl : results = [] := empty
  rfl

theorem dequeueReply_cons {p results}
    (first : s.results = p :: results) :
    dequeueReply s = .ok (some p) { s with results, handedOut := s.handedOut ++ [p] } := by
  obtain ⟨server, expected, results', replies, handedOut⟩ := s
  obtain rfl : results' = _ := first
  rfl

end Queues

end RedisTransactioner

/-! ## The connection at the server -/

/-- The database, and what the connection has queued since `MULTI`. -/
structure Connection where
  db : Keyspace
  queued : Option (List RedisCommand)

namespace Connection

def executeAll (server : RedisServer) (ks : Keyspace) :
    List RedisCommand → List RedisReply × Keyspace
  | [] => ([], ks)
  | command :: rest =>
    let (r, ks) := command.execute server ks
    let (rs, ks) := executeAll server ks rest
    (r :: rs, ks)

def answer (server : RedisServer) (request : TransactionRequest RedisCommand) (s : Connection) :
    RedisReply × Connection :=
  match request, s.queued with
  | .MULTI, none => (.status (ascii "OK"), { s with queued := some [] })
  | .MULTI, some _ => (.error (ascii "ERR MULTI calls can not be nested"), s)
  | .EXEC, none => (.error (ascii "ERR EXEC without MULTI"), s)
  | .EXEC, some commands =>
    let (rs, db) := executeAll server s.db commands
    (.array rs, ⟨db, none⟩)
  | .command c, none =>
    let (r, db) := c.execute server s.db
    (r, { s with db })
  | .command c, some commands =>
    (.status (ascii "QUEUED"), { s with queued := some (commands ++ [c]) })

def peer (server : RedisServer) : TransactionPeer Connection RedisCommand where
  answer request s :=
    let (r, s) := answer server request s
    (some r, s)
  toPrintableString
    | .MULTI => ascii "MULTI"
    | .EXEC => ascii "EXEC"
    | .command c => server.toPrintableString c.argv

end Connection

namespace RedisTransactioner

variable {server : RedisServer} {s : RedisTransactioner Connection}

/-- A transaction that is open, with these commands and the types of their replies. -/
structure Open (s : RedisTransactioner Connection) (db : Keyspace)
    (commands : List (RedisCommand × Int)) : Prop where
  db : s.server.db = db
  queued : s.server.queued = some (commands.map Prod.fst)
  expected : s.expectedResults = commands.map Prod.snd

theorem multi_opens (closed : s.server.queued = none) :
    Ends (multi (Connection.peer server)) s (fun _ s' => Open s' s.server.db [])
      (fun _ _ => False) := by
  obtain ⟨⟨db, queued⟩, expected, results, replies, handedOut⟩ := s
  obtain rfl : queued = none := closed
  exact ⟨rfl, rfl, rfl⟩

variable {db : Keyspace} {commands : List (RedisCommand × Int)}

theorem enqueue_queues (opened : Open s db commands) (c : RedisCommand) (expectedType : Int) :
    Ends (enqueue (Connection.peer server) c expectedType) s
      (fun _ s' => Open s' db (commands ++ [(c, expectedType)])) (fun _ _ => False) := by
  obtain ⟨⟨db', queued⟩, expected, results, replies, handedOut⟩ := s
  obtain ⟨rfl, queued', rfl⟩ := opened
  obtain rfl : queued = _ := queued'
  exact ⟨rfl, by simp [free], by simp [free]⟩

theorem enqueueAll_queues {α : Type} (opened : Open s db commands) (items : List α)
    (command : α → RedisCommand) (expectedType : Int) :
    Ends (items.forM fun a => enqueue (Connection.peer server) (command a) expectedType) s
      (fun _ s' => Open s' db (commands ++ items.map fun a => (command a, expectedType)))
      (fun _ _ => False) := by
  induction items generalizing s commands with
  | nil =>
    apply Ends.pure
    simpa using opened
  | cons a items ih =>
    apply (enqueue_queues opened (command a) expectedType).andThen
    intro _ s' after
    apply (ih after).mono _ fun _ _ never => never
    intro _ s'' final
    simpa using final

variable (server) in
theorem length_executeAll (ks : Keyspace) (commands : List RedisCommand) :
    (Connection.executeAll server ks commands).1.length = commands.length := by
  induction commands generalizing ks with
  | nil => rfl
  | cons command rest ih => simp [Connection.executeAll, ih]

theorem exec_executes {db' rs} (opened : Open s db commands)
    (executed : Connection.executeAll server db (commands.map Prod.fst) = (rs, db')) :
    Ends (exec (Connection.peer server)) s
      (fun _ s' => rs.map type = commands.map Prod.snd ∧ s'.server = ⟨db', none⟩ ∧
        s'.results.map Pointer.reply = rs)
      (fun _ s' => rs.map type ≠ commands.map Prod.snd ∧ s'.server = ⟨db', none⟩) := by
  have answered : (Connection.peer server).answer .EXEC s.server =
      (some (.array rs), ⟨db', none⟩) := by
    change (match Connection.answer server .EXEC s.server with | (r, s) => (some r, s)) = _
    unfold Connection.answer
    rw [opened.queued]
    simp only [opened.db, executed]
  have matched : Matched (Connection.peer server) s := by
    refine ⟨rs, congrArg Prod.fst answered, ?_⟩
    have counted := length_executeAll server db (commands.map Prod.fst)
    rw [executed] at counted
    simpa [opened.expected] using counted
  rw [← opened.expected]
  apply exec_ends.mono
  · rintro done s' ⟨server, filled⟩
    rw [answered] at server filled
    cases done with
    | false => exact absurd matched filled.2
    | true =>
      obtain ⟨⟨element, same, results⟩, types⟩ := filled
      obtain rfl : rs = element := array.inj (Option.some.inj same)
      have replies : s'.results.map Pointer.reply = rs := by
        rw [results]
        exact map_reply_number _ _
      refine ⟨?_, server, replies⟩
      rw [← types, ← replies, map_map]
      rfl
  · rintro _ s' ⟨server, left⟩
    rw [answered] at server left
    cases left with
    | inl emptied => exact ⟨emptied.2 rs rfl, server⟩
    | inr kept => exact absurd matched kept.2

end RedisTransactioner

end SwssCommon
