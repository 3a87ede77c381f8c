import SwssCommon.Lib.Run
import SwssCommon.Redis.TransactionReplies

/-! # Whose replies a transaction gives

A session is a `RedisTransactioner` with the types of the commands, the replies of the latest
`exec`, and those that were handed out since. What `dequeueReply` has given and is going to give are
to be those replies.
-/

namespace SwssCommon

open Bytes Throwing List RedisReply DBConnector RedisTransactioner

namespace TransactionReplies

/-! ## What the calls do to the queues -/

section Queues

variable {σ κ : Type} {peer : TransactionPeer σ κ} {s : RedisTransactioner σ}

theorem lift_ends (check : Except SystemError Unit) :
    Ends (lift check) s (fun _ s' => check = .ok () ∧ s' = s) (fun _ s' => s' = s) := by
  cases check with
  | ok _ => exact Ends.pure ⟨rfl, rfl⟩
  | error e => exact Ends.throw rfl

theorem multi_ends :
    Ends (multi peer) s (fun _ s' => s'.expectedResults = [] ∧ s'.results = s.results)
      (fun _ s' => s'.expectedResults = [] ∧ s'.results = s.results) := by
  apply Ends.bind_modify
  apply Ends.bind
  apply (construct_ends .MULTI).mono
  · rintro r s' ⟨-, -, expected, results⟩
    apply block_ends
    apply Ends.bind
    apply (lift_ends _).mono
    · rintro _ _ ⟨-, rfl⟩
      apply Ends.bind
      apply (lift_ends _).mono
      · rintro _ _ ⟨-, rfl⟩
        exact Ends.pure ⟨expected, results⟩
      · rintro _ _ rfl
        exact ⟨expected, results⟩
    · rintro _ _ rfl
      exact ⟨expected, results⟩
  · rintro _ s' ⟨-, -, expected, results⟩
    exact ⟨expected, results⟩

def Queued (peer : TransactionPeer σ κ) (c : κ) (server : σ) : Prop :=
  ∃ str, (peer.answer (.command c) server).1 = some (.status str) ∧ cStr str = ascii "QUEUED"

theorem queued_of_checks {r c command server}
    (answered : (peer.answer (.command c) server).1 = some r)
    (type : guard (r.checkReplyType REDIS_REPLY_STATUS) command = .ok ())
    (status : r.checkStatusQueued = .ok ()) : Queued peer c server := by
  have sameType : r.type = REDIS_REPLY_STATUS := by
    by_contra other
    rw [RedisReply.checkReplyType, if_pos other] at type
    cases type
  have sameText : cStr r.str = ascii "QUEUED" := by
    by_contra other
    rw [checkStatusQueued, checkStatus, if_pos other] at status
    cases status
  cases r with
  | status str => exact ⟨str, answered, sameText⟩
  | string _ | array _ | integer _ | nil | error _ => cases sameType

theorem enqueue_ends (c : κ) (expectedType : Int) :
    Ends (enqueue peer c expectedType) s
      (fun _ s' => Queued peer c s.server ∧ s'.server = (peer.answer (.command c) s.server).2 ∧
        s'.expectedResults = s.expectedResults ++ [expectedType] ∧ s'.results = s.results)
      (fun _ s' => Undisturbed (peer.answer (.command c) s.server).2 s s') := by
  apply Ends.bind
  apply (construct_ends (.command c)).mono _ fun _ _ ends => ends.2
  rintro r s' ⟨⟨reply, answered, rfl⟩, undisturbed⟩
  have freed : Undisturbed (peer.answer (.command c) s.server).2 s
      (free (some (allocation s reply)) s') := ⟨undisturbed.1, undisturbed.2, undisturbed.3⟩
  apply block_ends
  apply Ends.bind
  apply (lift_ends _).mono
  · rintro _ _ ⟨type, rfl⟩
    apply Ends.bind
    apply (lift_ends _).mono
    · rintro _ s' ⟨status, rfl⟩
      refine ⟨queued_of_checks answered type status, undisturbed.server, ?_, undisturbed.results⟩
      exact congrArg (· ++ [expectedType]) undisturbed.expected
    · rintro _ _ rfl
      exact freed
  · rintro _ _ rfl
    exact freed

end Queues

/-! ## Sequences of calls -/

inductive Call (κ : Type) where
  | multi
  | enqueue (c : κ) (expectedType : Int)
  | exec
  | dequeueReply

/-- The object, the types given with the commands since the last `multi`, the replies of the latest
    `exec` with their types (none unless it returned true), and what `dequeueReply` has given since.
    -/
structure Session (σ : Type) where
  object : RedisTransactioner σ
  enqueued : List Int
  latest : List Pointer
  asked : List Int
  given : List Pointer

namespace Session

variable {σ κ : Type} (peer : TransactionPeer σ κ)

def start (server : σ) : Session σ :=
  ⟨⟨server, [], [], .start, []⟩, [], [], [], []⟩

/-- The replies that the server gives to `EXEC`. -/
def executed (s : Session σ) : List Pointer :=
  match (peer.answer .EXEC s.object.server).1 with
  | some reply => (allocation s.object reply).element
  | none => []

variable (s : Session σ)

def afterEnqueue (expectedType : Int) :
    EStateM.Result Failure (RedisTransactioner σ) Unit → Session σ
  | .ok _ object => { s with object, enqueued := s.enqueued ++ [expectedType] }
  | .error _ object => { s with object }

def afterExec : EStateM.Result Failure (RedisTransactioner σ) Bool → Session σ
  | .ok true object =>
    { s with object, latest := s.executed peer, asked := s.enqueued, given := [] }
  | .ok false object | .error _ object =>
    { s with object, latest := [], asked := [], given := [] }

def afterDequeueReply :
    EStateM.Result Failure (RedisTransactioner σ) (Option Pointer) → Session σ
  | .ok p object => { s with object, given := s.given ++ p.toList }
  | .error _ object => { s with object }

def call : Call κ → Session σ
  | .multi => { s with object := endState (multi peer s.object), enqueued := [] }
  | .enqueue c expectedType =>
    s.afterEnqueue expectedType (enqueue peer c expectedType s.object)
  | .exec => s.afterExec peer (exec peer s.object)
  | .dequeueReply => s.afterDequeueReply (dequeueReply s.object)

def Step (s : Session σ) (c : Call κ) (t : Session σ) : Prop :=
  t = s.call peer c

/-- A step whose `exec`, if it is one, gets a reply for each command, or finds nothing left of
    the transaction before. -/
def CleanStep (s : Session σ) (c : Call κ) (t : Session σ) : Prop :=
  t = s.call peer c ∧ (c = .exec → Matched peer s.object ∨ s.object.results = [])

end Session

/-- The documentation of Redis on `MULTI` and `EXEC`: only in an `opened` connection are commands
    queued and is `EXEC` answered with an array, and `EXEC` ends it. -/
structure Protocol {σ κ : Type} (peer : TransactionPeer σ κ) (opened : σ → Prop) : Prop where
  array_opened : ∀ server element, (peer.answer .EXEC server).1 = some (.array element) →
    opened server
  exec_closes : ∀ server, ¬ opened (peer.answer .EXEC server).2
  queued_opened : ∀ c server, Queued peer c server → opened server
  command_opened : ∀ c server, opened (peer.answer (.command c) server).2 → opened server

namespace Session

variable {σ κ : Type} {peer : TransactionPeer σ κ} {opened : σ → Prop} {s : Session σ}

theorem object_afterEnqueue (expectedType : Int)
    (r : EStateM.Result Failure (RedisTransactioner σ) Unit) :
    (s.afterEnqueue expectedType r).object = endState r := by
  cases r <;> rfl

theorem object_afterExec (r : EStateM.Result Failure (RedisTransactioner σ) Bool) :
    (s.afterExec peer r).object = endState r := by
  cases r with
  | ok done object => cases done <;> rfl
  | error e object => rfl

theorem accounted_call (accounted : Accounted s.object) (c : Call κ) :
    Accounted (s.call peer c).object := by
  cases c with
  | multi => exact (multi_accounted peer).endState accounted
  | enqueue c expectedType =>
    rw [call, object_afterEnqueue]
    exact (enqueue_accounted peer c expectedType).endState accounted
  | exec =>
    rw [call, object_afterExec]
    exact (exec_accounted peer).endState accounted
  | dequeueReply =>
    exact dequeueReply_accounted.endState accounted

/-- What has been handed out since the latest `exec`, and what is to be, are its replies in order,
    of the types that were given. -/
structure Current (s : Session σ) : Prop where
  replies : s.given ++ s.object.results = s.latest
  types : s.latest.map (fun p => p.reply.type) = s.asked

/-- Moreover the object knows which types to expect, as long as a transaction is open. -/
structure Following (opened : σ → Prop) (s : Session σ) : Prop extends Current s where
  expected : opened s.object.server → s.object.expectedResults = s.enqueued

theorem current_nothing {object : RedisTransactioner σ} (results : object.results = [])
    (enqueued : List Int) : Current ⟨object, enqueued, [], [], []⟩ :=
  ⟨results, rfl⟩

theorem Following.multi (h : Following opened s) : Following opened (s.call peer .multi) := by
  have ends := Ends.endState (multi_ends : Ends (RedisTransactioner.multi peer) s.object _ _)
  constructor
  · constructor
    · change s.given ++ (endState (RedisTransactioner.multi peer s.object)).results = s.latest
      rw [ends.2]
      exact h.replies
    · exact h.types
  · intro _
    exact ends.1

theorem Following.enqueue (laws : Protocol peer opened) (h : Following opened s) (c : κ)
    (expectedType : Int) : Following opened (s.call peer (.enqueue c expectedType)) := by
  have ends : Ends (RedisTransactioner.enqueue peer c expectedType) s.object _ _ :=
    enqueue_ends c expectedType
  change Following opened (s.afterEnqueue expectedType
    (RedisTransactioner.enqueue peer c expectedType s.object))
  cases ran : RedisTransactioner.enqueue peer c expectedType s.object with
  | ok _ object =>
    obtain ⟨queued, -, expected, results⟩ := ends.of_returned ran
    constructor
    · constructor
      · change s.given ++ object.results = s.latest
        rw [results]
        exact h.replies
      · exact h.types
    · intro _
      change object.expectedResults = s.enqueued ++ [expectedType]
      rw [expected, h.expected (laws.queued_opened c _ queued)]
  | error _ object =>
    obtain ⟨server, expected, results⟩ := ends.of_thrown ran
    constructor
    · constructor
      · change s.given ++ object.results = s.latest
        rw [results]
        exact h.replies
      · exact h.types
    · intro isOpen
      change opened object.server at isOpen
      rw [server] at isOpen
      change object.expectedResults = s.enqueued
      rw [expected, h.expected (laws.command_opened c _ isOpen)]

theorem Following.exec (laws : Protocol peer opened) (h : Following opened s)
    (clean : Matched peer s.object ∨ s.object.results = []) :
    Following opened (s.call peer .exec) := by
  have ends : Ends (RedisTransactioner.exec peer) s.object _ _ := exec_ends
  -- nothing is left if the queue was not filled
  have nothing : ∀ {object : RedisTransactioner σ}, (object.results = s.object.results ∧
      ¬ Matched peer s.object) → object.results = [] := by
    rintro object ⟨same, unmatched⟩
    exact same.trans (clean.resolve_left unmatched)
  have closed : ∀ {object : RedisTransactioner σ},
      object.server = (peer.answer .EXEC s.object.server).2 → ¬ opened object.server := by
    intro object server
    rw [server]
    exact laws.exec_closes _
  change Following opened (s.afterExec peer (RedisTransactioner.exec peer s.object))
  cases ran : RedisTransactioner.exec peer s.object with
  | ok done object =>
    obtain ⟨server, filled⟩ := ends.of_returned ran
    cases done with
    | false =>
      refine ⟨current_nothing (nothing filled) _, fun isOpen => ?_⟩
      exact absurd isOpen (closed server)
    | true =>
      obtain ⟨⟨element, answered, results⟩, types⟩ := filled
      have same : object.results = s.executed peer := by
        rw [results, executed, answered]
      refine ⟨⟨same, ?_⟩, fun isOpen => absurd isOpen (closed server)⟩
      change (s.executed peer).map _ = s.enqueued
      rw [← same, types]
      exact h.expected (laws.array_opened _ element answered)
  | error _ object =>
    obtain ⟨server, left⟩ := ends.of_thrown ran
    refine ⟨current_nothing ?_ _, fun isOpen => absurd isOpen (closed server)⟩
    cases left with
    | inl emptied => exact emptied.1
    | inr kept => exact nothing kept

theorem Following.dequeueReply (h : Following opened s) :
    Following opened (s.call peer .dequeueReply) := by
  change Following opened (s.afterDequeueReply (RedisTransactioner.dequeueReply s.object))
  cases queued : s.object.results with
  | nil =>
    rw [dequeueReply_nil queued]
    refine ⟨⟨?_, h.types⟩, h.expected⟩
    change (s.given ++ []) ++ s.object.results = s.latest
    rw [append_nil]
    exact h.replies
  | cons p results =>
    rw [dequeueReply_cons queued]
    refine ⟨⟨?_, h.types⟩, h.expected⟩
    change (s.given ++ [p]) ++ results = s.latest
    rw [append_assoc, singleton_append, ← queued]
    exact h.replies

theorem Following.call (laws : Protocol peer opened) (h : Following opened s) {c}
    {t} (taken : CleanStep peer s c t) : Following opened t := by
  obtain ⟨rfl, clean⟩ := taken
  cases c with
  | multi => exact h.multi
  | enqueue c expectedType => exact h.enqueue laws c expectedType
  | exec => exact h.exec laws (clean rfl)
  | dequeueReply => exact h.dequeueReply

end Session

/-- After any calls each reply object is freed or handed out exactly once, and, if every `exec` gets
    a reply for each command or comes after all earlier replies have been taken, what `dequeueReply`
    gives are the replies of the latest `exec`, in order and of the types given, and nothing if it
    did not return true. -/
theorem replies_of_latest_exec {σ κ : Type} {peer : TransactionPeer σ κ} {opened : σ → Prop}
    (laws : Protocol peer opened) (server : σ) (calls : List (Call κ)) (s : Session σ) :
    (Run (Session.Step peer) (.start server) calls s → Accounted s.object ∧
      (endState (destroy s.object)).replies.Owned
        ((endState (destroy s.object)).handedOut.map Pointer.object)) ∧
    (Run (Session.CleanStep peer) (.start server) calls s → s.given ++ s.object.results = s.latest ∧
      s.latest.map (fun p => p.reply.type) = s.asked) := by
  constructor
  · intro run
    have accounted : Accounted s.object := by
      refine run.invariant (I := fun _ s => Accounted s.object) ?_ ?_
      · exact Ledger.owned_start
      · rintro _ s c _ before rfl
        exact Session.accounted_call before c
    refine ⟨accounted, ?_⟩
    have ends := (destroy_settles accounted).mono (fun _ _ settled => settled)
      fun _ s' never => (never.elim : s'.replies.Owned (s'.handedOut.map Pointer.object))
    exact ends.endState
  · intro run
    have following : Session.Following opened s := by
      refine run.invariant (I := fun _ s => Session.Following opened s) ?_ ?_
      · exact ⟨Session.current_nothing rfl [], fun _ => rfl⟩
      · intro _ s c t before taken
        exact before.call laws taken
    exact ⟨following.replies, following.types⟩

/-! ## A server whose transactions may be aborted -/

/-- A server that executes so many transactions and then aborts all, as if a watched key had
    been changed. -/
private structure Watching where
  executes : Nat
  isOpen : Bool

private def watching : TransactionPeer Watching Unit where
  answer
    | .MULTI, s => (some (.status (ascii "OK")), { s with isOpen := true })
    | .command _, s => (some (if s.isOpen then .status (ascii "QUEUED") else .integer 5), s)
    | .EXEC, ⟨_, false⟩ => (some (.error (ascii "ERR EXEC without MULTI")), ⟨0, false⟩)
    | .EXEC, ⟨0, true⟩ => (some .nil, ⟨0, false⟩)
    | .EXEC, ⟨n + 1, true⟩ => (some (.array [.integer 5]), ⟨n, false⟩)
  toPrintableString _ := []

private theorem watching_protocol : Protocol watching fun s => s.isOpen = true where
  array_opened := by
    rintro ⟨n, isOpen⟩ element answered
    cases isOpen with
    | false => cases answered
    | true => rfl
  exec_closes := by
    rintro ⟨n, isOpen⟩
    cases isOpen with
    | false => exact Bool.false_ne_true
    | true => cases n <;> exact Bool.false_ne_true
  queued_opened := by
    rintro c ⟨n, isOpen⟩ ⟨str, answered, -⟩
    cases isOpen with
    | false => cases answered
    | true => rfl
  command_opened _ _ isOpen := isOpen

private def answered : List (Call Unit) :=
  [.multi, .enqueue () REDIS_REPLY_INTEGER, .exec, .dequeueReply]

private def aborted : List (Call Unit) :=
  [.multi, .enqueue () REDIS_REPLY_INTEGER, .exec]

/-- What is asked for is answered; and the next transaction, aborted after the reply was taken, has
    no replies. -/
theorem replies_of_latest_exec_answered :
    ∃ s t, Run (Session.CleanStep watching) (.start ⟨1, false⟩) answered s ∧
      s.given = [⟨3, .integer 5⟩] ∧ s.given ++ s.object.results = s.latest ∧
      s.latest.map (fun p => p.reply.type) = s.asked ∧
      Run (Session.CleanStep watching) (.start ⟨1, false⟩) (answered ++ aborted) t ∧
      t.given ++ t.object.results = [] ∧ t.latest = [] := by
  have run : Run (Session.CleanStep watching) (.start ⟨1, false⟩) answered
      (answered.foldl (Session.call watching) (.start ⟨1, false⟩)) := by
    apply Run.cons ⟨rfl, by simp⟩
    apply Run.cons ⟨rfl, by simp⟩
    apply Run.cons ⟨rfl, fun _ => .inl ⟨[.integer 5], rfl, rfl⟩⟩
    exact Run.single ⟨rfl, by simp⟩
  have later : Run (Session.CleanStep watching)
      (answered.foldl (Session.call watching) (.start ⟨1, false⟩)) aborted
      ((answered ++ aborted).foldl (Session.call watching) (.start ⟨1, false⟩)) := by
    apply Run.cons ⟨rfl, by simp⟩
    apply Run.cons ⟨rfl, by simp⟩
    exact Run.single ⟨rfl, fun _ => .inr rfl⟩
  have first := (replies_of_latest_exec watching_protocol ⟨1, false⟩ answered _).2 run
  have second := (replies_of_latest_exec watching_protocol ⟨1, false⟩ (answered ++ aborted) _).2
    (run.append later)
  exact ⟨_, _, run, rfl, first.1, first.2, run.append later, second.1, rfl⟩

private def abandoned : List (Call Unit) :=
  [.multi, .enqueue () REDIS_REPLY_INTEGER, .exec,
    .multi, .enqueue () REDIS_REPLY_INTEGER, .exec, .dequeueReply]

/-- The second transaction is aborted and `exec` returns false. Then `dequeueReply` gives the
    reply of the first one. -/
theorem reply_of_earlier_exec :
    Protocol watching (fun s => s.isOpen = true) ∧
    ∃ s, Run (Session.Step watching) (.start ⟨1, false⟩) abandoned s ∧
      s.latest = [] ∧ s.given = [⟨3, .integer 5⟩] ∧ s.given ++ s.object.results ≠ s.latest := by
  have run : Run (Session.Step watching) (.start ⟨1, false⟩) abandoned
      (abandoned.foldl (Session.call watching) (.start ⟨1, false⟩)) := by
    apply Run.cons rfl
    apply Run.cons rfl
    apply Run.cons rfl
    apply Run.cons rfl
    apply Run.cons rfl
    apply Run.cons rfl
    exact Run.single rfl
  have given : (abandoned.foldl (Session.call watching) (.start ⟨1, false⟩)).given =
      [⟨3, .integer 5⟩] := rfl
  have latest : (abandoned.foldl (Session.call watching) (.start ⟨1, false⟩)).latest = [] := rfl
  refine ⟨watching_protocol, _, run, latest, given, ?_⟩
  rw [given, latest]
  exact cons_ne_nil _ _

end TransactionReplies

end SwssCommon
