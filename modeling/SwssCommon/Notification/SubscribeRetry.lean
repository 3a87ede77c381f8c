import SwssCommon.Lib.Looping
import SwssCommon.Lib.Ownership
import SwssCommon.Redis.Reply

/-! # Subscribing until it succeeds

A `NotificationConsumer` opens a connection and subscribes on it until both have worked. A failure
deletes what the plain pointer to the connection points at and leaves the pointer; an attempt that
cannot connect does not assign it. Pointers are the numbers of the connectors.
-/

namespace SwssCommon

open Bytes

namespace NotificationConsumer

/-- How the connection of `m_db` was made. -/
inductive Endpoint where
  | tcp (host : Bytes) (port : Int)
  | unixSock (path : Bytes)

/-- The arguments with which `subscribe` creates a `DBConnector`. -/
structure ConnectorArguments where
  dbId : Int
  endpoint : Endpoint
  timeout : Nat

def NOTIFICATION_SUBSCRIBE_TIMEOUT : Nat := 1000

inductive Attempt where
  /-- The constructor of `DBConnector` throws. -/
  | unreachable (what : Bytes)
  /-- It returns, and this is the answer to `SUBSCRIBE`, unless the connection is lost. -/
  | connected (answer : Option RedisReply)

namespace Attempt

def Connects : Attempt → Prop
  | unreachable _ => False
  | connected _ => True

def Succeeds : Attempt → Prop
  | connected (some r) => r.Meets REDIS_REPLY_ARRAY
  | _ => False

end Attempt

/-- The consumer as far as its connection goes: `m_db`, `m_channel`, and `m_subscribe` with all
    connectors there have been. -/
structure Subscription where
  dbId : Int
  endpoint : Endpoint
  channel : Bytes
  subscribe : Option Nat
  connectors : Ledger ConnectorArguments

namespace Subscription

variable (s : Subscription)

/-- `m_subscribe(NULL)`. -/
def start (dbId : Int) (endpoint : Endpoint) (channel : Bytes) : Subscription :=
  ⟨dbId, endpoint, channel, none, .start⟩

/-- `m_subscribe = new DBConnector(..)`. -/
def newConnector : Subscription :=
  { s with
    subscribe := some s.connectors.next
    connectors := s.connectors.create [⟨s.dbId, s.endpoint, NOTIFICATION_SUBSCRIBE_TIMEOUT⟩] }

/-- `delete m_subscribe`, which does nothing to a null pointer. -/
def deleteSubscribe : Subscription :=
  { s with connectors := s.connectors.release s.subscribe.toList }

end Subscription

/-- `RedisReply r(m_subscribe, "SUBSCRIBE " + m_channel, REDIS_REPLY_ARRAY)`. -/
def confirm (channel : Bytes) : Option RedisReply → Except SystemError Unit
  | none => .error ⟨ascii "Failed to redisGetReply with SUBSCRIBE " ++ channel⟩
  | some r => do
    RedisReply.guard r.checkReply (ascii "SUBSCRIBE " ++ channel)
    RedisReply.guard (r.checkReplyType REDIS_REPLY_ARRAY) (ascii "SUBSCRIBE " ++ channel)

/-- `subscribe`. What is thrown is not looked at. -/
def subscribe (attempt : Attempt) : EStateM SystemError Subscription Unit := do
  match attempt with
  | .unreachable what => throw ⟨what⟩
  | .connected answer =>
    modify Subscription.newConnector
    MonadExcept.ofExcept (confirm (← get).channel answer)

/-- A round of the loop, which `catch(...)` sends round again. -/
def tryOnce (attempts : Nat → Attempt) :
    Nat × Subscription → Looping ((Nat × Subscription) ⊕ Subscription)
  | (i, s) =>
    match (subscribe (attempts i)).run s with
    | .ok _ s => pure (.inr s)
    | .error _ s => pure (.inl (i + 1, s.deleteSubscribe))

/-- `subscribeWithRetry`. The attempts are numbered. -/
def subscribeWithRetry (attempts : Nat → Attempt) (s : Subscription) : Looping Subscription :=
  Looping.loop (tryOnce attempts) (0, s)

/-- `~NotificationConsumer`. -/
def destroy (s : Subscription) : Subscription :=
  s.deleteSubscribe

/-! ## One attempt -/

theorem confirm_eq_ok {channel answer} :
    confirm channel answer = .ok () ↔ (Attempt.connected answer).Succeeds := by
  cases answer with
  | none => simp [confirm, Attempt.Succeeds]
  | some r =>
    change _ ↔ r.checkReply = .ok () ∧ r.checkReplyType REDIS_REPLY_ARRAY = .ok ()
    rw [confirm]
    cases r.checkReply with
    | error e => simp [RedisReply.guard, bind, Except.bind]
    | ok u =>
      change RedisReply.guard (r.checkReplyType REDIS_REPLY_ARRAY) _ = .ok () ↔ _
      rw [RedisReply.guard_eq_ok]
      simp

/-- The state in which an attempt leaves the consumer, before anything is deleted. -/
def Attempt.leaves (s : Subscription) : Attempt → Subscription
  | .unreachable _ => s
  | .connected _ => s.newConnector

theorem subscribe_connected (answer : Option RedisReply) (s : Subscription) :
    (subscribe (.connected answer)).run s =
      match confirm s.channel answer with
      | .ok _ => .ok () s.newConnector
      | .error e => .error e s.newConnector := by
  change (MonadExcept.ofExcept (confirm s.channel answer) : EStateM _ _ _).run s.newConnector = _
  cases confirm s.channel answer <;> rfl

theorem subscribe_succeeds {attempt} (s : Subscription) (succeeds : attempt.Succeeds) :
    (subscribe attempt).run s = .ok () (attempt.leaves s) := by
  cases attempt with
  | unreachable what => exact succeeds.elim
  | connected answer =>
    rw [subscribe_connected, confirm_eq_ok.mpr succeeds]
    rfl

theorem subscribe_fails {attempt} (s : Subscription) (fails : ¬ attempt.Succeeds) :
    ∃ e, (subscribe attempt).run s = .error e (attempt.leaves s) := by
  cases attempt with
  | unreachable what => exact ⟨_, rfl⟩
  | connected answer =>
    rw [subscribe_connected]
    cases confirmed : confirm s.channel answer with
    | ok u => exact absurd (confirm_eq_ok.mp confirmed) fails
    | error e => exact ⟨e, rfl⟩

/-! ## All attempts -/

section Retries

variable (attempts : Nat → Attempt)

def afterFailures (s : Subscription) : Nat → Subscription
  | 0 => s
  | n + 1 => ((attempts n).leaves (afterFailures s n)).deleteSubscribe

theorem subscribeWithRetry_returns (s : Subscription) {n}
    (failures : ∀ i < n, ¬ (attempts i).Succeeds) (success : (attempts n).Succeeds) :
    (subscribeWithRetry attempts s).Returns ((attempts n).leaves (afterFailures attempts s n)) := by
  -- `k` attempts are to come before the one that succeeds
  have rest : ∀ k i, i + k = n →
      (Looping.loop (tryOnce attempts) (i, afterFailures attempts s i)).Returns
        ((attempts n).leaves (afterFailures attempts s n)) := by
    intro k
    induction k with
    | zero =>
      intro i here
      obtain rfl : i = n := here
      apply Looping.returns_loop.mpr
      left
      rw [tryOnce, subscribe_succeeds _ success]
      exact Looping.returns_pure.mpr rfl
    | succ k ih =>
      intro i here
      obtain ⟨e, failed⟩ := subscribe_fails (afterFailures attempts s i) (failures i (by omega))
      apply Looping.returns_loop.mpr
      right
      refine ⟨(i + 1, afterFailures attempts s (i + 1)), ?_, ih (i + 1) (by omega)⟩
      rw [tryOnce, failed]
      exact Looping.returns_pure.mpr rfl
  exact rest n 0 (Nat.zero_add n)

/-- No attempt that cannot connect comes after one that could. -/
def Orderly (n : Nat) : Prop :=
  ∀ i j, i < j → j < n → (attempts i).Connects → (attempts j).Connects

/-- What the pointer and the connectors are after some failures. -/
inductive Kept (n : Nat) (s : Subscription) : Prop where
  /-- No connection has been made yet. -/
  | fresh (null : s.subscribe = none) (settled : s.connectors.Settled)
      (none : ∀ i < n, ¬ (attempts i).Connects)
  /-- The pointer points at a connector that is deleted. -/
  | dangling (p : Nat) (pointer : s.subscribe = some p) (deleted : p ∈ s.connectors.released)
      (settled : s.connectors.Settled) (orderly : Orderly attempts n)
      (last : ∃ i < n, (attempts i).Connects)
  | deletedTwice (twice : ¬ s.connectors.released.Nodup) (disorder : ¬ Orderly attempts n)

variable {attempts} {n : Nat} {s : Subscription}

theorem Orderly.succ_of_connects (orderly : Orderly attempts n) (now : (attempts n).Connects) :
    Orderly attempts (n + 1) := by
  intro i j before within connected
  cases Nat.lt_succ_iff_lt_or_eq.mp within with
  | inl earlier => exact orderly i j before earlier connected
  | inr same => exact same ▸ now

theorem Orderly.mono (orderly : Orderly attempts (n + 1)) : Orderly attempts n :=
  fun i j before within => orderly i j before (within.trans (Nat.lt_succ_self n))

theorem orderly_of_none (none : ∀ i < n, ¬ (attempts i).Connects) : Orderly attempts n :=
  fun i _ before within connected => absurd connected (none i (before.trans within))

theorem settled_newConnector_delete (s : Subscription) :
    s.newConnector.deleteSubscribe.connectors.Settled ↔ s.connectors.Settled :=
  Ledger.settled_create_release _

theorem Kept.fail (kept : Kept attempts n s) :
    Kept attempts (n + 1) ((attempts n).leaves s).deleteSubscribe := by
  have newest : s.connectors.next ∈ s.newConnector.deleteSubscribe.connectors.released :=
    List.mem_append_right _ (List.mem_singleton_self _)
  cases next : attempts n with
  | unreachable what =>
    have unconnected : ¬ (attempts n).Connects := by
      rw [next]
      exact not_false
    cases kept with
    | fresh null settled none =>
      refine .fresh null ?_ ?_
      · have unchanged : s.deleteSubscribe.connectors = s.connectors := by
          simp [Subscription.deleteSubscribe, null, Ledger.release]
        exact unchanged ▸ settled
      · intro i within
        cases Nat.lt_succ_iff_lt_or_eq.mp within with
        | inl earlier => exact none i earlier
        | inr same => exact same ▸ unconnected
    | dangling p pointer deleted settled orderly last =>
      obtain ⟨i, earlier, connected⟩ := last
      refine .deletedTwice ?_ fun orderly' => ?_
      · have again : s.deleteSubscribe.connectors = s.connectors.release [p] := by
          simp [Subscription.deleteSubscribe, pointer]
        exact again ▸ Ledger.not_nodup_release deleted
      · exact unconnected (orderly' i n earlier (Nat.lt_succ_self n) connected)
    | deletedTwice twice disorder =>
      refine .deletedTwice (fun distinct => twice ?_) fun orderly' => disorder orderly'.mono
      exact distinct.of_append_left
  | connected answer =>
    have connects : (attempts n).Connects := by
      rw [next]
      trivial
    have now : ∃ i < n + 1, (attempts i).Connects := ⟨n, Nat.lt_succ_self n, connects⟩
    cases kept with
    | fresh null settled none =>
      exact .dangling s.connectors.next rfl newest ((settled_newConnector_delete s).mpr settled)
        ((orderly_of_none none).succ_of_connects connects) now
    | dangling p pointer deleted settled orderly last =>
      exact .dangling s.connectors.next rfl newest ((settled_newConnector_delete s).mpr settled)
        (orderly.succ_of_connects connects) now
    | deletedTwice twice disorder =>
      refine .deletedTwice (fun distinct => twice ?_) fun orderly' => disorder orderly'.mono
      exact distinct.of_append_left

theorem kept_afterFailures (kept : Kept attempts 0 s) (n : Nat) :
    Kept attempts n (afterFailures attempts s n) := by
  induction n with
  | zero => exact kept
  | succ n ih => exact ih.fail

theorem Kept.settled_iff (kept : Kept attempts n s) :
    s.connectors.Settled ↔ Orderly attempts n := by
  cases kept with
  | fresh null settled none => exact iff_of_true settled (orderly_of_none none)
  | dangling p pointer deleted settled orderly last => exact iff_of_true settled orderly
  | deletedTwice twice disorder => exact iff_of_false (fun settled => twice settled.nodup) disorder

end Retries

/-- After any failures and a success, and with the consumer destroyed, every connector is deleted
    exactly once, if and only if no attempt that could not connect came after one that could. -/
theorem connectors_deleted_once_iff (dbId : Int) (endpoint : Endpoint) (channel : Bytes)
    (attempts : Nat → Attempt) (n : Nat) (failures : ∀ i < n, ¬ (attempts i).Succeeds)
    (success : (attempts n).Succeeds) :
    ∃ s, (subscribeWithRetry attempts (.start dbId endpoint channel)).Returns s ∧
      ((destroy s).connectors.Settled ↔ Orderly attempts n) := by
  refine ⟨_, subscribeWithRetry_returns attempts _ failures success, ?_⟩
  have initially : Kept attempts 0 (Subscription.start dbId endpoint channel) :=
    .fresh rfl Ledger.owned_start fun i within => absurd within (Nat.not_lt_zero i)
  cases last : attempts n with
  | unreachable what =>
    rw [last] at success
    exact success.elim
  | connected answer =>
    exact (settled_newConnector_delete _).trans (kept_afterFailures initially n).settled_iff

private def confirmed : Attempt :=
  .connected (some (.array [.string (ascii "subscribe"), .string (ascii "alerts"), .integer 1]))

/-- The server is away, then accepts a connection and is lost again, then is there. -/
private def recovering : Nat → Attempt
  | 0 => .unreachable (ascii "Connection refused")
  | 1 => .connected none
  | _ => confirmed

theorem connectors_deleted_once_recovering :
    ∃ s, (subscribeWithRetry recovering (.start 0 (.tcp (ascii "localhost") 6379)
        (ascii "alerts"))).Returns s ∧
      (destroy s).connectors.Settled := by
  have failures : ∀ i < 2, ¬ (recovering i).Succeeds := by
    intro i within
    obtain rfl | rfl : i = 0 ∨ i = 1 := by omega
    · exact id
    · exact id
  obtain ⟨s, returns, settled⟩ := connectors_deleted_once_iff 0 (.tcp (ascii "localhost") 6379)
    (ascii "alerts") recovering 2 failures ⟨rfl, rfl⟩
  refine ⟨s, returns, settled.mpr ?_⟩
  intro i j before within connects
  obtain ⟨rfl, rfl⟩ : i = 0 ∧ j = 1 := by omega
  exact connects.elim

/-- The server goes away between a connection and its `SUBSCRIBE` and stays away for one more
    attempt. -/
private def restarting : Nat → Attempt
  | 0 => .connected none
  | 1 => .unreachable (ascii "Connection refused")
  | _ => confirmed

theorem connector_deleted_twice :
    ∃ s, (subscribeWithRetry restarting (.start 0 (.tcp (ascii "localhost") 6379)
        (ascii "alerts"))).Returns s ∧
      (destroy s).connectors.created.length = 2 ∧ (destroy s).connectors.released = [0, 0, 1] ∧
      ¬ (destroy s).connectors.Settled := by
  refine ⟨_, ⟨4, rfl⟩, rfl, rfl, fun settled => ?_⟩
  have distinct := settled.nodup
  revert distinct
  decide

end NotificationConsumer

end SwssCommon
