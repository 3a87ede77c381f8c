import SwssCommon.Lib.Run
import SwssCommon.Zmq.Messaging

/-! # Threads that share a client

`sendMsg` fills the buffer of its client before it takes the mutex, and every attempt reads the
buffer again. If another thread has filled it, ZMQ gets as many bytes of that message as the first
one had.
-/

namespace SwssCommon.ZmqClient

open Bytes BinarySerializer List Run

structure Call extends Message where
  inMemory : footprint dbName tableName kcos < 2 ^ 64

def Call.bytes (call : Call) : Bytes :=
  messageBytes call.dbName call.tableName call.kcos

inductive Caller where
  | outside
  /-- The message is serialized and attempt `i` comes next. -/
  | sending (call : Call) (serializedlen i : Nat)

/-- The client, its callers, what ZMQ has accepted and the calls that have returned. -/
structure Shared (τ : Type) where
  client : ZmqClient
  callers : τ → Caller
  handed : List Bytes
  returned : List Call

inductive Action (τ : Type) where
  | serialize (thread : τ) (call : Call)
  | send (thread : τ) (outcome : ZmqSend)

/-- Where a failed attempt leads: to the next one, or out by an exception. -/
def afterFailure (call : Call) (serializedlen i : Nat) : ZmqSend → Caller
  | .eintr | .efsm | .eagain =>
    if i < MQ_MAX_RETRY then .sending call serializedlen (i + 1) else .outside
  | _ => .outside

variable {τ : Type} [DecidableEq τ]

def Shared.put (s : Shared τ) (thread : τ) (caller : Caller) : Shared τ :=
  { s with callers := Function.update s.callers thread caller }

inductive Step : Shared τ → Action τ → Shared τ → Prop where
  | serialize {s : Shared τ} {thread : τ} {call : Call} {serializedlen : Nat}
      {client : ZmqClient} (free : s.callers thread = .outside)
      (serialized : serializeBuffer s.client.sendbuffer call.dbName call.tableName
        call.kcos = .ok (serializedlen, client.sendbuffer))
      (fits : serializedlen < MQ_RESPONSE_MAX_COUNT) :
      Step s (.serialize thread call)
        (({ s with client := client } : Shared τ).put thread (.sending call serializedlen 0))
  -- the buffer is full to its end, and the call throws
  | tooBig {s : Shared τ} {thread : τ} {call : Call} {serializedlen : Nat}
      {client : ZmqClient} (free : s.callers thread = .outside)
      (serialized : serializeBuffer s.client.sendbuffer call.dbName call.tableName
        call.kcos = .ok (serializedlen, client.sendbuffer))
      (tooBig : MQ_RESPONSE_MAX_COUNT ≤ serializedlen) :
      Step s (.serialize thread call) { s with client := client }
  | sent {s : Shared τ} {thread : τ} {call : Call} {serializedlen i : Nat}
      (sending : s.callers thread = .sending call serializedlen i) :
      Step s (.send thread .sent) { s.put thread .outside with
        handed := s.handed ++ [s.client.sendbuffer.take serializedlen]
        returned := s.returned ++ [call] }
  | unsent {s : Shared τ} {thread : τ} {call : Call} {serializedlen i : Nat}
      {outcome : ZmqSend} (sending : s.callers thread = .sending call serializedlen i)
      (failed : outcome ≠ .sent) :
      Step s (.send thread outcome) (s.put thread (afterFailure call serializedlen i outcome))

def fresh (client : ZmqClient) : Shared τ :=
  ⟨client, fun _ => .outside, [], []⟩

/-! ## One call -/

theorem length_overwrite_sendbuffer (c : ZmqClient) {message}
    (fits : message.length ≤ MQ_RESPONSE_MAX_COUNT) :
    (overwrite c.sendbuffer 0 message).length = MQ_RESPONSE_MAX_COUNT := by
  have size := c.resized
  simp only [overwrite, take_zero, nil_append, length_append, length_drop]
  omega

def filled (c : ZmqClient) (call : Call) (fits : call.bytes.length ≤ MQ_RESPONSE_MAX_COUNT) :
    ZmqClient where
  sendbuffer := overwrite c.sendbuffer 0 call.bytes
  resized := length_overwrite_sendbuffer c fits

theorem take_filled (c : ZmqClient) (call : Call)
    (fits : call.bytes.length ≤ MQ_RESPONSE_MAX_COUNT) :
    (c.filled call fits).sendbuffer.take call.bytes.length = call.bytes := by
  simp [filled, overwrite]

theorem serializeBuffer_message (c : ZmqClient) (call : Call) :
    (∃ fits, serializeBuffer c.sendbuffer call.dbName call.tableName call.kcos =
      .ok (call.bytes.length, (c.filled call fits).sendbuffer)) ∨
    MQ_RESPONSE_MAX_COUNT < call.bytes.length ∧
      ∃ e, serializeBuffer c.sendbuffer call.dbName call.tableName call.kcos = .error e := by
  have small :=
    (messageBytes_le_footprint call.dbName call.tableName call.kcos).trans_lt call.inMemory
  have room : word ≤ c.sendbuffer.length := by
    rw [c.resized]
    decide
  have spec := serializeBuffer_spec room small
  rw [c.resized] at spec
  split at spec
  · rename_i fits
    exact .inl ⟨fits, spec⟩
  · rename_i big
    exact .inr ⟨Nat.lt_of_not_le big, spec⟩

theorem serializeBuffer_filled (c : ZmqClient) (call : Call)
    (fits : call.bytes.length ≤ MQ_RESPONSE_MAX_COUNT) :
    serializeBuffer c.sendbuffer call.dbName call.tableName call.kcos =
      .ok (call.bytes.length, (c.filled call fits).sendbuffer) := by
  rcases serializeBuffer_message c call with ⟨_, serialized⟩ | ⟨big, -⟩
  · exact serialized
  · exact absurd big (Nat.not_lt_of_le fits)

variable {call : Call} {serializedlen : Nat}

theorem serializeBuffer_ok {c c' : ZmqClient}
    (serialized : serializeBuffer c.sendbuffer call.dbName call.tableName call.kcos =
      .ok (serializedlen, c'.sendbuffer)) : c'.sendbuffer.take serializedlen = call.bytes := by
  rcases serializeBuffer_message c call with ⟨fits, spec⟩ | ⟨-, e, failed⟩
  · obtain ⟨length, buffer⟩ := Prod.mk.inj (Except.ok.inj (spec.symm.trans serialized))
    rw [← length, ← buffer]
    exact take_filled c call fits
  · cases failed.symm.trans serialized

def Shared.ended (s : Shared τ) (thread : τ) (call : Call) (serializedlen : Nat) :
    Except ZmqError Unit → Shared τ
  | .ok () => { s.put thread .outside with
      handed := s.handed ++ [s.client.sendbuffer.take serializedlen]
      returned := s.returned ++ [call] }
  | .error _ => s.put thread .outside

@[simp]
theorem callers_put (s : Shared τ) (thread : τ) (caller : Caller) :
    (s.put thread caller).callers thread = caller := by
  simp [Shared.put]

@[simp]
theorem put_put (s : Shared τ) (thread : τ) (caller caller' : Caller) :
    (s.put thread caller).put thread caller' = s.put thread caller' := by
  simp [Shared.put]

theorem ended_put (s : Shared τ) (thread : τ) (caller : Caller) (call : Call)
    (serializedlen : Nat) (ended : Except ZmqError Unit) :
    (s.put thread caller).ended thread call serializedlen ended =
      s.ended thread call serializedlen ended := by
  cases ended with
  | error e => exact put_put s thread caller .outside
  | ok _ =>
    rw [Shared.ended, put_put]
    rfl

theorem afterFailure_sendLoop {zmqSend left i} (call : Call)
    (serializedlen : Nat) (attempts : left + i = MQ_MAX_RETRY) (failed : zmqSend i ≠ .sent) :
    (0 < left ∧
      afterFailure call serializedlen i (zmqSend i) = .sending call serializedlen (i + 1) ∧
      sendLoop zmqSend (left + 1) i = sendLoop zmqSend left (i + 1)) ∨
    (afterFailure call serializedlen i (zmqSend i) = .outside ∧
      ∃ e, sendLoop zmqSend (left + 1) i = .error e) := by
  rw [sendLoop]
  cases outcome : zmqSend i with
  | sent => exact absurd outcome failed
  | eintr | efsm | eagain =>
    rw [afterFailure]
    split
    · exact .inl ⟨by omega, rfl, rfl⟩
    · obtain rfl : left = 0 := by omega
      exact .inr ⟨rfl, _, rfl⟩
  | eterm | failed => exact .inr ⟨rfl, _, rfl⟩

variable {s : Shared τ} {thread : τ}

theorem run_sendLoop (zmqSend : Nat → ZmqSend) {left i} (attempts : left + i = MQ_MAX_RETRY)
    (sending : s.callers thread = .sending call serializedlen i) :
    ∃ ls, Run Step s ls
      (s.ended thread call serializedlen (sendLoop zmqSend (left + 1) i)) := by
  induction left using Nat.strong_induction_on generalizing s i with
  | _ left ih =>
    by_cases sent : zmqSend i = .sent
    · rw [sendLoop, sent]
      exact ⟨_, .single (.sent sending)⟩
    · rcases afterFailure_sendLoop call serializedlen attempts sent with
        ⟨more, again, same⟩ | ⟨out, e, failed⟩
      · obtain ⟨left, rfl⟩ : ∃ n, left = n + 1 := ⟨left - 1, by omega⟩
        have first := Step.unsent sending sent
        rw [again] at first
        obtain ⟨ls, rest⟩ := ih left (by omega) (by omega)
          (callers_put s thread (.sending call serializedlen (i + 1)))
        rw [ended_put, ← same] at rest
        exact ⟨_, .cons first rest⟩
      · have last := Step.unsent sending sent
        rw [out] at last
        rw [failed]
        exact ⟨_, .single last⟩

theorem run_sendMsg {bytes zmqSend} (free : s.callers thread = .outside)
    (sent : s.client.sendMsg zmqSend call.dbName call.tableName call.kcos = .ok bytes) :
    ∃ ls client, Run Step s ls ⟨client, s.callers, s.handed ++ [bytes], s.returned ++ [call]⟩ := by
  rw [sendMsg] at sent
  rcases serializeBuffer_message s.client call with ⟨fits, spec⟩ | ⟨-, e, failed⟩
  · rw [spec] at sent
    dsimp only at sent
    split at sent
    · cases sent
    · rename_i small
      have first := Step.serialize free spec (Nat.lt_of_not_le small)
      obtain ⟨ls, rest⟩ := run_sendLoop zmqSend (show MQ_MAX_RETRY + 0 = MQ_MAX_RETRY from rfl)
        (callers_put { s with client := s.client.filled call fits } thread
          (.sending call call.bytes.length 0))
      rw [ended_put] at rest
      split at sent
      · cases sent
      · rename_i ended
        cases sent
        rw [ended] at rest
        have back : Function.update s.callers thread .outside = s.callers := by
          rw [← free]
          exact Function.update_eq_self thread s.callers
        have steps := cons first rest
        simp only [Shared.ended, Shared.put, back] at steps
        exact ⟨_, _, steps⟩
  · rw [failed] at sent
    cases sent

/-! ## Calls that do not overlap -/

def Shared.Exclusive (s : Shared τ) : Action τ → Prop
  | .serialize _ _ => ∀ thread, s.callers thread = .outside
  | .send _ _ => True

structure ExclusiveStep (s : Shared τ) (action : Action τ) (s' : Shared τ) : Prop where
  taken : Step s action s'
  exclusive : s.Exclusive action

theorem ExclusiveStep.send {s' outcome}
    (taken : Step s (.send thread outcome) s') : ExclusiveStep s (.send thread outcome) s' :=
  ⟨taken, trivial⟩

/-- A call under way finds its message in the buffer, and what was accepted is what the calls
    that returned were given. -/
structure Separate (s : Shared τ) : Prop where
  buffered : ∀ thread call serializedlen i, s.callers thread = .sending call serializedlen i →
    s.client.sendbuffer.take serializedlen = call.bytes
  accepted : s.handed = s.returned.map Call.bytes

theorem callers_put_cases {other caller found}
    (there : (s.put thread caller).callers other = found) :
    caller = found ∨ s.callers other = found := by
  by_cases same : other = thread
  · subst same
    exact .inl ((callers_put s other caller).symm.trans there)
  · simp only [Shared.put, Function.update_of_ne same] at there
    exact .inr there

theorem afterFailure_sending {call' serializedlen' i i' outcome}
    (again : afterFailure call serializedlen i outcome = .sending call' serializedlen' i') :
    call = call' ∧ serializedlen = serializedlen' := by
  cases outcome with
  | eintr | efsm | eagain =>
    rw [afterFailure] at again
    split at again
    · cases again
      exact ⟨rfl, rfl⟩
    · cases again
  | sent | eterm | failed => cases again

theorem Separate.step {s' action} (h : Separate s)
    (taken : Step s action s') (exclusive : s.Exclusive action) : Separate s' := by
  cases taken with
  | serialize free serialized fits =>
    refine ⟨fun thread call serializedlen i there => ?_, h.accepted⟩
    rcases callers_put_cases there with own | other
    · cases own
      exact serializeBuffer_ok serialized
    · cases (exclusive thread).symm.trans other
  | tooBig free serialized tooBig =>
    refine ⟨fun thread call serializedlen i there => ?_, h.accepted⟩
    cases (exclusive thread).symm.trans there
  | sent sending =>
    refine ⟨fun thread call serializedlen i there => ?_, ?_⟩
    · rcases callers_put_cases there with own | other
      · cases own
      · exact h.buffered thread call serializedlen i other
    · rw [h.accepted, h.buffered _ _ _ _ sending, map_append]
      rfl
  | unsent sending failed =>
    refine ⟨fun thread call serializedlen i there => ?_, h.accepted⟩
    rcases callers_put_cases there with own | other
    · obtain ⟨rfl, rfl⟩ := afterFailure_sending own
      exact h.buffered _ _ _ _ sending
    · exact h.buffered thread call serializedlen i other

/-- If no call serializes its message while another has attempts left, ZMQ accepts the messages of
    the calls that return, and no others. -/
theorem concurrent_sends {client : ZmqClient} {actions : List (Action τ)} {s : Shared τ}
    (run : Run ExclusiveStep (fresh client) actions s) :
    (s.handed : Multiset Bytes) = Multiset.map Call.bytes s.returned := by
  have separate : Separate s := by
    refine invariant (I := fun _ s => Separate s) ⟨?_, rfl⟩ ?_ run
    · intro thread call serializedlen i sending
      cases sending
    · exact fun h step => h.step step.taken step.exclusive
  rw [separate.accepted, Multiset.map_coe]

private def zeros : ZmqClient where
  sendbuffer := replicate MQ_RESPONSE_MAX_COUNT 0
  resized := length_replicate

private def setA : Call := ⟨⟨ascii "APPL_DB", ascii "T", [⟨ascii "a", SET_COMMAND, []⟩]⟩, by decide⟩

private def setB : Call := ⟨⟨ascii "APPL_DB", ascii "T", [⟨ascii "b", SET_COMMAND, []⟩]⟩, by decide⟩

private theorem setA_fits : setA.bytes.length < MQ_RESPONSE_MAX_COUNT := by
  decide

private theorem setB_fits : setB.bytes.length < MQ_RESPONSE_MAX_COUNT := by
  decide

theorem concurrent_sends_in_turn :
    ∃ s : Shared Bool, Run ExclusiveStep (fresh zeros)
      [.serialize false setA, .send false .eagain, .send false .sent, .serialize true setB,
        .send true .sent] s ∧
      s.returned = [setA, setB] ∧
      (s.handed : Multiset Bytes) = Multiset.map Call.bytes s.returned := by
  have first : ExclusiveStep (fresh zeros) (.serialize false setA) _ :=
    ⟨.serialize rfl (serializeBuffer_filled zeros setA setA_fits.le) setA_fits, fun _ => rfl⟩
  have again := snoc (l := .send false .eagain) (.single first) (.send (.unsent rfl (by decide)))
  have sent := snoc (l := .send false .sent) again (.send (.sent rfl))
  have second := snoc (l := .serialize true setB) sent
    ⟨.serialize rfl (serializeBuffer_filled _ setB setB_fits.le) setB_fits, by
      intro thread
      cases thread <;> rfl⟩
  have steps := snoc (l := .send true .sent) second (.send (.sent rfl))
  exact ⟨_, steps, rfl, concurrent_sends steps⟩

/-- While the first thread waits for its second attempt, another fills the buffer, and its message
    is sent twice. -/
theorem concurrent_sends_mixed :
    ∃ s : Shared Bool, Run Step (fresh zeros)
      [.serialize false setA, .send false .eagain, .serialize true setB, .send true .sent,
        .send false .sent] s ∧
      s.returned = [setB, setA] ∧ s.handed = [setB.bytes, setB.bytes] ∧
      (s.handed : Multiset Bytes) ≠ Multiset.map Call.bytes s.returned := by
  have first : Step (fresh zeros) (.serialize false setA) _ :=
    .serialize rfl (serializeBuffer_filled zeros setA setA_fits.le) setA_fits
  have again := snoc (l := .send false .eagain) (.single first) (.unsent rfl (by decide))
  have second := snoc (l := .serialize true setB) again
    (.serialize rfl (serializeBuffer_filled _ setB setB_fits.le) setB_fits)
  have sent := snoc (l := .send true .sent) second (.sent rfl)
  have steps := snoc (l := .send false .sent) sent (.sent rfl)
  have buffered (n : Nat) (same : n = setB.bytes.length) :
      ((zeros.filled setA setA_fits.le).filled setB setB_fits.le).sendbuffer.take n =
        setB.bytes := by
    subst same
    exact take_filled (zeros.filled setA setA_fits.le) setB setB_fits.le
  have lengths : setA.bytes.length = setB.bytes.length := by decide
  have handed : [_, _] = [setB.bytes, setB.bytes] :=
    congrArg₂ (fun x y => [x, y]) (buffered _ rfl) (buffered _ lengths)
  have apart : ([setB.bytes, setB.bytes] : Multiset Bytes) ≠
      Multiset.map Call.bytes [setB, setA] := by decide
  exact ⟨_, steps, rfl, handed, fun same => apart ((congrArg _ handed).symm.trans same)⟩

end SwssCommon.ZmqClient
