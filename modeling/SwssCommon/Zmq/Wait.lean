import SwssCommon.Zmq.Canonical
import SwssCommon.Zmq.Messaging

/-! # What a reply is decoded from

A client in one-to-one mode receives the reply into the buffer of the request, puts a zero behind it
and has the whole buffer decoded. What an earlier message has left there passes for the rest of a
reply that was cut off, unless the decoder drops a record that breaks off or a count ends at the
zero.
-/

namespace SwssCommon

open Bytes BinarySerializer List Decoder

/-- The outcome of one `zmq_poll`. -/
inductive ZmqPoll where
  | ready
  | timedOut
  | eintr
  | failed
  deriving DecidableEq

/-- The outcome of one `zmq_recv`. -/
inductive ZmqRecv where
  | received (message : Bytes)
  | eintr
  | failed
  deriving DecidableEq

inductive WaitError where
  | pollFailed
  | recvFailed
  | truncated (bufferSize received : Nat)
  | serializer (e : SerializerError)
  deriving DecidableEq

namespace ZmqClient

/-- The first loop, with the interruptions that are still tolerated and the number of the
    next attempt. -/
def pollLoop (zmqPoll : Nat → ZmqPoll) : Nat → Nat → Except WaitError Bool
  | left, i =>
    match zmqPoll i, left with
    | .timedOut, _ => .ok false
    | .ready, _ => .ok true
    | .eintr, left + 1 => pollLoop zmqPoll left (i + 1)
    | _, _ => .error .pollFailed

def recvLoop (zmqRecv : Nat → ZmqRecv) : Nat → Nat → Except WaitError Bytes
  | left, i =>
    match zmqRecv i, left with
    | .received message, _ => .ok message
    | .eintr, left + 1 => recvLoop zmqRecv left (i + 1)
    | _, _ => .error .recvFailed

def receive (c : ZmqClient) (message : Bytes) : ZmqClient where
  sendbuffer := overwrite c.sendbuffer 0 (message.take c.sendbuffer.length)
  resized := by
    rw [overwrite_length (by simp), c.resized]

/-- `m_sendbuffer.at(rc) = 0`. -/
def terminate (c : ZmqClient) (rc : Nat) (inside : rc < c.sendbuffer.length) : ZmqClient where
  sendbuffer := overwrite c.sendbuffer rc [0]
  resized := by
    rw [overwrite_length (by simpa using inside), c.resized]

/-- What is returned, with `dbName`, `tableName` and `kcos`, and the client after it. -/
def wait (c : ZmqClient) (oneToOneSync : Bool) (zmqPoll : Nat → ZmqPoll) (zmqRecv : Nat → ZmqRecv)
    (into : Message) : Except WaitError (Bool × Message) × ZmqClient :=
  if oneToOneSync = false then (.ok (false, into), c)
  else match pollLoop zmqPoll (MQ_MAX_RETRY + 1) 0 with
    | .error e => (.error e, c)
    | .ok false => (.ok (false, into), c)
    | .ok true =>
      match recvLoop zmqRecv (MQ_MAX_RETRY + 1) 0 with
      | .error e => (.error e, c)
      | .ok message =>
        let c := c.receive message
        if inside : message.length < c.sendbuffer.length then
          let c := c.terminate message.length inside
          match deserializeBuffer c.sendbuffer { into with kcos := [] } with
          | .error e => (.error (.serializer e), c)
          | .ok m => (.ok (true, m), c)
        else (.error (.truncated c.sendbuffer.length message.length), c)

/-- What `wait` decodes. -/
def replyBuffer (c : ZmqClient) (reply : Bytes) : Bytes :=
  reply ++ 0 :: c.sendbuffer.drop (reply.length + 1)

section Received

variable {zmqPoll : Nat → ZmqPoll} {zmqRecv : Nat → ZmqRecv} {reply : Bytes}

theorem terminate_receive (c : ZmqClient)
    (inside : reply.length < (c.receive reply).sendbuffer.length) :
    ((c.receive reply).terminate reply.length inside).sendbuffer = c.replyBuffer reply := by
  have room : reply.length < c.sendbuffer.length := by
    rw [c.resized]
    rwa [(c.receive reply).resized] at inside
  have whole : reply.take c.sendbuffer.length = reply := take_of_length_le (by omega)
  have twice : overwrite (overwrite c.sendbuffer 0 reply) (0 + reply.length) [0] =
      overwrite c.sendbuffer 0 (reply ++ [0]) := overwrite_overwrite (by simp)
  simp only [terminate, receive, whole, replyBuffer]
  simp [overwrite]

theorem wait_received (c : ZmqClient) (into : Message)
    (polled : pollLoop zmqPoll (MQ_MAX_RETRY + 1) 0 = .ok true)
    (received : recvLoop zmqRecv (MQ_MAX_RETRY + 1) 0 = .ok reply) :
    (c.wait true zmqPoll zmqRecv into).1.toOption =
      if reply.length < MQ_RESPONSE_MAX_COUNT then
        (deserializeBuffer (c.replyBuffer reply) { into with kcos := [] }).toOption.map (true, ·)
      else none := by
  simp only [wait, polled, received]
  by_cases short : reply.length < MQ_RESPONSE_MAX_COUNT
  · rw [if_pos short, dif_pos (by rwa [(c.receive reply).resized]), terminate_receive]
    cases deserializeBuffer (c.replyBuffer reply) { into with kcos := [] } with
    | error e => rfl
    | ok m => rfl
  · rw [if_neg short, dif_neg (by rwa [(c.receive reply).resized])]
    rfl

end Received

end ZmqClient

namespace BinarySerializer

def Decoder.start (into : Message) : Decoder :=
  ⟨into, -1, ⟨[], [], []⟩⟩

namespace Decoder

variable {d : Decoder} {key value value' : Bytes}

theorem decode_names (before : d.fvsSize < 0) (fv : FieldValueTuple) :
    d.decode fv = .ok { d with dbName := fv.1, tableName := fv.2, fvsSize := 0 } :=
  if_pos before

theorem decode_head (between : d.fvsSize = 0) (same : stoi value = stoi value') :
    d.decode (key, value) = d.decode (key, value') := by
  simp only [decode, between, same, Int.lt_irrefl, if_false, if_true]

theorem decode_head_error {e} (between : d.fvsSize = 0)
    (failed : stoi value = .error e) :
    d.decode (key, value) = .error (.stoi e) := by
  simp only [decode, between, failed]
  rfl

theorem decode_last (one : d.fvsSize = 1) (fv : FieldValueTuple) :
    (d.decode fv).map toMessage = .ok { d.toMessage with
      kcos := d.kcos ++ [{ d.kco with kfvFieldsValues := d.kco.kfvFieldsValues ++ [fv] }] } := by
  simp [decode, one, Except.map, pure, Except.pure, bind, Except.bind]

theorem decode_field (more : 1 < d.fvsSize) (fv : FieldValueTuple) :
    (d.decode fv).map toMessage = .ok d.toMessage := by
  have counting : ¬ d.fvsSize < 0 ∧ ¬ d.fvsSize = 0 ∧ ¬ d.fvsSize - 1 = 0 := by omega
  simp [decode, counting, Except.map, pure, Except.pure, bind, Except.bind]

end Decoder

def beforeValue (init : List FieldValueTuple) (key : Bytes) (length : Nat) : Bytes :=
  littleEndian word (init.length + 1) ++ (framePairs init ++ (frame key ++ littleEndian 8 length))

theorem pairMessage_snoc (init : List FieldValueTuple) (key value : Bytes) :
    pairMessage (init ++ [(key, value)]) = beforeValue init key value.length ++ value := by
  simp [pairMessage, beforeValue, framePairs, frame]

section Decoded

variable {buffer : Bytes} {into m : Message} {pairs init : List FieldValueTuple}
  {key value : Bytes}

theorem deserializeBuffer_of_begins (inMemory : buffer.length < 2 ^ 64)
    (begins : pairMessage pairs <+: buffer) :
    deserializeBuffer buffer into =
      (pairs.foldlM decode (.start into)).map toMessage := by
  rw [deserializeBuffer, (deserializePairs_iff inMemory).mpr begins]
  change (pairs.foldlM decode (.start into) >>= _) = _
  cases pairs.foldlM decode (.start into) with
  | error e => rfl
  | ok d => rfl

theorem deserializeBuffer_ok (inMemory : buffer.length < 2 ^ 64)
    (accepted : deserializeBuffer buffer into = .ok m) :
    ∃ pairs, pairMessage pairs <+: buffer ∧
      (pairs.foldlM decode (.start into)).map toMessage = .ok m := by
  have decoded := accepted
  unfold deserializeBuffer at decoded
  cases read : deserializePairs buffer [] with
  | error e =>
    rw [read] at decoded
    cases decoded
  | ok pairs =>
    have begins := (deserializePairs_iff inMemory).mp read
    exact ⟨pairs, begins, by rw [← deserializeBuffer_of_begins inMemory begins, accepted]⟩

theorem decode_snoc {d} (first : init.foldlM decode (.start into) = .ok d)
    (fv : FieldValueTuple) :
    (init ++ [fv]).foldlM decode (.start into) = d.decode fv := by
  rw [foldlM_append, first]
  change (d.decode fv >>= _) = _
  cases d.decode fv with
  | error e => rfl
  | ok d' => rfl

theorem decode_init {fv d}
    (decoded : (init ++ [fv]).foldlM decode (.start into) = .ok d) :
    ∃ d₀, init.foldlM decode (.start into) = .ok d₀ := by
  cases first : init.foldlM decode (.start into) with
  | error e =>
    rw [foldlM_append, first] at decoded
    cases decoded
  | ok d₀ => exact ⟨d₀, rfl⟩

end Decoded

/-- The message is cut off in its last value, which is of a record that is incomplete anyway, or a
    count that ends at the zero. -/
def Unread (into : Message) (reply : Bytes) (pairs : List FieldValueTuple) : Prop :=
  ∃ init key value d, pairs = init ++ [(key, value)] ∧
    init.foldlM decode (.start into) = .ok d ∧
    (1 < d.fvsSize ∧ (pairMessage pairs).length ≤ reply.length + 1 + value.length ∨
      d.fvsSize = 0 ∧ (pairMessage pairs).length ≤ reply.length + value.length)

/-- A message that can be accepted and begins with the reply and the zero ends there, or
    goes on where the decoder does not look. -/
def SelfContained (size : Nat) (into : Message) (reply : Bytes) : Prop :=
  ∀ pairs d, reply ++ [0] <+: pairMessage pairs → (pairMessage pairs).length ≤ size →
    pairs.foldlM decode (.start into) = .ok d →
    pairMessage pairs = reply ++ [0] ∨ Unread into reply pairs

variable {size : Nat} {into m : Message} {reply rest rest' : Bytes}

theorem stoi_until_zero {digits tail : Bytes} {n} (short : digits.length < n) :
    stoi ((digits ++ [0] ++ tail).take n) = stoi digits := by
  have cons : (digits ++ [0] ++ tail).take n =
      digits ++ 0 :: tail.take (n - digits.length - 1) := by
    have more : n - digits.length = n - digits.length - 1 + 1 := by omega
    rw [append_assoc, take_append, take_of_length_le (by omega), more]
    simp
  rw [cons, stoi_append_nul]

theorem decode_unread {d : Decoder} {key start tail tail' : Bytes} {n}
    (unread : 1 < d.fvsSize ∨ d.fvsSize = 0 ∧ ∃ digits, start = digits ++ [0] ∧ digits.length < n) :
    (d.decode (key, (start ++ tail).take n)).map toMessage =
      (d.decode (key, (start ++ tail').take n)).map toMessage := by
  cases unread with
  | inl incomplete =>
    rw [decode_field incomplete, decode_field incomplete]
  | inr ended =>
    obtain ⟨between, digits, rfl, short⟩ := ended
    have count : stoi ((digits ++ [0] ++ tail).take n) = stoi ((digits ++ [0] ++ tail').take n) :=
      (stoi_until_zero short).trans (stoi_until_zero short).symm
    rw [decode_head between count]

theorem ends_with_zero {front start : Bytes} (split : reply ++ [0] = front ++ start)
    (some : front.length ≤ reply.length) :
    ∃ digits, start = digits ++ [0] ∧ digits.length + 1 = start.length := by
  obtain ⟨digits, last, rfl⟩ : ∃ digits last, start = digits ++ [last] := by
    cases eq_nil_or_concat start with
    | inl nothing =>
      have lengths := congrArg length split
      simp only [nothing, length_append, length_nil, length_singleton] at lengths
      omega
    | inr some =>
      obtain ⟨digits, last, concat⟩ := some
      exact ⟨digits, last, concat.trans (concat_eq_append ..)⟩
  rw [← append_assoc] at split
  obtain ⟨_, lasts⟩ := append_inj' split rfl
  exact ⟨digits, by rw [lasts], by simp⟩

theorem SelfContained.ignores (contained : SelfContained size into reply) (inMemory : size < 2 ^ 64)
    (whole : (reply ++ 0 :: rest).length = size) (whole' : (reply ++ 0 :: rest').length = size)
    (accepted : deserializeBuffer (reply ++ 0 :: rest) into = .ok m) :
    deserializeBuffer (reply ++ 0 :: rest') into = .ok m := by
  obtain ⟨pairs, begins, decoded⟩ := deserializeBuffer_ok (by omega) accepted
  have known : ∀ rest, reply ++ [0] <+: reply ++ 0 :: rest := fun rest => ⟨rest, by simp⟩
  -- a message that lies within the known bytes begins every buffer
  have within (inside : pairMessage pairs <+: reply ++ [0]) :
      deserializeBuffer (reply ++ 0 :: rest') into = .ok m := by
    rw [deserializeBuffer_of_begins (by omega) (inside.trans (known rest')), decoded]
  cases prefix_or_prefix_of_prefix begins (known rest) with
  | inl inside => exact within inside
  | inr beyond =>
    have length := begins.length_le
    cases first : pairs.foldlM decode (.start into) with
    | error e =>
      rw [first] at decoded
      cases decoded
    | ok d' =>
      cases contained pairs d' beyond (by omega) first with
      | inl same => exact within (same ▸ prefix_refl _)
      | inr unread =>
        obtain ⟨init, key, value, d, rfl, before, cut⟩ := unread
        rw [decode_snoc before] at decoded
        rw [pairMessage_snoc] at beyond cut length
        have reach : (beforeValue init key value.length).length ≤ (reply ++ [0]).length := by
          simp only [length_append, length_singleton] at cut ⊢
          omega
        obtain ⟨tail, missing⟩ := beyond
        obtain ⟨start, split, ends⟩ := known_of_le missing reach
        have buffer : reply ++ 0 :: rest' =
            beforeValue init key value.length ++ (start ++ rest') := by
          rw [← append_assoc, ← split]
          simp
        have room : value.length ≤ (start ++ rest').length := by
          rw [buffer, length_append] at whole'
          rw [length_append] at length
          omega
        have taken : ((start ++ rest').take value.length).length = value.length := by
          rw [length_take]
          omega
        have begins' : pairMessage (init ++ [(key, (start ++ rest').take value.length)]) <+:
            reply ++ 0 :: rest' := by
          rw [pairMessage_snoc, taken, buffer]
          exact (prefix_append_right_inj _).mpr (List.take_prefix _ _)
        rw [deserializeBuffer_of_begins (by omega) begins', decode_snoc before]
        have original : (start ++ tail).take value.length = value := by
          rw [ends, take_length]
        rw [← original] at decoded
        rw [← decoded]
        refine decode_unread (cut.imp And.left fun ended => ⟨ended.1, ?_⟩)
        obtain ⟨digits, zero, length⟩ := ends_with_zero split (by
          have limit := ended.2
          rw [length_append] at limit
          omega)
        refine ⟨digits, zero, ?_⟩
        have whole := congrArg List.length ends
        rw [List.length_append] at whole
        omega

theorem selfContained_of_begins {pairs} (inMemory : size < 2 ^ 64)
    (begins : pairMessage pairs <+: reply ++ [0]) : SelfContained size into reply := by
  intro pairs' d beyond room _
  obtain rfl : pairs = pairs' := by
    have read := (deserializePairs_iff (by omega)).mpr (begins.trans beyond)
    rw [deserializePairs_pairMessage (by omega)] at read
    cases read
    rfl
  exact .inl (begins.eq_of_length_le beyond.length_le)

def Ignores (size : Nat) (into : Message) (reply : Bytes) : Prop :=
  ∀ rest rest' : Bytes, (reply ++ 0 :: rest).length = size → (reply ++ 0 :: rest').length = size →
    (deserializeBuffer (reply ++ 0 :: rest) into).toOption =
      (deserializeBuffer (reply ++ 0 :: rest') into).toOption

section Ignoring

variable {pairs init : List FieldValueTuple} {d : Decoder} {cut key value : Bytes} {n : Nat}

theorem Ignores.accepted (ignores : Ignores size into reply) (inMemory : size < 2 ^ 64)
    (left : size = reply.length + 1 + n) (missing : reply ++ [0] ++ cut = pairMessage pairs)
    (room : (pairMessage pairs).length ≤ size)
    (decoded : pairs.foldlM decode (.start into) = .ok d) (b : UInt8) :
    deserializeBuffer (reply ++ 0 :: replicate n b) into = .ok d.toMessage := by
  have lengths := congrArg length missing
  simp only [length_append, length_singleton] at lengths
  have original :
      deserializeBuffer (reply ++ 0 :: (cut ++ replicate (n - cut.length) 0)) into =
        .ok d.toMessage := by
    have begins : pairMessage pairs <+:
        reply ++ 0 :: (cut ++ replicate (n - cut.length) 0) := by
      rw [← missing]
      simp
    rw [deserializeBuffer_of_begins (by simp; omega) begins, decoded]
    rfl
  have same := ignores (cut ++ replicate (n - cut.length) 0) (replicate n b)
    (by simp; omega) (by simp; omega)
  rw [original] at same
  cases padded : deserializeBuffer (reply ++ 0 :: replicate n b) into with
  | error e =>
    rw [padded] at same
    cases same
  | ok m =>
    rw [padded] at same
    cases same
    rfl

theorem cut_inside_value (inMemory : size < 2 ^ 56) (left : size = reply.length + 1 + n)
    (missing : reply ++ [0] ++ cut = pairMessage pairs) (some : cut ≠ [])
    (room : (pairMessage pairs).length ≤ size)
    (accepted : deserializeBuffer (reply ++ 0 :: replicate n 255) into = .ok m) :
    ∃ init key value, pairs = init ++ [(key, value)] ∧ cut.length ≤ value.length := by
  obtain ⟨pairs', ⟨more, padded⟩, _⟩ := deserializeBuffer_ok (by simp; omega) accepted
  have many := length_le_framePairs pairs
  have many' := length_le_framePairs pairs'
  have total := congrArg length padded
  simp only [pairMessage, length_append, length_cons,
    length_replicate] at room total
  rw [show reply ++ 0 :: replicate n 255 = (reply ++ [0]) ++ replicate n 255 by simp,
    pairMessage, append_assoc] at padded
  obtain ⟨lengths, known, _, frames, padded'⟩ :=
    word_known (by omega) (by omega) missing padded.symm
  refine cut_inside_last lengths frames some padded' (by omega) ?_
  have ends := congrArg length padded'
  simp only [length_append, length_replicate] at ends
  omega

theorem unread_of_filled {start} (missing : start ++ cut = value) (some : cut ≠ [])
    (filled : ∀ b, (d.decode (key, start ++ replicate cut.length b)).map
      toMessage = .ok m) :
    1 < d.fvsSize ∨ d.fvsSize = 0 ∧ start ≠ [] := by
  have differ : start ++ replicate cut.length (255 : UInt8) ≠
      start ++ replicate cut.length 0 := by
    intro same
    have tails := append_cancel_left same
    cases cut with
    | nil => exact some rfl
    | cons c cut => simp [replicate_succ] at tails
  have same := (filled 255).trans (filled 0).symm
  by_cases names : d.fvsSize < 0
  · rw [decode_names names, decode_names names] at same
    exact absurd (by simpa [Except.map] using same) differ
  by_cases head : d.fvsSize = 0
  · refine .inr ⟨head, ?_⟩
    rintro rfl
    obtain ⟨c, rest, rfl⟩ := exists_cons_of_ne_nil some
    have refused :
        stoi ([] ++ replicate (c :: rest).length 255) = .error .invalidArgument := by
      simp [stoi, replicate_succ, isSpace, splitSign, isDigit]
    have count := filled 255
    rw [decode_head_error head refused] at count
    cases count
  by_cases last : d.fvsSize = 1
  · rw [decode_last last, decode_last last] at same
    exact absurd (by simpa using same) differ
  · exact .inl (by omega)

theorem Ignores.selfContained (ignores : Ignores size into reply) (inMemory : size < 2 ^ 56)
    (short : reply.length < size) : SelfContained size into reply := by
  rintro pairs d ⟨cut, missing⟩ room decoded
  by_cases complete : cut = []
  · exact .inl (by rw [← missing, complete, append_nil])
  obtain ⟨n, left⟩ : ∃ n, size = reply.length + 1 + n := ⟨size - (reply.length + 1), by omega⟩
  have accepted := ignores.accepted (by omega) left missing room decoded
  obtain ⟨init, key, value, rfl, inside⟩ :=
    cut_inside_value inMemory left missing complete room (accepted 255)
  obtain ⟨d₀, before⟩ := decode_init decoded
  rw [pairMessage_snoc] at missing room
  have lengths := congrArg length missing
  simp only [length_append, length_singleton] at lengths room
  obtain ⟨start, split, ends⟩ := known_of_le missing (by simp; omega)
  have filled : ∀ b, (d₀.decode (key, start ++ replicate cut.length b)).map
      toMessage = .ok d.toMessage := by
    intro b
    have size : (start ++ replicate cut.length b).length = value.length := by
      rw [← ends]
      simp
    have begins : pairMessage (init ++ [(key, start ++ replicate cut.length b)]) <+:
        reply ++ 0 :: replicate n b := by
      refine ⟨replicate (n - cut.length) b, ?_⟩
      rw [pairMessage_snoc, size, ← append_assoc, ← split, append_assoc,
        replicate_append_replicate, show cut.length + (n - cut.length) = n by omega]
      simp
    rw [← decode_snoc before, ← deserializeBuffer_of_begins (by simp; omega) begins, accepted]
  refine .inr ⟨init, key, value, d₀, rfl, before, ?_⟩
  rw [pairMessage_snoc, length_append]
  have known := congrArg length split
  simp only [length_append, length_singleton] at known
  refine (unread_of_filled ends complete filled).imp (fun incomplete => ⟨incomplete, by omega⟩)
    fun ended => ⟨ended.1, ?_⟩
  have some := length_pos_iff.mpr ended.2
  omega

end Ignoring

theorem ignores_iff (inMemory : size < 2 ^ 56) (short : reply.length < size) :
    Ignores size into reply ↔ SelfContained size into reply := by
  refine ⟨fun ignores => ignores.selfContained inMemory short, ?_⟩
  intro contained rest rest' whole whole'
  cases first : deserializeBuffer (reply ++ 0 :: rest) into with
  | ok m => rw [contained.ignores (by omega) whole whole' first]
  | error e =>
    cases second : deserializeBuffer (reply ++ 0 :: rest') into with
    | error e' => rfl
    | ok m =>
      rw [contained.ignores (by omega) whole' whole second] at first
      cases first

end BinarySerializer

namespace ZmqClient

theorem replyBuffer_length (c : ZmqClient) {reply}
    (short : reply.length < MQ_RESPONSE_MAX_COUNT) :
    (c.replyBuffer reply).length = MQ_RESPONSE_MAX_COUNT := by
  have size := c.resized
  simp only [replyBuffer, length_append, length_cons, length_drop]
  omega

theorem exists_replyBuffer {reply rest : Bytes}
    (whole : (reply ++ 0 :: rest).length = MQ_RESPONSE_MAX_COUNT) :
    ∃ c : ZmqClient, c.replyBuffer reply = reply ++ 0 :: rest := by
  refine ⟨⟨reply ++ 0 :: rest, whole⟩, ?_⟩
  simp [replyBuffer]

/-- What the buffer held before makes no difference exactly if the reply is self-contained, or so
    long that it is dropped. -/
theorem wait_own_bytes_iff (zmqPoll : Nat → ZmqPoll) (zmqRecv : Nat → ZmqRecv) (reply : Bytes)
    (into : Message) (polled : pollLoop zmqPoll (MQ_MAX_RETRY + 1) 0 = .ok true)
    (received : recvLoop zmqRecv (MQ_MAX_RETRY + 1) 0 = .ok reply) :
    (∀ c c' : ZmqClient, (c.wait true zmqPoll zmqRecv into).1.toOption =
      (c'.wait true zmqPoll zmqRecv into).1.toOption) ↔
    (reply.length < MQ_RESPONSE_MAX_COUNT →
      SelfContained MQ_RESPONSE_MAX_COUNT { into with kcos := [] } reply) := by
  simp only [wait_received _ into polled received]
  by_cases short : reply.length < MQ_RESPONSE_MAX_COUNT
  · have outcome : Function.Injective (Option.map fun m : Message => (true, m)) :=
      Option.map_injective fun m m' same => (Prod.mk.inj same).2
    simp only [short, if_true, true_implies, outcome.eq_iff]
    rw [← ignores_iff (by decide) short]
    constructor
    · intro same rest rest' whole whole'
      obtain ⟨c, left⟩ := exists_replyBuffer whole
      obtain ⟨c', left'⟩ := exists_replyBuffer whole'
      rw [← left, ← left']
      exact same c c'
    · intro ignores c c'
      exact ignores _ _ (c.replyBuffer_length short) (c'.replyBuffer_length short)
  · simp [short]

/-- A reply of the two names, after an interruption. -/
theorem wait_own_bytes_names :
    let reply := pairMessage [(ascii "APPL_DB", ascii "PORT_TABLE")]
    let zmqPoll : Nat → ZmqPoll := fun i => if i = 0 then .eintr else .ready
    let zmqRecv : Nat → ZmqRecv := fun _ => .received reply
    let c : ZmqClient := ⟨replicate MQ_RESPONSE_MAX_COUNT 0, length_replicate⟩
    let c' : ZmqClient := ⟨replicate MQ_RESPONSE_MAX_COUNT 255, length_replicate⟩
    (c.wait true zmqPoll zmqRecv ⟨[], [], []⟩).1.toOption =
      (c'.wait true zmqPoll zmqRecv ⟨[], [], []⟩).1.toOption := by
  intro reply zmqPoll zmqRecv c c'
  refine (wait_own_bytes_iff zmqPoll zmqRecv reply ⟨[], [], []⟩ rfl rfl).mpr (fun _ => ?_) c c'
  exact selfContained_of_begins (by decide) (prefix_append reply [0])

/-- A reply whose table name was cut off. Its second character is what an earlier message has left
    in the buffer. -/
theorem wait_left_over :
    let reply := beforeValue [] (ascii "APPL_DB") 2
    let zmqPoll : Nat → ZmqPoll := fun _ => .ready
    let zmqRecv : Nat → ZmqRecv := fun _ => .received reply
    let c : ZmqClient := ⟨replicate MQ_RESPONSE_MAX_COUNT 65, length_replicate⟩
    let c' : ZmqClient := ⟨replicate MQ_RESPONSE_MAX_COUNT 66, length_replicate⟩
    (c.wait true zmqPoll zmqRecv ⟨[], [], []⟩).1.toOption =
        some (true, ⟨ascii "APPL_DB", [0, 65], []⟩) ∧
      (c'.wait true zmqPoll zmqRecv ⟨[], [], []⟩).1.toOption =
        some (true, ⟨ascii "APPL_DB", [0, 66], []⟩) := by
  intro reply zmqPoll zmqRecv c c'
  have short : reply.length < MQ_RESPONSE_MAX_COUNT := by decide
  have decoded : ∀ (b : UInt8) (c : ZmqClient), c.sendbuffer = replicate MQ_RESPONSE_MAX_COUNT b →
      (c.wait true zmqPoll zmqRecv ⟨[], [], []⟩).1.toOption =
        some (true, ⟨ascii "APPL_DB", [0, b], []⟩) := by
    intro b c filled
    have begins : pairMessage ([] ++ [(ascii "APPL_DB", [0, b])]) <+: c.replyBuffer reply := by
      rw [pairMessage_snoc, replyBuffer, filled, drop_replicate]
      obtain ⟨left, some⟩ : ∃ left, MQ_RESPONSE_MAX_COUNT - (reply.length + 1) = left + 1 :=
        Nat.exists_eq_succ_of_ne_zero (by decide)
      exact ⟨replicate left b, by simp [some, replicate_succ, reply]⟩
    have size : (c.replyBuffer reply).length < 2 ^ 64 := by
      rw [c.replyBuffer_length short]
      decide
    rw [wait_received c ⟨[], [], []⟩ rfl rfl, if_pos short, deserializeBuffer_of_begins size begins]
    rfl
  exact ⟨decoded 65 c rfl, decoded 66 c' rfl⟩

end ZmqClient

end SwssCommon
