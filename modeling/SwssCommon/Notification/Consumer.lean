import SwssCommon.Lib.JsonStrings
import SwssCommon.Lib.Run
import SwssCommon.Lib.Throwing
import SwssCommon.Notification.Queue
import SwssCommon.Redis.Reply
import SwssCommon.Table.Names

/-! # NotificationProducer and NotificationConsumer

A notification is the JSON array of its operation, its data and its fields and values. A consumer
that is interested in some operations only looks at the text between the second character and the
next quote before it queues it. The text is parsed when it is popped.
-/

namespace SwssCommon

open Bytes Throwing List JsonStrings UInt64

namespace JSon

variable (json : Nlohmann)

/-- `none` where the library throws. -/
def buildJson (fv : List FieldValueTuple) : Option Bytes :=
  if (flatten fv).all json.validUtf8 then some (json.dump (flatten fv)) else none

/-- Two elements at a time. The second of a pair that is cut short is no string. -/
def pairs : List Bytes → Option (List FieldValueTuple)
  | [] => some []
  | [_] => none
  | field :: value :: rest => ((field, value) :: ·) <$> pairs rest

def readJson (jsonstr : Bytes) : Option (List FieldValueTuple) :=
  (json.parse jsonstr).bind pairs

theorem pairs_flatten (fv : List FieldValueTuple) : pairs (flatten fv) = some fv := by
  induction fv with
  | nil => rfl
  | cons head fv ih =>
    change ((head.1, head.2) :: ·) <$> pairs (flatten fv) = _
    rw [ih]
    rfl

end JSon

structure Notification where
  op : Bytes
  data : Bytes
  values : List FieldValueTuple
  deriving DecidableEq

namespace Notification

def fields (n : Notification) : List FieldValueTuple :=
  (n.op, n.data) :: n.values

/-- As `pops` hands it over. -/
def tuple (n : Notification) : KeyOpFieldsValuesTuple :=
  ⟨n.data, n.op, n.values⟩

def text (json : Nlohmann) (n : Notification) : Bytes :=
  json.dump (flatten n.fields)

end Notification

/-- `send`: the message that is published, formatted as a C string. -/
def NotificationProducer.send (json : Nlohmann) (op data : Bytes) (values : List FieldValueTuple) :
    Option Bytes :=
  (JSon.buildJson json ((op, data) :: values)).map cStr

def peekOp (msg : Bytes) : Bytes :=
  match msg with
  | 91 :: 34 :: rest => if (34 : UInt8) ∈ rest then rest.takeWhile (· ≠ 34) else []
  | _ => []

/-- A consumer, and on its connection the messages it has not read. -/
structure NotificationConsumer (Q : Type) where
  POP_BATCH_SIZE : Nat
  opAllowlist : List Bytes
  queue : Q
  received : UInt64
  droppedAllowlist : UInt64
  unread : List RedisReply

namespace NotificationConsumer

inductive Failure where
  | runtime (what : Bytes)
  /-- The text is not that of an array of pairs of strings. -/
  | json
  /-- `values.at(0)` of no values. -/
  | outOfRange
  /-- Waiting for a message. -/
  | blocked

/-- What a consumer is sent for a message on its channel. -/
def delivery (channel message : Bytes) : RedisReply :=
  .array [.string (ascii "message"), .string channel, .string message]

section Calls

variable {Q : Type} (base : NotificationQueueBase Q)

def processReply (reply : RedisReply) : EStateM Failure (NotificationConsumer Q) Unit :=
  match reply with
  | .array [_, _, message] => modify fun c =>
    let msg := cStr message.str
    if c.opAllowlist ≠ [] ∧ (peekOp msg = [] ∨ peekOp msg ∉ c.opAllowlist) then
      { c with received := c.received + 1, droppedAllowlist := c.droppedAllowlist + 1 }
    else
      { c with received := c.received + 1, queue := base.push c.queue msg }
  | _ => throw (.runtime (ascii "getRedisReply operation failed"))

/-- `redisGetReply` on a connection that holds. -/
def nextReply : EStateM Failure (NotificationConsumer Q) RedisReply := fun c =>
  match c.unread with
  | [] => .error .blocked c
  | reply :: unread => .ok reply { c with unread }

def readReply : EStateM Failure (NotificationConsumer Q) Unit := do
  processReply base (← nextReply)

def readHeld : Nat → EStateM Failure (NotificationConsumer Q) Unit
  | 0 => pure ()
  | held + 1 => do
    if (← get).unread.isEmpty then pure ()
    else
      readReply base
      readHeld held

def readData (held : Nat) : EStateM Failure (NotificationConsumer Q) Unit := do
  readReply base
  readHeld base held

variable (json : Nlohmann)

/-- The notification a text stands for, as `pop` reads it. -/
def decode (msg : Bytes) : Except Failure Notification :=
  match JSon.readJson json msg with
  | none => .error .json
  | some [] => .error .outOfRange
  | some ((op, data) :: values) => .ok ⟨op, data, values⟩

def pop : EStateM Failure (NotificationConsumer Q) Notification := do
  if base.empty (← get).queue then
    throw (.runtime (ascii "notification queue is empty, can't pop"))
  else
    let msg := (base.front (← get).queue).getD []
    modify fun c => { c with queue := base.pop c.queue }
    match decode json msg with
    | .ok n => pure n
    | .error e => throw e

/-- `while (!m_queue->empty())` over a queue of this size. -/
def drain : Nat → EStateM Failure (NotificationConsumer Q) (List KeyOpFieldsValuesTuple)
  | 0 => pure []
  | rounds + 1 => do
    if base.empty (← get).queue then pure []
    else
      let n ← pop base json
      let rest ← drain rounds
      pure (n.tuple :: rest)

/-- What a look at the socket finds: whether there is something to read, and how much the
    reader then holds besides the first reply. -/
structure Glance where
  ready : Bool
  held : Nat

/-- One round of the outer loop, and `next` after it unless the batch is full. -/
def popsRound (vkco : List KeyOpFieldsValuesTuple)
    (next : List KeyOpFieldsValuesTuple →
      EStateM Failure (NotificationConsumer Q) (List KeyOpFieldsValuesTuple)) :
    EStateM Failure (NotificationConsumer Q) (List KeyOpFieldsValuesTuple) := do
  if base.empty (← get).queue then pure vkco
  else
    let drained ← drain base json (base.size (← get).queue)
    -- Too many popped, let's return to prevent DoS attach
    if (vkco ++ drained).length ≥ (← get).POP_BATCH_SIZE then pure (vkco ++ drained)
    else next (vkco ++ drained)

/-- The outer loop, for the looks it takes at the socket. A message that arrives meanwhile
    is one that was not ready before. -/
def popsLoop : List Glance → List KeyOpFieldsValuesTuple →
    EStateM Failure (NotificationConsumer Q) (List KeyOpFieldsValuesTuple)
  | [], vkco => popsRound base json vkco pure
  | glance :: glances, vkco => popsRound base json vkco fun vkco => do
    if glance.ready && !(← get).unread.isEmpty then
      readData base glance.held
      popsLoop glances vkco
    else pure vkco

def pops (glances : List Glance) :
    EStateM Failure (NotificationConsumer Q) (List KeyOpFieldsValuesTuple) :=
  popsLoop base json glances []

end Calls

/-! ## The text and what is read off it -/

section Text

variable {json : Nlohmann}

/-- Strings that are UTF-8, and an operation that is not empty and stands in the text as it is. -/
structure Sendable (json : Nlohmann) (n : Notification) : Prop where
  valid : ∀ w ∈ flatten n.fields, json.validUtf8 w = true
  named : n.op ≠ []
  plain : ∀ b ∈ n.op, Plain b

variable {n : Notification}

theorem cStr_text (sendable : Sendable json n) : cStr (n.text json) = n.text json :=
  cStr_of_nulFree (json.dump_nulFree _ sendable.valid)

theorem send_eq (sendable : Sendable json n) :
    NotificationProducer.send json n.op n.data n.values = some (n.text json) := by
  have valid : (flatten n.fields).all json.validUtf8 := all_eq_true.mpr sendable.valid
  change (if (flatten n.fields).all json.validUtf8 then some (n.text json) else none).map cStr = _
  rw [if_pos valid, Option.map_some, cStr_text sendable]

theorem peekOp_text (sendable : Sendable json n) : peekOp (n.text json) = n.op := by
  obtain ⟨rest, text⟩ : ∃ rest, n.text json = 91 :: 34 :: (n.op ++ 34 :: rest) :=
    json.dump_plain n.op (n.data :: flatten n.values) sendable.valid sendable.plain
  rw [text, peekOp, if_pos (by simp)]
  exact takeWhile_ne_append (quote_notMem_of_plain sendable.plain)

theorem decode_text (sendable : Sendable json n) : decode json (n.text json) = .ok n := by
  have read : JSon.readJson json (n.text json) = some n.fields := by
    unfold JSon.readJson Notification.text
    rw [json.parse_dump _ sendable.valid, Option.bind_some, JSon.pairs_flatten]
  unfold decode
  rw [read]
  rfl

end Text

/-! ## The books of a consumer with a first in, first out queue -/

def accepts (opAllowlist : List Bytes) (n : Notification) : Bool :=
  opAllowlist = [] ∨ n.op ∈ opAllowlist

/-- What was sent is what has been read and what is on the connection. What has been read
    and is let through was popped or is in the queue. -/
structure Delivers (json : Nlohmann) (channel : Bytes) (c : NotificationConsumer (List Bytes))
    (read pending popped waiting : List Notification) : Prop where
  sendable : ∀ n ∈ read ++ pending, Sendable json n
  unread : c.unread = pending.map fun n => delivery channel (n.text json)
  accepted : read.filter (accepts c.opAllowlist) = popped ++ waiting
  queue : c.queue = waiting.map (·.text json)
  received : c.received = ofNat read.length
  dropped : c.droppedAllowlist = ofNat (read.filter fun n => !accepts c.opAllowlist n).length

variable {json : Nlohmann} {channel : Bytes} {c : NotificationConsumer (List Bytes)}
  {read pending popped waiting : List Notification} {n : Notification}

namespace Delivers

theorem start (json : Nlohmann) (channel : Bytes) (POP_BATCH_SIZE : Nat)
    (opAllowlist : List Bytes) :
    Delivers json channel ⟨POP_BATCH_SIZE, opAllowlist, [], 0, 0, []⟩ [] [] [] [] :=
  ⟨by simp, rfl, rfl, rfl, rfl, rfl⟩

theorem read_ends (delivers : Delivers json channel c read (n :: pending) popped waiting) :
    Ends (readReply FifoNotificationQueue) c
      (fun _ c' => c'.opAllowlist = c.opAllowlist ∧ ∃ waiting',
        Delivers json channel c' (read ++ [n]) pending popped waiting')
      (fun _ _ => False) := by
  have sendable : Sendable json n := delivers.sendable n (by simp)
  have next : nextReply c =
      .ok (delivery channel (n.text json))
        { c with unread := pending.map fun n => delivery channel (n.text json) } := by
    simp [nextReply, delivers.unread]
  apply Ends.bind
  apply Ends.returned next
  apply Ends.modify
  simp only [RedisReply.str, cStr_text sendable, peekOp_text sendable]
  have all : ∀ m ∈ (read ++ [n]) ++ pending, Sendable json m := by
    simpa using delivers.sendable
  have count : (read ++ [n]).length = read.length + 1 := by simp
  by_cases lets : accepts c.opAllowlist n
  · rw [if_neg (by simpa [accepts, sendable.named, or_iff_not_imp_left] using lets)]
    refine ⟨rfl, waiting ++ [n], all, rfl, ?_, ?_, ?_, ?_⟩
    · simp [lets, delivers.accepted]
    · simp [FifoNotificationQueue, delivers.queue]
    · rw [count, ofNat_add, delivers.received]
      rfl
    · simp [lets, delivers.dropped]
  · rw [if_pos (by simpa [accepts, sendable.named] using lets)]
    refine ⟨rfl, waiting, all, rfl, ?_, delivers.queue, ?_, ?_⟩
    · simp [lets, delivers.accepted]
    · rw [count, ofNat_add, delivers.received]
      rfl
    · simp only [Bool.not_eq_true] at lets
      simp only [filter_append, lets, Bool.not_false, filter_cons_of_pos,
        length_append, ofNat_add, delivers.dropped]
      rfl

theorem pop_ends (delivers : Delivers json channel c read pending popped (n :: waiting)) :
    Ends (pop FifoNotificationQueue json) c
      (fun m c' => m = n ∧ c'.opAllowlist = c.opAllowlist ∧
        Delivers json channel c' read pending (popped ++ [n]) waiting)
      (fun _ _ => False) := by
  have sendable : Sendable json n := by
    have member : n ∈ read.filter (accepts c.opAllowlist) := by simp [delivers.accepted]
    exact delivers.sendable n (mem_append_left _ (mem_of_mem_filter member))
  have some : FifoNotificationQueue.empty c.queue = false := by
    simp [FifoNotificationQueue, delivers.queue]
  have first : (FifoNotificationQueue.front c.queue).getD [] = n.text json := by
    simp [FifoNotificationQueue, delivers.queue]
  apply Ends.bind_get
  rw [if_neg (by simp [some])]
  apply Ends.bind_get
  rw [first]
  apply Ends.bind_modify
  rw [decode_text sendable]
  refine Ends.pure ⟨rfl, rfl, delivers.sendable, delivers.unread, ?_, ?_, delivers.received,
    delivers.dropped⟩
  · simpa using delivers.accepted
  · simp [FifoNotificationQueue, delivers.queue]

theorem sent (delivers : Delivers json channel c read pending popped waiting)
    (sendable : Sendable json n) :
    Delivers json channel { c with unread := c.unread ++ [delivery channel (n.text json)] } read
      (pending ++ [n]) popped waiting where
  sendable m member := by
    rw [← append_assoc, mem_append] at member
    cases member with
    | inl earlier => exact delivers.sendable m earlier
    | inr this => exact mem_singleton.mp this ▸ sendable
  unread := by simp [delivers.unread]
  accepted := delivers.accepted
  queue := delivers.queue
  received := delivers.received
  dropped := delivers.dropped

theorem decode_queue (delivers : Delivers json channel c read pending popped waiting) :
    c.queue.mapM (decode json) = .ok waiting := by
  have sendable : ∀ m ∈ waiting, Sendable json m := by
    intro m member
    have accepted : m ∈ read.filter (accepts c.opAllowlist) :=
      delivers.accepted ▸ mem_append_right _ member
    exact delivers.sendable m (mem_append_left _ (mem_of_mem_filter accepted))
  rw [delivers.queue]
  clear delivers
  induction waiting with
  | nil => rfl
  | cons m waiting ih =>
    have first := decode_text (sendable m mem_cons_self)
    have rest := ih fun n member => sendable n (mem_cons_of_mem m member)
    rw [map_cons, mapM_cons, first, rest]
    rfl

theorem counts (delivers : Delivers json channel c read pending popped waiting) :
    c.received = c.droppedAllowlist + ofNat popped.length + ofNat c.queue.length := by
  have split := length_eq_length_filter_add (l := read) (accepts c.opAllowlist)
  rw [delivers.accepted, length_append] at split
  rw [delivers.received, delivers.dropped, delivers.queue, length_map, split]
  simp only [ofNat_add]
  ac_rfl

end Delivers

def Books (json : Nlohmann) (channel : Bytes) (opAllowlist : List Bytes)
    (sent popped : List Notification) (c : NotificationConsumer (List Bytes)) : Prop :=
  c.opAllowlist = opAllowlist ∧ ∃ read pending waiting, sent = read ++ pending ∧
    Delivers json channel c read pending popped waiting

namespace Books

variable {opAllowlist : List Bytes} {sent : List Notification}

theorem send (books : Books json channel opAllowlist sent popped c) (sendable : Sendable json n) :
    Books json channel opAllowlist (sent ++ [n]) popped
      { c with unread := c.unread ++ [delivery channel (n.text json)] } := by
  obtain ⟨allow, read, pending, waiting, rfl, delivers⟩ := books
  exact ⟨allow, read, pending ++ [n], waiting, by simp, delivers.sent sendable⟩

theorem readReply_ends (books : Books json channel opAllowlist sent popped c)
    (some : c.unread ≠ []) :
    Ends (readReply FifoNotificationQueue) c
      (fun _ c' => Books json channel opAllowlist sent popped c') (fun _ _ => False) := by
  obtain ⟨allow, read, pending, waiting, rfl, delivers⟩ := books
  cases pending with
  | nil => simp [delivers.unread] at some
  | cons n pending =>
    apply delivers.read_ends.mono _ (fun _ _ never => never)
    rintro _ c' ⟨same, waiting', after⟩
    exact ⟨same.trans allow, read ++ [n], pending, waiting', by simp, after⟩

theorem readHeld_ends (books : Books json channel opAllowlist sent popped c) (held : Nat) :
    Ends (readHeld FifoNotificationQueue held) c
      (fun _ c' => Books json channel opAllowlist sent popped c') (fun _ _ => False) := by
  induction held generalizing c with
  | zero => exact Ends.pure books
  | succ held ih =>
    apply Ends.bind_get
    split
    · exact Ends.pure books
    · rename_i some
      apply Ends.bind
      apply (books.readReply_ends (by simpa using some)).mono _ (fun _ _ never => never)
      exact fun _ c' after => ih after

theorem readData_ends (books : Books json channel opAllowlist sent popped c) (some : c.unread ≠ [])
    (held : Nat) :
    Ends (readData FifoNotificationQueue held) c
      (fun _ c' => Books json channel opAllowlist sent popped c') (fun _ _ => False) := by
  apply Ends.bind
  exact (books.readReply_ends some).mono (fun _ c' after => after.readHeld_ends held)
    (fun _ _ never => never)

theorem pop_ends (books : Books json channel opAllowlist sent popped c) (some : c.queue ≠ []) :
    Ends (pop FifoNotificationQueue json) c
      (fun n c' => Books json channel opAllowlist sent (popped ++ [n]) c' ∧
        c'.queue.length + 1 = c.queue.length) (fun _ _ => False) := by
  obtain ⟨allow, read, pending, waiting, rfl, delivers⟩ := books
  cases waiting with
  | nil => simp [delivers.queue] at some
  | cons n waiting =>
    apply delivers.pop_ends.mono _ (fun _ _ never => never)
    rintro m c' ⟨rfl, same, after⟩
    refine ⟨⟨same.trans allow, read, pending, waiting, rfl, after⟩, ?_⟩
    simp [delivers.queue, after.queue]

theorem drain_ends (books : Books json channel opAllowlist sent popped c) :
    Ends (drain FifoNotificationQueue json c.queue.length) c
      (fun out c' => ∃ more, out = more.map Notification.tuple ∧
        Books json channel opAllowlist sent (popped ++ more) c')
      (fun _ _ => False) := by
  generalize size : c.queue.length = rounds
  induction rounds generalizing c popped with
  | zero => exact ⟨[], rfl, by simpa using books⟩
  | succ rounds ih =>
    have some : c.queue ≠ [] := by
      rintro none
      simp [none] at size
    apply Ends.bind_get
    rw [if_neg (by simpa [FifoNotificationQueue] using some)]
    apply Ends.bind
    apply (books.pop_ends some).mono _ (fun _ _ never => never)
    rintro n c' ⟨after, one⟩
    apply Ends.bind
    apply (ih after (by omega)).mono _ (fun _ _ never => never)
    rintro out c'' ⟨more, rfl, final⟩
    exact Ends.pure ⟨n :: more, rfl, by simpa using final⟩

theorem popsRound_ends (books : Books json channel opAllowlist sent popped c)
    (vkco : List KeyOpFieldsValuesTuple)
    {next}
    (keeps : ∀ {c popped} vkco, Books json channel opAllowlist sent popped c → Ends (next vkco) c
      (fun out c' => ∃ more, out = vkco ++ more.map Notification.tuple ∧
        Books json channel opAllowlist sent (popped ++ more) c') (fun _ _ => False)) :
    Ends (popsRound FifoNotificationQueue json vkco next) c
      (fun out c' => ∃ more, out = vkco ++ more.map Notification.tuple ∧
        Books json channel opAllowlist sent (popped ++ more) c') (fun _ _ => False) := by
  apply Ends.bind_get
  split
  · exact Ends.pure ⟨[], by simp, by simpa using books⟩
  · apply Ends.bind_get
    apply Ends.bind
    apply books.drain_ends.mono _ (fun _ _ never => never)
    rintro drained c' ⟨more, rfl, after⟩
    apply Ends.bind_get
    split
    · exact Ends.pure ⟨more, rfl, after⟩
    · apply (keeps _ after).mono _ (fun _ _ never => never)
      rintro out c'' ⟨others, rfl, final⟩
      exact ⟨more ++ others, by simp, by simpa using final⟩

theorem popsLoop_ends (books : Books json channel opAllowlist sent popped c) (glances : List Glance)
    (vkco : List KeyOpFieldsValuesTuple) :
    Ends (popsLoop FifoNotificationQueue json glances vkco) c
      (fun out c' => ∃ more, out = vkco ++ more.map Notification.tuple ∧
        Books json channel opAllowlist sent (popped ++ more) c') (fun _ _ => False) := by
  induction glances generalizing c popped vkco with
  | nil =>
    apply books.popsRound_ends
    exact fun vkco after => Ends.pure ⟨[], by simp, by simpa using after⟩
  | cons glance glances ih =>
    apply books.popsRound_ends
    intro c popped vkco after
    apply Ends.bind_get
    split
    · rename_i ready
      apply Ends.bind
      apply (after.readData_ends (by simp_all) glance.held).mono _ (fun _ _ never => never)
      exact fun _ c' read => ih read vkco
    · exact Ends.pure ⟨[], by simp, by simpa using after⟩

end Books

/-! ## A producer and a consumer -/

/-- The consumer, and what was sent to it and popped by it so far. -/
structure System where
  consumer : NotificationConsumer (List Bytes)
  sent : List Notification
  popped : List KeyOpFieldsValuesTuple

def System.start (POP_BATCH_SIZE : Nat) (opAllowlist : List Bytes) : System :=
  ⟨⟨POP_BATCH_SIZE, opAllowlist, [], 0, 0, []⟩, [], []⟩

inductive Label where
  | send (n : Notification)
  | readData (held : Nat)
  | pop
  | pops (glances : List Glance)

inductive Step (json : Nlohmann) (channel : Bytes) : System → Label → System → Prop where
  | send {sys : System} {n : Notification} {message : Bytes} : Sendable json n →
      NotificationProducer.send json n.op n.data n.values = some message →
      Step json channel sys (.send n) { sys with
        consumer.unread := sys.consumer.unread ++ [delivery channel message]
        sent := sys.sent ++ [n] }
  | readData {sys : System} {held : Nat} {consumer : NotificationConsumer (List Bytes)} :
      readData FifoNotificationQueue held sys.consumer = .ok () consumer →
      Step json channel sys (.readData held) { sys with consumer }
  | pop {sys : System} {n : Notification} {consumer : NotificationConsumer (List Bytes)} :
      sys.consumer.queue ≠ [] →
      pop FifoNotificationQueue json sys.consumer = .ok n consumer →
      Step json channel sys .pop { sys with consumer, popped := sys.popped ++ [n.tuple] }
  | pops {sys : System} {glances : List Glance} {vkco : List KeyOpFieldsValuesTuple}
      {consumer : NotificationConsumer (List Bytes)} :
      pops FifoNotificationQueue json glances sys.consumer = .ok vkco consumer →
      Step json channel sys (.pops glances) { sys with consumer, popped := sys.popped ++ vkco }

theorem unread_of_readData {base held}
    {c'} (ran : readData base held c = .ok () c') :
    c.unread ≠ [] := by
  intro none
  have blocked : nextReply c = .error .blocked c := by simp [nextReply, none]
  have ends : Ends (readData base held) c (fun _ _ => False) (fun _ _ => True) := by
    apply Ends.bind
    apply Ends.bind
    unfold Ends
    rw [blocked]
    trivial
  exact ends.of_returned ran

theorem books_kept {POP_BATCH_SIZE opAllowlist ls sys}
    (run : Run (Step json channel) (System.start POP_BATCH_SIZE opAllowlist) ls sys) :
    ∃ popped, sys.popped = popped.map Notification.tuple ∧
      Books json channel opAllowlist sys.sent popped sys.consumer := by
  induction run with
  | refl => exact ⟨[], rfl, rfl, [], [], [], rfl, Delivers.start json channel _ _⟩
  | snoc _ step ih =>
    obtain ⟨popped, known, books⟩ := ih
    cases step with
    | send sendable sent =>
      obtain rfl := Option.some.inj ((send_eq sendable).symm.trans sent)
      exact ⟨popped, known, books.send sendable⟩
    | readData ran =>
      have some := unread_of_readData ran
      exact ⟨popped, known, (books.readData_ends some _).of_returned ran⟩
    | pop some ran =>
      have after := ((books.pop_ends some).of_returned ran).1
      exact ⟨popped ++ [_], by simp [known], after⟩
    | pops ran =>
      obtain ⟨more, rfl, after⟩ := (books.popsLoop_ends _ []).of_returned ran
      exact ⟨popped ++ more, by simp [known], after⟩

/-- What was popped, followed by the queue, is what was sent and read and is let through, in order.
    The counters tell the rest, and the calls return: `readData` when there is a message, `pop` when
    the queue is not empty, `pops` always. -/
theorem delivers_filtered {json : Nlohmann} {channel : Bytes} {POP_BATCH_SIZE : Nat}
    {opAllowlist : List Bytes} {ls : List Label} {sys : System}
    (run : Run (Step json channel) (System.start POP_BATCH_SIZE opAllowlist) ls sys) :
    (∃ read pending queued, sys.sent = read ++ pending ∧
      sys.consumer.unread = pending.map (fun n => delivery channel (n.text json)) ∧
      sys.consumer.queue.mapM (decode json) = .ok queued ∧
      sys.popped ++ queued.map Notification.tuple =
        (read.filter (accepts opAllowlist)).map Notification.tuple) ∧
    sys.consumer.received = sys.consumer.droppedAllowlist + ofNat sys.popped.length +
      ofNat sys.consumer.queue.length ∧
    (sys.consumer.unread ≠ [] → ∀ held, ∃ c,
      readData FifoNotificationQueue held sys.consumer = .ok () c) ∧
    (sys.consumer.queue ≠ [] → ∃ n c, pop FifoNotificationQueue json sys.consumer = .ok n c) ∧
    ∀ glances, ∃ vkco c, pops FifoNotificationQueue json glances sys.consumer = .ok vkco c := by
  obtain ⟨popped, known, books⟩ := books_kept run
  refine ⟨?_, ?_, fun some held => ?_, fun some => (books.pop_ends some).returns,
    fun glances => (books.popsLoop_ends _ []).returns⟩
  · obtain ⟨rfl, read, pending, waiting, whole, delivers⟩ := books
    refine ⟨read, pending, waiting, whole, delivers.unread, delivers.decode_queue, ?_⟩
    rw [delivers.accepted, known, map_append]
  · obtain ⟨rfl, read, pending, waiting, whole, delivers⟩ := books
    rw [delivers.counts, known, length_map]
  · obtain ⟨_, c, ran⟩ := (books.readData_ends some held).returns
    exact ⟨c, ran⟩

private def wanted : Notification := ⟨ascii "up", ascii "port", [(ascii "speed", ascii "100")]⟩

private def unwanted : Notification := ⟨ascii "down", ascii "\"port\"", []⟩

private def arrived (unread : List Notification) (sent : List Notification) : System :=
  ⟨⟨2, [ascii "up"], [], 0, 0,
    unread.map fun n => delivery (ascii "NTF") (n.text .plain)⟩, sent, []⟩

/-- Two notifications are sent and read, and the one that is let through is popped. -/
theorem delivers_filtered_taken_up :
    let sys : System :=
      ⟨⟨2, [ascii "up"], [], 2, 1, []⟩, [unwanted, wanted], [wanted.tuple]⟩
    ∃ read pending queued, sys.sent = read ++ pending ∧
      sys.consumer.unread = pending.map (fun n => delivery (ascii "NTF") (n.text .plain)) ∧
      sys.consumer.queue.mapM (decode Nlohmann.plain) = .ok queued ∧
      sys.popped ++ queued.map Notification.tuple =
        (read.filter (accepts [ascii "up"])).map Notification.tuple := by
  intro sys
  have first : Step Nlohmann.plain (ascii "NTF") (arrived [] []) (.send unwanted)
      (arrived [unwanted] [unwanted]) :=
    .send ⟨fun _ _ => rfl, by decide +kernel, by decide +kernel⟩ rfl
  have second : Step Nlohmann.plain (ascii "NTF") (arrived [unwanted] [unwanted]) (.send wanted)
      (arrived [unwanted, wanted] [unwanted, wanted]) :=
    .send ⟨fun _ _ => rfl, by decide +kernel, by decide +kernel⟩ rfl
  have read : Step Nlohmann.plain (ascii "NTF") (arrived [unwanted, wanted] [unwanted, wanted])
      (.readData 1) ⟨⟨2, [ascii "up"], [wanted.text .plain], 2, 1, []⟩, [unwanted, wanted], []⟩ :=
    .readData rfl
  have popped : Step Nlohmann.plain (ascii "NTF")
      ⟨⟨2, [ascii "up"], [wanted.text .plain], 2, 1, []⟩, [unwanted, wanted], []⟩ (.pops []) sys :=
    .pops rfl
  exact (delivers_filtered (.cons first (.cons second (.cons read (.single popped))))).1

end NotificationConsumer

end SwssCommon
