import SwssCommon.Lib.WakeUp
import SwssCommon.Redis.Script
import SwssCommon.Select.Machine
import SwssCommon.Table.Names

/-! # A consumer between the server and its caller

Two kinds of consumers differ in the commands of their constructors and in what a pop does. In both,
a constructor repeats its transaction until it goes through, `Select` reads and counts messages and
returns the object once for each, and the caller pops. Producers come in between any two steps.
-/

namespace SwssCommon

open Bytes Redis Script List

/-! ## Commands given as text -/

/-- How hiredis splits a command text into words. The text is a C string. -/
structure Hiredis where
  words : Bytes → List Bytes
  nulFree : ∀ text, ∀ w ∈ words text, (0 : UInt8) ∉ w

private theorem mem_of_mem_splitOnP {p} {text w : Bytes} {x}
    (piece : w ∈ text.splitOnP p) (member : x ∈ w) : x ∈ text := by
  induction text generalizing w with
  | nil => simp_all
  | cons a text ih =>
    rw [splitOnP_cons_eq_if_modifyHead] at piece
    split at piece
    · rcases mem_cons.mp piece with rfl | later
      · simp at member
      · exact mem_cons_of_mem _ (ih later member)
    · cases pieces : text.splitOnP p with
      | nil => simp [pieces] at piece
      | cons head pieces' =>
        rw [pieces] at piece
        rw [pieces] at ih
        rcases mem_cons.mp piece with rfl | later
        · rcases mem_cons.mp member with rfl | inHead
          · exact mem_cons_self
          · exact mem_cons_of_mem _ (ih mem_cons_self inHead)
        · exact mem_cons_of_mem _ (ih (mem_cons_of_mem _ later) member)

/-- Words are what stands between blanks, as long as the text has no format directive. -/
def Hiredis.blanks : Hiredis where
  words text := ((cStr text).splitOnP (· = 32)).filter (· ≠ [])
  nulFree text _ member nul :=
    nul_notMem_cStr text (mem_of_mem_splitOnP (mem_filter.mp member).1 nul)

/-! ## The counter in RedisSelect -/

structure RedisSelect where
  queueLength : Int

namespace RedisSelect

/-- One reply is waited for; those the reader holds besides are taken with it. -/
def readData (r : RedisSelect) (held : Nat) : RedisSelect :=
  ⟨r.queueLength + 1 + held⟩

def hasData (r : RedisSelect) : Bool :=
  r.queueLength > 0

def hasCachedData (r : RedisSelect) : Bool :=
  r.queueLength > 1

def initializedWithData (r : RedisSelect) : Bool :=
  r.queueLength > 0

def updateAfterRead (r : RedisSelect) : RedisSelect :=
  ⟨r.queueLength - 1⟩

theorem hasCachedData_of_left {r : RedisSelect} (left : r.updateAfterRead.hasData) :
    r.hasCachedData := by
  have more : r.queueLength - 1 > 0 := by simpa [hasData, updateAfterRead] using left
  simpa [hasCachedData] using by omega

/-- A `RedisSelect` and the messages its connection has not read. -/
structure Connected where
  unread : Nat
  select : RedisSelect

/-- As an object for a `Select`, while the connection holds. -/
def selectable : Selectable Connected where
  readable d := d.unread > 0
  ReadData d d' := ∃ held rest, d.unread = 1 + held + rest ∧ d' = ⟨rest, d.select.readData held⟩
  ReadThrows _ _ := False
  hasData d := d.select.hasData
  hasCachedData d := d.select.hasCachedData
  initializedWithData d := d.select.initializedWithData
  updateAfterRead d := { d with select := d.select.updateAfterRead }

end RedisSelect

def Redis.Server.sent (s : Server) (channel : Bytes) : Nat :=
  s.published.countP (·.1 = channel)

structure Subscription where
  channel : Bytes
  /-- Messages of the channel from before the subscription, and those read since. -/
  received : Nat

/-! ## Constructors -/

/-- What a constructor does before `EXEC`, with the texts of its commands. -/
inductive Instruction where
  | watch (text : Bytes)
  | multi
  | enqueue (text : Bytes)
  | subscribe (text : Bytes)

/-- The commands queued since `MULTI`. -/
def queued (done : List Instruction) : List Bytes :=
  done.foldl (fun texts instruction => match instruction with
    | .multi => []
    | .enqueue text => texts ++ [text]
    | _ => texts) []

/-- The integer replies the constructors ask for; `none` for any other reply. -/
def integerReply (s : Server) : List Bytes → Option Int
  | [verb, k] =>
    if verb = ascii "SCARD" then (s.keyspace.setAt k).map fun members => members.card
    else if verb = ascii "LLEN" then (s.keyspace.listAt k).map fun l => l.length
    else none
  | _ => none

structure Construction where
  done : List Instruction
  todo : List Instruction
  watched : Option (Bytes × Option Value)

def Construction.after (construction : Construction) (instruction : Instruction)
    (rest : List Instruction) : Construction :=
  { construction with done := construction.done ++ [instruction], todo := rest }

/-- How a call of `pops` into an empty deque ends. -/
structure Popped where
  vkco : List KeyOpFieldsValuesTuple
  threw : Bool
  server : Server

structure Consumer where
  program : List Instruction
  /-- What `setQueueLength` makes of the first reply. -/
  initialLength : Int → Int
  /-- The ends a call of `pops` may come to. -/
  Pops : Server → Popped → Prop

/-! ## The system -/

inductive Phase where
  | constructing (construction : Construction)
  | waiting
  /-- `Select` has returned the object and the caller has not popped yet. -/
  | due

/-- The server, the state `ρ` of the producers, and one consumer object. -/
structure System (ρ : Type) where
  server : Server
  producers : ρ
  subscription : Option Subscription
  select : RedisSelect
  /-- `m_buffer`, filled by `pop` alone. -/
  buffer : List KeyOpFieldsValuesTuple
  phase : Phase

namespace System

variable {ρ : Type}

def construct (c : Consumer) (s : Server) (producers : ρ) : System ρ :=
  ⟨s, producers, none, ⟨-1⟩, [], .constructing ⟨[], c.program, none⟩⟩

def unread (sys : System ρ) : Nat :=
  match sys.subscription with
  | none => 0
  | some sub => sys.server.sent sub.channel - sub.received

def Built (sys : System ρ) : Prop :=
  ∀ construction, sys.phase ≠ .constructing construction

def isDue (sys : System ρ) : Bool :=
  match sys.phase with
  | .due => true
  | _ => false

def tokens (sys : System ρ) : Tokens :=
  ⟨sys.unread, sys.select.queueLength, sys.isDue⟩

end System

namespace Consumer

/-- Whether the caller only uses `pops` or only `pop`. -/
inductive Mode where
  | pops
  | pop

inductive Event (π : Type) where
  | produce (call : π)
  | construct
  | read (messages : Nat)
  | object
  | pop

variable {ρ π : Type} (hiredis : Hiredis) (c : Consumer)

/-- One command of the constructor. A transaction goes through only if the watched key still has its
    value. -/
inductive Construct : System ρ → System ρ → Prop where
  | watch {sys : System ρ} {construction : Construction} {text k : Bytes}
      {rest : List Instruction} :
      sys.phase = .constructing construction → construction.todo = .watch text :: rest →
      hiredis.words text = [ascii "WATCH", k] →
      Construct sys { sys with
        phase := .constructing
          { construction.after (.watch text) rest with
            watched := some (k, sys.server.keyspace[k]?) } }
  | multi {sys : System ρ} {construction : Construction} {rest : List Instruction} :
      sys.phase = .constructing construction → construction.todo = .multi :: rest →
      Construct sys { sys with phase := .constructing (construction.after .multi rest) }
  | enqueue {sys : System ρ} {construction : Construction} {text : Bytes}
      {rest : List Instruction} :
      sys.phase = .constructing construction → construction.todo = .enqueue text :: rest →
      Construct sys { sys with phase := .constructing (construction.after (.enqueue text) rest) }
  | subscribe {sys : System ρ} {construction : Construction} {text channel : Bytes}
      {rest : List Instruction} :
      sys.phase = .constructing construction → construction.todo = .subscribe text :: rest →
      hiredis.words text = [ascii "SUBSCRIBE", channel] →
      Construct sys { sys with
        subscription := some ⟨channel, sys.server.sent channel⟩
        phase := .constructing (construction.after (.subscribe text) rest) }
  | execFails {sys : System ρ} {construction : Construction} :
      sys.phase = .constructing construction → construction.todo = [] →
      Construct sys { sys with phase := .constructing ⟨[], c.program, none⟩ }
  | exec {sys : System ρ} {construction : Construction} {first : Int} {more : List Int} :
      sys.phase = .constructing construction → construction.todo = [] →
      (∀ k v, construction.watched = some (k, v) → sys.server.keyspace[k]? = v) →
      (queued construction.done).mapM (integerReply sys.server <| hiredis.words ·) =
        some (first :: more) →
      Construct sys { sys with select := ⟨c.initialLength first⟩, phase := .waiting }

/-- A step of the whole system. Producers step as `Produce` allows. -/
inductive Step (mode : Mode) (Produce : Server → ρ → π → Server → ρ → Prop) :
    System ρ → Event π → System ρ → Prop where
  | produce {sys : System ρ} {call : π} {server : Server} {producers : ρ} :
      Produce sys.server sys.producers call server producers →
      Step mode Produce sys (.produce call) { sys with server := server, producers := producers }
  | construct {sys sys' : System ρ} :
      Construct hiredis c sys sys' → Step mode Produce sys .construct sys'
  | read {sys : System ρ} {sub : Subscription} {held : Nat} :
      sys.Built → sys.subscription = some sub → held + 1 ≤ sys.unread →
      Step mode Produce sys (.read (held + 1)) { sys with
        subscription := some { sub with received := sub.received + (held + 1) }
        select := sys.select.readData held }
  | object {sys : System ρ} :
      sys.phase = .waiting → sys.select.hasData →
      Step mode Produce sys .object { sys with select := sys.select.updateAfterRead, phase := .due }
  | pops {sys : System ρ} {out : Popped} :
      mode = .pops → sys.phase = .due → c.Pops sys.server out →
      Step mode Produce sys .pop { sys with server := out.server, phase := .waiting }
  -- `pop` hands out the front of the buffer and fills an empty buffer first
  | popFront {sys : System ρ} {kco : KeyOpFieldsValuesTuple} {rest : List KeyOpFieldsValuesTuple} :
      mode = .pop → sys.phase = .due → sys.buffer = kco :: rest →
      Step mode Produce sys .pop { sys with buffer := rest, phase := .waiting }
  | popFill {sys : System ρ} {out : Popped} :
      mode = .pop → sys.phase = .due → sys.buffer = [] → c.Pops sys.server out →
      Step mode Produce sys .pop { sys with
        server := out.server
        buffer := if out.threw then out.vkco else out.vkco.tail
        phase := .waiting }

end Consumer

end SwssCommon
