import SwssCommon.Notification.Consumer
import SwssCommon.Pipeline.FlushPublish
import SwssCommon.QueueTable.Scripts

/-! # Who writes to a pipeline

Tables, producers and notification producers share a pipeline, and each method decides whether it
flushes. An object that is not buffered should leave nothing behind, but `del` and `hdel` of a
`Table` never flush.
-/

namespace SwssCommon.PipelineWriters

open Bytes Throwing RedisPipeline

/-- What the writers push. A script is given by the call whose arguments it gets. -/
inductive Command where
  | HSET (key : Bytes) (values : List FieldValueTuple)
  | EXPIRE (key : Bytes) (ttl : Int)
  | DEL (key : Bytes)
  | HDEL (key field : Bytes)
  | operate (p : ProducerStateTable) (operation : FlushPublish.Operation)
  | enqueue (p : ProducerTable) (key value op : Bytes)
  | PUBLISH (channel message : Bytes)
  | other (argv : List Bytes)

structure Table extends TableBase where
  buffered : Bool

/-- A `ProducerTable`. -/
structure QueueProducer extends ProducerTable where
  buffered : Bool

/-- A `ProducerStateTable`. -/
structure StateProducer extends ProducerStateTable where
  tempViewActive : Bool

structure NotificationProducer where
  channel : Bytes
  buffered : Bool

section Calls

variable {σ : Type} (peer : Peer σ Command)

def flushUnless (buffered : Bool) : M σ Command Unit :=
  if buffered then pure () else flush peer

namespace Table

open SwssCommon.Table

variable (t : Table)

def send (command : Command) : M σ Command Unit := do
  let _ ← push peer (.given command) REDIS_REPLY_INTEGER

def set (key : Bytes) (values : List FieldValueTuple) (ttl : Int) : M σ Command Unit :=
  setEntry (fun name values => send peer (.HSET name values))
    (fun name ttl => send peer (.EXPIRE name ttl)) (flushUnless peer t.buffered) t.toTableBase key
    values ttl

def hset (key field value : Bytes) : M σ Command Unit := do
  send peer (.HSET (entryName t.toTableBase key) [(cStr field, cStr value)])
  flushUnless peer t.buffered

def del (key : Bytes) : M σ Command Unit :=
  send peer (.DEL (entryName t.toTableBase key))

def hdel (key field : Bytes) : M σ Command Unit :=
  send peer (.HDEL (entryName t.toTableBase key) (cStr field))

end Table

namespace QueueProducer

variable (p : QueueProducer)

def enqueueDbChange (key value op : Bytes) : M σ Command Unit := do
  let _ ← push peer (.given (.enqueue p.toProducerTable key value op)) REDIS_REPLY_NIL

def bufferedOps : List Bytes :=
  [ascii "create", ascii "set", ascii "bulkset"]

def set (key text op : Bytes) : M σ Command Unit := do
  p.enqueueDbChange peer key text (ascii "S" ++ op)
  flushUnless peer (p.buffered && bufferedOps.contains op)

def del (key op : Bytes) : M σ Command Unit := do
  p.enqueueDbChange peer key (ascii "\x7b\x7d") (ascii "D" ++ op)
  flushUnless peer p.buffered

end QueueProducer

def StateProducer.write (p : StateProducer) (operation : FlushPublish.Operation) :
    M σ Command Unit :=
  if p.tempViewActive then pure ()
  else do
    let _ ← push peer (.given (.operate p.toProducerStateTable operation)) REDIS_REPLY_NIL
    flushUnless peer p.buffered

/-- With the JSON text of the message. The reply is how many have received it. -/
def NotificationProducer.send (p : NotificationProducer) (text : Bytes) : M σ Command Unit :=
  if p.buffered then do
    let _ ← push peer (.given (.PUBLISH (cStr p.channel) (cStr text))) REDIS_REPLY_INTEGER
  else do
    match ← pushAny peer (.given (.PUBLISH (cStr p.channel) (cStr text))) with
    | none => pure ()
    | some a => lift (a.reply.checkReplyType REDIS_REPLY_INTEGER)

inductive Write where
  | tableSet (t : Table) (key : Bytes) (values : List FieldValueTuple) (ttl : Int)
  | tableHset (t : Table) (key field value : Bytes)
  | tableDel (t : Table) (key : Bytes)
  | tableHdel (t : Table) (key field : Bytes)
  | queueSet (p : QueueProducer) (key : Bytes) (values : List FieldValueTuple) (op : Bytes)
  | queueDel (p : QueueProducer) (key op : Bytes)
  | state (p : StateProducer) (operation : FlushPublish.Operation)
  | send (p : NotificationProducer) (op data : Bytes) (values : List FieldValueTuple)

def Write.buffered : Write → Bool
  | tableSet t .. | tableHset t .. | tableDel t .. | tableHdel t .. => t.buffered
  | queueSet p .. | queueDel p .. => p.buffered
  | state p _ => p.buffered
  | send p .. => p.buffered

/-- `none` where the JSON library throws and nothing is pushed. -/
def Write.program (json : Nlohmann) : Write → Option (M σ Command Unit)
  | tableSet t key values ttl => some (t.set peer key values ttl)
  | tableHset t key field value => some (t.hset peer key field value)
  | tableDel t key => some (t.del peer key)
  | tableHdel t key field => some (t.hdel peer key field)
  | queueSet p key values op =>
    (JSon.buildJson json values).map fun text => p.set peer key text op
  | queueDel p key op => some (p.del peer key op)
  | state p operation => some (p.write peer operation)
  | send p op data values =>
    (JSon.buildJson json ((op, data) :: values)).map fun text => p.send peer text

/-- A write, or another call: reading, loading a script, flushing. -/
inductive Use where
  | write (w : Write)
  | call (c : RedisPipeline.Call Command)

def Use.after (json : Nlohmann) (s : RedisPipeline σ Command) : Use → RedisPipeline σ Command
  | write w => (w.program peer json).elim s fun program => endState (program s)
  | call c => endState (c.run peer s)

end Calls

/-! ## What a write leaves behind -/

variable {σ : Type} {peer : Peer σ Command} {s s' : RedisPipeline σ Command}

/-- A write without a command cannot see to it that nothing is outstanding, and one that does not
    flush needs a full pipeline. -/
def Write.Settles (s : RedisPipeline σ Command) : Write → Prop
  | tableSet _ _ values _ => values ≠ [] ∨ s.outstanding = []
  | tableDel .. | tableHdel .. => s.COMMAND_MAX ≤ s.remaining + 1
  | state p _ => p.tempViewActive = false ∨ s.outstanding = []
  | _ => True

theorem push_keeps (command : PipelineCommand Command) {expectedType} :
    Keeps InStep (push peer command expectedType) := fun _ inStep =>
  (call_ends inStep (.push command expectedType)).mono (fun _ _ => And.left) fun _ _ => And.right

theorem send_keeps (command : Command) : Keeps InStep (Table.send peer command) :=
  Keeps.bind (push_keeps _) fun _ => Keeps.pure ()

theorem pushed_keeps (command : Command) (expectedType : Int) :
    Keeps InStep (do
      let _ ← push peer (.given command) expectedType : M σ Command Unit) :=
  Keeps.bind (push_keeps _) fun _ => Keeps.pure ()

theorem flush_keeps : Keeps InStep (flush peer) := fun _ inStep =>
  (flush_ends inStep).mono (fun _ _ => Flushed.inStep) fun _ _ threw => threw.2.inStep

theorem flushUnless_keeps (buffered : Bool) : Keeps InStep (flushUnless peer buffered) :=
  Keeps.ite (Keeps.pure ()) flush_keeps

def Idles {α : Type} (x : M σ Command α) : Prop :=
  ∀ s : RedisPipeline σ Command, s.InStep →
    Ends x s (fun _ s' => s'.outstanding = []) fun _ _ => True

theorem flush_idles : Idles (flush peer) := fun _ inStep =>
  (flush_ends inStep).mono (fun _ _ => Flushed.idle) fun _ _ _ => trivial

theorem Idles.after {α β} {x : M σ Command α} {f : α → M σ Command β}
    (first : Keeps InStep x) (last : ∀ a, Idles (f a)) : Idles (x >>= f) := fun s inStep =>
  Ends.bind ((first s inStep).mono (fun a s' => last a s') fun _ _ _ => trivial)

theorem pushAny_idles (command : PipelineCommand Command) : Idles (pushAny peer command) := by
  intro s inStep
  refine (pushAny_ends inStep command).mono ?_ fun _ _ _ => trivial
  rintro _ _ ⟨t, flushed, -, rfl⟩
  exact flushed.idle

theorem push_settles (inStep : s.InStep) (command : PipelineCommand Command) :
    Ends (push peer command REDIS_REPLY_INTEGER) s
      (fun _ s' => s'.outstanding = [] ↔ s.COMMAND_MAX ≤ s.remaining + 1) fun _ _ => True := by
  refine (push_deferred_ends inStep command (by decide)).mono ?_ fun _ _ _ => trivial
  rintro _ s' ⟨-, ⟨room, rfl⟩ | ⟨full, flushed⟩⟩
  · exact iff_of_false (by simp [outstanding, queue]) (Nat.not_le.mpr room)
  · exact iff_of_true flushed.idle full

variable {w : Write}

theorem Idles.settles {x : M σ Command Unit} (idles : Idles x) (inStep : s.InStep)
    (settles : w.Settles s) :
    Ends x s (fun _ s' => s'.outstanding = [] ↔ w.Settles s) fun _ _ => True :=
  (idles s inStep).mono (fun _ _ idle => iff_of_true idle settles) fun _ _ _ => trivial

theorem flushUnless_idles : Idles (flushUnless peer false) := flush_idles

theorem program_settles {json program} (inStep : s.InStep)
    (unbuffered : w.buffered = false) (runs : w.program peer json = some program) :
    Ends program s (fun _ s' => s'.outstanding = [] ↔ w.Settles s) fun _ _ => True := by
  cases w with
  | tableSet t key values ttl =>
    cases runs
    replace unbuffered : t.buffered = false := unbuffered
    unfold Table.set SwssCommon.Table.setEntry
    split
    · next nothing => exact Ends.pure (by simp [Write.Settles, nothing])
    · next something =>
        rw [unbuffered]
        refine Idles.settles (.after (send_keeps _) fun _ => ?_) inStep (.inl something)
        dsimp only
        split
        · exact .after (send_keeps _) fun _ => flushUnless_idles
        · exact flushUnless_idles
  | tableHset t key field value =>
    cases runs
    replace unbuffered : t.buffered = false := unbuffered
    unfold Table.hset
    rw [unbuffered]
    exact Idles.settles (.after (send_keeps _) fun _ => flushUnless_idles) inStep trivial
  | tableDel t key | tableHdel t key field => cases runs; exact Ends.bind (push_settles inStep _)
  | queueSet p key values op =>
    obtain ⟨text, -, rfl⟩ := Option.map_eq_some_iff.mp runs
    replace unbuffered : p.buffered = false := unbuffered
    unfold QueueProducer.set
    rw [unbuffered]
    exact Idles.settles (.after (pushed_keeps _ _) fun _ => flushUnless_idles) inStep trivial
  | queueDel p key op =>
    cases runs
    replace unbuffered : p.buffered = false := unbuffered
    unfold QueueProducer.del
    rw [unbuffered]
    exact Idles.settles (.after (pushed_keeps _ _) fun _ => flushUnless_idles) inStep trivial
  | state p operation =>
    cases runs
    replace unbuffered : p.buffered = false := unbuffered
    unfold StateProducer.write
    split
    · next active => exact Ends.pure (by simp [Write.Settles, active])
    · next inactive =>
        rw [unbuffered]
        refine Idles.settles (.after (push_keeps _) fun _ => flushUnless_idles) inStep ?_
        exact .inl (by simpa using inactive)
  | send p op data values =>
    obtain ⟨text, -, rfl⟩ := Option.map_eq_some_iff.mp runs
    replace unbuffered : p.buffered = false := unbuffered
    unfold NotificationProducer.send
    rw [unbuffered]
    refine Ends.bind ((pushAny_idles _ s inStep).mono
      (fun answer s' idle => ?_) fun _ _ _ => trivial)
    have settled : s'.outstanding = [] ↔ Write.Settles s (.send p op data values) :=
      iff_of_true idle trivial
    cases answer with
    | none => exact Ends.pure settled
    | some a =>
      change Ends (lift (a.reply.checkReplyType REDIS_REPLY_INTEGER)) s' _ _
      cases a.reply.checkReplyType REDIS_REPLY_INTEGER with
      | ok _ => exact Ends.pure settled
      | error e => exact Ends.throw trivial

theorem program_keeps {json program}
    (runs : w.program peer json = some program) : Keeps InStep program := by
  cases w with
  | tableSet t key values ttl =>
    cases runs
    refine Keeps.ite (Keeps.pure ()) (Keeps.bind (send_keeps _) fun _ => ?_)
    exact Keeps.ite (Keeps.bind (send_keeps _) fun _ => flushUnless_keeps _) (flushUnless_keeps _)
  | tableHset t key field value =>
    cases runs
    exact Keeps.bind (send_keeps _) fun _ => flushUnless_keeps _
  | tableDel t key | tableHdel t key field => cases runs; exact send_keeps _
  | queueSet p key values op =>
    obtain ⟨text, -, rfl⟩ := Option.map_eq_some_iff.mp runs
    exact Keeps.bind (pushed_keeps _ _) fun _ => flushUnless_keeps _
  | queueDel p key op =>
    cases runs
    exact Keeps.bind (pushed_keeps _ _) fun _ => flushUnless_keeps _
  | state p operation =>
    cases runs
    exact Keeps.ite (Keeps.pure ()) (Keeps.bind (push_keeps _) fun _ => flushUnless_keeps _)
  | send p op data values =>
    obtain ⟨text, -, rfl⟩ := Option.map_eq_some_iff.mp runs
    refine Keeps.ite (pushed_keeps _ _) (Keeps.bind ?_ fun answer => ?_)
    · intro s inStep
      exact (call_ends inStep (.pushAny _)).mono (fun _ _ => And.left) fun _ _ => And.right
    · cases answer with
      | none => exact Keeps.pure ()
      | some a =>
        change Keeps InStep (lift (a.reply.checkReplyType REDIS_REPLY_INTEGER))
        cases a.reply.checkReplyType REDIS_REPLY_INTEGER with
        | ok _ => exact Keeps.pure ()
        | error e => exact Keeps.throw _

theorem after_inStep (json : Nlohmann) (use : Use) (inStep : s.InStep) :
    (use.after peer json s).InStep := by
  cases use with
  | write w =>
    cases runs : w.program peer json with
    | none => simpa [Use.after, runs] using inStep
    | some program =>
      simpa [Use.after, runs] using (program_keeps runs).endState inStep
  | call c =>
    exact Ends.endState ((call_ends inStep c).mono (fun _ _ => And.left) fun _ _ => And.right)

theorem history_inStep (json : Nlohmann) (history : List Use) (inStep : s.InStep) :
    (history.foldl (Use.after peer json) s).InStep := by
  induction history generalizing s with
  | nil => exact inStep
  | cons use history ih => exact ih (after_inStep json use inStep)

/-- After any uses, a write on an object that is not buffered leaves nothing outstanding exactly if
    it settles the pipeline. Then the server has executed all there was. -/
theorem unbuffered_executed (peer : Peer σ Command) (json : Nlohmann) (COMMAND_MAX : Nat)
    (server : σ) (history : List Use) {w : Write} (unbuffered : w.buffered = false)
    {program : M σ Command Unit} (runs : w.program peer json = some program)
    {s' : RedisPipeline σ Command} :
    let s := history.foldl (Use.after peer json) (start COMMAND_MAX server)
    program s = .ok () s' → (s'.outstanding = [] ↔ w.Settles s) ∧
      (s'.outstanding = [] → s'.remaining = 0 ∧ s'.server = s'.settled peer) := by
  intro s returned
  have inStep : s.InStep := history_inStep json history (.start COMMAND_MAX server)
  have after : s'.InStep := (program_keeps runs s inStep).of_returned returned
  refine ⟨(program_settles inStep unbuffered runs).of_returned returned, fun idle => ⟨?_, ?_⟩⟩
  · rw [after.remaining_eq, idle]
    rfl
  · exact (settled_of_idle idle).symm

private def vlans : Table := ⟨⟨ascii "VLAN_TABLE", .colon⟩, false⟩

/-- A server that counts what it executes and has one change to report each time. -/
private def counting : Peer Nat Command where
  execute _ n := (.integer 1, n + 1)
  toPrintableString _ := []

private def queuedSet : List Use :=
  [.write (.tableSet { vlans with buffered := true } (ascii "Vlan1") [(ascii "mtu", ascii "9100")]
    SwssCommon.Table.DEFAULT_DB_TTL)]

/-- A field is written after something was left in the pipeline. -/
theorem unbuffered_executed_hset : ∃ s',
    vlans.hset counting (ascii "Vlan2") (ascii "mtu") (ascii "1500")
      (queuedSet.foldl (Use.after counting .plain) (start 128 0)) = .ok () s' ∧
    s'.outstanding = [] := by
  obtain ⟨s', returned⟩ : ∃ s', vlans.hset counting (ascii "Vlan2") (ascii "mtu") (ascii "1500")
      (queuedSet.foldl (Use.after counting .plain) (start 128 0)) = .ok () s' := ⟨_, rfl⟩
  have settles := unbuffered_executed counting .plain 128 0 queuedSet
    (w := .tableHset vlans (ascii "Vlan2") (ascii "mtu") (ascii "1500")) rfl rfl returned
  exact ⟨s', returned, settles.1.mpr trivial⟩

/-- A deleted entry, of which the server does not know yet. -/
theorem unbuffered_del_waits : vlans.buffered = false ∧ ∃ s',
    vlans.del counting (ascii "Vlan1") (start 128 0) = .ok () s' ∧
    s'.outstanding.map Sent.command = [.given (.DEL (ascii "VLAN_TABLE:Vlan1"))] ∧
    s'.server = 0 :=
  ⟨rfl, _, rfl, rfl, rfl⟩

end SwssCommon.PipelineWriters
