import SwssCommon.Lib.Run
import SwssCommon.Pipeline.RedisPipeline
import SwssCommon.StateTable.Scripts

/-! # Publishing once per flush

The pipeline of buffered flush-publish tables publishes on all their channels at the end of a flush.
A change is unannounced from its execution to the next `PUBLISH` on its channel.

The publish script runs only after every outstanding reply was read and passed. If the last one does
not pass, the exception skips the script, and so do the flushes that follow. The pipeline notes a
channel before it loads the script that names it, so a channel whose load throws is never published
on.
-/

namespace SwssCommon.FlushPublish

open Bytes Redis Throwing RedisPipeline List

/-- The calls of a `ProducerStateTable` that change its tables in the database. -/
inductive Operation where
  | set (key : Bytes) (values : List FieldValueTuple)
  | del (key : Bytes)
  | batchedSet (values : List KeyOpFieldsValuesTuple)
  | batchedDel (keys : List Bytes)

def Operation.script (p : ProducerStateTable) : Operation → Script Unit
  | set key values => p.set key values
  | del key => p.del key
  | batchedSet values => p.batchedSet values
  | batchedDel keys => p.batchedDel keys

/-- What users push: the scripts of their tables, loading these, or anything else. -/
inductive Request where
  | operate (p : ProducerStateTable) (operation : Operation)
  | loadScript
  | other (effect : Server → RedisReply × Server)

/-- The server, and the channels on which an executed change is still to be announced. -/
structure Backend where
  server : Server
  unannounced : List Bytes

/-- The channels a script counts on the pipeline to publish on. -/
def owed (p : ProducerStateTable) : List Bytes :=
  if p.publishes then [] else [p.getChannelName p.dbId]

/-- What is left to be announced after a command with these changes. -/
def Backend.becomes (b : Backend) (changes : List Bytes) (server : Server) : Backend where
  server := server
  unannounced :=
    let announced := (server.published.drop b.server.published.length).map Prod.fst
    (b.unannounced ++ changes).filter (· ∉ announced)

def Backend.operate (text : ScriptError → Bytes) (b : Backend) (p : ProducerStateTable)
    (operation : Operation) : RedisReply × Backend :=
  match operation.script p b.server with
  | (.ok (), server) => (.nil, b.becomes (owed p) server)
  | (.error e, server) => (.error (text e), b.becomes [] server)

/-- `m_luaPub`, with a line for each channel. -/
def luaPub (script : List Bytes) : Bytes :=
  script.flatMap fun channel =>
    ascii "redis.call('PUBLISH', '" ++ channel ++ ascii "', 'G')\n"

/-- The name stands for itself between single quotes: it has no quote, backslash, line end or
    NUL. -/
def Plain (channel : Bytes) : Prop :=
  ∀ c ∈ channel, c ∉ ([39, 92, 10, 13, 0] : Bytes)

instance : DecidablePred Plain :=
  List.decidableBAll _

/-- What is left open of the server: the texts of its errors, its replies to `SCRIPT LOAD`, and
    what a publish script does with a name in it that is not plain. -/
structure Lua where
  text : ScriptError → Bytes
  loadScript : Server → RedisReply
  load : Bytes → Server → RedisReply
  run : Bytes → Server → RedisReply × Server

/-- `EVALSHA` of a publish script. -/
def Lua.publish (lua : Lua) (script : List Bytes) (server : Server) : RedisReply × Server :=
  if ∀ channel ∈ script, Plain channel then
    (.nil, { server with
      published := server.published ++ script.map fun channel => (channel, ascii "G") })
  else lua.run (cStr (luaPub script)) server

def execute (lua : Lua) : PipelineCommand Request → Backend → RedisReply × Backend
  | .given (.operate p operation), b => b.operate lua.text p operation
  | .given .loadScript, b => (lua.loadScript b.server, b)
  | .given (.other effect), b => ((effect b.server).1, b.becomes [] (effect b.server).2)
  | .scriptLoad script, b => (lua.load (cStr (luaPub script)) b.server, b)
  | .evalsha script, b =>
    ((lua.publish script b.server).1, b.becomes [] (lua.publish script b.server).2)

inductive Use where
  /-- A table is constructed or set buffered or unbuffered. -/
  | reload (p : ProducerStateTable)
  | operate (p : ProducerStateTable) (operation : Operation)
  | push (effect : Server → RedisReply × Server) (expectedType : Int)
  | pushAny (effect : Server → RedisReply × Server)
  | flush

section Calls

variable (peer : Peer Backend Request)

def inform (p : ProducerStateTable) : M Backend Request Unit :=
  if p.buffered && p.flushPub then addChannel peer (p.getChannelName p.dbId) else pure ()

/-- `reloadRedisScript`. -/
def reloadRedisScript (p : ProducerStateTable) : M Backend Request Unit := do
  inform peer p
  let _ ← push peer (.given .loadScript) REDIS_REPLY_STRING
  let _ ← push peer (.given .loadScript) REDIS_REPLY_STRING
  let _ ← push peer (.given .loadScript) REDIS_REPLY_STRING
  let _ ← push peer (.given .loadScript) REDIS_REPLY_STRING

def operate (p : ProducerStateTable) (operation : Operation) : M Backend Request Unit := do
  let _ ← push peer (.given (.operate p operation)) REDIS_REPLY_NIL
  if !p.buffered then flush peer else pure ()

def Use.run : Use → M Backend Request Unit
  | reload p => reloadRedisScript peer p
  | operate p operation => FlushPublish.operate peer p operation
  | push effect expectedType => do
    let _ ← RedisPipeline.push peer (.given (.other effect)) expectedType
  | pushAny effect => do let _ ← RedisPipeline.pushAny peer (.given (.other effect))
  | flush => RedisPipeline.flush peer

end Calls

/-- The pipeline and the tables that have been constructed on it. -/
structure System where
  pipeline : RedisPipeline Backend Request
  tables : List ProducerStateTable

def System.start (COMMAND_MAX : Nat) (server : Server) : System :=
  ⟨RedisPipeline.start COMMAND_MAX ⟨server, []⟩, []⟩

def Use.serves (tables : List ProducerStateTable) : Use → List ProducerStateTable
  | reload p => p :: tables
  | _ => tables

/-- Operations are those of tables that have been constructed. -/
def Use.Allowed (tables : List ProducerStateTable) : Use → Prop
  | operate p _ => p ∈ tables
  | _ => True

inductive Step (peer : Peer Backend Request) : System → Use × Bool → System → Prop where
  | returned {sys : System} {use : Use} {pipeline : RedisPipeline Backend Request} :
      use.Allowed sys.tables → use.run peer sys.pipeline = .ok () pipeline →
      Step peer sys (use, true) ⟨pipeline, use.serves sys.tables⟩
  | threw {sys : System} {use : Use} {e : Failure} {pipeline : RedisPipeline Backend Request} :
      use.Allowed sys.tables → use.run peer sys.pipeline = .error e pipeline →
      Step peer sys (use, false) ⟨pipeline, sys.tables⟩

/-! ## What commands announce -/

def owedBy : PipelineCommand Request → List Bytes
  | .given (.operate p _) => owed p
  | _ => []

variable {b : Backend} {channel : Bytes}

theorem mem_becomes {changes server}
    (left : channel ∈ (b.becomes changes server).unannounced) :
    channel ∈ b.unannounced ∨ channel ∈ changes :=
  mem_append.mp (mem_of_mem_filter left)

variable {lua : Lua} {printable : PipelineCommand Request → Bytes}

theorem execute_owes {command}
    (left : channel ∈ (execute lua command b).2.unannounced) :
    channel ∈ b.unannounced ∨ channel ∈ owedBy command := by
  cases command with
  | given request =>
    cases request with
    | operate p operation =>
      change channel ∈ (b.operate lua.text p operation).2.unannounced at left
      unfold Backend.operate at left
      split at left
      · exact mem_becomes left
      · exact (mem_becomes left).imp_right (nomatch ·)
    | loadScript => exact .inl left
    | other effect => exact mem_becomes left
  | scriptLoad script => exact .inl left
  | evalsha script => exact mem_becomes left

theorem execute_evalsha {script} (plain : ∀ channel ∈ script, Plain channel)
    (covered : ∀ channel ∈ b.unannounced, channel ∈ script) :
    (execute lua (.evalsha script) b).2.unannounced = [] := by
  simp only [execute, Lua.publish, if_pos plain, Backend.becomes, append_nil]
  rw [filter_eq_nil_iff]
  intro channel member
  simpa using covered channel member

variable (lua printable) in
def peer : Peer Backend Request :=
  ⟨execute lua, printable⟩

theorem answer_owes {batch}
    (left : channel ∈ ((peer lua printable).answer batch b).2.unannounced) :
    channel ∈ b.unannounced ∨ ∃ sent ∈ batch, channel ∈ owedBy sent.command := by
  induction batch generalizing b with
  | nil => exact .inl left
  | cons sent batch ih =>
    rcases ih left with before | ⟨later, member, owes⟩
    · exact (execute_owes before).imp_right fun owes => ⟨sent, mem_cons_self, owes⟩
    · exact .inr ⟨later, mem_cons_of_mem _ member, owes⟩

/-! ## The invariant -/

def script (s : RedisPipeline Backend Request) : List Bytes :=
  s.shaPub.getD []

/-- The pipeline publishes on every channel it is counted on for. -/
structure Covered (tables : List ProducerStateTable) (s : RedisPipeline Backend Request) :
    Prop where
  inStep : s.InStep
  plain : ∀ channel ∈ script s, Plain channel
  served : ∀ p ∈ tables, ∀ channel ∈ owed p, channel ∈ script s
  pending : ∀ sent ∈ s.outstanding, ∀ channel ∈ owedBy sent.command, channel ∈ script s
  known : ∀ channel ∈ s.server.unannounced, channel ∈ script s

structure Announced (tables : List ProducerStateTable) (s : RedisPipeline Backend Request) : Prop
    extends Covered tables s where
  idle : s.remaining = 0 → s.server.unannounced = []

/-- Every channel the pipeline has been told of is in the script it has loaded. -/
structure Loaded (s : RedisPipeline Backend Request) : Prop where
  channels : s.channels = script s
  luaPub : s.luaPub = script s

def LastPasses (peer : Peer Backend Request) (s : RedisPipeline Backend Request) : Prop :=
  ∀ a, (s.answers peer).getLast? = some a → Passes a

variable {tables : List ProducerStateTable} {s s' : RedisPipeline Backend Request}

theorem LastPasses.of_idle {peer} (idle : s.outstanding = []) :
    LastPasses peer s := by
  intro a last
  simp [answers_eq_nil.mpr idle] at last

theorem LastPasses.of_all {peer} (all : ∀ a ∈ s.answers peer, Passes a) :
    LastPasses peer s :=
  fun a last => all a (mem_of_getLast? last)

theorem script_kept (kept : Kept s s') : script s' = script s := congrArg (·.getD []) kept.shaPub

theorem Loaded.kept (loaded : Loaded s) (kept : Kept s s') : Loaded s' where
  channels := by rw [kept.channels, loaded.channels, script_kept kept]
  luaPub := by rw [kept.luaPub, loaded.luaPub, script_kept kept]

/-- The channel is known, or it is plain and the server takes the script that names it. -/
def Loads (peer : Peer Backend Request) (s : RedisPipeline Backend Request) (channel : Bytes) :
    Prop :=
  channel ∈ s.channels ∨ Plain channel ∧ ∀ t, Flushed peer (s.noted channel) t →
    (peer.execute (.scriptLoad t.luaPub) t.server).1.Meets REDIS_REPLY_STRING

/-- No flush that the use leads to ends on a reply that does not pass; no table is constructed
    while one such is outstanding, or with a channel that the publish script cannot take. -/
def Careful (peer : Peer Backend Request) (s : RedisPipeline Backend Request) : Use → Prop
  | .reload p => (∀ a ∈ s.answers peer, Passes a) ∧
      (p.buffered && p.flushPub → Loads peer s (p.getChannelName p.dbId))
  | .operate p operation => s.COMMAND_MAX ≤ s.remaining + 1 ∨ p.buffered = false →
      LastPasses peer (s.queue (.given (.operate p operation)) REDIS_REPLY_NIL)
  | .push effect expectedType =>
    if Deferred expectedType then s.COMMAND_MAX ≤ s.remaining + 1 →
      LastPasses peer (s.queue (.given (.other effect)) expectedType)
    else LastPasses peer s
  | .pushAny _ | .flush => LastPasses peer s

namespace Covered

theorem popped_known {rest} (covered : Covered tables s)
    (popped : RedisPipeline.Popped (peer lua printable) s rest s') :
    ∀ channel ∈ s'.server.unannounced, channel ∈ script s := by
  rcases popped.server with same | sent
  · rw [same]
    exact covered.known
  · rw [sent]
    intro channel left
    rcases answer_owes left with before | ⟨sent, member, owes⟩
    · exact covered.known channel before
    · exact covered.pending sent (mem_append_right _ member) channel owes

theorem popped {rest} (covered : Covered tables s)
    (popped : RedisPipeline.Popped (peer lua printable) s rest s')
    (suffix : rest <:+ s.answers (peer lua printable)) : Covered tables s' := by
  have same := script_kept popped.kept
  refine ⟨popped.inStep, ?_, ?_, ?_, ?_⟩
  · rw [same]
    exact covered.plain
  · rw [same]
    exact covered.served
  · rw [same]
    intro sent member
    apply covered.pending sent
    rw [← map_sent_answers (peer lua printable), popped.answers] at member
    rw [← map_sent_answers (peer lua printable)]
    exact map_subset _ suffix.subset member
  · rw [same]
    exact covered.popped_known popped

theorem requested (covered : Covered tables s) {command : PipelineCommand Request}
    (silent : (execute lua command s.server).2.unannounced = []) :
    Announced tables (s.requested (peer lua printable) command) where
  inStep := covered.inStep.requested _ _
  plain := covered.plain
  served := covered.served
  pending := covered.pending
  known := fun channel member => by
    change channel ∈ (execute lua command s.server).2.unannounced at member
    simp [silent] at member
  idle := fun _ => silent

theorem published {t} (covered : Covered tables s)
    (popped : RedisPipeline.Popped (peer lua printable) s [] t) :
    Announced tables (t.published (peer lua printable)) := by
  have read : Covered tables t := covered.popped popped nil_suffix
  unfold RedisPipeline.published
  cases loaded : t.shaPub with
  | none =>
    refine ⟨read, fun _ => eq_nil_iff_forall_not_mem.mpr fun channel member => ?_⟩
    simpa [script, loaded] using read.known channel member
  | some lines =>
    apply read.requested
    apply execute_evalsha
    · simpa [script, loaded] using read.plain
    · intro channel member
      simpa [script, loaded] using read.known channel member

theorem queue (covered : Covered tables s) {command : PipelineCommand Request}
    (owes : ∀ channel ∈ owedBy command, channel ∈ script s) (expectedType : Int) :
    Announced tables (s.queue command expectedType) where
  inStep := covered.inStep.queue command expectedType
  plain := covered.plain
  served := covered.served
  pending := by
    intro sent member
    simp only [RedisPipeline.queue, outstanding, ← append_assoc] at member
    rcases mem_append.mp member with before | now
    · exact covered.pending sent before
    · obtain rfl := mem_singleton.mp now
      exact owes
  known := covered.known
  idle := fun nothing => absurd nothing (Nat.succ_ne_zero _)

end Covered

namespace Announced

theorem start (COMMAND_MAX : Nat) (server : Server) :
    Announced [] (System.start COMMAND_MAX server).pipeline where
  inStep := .start _ _
  plain := by simp [System.start, RedisPipeline.start, script]
  served := by simp
  pending := by simp [System.start, RedisPipeline.start, outstanding]
  known := by simp [System.start, RedisPipeline.start]
  idle := fun _ => rfl

theorem flushed (announced : Announced tables s) (flushed : Flushed (peer lua printable) s s') :
    Announced tables s' := by
  rcases flushed.how with ⟨-, rfl⟩ | ⟨-, -, t, popped, rfl⟩
  · exact announced
  · exact announced.published popped

theorem threw (announced : Announced tables s) (last : LastPasses (peer lua printable) s)
    (threw : FlushThrew (peer lua printable) s s') : Announced tables s' := by
  rcases threw.why with ⟨seen, bad, rest, split, -, failed, popped⟩ | ⟨-, t, _, popped, rfl, -⟩
  · refine ⟨announced.popped popped ⟨seen ++ [bad], by simp [split]⟩, fun nothing => ?_⟩
    have none : rest = [] := by
      rw [← popped.answers]
      exact answers_eq_nil.mpr (popped.inStep.idle nothing)
    refine absurd (last bad ?_) failed
    simp [split, none]
  · exact announced.published popped

variable {command : PipelineCommand Request}

theorem requested (announced : Announced tables s) (idle : s.outstanding = [])
    (owesNothing : owedBy command = []) :
    Announced tables (s.requested (peer lua printable) command) := by
  apply announced.toCovered.requested
  rw [eq_nil_iff_forall_not_mem]
  intro channel member
  rcases execute_owes member with before | owes
  · have nothing : s.remaining = 0 := by
      rw [announced.inStep.remaining_eq, idle, length_nil]
    simp [announced.idle nothing] at before
  · simp [owesNothing] at owes

theorem push_deferred_ends (announced : Announced tables s)
    (owes : ∀ channel ∈ owedBy command, channel ∈ script s) {expectedType}
    (deferred : Deferred expectedType) (last : s.COMMAND_MAX ≤ s.remaining + 1 →
      LastPasses (peer lua printable) (s.queue command expectedType)) :
    Ends (push (peer lua printable) command expectedType) s
      (fun _ s' => Announced tables s' ∧ Kept s s' ∧
        (s' = s.queue command expectedType ∨ s'.outstanding = []))
      (fun _ s' => Announced tables s' ∧ Kept s s') := by
  have queued := announced.queue owes expectedType
  have kept : Kept s (s.queue command expectedType) := ⟨rfl, rfl, rfl, rfl⟩
  apply (RedisPipeline.push_deferred_ends announced.inStep command deferred).mono
  · rintro r s' ⟨-, ⟨-, rfl⟩ | ⟨-, flushed⟩⟩
    · exact ⟨queued, kept, .inl rfl⟩
    · exact ⟨queued.flushed flushed, kept.trans flushed.kept, .inr flushed.idle⟩
  · rintro e s' ⟨-, full, threw⟩
    exact ⟨queued.threw (last full) threw, kept.trans threw.kept⟩

theorem requested_kept (s : RedisPipeline Backend Request) (command : PipelineCommand Request) :
    Kept s (s.requested (peer lua printable) command) :=
  ⟨rfl, rfl, rfl, rfl⟩

theorem push_ends (announced : Announced tables s) (owesNothing : owedBy command = [])
    {expectedType} (immediate : ¬ Deferred expectedType)
    (last : LastPasses (peer lua printable) s) :
    Ends (push (peer lua printable) command expectedType) s
      (fun _ s' => Announced tables s' ∧ Kept s s' ∧ s'.outstanding = [])
      (fun _ s' => Announced tables s' ∧ Kept s s') := by
  apply (RedisPipeline.push_ends announced.inStep command immediate).mono
  · rintro r s' ⟨t, flushed, -, rfl⟩
    exact ⟨(announced.flushed flushed).requested flushed.idle owesNothing,
      flushed.kept.trans (requested_kept t command), flushed.idle⟩
  · rintro e s' ⟨-, threw | ⟨t, flushed, rfl, -⟩⟩
    · exact ⟨announced.threw last threw, threw.kept⟩
    · exact ⟨(announced.flushed flushed).requested flushed.idle owesNothing,
        flushed.kept.trans (requested_kept t command)⟩

theorem addChannel_ends (announced : Announced tables s) (loaded : Loaded s) (channel : Bytes)
    (all : ∀ a ∈ s.answers (peer lua printable), Passes a)
    (loads : Loads (peer lua printable) s channel) :
    Ends (addChannel (peer lua printable) channel) s
      (fun _ s' => Announced tables s' ∧ Loaded s' ∧ LastPasses (peer lua printable) s' ∧
        channel ∈ script s')
      (fun _ _ => False) := by
  apply Ends.bind_get
  split
  · rename_i already
    exact Ends.pure ⟨announced, loaded, .of_all all, loaded.channels ▸ already⟩
  · rename_i new
    obtain ⟨plain, accepts⟩ := loads.resolve_left new
    apply Ends.bind_modify
    apply Ends.bind_get
    apply Ends.bind
    apply Ends.bind
    -- the flush before the load still publishes with the script there was
    have noted : Announced tables (s.noted channel) :=
      ⟨⟨⟨announced.inStep.counted, announced.inStep.matched⟩, announced.plain,
        announced.served, announced.pending, announced.known⟩, announced.idle⟩
    apply (RedisPipeline.push_ends noted.inStep _ (by decide : ¬ Deferred REDIS_REPLY_STRING)).mono
    · rintro r s' ⟨t, flushed, -, rfl⟩
      have more : ∀ c ∈ script s, c ∈ s.luaPub ++ [channel] := by
        intro c member
        exact mem_append_left _ (loaded.luaPub ▸ member)
      have silent : t.server.unannounced = [] := by
        have after := noted.flushed flushed
        apply after.idle
        rw [after.inStep.remaining_eq, flushed.idle, length_nil]
      refine Ends.pure (Ends.modify ⟨⟨⟨?_, ?_, ?_, ?_, ?_⟩, fun _ => silent⟩, ⟨?_, ?_⟩, ?_, ?_⟩)
      · exact ⟨flushed.inStep.counted, flushed.inStep.matched⟩
      · intro c member
        rcases mem_append.mp member with before | now
        · exact announced.plain c (loaded.luaPub ▸ before)
        · rw [mem_singleton.mp now]
          exact plain
      · exact fun p member c owes => more c (announced.served p member c owes)
      · intro sent member
        change sent ∈ t.outstanding at member
        simp [flushed.idle] at member
      · intro c member
        change c ∈ t.server.unannounced at member
        simp [silent] at member
      · change t.channels = s.luaPub ++ [channel]
        rw [flushed.kept.channels, RedisPipeline.noted, loaded.channels, ← loaded.luaPub]
      · exact flushed.kept.luaPub
      · exact .of_idle flushed.idle
      · exact mem_append_right _ (mem_singleton_self channel)
    · rintro e s' ⟨-, threw | ⟨t, flushed, -, refused⟩⟩
      · rcases threw.why with ⟨seen, bad, rest, split, -, failed, -⟩ |
          ⟨-, t, lines, -, -, old, failed⟩
        · exact failed (all bad (by rw [show s.answers _ = _ from split]; simp))
        · apply failed
          have plain : ∀ c ∈ lines, Plain c := by simpa [script, old] using noted.plain
          change (lua.publish lines t.server.server).1.checkReply = .ok ()
          rw [Lua.publish, if_pos plain]
          rfl
      · apply refused
        rw [← flushed.kept.luaPub]
        exact accepts t flushed

theorem loadScript_ends {lines}
    (ready : Announced tables s ∧ Loaded s ∧ LastPasses (peer lua printable) s ∧ script s = lines) :
    Ends (push (peer lua printable) (.given .loadScript) REDIS_REPLY_STRING) s
      (fun _ s' => Announced tables s' ∧ Loaded s' ∧ LastPasses (peer lua printable) s' ∧
        script s' = lines)
      (fun _ s' => Announced tables s' ∧ Loaded s') := by
  obtain ⟨announced, loaded, last, same⟩ := ready
  apply (announced.push_ends rfl (by decide) last).mono
  · rintro r s' ⟨after, kept, idle⟩
    exact ⟨after, loaded.kept kept, .of_idle idle, (script_kept kept).trans same⟩
  · rintro e s' ⟨after, kept⟩
    exact ⟨after, loaded.kept kept⟩

theorem inform_ends (announced : Announced tables s) (loaded : Loaded s) {p : ProducerStateTable}
    (careful : Careful (peer lua printable) s (.reload p)) :
    Ends (inform (peer lua printable) p) s
      (fun _ s' => Announced tables s' ∧ Loaded s' ∧ LastPasses (peer lua printable) s' ∧
        ∀ channel ∈ owed p, channel ∈ script s')
      (fun _ _ => False) := by
  unfold inform
  split
  · rename_i flushPub
    apply (announced.addChannel_ends loaded _ careful.1 (careful.2 flushPub)).mono _
      (fun _ _ never => never)
    rintro _ s' ⟨after, loaded, last, named⟩
    refine ⟨after, loaded, last, fun channel owes => ?_⟩
    unfold owed at owes
    split at owes
    · cases owes
    · obtain rfl := mem_singleton.mp owes
      exact named
  · rename_i plain
    refine Ends.pure ⟨announced, loaded, .of_all careful.1, fun channel owes => ?_⟩
    have publishes : p.publishes := by
      cases buffered : p.buffered <;> cases flushPub : p.flushPub <;>
        simp_all [ProducerStateTable.publishes]
    simp [owed, publishes] at owes

theorem reload_ends (announced : Announced tables s) (loaded : Loaded s) {p : ProducerStateTable}
    (careful : Careful (peer lua printable) s (.reload p)) :
    Ends (reloadRedisScript (peer lua printable) p) s
      (fun _ s' => Announced (p :: tables) s' ∧ Loaded s')
      (fun _ s' => Announced tables s' ∧ Loaded s') := by
  apply Ends.bind
  apply (announced.inform_ends loaded careful).mono _ (fun _ _ never => never.elim)
  rintro _ t ⟨after, loaded, last, covers⟩
  have failed : ∀ (e : Failure) s', Announced tables s' ∧ Loaded s' →
      Announced tables s' ∧ Loaded s' :=
    fun _ _ post => post
  apply Ends.bind
  apply (loadScript_ends ⟨after, loaded, last, rfl⟩).mono _ failed
  intro _ t₁ ready
  apply Ends.bind
  apply (loadScript_ends ready).mono _ failed
  intro _ t₂ ready
  apply Ends.bind
  apply (loadScript_ends ready).mono _ failed
  intro _ t₃ ready
  apply Ends.bind
  apply (loadScript_ends ready).mono _ failed
  rintro _ t₄ ⟨after, loaded, -, same⟩
  refine Ends.pure
    ⟨⟨⟨after.inStep, after.plain, ?_, after.pending, after.known⟩, after.idle⟩, loaded⟩
  intro q member channel owes
  rcases mem_cons.mp member with rfl | earlier
  · rw [same]
    exact covers channel owes
  · exact after.served q earlier channel owes

theorem use_ends (announced : Announced tables s) (loaded : Loaded s) {use}
    (allowed : use.Allowed tables) (careful : Careful (peer lua printable) s use) :
    Ends (use.run (peer lua printable)) s
      (fun _ s' => Announced (use.serves tables) s' ∧ Loaded s')
      (fun _ s' => Announced tables s' ∧ Loaded s') := by
  cases use with
  | reload p => exact announced.reload_ends loaded careful
  | operate p operation =>
    apply Ends.bind
    have owes : ∀ channel ∈ owedBy (.given (.operate p operation)), channel ∈ script s :=
      announced.served p allowed
    apply (announced.push_deferred_ends owes (by decide) fun full => careful (.inl full)).mono
    · rintro r t ⟨after, kept, where_⟩
      split
      · rename_i unbuffered
        have last : LastPasses (peer lua printable) t := by
          rcases where_ with rfl | idle
          · exact careful (.inr (by simpa using unbuffered))
          · exact .of_idle idle
        apply (RedisPipeline.flush_ends after.inStep).mono
        · rintro _ u flushed
          exact ⟨after.flushed flushed, (loaded.kept kept).kept flushed.kept⟩
        · rintro e u ⟨-, threw⟩
          exact ⟨after.threw last threw, (loaded.kept kept).kept threw.kept⟩
      · exact Ends.pure ⟨after, loaded.kept kept⟩
    · rintro e t ⟨after, kept⟩
      exact ⟨after, loaded.kept kept⟩
  | push effect expectedType =>
    apply Ends.bind
    by_cases deferred : Deferred expectedType
    · simp only [Careful, if_pos deferred] at careful
      exact (announced.push_deferred_ends (by simp [owedBy]) deferred careful).mono
        (fun _ _ post => Ends.pure ⟨post.1, loaded.kept post.2.1⟩)
        (fun _ _ post => ⟨post.1, loaded.kept post.2⟩)
    · simp only [Careful, if_neg deferred] at careful
      exact (announced.push_ends rfl deferred careful).mono
        (fun _ _ post => Ends.pure ⟨post.1, loaded.kept post.2.1⟩)
        (fun _ _ post => ⟨post.1, loaded.kept post.2⟩)
  | pushAny effect =>
    apply Ends.bind
    apply (pushAny_ends announced.inStep _).mono
    · rintro r s' ⟨t, flushed, -, rfl⟩
      exact Ends.pure ⟨(announced.flushed flushed).requested flushed.idle rfl,
        (loaded.kept flushed.kept).kept (requested_kept t _)⟩
    · rintro e s' ⟨-, threw | ⟨t, flushed, rfl⟩⟩
      · exact ⟨announced.threw careful threw, loaded.kept threw.kept⟩
      · exact ⟨(announced.flushed flushed).requested flushed.idle rfl,
          (loaded.kept flushed.kept).kept (requested_kept t _)⟩
  | flush =>
    exact (RedisPipeline.flush_ends announced.inStep).mono
      (fun _ _ flushed => ⟨announced.flushed flushed, loaded.kept flushed.kept⟩)
      (fun _ _ threw => ⟨announced.threw careful threw.2, loaded.kept threw.2.kept⟩)

end Announced

/-! ## Whole runs -/

def CarefulStep (peer : Peer Backend Request) (sys : System) (label : Use × Bool) (sys' : System) :
    Prop :=
  Step peer sys label sys' ∧ Careful peer sys.pipeline label.1

theorem run_announced {COMMAND_MAX server ls sys}
    (run : Run (CarefulStep (peer lua printable)) (System.start COMMAND_MAX server) ls sys) :
    Announced sys.tables sys.pipeline ∧ Loaded sys.pipeline := by
  apply run.invariant (I := fun _ sys => Announced sys.tables sys.pipeline ∧ Loaded sys.pipeline)
  · exact ⟨.start COMMAND_MAX server, rfl, rfl⟩
  · rintro ls t label u ⟨announced, loaded⟩ ⟨step, careful⟩
    cases step with
    | returned allowed ran =>
      exact (announced.use_ends loaded allowed careful).of_returned ran
    | threw allowed ran =>
      exact (announced.use_ends loaded allowed careful).of_thrown ran

/-- As long as no flush ends on a reply that does not pass, an unannounced change means that replies
    are outstanding, and a flush that returns leaves none. -/
theorem flush_announces {COMMAND_MAX : Nat} {server : Server} {ls : List (Use × Bool)}
    {sys : System}
    (run : Run (CarefulStep (peer lua printable)) (System.start COMMAND_MAX server) ls sys) :
    (∀ channel ∈ sys.pipeline.server.unannounced, 0 < sys.pipeline.remaining) ∧
      ∀ s', flush (peer lua printable) sys.pipeline = .ok () s' →
        s'.server.unannounced = [] := by
  obtain ⟨announced, -⟩ := run_announced run
  refine ⟨fun channel member => Nat.pos_of_ne_zero fun nothing => ?_, fun s' returned => ?_⟩
  · simp [announced.idle nothing] at member
  · have flushed := (flush_ends announced.inStep).of_returned returned
    apply (announced.flushed flushed).idle
    rw [flushed.inStep.remaining_eq, flushed.idle, length_nil]

/-! ## A server on which one of two sets fails -/

private def table : ProducerStateTable where
  tableName := ascii "T"
  separator := .colon
  dbId := 0
  buffered := true
  flushPub := true

private def plainLua : Lua where
  text := fun _ => ascii "WRONGTYPE"
  loadScript := fun _ => .string []
  load := fun _ _ => .string []
  run := fun _ server => (.nil, server)

private def redis : Peer Backend Request := peer plainLua (fun _ => [])

/-- The pending hash of the key `bad` is taken by a string. -/
private def atFirst : RedisPipeline Backend Request :=
  (System.start 128 ⟨(∅ : Keyspace).insert (ascii "_T:bad") (.string []), []⟩).pipeline

private def setKey (key : String) : Use :=
  .operate table (.set (ascii key) [(ascii "f", ascii "v")])

private def constructed : RedisPipeline Backend Request :=
  endState ((Use.reload table).run redis atFirst)

private def queuedOne (first : String) : RedisPipeline Backend Request :=
  endState ((setKey first).run redis constructed)

private def queuedTwo (first second : String) : RedisPipeline Backend Request :=
  endState ((setKey second).run redis (queuedOne first))

private def thrown (first second : String) : RedisPipeline Backend Request :=
  endState (Use.flush.run redis (queuedTwo first second))

/-- The bad set first: what its reply stops is taken up by the next flush. -/
theorem flush_announces_taken_up :
    let sys : System := ⟨thrown "bad" "good", [table]⟩
    table.getChannelName 0 ∈ sys.pipeline.server.unannounced ∧ 0 < sys.pipeline.remaining ∧
      ∃ s', RedisPipeline.flush redis sys.pipeline = .ok () s' ∧ s'.server.unannounced = [] := by
  intro sys
  have reload : CarefulStep redis ⟨atFirst, []⟩ (.reload table, true) ⟨constructed, [table]⟩ :=
    ⟨.returned trivial rfl,
      by simp [atFirst, System.start, RedisPipeline.start, answers, Peer.answer],
      fun _ => .inr ⟨by decide, fun _ _ => ⟨rfl, rfl⟩⟩⟩
  have bad : CarefulStep redis ⟨constructed, [table]⟩ (setKey "bad", true)
      ⟨queuedOne "bad", [table]⟩ :=
    ⟨.returned (mem_singleton_self table) rfl, by rintro (full | unbuffered) <;> contradiction⟩
  have good : CarefulStep redis ⟨queuedOne "bad", [table]⟩ (setKey "good", true)
      ⟨queuedTwo "bad" "good", [table]⟩ :=
    ⟨.returned (mem_singleton_self table) rfl, by rintro (full | unbuffered) <;> contradiction⟩
  have flush : CarefulStep redis ⟨queuedTwo "bad" "good", [table]⟩ (.flush, false) sys := by
    refine ⟨.threw trivial rfl, fun a last => ?_⟩
    obtain rfl : _ = a := Option.some.inj last
    exact ⟨rfl, by decide⟩
  have run : Run (CarefulStep redis) ⟨atFirst, []⟩ [(.reload table, true), (setKey "bad", true),
      (setKey "good", true), (.flush, false)] sys :=
    .cons reload (.cons bad (.cons good (.single flush)))
  have announces := flush_announces run
  have member : table.getChannelName 0 ∈ sys.pipeline.server.unannounced := mem_singleton_self _
  exact ⟨member, announces.1 _ member, _, rfl, announces.2 _ rfl⟩

/-- The set before the bad one stays unannounced with nothing outstanding, and the next flush does
    not publish. -/
theorem flush_announces_skipped :
    let sys : System := ⟨thrown "good" "bad", [table]⟩
    Run (Step redis) ⟨atFirst, []⟩ [(.reload table, true), (setKey "good", true),
        (setKey "bad", true), (.flush, false)] sys ∧
      table.getChannelName 0 ∈ sys.pipeline.server.unannounced ∧ sys.pipeline.remaining = 0 ∧
      ∃ s', RedisPipeline.flush redis sys.pipeline = .ok () s' ∧
        table.getChannelName 0 ∈ s'.server.unannounced := by
  intro sys
  have reload : Step redis ⟨atFirst, []⟩ (.reload table, true) ⟨constructed, [table]⟩ :=
    .returned trivial rfl
  have good : Step redis ⟨constructed, [table]⟩ (setKey "good", true) ⟨queuedOne "good", [table]⟩ :=
    .returned (mem_singleton_self table) rfl
  have bad : Step redis ⟨queuedOne "good", [table]⟩ (setKey "bad", true)
      ⟨queuedTwo "good" "bad", [table]⟩ :=
    .returned (mem_singleton_self table) rfl
  have flush : Step redis ⟨queuedTwo "good" "bad", [table]⟩ (.flush, false) sys :=
    .threw trivial rfl
  refine ⟨.cons reload (.cons good (.cons bad (.single flush))), ?_, rfl, sys.pipeline, rfl, ?_⟩
  · exact mem_singleton_self (table.getChannelName 0)
  · exact mem_singleton_self (table.getChannelName 0)

end SwssCommon.FlushPublish
