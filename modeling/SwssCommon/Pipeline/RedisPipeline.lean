import SwssCommon.Lib.Throwing
import SwssCommon.Redis.Reply

/-! # RedisPipeline

Commands with a short reply are appended to the connection and their replies are read later; a queue
has what is expected of each. Any other command first flushes that queue. A flush that read
something ends with the publish script of the pipeline.

hiredis sends what is appended when a reply is asked for and none is there. A throw in a flush
leaves the rest of the replies on the connection.
-/

namespace SwssCommon

open Bytes Throwing List RedisReply

/-- A command on the connection of a pipeline. The publish script is given by the
    channels of its lines; its digest stands for it. -/
inductive PipelineCommand (κ : Type) where
  | given (command : κ)
  | scriptLoad (script : List Bytes)
  | evalsha (script : List Bytes)

/-- The other end of a connection, and how commands are quoted in errors. -/
structure Peer (σ κ : Type) where
  execute : PipelineCommand κ → σ → RedisReply × σ
  toPrintableString : PipelineCommand κ → Bytes

/-- An appended command: how many were before it, and the type given with it if its
    reply is left for later. -/
structure Sent (κ : Type) where
  serial : Nat
  command : PipelineCommand κ
  expectedType : Option Int

structure Answer (κ : Type) where
  sent : Sent κ
  reply : RedisReply

def Peer.answer {σ κ : Type} (peer : Peer σ κ) : List (Sent κ) → σ → List (Answer κ) × σ
  | [], server => ([], server)
  | sent :: rest, server =>
    let (reply, server) := peer.execute sent.command server
    let (answers, server) := peer.answer rest server
    (⟨sent, reply⟩ :: answers, server)

structure RedisPipeline (σ κ : Type) where
  COMMAND_MAX : Nat
  expectedTypes : List Int
  remaining : Nat
  /-- The channels the publish script names, line by line. -/
  luaPub : List Bytes
  /-- The script last loaded. -/
  shaPub : Option (List Bytes)
  channels : List Bytes
  /-- The connection: the server, what is not sent yet, and replies not read yet. -/
  server : σ
  buffer : List (Sent κ)
  unread : List (Answer κ)
  /-- For the record: how many commands were appended. -/
  appended : Nat

namespace RedisPipeline

variable {σ κ : Type}

def start (COMMAND_MAX : Nat) (server : σ) : RedisPipeline σ κ where
  COMMAND_MAX := COMMAND_MAX
  expectedTypes := []
  remaining := 0
  luaPub := []
  shaPub := none
  channels := []
  server := server
  buffer := []
  unread := []
  appended := 0

inductive Failure where
  | system (e : SystemError)
  /-- Waiting for a reply that is not going to come. -/
  | blocked

abbrev M (σ κ : Type) := EStateM Failure (RedisPipeline σ κ)

def lift {α : Type} (x : Except SystemError α) : M σ κ α :=
  match x with
  | .ok a => pure a
  | .error e => throw (.system e)

variable (peer : Peer σ κ)

def redisGetReply : M σ κ (Answer κ) := fun s =>
  match s.unread with
  | a :: unread => .ok a { s with unread }
  | [] => match peer.answer s.buffer s.server with
    | (a :: unread, server) => .ok a { s with server, unread, buffer := [] }
    | ([], _) => .error .blocked s

def appendTo (command : PipelineCommand κ) (expectedType : Option Int) : M σ κ Unit :=
  modify fun s => { s with
    buffer := s.buffer ++ [⟨s.appended, command, expectedType⟩]
    appended := s.appended + 1 }

/-- `RedisReply(ctx, command)`. -/
def request (command : PipelineCommand κ) : M σ κ (Answer κ) := do
  appendTo command none
  let a ← redisGetReply peer
  lift (guard a.reply.checkReply (peer.toPrintableString command))
  pure a

/-- `RedisReply(ctx, command, expectedType)`. -/
def requestOf (command : PipelineCommand κ) (expectedType : Int) : M σ κ (Answer κ) := do
  let a ← request peer command
  lift (guard (a.reply.checkReplyType expectedType) (peer.toPrintableString command))
  pure a

/-- The checks of `pop`. -/
def check (r : RedisReply) (expectedType : Int) : Except SystemError Unit := do
  r.checkReplyType expectedType
  if expectedType = REDIS_REPLY_STATUS then r.checkStatusOK else pure ()

def pop : M σ κ (Option (Answer κ)) := do
  if (← get).remaining = 0 then pure none
  else
    let a ← redisGetReply peer
    -- there is an expected type for each reply, so the queue has a front
    let expectedType := (← get).expectedTypes.headD 0
    modify fun s => { s with
      remaining := s.remaining - 1
      expectedTypes := s.expectedTypes.tail }
    lift (check a.reply expectedType)
    pure (some a)

def publish : M σ κ Unit := do
  match (← get).shaPub with
  | none => pure ()
  | some script =>
    let _ ← request peer (.evalsha script)

/-- `while (m_remaining) pop()`, which takes at most that many rounds. -/
def popAll : Nat → M σ κ Unit
  | 0 => pure ()
  | rounds + 1 => do
    if (← get).remaining = 0 then pure ()
    else
      let _ ← pop peer
      popAll rounds

def flush : M σ κ Unit := do
  if (← get).remaining = 0 then pure ()
  else
    popAll peer (← get).remaining
    publish peer

def mayflush : M σ κ Unit := do
  if (← get).remaining ≥ (← get).COMMAND_MAX then flush peer else pure ()

def Deferred (expectedType : Int) : Prop :=
  expectedType = REDIS_REPLY_NIL ∨ expectedType = REDIS_REPLY_STATUS ∨
    expectedType = REDIS_REPLY_INTEGER

instance (expectedType : Int) : Decidable (Deferred expectedType) :=
  inferInstanceAs (Decidable (_ ∨ _ ∨ _))

def push (command : PipelineCommand κ) (expectedType : Int) : M σ κ (Option (Answer κ)) :=
  if Deferred expectedType then do
    appendTo command (some expectedType)
    modify fun s => { s with
      expectedTypes := s.expectedTypes ++ [expectedType]
      remaining := s.remaining + 1 }
    mayflush peer
    pure none
  else do
    flush peer
    let a ← requestOf peer command expectedType
    pure (some a)

/-- `push(command)`, whatever the reply is. -/
def pushAny (command : PipelineCommand κ) : M σ κ (Option (Answer κ)) := do
  flush peer
  let a ← request peer command
  pure (some a)

def loadRedisScript (script : List Bytes) : M σ κ (List Bytes) := do
  let _ ← push peer (.scriptLoad script) REDIS_REPLY_STRING
  pure script

/-- The channel has been noted, and its line is in the script to load. -/
def noted (s : RedisPipeline σ κ) (channel : Bytes) : RedisPipeline σ κ :=
  { s with channels := s.channels ++ [channel], luaPub := s.luaPub ++ [channel] }

def addChannel (channel : Bytes) : M σ κ Unit := do
  if channel ∈ (← get).channels then pure ()
  else
    modify (·.noted channel)
    let script ← loadRedisScript peer (← get).luaPub
    modify fun s => { s with shaPub := some script }

def size : M σ κ Nat := do
  pure (← get).remaining

/-! ## What is outstanding -/

def outstanding (s : RedisPipeline σ κ) : List (Sent κ) :=
  s.unread.map (·.sent) ++ s.buffer

def answers (s : RedisPipeline σ κ) : List (Answer κ) :=
  s.unread ++ (peer.answer s.buffer s.server).1

def settled (s : RedisPipeline σ κ) : σ :=
  (peer.answer s.buffer s.server).2

variable {peer}

theorem map_sent_answer (batch : List (Sent κ)) (server : σ) :
    (peer.answer batch server).1.map (·.sent) = batch := by
  induction batch generalizing server with
  | nil => rfl
  | cons sent batch ih => simp [Peer.answer, ih]

variable (peer) in
theorem map_sent_answers (s : RedisPipeline σ κ) :
    (s.answers peer).map (·.sent) = s.outstanding := by
  simp [answers, outstanding, map_sent_answer]

variable (peer) in
theorem outstanding_length (s : RedisPipeline σ κ) :
    s.outstanding.length = (s.answers peer).length := by
  rw [← map_sent_answers peer, length_map]

/-- The counter, the queue of types and the connection agree. -/
structure InStep (s : RedisPipeline σ κ) : Prop where
  counted : s.remaining = s.expectedTypes.length
  matched : s.outstanding.map (·.expectedType) = s.expectedTypes.map some

namespace InStep

variable {s : RedisPipeline σ κ}

theorem start (COMMAND_MAX : Nat) (server : σ) :
    InStep (RedisPipeline.start COMMAND_MAX server : RedisPipeline σ κ) :=
  ⟨rfl, rfl⟩

theorem remaining_eq (inStep : s.InStep) : s.remaining = s.outstanding.length := by
  have lengths := congrArg length inStep.matched
  simp only [length_map] at lengths
  exact inStep.counted.trans lengths.symm

theorem idle (inStep : s.InStep) (none : s.remaining = 0) : s.outstanding = [] :=
  eq_nil_of_length_eq_zero (inStep.remaining_eq.symm.trans none)

end InStep

/-! ## How calls end -/

/-- The reply is what was given with its own command, and a status is `OK`. -/
def Passes (a : Answer κ) : Prop :=
  a.sent.expectedType = some a.reply.type ∧
    (a.reply.type = REDIS_REPLY_STATUS → cStr a.reply.str = ascii "OK")

theorem check_eq_ok {r : RedisReply} {expectedType : Int} :
    check r expectedType = .ok () ↔
      r.type = expectedType ∧ (expectedType = REDIS_REPLY_STATUS → cStr r.str = ascii "OK") := by
  unfold check checkReplyType
  by_cases same : r.type = expectedType
  · rw [if_neg (not_not.mpr same)]
    change (if _ then _ else _) = _ ↔ _
    by_cases status : expectedType = REDIS_REPLY_STATUS
    · simp [same, status, checkStatusOK, checkStatus]
    · simp [same, status, pure, Except.pure]
  · rw [if_pos same]
    exact ⟨nofun, fun passed => absurd passed.1 same⟩

structure Kept (s s' : RedisPipeline σ κ) : Prop where
  COMMAND_MAX : s'.COMMAND_MAX = s.COMMAND_MAX
  luaPub : s'.luaPub = s.luaPub
  shaPub : s'.shaPub = s.shaPub
  channels : s'.channels = s.channels

theorem Kept.refl (s : RedisPipeline σ κ) : Kept s s := ⟨rfl, rfl, rfl, rfl⟩

variable {s : RedisPipeline σ κ}

theorem Kept.trans {t u : RedisPipeline σ κ} (first : Kept s t) (second : Kept t u) : Kept s u where
  COMMAND_MAX := second.COMMAND_MAX.trans first.COMMAND_MAX
  luaPub := second.luaPub.trans first.luaPub
  shaPub := second.shaPub.trans first.shaPub
  channels := second.channels.trans first.channels

variable (peer) in
structure Popped (s : RedisPipeline σ κ) (rest : List (Answer κ)) (s' : RedisPipeline σ κ) :
    Prop where
  inStep : s'.InStep
  answers : s'.answers peer = rest
  settled : s'.settled peer = s.settled peer
  /-- Either nothing was sent, or all that was not sent before. -/
  server : s'.server = s.server ∨ s'.server = s.settled peer
  kept : Kept s s'

theorem Popped.refl (inStep : s.InStep) : Popped peer s (s.answers peer) s :=
  ⟨inStep, rfl, rfl, .inl rfl, .refl s⟩

theorem Popped.trans {t u : RedisPipeline σ κ} {between rest : List (Answer κ)}
    (first : Popped peer s between t) (second : Popped peer t rest u) : Popped peer s rest u where
  inStep := second.inStep
  answers := second.answers
  settled := second.settled.trans first.settled
  server := by
    rcases second.server with same | sent
    · rw [same]
      exact first.server
    · exact .inr (sent.trans first.settled)
  kept := first.kept.trans second.kept

variable {s : RedisPipeline σ κ} {a : Answer κ} {rest : List (Answer κ)}

theorem redisGetReply_ends (pending : s.answers peer = a :: rest) :
    Ends (redisGetReply peer) s
      (fun b s' => b = a ∧ ∃ server buffer unread, s' = { s with server, buffer, unread } ∧
        s'.answers peer = rest ∧ s'.settled peer = s.settled peer ∧
        (server = s.server ∨ server = s.settled peer))
      (fun _ _ => False) := by
  unfold Ends redisGetReply
  unfold answers at pending
  cases unread : s.unread with
  | cons b more =>
    rw [unread, cons_append, cons.injEq] at pending
    obtain ⟨rfl, left⟩ := pending
    exact ⟨rfl, s.server, s.buffer, more, rfl, left, rfl, .inl rfl⟩
  | nil =>
    rw [unread] at pending
    have served : peer.answer s.buffer s.server = (a :: rest, (peer.answer s.buffer s.server).2) :=
      Prod.ext pending rfl
    rw [served]
    refine ⟨rfl, _, [], rest, rfl, ?_, rfl, .inr rfl⟩
    simp [answers, Peer.answer]

theorem pop_ends (inStep : s.InStep) (pending : s.answers peer = a :: rest) :
    Ends (pop peer) s (fun r s' => r = some a ∧ Passes a ∧ Popped peer s rest s')
      (fun e s' => e ≠ .blocked ∧ ¬ Passes a ∧ Popped peer s rest s') := by
  have queued : s.outstanding.map (·.expectedType) =
      a.sent.expectedType :: (rest.map (·.sent)).map (·.expectedType) := by
    rw [← map_sent_answers peer, pending]
    rfl
  obtain ⟨expectedType, expectedTypes, types⟩ : ∃ t ts, s.expectedTypes = t :: ts := by
    cases types : s.expectedTypes with
    | nil => rw [inStep.matched, types] at queued; cases queued
    | cons t ts => exact ⟨t, ts, rfl⟩
  rw [inStep.matched, types, map_cons, cons.injEq] at queued
  have left : s.remaining ≠ 0 := by simp [inStep.counted, types]
  apply Ends.bind_get
  rw [if_neg left]
  apply Ends.bind
  apply (redisGetReply_ends pending).mono _ (fun _ _ absurd => absurd.elim)
  rintro b s' ⟨rfl, server, buffer, unread, rfl, others, settled, sent⟩
  have popped : Popped peer s rest { s with
      server, buffer, unread
      remaining := s.remaining - 1
      expectedTypes := s.expectedTypes.tail } := by
    refine ⟨⟨?_, ?_⟩, others, settled, sent, ⟨rfl, rfl, rfl, rfl⟩⟩
    · simp [inStep.counted]
    · have sents := map_sent_answers peer { s with server, buffer, unread }
      rw [others] at sents
      simpa [outstanding, types, ← queued.2] using
        (congrArg (map (·.expectedType)) sents).symm
  apply Ends.bind_get
  apply Ends.bind_modify
  apply Ends.bind
  have passes : check b.reply (s.expectedTypes.headD 0) = .ok () ↔ Passes b := by
    rw [check_eq_ok, Passes, ← queued.1, types, headD_cons, Option.some_inj, eq_comm]
    exact and_congr_right fun same => by rw [same]
  cases verdict : check b.reply (s.expectedTypes.headD 0) with
  | ok _ => exact Ends.pure (Ends.pure ⟨rfl, passes.mp verdict, popped⟩)
  | error e =>
    refine Ends.throw ⟨by simp, fun passed => ?_, popped⟩
    cases verdict.symm.trans (passes.mpr passed)

theorem answers_eq_nil : s.answers peer = [] ↔ s.outstanding = [] := by
  rw [← length_eq_zero_iff, ← outstanding_length peer, length_eq_zero_iff]

theorem settled_of_idle (idle : s.outstanding = []) : s.settled peer = s.server := by
  have unsent : s.buffer = [] := (append_eq_nil_iff.mp idle).2
  simp [settled, unsent, Peer.answer]

variable (peer) in
/-- The replies up to the first that does not pass have been read. -/
def Stopped (s s' : RedisPipeline σ κ) : Prop :=
  ∃ seen bad rest, s.answers peer = seen ++ bad :: rest ∧ (∀ a ∈ seen, Passes a) ∧ ¬ Passes bad ∧
    Popped peer s rest s'

theorem popAll_ends (inStep : s.InStep) :
    Ends (popAll peer s.remaining) s
      (fun _ s' => (∀ a ∈ s.answers peer, Passes a) ∧ Popped peer s [] s')
      (fun e s' => e ≠ .blocked ∧ Stopped peer s s') := by
  generalize pending : s.answers peer = answers
  have rounds : s.remaining = answers.length := by
    rw [inStep.remaining_eq, outstanding_length peer, pending]
  rw [rounds]
  induction answers generalizing s with
  | nil => exact ⟨by simp, pending ▸ .refl inStep⟩
  | cons a rest ih =>
    apply Ends.bind_get
    rw [if_neg (by simp [rounds])]
    apply Ends.bind
    apply (pop_ends inStep pending).mono
    · rintro r t ⟨rfl, passed, popped⟩
      have left : t.remaining = rest.length := by
        rw [popped.inStep.remaining_eq, outstanding_length peer, popped.answers]
      apply (ih popped.inStep popped.answers left).mono
      · rintro _ u ⟨others, later⟩
        exact ⟨forall_mem_cons.mpr ⟨passed, others⟩, popped.trans later⟩
      · rintro e u ⟨thrown, seen, bad, unseen, split, fine, failed, later⟩
        refine ⟨thrown, a :: seen, bad, unseen, ?_, forall_mem_cons.mpr ⟨passed, fine⟩, failed,
          popped.trans later⟩
        rw [pending, ← popped.answers, split, cons_append]
    · rintro e t ⟨thrown, failed, popped⟩
      exact ⟨thrown, [], a, rest, pending, by simp, failed, popped⟩

variable (peer) in
/-- The pipeline after a command of its own has been executed and its reply read. -/
def requested (s : RedisPipeline σ κ) (command : PipelineCommand κ) : RedisPipeline σ κ :=
  { s with server := (peer.execute command s.server).2, appended := s.appended + 1 }

variable (peer) in
def ownAnswer (s : RedisPipeline σ κ) (command : PipelineCommand κ) : Answer κ :=
  ⟨⟨s.appended, command, none⟩, (peer.execute command s.server).1⟩

variable (peer) in
theorem InStep.requested (inStep : s.InStep) (command : PipelineCommand κ) :
    (s.requested peer command).InStep :=
  ⟨inStep.counted, inStep.matched⟩

theorem request_ends (idle : s.outstanding = []) (command : PipelineCommand κ) :
    Ends (request peer command) s
      (fun a s' => a = s.ownAnswer peer command ∧ s' = s.requested peer command ∧
        a.reply.checkReply = .ok ())
      (fun e s' => e ≠ .blocked ∧ s' = s.requested peer command ∧
        (peer.execute command s.server).1.checkReply ≠ .ok ()) := by
  obtain ⟨unread, unsent⟩ : s.unread = [] ∧ s.buffer = [] := by
    simpa [outstanding] using idle
  have read : redisGetReply peer { s with
      buffer := s.buffer ++ [⟨s.appended, command, none⟩]
      appended := s.appended + 1 } = .ok (s.ownAnswer peer command) (s.requested peer command) := by
    simp_all [redisGetReply, Peer.answer, requested, ownAnswer]
  apply Ends.bind_modify
  apply Ends.bind
  apply Ends.returned read
  apply Ends.bind
  cases guarded : guard (s.ownAnswer peer command).reply.checkReply
      (peer.toPrintableString command) with
  | ok _ => exact Ends.pure (Ends.pure ⟨rfl, rfl, guard_eq_ok.mp guarded⟩)
  | error e =>
    refine Ends.throw ⟨by simp, rfl, fun passed => ?_⟩
    cases guarded.symm.trans (guard_eq_ok.mpr passed)

theorem requestOf_ends (idle : s.outstanding = []) (command : PipelineCommand κ)
    (expectedType : Int) :
    Ends (requestOf peer command expectedType) s
      (fun a s' => a = s.ownAnswer peer command ∧ s' = s.requested peer command)
      (fun e s' => e ≠ .blocked ∧ s' = s.requested peer command ∧
        ¬ (peer.execute command s.server).1.Meets expectedType) := by
  apply Ends.bind
  apply (request_ends idle command).mono
  · rintro a s' ⟨rfl, rfl, -⟩
    apply Ends.bind
    cases guarded : guard ((s.ownAnswer peer command).reply.checkReplyType expectedType)
        (peer.toPrintableString command) with
    | ok _ => exact Ends.pure (Ends.pure ⟨rfl, rfl⟩)
    | error e =>
      refine Ends.throw ⟨by simp, rfl, fun meets => ?_⟩
      cases guarded.symm.trans (guard_eq_ok.mpr meets.2)
  · rintro e s' ⟨thrown, rfl, failed⟩
    exact ⟨thrown, rfl, fun meets => failed meets.1⟩

variable (peer) in
/-- The pipeline after its publish script has run, if it has one. -/
def published (s : RedisPipeline σ κ) : RedisPipeline σ κ :=
  match s.shaPub with
  | none => s
  | some script => s.requested peer (.evalsha script)

theorem published_kept (s : RedisPipeline σ κ) : Kept s (s.published peer) := by
  unfold published
  split <;> exact ⟨rfl, rfl, rfl, rfl⟩

theorem published_outstanding (s : RedisPipeline σ κ) :
    (s.published peer).outstanding = s.outstanding := by
  unfold published
  split <;> rfl

theorem InStep.published (inStep : s.InStep) : (s.published peer).InStep := by
  unfold RedisPipeline.published
  split
  · exact inStep
  · exact inStep.requested peer _

theorem publish_ends (idle : s.outstanding = []) :
    Ends (publish peer) s (fun _ s' => s' = s.published peer)
      (fun e s' => e ≠ .blocked ∧ s' = s.published peer ∧ ∃ script, s.shaPub = some script ∧
        (peer.execute (.evalsha script) s.server).1.checkReply ≠ .ok ()) := by
  apply Ends.bind_get
  unfold published
  split
  · exact Ends.pure rfl
  · rename_i script loaded
    apply Ends.bind
    exact (request_ends idle (.evalsha script)).mono (fun _ _ post => Ends.pure post.2.1)
      (fun _ _ threw => ⟨threw.1, threw.2.1, script, loaded, threw.2.2⟩)

variable (peer) in
/-- Nothing is outstanding, and unless nothing was before, every reply has passed and then the
    publish script has run. -/
structure Flushed (s s' : RedisPipeline σ κ) : Prop where
  inStep : s'.InStep
  kept : Kept s s'
  idle : s'.outstanding = []
  how : s.remaining = 0 ∧ s' = s ∨ s.remaining ≠ 0 ∧ (∀ a ∈ s.answers peer, Passes a) ∧
    ∃ t, Popped peer s [] t ∧ s' = t.published peer

variable (peer) in
/-- A flush has thrown: a reply did not pass, or the publish script failed. -/
structure FlushThrew (s s' : RedisPipeline σ κ) : Prop where
  inStep : s'.InStep
  kept : Kept s s'
  why : Stopped peer s s' ∨ (∀ a ∈ s.answers peer, Passes a) ∧ ∃ t script, Popped peer s [] t ∧
    s' = t.published peer ∧ s.shaPub = some script ∧
    (peer.execute (.evalsha script) t.server).1.checkReply ≠ .ok ()

theorem flush_ends (inStep : s.InStep) :
    Ends (flush peer) s (fun _ s' => Flushed peer s s')
      (fun e s' => e ≠ .blocked ∧ FlushThrew peer s s') := by
  apply Ends.bind_get
  split
  · rename_i nothing
    exact Ends.pure ⟨inStep, .refl s, inStep.idle nothing, .inl ⟨nothing, rfl⟩⟩
  · rename_i left
    apply Ends.bind_get
    apply Ends.bind
    apply (popAll_ends inStep).mono
    · rintro _ t ⟨passed, popped⟩
      have idle : t.outstanding = [] := answers_eq_nil.mp popped.answers
      apply (publish_ends idle).mono
      · rintro _ u rfl
        exact ⟨popped.inStep.published, popped.kept.trans (published_kept t),
          (published_outstanding t).trans idle, .inr ⟨left, passed, t, popped, rfl⟩⟩
      · rintro e u ⟨thrown, rfl, script, loaded, failed⟩
        exact ⟨thrown, popped.inStep.published, popped.kept.trans (published_kept t),
          .inr ⟨passed, t, script, popped, rfl, popped.kept.shaPub ▸ loaded, failed⟩⟩
    · rintro e t ⟨thrown, stopped⟩
      have ⟨_, _, _, _, _, _, popped⟩ := stopped
      exact ⟨thrown, popped.inStep, popped.kept, .inl stopped⟩

/-- The pipeline with one more command whose reply is left for later. -/
def queue (s : RedisPipeline σ κ) (command : PipelineCommand κ) (expectedType : Int) :
    RedisPipeline σ κ :=
  { s with
    buffer := s.buffer ++ [⟨s.appended, command, some expectedType⟩]
    appended := s.appended + 1
    expectedTypes := s.expectedTypes ++ [expectedType]
    remaining := s.remaining + 1 }

theorem InStep.queue (inStep : s.InStep) (command : PipelineCommand κ) (expectedType : Int) :
    (s.queue command expectedType).InStep := by
  refine ⟨?_, ?_⟩
  · simp [RedisPipeline.queue, inStep.counted]
  · have matched := inStep.matched
    unfold outstanding at matched
    simp only [RedisPipeline.queue, outstanding, ← append_assoc, map_append, matched]
    simp

theorem push_deferred_ends (inStep : s.InStep) (command : PipelineCommand κ) {expectedType}
    (deferred : Deferred expectedType) :
    Ends (push peer command expectedType) s
      (fun r s' => r = none ∧
        (s.remaining + 1 < s.COMMAND_MAX ∧ s' = s.queue command expectedType ∨
          s.COMMAND_MAX ≤ s.remaining + 1 ∧ Flushed peer (s.queue command expectedType) s'))
      (fun e s' => e ≠ .blocked ∧ s.COMMAND_MAX ≤ s.remaining + 1 ∧
        FlushThrew peer (s.queue command expectedType) s') := by
  unfold push
  rw [if_pos deferred]
  apply Ends.bind_modify
  apply Ends.bind_modify
  apply Ends.bind
  apply Ends.bind_get
  apply Ends.bind_get
  split
  · rename_i full
    exact (flush_ends (inStep.queue command expectedType)).mono
      (fun _ _ flushed => Ends.pure ⟨rfl, .inr ⟨full, flushed⟩⟩)
      (fun _ _ threw => ⟨threw.1, full, threw.2⟩)
  · rename_i room
    exact Ends.pure (Ends.pure ⟨rfl, .inl ⟨Nat.lt_of_not_le room, rfl⟩⟩)

theorem push_ends (inStep : s.InStep) (command : PipelineCommand κ) {expectedType}
    (immediate : ¬ Deferred expectedType) :
    Ends (push peer command expectedType) s
      (fun r s' => ∃ t, Flushed peer s t ∧ r = some (t.ownAnswer peer command) ∧
        s' = t.requested peer command)
      (fun e s' => e ≠ .blocked ∧ (FlushThrew peer s s' ∨ ∃ t, Flushed peer s t ∧
        s' = t.requested peer command ∧
        ¬ (peer.execute command t.server).1.Meets expectedType)) := by
  unfold push
  rw [if_neg immediate]
  apply Ends.bind
  apply (flush_ends inStep).mono _ (fun _ _ threw => ⟨threw.1, .inl threw.2⟩)
  intro _ t flushed
  apply Ends.bind
  apply (requestOf_ends flushed.idle command expectedType).mono
  · rintro a u ⟨rfl, rfl⟩
    exact Ends.pure ⟨t, flushed, rfl, rfl⟩
  · rintro e u ⟨thrown, rfl, failed⟩
    exact ⟨thrown, .inr ⟨t, flushed, rfl, failed⟩⟩

theorem pushAny_ends (inStep : s.InStep) (command : PipelineCommand κ) :
    Ends (pushAny peer command) s
      (fun r s' => ∃ t, Flushed peer s t ∧ r = some (t.ownAnswer peer command) ∧
        s' = t.requested peer command)
      (fun e s' => e ≠ .blocked ∧ (FlushThrew peer s s' ∨
        ∃ t, Flushed peer s t ∧ s' = t.requested peer command)) := by
  apply Ends.bind
  apply (flush_ends inStep).mono _ (fun _ _ threw => ⟨threw.1, .inl threw.2⟩)
  intro _ t flushed
  apply Ends.bind
  apply (request_ends flushed.idle command).mono
  · rintro a u ⟨rfl, rfl, -⟩
    exact Ends.pure ⟨t, flushed, rfl, rfl⟩
  · rintro e u ⟨thrown, rfl, -⟩
    exact ⟨thrown, .inr ⟨t, flushed, rfl⟩⟩

/-! ## Any calls, one after the other -/

inductive Call (κ : Type) where
  | push (command : PipelineCommand κ) (expectedType : Int)
  | pushAny (command : PipelineCommand κ)
  | pop
  | flush
  | size
  | addChannel (channel : Bytes)

def Call.own : Call κ → Option (PipelineCommand κ)
  | push command expectedType => if Deferred expectedType then none else some command
  | pushAny command => some command
  | _ => none

variable (peer) in
def Call.run : Call κ → M σ κ (Option (Answer κ))
  | push command expectedType => RedisPipeline.push peer command expectedType
  | pushAny command => RedisPipeline.pushAny peer command
  | pop => RedisPipeline.pop peer
  | flush => do RedisPipeline.flush peer; pure none
  | size => do let _ ← RedisPipeline.size; pure none
  | addChannel channel => do RedisPipeline.addChannel peer channel; pure none

variable (peer) in
/-- The pipeline after some calls, of which any may have thrown. -/
def after (calls : List (Call κ)) (s : RedisPipeline σ κ) : RedisPipeline σ κ :=
  calls.foldl (fun s call => endState (call.run peer s)) s

theorem addChannel_ends (inStep : s.InStep) (channel : Bytes) :
    Ends (addChannel peer channel) s (fun _ s' => s'.InStep)
      (fun e s' => e ≠ .blocked ∧ s'.InStep) := by
  apply Ends.bind_get
  split
  · exact Ends.pure inStep
  · apply Ends.bind_modify
    apply Ends.bind_get
    apply Ends.bind
    have noted : (s.noted channel).InStep := ⟨inStep.counted, inStep.matched⟩
    apply Ends.bind
    apply (push_ends noted _ (by decide : ¬ Deferred REDIS_REPLY_STRING)).mono
    · rintro r s' ⟨t, flushed, rfl, rfl⟩
      have loaded := flushed.inStep.requested peer (.scriptLoad (s.luaPub ++ [channel]))
      exact Ends.pure (Ends.modify ⟨loaded.counted, loaded.matched⟩)
    · rintro e s' ⟨thrown, threw | ⟨t, flushed, rfl, -⟩⟩
      · exact ⟨thrown, threw.inStep⟩
      · exact ⟨thrown, flushed.inStep.requested peer _⟩

/-- Whatever is called, the books stay in step; a synchronous push returns the reply of the command
    it appended last. -/
theorem call_ends (inStep : s.InStep) (call : Call κ) :
    Ends (call.run peer) s
      (fun r s' => s'.InStep ∧ ∀ command, call.own = some command → ∃ a, r = some a ∧
        a.sent = ⟨s'.appended - 1, command, none⟩)
      (fun e s' => e ≠ .blocked ∧ s'.InStep) := by
  cases call with
  | push command expectedType =>
    by_cases deferred : Deferred expectedType
    · apply (push_deferred_ends inStep command deferred).mono
      · rintro r s' ⟨rfl, later⟩
        refine ⟨?_, by simp [Call.own, deferred]⟩
        rcases later with ⟨-, rfl⟩ | ⟨-, flushed⟩
        · exact inStep.queue command expectedType
        · exact flushed.inStep
      · rintro e s' ⟨thrown, -, threw⟩
        exact ⟨thrown, threw.inStep⟩
    · apply (push_ends inStep command deferred).mono
      · rintro r s' ⟨t, flushed, rfl, rfl⟩
        refine ⟨flushed.inStep.requested peer command, fun own isOwn => ⟨_, rfl, ?_⟩⟩
        simp_all [Call.own, ownAnswer, requested]
      · rintro e s' ⟨thrown, threw | ⟨t, flushed, rfl, -⟩⟩
        · exact ⟨thrown, threw.inStep⟩
        · exact ⟨thrown, flushed.inStep.requested peer _⟩
  | pushAny command =>
    apply (pushAny_ends inStep command).mono
    · rintro r s' ⟨t, flushed, rfl, rfl⟩
      refine ⟨flushed.inStep.requested peer command, fun own isOwn => ⟨_, rfl, ?_⟩⟩
      simp_all [Call.own, ownAnswer, requested]
    · rintro e s' ⟨thrown, threw | ⟨t, flushed, rfl⟩⟩
      · exact ⟨thrown, threw.inStep⟩
      · exact ⟨thrown, flushed.inStep.requested peer _⟩
  | pop =>
    cases pending : s.answers peer with
    | nil =>
      have nothing : s.remaining = 0 := by
        rw [inStep.remaining_eq, answers_eq_nil.mp pending, length_nil]
      apply Ends.bind_get
      rw [if_pos nothing]
      exact Ends.pure ⟨inStep, by simp [Call.own]⟩
    | cons a rest =>
      apply (pop_ends inStep pending).mono
      · rintro r s' ⟨rfl, -, popped⟩
        exact ⟨popped.inStep, by simp [Call.own]⟩
      · rintro e s' ⟨thrown, -, popped⟩
        exact ⟨thrown, popped.inStep⟩
  | flush =>
    apply Ends.bind
    exact (flush_ends inStep).mono
      (fun _ _ flushed => Ends.pure ⟨flushed.inStep, by simp [Call.own]⟩)
      (fun _ _ threw => ⟨threw.1, threw.2.inStep⟩)
  | size => exact ⟨inStep, by simp [Call.own]⟩
  | addChannel channel =>
    apply Ends.bind
    exact (addChannel_ends inStep channel).mono
      (fun _ _ inStep => Ends.pure ⟨inStep, by simp [Call.own]⟩) (fun _ _ threw => threw)

theorem after_inStep (calls : List (Call κ)) (inStep : s.InStep) : (s.after peer calls).InStep := by
  induction calls generalizing s with
  | nil => exact inStep
  | cons call calls ih =>
    apply ih
    exact ((call_ends inStep call).mono (fun _ _ post => post.1) (fun _ _ post => post.2)).endState

end RedisPipeline

end SwssCommon
