import SwssCommon.Lib.Run
import SwssCommon.Redis.Connector

/-! # Blocking reads of a DBInterface

`blockable` repeats a request until it is answered. A blocking read that finds no data subscribes to
the keyspace notifications, reads again, and then waits for a notification before each further read.
The subscription is kept under the name of the database and is to be gone when the call is over.

What comes from outside is the event of a step. A subscription is marked with the call that made it.
The count of attempts only decides how a lost connection is logged.
-/

namespace SwssCommon

open Bytes Redis Function

namespace DBInterface

/-! ## Requests -/

/-- The exceptions, as far as the handlers of `blockable` tell them apart. -/
inductive Exception where
  | unavailableData (message data : Bytes)
  | system (e : SystemError)
  | redis (what : Bytes)
  /-- One that no handler names: `out_of_range`, `runtime_error`, `invalid_argument`, … -/
  | other (what : Bytes)

inductive Answer where
  | reply (r : RedisReply)
  | broken (what : Bytes)
  | outOfMemory

section Connector

variable (server : RedisServer)

def guarded (command : RedisCommand) (check : Except SystemError Unit) : Except Exception Unit :=
  match RedisReply.guard check (server.toPrintableString command.argv) with
  | .ok () => .ok ()
  | .error e => .error (.system e)

/-- `RedisReply(ctx, command)`. -/
def request (command : RedisCommand) : Answer → Except Exception RedisReply
  | .outOfMemory => .error (.other (ascii "std::bad_alloc"))
  | .broken what => .error (.redis what)
  | .reply r => do
    guarded server command r.checkReply
    .ok r

/-- `RedisReply(ctx, command, expectedType)`. -/
def requestOf (command : RedisCommand) (expectedType : Int) (answer : Answer) :
    Except Exception RedisReply := do
  let r ← request server command answer
  guarded server command (r.checkReplyType expectedType)
  .ok r

def hget (key field : Bytes) (answer : Answer) : Except Exception (Option Bytes) := do
  match ← request server (.HGET (cStr key) (cStr field)) answer with
  | .nil => .ok none
  | .string str => .ok (some (cStr str))
  | _ => .error (.other (ascii "HGET failed, unexpected reply type, memory exception"))

def hgetall (key : Bytes) (answer : Answer) : Except Exception Hash := do
  let r ← requestOf server (.HGETALL (cStr key)) REDIS_REPLY_ARRAY answer
  .ok (OrderedMap.insertNew ∅ (DBConnector.pairs (DBConnector.elements r)))

def keys (pattern : Bytes) (answer : Answer) : Except Exception (List Bytes) := do
  let r ← requestOf server (.KEYS (cStr pattern)) REDIS_REPLY_ARRAY answer
  .ok ((DBConnector.elements r).map fun element => cStr element.str)

def hset (key field value : Bytes) (answer : Answer) : Except Exception Unit := do
  let command := .HSET (cStr key) [(cStr field, cStr value)]
  let _ ← requestOf server command REDIS_REPLY_INTEGER answer
  .ok ()

def del (key : Bytes) (answer : Answer) : Except Exception Int := do
  match ← requestOf server (.DEL (cStr key)) REDIS_REPLY_INTEGER answer with
  | .integer n => .ok n
  | _ => .ok 0

end Connector

/-- The methods that go through `blockable`. -/
inductive Method where
  | get (hash key : Bytes)
  | get_all (hash : Bytes)
  | keys (pattern : Bytes)
  | set (hash key value : Bytes)
  | del (key : Bytes)

inductive Value where
  | pointer (p : Option Bytes)
  | map (m : Hash)
  | vector (v : List Bytes)
  | int64 (n : Int)

/-- The `T()` of a method. -/
def Method.T : Method → Value
  | get _ _ => .pointer none
  | get_all _ => .map ∅
  | keys _ => .vector []
  | set _ _ _ | del _ => .int64 0

/-- The `innerfunc` of a method, for the answer to its command. -/
def Method.innerfunc (server : RedisServer) (dbName : Bytes) (answer : Answer) :
    Method → Except Exception Value
  | get hash key => do
    match ← DBInterface.hget server hash key answer with
    | none => .error (.unavailableData (ascii "Key '" ++ hash ++ ascii "' field '" ++ key ++
        ascii "' unavailable in database '" ++ dbName ++ ascii "'") hash)
    | some value => .ok (.pointer (if value = ascii "None" then none else some value))
  | get_all hash => do
    let map ← DBInterface.hgetall server hash answer
    if map.isEmpty then
      .error (.unavailableData (ascii "Key '\x7b" ++ hash ++
        ascii "\x7d' unavailable in database '\x7b" ++ dbName ++ ascii "\x7d'") hash)
    else .ok (.map (map.map fun _ value => if value = ascii "None" then [] else value))
  | keys pattern => do
    let keys ← DBInterface.keys server pattern answer
    if keys = [] then
      .error (.unavailableData (ascii "DB '\x7b" ++ dbName ++
        ascii "\x7d' is empty with pattern '" ++ pattern ++ ascii "'!") (ascii "hset"))
    else .ok (.vector keys)
  | set hash key value => do
    DBInterface.hset server hash key value answer
    .ok (.int64 1)
  | del key => do
    .ok (.int64 (← DBInterface.del server key answer))

/-! ## Subscriptions and connections -/

/-- `m_redisClient`: the number of the database that each client is connected to. -/
abbrev Clients := Bytes → Option Int

/-- `keyspace_notification_channels`: the number of the call that subscribed. -/
abbrev Channels := Bytes → Option Nat

def unsubscribeKeyspaceNotification (dbName : Bytes) (channels : Channels) : Channels :=
  update channels dbName none

/-- What the loop of `_unavailable_data_handler` meets: the time is over, the channel times out or
    fails, or there is a message. -/
inductive Heard where
  | deadline
  | timeout
  | broken (what : Bytes)
  | reply (r : RedisReply)

/-- A turn of the loop of `_unavailable_data_handler`; `none` if another turn follows. -/
def unavailableDataHandler (data : Bytes) : Heard → Except Exception (Option Bool)
  | .deadline => .ok (some false)
  | .timeout => .ok none
  | .broken what => .error (.redis what)
  | .reply r =>
    match (DBConnector.elements r)[3]? with
    | none => .error (.other (ascii "Out of the range of redisReply elements"))
    | some r3 =>
      if r3.type ≠ REDIS_REPLY_STRING then
        .error (.system ⟨ascii "Wrong expected type of result"⟩)
      else if cStr r3.str = cStr data then .ok (some true)
      else .ok none

/-- How it goes to connect: the constructor of the client, then the `CONFIG SET`. -/
structure Dial where
  constructed : Except Exception Unit
  configured : Except Exception Unit

def onetimeConnect (dbId : Int) (dbName : Bytes) (dial : Dial) (clients : Clients) :
    Except Exception Unit × Clients :=
  if dbName = [] then (.error (.other (ascii "dbName")), clients)
  else
    match dial.constructed with
    | .error e => (.error e, clients)
    | .ok () =>
      if (clients dbName).isSome then (.ok (), clients)
      else (dial.configured, update clients dbName (some dbId))

/-! ## Calls -/

structure Call where
  method : Method
  dbName : Bytes
  blocking : Bool
  /-- The number of the call. -/
  serial : Nat

/-- Where a DBInterface is in its code. A connection is made for `connect`, or in the middle of
    another call, which then goes on. -/
inductive Phase where
  | idle
  | trying (call : Call)
  | subscribing (call : Call)
  | listening (call : Call) (message data : Bytes)
  | connecting (resume : Option Call) (dbId : Int) (dbName : Bytes) (retry : Bool)
  | ended (call : Call) (outcome : Except Exception Value)

inductive Event where
  | call (method : Method) (dbName : Bytes) (blocking : Bool)
  | connect (dbId : Int) (dbName : Bytes) (retry : Bool)
  | close (dbName : Bytes)
  | closeAll
  | answer (a : Answer)
  | subscribe (result : Except Exception Unit)
  | listen (heard : Heard)
  | dial (d : Dial)

structure State where
  channels : Channels
  clients : Clients
  /-- The calls so far. -/
  calls : Nat
  phase : Phase

def start : State where
  channels _ := none
  clients _ := none
  calls := 0
  phase := .idle

namespace State

def ends (s : State) (call : Call) (outcome : Except Exception Value) : State :=
  { s with phase := .ended call outcome }

def unsubscribe (s : State) (call : Call) : State :=
  { s with channels := unsubscribeKeyspaceNotification call.dbName s.channels }

/-- The `f()` of `blockable`. -/
def f (server : RedisServer) (s : State) (call : Call) (answer : Answer) :
    Except Exception Value :=
  match s.clients call.dbName with
  | none => .error (.other (ascii "_Map_base::at"))
  | some _ => call.method.innerfunc server call.dbName answer

def connectionErrorHandler (s : State) (call : Call) : State :=
  match s.clients call.dbName with
  | none => s.ends call (.error (.other (ascii "_Map_base::at")))
  | some dbId =>
    { s with
      clients := update s.clients call.dbName none
      phase := .connecting (some call) dbId call.dbName true }

/-- A turn of the loop of `blockable`, up to where it waits for something else than the
    answer. -/
def blockable (server : RedisServer) (s : State) (call : Call) (answer : Answer) : State :=
  match s.f server call answer with
  | .ok value => (s.unsubscribe call).ends call (.ok value)
  | .error (.unavailableData message data) =>
    if call.blocking then
      if (s.channels call.dbName).isSome then { s with phase := .listening call message data }
      else { s with phase := .subscribing call }
    else s.ends call (.ok call.method.T)
  | .error (.redis _) => s.connectionErrorHandler call
  | .error e => s.ends call (.error e)

/-- What `blockable` makes of `_unavailable_data_handler`, in a handler of its own, whose exceptions
    no other one catches. -/
def listened (s : State) (call : Call) (message data : Bytes) (heard : Heard) : State :=
  match unavailableDataHandler data heard with
  | .ok none => s
  | .ok (some true) => { s with phase := .trying call }
  | .ok (some false) => (s.unsubscribe call).ends call (.error (.unavailableData message data))
  | .error e => s.ends call (.error e)

/-- `_subscribe_keyspace_notification`, again in a handler. The channel is stored when all
    went well. -/
def subscribed (s : State) (call : Call) (result : Except Exception Unit) : State :=
  match result with
  | .ok () =>
    { s with
      channels := update s.channels call.dbName (some call.serial)
      phase := .trying call }
  | .error e => s.ends call (.error e)

/-- Where a connection that is made, or given up for an exception, leads. -/
def connected (s : State) (resume : Option Call) (result : Except Exception Unit) : State :=
  match resume, result with
  | none, _ => { s with phase := .idle }
  | some call, .ok () => { s with phase := .trying call }
  | some call, .error e => s.ends call (.error e)

/-- A turn of the loop of `_persistent_connect`, or all of `_onetime_connect`. -/
def dialed (s : State) (resume : Option Call) (dbId : Int) (dbName : Bytes) (retry : Bool)
    (dial : Dial) : State :=
  let s' := { s with clients := (onetimeConnect dbId dbName dial s.clients).2 }
  match (onetimeConnect dbId dbName dial s.clients).1, retry with
  | .error (.redis _), true => { s' with clients := update s'.clients dbName none }
  | result, _ => s'.connected resume result

end State

def Phase.free : Phase → Bool
  | .idle | .ended _ _ => true
  | _ => false

variable (server : RedisServer)

inductive Step : State → Event → State → Prop where
  | call {s : State} (free : s.phase.free = true) (method : Method) (dbName : Bytes)
      (blocking : Bool) :
      Step s (.call method dbName blocking)
        { s with
          calls := s.calls + 1
          phase := .trying ⟨method, dbName, blocking, s.calls + 1⟩ }
  | connect {s : State} (free : s.phase.free = true) (dbId : Int) (dbName : Bytes)
      (retry : Bool) :
      Step s (.connect dbId dbName retry) { s with phase := .connecting none dbId dbName retry }
  | close {s : State} (free : s.phase.free = true) (dbName : Bytes) :
      Step s (.close dbName) { s with clients := update s.clients dbName none, phase := .idle }
  | closeAll {s : State} (free : s.phase.free = true) :
      Step s .closeAll { s with clients := fun _ => none, phase := .idle }
  | answer {s : State} {call : Call} (tries : s.phase = .trying call) (answer : Answer) :
      Step s (.answer answer) (s.blockable server call answer)
  | subscribe {s : State} {call : Call} (subscribes : s.phase = .subscribing call)
      (result : Except Exception Unit) :
      Step s (.subscribe result) (s.subscribed call result)
  | listen {s : State} {call : Call} {message data : Bytes}
      (listens : s.phase = .listening call message data) (heard : Heard) :
      Step s (.listen heard) (s.listened call message data heard)
  | dial {s : State} {resume : Option Call} {dbId : Int} {dbName : Bytes} {retry : Bool}
      (connects : s.phase = .connecting resume dbId dbName retry) (dial : Dial) :
      Step s (.dial dial) (s.dialed resume dbId dbName retry dial)

/-! ## What is left of a subscription -/

/-- The step throws out of the call: the request fails for good, the subscription cannot be listened
    to, or the connection is not made again. -/
def throws (s : State) (e : Event) : Bool :=
  match s.phase, e with
  | .trying call, .answer answer =>
    match s.f server call answer with
    | .error (.system _) | .error (.other _) => true
    | _ => false
  | .listening _ _ data, .listen heard =>
    match unavailableDataHandler data heard with
    | .error _ => true
    | .ok _ => false
  | .connecting (some _) dbId dbName retry, .dial dial =>
    match (onetimeConnect dbId dbName dial s.clients).1, retry with
    | .ok (), _ | .error (.redis _), true => false
    | .error _, _ => true
  | _, _ => false

def Phase.call? : Phase → Option Call
  | .trying call | .listening call _ _ | .subscribing call | .ended call _ => some call
  | .connecting resume _ _ _ => resume
  | .idle => none

/-- No call is thrown out of while its database has a subscription. -/
def Clean (s : State) (e : Event) : Prop :=
  ∀ call, s.phase.call? = some call → s.channels call.dbName ≠ none → throws server s e = false

namespace Channels

def Empty (channels : Channels) : Prop :=
  ∀ db, channels db = none

/-- There is nothing but a subscription that the call made, and a call that does not block
    makes none. -/
def Held (channels : Channels) (call : Call) : Prop :=
  ∀ db n, channels db = some n → call.blocking = true ∧ db = call.dbName ∧ n = call.serial

variable {channels : Channels} {call : Call}

theorem Empty.held (empty : channels.Empty) : channels.Held call := by
  intro db n there
  simp [empty db] at there

theorem Held.empty (held : channels.Held call) (missing : channels call.dbName = none) :
    channels.Empty := by
  intro db
  cases there : channels db with
  | none => rfl
  | some n =>
    obtain ⟨_, rfl, _⟩ := held db n there
    simp [missing] at there

theorem Held.empty_of_not_blocking (held : channels.Held call) (returns : call.blocking = false) :
    channels.Empty := by
  intro db
  cases there : channels db with
  | none => rfl
  | some n =>
    have blocks := (held db n there).1
    simp [returns] at blocks

theorem Held.unsubscribe (held : channels.Held call) :
    Empty (unsubscribeKeyspaceNotification call.dbName channels) := by
  intro db
  by_cases same : db = call.dbName
  · simp [unsubscribeKeyspaceNotification, same]
  · rw [unsubscribeKeyspaceNotification, update_of_ne same]
    cases there : channels db with
    | none => rfl
    | some n => exact absurd (held db n there).2.1 same

theorem Empty.subscribe (empty : channels.Empty) (blocks : call.blocking) :
    Held (update channels call.dbName (some call.serial)) call := by
  intro db n there
  by_cases same : db = call.dbName
  · subst same
    exact ⟨blocks, rfl, by simpa [eq_comm] using there⟩
  · rw [update_of_ne same, empty db] at there
    simp at there

end Channels

def Phase.Relies (channels : Channels) : Phase → Prop
  | .idle | .ended _ _ | .connecting none _ _ _ => channels.Empty
  | .subscribing call => channels.Empty ∧ call.blocking = true
  | .trying call | .connecting (some call) _ _ _ => channels.Held call
  | .listening call _ _ => channels.Held call ∧ channels call.dbName ≠ none

def State.Sound (s : State) : Prop :=
  s.phase.Relies s.channels

variable {server : RedisServer} {s t : State} {e : Event} {call : Call}

theorem Phase.Relies.of_free {phase : Phase} {channels}
    (relies : phase.Relies channels) (free : phase.free) : channels.Empty := by
  cases phase with
  | idle | ended => exact relies
  | trying | subscribing | listening | connecting => simp [Phase.free] at free

theorem Clean.missing (clean : Clean server s e) (calls : s.phase.call? = some call)
    (thrown : throws server s e) : s.channels call.dbName = none := by
  by_contra there
  simp [clean call calls there] at thrown

theorem f_of_redis {answer what}
    (thrown : s.f server call answer = .error (.redis what)) :
    ∃ dbId, s.clients call.dbName = some dbId := by
  unfold State.f at thrown
  cases client : s.clients call.dbName with
  | none => simp [client] at thrown
  | some dbId => exact ⟨dbId, rfl⟩

theorem sound_blockable (tries : s.phase = .trying call) (held : s.channels.Held call)
    {answer} (clean : Clean server s (.answer answer)) :
    (s.blockable server call answer).Sound := by
  have calls : s.phase.call? = some call := by rw [tries]; rfl
  have missing := clean.missing calls
  simp only [throws, tries] at missing
  unfold State.blockable
  cases ran : s.f server call answer with
  | ok value => exact held.unsubscribe
  | error thrown =>
    simp only [ran] at missing
    cases thrown with
    | system error | other what => exact held.empty (missing rfl)
    | redis what =>
      obtain ⟨dbId, client⟩ := f_of_redis ran
      simp only [State.connectionErrorHandler, client]
      exact held
    | unavailableData message data =>
      cases blocks : call.blocking with
      | false => exact held.empty_of_not_blocking blocks
      | true =>
        cases found : s.channels call.dbName with
        | none => exact ⟨held.empty found, blocks⟩
        | some n => exact ⟨held, by simp [found]⟩

theorem sound_subscribed (empty : s.channels.Empty) (blocks : call.blocking)
    (result : Except Exception Unit) : (s.subscribed call result).Sound := by
  cases result with
  | ok done => exact empty.subscribe blocks
  | error thrown => exact empty

theorem sound_listened {message data} (listens : s.phase = .listening call message data)
    (sound : s.Sound) {heard} (clean : Clean server s (.listen heard)) :
    (s.listened call message data heard).Sound := by
  have held : s.channels.Held call := by
    rw [State.Sound, listens] at sound
    exact sound.1
  have calls : s.phase.call? = some call := by rw [listens]; rfl
  have missing := clean.missing calls
  simp only [throws, listens] at missing
  unfold State.listened
  cases ran : unavailableDataHandler data heard with
  | error thrown =>
    rw [ran] at missing
    exact held.empty (missing rfl)
  | ok turn =>
    cases turn with
    | none => exact sound
    | some acquired =>
      cases acquired with
      | true => exact held
      | false => exact held.unsubscribe

theorem sound_dialed {resume dbId dbName retry}
    (connects : s.phase = .connecting resume dbId dbName retry) (sound : s.Sound) {dial}
    (clean : Clean server s (.dial dial)) :
    (s.dialed resume dbId dbName retry dial).Sound := by
  have relies := sound
  rw [State.Sound, connects] at relies
  unfold State.dialed
  cases resume with
  | none =>
    split
    · exact sound
    · exact relies
  | some call =>
    have calls : s.phase.call? = some call := by rw [connects]; rfl
    have missing := clean.missing calls
    simp only [throws, connects] at missing
    cases ran : (onetimeConnect dbId dbName dial s.clients).1 with
    | ok done => exact relies
    | error thrown =>
      rw [ran] at missing
      cases thrown with
      | redis what =>
        cases retry with
        | true => exact sound
        | false => exact relies.empty (missing rfl)
      | unavailableData | system | other => exact relies.empty (missing rfl)

theorem sound_step (sound : s.Sound) (clean : Clean server s e) (taken : Step server s e t) :
    t.Sound := by
  cases taken with
  | call free => exact (sound.of_free free).held
  | connect free | close free | closeAll free => exact sound.of_free free
  | answer tries =>
    rw [State.Sound, tries] at sound
    exact sound_blockable tries sound clean
  | subscribe subscribes result =>
    rw [State.Sound, subscribes] at sound
    exact sound_subscribed sound.1 sound.2 result
  | listen listens => exact sound_listened listens sound clean
  | dial connects => exact sound_dialed connects sound clean

theorem left_of_throws (taken : Step server s e t) (thrown : throws server s e)
    (calls : s.phase.call? = some call) :
    t.channels = s.channels ∧ ∃ outcome, t.phase = .ended call outcome := by
  cases taken with
  | call | connect | close | closeAll | subscribe => simp [throws] at thrown
  | answer tries answer =>
    rw [tries] at calls
    obtain rfl := Option.some.inj calls
    simp only [throws, tries] at thrown
    unfold State.blockable
    cases ran : s.f server _ answer with
    | ok value => simp [ran] at thrown
    | error why =>
      cases why with
      | system | other => exact ⟨rfl, _, rfl⟩
      | redis | unavailableData => simp [ran] at thrown
  | listen listens heard =>
    rw [listens] at calls
    obtain rfl := Option.some.inj calls
    simp only [throws, listens] at thrown
    unfold State.listened
    cases ran : unavailableDataHandler _ heard with
    | ok turn => simp [ran] at thrown
    | error why => exact ⟨rfl, _, rfl⟩
  | dial connects dial =>
    rw [connects] at calls
    obtain rfl : _ = some call := calls
    simp only [throws, connects] at thrown
    unfold State.dialed
    cases ran : (onetimeConnect _ _ dial s.clients).1 with
    | ok done => simp [ran] at thrown
    | error why =>
      rw [ran] at thrown
      cases why with
      | system | other | unavailableData => exact ⟨rfl, _, rfl⟩
      | redis what =>
        rename_i retry
        cases retry with
        | false => exact ⟨rfl, _, rfl⟩
        | true => simp at thrown

/-- The steps of runs in which no subscription is left behind. -/
def CleanStep (server : RedisServer) (s : State) (e : Event) (t : State) : Prop :=
  Step server s e t ∧ Clean server s e

/-- After every call its database has no subscription, and a blocking call waits on one that it made
    itself, in every run in which no call is thrown out of while its database has one. There a step
    that ends a call leaves a subscription just if it throws out of it. -/
theorem released_iff {es : List Event} (run : Run (CleanStep server) start es s) :
    (∀ call outcome, s.phase = .ended call outcome → s.channels call.dbName = none) ∧
    (∀ call message data, s.phase = .listening call message data →
      s.channels call.dbName = some call.serial) ∧
    ∀ e t call outcome, Step server s e t → t.phase = .ended call outcome →
      (t.channels call.dbName = none ↔ Clean server s e) := by
  have sound : s.Sound := run.invariant (I := fun _ s => s.Sound) (fun _ => rfl)
    fun sound taken => sound_step sound taken.2 taken.1
  refine ⟨?_, ?_, ?_⟩
  · intro call outcome ended
    rw [State.Sound, ended] at sound
    exact sound call.dbName
  · intro call message data listens
    rw [State.Sound, listens] at sound
    obtain ⟨held, present⟩ := sound
    obtain ⟨n, there⟩ := Option.ne_none_iff_exists'.mp present
    rw [there, (held _ n there).2.2]
  · intro e t call outcome taken ended
    constructor
    · intro released call' calls there
      by_contra thrown
      obtain ⟨same, _, ended'⟩ := left_of_throws taken (by simpa using thrown) calls
      rw [ended] at ended'
      obtain ⟨rfl, _⟩ := Phase.ended.inj ended'
      exact there (same ▸ released)
    · intro clean
      have after := sound_step sound clean taken
      rw [State.Sound, ended] at after
      exact after call.dbName

section Subscribed

private def reading (serial : Nat) : Call :=
  ⟨.get (ascii "PORT") (ascii "mtu"), ascii "APPL_DB", true, serial⟩

private def afterSubscribing : State where
  channels := update (fun _ => none) (ascii "APPL_DB") (some 1)
  clients := update (fun _ => none) (ascii "APPL_DB") (some 0)
  calls := 1
  phase := .trying (reading 1)

private theorem run_afterSubscribing :
    Run (CleanStep .sorted) start
      [.connect 0 (ascii "APPL_DB") true, .dial ⟨.ok (), .ok ()⟩,
        .call (reading 1).method (ascii "APPL_DB") true, .answer (.reply .nil),
        .subscribe (.ok ())] afterSubscribing := by
  have connecting : Run (CleanStep .sorted) start _ _ :=
    .single ⟨.connect rfl 0 (ascii "APPL_DB") true, fun _ _ _ => rfl⟩
  have connected := connecting.snoc ⟨.dial rfl ⟨.ok (), .ok ()⟩, fun _ _ _ => rfl⟩
  have called := connected.snoc
    ⟨.call rfl (reading 1).method (ascii "APPL_DB") true, fun _ _ _ => rfl⟩
  have missed := called.snoc (l := .answer (.reply .nil)) ⟨.answer rfl _, fun _ _ _ => rfl⟩
  have subscribed := missed.snoc ⟨.subscribe rfl (.ok ()), fun _ _ _ => rfl⟩
  exact subscribed

/-- A notification with the name of the hash ends the wait, and the field is read. -/
theorem released_after_notification :
    ∃ es s call, Run (CleanStep .sorted) start es s ∧ call.blocking = true ∧
      s.phase = .ended call (.ok (.pointer (some (ascii "9100")))) ∧
      s.channels call.dbName = none := by
  have waiting := run_afterSubscribing.snoc (l := .answer (.reply .nil))
    ⟨.answer rfl _, fun _ _ _ => rfl⟩
  have notified := waiting.snoc (l := .listen (.reply (.array
    [.string [], .string [], .string [], .string (ascii "PORT")])))
    ⟨.listen rfl _, fun _ _ _ => rfl⟩
  have run := notified.snoc (l := .answer (.reply (.string (ascii "9100"))))
    ⟨.answer rfl _, fun _ _ _ => rfl⟩
  exact ⟨_, _, reading 1, run, rfl, rfl, (released_iff run).1 _ _ rfl⟩

/-- The key holds no hash any more when the read is repeated: the call throws and its subscription
    stays. The next blocking read waits on it. -/
theorem subscription_left_behind :
    (∃ es s call e, Run (Step .sorted) start es s ∧ call.serial = 1 ∧
      s.phase = .ended call (.error (.system e)) ∧ s.channels call.dbName = some 1) ∧
    ∃ es s call message data, Run (Step .sorted) start es s ∧ call.serial = 2 ∧
      s.phase = .listening call message data ∧ s.channels call.dbName = some 1 := by
  have subscribed : Run (Step .sorted) start _ afterSubscribing :=
    run_afterSubscribing.mono fun _ taken => taken.1
  have refused := subscribed.snoc (l := .answer (.reply RedisCommand.WRONGTYPE)) (.answer rfl _)
  have called := refused.snoc (.call rfl (reading 2).method (ascii "APPL_DB") true)
  have waiting := called.snoc (l := .answer (.reply .nil)) (.answer rfl _)
  constructor
  · exact ⟨_, _, reading 1, _, refused, rfl, rfl, rfl⟩
  · exact ⟨_, _, reading 2, _, _, waiting, rfl, rfl, rfl⟩

end Subscribed

end DBInterface

end SwssCommon
