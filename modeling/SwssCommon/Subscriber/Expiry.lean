import SwssCommon.Subscriber.Delivery

/-! # Entries that expire

The server removes an entry when its time to live is over and announces this as `expired`. The loop
of `pops` then reads the entry, finds nothing, and goes on. The consumer learns of the removal only
if a `del` was still on its way.
-/

namespace SwssCommon.SubscriberStateTable

open Bytes Redis List

variable (t : SubscriberStateTable)

/-! ## A server with a clock -/

structure Timed where
  sys : System
  volatile : List Bytes

inductive TimedEvent where
  | plain (event : Event)
  | expire (name : Bytes) (seconds : Int)
  | expired (name : Bytes)

def System.announce (sys : System) (database : Keyspace) (name event : Bytes) : System :=
  { sys with
    database := database
    unread := sys.unread ++ pmessages sys.patterns t.dbId name event }

inductive TimedStep (hiredis : Hiredis) : Timed → TimedEvent → Timed → Prop where
  | plain {s : Timed} {event : Event} {sys : System} (taken : t.Step hiredis s.sys event sys) :
      TimedStep hiredis s (.plain event) ⟨sys, s.volatile.filter (· ∈ sys.database)⟩
  | expire {s : Timed} {name : Bytes} {seconds : Int} (present : name ∈ s.sys.database)
      (later : 0 < seconds) :
      TimedStep hiredis s (.expire name seconds)
        ⟨s.sys.announce t s.sys.database name (ascii "expire"), name :: s.volatile⟩
  -- a time that is over deletes the entry at once
  | expireNow {s : Timed} {name : Bytes} {seconds : Int} (present : name ∈ s.sys.database)
      (past : seconds ≤ 0) :
      TimedStep hiredis s (.expire name seconds)
        ⟨s.sys.announce t (s.sys.database.write name none) name (ascii "del"),
          s.volatile.filter (· ≠ name)⟩
  | expireNothing {s : Timed} {name : Bytes} {seconds : Int} (missing : name ∉ s.sys.database) :
      TimedStep hiredis s (.expire name seconds) s
  | expired {s : Timed} {name : Bytes} (due : name ∈ s.volatile)
      (present : name ∈ s.sys.database) :
      TimedStep hiredis s (.expired name)
        ⟨s.sys.announce t (s.sys.database.write name none) name (ascii "expired"),
          s.volatile.filter (· ≠ name)⟩

/-- The commands of `Table::set` with a time to live. -/
def tableSet (t : TableBase) (key : Bytes) (values : List FieldValueTuple) (ttl : Int) :
    List TimedEvent :=
  let sent (event : TimedEvent) : StateM (List TimedEvent) Unit := modify (· ++ [event])
  (Table.setEntry (fun name values => sent (.plain (.wrote (.hset name values))))
    (fun name ttl => sent (.expire name ttl)) (pure ()) t key values ttl []).2

/-- The name `EXPIRE` and `Table::get` use for an entry. -/
def entryName (key : Bytes) : Bytes :=
  Table.entryName t.toTableBase key

/-! ## What the consumer is told -/

def plainEvents : List TimedEvent → List Event
  | [] => []
  | .plain event :: ls => event :: plainEvents ls
  | _ :: ls => plainEvents ls

theorem plainEvents_append (ls more : List TimedEvent) :
    plainEvents (ls ++ more) = plainEvents ls ++ plainEvents more := by
  induction ls with
  | nil => rfl
  | cons l ls ih => cases l <;> simp [plainEvents, ih]

theorem plainEvents_silent (ls : List TimedEvent) {l} (silent : plainEvents [l] = []) :
    plainEvents (ls ++ [l]) = plainEvents ls := by
  rw [plainEvents_append, silent, append_nil]

/-- The last the consumer was told about a key is that it is set. -/
def heldAsSet (key : Bytes) (kcos : List KeyOpFieldsValuesTuple) : Bool :=
  kcos.foldl (fun held kco => if kco.kfvKey = key then kco.kfvOp = SET_COMMAND else held) false

/-- A `del` of the key has still to be taken. -/
def DeletePending (key : Bytes) (sys : System) : Prop :=
  ∃ event ∈ sys.events, t.readEvent event = some (key, ascii "del")

/-- Should the consumer hold the key, a delete is on its way. -/
def Covered (key : Bytes) (ls : List TimedEvent) (sys : System) : Prop :=
  heldAsSet key (given (plainEvents ls) sys) = true → t.DeletePending key sys

def LastExpired (name : Bytes) (ls : List TimedEvent) : Prop :=
  ∃ before after, ls = before ++ .expired name :: after ∧
    ∀ fields, .plain (.wrote (.hset name fields)) ∉ after

def Reported (key : Bytes) (kcos : List KeyOpFieldsValuesTuple) : Prop :=
  ∀ front kco back, kcos = front ++ kco :: back → kco.kfvKey = key → kco.kfvOp = SET_COMMAND →
    ∃ later ∈ back, later.kfvKey = key ∧ later.kfvOp = DEL_COMMAND

structure System.Consumed (sys : System) : Prop where
  idle : sys.phase = .idle
  events : sys.events = []
  buffer : sys.buffer = []

variable {t} {hiredis : Hiredis} {key : Bytes} {ls : List TimedEvent} {l : TimedEvent}
  {s s' : Timed}

/-! ## Keys the consumer holds -/

theorem heldAsSet_snoc (kcos : List KeyOpFieldsValuesTuple) (kco : KeyOpFieldsValuesTuple) :
    heldAsSet key (kcos ++ [kco]) =
      if kco.kfvKey = key then decide (kco.kfvOp = SET_COMMAND) else heldAsSet key kcos := by
  rw [heldAsSet, foldl_append]
  rfl

def Known (kcos : List KeyOpFieldsValuesTuple) : Prop :=
  ∀ kco ∈ kcos, kco.kfvOp = SET_COMMAND ∨ kco.kfvOp = DEL_COMMAND

theorem reported_of_not_held {kcos} (known : Known kcos)
    (notHeld : heldAsSet key kcos = false) : Reported key kcos := by
  induction kcos using reverseRecOn with
  | nil =>
    intro front kco back split
    simp at split
  | append_singleton kcos last ih =>
    intro front kco back split isKey isSet
    rw [heldAsSet_snoc] at notHeld
    rcases eq_nil_or_concat' back with rfl | ⟨back, last', rfl⟩
    · obtain ⟨-, same⟩ := append_inj' split rfl
      cases singleton_inj.mp same
      rw [if_pos isKey, isSet] at notHeld
      simp at notHeld
    · rw [← cons_append, ← append_assoc] at split
      obtain ⟨rfl, same⟩ := append_inj' split rfl
      cases singleton_inj.mp same
      by_cases here : last.kfvKey = key
      · rw [if_pos here, decide_eq_false_iff_not] at notHeld
        have deleted := (known last (by simp)).resolve_left notHeld
        exact ⟨last, by simp, here, deleted⟩
      · rw [if_neg here] at notHeld
        obtain ⟨later, member, reported⟩ :=
          ih (fun kco member => known kco (mem_append_left _ member)) notHeld front kco back
            rfl isKey isSet
        exact ⟨later, mem_append_left _ member, reported⟩

/-! ## What is known of the entries given -/

/-- Nothing is given before the subscription, and the loop of `pops` starts with an empty
    buffer. -/
structure Orderly (ls : List Event) (sys : System) : Prop where
  fresh : sys.phase = .unsubscribed → given ls sys = []
  alone : ∀ byPop vkco, sys.phase = .popping byPop vkco → sys.buffer = []
  known : Known (given ls sys)

variable {ks : Keyspace} {event : Reply}

theorem popEvent_ok {kco} (became : t.popEvent ks event = .ok (some kco)) :
    (t.readEvent event = some (kco.kfvKey, ascii "del") ∧ kco.kfvOp = DEL_COMMAND) ∨
      (kco.kfvOp = SET_COMMAND ∧
        ∃ values, Table.get t.server t.toTableBase ks kco.kfvKey = .ok (some values)) := by
  unfold popEvent at became
  cases read : t.readEvent event with
  | none =>
    rw [read] at became
    cases became
  | some e =>
    rw [read] at became
    dsimp only at became
    split at became
    · rename_i isDel
      cases became
      exact .inl ⟨by rw [← isDel], rfl⟩
    · cases found : Table.get t.server t.toTableBase ks e.1 with
      | error e =>
        rw [found] at became
        cases became
      | ok values =>
        rw [found] at became
        cases values with
        | none => cases became
        | some values =>
          cases became
          exact .inr ⟨rfl, values, found⟩

variable {sys sys' : System}

theorem Gives.known {new} (gives : Gives t sys sys' new) :
    Known new := by
  intro kco member
  cases gives with
  | nothing | subscribed => cases member
  | @fetched key values found =>
    cases values with
    | none => cases member
    | some fvs =>
      cases mem_singleton.mp member
      exact .inl rfl
  | @took event entry next became =>
    cases entry with
    | none => cases member
    | some entry =>
      cases mem_singleton.mp member
      rcases popEvent_ok became with ⟨-, deleted⟩ | ⟨set, -⟩
      · exact .inr deleted
      · exact .inl set

theorem Orderly.step {ls event} (h : Orderly ls sys)
    (taken : t.Step hiredis sys event sys') : Orderly (ls ++ [event]) sys' := by
  obtain ⟨new, added, gives⟩ := taken.gives h.alone ls
  refine ⟨?_, ?_, ?_⟩
  · intro unsubscribed
    cases taken with
    | write => simpa [given, popped_append, popped, System.collected] using h.fresh unsubscribed
    | readData idle | popsBuffer idle | popBuffer idle => cases idle.symm.trans unsubscribed
    | psubscribe | getKeys | get | built | popsStart | popsEvent | popsReturn | popReturn =>
      cases unsubscribed
  · exact taken.alone h.alone
  · rw [added]
    intro kco member
    rcases mem_append.mp member with old | fresh
    · exact h.known kco old
    · exact gives.known kco fresh

/-! ## After an expiry -/

theorem popEvent_del (deleted : t.readEvent event = some (key, ascii "del")) :
    t.popEvent ks event = .ok (some ⟨key, DEL_COMMAND, []⟩) := by
  rw [popEvent, deleted]
  rfl

theorem get_missing (missing : ks.hashAt (t.entryName key) = some ∅) :
    Table.get t.server t.toTableBase ks key = .ok none := by
  rw [Table.get, show ks.hashAt (cStr (t.getKeyName key)) = some ∅ from missing]
  exact if_pos (t.server.fields_eq_nil_iff.mpr rfl)

theorem DeletePending.mono (pending : t.DeletePending key sys)
    (kept : ∀ event ∈ sys.events, event ∈ sys'.events) : t.DeletePending key sys' := by
  obtain ⟨event, member, deleted⟩ := pending
  exact ⟨event, kept event member, deleted⟩

theorem DeletePending.rest (pending : t.DeletePending key sys)
    (next : sys.events = event :: sys'.events)
    (other : t.readEvent event ≠ some (key, ascii "del")) : t.DeletePending key sys' := by
  obtain ⟨found, member, deleted⟩ := pending
  rw [next] at member
  cases member with
  | head => exact absurd deleted other
  | tail _ member => exact ⟨found, member, deleted⟩

theorem Gives.covered {kcos new} (gives : Gives t sys sys' new)
    (fresh : sys.phase = .unsubscribed → kcos = [])
    (missing : sys.database.hashAt (t.entryName key) = some ∅)
    (covered : heldAsSet key kcos → t.DeletePending key sys)
    (held : heldAsSet key (kcos ++ new)) : t.DeletePending key sys' := by
  cases gives with
  | nothing kept =>
    rw [append_nil] at held
    exact (covered held).mono kept
  | subscribed unsubscribed =>
    rw [fresh unsubscribed] at held
    cases held
  | @fetched fetchedKey values found kept =>
    have still : heldAsSet key kcos := by
      cases values with
      | none => simpa using held
      | some fvs =>
        rw [Option.map_some, Option.toList_some, heldAsSet_snoc] at held
        split at held
        · rename_i same
          dsimp only at same
          rw [same, get_missing missing] at found
          cases found
        · exact held
    exact (covered still).mono fun event member => kept ▸ member
  | @took event kco next became =>
    cases kco with
    | none =>
      refine (covered (by simpa using held)).rest next fun deleted => ?_
      rw [popEvent_del deleted] at became
      cases became
    | some kco =>
      rw [Option.toList_some, heldAsSet_snoc] at held
      split at held
      · rename_i same
        rcases popEvent_ok became with ⟨-, deleted⟩ | ⟨-, values, found⟩
        · rw [deleted] at held
          exact absurd held (by decide)
        · rw [same, get_missing missing] at found
          cases found
      · rename_i other
        refine (covered held).rest next fun deleted => ?_
        rw [popEvent_del deleted] at became
        cases became
        exact other rfl

/-- The entry is missing, and a consumer that holds it has its delete still to come. -/
structure Gone (t : SubscriberStateTable) (key : Bytes) (ls : List TimedEvent) (s : Timed) :
    Prop where
  missing : s.sys.database.hashAt (t.entryName key) = some ∅
  covered : t.Covered key ls s.sys

theorem hashAt_write_none {name other} (missing : ks.hashAt name = some ∅) :
    (ks.write other none).hashAt name = some ∅ := by
  rw [Keyspace.hashAt_write]
  split
  · rfl
  · exact missing

theorem Orderly.announce {ls} (h : Orderly ls sys) (database : Keyspace)
    (name event : Bytes) : Orderly ls (sys.announce t database name event) :=
  ⟨h.fresh, h.alone, h.known⟩

theorem Gone.announce (h : Gone t key ls s) {database name event}
    {volatile} (missing : database.hashAt (t.entryName key) = some ∅) :
    Gone t key ls ⟨s.sys.announce t database name event, volatile⟩ := by
  refine ⟨missing, fun held => (h.covered held).mono fun event member => ?_⟩
  rw [System.events, System.announce, ← append_assoc]
  exact mem_append_left _ member

theorem Orderly.timed (h : Orderly (plainEvents ls) s.sys) (taken : t.TimedStep hiredis s l s') :
    Orderly (plainEvents (ls ++ [l])) s'.sys := by
  cases taken with
  | plain taken =>
    rw [plainEvents_append]
    exact h.step taken
  | expire | expireNow | expired =>
    rw [plainEvents_silent ls rfl]
    exact h.announce _ _ _
  | expireNothing =>
    rw [plainEvents_silent ls rfl]
    exact h

theorem Gone.later (h : Gone t key ls s) (silent : plainEvents [l] = []) :
    Gone t key (ls ++ [l]) s := by
  refine ⟨h.missing, ?_⟩
  rw [Covered, plainEvents_silent ls silent]
  exact h.covered

theorem Gone.step (orderly : Orderly (plainEvents ls) s.sys) (h : Gone t key ls s)
    (taken : t.TimedStep hiredis s l s')
    (unset : ∀ fields, l ≠ .plain (.wrote (.hset (t.entryName key) fields))) :
    Gone t key (ls ++ [l]) s' := by
  cases taken with
  | @plain event sys taken =>
    refine ⟨?_, ?_⟩
    · cases taken with
      | write executed =>
        exact executed.missing h.missing fun fields same => unset fields (by rw [same])
      | psubscribe | getKeys | get | built | readData | popsBuffer | popBuffer | popsStart
      | popsEvent | popsReturn | popReturn => exact h.missing
    · obtain ⟨new, added, gives⟩ := taken.gives orderly.alone _
      rw [Covered, plainEvents_append, show plainEvents [.plain event] = [event] from rfl, added]
      exact gives.covered orderly.fresh h.missing h.covered
  | expire => exact (h.announce h.missing).later rfl
  | expireNow | expired => exact (h.announce (hashAt_write_none h.missing)).later rfl
  | expireNothing => exact h.later rfl

theorem gone_of_expired (covered : t.Covered key ls s.sys)
    (taken : t.TimedStep hiredis s (.expired (t.entryName key)) s') :
    Gone t key (ls ++ [.expired (t.entryName key)]) s' := by
  cases taken with
  | expired due present =>
    have removed := s.sys.database.hashAt_write_none (t.entryName key)
    refine Gone.later ⟨removed, fun held => (covered held).mono fun event member => ?_⟩ rfl
    rw [System.events, System.announce, ← append_assoc]
    exact mem_append_left _ member

theorem orderly_start (database : Keyspace) : Orderly [] (start database) := by
  refine ⟨fun _ => rfl, fun _ _ popping => ?_, fun kco member => ?_⟩
  · cases popping
  · cases member

theorem orderly_run {database volatile}
    (run : Run (t.TimedStep hiredis) ⟨start database, volatile⟩ ls s) :
    Orderly (plainEvents ls) s.sys := by
  refine Run.invariant (I := fun ls s => Orderly (plainEvents ls) s.sys) ?_ ?_ run
  · exact orderly_start database
  · exact fun h taken => h.timed taken

theorem Gone.run {more} (orderly : Orderly (plainEvents ls) s.sys)
    (h : Gone t key ls s) (run : Run (t.TimedStep hiredis) s more s')
    (unset : ∀ fields, .plain (.wrote (.hset (t.entryName key) fields)) ∉ more) :
    Orderly (plainEvents (ls ++ more)) s'.sys ∧ Gone t key (ls ++ more) s' := by
  induction run with
  | refl => exact ⟨by simpa using orderly, by simpa using h⟩
  | @snoc _ _ more l _ taken ih =>
    have earlier : ∀ fields, .plain (.wrote (.hset (t.entryName key) fields)) ∉ more :=
      fun fields member => unset fields (mem_append_left _ member)
    obtain ⟨orderly, gone⟩ := ih earlier
    rw [← append_assoc]
    refine ⟨orderly.timed taken, gone.step orderly taken fun fields same => ?_⟩
    exact unset fields (by simp [same])

/-! ## Runs in which no expiry is missed -/

structure Observed where
  past : List TimedEvent
  timed : Timed

/-- A step that lets an entry expire only if the consumer does not hold it or has its delete
    still to come. -/
structure CoveredStep (t : SubscriberStateTable) (hiredis : Hiredis) (o : Observed)
    (l : TimedEvent) (o' : Observed) : Prop where
  taken : t.TimedStep hiredis o.timed l o'.timed
  recorded : o'.past = o.past ++ [l]
  covered : ∀ key, l = .expired (t.entryName key) → t.Covered key o.past o.timed.sys

theorem past_run {o o'} (run : Run (t.CoveredStep hiredis) o ls o') :
    o'.past = o.past ++ ls := by
  induction run with
  | refl => simp
  | snoc _ step ih => rw [step.recorded, ih, append_assoc]

theorem timed_run {o o'} (run : Run (t.CoveredStep hiredis) o ls o') :
    Run (t.TimedStep hiredis) o.timed ls o'.timed := by
  induction run with
  | refl => exact .refl _
  | snoc _ step ih => exact ih.snoc step.taken

theorem covered_run (run : Run (t.TimedStep hiredis) s ls s')
    (unexpired : ∀ name, .expired name ∉ ls) (past : List TimedEvent) :
    Run (t.CoveredStep hiredis) ⟨past, s⟩ ls ⟨past ++ ls, s'⟩ := by
  induction run with
  | refl =>
    rw [append_nil]
    exact .refl _
  | snoc _ taken ih =>
    refine .snoc (ih fun name member => unexpired name (mem_append_left _ member)) ?_
    refine ⟨taken, by rw [append_assoc], fun key same => ?_⟩
    exact absurd (by simp [same]) (unexpired (t.entryName key))

/-- If all was read and popped, a key that was set and whose entry expired last is deleted after it
    was set. -/
theorem expiry_reported {database : Keyspace} {volatile : List Bytes} {final : Observed}
    (run : Run (t.CoveredStep hiredis) ⟨[], start database, volatile⟩ ls final)
    (consumed : final.timed.sys.Consumed) (expired : LastExpired (t.entryName key) ls) :
    Reported key (popped (plainEvents ls)) := by
  obtain ⟨before, after, rfl, unset⟩ := expired
  obtain ⟨o, first, rest⟩ := run.split
  obtain ⟨o₁, step, rest⟩ := rest.of_cons
  have pending : t.Covered key before o.timed.sys := by
    have covered := step.covered key rfl
    rwa [past_run first, nil_append] at covered
  have orderly := (orderly_run (timed_run first)).timed step.taken
  obtain ⟨orderly, gone⟩ := (gone_of_expired pending step.taken).run orderly (timed_run rest) unset
  rw [append_assoc, singleton_append] at orderly gone
  generalize before ++ .expired (t.entryName key) :: after = ls at orderly gone ⊢
  have all : given (plainEvents ls) final.timed.sys = popped (plainEvents ls) := by
    simp [given, System.collected, consumed.idle, consumed.buffer]
  rw [← all]
  refine reported_of_not_held orderly.known (Bool.eq_false_iff.mpr fun held => ?_)
  obtain ⟨event, member, -⟩ := gone.covered held
  rw [consumed.events] at member
  cases member

private def sessions : SubscriberStateTable := ⟨⟨ascii "SESSION", .vbar⟩, 4, .sorted⟩

private def nameA : Bytes := sessions.entryName (ascii "a")

private def setA (ttl : Int) : List TimedEvent :=
  tableSet sessions.toTableBase (ascii "a") [(ascii "f", ascii "v")] ttl

private def entryA : KeyOpFieldsValuesTuple := ⟨ascii "a", SET_COMMAND, [(ascii "f", ascii "v")]⟩

private def withA : Keyspace :=
  (∅ : Keyspace).write nameA (Value.ofHash (∅ * Hash.ofFields [(ascii "f", ascii "v")]))

private def messageA (event : String) : Reply := sessions.entryMessage (ascii "a") (ascii event)

private def popsA (ttl : Int) (entries : List KeyOpFieldsValuesTuple) : List TimedEvent :=
  [.plain .constructed, .plain .constructed, .plain .constructed] ++ setA ttl ++
    [.plain .read, .plain .took] ++ entries.map (fun _ => .plain .took) ++
    [.plain (.popped entries)]

private theorem executes_setA :
    Executes ∅ (.hset nameA [(ascii "f", ascii "v")]) withA
      [ascii "hset"] :=
  .hset rfl (cons_ne_nil _ _)

private theorem executes_delA : Executes withA (.del nameA) ∅ [ascii "del"] :=
  .del

private theorem withA_has : nameA ∈ withA := by
  decide

private theorem subscribes_sessions :
    Run (sessions.TimedStep .blanks) ⟨start ∅, []⟩
      [.plain .constructed, .plain .constructed, .plain .constructed]
      ⟨⟨∅, [sessions.keyspace], [], [], [], .idle⟩, []⟩ := by
  have words : Hiredis.blanks.words sessions.psubscribeText =
      [ascii "PSUBSCRIBE", sessions.keyspace] := by decide
  exact (((Run.refl _).snoc (.plain (.psubscribe rfl words))).snoc
    (.plain (.getKeys rfl (show _ = some [] from rfl)))).snoc (.plain (.built rfl))

/-- The entry is set, popped and deleted, and set for five seconds while the delete is not
    read. -/
private def deletedA : List TimedEvent :=
  popsA (-1) [entryA] ++ .plain (.wrote (.del nameA)) :: setA 5

private def awaitingDelete : System :=
  ⟨withA, [sessions.keyspace], [messageA "del", messageA "hset", messageA "expire"], [], [], .idle⟩

private theorem awaitingDelete_reached :
    Run (sessions.TimedStep .blanks) ⟨start ∅, []⟩ deletedA ⟨awaitingDelete, [nameA]⟩ := by
  have popping : Run (sessions.TimedStep .blanks) _ _
      ⟨⟨withA, [sessions.keyspace], [], [messageA "hset"], [], .popping false []⟩, []⟩ :=
    ((subscribes_sessions.snoc (.plain (.write executes_setA))).snoc
      (.plain (.readData rfl (append_nil _).symm))).snoc (.plain (.popsStart rfl rfl))
  have held : Run (sessions.TimedStep .blanks) _ _
      ⟨⟨withA, [sessions.keyspace], [], [], [], .idle⟩, []⟩ :=
    (popping.snoc (.plain (.popsEvent rfl rfl rfl))).snoc (.plain (.popsReturn rfl rfl))
  exact ((held.snoc (.plain (.write executes_delA))).snoc (.plain (.write executes_setA))).snoc
    (.expire withA_has (by decide))

private theorem awaitingDelete_covered (key : Bytes) :
    sessions.Covered key deletedA awaitingDelete := by
  intro held
  have same : ascii "a" = key := by
    by_contra other
    rw [show given (plainEvents deletedA) awaitingDelete = [] ++ [entryA] from rfl, heldAsSet_snoc,
      if_neg (show entryA.kfvKey ≠ key from other)] at held
    cases held
  exact same ▸ ⟨messageA "del", .head _, rfl⟩

private def takesDelete : List TimedEvent :=
  [.plain .read, .plain .took, .plain .took, .plain .took, .plain .took, .plain .took,
    .plain (.popped [⟨ascii "a", DEL_COMMAND, []⟩])]

private def readA (unread keyspaceEventBuffer : List Reply) (phase : Phase) : Timed :=
  ⟨⟨∅, [sessions.keyspace], unread, keyspaceEventBuffer, [], phase⟩, []⟩

private def messagesA : List Reply :=
  [messageA "del", messageA "hset", messageA "expire", messageA "expired"]

private theorem takesDelete_run :
    Run (sessions.TimedStep .blanks) (readA messagesA [] .idle) takesDelete
      (readA [] [] .idle) := by
  have read : Run (sessions.TimedStep .blanks) _ _ (readA [] messagesA (.popping false [])) :=
    ((Run.refl (readA messagesA [] .idle)).snoc
      (.plain (.readData rfl (append_nil messagesA).symm))).snoc (.plain (.popsStart rfl rfl))
  exact ((((read.snoc (.plain (.popsEvent rfl rfl rfl))).snoc
    (.plain (.popsEvent rfl rfl rfl))).snoc (.plain (.popsEvent rfl rfl rfl))).snoc
    (.plain (.popsEvent rfl rfl rfl))).snoc (.plain (.popsReturn rfl rfl))

theorem expiry_reported_deleted :
    ∃ final, Run (sessions.CoveredStep .blanks) ⟨[], start ∅, []⟩
      (deletedA ++ .expired nameA :: takesDelete) final ∧
      final.timed.sys.Consumed ∧ LastExpired nameA (deletedA ++ .expired nameA :: takesDelete) ∧
      Reported (ascii "a") (popped (plainEvents (deletedA ++ .expired nameA :: takesDelete))) := by
  have forever : setA (-1) = [.plain (.wrote (.hset nameA _))] := rfl
  have volatile : setA 5 = [.plain (.wrote (.hset nameA _)), .expire nameA 5] := rfl
  have before := covered_run awaitingDelete_reached
    (by simp [deletedA, popsA, forever, volatile]) []
  have expired : sessions.CoveredStep .blanks ⟨deletedA, awaitingDelete, [nameA]⟩ (.expired nameA)
      ⟨deletedA ++ [.expired nameA], readA messagesA [] .idle⟩ := by
    refine ⟨?_, rfl, fun key _ => awaitingDelete_covered key⟩
    exact .expired (mem_singleton_self nameA) withA_has
  have after := covered_run takesDelete_run (by simp [takesDelete]) (deletedA ++ [.expired nameA])
  have steps := before.append (.cons expired after)
  have consumed : (readA [] [] .idle).sys.Consumed := ⟨rfl, rfl, rfl⟩
  have last : LastExpired nameA (deletedA ++ .expired nameA :: takesDelete) :=
    ⟨deletedA, takesDelete, rfl, by simp [takesDelete]⟩
  exact ⟨_, steps, consumed, last, expiry_reported steps consumed last⟩

private def unseenExpiry : List TimedEvent :=
  popsA 5 [entryA, entryA] ++ .expired nameA ::
    [.plain .read, .plain .took, .plain .took, .plain (.popped [])]

/-- The entry is set for five seconds, popped, and expires. -/
theorem expiry_unreported :
    ∃ final, Run (sessions.TimedStep .blanks) ⟨start ∅, []⟩ unseenExpiry final ∧
      final.sys.Consumed ∧ LastExpired nameA unseenExpiry ∧
      ¬Reported (ascii "a") (popped (plainEvents unseenExpiry)) := by
  have popping : Run (sessions.TimedStep .blanks) _ _ ⟨⟨withA, [sessions.keyspace], [],
      [messageA "hset", messageA "expire"], [], .popping false []⟩, [nameA]⟩ :=
    (((subscribes_sessions.snoc (.plain (.write executes_setA))).snoc
      (.expire withA_has (show (0 : Int) < 5 by decide))).snoc
      (.plain (.readData rfl (append_nil _).symm))).snoc (.plain (.popsStart rfl rfl))
  have held : Run (sessions.TimedStep .blanks) _ _
      ⟨⟨withA, [sessions.keyspace], [], [], [], .idle⟩, [nameA]⟩ :=
    ((popping.snoc (.plain (.popsEvent rfl rfl rfl))).snoc (.plain (.popsEvent rfl rfl rfl))).snoc
      (.plain (.popsReturn rfl rfl))
  have expired := (held.snoc (.expired (mem_singleton_self nameA) withA_has)).snoc
    (.plain (.readData rfl (append_nil _).symm))
  have steps := ((expired.snoc (.plain (.popsStart rfl rfl))).snoc
      (.plain (.popsEvent rfl rfl rfl))).snoc (.plain (.popsReturn rfl rfl))
  refine ⟨_, steps, ⟨rfl, rfl, rfl⟩, ⟨_, _, rfl, by simp⟩, fun reported => ?_⟩
  obtain ⟨later, member, -, deleted⟩ := reported [] entryA [entryA] rfl rfl rfl
  rw [mem_singleton.mp member] at deleted
  exact absurd deleted (by decide)

end SwssCommon.SubscriberStateTable
