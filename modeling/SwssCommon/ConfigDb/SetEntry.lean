import SwssCommon.ConfigDb.Connector
import SwssCommon.Lib.Replacing

/-! # Two calls of set_entry at the same time

`set_entry` reads an entry, writes the new fields over it and deletes those it has read that are not
new. Another client may come in between: with `ConfigDBConnector` at any command, with
`ConfigDBPipeConnector` between the read and the transaction.
-/

namespace SwssCommon

open Bytes Redis Throwing List OrderedMap DBConnector Connection Replacing

inductive ConnectorClass where
  | plain
  | pipe
  deriving DecidableEq

namespace SetEntry

open ConfigDBConnector RedisTransactioner

inductive Phase where
  | reading
  | writing (original : Hash)
  | deleting (fields : List Bytes)
  | returned
  | thrown (e : Failure)

def Phase.after {α : Type} (next : α → Phase) :
    EStateM.Result Failure Keyspace α → Phase × Keyspace
  | .ok a ks => (next a, ks)
  | .error e ks => (.thrown e, ks)

section Code

variable (server : RedisServer) (separator table key : Bytes)

def onDatabase (call : ConfigDBPipeConnector.M Unit) : M Unit := fun ks =>
  match call (ConfigDBPipeConnector.fresh ks) with
  | .ok () s => .ok () s.server.db
  | .error e s => .error e s.server.db

def transaction (data original : Hash) : ConfigDBPipeConnector.M Unit := do
  multi (peer server)
  ConfigDBPipeConnector.append server
    (.HSET (cStr (hashName separator table key)) data.toList) REDIS_REPLY_INTEGER
  (extraFields original data).forM fun field => ConfigDBPipeConnector.append server
    (.HDEL (cStr (hashName separator table key)) (cStr field)) REDIS_REPLY_INTEGER
  let _ ← exec (peer server)

def next (connector : ConnectorClass) (data : Hash) (ks : Keyspace) : Phase → Phase × Keyspace
  | .reading => Phase.after .writing (getEntry server separator table key ks)
  | .writing original =>
    match connector with
    | .plain =>
      Phase.after (fun _ => .deleting (extraFields original data))
        (hmset server (hashName separator table key) data.toList ks)
    | .pipe =>
      Phase.after (fun _ => .returned)
        (onDatabase (transaction server separator table key data original) ks)
  | .deleting [] => (.returned, ks)
  | .deleting (field :: fields) =>
    Phase.after (fun _ => .deleting fields) (hdel server (hashName separator table key) field ks)
  | .returned => (.returned, ks)
  | .thrown e => (.thrown e, ks)

def call (data : Hash) : ConnectorClass → M Unit
  | .plain => setEntry server separator table key data
  | .pipe =>
    onDatabase (ConfigDBPipeConnector.setEntry server separator table key data)

def Alone (connector : ConnectorClass) (data : Hash) (s s' : Phase × Keyspace) : Prop :=
  ∃ n, (fun s => next server separator table key connector data s.2 s.1)^[n] s = s'

end Code

section Alone

variable {server : RedisServer} {separator table key : Bytes} {connector : ConnectorClass}
  {data : Hash} {ks : Keyspace} {s s' s'' : Phase × Keyspace}

theorem Alone.refl (s : Phase × Keyspace) : Alone server separator table key connector data s s :=
  ⟨0, rfl⟩

theorem Alone.head (first : next server separator table key connector data s.2 s.1 = s')
    (rest : Alone server separator table key connector data s' s'') :
    Alone server separator table key connector data s s'' := by
  obtain ⟨n, rfl⟩ := rest
  obtain rfl := first
  exact ⟨n + 1, rfl⟩

theorem deletes_alone (fields : List Bytes) (ks : Keyspace) :
    Alone server separator table key connector data (.deleting fields, ks)
      (Phase.after (fun _ => .returned)
        (fields.forM (hdel server (hashName separator table key)) ks)) := by
  induction fields generalizing ks with
  | nil => exact .head rfl (.refl _)
  | cons field fields ih =>
    cases deleted : hdel server (hashName separator table key) field ks with
    | ok a ks' =>
      have rest : (field :: fields).forM (hdel server (hashName separator table key)) ks =
          fields.forM (hdel server (hashName separator table key)) ks' :=
        bind_ok deleted
      rw [rest]
      apply Alone.head _ (ih ks')
      simp only [next, deleted, Phase.after]
    | error e ks' =>
      have rest : (field :: fields).forM (hdel server
          (hashName separator table key)) ks = .error e ks' := bind_error deleted
      rw [rest]
      apply Alone.head _ (.refl _)
      simp only [next, deleted, Phase.after]

variable (server separator table key) in
theorem getEntry_state (ks : Keyspace) :
    (∃ original, getEntry server separator table key ks = .ok original ks) ∨
      ∃ e, getEntry server separator table key ks = .error e ks := by
  cases stored : ks.hashAt (cStr (hashName separator table key)) with
  | some h => exact .inl ⟨_, hgetallMap_eq stored⟩
  | none => exact .inr ⟨_, hgetallMap_wrongType stored⟩

theorem plain_alone (nonempty : data ≠ ∅) (ks : Keyspace) :
    Alone server separator table key .plain data (.reading, ks)
      (Phase.after (fun _ => .returned) (setEntry server separator table key data ks)) := by
  unfold setEntry
  rw [if_neg (by simpa using nonempty)]
  cases getEntry_state server separator table key ks with
  | inr failed =>
    obtain ⟨e, failed⟩ := failed
    rw [bind_error failed]
    apply Alone.head _ (.refl _)
    simp only [next, failed, Phase.after]
  | inl read =>
    obtain ⟨original, read⟩ := read
    rw [bind_ok read]
    have first : next server separator table key .plain data ks .reading =
        (.writing original, ks) := by
      simp only [next, read, Phase.after]
    apply Alone.head first
    cases written : hmset server (hashName separator table key) data.toList ks with
    | ok a ks' =>
      rw [bind_ok written]
      apply Alone.head _ (deletes_alone _ ks')
      simp only [next, written, Phase.after]
    | error e ks' =>
      rw [bind_error written]
      apply Alone.head _ (.refl _)
      simp only [next, written, Phase.after]

/-- The object after `multi`, whose reply has been freed. -/
def opened (ks : Keyspace) : RedisTransactioner Connection :=
  ⟨⟨ks, some []⟩, [], [], ⟨[.status (ascii "OK")], [0]⟩, []⟩

theorem multi_fresh (ks : Keyspace) :
    multi (peer server) (ConfigDBPipeConnector.fresh ks) = .ok () (opened ks) := rfl

theorem setEntryPipe_eq (nonempty : data ≠ ∅) {original}
    (read : getEntry server separator table key ks = .ok original ks) :
    ConfigDBPipeConnector.setEntry server separator table key data
        (ConfigDBPipeConnector.fresh ks) =
      transaction server separator table key data original (ConfigDBPipeConnector.fresh ks) := by
  have read' : ConfigDBPipeConnector.onClient (getEntry server separator table key)
      (opened ks) = .ok original (opened ks) := by
    unfold ConfigDBPipeConnector.onClient opened
    rw [read]
  unfold ConfigDBPipeConnector.setEntry transaction ConfigDBPipeConnector.appendEntry
  rw [if_neg (by simpa using nonempty), bind_ok (multi_fresh ks), bind_ok (multi_fresh ks),
    bind_assoc, bind_ok read']
  simp only [bind_assoc]

theorem setEntryPipe_error (nonempty : data ≠ ∅) {e}
    (failed : getEntry server separator table key ks = .error e ks) :
    ConfigDBPipeConnector.setEntry server separator table key data
      (ConfigDBPipeConnector.fresh ks) = .error e (opened ks) := by
  have failed' : ConfigDBPipeConnector.onClient (getEntry server separator table key)
      (opened ks) = .error e (opened ks) := by
    unfold ConfigDBPipeConnector.onClient opened
    rw [failed]
  unfold ConfigDBPipeConnector.setEntry ConfigDBPipeConnector.appendEntry
  rw [if_neg (by simpa using nonempty), bind_ok (multi_fresh ks), bind_error (bind_error failed')]

theorem pipe_alone (nonempty : data ≠ ∅) (ks : Keyspace) :
    Alone server separator table key .pipe data (.reading, ks)
      (Phase.after (fun _ => .returned)
        (onDatabase (ConfigDBPipeConnector.setEntry server separator table key data) ks)) := by
  cases getEntry_state server separator table key ks with
  | inr failed =>
    obtain ⟨e, failed⟩ := failed
    apply Alone.head _ (.refl _)
    simp only [next, failed, Phase.after, onDatabase, setEntryPipe_error nonempty failed, opened]
  | inl read =>
    obtain ⟨original, read⟩ := read
    have first : next server separator table key .pipe data ks .reading =
        (.writing original, ks) := by
      simp only [next, read, Phase.after]
    apply Alone.head first
    apply Alone.head _ (.refl _)
    simp only [next, onDatabase, setEntryPipe_eq nonempty read]

theorem call_alone (nonempty : data ≠ ∅) (connector : ConnectorClass) (ks : Keyspace) :
    Alone server separator table key connector data (.reading, ks)
      (Phase.after (fun _ => .returned) (call server separator table key data connector ks)) := by
  cases connector with
  | plain => exact plain_alone nonempty ks
  | pipe => exact pipe_alone nonempty ks

end Alone

/-! ## What the parts do to the entry -/

section Entry

/-- A database that differs from another in one entry at most. -/
structure Entry (ks₀ : Keyspace) (name : Bytes) (ks : Keyspace) (h : Hash) : Prop where
  entry : ks.hashAt name = some h
  elsewhere : ∀ other, other ≠ name → ks[other]? = ks₀[other]?

variable {ks₀ ks : Keyspace} {name : Bytes} {h : Hash}

theorem Entry.write (now : Entry ks₀ name ks h) (h' : Hash) :
    Entry ks₀ name (ks.write name (Value.ofHash h')) h' := by
  constructor
  · exact ks.hashAt_write_ofHash name h'
  · intro other different
    rw [Keyspace.getElem?_write_of_ne (Ne.symm different), now.elsewhere other different]

variable (server : RedisServer)

def readFields (h : Hash) : Hash :=
  insertNew ∅ ((server.fields h).map fun fv => (cStr fv.1, cStr fv.2))

theorem mem_readFields {f} : f ∈ readFields server h ↔ ∃ g ∈ h, cStr g = f := by
  rw [mem_iff_getElem?_ne_none, readFields, getElem?_insertNew,
    Std.ExtTreeMap.getElem?_empty, Option.none_or, ne_eq, lookup_eq_none_iff]
  constructor
  · intro listed
    simp only [forall_mem_map, bne_iff_ne, not_forall, Classical.not_not] at listed
    obtain ⟨⟨g, v⟩, member, rfl⟩ := listed
    refine ⟨g, ?_, rfl⟩
    rw [mem_iff_getElem?_ne_none, server.mem_fields.mp member]
    exact Option.some_ne_none v
  · rintro ⟨g, known, rfl⟩ absent
    obtain ⟨v, found⟩ := Option.ne_none_iff_exists'.mp (mem_iff_getElem?_ne_none.mp known)
    have differs := absent (cStr g, cStr v) (mem_map_of_mem (server.mem_fields.mpr found))
    simp at differs

def listing : Listing Bytes Bytes compare where
  short := cStr
  short_short := cStr_cStr
  gone h data := extraFields (readFields server h) data
  nodup_gone h data := (Std.ExtTreeMap.nodup_keys).filter _
  mem_gone := by
    intro h data f
    rw [extraFields, mem_filter, Std.ExtTreeMap.mem_keys, mem_readFields]
    simp

def writer (data : Hash) : ConnectorClass → Writer Bytes Bytes compare
  | .plain => ⟨false, data⟩
  | .pipe => ⟨true, data⟩

inductive Corresponds (data : Hash) : Phase → Replacing.Phase Bytes → Prop
  | reading : Corresponds data .reading .reading
  | writing (original : Hash) :
      Corresponds data (.writing original) (.writing (extraFields original data))
  | deleting (fields : List Bytes) : Corresponds data (.deleting fields) (.deleting fields)
  | returned : Corresponds data .returned .returned

theorem executeAll_hdel (now : Entry ks₀ name ks h) (fields : List Bytes) :
    ∃ rs ks', executeAll server ks (fields.map fun field => .HDEL name (cStr field)) = (rs, ks') ∧
      rs.map RedisReply.type = fields.map (fun _ => REDIS_REPLY_INTEGER) ∧
      Entry ks₀ name ks' (eraseAll (listing server) h fields) := by
  induction fields generalizing ks h with
  | nil => exact ⟨[], ks, rfl, rfl, now⟩
  | cons field fields ih =>
    obtain ⟨rs, ks', executed, types, after⟩ := ih (now.write (h.erase (cStr field)))
    refine ⟨.integer (if cStr field ∈ h then 1 else 0) :: rs, ks', ?_, ?_, after⟩
    · simp only [map_cons, executeAll, RedisCommand.execute, onHash_some now.entry, executed]
    · rw [map_cons, types]
      rfl

variable {server} {separator table key : Bytes} {data : Hash}

theorem transaction_ends (server : RedisServer) (data original : Hash)
    (now : Entry ks₀ (cStr (hashName separator table key)) ks h) :
    Ends (transaction server separator table key data original) (ConfigDBPipeConnector.fresh ks)
      (fun _ s => Entry ks₀ (cStr (hashName separator table key)) s.server.db
        (eraseAll (listing server) (h * data) (extraFields original data)))
      (fun _ _ => False) := by
  have written := now.write (h * data)
  obtain ⟨rs, ks', executed, types, after⟩ :=
    executeAll_hdel server written (extraFields original data)
  apply (multi_opens rfl).andThen
  intro _ s₁ opened
  apply (enqueue_queues opened _ _).andThen
  intro _ s₂ opened
  apply (enqueueAll_queues opened _ _ _).andThen
  intro _ s₃ opened
  apply Ends.bind
  rw [nil_append, singleton_append] at opened
  have all : executeAll server ks
      (map Prod.fst ((.HSET (cStr (hashName separator table key)) data.toList,
        REDIS_REPLY_INTEGER) :: (extraFields original data).map fun field =>
          (.HDEL (cStr (hashName separator table key)) (cStr field), REDIS_REPLY_INTEGER))) =
      (.integer ((h * data).size - h.size : Nat) :: rs, ks') := by
    simp only [map_cons, map_map, Function.comp_def, executeAll,
      RedisCommand.execute, onHash_some now.entry, Hash.ofFields_toList, executed]
  apply (exec_executes opened all).mono
  · rintro _ s₄ ⟨_, final, _⟩
    apply Ends.pure
    rw [final]
    exact after
  · rintro _ s₄ ⟨wrong, _⟩
    apply wrong
    simp only [map_cons, map_map, Function.comp_def, types, RedisReply.type]

theorem onDatabase_eq {call : ConfigDBPipeConnector.M Unit} {I : Keyspace → Prop}
    (ends : Ends call (ConfigDBPipeConnector.fresh ks) (fun _ s => I s.server.db)
      (fun _ _ => False)) : ∃ ks', onDatabase call ks = .ok () ks' ∧ I ks' := by
  obtain ⟨_, s, ran⟩ := ends.returns
  refine ⟨s.server.db, ?_, ends.of_returned ran⟩
  unfold onDatabase
  rw [ran]

theorem next_move (nonempty : data ≠ ∅) (connector : ConnectorClass) {p}
    {q} (corresponds : Corresponds data p q)
    (now : Entry ks₀ (cStr (hashName separator table key)) ks h) :
    Corresponds data (next server separator table key connector data ks p).1
        (move (listing server) (writer data connector) h q).1 ∧
      Entry ks₀ (cStr (hashName separator table key))
        (next server separator table key connector data ks p).2
        (move (listing server) (writer data connector) h q).2 := by
  have some : data.toList ≠ [] := by
    intro none
    apply nonempty
    rw [← Hash.ofFields_toList data, none]
    rfl
  cases corresponds with
  | reading =>
    have read : getEntry server separator table key ks = .ok (readFields server h) ks :=
      hgetallMap_eq now.entry
    simp only [next, read]
    cases connector with
    | plain | pipe => exact ⟨.writing _, now⟩
  | writing original =>
    cases connector with
    | plain =>
      simp only [next, hmset_eq some now.entry, Hash.ofFields_toList]
      exact ⟨.deleting _, now.write _⟩
    | pipe =>
      obtain ⟨ks', ran, after⟩ := onDatabase_eq
        (I := fun ks => Entry ks₀ (cStr (hashName separator table key)) ks _)
        (transaction_ends server data original now)
      simp only [next, ran]
      exact ⟨.returned, after⟩
  | deleting fields =>
    cases fields with
    | nil => exact ⟨.returned, now⟩
    | cons field fields =>
      simp only [next, hdel_eq now.entry]
      exact ⟨.deleting _, now.write _⟩
  | returned => exact ⟨.returned, now⟩

end Entry

/-! ## Both calls -/

/-- The database, and how far the calls of two clients have come. -/
structure Calls where
  db : Keyspace
  first : Phase
  second : Phase

section Both

variable (server : RedisServer) (separator table key : Bytes)
  (connector connector' : ConnectorClass)
  (data data' : Hash)

def step (s : Calls) : Turn → Calls
  | .first =>
    let (phase, db) := next server separator table key connector data s.db s.first
    ⟨db, phase, s.second⟩
  | .second =>
    let (phase, db) := next server separator table key connector' data' s.db s.second
    ⟨db, s.first, phase⟩

def run (ks : Keyspace) (schedule : List Turn) : Calls :=
  schedule.foldl (step server separator table key connector connector' data data')
    ⟨ks, .reading, .reading⟩

/-- If the first call can do no harm to the second by writing before it. -/
def Harmless (h : Hash) : Prop :=
  Replacing.Harmless (listing server) h (writer data connector).atomic data data'

variable {server separator table key connector connector' data data'} {ks : Keyspace} {h : Hash}

theorem writer_data (data : Hash) (connector : ConnectorClass) :
    (writer data connector).data = data := by
  cases connector <;> rfl

structure Follows (ks : Keyspace) (name : Bytes) (data data' : Hash) (s : Calls)
    (t : Replacing.Race Bytes Bytes compare) : Prop where
  now : Entry ks name s.db t.map
  first : Corresponds data s.first t.first
  second : Corresponds data' s.second t.second

theorem Corresponds.returned_iff {p q}
    (corresponds : Corresponds data p q) : p = .returned ↔ q = .returned := by
  cases corresponds <;> simp

theorem step_follows (nonempty : data ≠ ∅) (nonempty' : data' ≠ ∅) {s}
    {t} (turn : Replacing.Turn)
    (follows : Follows ks (cStr (hashName separator table key)) data data' s t) :
    Follows ks (cStr (hashName separator table key)) data data'
      (step server separator table key connector connector' data data' s turn)
      (t.step (listing server) (writer data connector) (writer data' connector') turn) := by
  cases turn with
  | first =>
    obtain ⟨corresponds, now⟩ := next_move nonempty connector follows.first follows.now
    exact ⟨now, corresponds, follows.second⟩
  | second =>
    obtain ⟨corresponds, now⟩ := next_move nonempty' connector' follows.second follows.now
    exact ⟨now, follows.first, corresponds⟩

variable (server connector connector') in
theorem run_follows (nonempty : data ≠ ∅) (nonempty' : data' ≠ ∅)
    (stored : ks.hashAt (cStr (hashName separator table key)) = some h)
    (schedule : List Replacing.Turn) :
    Follows ks (cStr (hashName separator table key)) data data'
      (run server separator table key connector connector' data data' ks schedule)
      (Race.run (listing server) (writer data connector) (writer data' connector')
        (.start h) schedule) := by
  unfold run Race.run
  induction schedule using reverseRecOn with
  | nil => exact ⟨⟨stored, fun _ _ => rfl⟩, .reading, .reading⟩
  | append_singleton schedule turn ih =>
    rw [foldl_concat, foldl_concat]
    exact step_follows nonempty nonempty' turn ih

theorem contents_iff (nonempty : data ≠ ∅) (nonempty' : data' ≠ ∅)
    (stored : ks.hashAt (cStr (hashName separator table key)) = some h) :
    (∀ schedule s, run server separator table key connector connector' data data' ks schedule = s →
      s.first = .returned → s.second = .returned →
      (s.db.hashAt (cStr (hashName separator table key)) = some data ∨
        s.db.hashAt (cStr (hashName separator table key)) = some data') ∧
      ∀ name, name ≠ cStr (hashName separator table key) → s.db[name]? = ks[name]?) ↔
    ∀ m, Replacing.Race.Reached (listing server) (writer data connector) (writer data' connector') h
      ⟨m, .returned, .returned⟩ → m = data ∨ m = data' := by
  constructor
  · rintro all m ⟨schedule, ran⟩
    have follows := run_follows server connector connector' nonempty nonempty' stored schedule
    rw [ran] at follows
    obtain ⟨content, _⟩ := all schedule _ rfl (follows.first.returned_iff.mpr rfl)
      (follows.second.returned_iff.mpr rfl)
    rw [follows.now.entry] at content
    exact content.imp Option.some.inj Option.some.inj
  · rintro contents schedule s rfl first second
    have follows := run_follows server connector connector' nonempty nonempty' stored schedule
    refine ⟨?_, follows.now.elsewhere⟩
    rw [follows.now.entry]
    have first' := follows.first.returned_iff.mp first
    have second' := follows.second.returned_iff.mp second
    generalize reached : Replacing.Race.run (listing server) (writer data connector)
      (writer data' connector') (.start h) schedule = t at first' second' ⊢
    obtain ⟨m, p, p'⟩ := t
    obtain rfl : p = .returned := first'
    obtain rfl : p' = .returned := second'
    exact (contents m ⟨schedule, reached⟩).imp (congrArg some) (congrArg some)

inductive Stuck : Phase → Prop
  | reading : Stuck .reading
  | thrown (e : Failure) : Stuck (.thrown e)

theorem next_stuck (other : ks.hashAt (cStr (hashName separator table key)) = none) {p}
    (stuck : Stuck p) :
    Stuck (next server separator table key connector data ks p).1 ∧
      (next server separator table key connector data ks p).2 = ks := by
  cases stuck with
  | thrown e => exact ⟨.thrown e, rfl⟩
  | reading =>
    have failed : getEntry server separator table key ks = .error _ ks := hgetallMap_wrongType other
    simp only [next, failed, Phase.after]
    exact ⟨.thrown _, trivial⟩

variable (server connector connector' data data') in
theorem run_stuck (other : ks.hashAt (cStr (hashName separator table key)) = none)
    (schedule : List Turn) :
    (run server separator table key connector connector' data data' ks schedule).db = ks ∧
      Stuck (run server separator table key connector connector' data data' ks schedule).first ∧
      Stuck
        (run server separator table key connector connector' data data' ks schedule).second := by
  unfold run
  induction schedule using reverseRecOn with
  | nil => exact ⟨rfl, .reading, .reading⟩
  | append_singleton schedule turn ih =>
    rw [foldl_concat]
    obtain ⟨same, first, second⟩ := ih
    cases turn with
    | first =>
      obtain ⟨stuck, unchanged⟩ := next_stuck (same.symm ▸ other) first
      exact ⟨unchanged.trans same, stuck, second⟩
    | second =>
      obtain ⟨stuck, unchanged⟩ := next_stuck (same.symm ▸ other) second
      exact ⟨unchanged.trans same, first, stuck⟩

end Both

end SetEntry

open SetEntry ConfigDBConnector in
/-- In every order of their parts two calls leave the data of one of them, exactly if neither can do
    harm to the other. -/
theorem set_entry_all_or_nothing (server : RedisServer) (separator table key : Bytes)
    (connector connector' : ConnectorClass) {data data' : Hash} (nonempty : data ≠ ∅)
    (nonempty' : data' ≠ ∅) (ks : Keyspace) :
    (∀ schedule s, run server separator table key connector connector' data data' ks schedule = s →
      s.first = .returned → s.second = .returned →
      (s.db.hashAt (cStr (hashName separator table key)) = some data ∨
        s.db.hashAt (cStr (hashName separator table key)) = some data') ∧
      ∀ name, name ≠ cStr (hashName separator table key) → s.db[name]? = ks[name]?) ↔
    ∀ h, ks.hashAt (cStr (hashName separator table key)) = some h →
      SetEntry.Harmless server connector data data' h ∧
        SetEntry.Harmless server connector' data' data h := by
  cases stored : ks.hashAt (cStr (hashName separator table key)) with
  | none =>
    constructor
    · intro _ h impossible
      cases impossible
    · rintro _ schedule s rfl returned _
      obtain ⟨_, stuck, _⟩ := run_stuck server connector connector' data data' stored schedule
      rw [returned] at stuck
      cases stuck
  | some h =>
    have harmless := Replacing.contents_iff (listing server) (writer data connector)
      (writer data' connector') h
    simp only [writer_data] at harmless
    rw [SetEntry.contents_iff nonempty nonempty' stored, harmless]
    constructor
    · rintro both h' ⟨⟩
      exact both
    · intro both
      exact both h rfl

private def field (f v : Bytes) : Hash := Hash.ofFields [(f, v)]

private theorem mem_field {f g v} : g ∈ field f v ↔ f = g := by
  rw [field, Hash.ofFields_singleton]
  simp

open SetEntry ConfigDBConnector in
/-- Two calls with the same field. -/
theorem set_entry_all_or_nothing_taken_up :
    let s := run .sorted (ascii "|") (ascii "PORT") (ascii "e") .plain .pipe
      (field (ascii "a") (ascii "1")) (field (ascii "a") (ascii "2")) ∅
      [.first, .second, .first, .second, .first]
    s.first = .returned ∧ s.second = .returned ∧
      (s.db.hashAt (ascii "PORT|e") = some (field (ascii "a") (ascii "1")) ∨
        s.db.hashAt (ascii "PORT|e") = some (field (ascii "a") (ascii "2"))) := by
  have harmless : ∀ connector v v', SetEntry.Harmless .sorted connector (field (ascii "a") v)
      (field (ascii "a") v') ∅ := by
    intro connector v v'
    have shared : ∀ k, k ∈ field (ascii "a") v ↔ k ∈ field (ascii "a") v' := by simp [mem_field]
    exact ⟨fun k member => by simp at member,
      .inl fun k ours foreign => absurd ((shared k).mp ours) foreign,
      fun _ => .inl fun k theirs foreign => absurd ((shared k).mpr theirs) foreign⟩
  have both : ∀ h,
      Keyspace.hashAt ∅ (cStr (hashName (ascii "|") (ascii "PORT") (ascii "e"))) = some h →
      SetEntry.Harmless .sorted .plain (field (ascii "a") (ascii "1"))
        (field (ascii "a") (ascii "2")) h ∧
        SetEntry.Harmless .sorted .pipe (field (ascii "a") (ascii "2"))
          (field (ascii "a") (ascii "1")) h := by
    rintro h ⟨⟩
    exact ⟨harmless .plain _ _, harmless .pipe _ _⟩
  have all := (set_entry_all_or_nothing .sorted (ascii "|") (ascii "PORT") (ascii "e") .plain .pipe
    (by decide) (by decide) ∅).mpr both
  exact ⟨rfl, rfl, (all _ _ rfl rfl rfl).1⟩

open SetEntry in
/-- Both calls read before either writes, so neither deletes the other's field. -/
theorem set_entry_all_or_nothing_mixed :
    let s := run .sorted (ascii "|") (ascii "PORT") (ascii "e") .pipe .pipe
      (field (ascii "a") (ascii "1")) (field (ascii "b") (ascii "2")) ∅
      [.first, .second, .first, .second]
    s.first = .returned ∧ s.second = .returned ∧
      ∃ entry, s.db.hashAt (ascii "PORT|e") = some entry ∧
        entry[ascii "a"]? = some (ascii "1") ∧ entry[ascii "b"]? = some (ascii "2") ∧
        entry ≠ field (ascii "a") (ascii "1") ∧ entry ≠ field (ascii "b") (ascii "2") := by
  exact ⟨rfl, rfl, _, rfl, rfl, rfl, by decide, by decide⟩

end SwssCommon
