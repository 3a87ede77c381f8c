import SwssCommon.Pipeline.RedisPipeline
import SwssCommon.Redis.Keyspace

/-! # Deleting many keys

`DBConnector::del` of a list of keys puts them into commands of at most 128 keys and pushes
these to a pipeline of its own.
-/

namespace SwssCommon.RedisPipeline

open Bytes Throwing List RedisReply

/-! ## A pipeline on which nothing fails -/

section Fine

variable {σ κ : Type} {peer : Peer σ κ} {s : RedisPipeline σ κ} {server : σ}

theorem answer_append (batch later : List (Sent κ)) (server : σ) :
    peer.answer (batch ++ later) server =
      ((peer.answer batch server).1 ++ (peer.answer later (peer.answer batch server).2).1,
        (peer.answer later (peer.answer batch server).2).2) := by
  induction batch generalizing server with
  | nil => rfl
  | cons sent batch ih => simp only [cons_append, Peer.answer, ih]

variable (peer) in
/-- All that is on its way leads to `server`, with replies that pass, and nothing is published
    afterwards. -/
structure Fine (s : RedisPipeline σ κ) (server : σ) : Prop where
  inStep : s.InStep
  quiet : s.shaPub = none
  settled : s.settled peer = server
  passes : ∀ a ∈ s.answers peer, Passes a

namespace Fine

theorem queue (fine : Fine peer s server) {command : PipelineCommand κ} {expectedType : Int}
    (passes : check (peer.execute command server).1 expectedType = .ok ()) :
    Fine peer (s.queue command expectedType) (peer.execute command server).2 where
  inStep := fine.inStep.queue command expectedType
  quiet := fine.quiet
  settled := by
    rw [← fine.settled, RedisPipeline.settled, RedisPipeline.queue, answer_append]
    rfl
  passes a member := by
    rw [← fine.settled] at passes
    rw [answers, RedisPipeline.queue, answer_append, ← append_assoc] at member
    rcases mem_append.mp member with before | now
    · exact fine.passes a before
    · obtain rfl := mem_singleton.mp now
      obtain ⟨rfl, status⟩ := check_eq_ok.mp passes
      exact ⟨rfl, status⟩

theorem flushed {s' : RedisPipeline σ κ} (fine : Fine peer s server) (flushed : Flushed peer s s') :
    Fine peer s' server := by
  have empty : s'.answers peer = [] := answers_eq_nil.mpr flushed.idle
  refine ⟨flushed.inStep, flushed.kept.shaPub.trans fine.quiet, ?_, by simp [empty]⟩
  rcases flushed.how with ⟨-, rfl⟩ | ⟨-, -, t, popped, rfl⟩
  · exact fine.settled
  · rw [published, popped.kept.shaPub, fine.quiet]
    exact popped.settled.trans fine.settled

theorem not_threw {s' : RedisPipeline σ κ} (fine : Fine peer s server) :
    ¬ FlushThrew peer s s' := by
  rintro ⟨-, -, ⟨seen, bad, rest, split, -, failed, -⟩ | ⟨-, t, script, -, -, loaded, -⟩⟩
  · exact failed (fine.passes bad (split ▸ mem_append_right seen (.head rest)))
  · rw [fine.quiet] at loaded
    cases loaded

theorem flush_ends (fine : Fine peer s server) :
    Ends (flush peer) s (fun _ s' => Fine peer s' server ∧ s'.outstanding = [])
      (fun _ _ => False) :=
  (RedisPipeline.flush_ends fine.inStep).mono
    (fun _ _ flushed => ⟨fine.flushed flushed, flushed.idle⟩)
    (fun _ _ threw => fine.not_threw threw.2)

theorem push_ends (fine : Fine peer s server) {command : PipelineCommand κ} {expectedType : Int}
    (deferred : Deferred expectedType)
    (passes : check (peer.execute command server).1 expectedType = .ok ()) :
    Ends (push peer command expectedType) s
      (fun _ s' => Fine peer s' (peer.execute command server).2) (fun _ _ => False) := by
  apply (push_deferred_ends fine.inStep command deferred).mono
  · rintro _ s' ⟨-, ⟨-, rfl⟩ | ⟨-, flushed⟩⟩
    · exact fine.queue passes
    · exact (fine.queue passes).flushed flushed
  · exact fun _ _ threw => (fine.queue passes).not_threw threw.2.2

end Fine

end Fine

end SwssCommon.RedisPipeline

namespace SwssCommon.ChunkedDelete

open Bytes Redis Throwing List RedisReply RedisPipeline

/-! ## The loop -/

def KEY_DEL_CHUNK_SIZE : Nat := 128

inductive Failure where
  | pipeline (e : RedisPipeline.Failure)
  | invalidArgument (what : Bytes)

/-- A database, and the keys of every `DEL` it has executed. -/
structure Database where
  keyspace : Keyspace
  deleted : List (List Bytes)

def Database.DEL (db : Database) (keys : List Bytes) : Database where
  keyspace := keys.foldl (fun ks key => ks.erase key) db.keyspace
  deleted := db.deleted ++ [keys]

/-- A command is given by its keys. `DEL` replies how many of them there were. -/
def execute : PipelineCommand (List Bytes) → Database → RedisReply × Database
  | .given keys, db =>
    (.integer (db.keyspace.size - (db.DEL keys).keyspace.size : Nat), db.DEL keys)
  | .scriptLoad _, db | .evalsha _, db => (.error [], db)

abbrev M := EStateM Failure (RedisPipeline Database (List Bytes))

def formatDEL (keys : List Bytes) : M (List Bytes) :=
  if keys = [] then throw (.invalidArgument (ascii "empty values")) else pure keys

/-- `keys.size() - 1`, which wraps around if there are none. -/
def sizeMinusOne (keys : List Bytes) : Nat :=
  if keys = [] then 2 ^ 64 - 1 else keys.length - 1

variable (printable : PipelineCommand (List Bytes) → Bytes)

def peer : Peer Database (List Bytes) :=
  ⟨execute, printable⟩

/-- The rounds for the keys from number `i` on. -/
def delFrom (keys : List Bytes) : Nat → List Bytes → List Bytes → M Unit
  | _, _, [] => pure ()
  | i, batchedKeys, key :: rest =>
    let batchedKeys := batchedKeys ++ [key]
    if (i + 1) % KEY_DEL_CHUNK_SIZE = 0 ∨ i = sizeMinusOne keys then do
      let del ← formatDEL batchedKeys
      let _ ← EStateM.adaptExcept .pipeline
        (push (peer printable) (.given del) REDIS_REPLY_INTEGER)
      delFrom keys (i + 1) [] rest
    else delFrom keys (i + 1) batchedKeys rest

def del (keys : List Bytes) : M Unit := do
  delFrom printable keys 0 [] keys
  EStateM.adaptExcept .pipeline (flush (peer printable))

/-! ## The commands -/

/-- Lists that make up the keys in their order, all but the last one full. -/
structure Chunks (keys : List Bytes) (chunks : List (List Bytes)) : Prop where
  whole : chunks.flatten = keys
  sizes : ∀ chunk ∈ chunks, 1 ≤ chunk.length ∧ chunk.length ≤ KEY_DEL_CHUNK_SIZE
  full : ∀ chunk ∈ chunks.dropLast, chunk.length = KEY_DEL_CHUNK_SIZE

def Database.after (db : Database) (chunks : List (List Bytes)) : Database :=
  chunks.foldl Database.DEL db

theorem after_eq (db : Database) (chunks : List (List Bytes)) :
    db.after chunks = ⟨chunks.flatten.foldl (fun ks key => ks.erase key) db.keyspace,
      db.deleted ++ chunks⟩ := by
  induction chunks generalizing db with
  | nil => simp [Database.after]
  | cons chunk chunks ih =>
    rw [flatten_cons, foldl_append]
    exact (ih (db.DEL chunk)).trans (by simp [Database.DEL])

theorem Chunks.eq_nil {chunks : List (List Bytes)} (chunked : Chunks [] chunks) : chunks = [] := by
  cases chunks with
  | nil => rfl
  | cons chunk chunks =>
    have some := (chunked.sizes chunk (.head chunks)).1
    have empty := chunked.whole
    rw [flatten_cons, append_eq_nil_iff] at empty
    rw [empty.1] at some
    cases some

theorem Chunks.cons {batch rest : List Bytes} {chunks : List (List Bytes)}
    (chunked : Chunks rest chunks)
    (size : 1 ≤ batch.length ∧ batch.length ≤ KEY_DEL_CHUNK_SIZE)
    (full : rest ≠ [] → batch.length = KEY_DEL_CHUNK_SIZE) :
    Chunks (batch ++ rest) (batch :: chunks) where
  whole := by rw [flatten_cons, chunked.whole]
  sizes := forall_mem_cons.mpr ⟨size, chunked.sizes⟩
  full := by
    cases chunks with
    | nil => simp
    | cons chunk chunks =>
      rw [dropLast_cons_cons]
      refine forall_mem_cons.mpr ⟨full ?_, chunked.full⟩
      rintro rfl
      cases chunked.eq_nil

variable {printable : PipelineCommand (List Bytes) → Bytes}
  {s : RedisPipeline Database (List Bytes)} {db : Database} {batchedKeys rest : List Bytes}

theorem delFrom_ends (keys : List Bytes) {i : Nat} (fine : Fine (peer printable) s db)
    (position : i + rest.length = keys.length)
    (batched : rest ≠ [] → batchedKeys.length = i % KEY_DEL_CHUNK_SIZE)
    (done : rest = [] → batchedKeys = []) :
    Ends (delFrom printable keys i batchedKeys rest) s
      (fun _ s' => ∃ chunks, Chunks (batchedKeys ++ rest) chunks ∧
        Fine (peer printable) s' (db.after chunks))
      (fun _ _ => False) := by
  induction rest generalizing i batchedKeys s db with
  | nil =>
    rw [done rfl]
    exact Ends.pure ⟨[], ⟨rfl, by simp, by simp⟩, fine⟩
  | cons key rest ih =>
    have length : (batchedKeys ++ [key]).length = i % KEY_DEL_CHUNK_SIZE + 1 := by
      rw [length_append, batched (cons_ne_nil key rest)]
      rfl
    have some : keys ≠ [] := by
      rintro rfl
      simp at position
    have last : i = sizeMinusOne keys ↔ rest = [] := by
      rw [sizeMinusOne, if_neg some, ← length_eq_zero_iff]
      rw [length_cons] at position
      omega
    have next : i + 1 + rest.length = keys.length := by
      rw [length_cons] at position
      omega
    have regroup : batchedKeys ++ key :: rest = batchedKeys ++ [key] ++ rest := by simp
    rw [delFrom, regroup]
    simp only [last]
    unfold KEY_DEL_CHUNK_SIZE at *
    split_ifs with now
    · rw [formatDEL, if_neg (by simp), pure_bind]
      have pushed : Ends (push (peer printable) (.given (batchedKeys ++ [key]))
        REDIS_REPLY_INTEGER) s _ _ := fine.push_ends (.inr (.inr rfl)) rfl
      refine (Ends.adaptExcept pushed).andThen fun _ t fine => ?_
      have here : rest ≠ [] → (i + 1) % 128 = 0 := fun more => now.resolve_right more
      have emptied (more : rest ≠ []) : ([] : List Bytes).length = (i + 1) % 128 := (here more).symm
      refine (ih fine next emptied fun _ => rfl).mono ?_ fun _ _ => id
      rintro _ s' ⟨chunks, chunked, fine⟩
      refine ⟨_ :: chunks, chunked.cons ?_ fun more => ?_, fine⟩
      · unfold KEY_DEL_CHUNK_SIZE
        omega
      · have full := here more
        unfold KEY_DEL_CHUNK_SIZE
        omega
    · refine ih fine next (fun _ => ?_) fun none => absurd (.inr none) now
      have notFull := not_or.mp now
      omega

/-- The commands hold the keys in order, in chunks, and the database is left without them. -/
theorem del_chunked (COMMAND_MAX : Nat) (ks : Keyspace) (keys : List Bytes) :
    ∃ s', del printable keys (RedisPipeline.start COMMAND_MAX ⟨ks, []⟩) = .ok () s' ∧
      s'.outstanding = [] ∧ Chunks keys s'.server.deleted ∧ (keys = [] → s'.server.deleted = []) ∧
      ∀ key : Bytes, s'.server.keyspace[key]? = if key ∈ keys then none else ks[key]? := by
  have fine : Fine (peer printable) (RedisPipeline.start COMMAND_MAX ⟨ks, []⟩) ⟨ks, []⟩ :=
    ⟨.start _ _, rfl, rfl, by simp [answers, RedisPipeline.start, Peer.answer]⟩
  generalize RedisPipeline.start COMMAND_MAX (⟨ks, []⟩ : Database) = s at fine ⊢
  have ends : Ends (del printable keys) s (fun _ s' => ∃ chunks, Chunks keys chunks ∧
      s'.outstanding = [] ∧ s'.server = Database.after ⟨ks, []⟩ chunks) fun _ _ => False := by
    refine (delFrom_ends keys fine (Nat.zero_add _) (fun _ => rfl) fun _ => rfl).andThen ?_
    rintro _ t ⟨chunks, chunked, fine⟩
    refine (Ends.adaptExcept (fine.flush_ends.mono ?_ fun _ _ => id))
    rintro _ s' ⟨fine, idle⟩
    exact ⟨chunks, chunked, idle, (settled_of_idle idle).symm.trans fine.settled⟩
  obtain ⟨_, s', ran⟩ := ends.returns
  obtain ⟨chunks, chunked, idle, server⟩ := ends.of_returned ran
  have deleted : s'.server.deleted = chunks := by rw [server, after_eq, nil_append]
  refine ⟨s', ran, idle, deleted ▸ chunked, ?_, fun key => ?_⟩
  · rintro rfl
    exact deleted.trans chunked.eq_nil
  · rw [server, after_eq, chunked.whole]
    exact OrderedMap.getElem?_foldl_erase keys ks key

end SwssCommon.ChunkedDelete
