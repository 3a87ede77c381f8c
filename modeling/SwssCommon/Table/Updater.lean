import SwssCommon.Redis.Script
import SwssCommon.Table.Names

/-! # Writing a table in the background

A thread writes the queued records to a table: a set replaces the entry, an hset merges its fields
into it.
-/

namespace SwssCommon

open Bytes Redis Script Ensures

namespace Table

/-- `set` without a time to live, so that no `EXPIRE` is sent. -/
def set (t : TableBase) (key : Bytes) (values : List FieldValueTuple) : Script Unit :=
  setEntry (fun name values => do let _ ← hsetFields name values) (fun _ _ => pure ()) (pure ())
    t key values DEFAULT_DB_TTL

def del (t : TableBase) (key : Bytes) : Script Unit := do
  let _ ← Script.del (entryName t key)

/-! ## Entries -/

/-- The names of the entries hold these hashes and nothing else. -/
def Stores (t : TableBase) (main : Bytes → Hash) (s : Server) : Prop :=
  ∀ key, s.keyspace.hashAt (entryName t key) = some (main (entryName t key))

def merged (name : Bytes) (values : List FieldValueTuple) (main : Bytes → Hash) : Bytes → Hash :=
  Function.update main name (main name * Hash.ofFields values)

def deleted (name : Bytes) (main : Bytes → Hash) : Bytes → Hash :=
  Function.update main name 1

variable {t : TableBase} {main : Bytes → Hash} {s : Server}

theorem Stores.write (stored : Stores t main s) (name : Bytes) {v h}
    (holds : Value.hash? v = some h) :
    Stores t (Function.update main name h) (s.write name v) := by
  intro key
  rw [Server.write_keyspace, Keyspace.hashAt_write]
  by_cases same : name = entryName t key
  · rw [if_pos same, ← same, Function.update_self, holds]
  · rw [if_neg same, Function.update_of_ne (Ne.symm same)]
    exact stored key

theorem set_ensures (stored : Stores t main s) (key : Bytes) (values : List FieldValueTuple) :
    Ensures (set t key values) s fun _ => Stores t (merged (entryName t key) values main) := by
  unfold set setEntry
  split
  · next nothing =>
      refine pure ?_
      rwa [merged, nothing, Hash.ofFields_nil, mul_one, Function.update_eq_self]
  · refine bind (bind (hsetFields_ensures (stored key) fun n => pure ?_))
    rw [if_neg (not_not.mpr rfl)]
    exact pure (stored.write _ (Value.hash?_ofHash _))

theorem del_ensures (stored : Stores t main s) (key : Bytes) :
    Ensures (del t key) s fun _ => Stores t (deleted (entryName t key) main) :=
  bind (Script.del_ensures fun _ => pure (stored.write _ rfl))

end Table

/-! ## Updater -/

structure AsyncDBUpdater where
  dbUpdateDataQueue : List KeyOpFieldsValuesTuple
  db : Server

namespace AsyncDBUpdater

def update (u : AsyncDBUpdater) (kco : KeyOpFieldsValuesTuple) : AsyncDBUpdater :=
  { u with dbUpdateDataQueue := u.dbUpdateDataQueue ++ [kco] }

/-- What the thread does with a record. Unknown operations are only logged. -/
def write (t : TableBase) (kco : KeyOpFieldsValuesTuple) : Script Unit :=
  if kco.kfvOp = SET_COMMAND then do
    -- the set alone would leave the fields that are gone
    Table.del t kco.kfvKey
    Table.set t kco.kfvKey kco.kfvFieldsValues
  else if kco.kfvOp = HSET_COMMAND then
    Table.set t kco.kfvKey kco.kfvFieldsValues
  else if kco.kfvOp = DEL_COMMAND then
    Table.del t kco.kfvKey
  else pure ()

/-- The thread writes the front of the queue and takes it off. An error reply throws,
    and the thread does not go on. -/
def dbUpdateThread (t : TableBase) (u : AsyncDBUpdater) : Option AsyncDBUpdater :=
  match u.dbUpdateDataQueue with
  | [] => none
  | kco :: rest =>
    match write t kco u.db with
    | (.ok (), db) => some ⟨rest, db⟩
    | (.error _, _) => none

theorem dbUpdateThread_cons {t kco}
    {rest db db'} (ran : write t kco db = (.ok (), db')) :
    dbUpdateThread t ⟨kco :: rest, db⟩ = some ⟨rest, db'⟩ := by
  simp only [dbUpdateThread, ran]

def written (t : TableBase) (main : Bytes → Hash) (kco : KeyOpFieldsValuesTuple) : Bytes → Hash :=
  if kco.kfvOp = SET_COMMAND then
    Table.merged (Table.entryName t kco.kfvKey) kco.kfvFieldsValues
      (Table.deleted (Table.entryName t kco.kfvKey) main)
  else if kco.kfvOp = HSET_COMMAND then
    Table.merged (Table.entryName t kco.kfvKey) kco.kfvFieldsValues main
  else if kco.kfvOp = DEL_COMMAND then
    Table.deleted (Table.entryName t kco.kfvKey) main
  else main

variable {t : TableBase} {main : Bytes → Hash}

theorem write_ensures {s} (stored : Table.Stores t main s) (kco : KeyOpFieldsValuesTuple) :
    Ensures (write t kco) s fun _ => Table.Stores t (written t main kco) := by
  unfold write written
  split
  · refine bind ((Table.del_ensures stored kco.kfvKey).mono fun _ s' deleted => ?_)
    exact Table.set_ensures deleted _ _
  · split
    · exact Table.set_ensures stored _ _
    · split
      · exact Table.del_ensures stored _
      · exact pure stored

/-- The updater has been given the records `kcos` for a table with the entries `main`. -/
def Given (t : TableBase) (main : Bytes → Hash) (kcos : List KeyOpFieldsValuesTuple)
    (u : AsyncDBUpdater) : Prop :=
  ∃ done, done ++ u.dbUpdateDataQueue = kcos ∧ Table.Stores t (done.foldl (written t) main) u.db

namespace Given

variable {kcos : List KeyOpFieldsValuesTuple} {u u' : AsyncDBUpdater}

theorem initially {db} (stored : Table.Stores t main db) : Given t main [] ⟨[], db⟩ :=
  ⟨[], rfl, stored⟩

theorem update (given : Given t main kcos u) (kco : KeyOpFieldsValuesTuple) :
    Given t main (kcos ++ [kco]) (u.update kco) := by
  obtain ⟨done, split, stored⟩ := given
  refine ⟨done, ?_, stored⟩
  rw [← split, AsyncDBUpdater.update, List.append_assoc]

theorem next (given : Given t main kcos u) (waiting : u.dbUpdateDataQueue ≠ []) :
    ∃ u', u.dbUpdateThread t = some u' := by
  obtain ⟨done, split, stored⟩ := given
  cases queue : u.dbUpdateDataQueue with
  | nil => exact absurd queue waiting
  | cons kco rest =>
    obtain ⟨_, db, ran, -⟩ := write_ensures stored kco
    exact ⟨⟨rest, db⟩, by simp only [dbUpdateThread, queue, ran]⟩

theorem dbUpdateThread (given : Given t main kcos u) (wrote : u.dbUpdateThread t = some u') :
    Given t main kcos u' := by
  obtain ⟨done, split, stored⟩ := given
  cases queue : u.dbUpdateDataQueue with
  | nil => simp [AsyncDBUpdater.dbUpdateThread, queue] at wrote
  | cons kco rest =>
    obtain ⟨_, db, ran, after⟩ := write_ensures stored kco
    simp only [AsyncDBUpdater.dbUpdateThread, queue, ran, Option.some.injEq] at wrote
    subst wrote
    refine ⟨done ++ [kco], ?_, ?_⟩
    · rw [← split, queue, List.append_assoc]
      rfl
    · rwa [List.foldl_append]

theorem drained (given : Given t main kcos u) (empty : u.dbUpdateDataQueue = []) :
    Table.Stores t (kcos.foldl (written t) main) u.db := by
  obtain ⟨done, split, stored⟩ := given
  rw [empty, List.append_nil] at split
  rwa [← split]

end Given

end AsyncDBUpdater

end SwssCommon
