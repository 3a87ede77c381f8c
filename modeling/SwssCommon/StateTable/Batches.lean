import SwssCommon.StateTable.Refinement
import SwssCommon.StateTable.TempView

/-! # Batches and single calls

The script of a batch walks through a flat list of counts and fields. The entries end up as they do
in single calls and are announced together. Both kinds of calls go to a temporary view while there
is one. A script that meets a value of another type stops there, so a batch is as good as single
calls only where each of them would go through.
-/

namespace SwssCommon.ProducerStateTable

open Bytes Redis Script List Keyspace

inductive Single where
  | set (value : KeyOpFieldsValuesTuple)
  | del (key : Bytes)

def Single.key : Single → Bytes
  | .set value => value.kfvKey
  | .del key => key

inductive Batch where
  | set (values : List KeyOpFieldsValuesTuple)
  | del (keys : List Bytes)

/-- The single calls a batch stands for, in the order of its list. -/
def Batch.singles : Batch → List Single
  | .set values => values.map .set
  | .del names => names.map .del

/-- The view the producer is building, if one is active, and the server. -/
structure Working where
  tempViewState : Option TableDump
  server : Server

variable (p : ProducerStateTable)

def performSingle (w : Working) (call : Single) : Working :=
  match w.tempViewState, call with
  | some view, .set value =>
    { w with tempViewState := some (viewSet view value.kfvKey value.kfvFieldsValues) }
  | some view, .del key => { w with tempViewState := some (viewDel view key) }
  | none, .set value => { w with server := (p.set value.kfvKey value.kfvFieldsValues w.server).2 }
  | none, .del key => { w with server := (p.del key w.server).2 }

def performBatch (w : Working) (batch : Batch) : Working :=
  match w.tempViewState, batch with
  | some view, .set values => { w with tempViewState := some (viewBatchedSet view values) }
  | some view, .del names => { w with tempViewState := some (viewBatchedDel view names) }
  | none, .set values => { w with server := (p.batchedSet values w.server).2 }
  | none, .del names => { w with server := (p.batchedDel names w.server).2 }

/-- Whether one of the calls publishes, made one after the other. -/
def SomePublishes (w : Working) : List Single → Prop
  | [] => False
  | call :: calls =>
    (p.performSingle w call).server.published ≠ w.server.published ∨
      SomePublishes (p.performSingle w call) calls

/-- Beside the key set, the name the call writes to holds what it should, or nothing. -/
def CanWrite (ks : Keyspace) : Single → Prop
  | .set value => value.kfvFieldsValues ≠ [] → (ks.hashAt (p.pendingName value.kfvKey)).isSome
  | .del _ => (ks.setAt p.getDelKeySetName).isSome

def enter (ks : Keyspace) : Single → Keyspace
  | .set value => p.addEntry ks value
  | .del key => p.removeEntry ks key

variable {p} {s : Server} {ks : Keyspace} {calls : List Single} {call other : Single}

/-! ## One call -/

theorem announcement_eq_nil {added} :
    p.announcement added = [] ↔ (p.publishes → added = 0) := by
  simp [announcement]

theorem announcement_ne_nil {added} (some : p.announcement added ≠ []) :
    p.announcement added = [(p.getChannelName p.dbId, ascii "G")] := by
  unfold announcement at some ⊢
  split
  · rfl
  · rename_i silent
    rw [if_neg silent] at some
    contradiction

theorem setAt_enter :
    (p.enter ks call).setAt p.getKeySetName = some (insert call.key (p.dirtyAt ks)) := by
  cases call with
  | set value => exact setAt_addEntry p ks value
  | del key => exact (setAt_removeEntry p ks key).1

theorem dirtyAt_enter : p.dirtyAt (p.enter ks call) = insert call.key (p.dirtyAt ks) := by
  rw [dirtyAt, setAt_enter, Option.getD_some]

theorem CanWrite.enter (ready : p.CanWrite ks call) (keySet : (ks.setAt p.getKeySetName).isSome) :
    p.CanWrite (p.enter ks other) call := by
  cases call with
  | set value =>
    intro some
    cases other with
    | set entry =>
      have settable : p.Settable ks [value] := ⟨keySet, fun value' member => by
        cases mem_singleton.mp member
        exact ready⟩
      exact (settable.addEntry entry).pending value (by simp) some
    | del key =>
      rw [ProducerStateTable.enter, removeEntry, hashAt, getElem?_write]
      split
      · rfl
      · rw [getElem?_write_of_ne (p.pendingName_ne_delKeySetName _).symm,
          getElem?_write_of_ne (p.pendingName_ne_keySetName _).symm]
        exact ready some
  | del key =>
    cases other with
    | set value =>
      change ((p.addEntry ks value).setAt p.getDelKeySetName).isSome
      rw [setAt, addEntry, getElem?_putFields_of_ne (p.pendingName_ne_delKeySetName _),
        getElem?_write_of_ne p.keySetName_ne_delKeySetName]
      exact ready
    | del key' => exact (Deletable.removeEntry p ks key').delSet

theorem performSingle_ready (nonempty : call.key ≠ [])
    (keySet : (s.keyspace.setAt p.getKeySetName).isSome) (ready : p.CanWrite s.keyspace call) :
    p.performSingle ⟨none, s⟩ call = ⟨none, ⟨p.enter s.keyspace call,
      s.published ++ p.announcement (if call.key ∈ p.dirtyAt s.keyspace then 0 else 1)⟩⟩ := by
  obtain ⟨members, found⟩ := Option.isSome_iff_exists.mp keySet
  have dirty : p.dirtyAt s.keyspace = members := by rw [dirtyAt, found, Option.getD_some]
  cases call with
  | set value =>
    have name : p.bufferName value.kfvKey = p.pendingName value.kfvKey :=
      p.bufferName_of_ne_nil nonempty
    have ran := set_puts value.kfvFieldsValues found
      (name ▸ (p.pendingName_ne_keySetName _).symm) (name ▸ ready)
    refine congrArg (Working.mk none) (ran.finalState.trans ?_)
    rw [name, ← dirty]
    rfl
  | del key =>
    have name : p.bufferName key = p.pendingName key := p.bufferName_of_ne_nil nonempty
    obtain ⟨erased, delSet⟩ := Option.isSome_iff_exists.mp ready
    refine congrArg (Working.mk none) ((del_writes found delSet).finalState.trans ?_)
    rw [name, ← dirty]
    simp only [enter, removeEntry, delSet]
    rfl

/-! ## A key set of another type

Every script adds to the key set first, so none of them changes anything. -/

variable {key : Bytes}

theorem set_stops {values}
    (keySet : s.keyspace.setAt p.getKeySetName = none) : Stops (p.set key values) s := by
  unfold set
  rw [append_assoc]
  apply evalsha_stops ([p.getChannelName p.dbId, p.getKeySetName] ++
    replicate values.length (p.bufferName key)) _ (by simp)
  exact (sadd_stops keySet).bind _

theorem del_stops (keySet : s.keyspace.setAt p.getKeySetName = none) : Stops (p.del key) s := by
  exact (sadd_stops keySet).bind _

theorem batchedSet_stops {value values}
    (keySet : s.keyspace.setAt p.getKeySetName = none) :
    Stops (p.batchedSet (value :: values)) s := by
  unfold batchedSet
  rw [append_assoc]
  apply evalsha_stops ([p.getChannelName p.dbId, p.getKeySetName,
    p.getStateHashPrefix ++ p.tableName ++ p.getTableNameSeparator] ++
    (value :: values).map (·.kfvKey)) _ (by simp)
  refine .bind (.bind ?_ _) _
  exact (sadd_stops keySet).bind _

theorem batchedDel_stops {keys} (keySet : s.keyspace.setAt p.getKeySetName = none) :
    Stops (p.batchedDel (key :: keys)) s := by
  apply evalsha_stops ([p.getChannelName p.dbId, p.getKeySetName, p.getDelKeySetName,
    p.getStateHashPrefix ++ p.tableName ++ p.getTableNameSeparator] ++ key :: keys) [ascii "G"]
    (by simp)
  refine .bind (.bind ?_ _) _
  exact (sadd_stops keySet).bind _

theorem performSingles_stops (calls : List Single)
    (keySet : s.keyspace.setAt p.getKeySetName = none) :
    calls.foldl p.performSingle ⟨none, s⟩ = ⟨none, s⟩ ∧ ¬ p.SomePublishes ⟨none, s⟩ calls := by
  induction calls with
  | nil => exact ⟨rfl, not_false⟩
  | cons call calls ih =>
    have stopped : p.performSingle ⟨none, s⟩ call = ⟨none, s⟩ := by
      cases call with
      | set value => exact congrArg (Working.mk none) (set_stops keySet).unchanged
      | del key => exact congrArg (Working.mk none) (del_stops keySet).unchanged
    rw [foldl_cons, SomePublishes, stopped]
    exact ⟨ih.1, not_or.mpr ⟨not_not.mpr rfl, ih.2⟩⟩

/-! ## Many calls -/

theorem performSingles_ready (nonempty : ∀ call ∈ calls, call.key ≠ [])
    (keySet : (s.keyspace.setAt p.getKeySetName).isSome)
    (ready : ∀ call ∈ calls, p.CanWrite s.keyspace call) :
    (calls.foldl p.performSingle ⟨none, s⟩).tempViewState = none ∧
      (calls.foldl p.performSingle ⟨none, s⟩).server.keyspace = calls.foldl p.enter s.keyspace ∧
      (p.dirtyAt s.keyspace).card ≤ (p.dirtyAt (calls.foldl p.enter s.keyspace)).card ∧
      (p.SomePublishes ⟨none, s⟩ calls ↔
        p.announcement ((p.dirtyAt (calls.foldl p.enter s.keyspace)).card -
          (p.dirtyAt s.keyspace).card) ≠ []) := by
  induction calls generalizing s with
  | nil => exact ⟨rfl, rfl, le_refl _, by simp [SomePublishes, announcement_eq_nil]⟩
  | cons call calls ih =>
    let added := if call.key ∈ p.dirtyAt s.keyspace then 0 else 1
    have first : (p.dirtyAt (p.enter s.keyspace call)).card =
        (p.dirtyAt s.keyspace).card + added := by
      rw [dirtyAt_enter, Finset.card_insert_eq_ite]
      simp only [added]
      split <;> rfl
    obtain ⟨view, keyspace, grown, publishes⟩ := @ih
      ⟨p.enter s.keyspace call, s.published ++ p.announcement added⟩
      (fun other member => nonempty other (by simp [member]))
      (by rw [setAt_enter]; rfl)
      (fun other member => (ready other (by simp [member])).enter keySet)
    dsimp only at view keyspace grown publishes
    rw [foldl_cons, foldl_cons, SomePublishes,
      performSingle_ready (nonempty call (by simp)) keySet (ready call (by simp)), publishes]
    refine ⟨view, keyspace, le_trans (first ▸ Nat.le_add_right _ added) grown, ?_⟩
    rw [ne_eq, append_right_eq_self, ← not_and_or, not_iff_not, announcement_eq_nil,
      announcement_eq_nil, announcement_eq_nil, ← imp_and]
    refine imp_congr_right fun _ => ?_
    omega

theorem performBatch_ready {batch} (keySet : (s.keyspace.setAt p.getKeySetName).isSome)
    (ready : ∀ call ∈ batch.singles, p.CanWrite s.keyspace call) :
    p.performBatch ⟨none, s⟩ batch = ⟨none, ⟨batch.singles.foldl p.enter s.keyspace,
      s.published ++ p.announcement ((p.dirtyAt (batch.singles.foldl p.enter s.keyspace)).card -
        (p.dirtyAt s.keyspace).card)⟩⟩ := by
  cases batch with
  | set values =>
    have settable : p.Settable s.keyspace values :=
      ⟨keySet, fun value member => ready (.set value) (mem_map_of_mem member)⟩
    have ran := batchedSet_writes values fun _ => settable
    refine congrArg (Working.mk none) (ran.finalState.trans ?_)
    simp only [Batch.singles, foldl_map, enter]
  | del keys =>
    have deletable : keys ≠ [] → p.Deletable s.keyspace := by
      intro some
      obtain ⟨key, member⟩ := exists_mem_of_ne_nil keys some
      exact ⟨keySet, ready (.del key) (mem_map_of_mem member)⟩
    refine congrArg (Working.mk none) ((batchedDel_writes keys deletable).finalState.trans ?_)
    simp only [Batch.singles, foldl_map, enter]

theorem performBatch_stops {batch} (keySet : s.keyspace.setAt p.getKeySetName = none) :
    p.performBatch ⟨none, s⟩ batch = ⟨none, s⟩ := by
  cases batch with
  | set values =>
    cases values with
    | nil =>
      have ran := batchedSet_writes (p := p) (s := s) [] (fun some => absurd rfl some)
      refine congrArg (Working.mk none) (ran.finalState.trans ?_)
      simp [announcement]
    | cons value values => exact congrArg (Working.mk none) (batchedSet_stops keySet).unchanged
  | del keys =>
    cases keys with
    | nil =>
      have ran := batchedDel_writes (p := p) (s := s) [] (fun some => absurd rfl some)
      refine congrArg (Working.mk none) (ran.finalState.trans ?_)
      simp [announcement]
    | cons key keys => exact congrArg (Working.mk none) (batchedDel_stops keySet).unchanged

theorem performBatch_view (p : ProducerStateTable) (view : TableDump) (s : Server) (batch : Batch) :
    p.performBatch ⟨some view, s⟩ batch = batch.singles.foldl p.performSingle ⟨some view, s⟩ := by
  cases batch with
  | set values =>
    induction values generalizing view with
    | nil => rfl
    | cons value values ih => exact ih (viewSet view value.kfvKey value.kfvFieldsValues)
  | del keys =>
    induction keys generalizing view with
    | nil => rfl
    | cons key keys ih => exact ih (viewDel view key)

theorem view_silent (p : ProducerStateTable) (view : TableDump) (s : Server) (calls : List Single) :
    (calls.foldl p.performSingle ⟨some view, s⟩).server = s ∧
      ¬ p.SomePublishes ⟨some view, s⟩ calls := by
  induction calls generalizing view with
  | nil => exact ⟨rfl, not_false⟩
  | cons call calls ih =>
    cases call with
    | set value =>
      have rest := ih (viewSet view value.kfvKey value.kfvFieldsValues)
      exact ⟨rest.1, not_or.mpr ⟨not_not.mpr rfl, rest.2⟩⟩
    | del key =>
      have rest := ih (viewDel view key)
      exact ⟨rest.1, not_or.mpr ⟨not_not.mpr rfl, rest.2⟩⟩

/-- A batch leaves what its single calls leave, made in its order, and is announced once
    if one of them is. -/
theorem batch_as_singles (p : ProducerStateTable) (w : Working) (batch : Batch)
    (nonempty : ∀ call ∈ batch.singles, call.key ≠ [])
    (ready : w.tempViewState = none → ∀ call ∈ batch.singles, p.CanWrite w.server.keyspace call) :
    (p.performBatch w batch).tempViewState = (batch.singles.foldl p.performSingle w).tempViewState ∧
      (p.performBatch w batch).server.keyspace =
        (batch.singles.foldl p.performSingle w).server.keyspace ∧
      (p.SomePublishes w batch.singles → (p.performBatch w batch).server.published =
        w.server.published ++ [(p.getChannelName p.dbId, ascii "G")]) ∧
      (¬ p.SomePublishes w batch.singles →
        (p.performBatch w batch).server.published = w.server.published) := by
  obtain ⟨view, s⟩ := w
  cases view with
  | some view =>
    obtain ⟨kept, silent⟩ := view_silent p view s batch.singles
    rw [performBatch_view]
    exact ⟨rfl, rfl, fun published => absurd published silent, fun _ => by rw [kept]⟩
  | none =>
    cases keySet : s.keyspace.setAt p.getKeySetName with
    | none =>
      obtain ⟨stopped, silent⟩ := performSingles_stops batch.singles keySet
      rw [performBatch_stops keySet, stopped]
      exact ⟨rfl, rfl, fun published => absurd published silent, fun _ => rfl⟩
    | some members =>
      have isSet : (s.keyspace.setAt p.getKeySetName).isSome := by rw [keySet]; rfl
      obtain ⟨view, keyspace, -, publishes⟩ := performSingles_ready nonempty isSet (ready rfl)
      rw [performBatch_ready isSet (ready rfl), publishes]
      refine ⟨view.symm, keyspace.symm, ?_, ?_⟩
      · intro some
        rw [announcement_ne_nil some]
      · intro none
        rw [not_not.mp none, append_nil]

private def batchTable : ProducerStateTable where
  tableName := ascii "T"
  separator := .colon
  dbId := 0
  buffered := false
  flushPub := false

private def batchEntry (key : String) : KeyOpFieldsValuesTuple where
  kfvKey := ascii key
  kfvOp := SET_COMMAND
  kfvFieldsValues := [(ascii "f", ascii "v")]

theorem batch_as_singles_twice :
    let w : Working := ⟨none, ∅, []⟩
    let batch : Batch := .set [batchEntry "a", batchEntry "a"]
    (batchTable.performBatch w batch).server.keyspace =
        (batch.singles.foldl batchTable.performSingle w).server.keyspace ∧
      (batchTable.performBatch w batch).server.published = [(ascii "T_CHANNEL@0", ascii "G")] := by
  let batch : Batch := .set [batchEntry "a", batchEntry "a"]
  have ready : ∀ call ∈ batch.singles, batchTable.CanWrite ∅ call := by
    intro call member
    obtain ⟨value, -, rfl⟩ := mem_map.mp member
    intro _
    rfl
  have same := batch_as_singles batchTable ⟨none, ∅, []⟩ batch (by decide) (fun _ => ready)
  exact ⟨same.2.1, same.2.2.1 (.inl (by decide +kernel))⟩

/-- A string lies where the pending hash of the first key should be. -/
theorem batch_stops_early :
    let w : Working := ⟨none, write ∅ (ascii "_T:a") (some (.string [])), []⟩
    let batch : Batch := .set [batchEntry "a", batchEntry "b"]
    (batchTable.performBatch w batch).server.keyspace.setAt (ascii "T_KEY_SET") = some {ascii "a"} ∧
      (batch.singles.foldl batchTable.performSingle w).server.keyspace.setAt (ascii "T_KEY_SET") =
        some {ascii "a", ascii "b"} := by
  decide +kernel

end SwssCommon.ProducerStateTable
