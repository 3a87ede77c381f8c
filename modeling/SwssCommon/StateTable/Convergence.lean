import SwssCommon.Lib.Run
import SwssCommon.StateTable.Refinement

/-! # State tables converge

Producers and consumers call atomic scripts. In any order, the table read through its buffer is the
one the producers would have written directly, and an empty key set means that nothing is buffered.
-/

namespace SwssCommon.StateTable

open Bytes Redis Script ProducerStateTable

inductive Call where
  | set (p : ProducerStateTable) (key : Bytes) (values : List FieldValueTuple)
  | del (p : ProducerStateTable) (key : Bytes)
  | batchedSet (p : ProducerStateTable) (values : List KeyOpFieldsValuesTuple)
  | batchedDel (p : ProducerStateTable) (keys : List Bytes)
  | pops (c : ConsumerStateTable) (choice : SpopChoice)

/-- The batched scripts assemble the names of all keys alike; the single-key calls name the empty
    key differently. -/
inductive Step (t : TableBase) : Server → Call → Server → Prop where
  | set {p : ProducerStateTable} {key : Bytes} {values : List FieldValueTuple} {s : Server} :
      p.toTableBase = t → key ≠ [] → Step t s (.set p key values) (p.set key values s).2
  | del {p : ProducerStateTable} {key : Bytes} {s : Server} :
      p.toTableBase = t → key ≠ [] → Step t s (.del p key) (p.del key s).2
  | batchedSet {p : ProducerStateTable} {values : List KeyOpFieldsValuesTuple} {s : Server} :
      p.toTableBase = t → Step t s (.batchedSet p values) (p.batchedSet values s).2
  | batchedDel {p : ProducerStateTable} {keys : List Bytes} {s : Server} :
      p.toTableBase = t → Step t s (.batchedDel p keys) (p.batchedDel keys s).2
  | pops {c : ConsumerStateTable} {choice : SpopChoice} {s : Server} :
      c.toTableBase = t → 1 ≤ c.POP_BATCH_SIZE → Step t s (.pops c choice) (c.pops choice s).2

/-! ## Writing without a buffer -/

def mergeFields (main : Bytes → Hash) (key : Bytes) (values : List FieldValueTuple) :
    Bytes → Hash :=
  Function.update main key (main key * Hash.ofFields values)

def removeKey (main : Bytes → Hash) (key : Bytes) : Bytes → Hash :=
  Function.update main key 1

/-- What a call would do to a main table without any buffering. -/
def Call.direct (main : Bytes → Hash) : Call → Bytes → Hash
  | .set _ key values => mergeFields main key values
  | .del _ key => removeKey main key
  | .batchedSet _ values =>
    values.foldl (fun main value => mergeFields main value.kfvKey value.kfvFieldsValues) main
  | .batchedDel _ keys => keys.foldl removeKey main
  | .pops _ _ => main

def direct (base : Bytes → Hash) (calls : List Call) : Bytes → Hash :=
  calls.foldl Call.direct base

/-! ## Every call keeps the table converging -/

theorem effective_batch (st : StateStore) (values : List KeyOpFieldsValuesTuple) :
    (st.mergeAll (batch values)).effective =
      values.foldl (fun main value => mergeFields main value.kfvKey value.kfvFieldsValues)
        st.effective := by
  rw [WriteBehind.effective_mergeAll, batch, List.foldl_map]
  rfl

variable {s : Server} {st : StateStore}

/-- A pop settles some keys of the key set; none if the consumer's name is cut off at a NUL. -/
theorem pops_settles {c : ConsumerStateTable} (choice : SpopChoice)
    (h : Shows c.toTableBase s.keyspace st) :
    ∃ ks, (∀ k ∈ ks, k ∈ st.dirty) ∧
      Shows c.toTableBase (c.pops choice s).2.keyspace (st.settleAll ks) := by
  by_cases nul : 0 ∈ c.tableName
  · exact ⟨[], by simp, ConsumerStateTable.pops_foreign choice nul s h⟩
  · obtain ⟨vkco, s', ran, -, after⟩ := ConsumerStateTable.pops_ensures choice nul h
    refine ⟨_, (choice.reply st.dirty c.POP_BATCH_SIZE).subset, ?_⟩
    simpa only [ran] using after.shown

def Call.Takes (st st' : StateStore) : Call → Prop
  | .set _ key values => st' = st.merge key (Hash.ofFields values)
  | .del _ key => st' = st.remove key
  | .batchedSet _ values => st' = st.mergeAll (batch values)
  | .batchedDel _ keys => st' = st.removeAll keys
  | .pops _ _ => ∃ ks, (∀ k ∈ ks, k ∈ st.dirty) ∧ st' = st.settleAll ks

variable {t : TableBase} {call : Call}

theorem Step.takes {s'} (shown : Shows t s.keyspace st) (taken : Step t s call s') :
    ∃ st', Shows t s'.keyspace st' ∧ call.Takes st st' := by
  cases taken with
  | @set p key values s here nonempty =>
    subst here
    exact ⟨_, (set_ensures nonempty values shown).finalState.shown, rfl⟩
  | @del p key s here nonempty =>
    subst here
    exact ⟨_, (del_ensures nonempty shown).finalState.shown, rfl⟩
  | @batchedSet p values s here =>
    subst here
    exact ⟨_, (batchedSet_ensures values shown).finalState.shown, rfl⟩
  | @batchedDel p keys s here =>
    subst here
    exact ⟨_, (batchedDel_ensures keys shown).finalState.shown, rfl⟩
  | @pops c choice s here batch =>
    subst here
    obtain ⟨ks, dirty, settled⟩ := pops_settles choice shown
    exact ⟨_, settled, ks, dirty, rfl⟩

theorem Step.simulates {s'} (shown : Shows t s.keyspace st) (taken : Step t s call s') :
    ∃ st', Shows t s'.keyspace st' ∧ st'.effective = call.direct st.effective ∧
      (st.Announced → st'.Announced) := by
  obtain ⟨st', shown', takes⟩ := taken.takes shown
  refine ⟨st', shown', ?_⟩
  cases call with
  | set p key values =>
    obtain rfl := takes
    exact ⟨st.effective_merge _ _, fun h => h.merge _ _⟩
  | del p key =>
    obtain rfl := takes
    exact ⟨st.effective_remove _, fun h => h.remove _⟩
  | batchedSet p values =>
    obtain rfl := takes
    exact ⟨effective_batch st values, fun h => h.mergeAll _⟩
  | batchedDel p keys =>
    obtain rfl := takes
    exact ⟨st.effective_removeAll keys, fun h => h.removeAll _⟩
  | pops c choice =>
    obtain ⟨ks, -, rfl⟩ := takes
    exact ⟨st.effective_settleAll ks, fun h => h.settleAll ks⟩

/-- Read through its buffer the table is the direct one, and buffered work is
    announced in the key set. -/
def Converging (t : TableBase) (base : Bytes → Hash) (calls : List Call) (s : Server) : Prop :=
  ∃ st, Shows t s.keyspace st ∧ st.effective = direct base calls ∧ st.Announced

theorem Converging.step {base calls s'}
    (h : Converging t base calls s) (taken : Step t s call s') :
    Converging t base (calls ++ [call]) s' := by
  obtain ⟨st, shown, same, announced⟩ := h
  obtain ⟨st', shown', moved, announces⟩ := taken.simulates shown
  refine ⟨st', shown', ?_, announces announced⟩
  simp only [moved, same, direct, List.foldl_append, List.foldl_cons, List.foldl_nil]

/-- The table read through its buffer is the directly written one; once the key set is empty the
    main table itself is, and nothing stays buffered. -/
theorem convergence {t : TableBase} {base : Bytes → Hash} {calls : List Call} {s s' : Server}
    (start : Shows t s.keyspace (.ofBase base)) (run : Run (Step t) s calls s') :
    ∃ st, Shows t s'.keyspace st ∧
      (∀ k, (if k ∈ st.erased then st.delta k else st.base k * st.delta k) =
        direct base calls k) ∧
      (∀ k, st.delta k ≠ 1 ∨ k ∈ st.erased → k ∈ st.dirty) ∧
      (st.dirty = ∅ →
        st.base = direct base calls ∧ (∀ k, st.delta k = 1) ∧ st.erased = ∅) := by
  have initially : Converging t base [] s :=
    ⟨_, start, WriteBehind.effective_ofBase base, WriteBehind.announced_ofBase base⟩
  obtain ⟨st, shown, same, announced⟩ :=
    run.invariant (I := Converging t base) initially fun h taken => h.step taken
  refine ⟨st, shown, congrFun same, announced, ?_⟩
  intro idle
  obtain ⟨main, clean, unbuffered⟩ := announced.quiescent idle
  exact ⟨main.trans same, congrFun unbuffered, clean⟩

/-- A key is written, dropped and written again before a consumer of batch size
    one gets to it. -/
theorem convergence_set_del_set_pop :
    let t : TableBase := ⟨ascii "PORT_TABLE", .colon⟩
    let p : ProducerStateTable := ⟨t, 0, false, false⟩
    let c : ConsumerStateTable := ⟨t, 1⟩
    let calls : List Call := [.set p (ascii "Ethernet0") [(ascii "mtu", ascii "9100")],
      .del p (ascii "Ethernet0"), .set p (ascii "Ethernet0") [], .pops c .listed]
    ∃ s' st, Run (Step t) ⟨∅, []⟩ calls s' ∧ Shows t s'.keyspace st ∧
      ∀ k, (if k ∈ st.erased then st.delta k else st.base k * st.delta k) =
        direct (fun _ => 1) calls k := by
  intro t p c calls
  have run : Run (Step t) ⟨∅, []⟩ calls _ :=
    .cons (.set rfl (by decide)) (.cons (.del rfl (by decide))
      (.cons (.set rfl (by decide)) (.single (.pops rfl le_rfl))))
  obtain ⟨st, shown, same, -⟩ := convergence (shows_empty t) run
  exact ⟨_, st, run, shown, same⟩

end SwssCommon.StateTable
