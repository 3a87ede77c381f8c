import SwssCommon.StateTable.Convergence

/-! # What a consumer is told about a key

A consumer takes an empty pending hash for a delete, and anything else for a set, so the two are
told apart only where every set carries a field.
-/

namespace SwssCommon.StateTable

open Bytes Redis Script Hash ConsumerStateTable

def Call.SetsNothing (k : Bytes) : Call → Prop
  | .set _ key values => key = k ∧ values = []
  | .batchedSet _ values => ∃ value ∈ values, value.kfvKey = k ∧ value.kfvFieldsValues = []
  | .del _ _ | .batchedDel _ _ | .pops _ _ => False

theorem Call.Takes.accounted {call : Call} {st st' k}
    (takes : call.Takes st st') (sets : ¬ call.SetsNothing k) (h : st.Accounted k) :
    st'.Accounted k := by
  cases call with
  | set p key values =>
    obtain rfl := takes
    exact h.merge fun same => mul_ofFields_ne_one fun none => sets ⟨same, none⟩
  | del p key =>
    obtain rfl := takes
    exact h.remove key
  | batchedSet p values =>
    obtain rfl := takes
    refine h.mergeAll fun e member same => ?_
    obtain ⟨value, listed, rfl⟩ := List.mem_map.mp member
    exact mul_ofFields_ne_one fun none => sets ⟨value, listed, same, none⟩
  | batchedDel p keys =>
    obtain rfl := takes
    exact h.removeAll keys
  | pops c choice =>
    obtain ⟨ks, -, rfl⟩ := takes
    exact h.settleAll ks

theorem accounted {t base calls s s'}
    (start : Shows t s.keyspace (.ofBase base)) (run : Run (Step t) s calls s') :
    ∃ st, Shows t s'.keyspace st ∧
      ∀ k, (∀ call ∈ calls, ¬ call.SetsNothing k) → st.Accounted k := by
  refine run.invariant (I := fun calls s => ∃ st, Shows t s.keyspace st ∧
    ∀ k, (∀ call ∈ calls, ¬ call.SetsNothing k) → st.Accounted k) ?_ ?_
  · exact ⟨_, start, fun k _ => .ofBase base k⟩
  · rintro calls s call s' ⟨st, shown, explained⟩ taken
    obtain ⟨st', shown', takes⟩ := taken.takes shown
    refine ⟨st', shown', fun k never => takes.accounted (never call (by simp)) ?_⟩
    exact explained k fun earlier member => never earlier (by simp [member])

theorem toTuple_cases (k : Bytes) (pending : Hash) :
    (pending = 1 ∧ toTuple (k, pending.toList) = ⟨k, DEL_COMMAND, []⟩) ∨
      (pending.toList ≠ [] ∧
        toTuple (k, pending.toList) = ⟨k, SET_COMMAND, pending.toList⟩) := by
  by_cases empty : pending.toList = []
  · refine .inl ⟨?_, by simp [toTuple, empty]⟩
    rw [← ofFields_toList pending, empty, ofFields_nil]
  · exact .inr ⟨empty, by simp [toTuple, empty]⟩

variable {t : TableBase} {base : Bytes → Hash} {calls : List Call} {s s' : Server}
  {c : ConsumerStateTable}

/-- Right after the script of `pops` the fields of every set it returns are in the main table, and
    the entry of a delete is gone if its key was never set to nothing. -/
theorem honest_reports (choice : SpopChoice) (start : Shows t s.keyspace (.ofBase base))
    (run : Run (Step t) s calls s') (here : c.toTableBase = t)
    (nulFree : (0 : UInt8) ∉ t.tableName) :
    ∃ vkco s'', c.pops choice s' = (.ok vkco, s'') ∧ ∀ kco ∈ vkco,
      (kco.kfvOp = SET_COMMAND → ∃ entry : Hash,
        s''.keyspace.hashAt (t.mainName kco.kfvKey) = some entry ∧ entry ≠ 1 ∧
          ∀ fv ∈ kco.kfvFieldsValues, entry[fv.1]? = some fv.2) ∧
      (kco.kfvOp = DEL_COMMAND → (∀ call ∈ calls, ¬ call.SetsNothing kco.kfvKey) →
        t.mainName kco.kfvKey ∉ s''.keyspace) := by
  subst here
  obtain ⟨st, shown, explained⟩ := accounted start run
  obtain ⟨vkco, s'', ran, rfl, after⟩ := pops_ensures choice nulFree shown
  refine ⟨_, s'', ran, fun kco member => ?_⟩
  obtain ⟨k, picked, rfl⟩ := List.mem_map.mp member
  have dirty := (choice.reply st.dirty c.POP_BATCH_SIZE).subset k picked
  have main := after.shown.main k
  rw [st.base_settleAll_of_mem picked] at main
  have different : SET_COMMAND ≠ DEL_COMMAND := by decide
  obtain ⟨unchanged, dels⟩ | ⟨changed, sets⟩ := toTuple_cases k (st.delta k)
  · rw [dels]
    refine ⟨fun isSet => (different isSet.symm).elim, fun _ never => ?_⟩
    have gone := (explained k (by simpa [dels] using never)).effective_eq_one dirty unchanged
    rw [Keyspace.mem_iff_of_hashAt main]
    exact fun present => present gone
  · rw [sets]
    refine ⟨fun _ => ⟨_, main, ?_, ?_⟩, fun isDel => (different isDel).elim⟩
    · obtain ⟨a, written⟩ := st.effective_eq_mul k
      rw [written, ← ofFields_toList (st.delta k)]
      exact mul_ofFields_ne_one changed a
    · intro fv listed
      obtain ⟨a, written⟩ := st.effective_eq_mul k
      have found := Std.ExtTreeMap.mem_toList_iff_getElem?_eq_some.mp listed
      rw [written, getElem?_mul, found, Option.some_or]

theorem pops_only {st k} (choice : SpopChoice)
    (nulFree : 0 ∉ c.tableName) (batch : 1 ≤ c.POP_BATCH_SIZE)
    (shown : Shows c.toTableBase s.keyspace st) (only : st.dirty = {k}) :
    ∃ s', c.pops choice s = (.ok [toTuple (k, (st.delta k).toList)], s') ∧
      Shows c.toTableBase s'.keyspace (st.settle k) := by
  obtain ⟨vkco, s', ran, rfl, after⟩ := pops_ensures choice nulFree shown
  have reply := choice.reply st.dirty c.POP_BATCH_SIZE
  have picked : choice.pick st.dirty c.POP_BATCH_SIZE = [k] := by
    rw [only] at reply ⊢
    have length := reply.length
    rw [Finset.card_singleton, Nat.min_eq_right batch] at length
    obtain ⟨j, one⟩ := List.length_eq_one_iff.mp length
    have member := reply.subset j (by simp [one])
    rw [one, Finset.mem_singleton.mp member]
  rw [picked] at ran after
  exact ⟨s', ran, after.shown⟩

private def neighTable : TableBase := ⟨ascii "NEIGH_TABLE", .colon⟩

private def neighProducer : ProducerStateTable := ⟨neighTable, 0, false, false⟩

private def neighConsumer : ConsumerStateTable := ⟨neighTable, 128⟩

private def neighbor : Bytes := ascii "Vlan1000:10.0.0.1"

private def family : Hash := ofFields [(ascii "family", ascii "IPv4")]

private def neighServer : Server :=
  ⟨(∅ : Keyspace).write (neighTable.mainName neighbor) (Value.ofHash family), []⟩

private def neighStore : StateStore := .ofBase (Function.update (fun _ => 1) neighbor family)

private theorem neighServer_shows : Shows neighTable neighServer.keyspace neighStore :=
  (shows_empty _).writeMain (Value.hash?_ofHash family)

/-- The neighbor is deleted, and its consumer finds it gone. -/
theorem honest_reports_del :
    ∃ s' s'', Run (Step neighTable) neighServer [.del neighProducer neighbor] s' ∧
      neighConsumer.pops .listed s' = (.ok [⟨neighbor, DEL_COMMAND, []⟩], s'') ∧
      neighTable.mainName neighbor ∉ s''.keyspace := by
  have taken : Step neighTable neighServer (.del neighProducer neighbor)
      (neighProducer.del neighbor neighServer).2 := .del rfl (by decide)
  have shown : Shows neighConsumer.toTableBase (neighProducer.del neighbor neighServer).2.keyspace
      (neighStore.remove neighbor) :=
    (ProducerStateTable.del_ensures (p := neighProducer) (by decide)
      neighServer_shows).finalState.shown
  obtain ⟨s'', popped, -⟩ := pops_only .listed (by decide) (by decide) shown rfl
  have deleted : toTuple
      (neighbor, ((neighStore.remove neighbor).delta neighbor).toList) =
        ⟨neighbor, DEL_COMMAND, []⟩ := by decide
  rw [deleted] at popped
  obtain ⟨vkco, s₂, ran, reports⟩ := honest_reports (c := neighConsumer) .listed
    neighServer_shows (.single taken) rfl (by decide)
  obtain ⟨same, rfl⟩ := Prod.mk.inj (popped.symm.trans ran)
  refine ⟨_, s'', .single taken, popped, ?_⟩
  refine (reports _ (Except.ok.inj same ▸ List.mem_singleton_self _)).2 rfl fun call member => ?_
  rw [List.mem_singleton.mp member]
  exact id

/-- The neighbor is set to nothing. Its consumer is told that it was deleted, and its
    entry is still there. -/
theorem dishonest_report :
    ∃ s' s'', Shows neighTable neighServer.keyspace neighStore ∧
      Run (Step neighTable) neighServer [.set neighProducer neighbor []] s' ∧
      neighConsumer.pops .listed s' = (.ok [⟨neighbor, DEL_COMMAND, []⟩], s'') ∧
      neighTable.mainName neighbor ∈ s''.keyspace := by
  have taken : Step neighTable neighServer (.set neighProducer neighbor [])
      (neighProducer.set neighbor [] neighServer).2 := .set rfl (by decide)
  have shown : Shows neighConsumer.toTableBase
      (neighProducer.set neighbor [] neighServer).2.keyspace
      (neighStore.merge neighbor (ofFields [])) :=
    (ProducerStateTable.set_ensures (p := neighProducer) (by decide) []
      neighServer_shows).finalState.shown
  obtain ⟨s'', popped, after⟩ := pops_only .listed (by decide) (by decide) shown rfl
  have deleted : toTuple
      (neighbor, ((neighStore.merge neighbor (ofFields [])).delta neighbor).toList) =
        ⟨neighbor, DEL_COMMAND, []⟩ := by decide
  rw [deleted] at popped
  refine ⟨_, s'', neighServer_shows, .single taken, popped, ?_⟩
  exact (Keyspace.mem_iff_of_hashAt (after.main neighbor)).mpr (by decide)

end SwssCommon.StateTable
