import SwssCommon.Consumer.Machine
import SwssCommon.StateTable.ViewSwitch

/-! # What the scripts do to the key set

Wake-ups are counted against the key set alone. A producer's scripts add keys to it, and announce
this, or drop all of it; a pop takes up to a batch of keys off it silently.
-/

namespace SwssCommon

open Bytes Redis Script Keyspace

/-- The names a table uses hold what its scripts expect there. -/
structure Ready (t : TableBase) (ks : Keyspace) (st : StateStore) : Prop where
  shown : Shows t ks st
  bare : ∃ h, ks.hashAt (t.bufferName []) = some h

theorem ready_empty (t : TableBase) : Ready t ∅ (.ofBase fun _ => 1) := ⟨shows_empty t, 1, rfl⟩

theorem Ready.of_elsewhere {t} {s s' : Server} {st st'}
    (h : Ready t s.keyspace st) (shown : Shows t s'.keyspace st')
    (elsewhere : ∀ name, t.Foreign name → s'.keyspace[name]? = s.keyspace[name]?) :
    Ready t s'.keyspace st' := by
  obtain ⟨-, value, holds⟩ := h
  refine ⟨shown, value, ?_⟩
  rw [hashAt, elsewhere _ t.foreign_bufferName_nil]
  exact holds

namespace ProducerStateTable

variable {p : ProducerStateTable} {s s' : Server} {st : StateStore}

/-- The server after a script of `p` added these keys to the key set. -/
def Adds (p : ProducerStateTable) (s : Server) (st : StateStore) (keys : List Bytes)
    (s' : Server) : Prop :=
  ∃ st', Ready p.toTableBase s'.keyspace st' ∧ st'.dirty = st.dirty ∪ keys.toFinset ∧
    s'.published = s.published ++ p.announcement (st'.dirty.card - st.dirty.card)

theorem Produced.adds {after keys} (h : Ready p.toTableBase s.keyspace st)
    (produced : p.Produced s st after s') (dirty : after.dirty = st.dirty ∪ keys.toFinset) :
    p.Adds s st keys s' :=
  ⟨after, h.of_elsewhere produced.shown produced.elsewhere, dirty, produced.published⟩

private theorem insert_eq_union (members : Finset Bytes) (key : Bytes) :
    insert key members = members ∪ [key].toFinset := by
  simp

theorem set_adds (key : Bytes) (values : List FieldValueTuple)
    (h : Ready p.toTableBase s.keyspace st) : p.Adds s st [key] (p.set key values s).2 := by
  by_cases empty : key = []
  · subst empty
    obtain ⟨value, bare⟩ := h.bare
    obtain ⟨shown, bare', published⟩ := (set_nil_ensures values h.shown bare).finalState
    exact ⟨_, ⟨shown, _, bare'⟩, insert_eq_union _ _, published⟩
  · have produced := (set_ensures empty values h.shown).finalState
    exact produced.adds h (insert_eq_union _ _)

theorem del_adds (key : Bytes) (h : Ready p.toTableBase s.keyspace st) :
    p.Adds s st [key] (p.del key s).2 := by
  by_cases empty : key = []
  · subst empty
    obtain ⟨shown, bare, published⟩ := (del_nil_ensures h.shown).finalState
    exact ⟨_, ⟨shown, _, bare⟩, insert_eq_union _ _, published⟩
  · have produced := (del_ensures empty h.shown).finalState
    exact produced.adds h (insert_eq_union _ _)

theorem batchedSet_adds (values : List KeyOpFieldsValuesTuple)
    (h : Ready p.toTableBase s.keyspace st) :
    p.Adds s st (values.map (·.kfvKey)) (p.batchedSet values s).2 := by
  refine (batchedSet_ensures values h.shown).finalState.adds h ?_
  rw [WriteBehind.dirty_mergeAll, batch, List.map_map]
  rfl

theorem batchedDel_adds (keys : List Bytes) (h : Ready p.toTableBase s.keyspace st) :
    p.Adds s st keys (p.batchedDel keys s).2 :=
  (batchedDel_ensures keys h.shown).finalState.adds h (WriteBehind.dirty_removeAll st keys)

theorem applyView_adds (diff : ViewDiff) (h : Ready p.toTableBase s.keyspace st) :
    Ensures (p.applyView diff) s fun _ s' => ∃ st', Ready p.toTableBase s'.keyspace st' ∧
      st'.dirty = st.dirty ∪ diff.keysToSet.toFinset ∧
      s'.published = s.published ++ [(p.getChannelName p.dbId, ascii "G")] := by
  have filed := ((Silent.refl h.shown).writeKeySet
    (Value.set?_ofSet (st.dirty ∪ diff.keysToSet.toFinset))).writeDelSet
    (Value.set?_ofSet (st.erased ∪ diff.keysToDel.toFinset))
  refine (applyView_writes (fun _ s' => s'.published = s.published ∧
    ∃ st', Ready p.toTableBase s'.keyspace st' ∧ st'.dirty = st.dirty ∪ diff.keysToSet.toFinset)
    h.shown.keySet h.shown.delSet ⟨rfl, _, h.of_elsewhere filed.shown filed.elsewhere, rfl⟩
      ?_).mono ?_
  · rintro seen ⟨key, fields⟩ s' - ⟨quiet, st', ready, dirty⟩
    by_cases empty : key = []
    · subst empty
      obtain ⟨value, bare⟩ := ready.bare
      refine ⟨value, bare, quiet, st',
        ⟨ready.shown.writeForeign p.foreign_bufferName_nil _, value * fields, ?_⟩, dirty⟩
      rw [Server.write_keyspace, hashAt_write_ofHash]
    · rw [p.bufferName_of_ne_nil empty]
      have next := (Silent.refl ready.shown).writePending key
        (Value.hash?_ofHash (st'.delta key * fields))
      exact ⟨_, ready.shown.pending key, quiet, _, ready.of_elsewhere next.shown next.elsewhere,
        dirty⟩
  · rintro _ s' ⟨s₁, ⟨quiet, st', ready, dirty⟩, rfl⟩
    exact ⟨st', ready, dirty, by simp [quiet]⟩

private theorem hashAt_of_dropped {ks ks' : Keyspace} {name h}
    (holds : ks.hashAt name = some h) (dropped : ks'[name]? = none ∨ ks'[name]? = ks[name]?) :
    ∃ h', ks'.hashAt name = some h' := by
  rcases dropped with gone | same
  · exact ⟨1, by rw [hashAt, gone]; rfl⟩
  · exact ⟨h, by rw [hashAt, same]; exact holds⟩

theorem clear_empties (h : Ready p.toTableBase s.keyspace st) :
    ∃ st', Ready p.toTableBase (p.clear s).2.keyspace st' ∧ st'.dirty = ∅ ∧
      (p.clear s).2.published = s.published := by
  obtain ⟨quiet, dropped⟩ := (p.clear_drops s).finalState
  have content : ∀ name : Bytes, (p.clear s).2.keyspace[name]? = none ∨
      (p.clear s).2.keyspace[name]? = s.keyspace[name]? := by
    intro name
    rw [dropped]
    split
    · exact .inl rfl
    · exact .inr rfl
  choose delta pending using fun k => hashAt_of_dropped (h.shown.pending k)
    (content (p.pendingName k))
  choose base main using fun k => hashAt_of_dropped (h.shown.main k) (content (p.mainName k))
  obtain ⟨value, bare⟩ := h.bare
  refine ⟨⟨∅, ∅, delta, base⟩, ⟨⟨?_, ?_, pending, main⟩, hashAt_of_dropped bare (content _)⟩, rfl,
    quiet⟩
  · rw [setAt, dropped, if_pos (.inl rfl)]
    rfl
  · rw [setAt, dropped, if_pos (.inr (.inl rfl))]
    rfl

end ProducerStateTable

/-! ## The consumer -/

namespace ConsumerStateTable

variable {c : ConsumerStateTable} {s : Server} {st : StateStore}

theorem pops_takes (choice : SpopChoice) (nulFree : 0 ∉ c.tableName)
    (h : Ready c.toTableBase s.keyspace st) :
    Ensures (c.pops choice) s fun vkco s' =>
      vkco.length = min st.dirty.card c.POP_BATCH_SIZE ∧ s'.published = s.published ∧
        ∃ st', Ready c.toTableBase s'.keyspace st' ∧
          st'.dirty.card = st.dirty.card - c.POP_BATCH_SIZE := by
  refine (pops_ensures choice nulFree h.shown).mono ?_
  rintro vkco s' ⟨rfl, after⟩
  have reply := choice.reply st.dirty c.POP_BATCH_SIZE
  have subset : (choice.pick st.dirty c.POP_BATCH_SIZE).toFinset ⊆ st.dirty :=
    fun k member => reply.subset k (List.mem_toFinset.mp member)
  refine ⟨by rw [List.length_map, reply.length, Nat.min_comm], after.quiet, _,
    h.of_elsewhere after.shown after.elsewhere, ?_⟩
  rw [WriteBehind.dirty_settleAll, Finset.card_sdiff_of_subset subset,
    List.toFinset_card_of_nodup reply.nodup, reply.length]
  omega

def program (c : ConsumerStateTable) (dbId : Nat) : List Instruction :=
  [.watch (ascii "WATCH " ++ c.getKeySetName), .multi, .enqueue (ascii "SCARD " ++ c.getKeySetName),
    .subscribe (ascii "SUBSCRIBE " ++ c.getChannelName dbId)]

/-- A consumer of the database `dbId`. -/
def consumer (c : ConsumerStateTable) (dbId : Nat) : Consumer where
  program := c.program dbId
  initialLength := id
  Pops s out := ∃ choice, out = match c.pops choice s with
    | (.ok vkco, s') => ⟨vkco, false, s'⟩
    | (.error _, s') => ⟨[], true, s'⟩

end ConsumerStateTable

end SwssCommon
