import SwssCommon.StateTable.View

/-! # What each script does to the table

On a keyspace that shows a store every script completes, the new keyspace shows the store after the
abstract operation, and the channel gets at most one message.
-/

namespace SwssCommon

open Bytes Redis Script List Option Keyspace Hash Value WriteBehind TableBase Ensures

namespace ProducerStateTable

variable {p : ProducerStateTable} {s : Server} {st : StateStore}

/-- The message of a script that added this many keys to the key set. -/
def announcement (p : ProducerStateTable) (added : Nat) : List (Bytes × Bytes) :=
  if p.publishes ∧ 0 < added then [(p.getChannelName p.dbId, ascii "G")] else []

/-- The server after a script of `p` took the table from `before` to `after`. -/
structure Produced (p : ProducerStateTable) (s : Server) (before after : StateStore)
    (s' : Server) : Prop where
  shown : Shows p.toTableBase s'.keyspace after
  published : s'.published = s.published ++ p.announcement (after.dirty.card - before.dirty.card)
  elsewhere : ∀ name, p.Foreign name → s'.keyspace[name]? = s.keyspace[name]?

theorem luaPub_ensures {KEYS ARGV added Q}
    (channel : KEYS[0]? = some (p.getChannelName p.dbId)) (message : ARGV[0]? = some (ascii "G"))
    (post : Q () { s with published := s.published ++ p.announcement added }) :
    Ensures (luaPub p.publishes added KEYS ARGV) s Q := by
  unfold luaPub
  by_cases talks : p.publishes
  · by_cases new : added > 0
    · simp only [talks, new]
      apply argument (j := 0) rfl channel
      apply argument (j := 0) rfl message
      apply publish_ensures
      simpa [announcement, talks, new] using post
    · simp only [talks, new]
      apply Ensures.pure
      simpa [announcement, new] using post
  · simp only [talks]
    apply Ensures.pure
    simpa [announcement, talks] using post

private theorem card_insert_sub (members : Finset Bytes) (k : Bytes) :
    (insert k members).card - members.card = if k ∈ members then 0 else 1 := by
  split
  · rename_i present
    simp [Finset.insert_eq_of_mem present]
  · rename_i absent
    simp [Finset.card_insert_of_notMem absent]

/-- The fields are assigned to the hash at `name`, which stays alone if there are none. -/
def putFields (ks : Keyspace) (name : Bytes) (values : List FieldValueTuple) : Keyspace :=
  if values = [] then ks
  else ks.write name (ofHash ((ks.hashAt name).getD 1 * ofFields values))

variable {h : Hash}

theorem putFields_of_hashAt {ks name} (found : ks.hashAt name = some h)
    (values : List FieldValueTuple) :
    putFields ks name values = ks.write name (ofHash (h * ofFields values)) := by
  by_cases none : values = []
  · simp [putFields, none, ofFields_nil, ← getElem?_of_hashAt found, write_getElem?]
  · simp [putFields, none, found]

theorem fieldLoop_ensures (name : Bytes) {values first}
    {body}
    (hash : values ≠ [] → (s.keyspace.hashAt name).isSome)
    (round : ∀ i iv s' Q, values[i]? = some iv →
      Ensures (hset name iv.1 iv.2) s' (fun _ => Q ()) → Ensures (body (first + i) ()) s' Q) :
    Ensures (foldRange first values.length () body) s fun _ s' =>
      s' = ⟨putFields s.keyspace name values, s.published⟩ := by
  by_cases none : values = []
  · subst none
    exact .pure rfl
  · obtain ⟨h, found⟩ := isSome_iff_exists.mp (hash none)
    refine (hsetLoop_ensures found round).mono fun _ s' after => ?_
    rw [after, putFields_of_hashAt found]
    rfl

variable {key : Bytes} {members : Finset Bytes}

theorem set_puts (values : List FieldValueTuple)
    (keySet : s.keyspace.setAt p.getKeySetName = some members)
    (different : p.getKeySetName ≠ p.bufferName key)
    (hash : values ≠ [] → (s.keyspace.hashAt (p.bufferName key)).isSome) :
    Ensures (p.set key values) s fun _ s' =>
      s' = ⟨putFields (s.keyspace.write p.getKeySetName (ofSet (insert key members)))
          (p.bufferName key) values,
        s.published ++ p.announcement (if key ∈ members then 0 else 1)⟩ := by
  unfold set
  rw [append_assoc]
  apply evalsha_ensures ([p.getChannelName p.dbId, p.getKeySetName] ++
    replicate values.length (p.bufferName key)) _ (by simp)
  refine .argument (j := 1) rfl rfl (.argument (j := 1) rfl rfl ?_)
  refine .bind (sadd_ensures keySet (.bind ?_))
  rw [show ([p.getChannelName p.dbId, p.getKeySetName] ++
    replicate values.length (p.bufferName key)).length - 2 = values.length by simp]
  refine mono ?_ (fieldLoop_ensures (p.bufferName key) (fun some => ?_) ?_)
  · rintro _ s' rfl
    exact luaPub_ensures rfl rfl rfl
  · rw [hashAt, Server.write_keyspace, getElem?_write_of_ne different]
    exact hash some
  · intro i iv s' Q found assigned
    have inValues : i < values.length := (List.getElem?_eq_some_iff.mp found).1
    obtain ⟨field, value⟩ := flatten_getElem? found
    refine .argument (j := i + 2) (a := p.bufferName key) (by omega)
      (by simp [inValues]) ?_
    refine .argument (j := i * 2 + 2) (a := iv.1) (by omega)
      (by simpa using field) ?_
    refine .argument (j := i * 2 + 1 + 2) (a := iv.2) (by omega)
      (by simpa using value) ?_
    exact .bind (assigned.mono fun _ _ post => .pure post)

theorem set_writes (values : List FieldValueTuple)
    (keySet : s.keyspace.setAt p.getKeySetName = some members)
    (different : p.getKeySetName ≠ p.bufferName key)
    (buffer : s.keyspace.hashAt (p.bufferName key) = some h) :
    Ensures (p.set key values) s fun _ s' =>
      s' = { (s.write p.getKeySetName (ofSet (insert key members))).write
          (p.bufferName key) (ofHash (h * ofFields values)) with
        published := s.published ++ p.announcement (if key ∈ members then 0 else 1) } := by
  refine (set_puts values keySet different fun _ => by rw [buffer]; rfl).mono fun _ s' after => ?_
  have buffered : (s.keyspace.write p.getKeySetName (ofSet (insert key members))).hashAt
      (p.bufferName key) = some h := by
    rw [hashAt, getElem?_write_of_ne different]
    exact buffer
  rw [after, putFields_of_hashAt buffered]
  rfl

theorem set_ensures (nonempty : key ≠ []) (values : List FieldValueTuple)
    (h : Shows p.toTableBase s.keyspace st) :
    Ensures (p.set key values) s fun _ =>
      p.Produced s st (st.merge key (ofFields values)) := by
  have name := p.bufferName_of_ne_nil nonempty
  refine (set_writes values h.keySet (name ▸ (p.pendingName_ne_keySetName key).symm)
    (name ▸ h.pending key)).mono ?_
  rintro _ s' rfl
  rw [name]
  have after := ((Silent.refl h).writeKeySet (set?_ofSet (insert key st.dirty))).writePending
    key (hash?_ofHash (st.delta key * ofFields values))
  refine ⟨after.shown, ?_, after.elsewhere⟩
  simp only [WriteBehind.merge, card_insert_sub]

theorem set_nil_ensures (values : List FieldValueTuple) (shown : Shows p.toTableBase s.keyspace st)
    (buffer : s.keyspace.hashAt (p.bufferName []) = some h) :
    Ensures (p.set [] values) s fun _ s' =>
      Shows p.toTableBase s'.keyspace (st.merge [] 1) ∧
        s'.keyspace.hashAt (p.bufferName []) = some (h * ofFields values) ∧
        s'.published =
          s.published ++ p.announcement ((st.merge [] 1).dirty.card - st.dirty.card) := by
  have foreign := p.foreign_bufferName_nil
  refine (set_writes values shown.keySet foreign.keySet.symm buffer).mono ?_
  rintro _ s' rfl
  refine ⟨?_, ?_, ?_⟩
  · have after := (shown.writeKeySet (set?_ofSet (insert [] st.dirty))).writeForeign foreign
      (ofHash (h * ofFields values))
    simpa [WriteBehind.merge] using after
  · rw [Server.write_keyspace, hashAt_write_ofHash]
  · simp only [WriteBehind.merge, card_insert_sub]

theorem del_writes {erased}
    (keySet : s.keyspace.setAt p.getKeySetName = some members)
    (delSet : s.keyspace.setAt p.getDelKeySetName = some erased) :
    Ensures (p.del key) s fun _ s' =>
      s' = { ((s.write p.getKeySetName (ofSet (insert key members))).write
          p.getDelKeySetName (ofSet (insert key erased))).write
          (p.bufferName key) none with
        published := s.published ++ p.announcement (if key ∈ members then 0 else 1) } := by
  apply evalsha_ensures (n := 4) [p.getChannelName p.dbId, p.getKeySetName,
    p.bufferName key, p.getDelKeySetName] _ rfl
  refine .argument (j := 1) rfl rfl (.argument (j := 1) rfl rfl ?_)
  refine .bind (sadd_ensures keySet ?_)
  have marks : (s.write p.getKeySetName (ofSet (insert key members))).keyspace.setAt
      p.getDelKeySetName = some erased := by
    rw [setAt, Server.write_keyspace, getElem?_write_of_ne p.keySetName_ne_delKeySetName]
    exact delSet
  refine .argument (j := 3) rfl rfl (.argument (j := 1) rfl rfl ?_)
  refine .bind (sadd_ensures marks ?_)
  exact luaPub_ensures rfl rfl rfl

theorem del_ensures (nonempty : key ≠ []) (h : Shows p.toTableBase s.keyspace st) :
    Ensures (p.del key) s fun _ => p.Produced s st (st.remove key) := by
  refine (del_writes h.keySet h.delSet).mono ?_
  rintro _ s' rfl
  rw [p.bufferName_of_ne_nil nonempty]
  have after := (((Silent.refl h).writeKeySet (set?_ofSet (insert key st.dirty))).writeDelSet
    (set?_ofSet (insert key st.erased))).writePending key (v := none) (d := 1) rfl
  refine ⟨after.shown, ?_, after.elsewhere⟩
  simp only [remove, card_insert_sub]

theorem del_nil_ensures (shown : Shows p.toTableBase s.keyspace st) :
    Ensures (p.del []) s fun _ s' =>
      Shows p.toTableBase s'.keyspace
          { st with dirty := insert [] st.dirty, erased := insert [] st.erased } ∧
        s'.keyspace.hashAt (p.bufferName []) = some 1 ∧
        s'.published =
          s.published ++ p.announcement ((insert [] st.dirty).card - st.dirty.card) := by
  refine (del_writes shown.keySet shown.delSet).mono ?_
  rintro _ s' rfl
  refine ⟨?_, ?_, ?_⟩
  · exact ((shown.writeKeySet (set?_ofSet (insert [] st.dirty))).writeDelSet
      (set?_ofSet (insert [] st.erased))).writeForeign
      p.foreign_bufferName_nil none
  · rw [hashAt, Server.write_keyspace, getElem?_write_self]
    rfl
  · simp only [card_insert_sub]

/-- The words of one entry of a batch: its field count and its fields. -/
private def entryWords (value : KeyOpFieldsValuesTuple) : List Bytes :=
  decimal value.kfvFieldsValues.length :: flatten value.kfvFieldsValues

def batch (values : List KeyOpFieldsValuesTuple) : List (Bytes × Hash) :=
  values.map fun value => (value.kfvKey, ofFields value.kfvFieldsValues)

def dirtyAt (p : ProducerStateTable) (ks : Keyspace) : Finset Bytes :=
  (ks.setAt p.getKeySetName).getD ∅

def addEntry (p : ProducerStateTable) (ks : Keyspace) (value : KeyOpFieldsValuesTuple) : Keyspace :=
  putFields (ks.write p.getKeySetName (ofSet (insert value.kfvKey (p.dirtyAt ks))))
    (p.pendingName value.kfvKey) value.kfvFieldsValues

def removeEntry (p : ProducerStateTable) (ks : Keyspace) (key : Bytes) : Keyspace :=
  ((ks.write p.getKeySetName (ofSet (insert key (p.dirtyAt ks)))).write
    p.getDelKeySetName (ofSet (insert key ((ks.setAt p.getDelKeySetName).getD ∅)))).write
    (p.pendingName key) none

/-- What `set` works on holds a set and hashes, or nothing. -/
structure Settable (p : ProducerStateTable) (ks : Keyspace)
    (values : List KeyOpFieldsValuesTuple) : Prop where
  keySet : (ks.setAt p.getKeySetName).isSome
  pending : ∀ value ∈ values, value.kfvFieldsValues ≠ [] →
    (ks.hashAt (p.pendingName value.kfvKey)).isSome

/-- What `del` works on holds sets, or nothing. The pending hashes may be anything. -/
structure Deletable (p : ProducerStateTable) (ks : Keyspace) : Prop where
  keySet : (ks.setAt p.getKeySetName).isSome
  delSet : (ks.setAt p.getDelKeySetName).isSome

section Entries

variable {ks : Keyspace} {value : KeyOpFieldsValuesTuple} {values : List KeyOpFieldsValuesTuple}
  {key : Bytes}

theorem getElem?_putFields_of_ne {name other} (different : name ≠ other)
    (fvs : List FieldValueTuple) : (putFields ks name fvs)[other]? = ks[other]? := by
  unfold putFields
  split
  · rfl
  · exact getElem?_write_of_ne different _ _

theorem setAt_addEntry (p : ProducerStateTable) (ks : Keyspace) (value : KeyOpFieldsValuesTuple) :
    (p.addEntry ks value).setAt p.getKeySetName = some (insert value.kfvKey (p.dirtyAt ks)) := by
  rw [setAt, addEntry, getElem?_putFields_of_ne (p.pendingName_ne_keySetName _),
    getElem?_write_self, set?_ofSet]

theorem dirtyAt_addEntry (p : ProducerStateTable) (ks : Keyspace) (value : KeyOpFieldsValuesTuple) :
    p.dirtyAt (p.addEntry ks value) = insert value.kfvKey (p.dirtyAt ks) := by
  rw [dirtyAt, setAt_addEntry, getD_some]

theorem setAt_removeEntry (p : ProducerStateTable) (ks : Keyspace) (key : Bytes) :
    (p.removeEntry ks key).setAt p.getKeySetName = some (insert key (p.dirtyAt ks)) ∧
      (p.removeEntry ks key).setAt p.getDelKeySetName =
        some (insert key ((ks.setAt p.getDelKeySetName).getD ∅)) := by
  constructor
  · rw [setAt, removeEntry, getElem?_write_of_ne (p.pendingName_ne_keySetName key),
      getElem?_write_of_ne p.keySetName_ne_delKeySetName.symm,
      getElem?_write_self, set?_ofSet]
  · rw [setAt, removeEntry, getElem?_write_of_ne (p.pendingName_ne_delKeySetName key),
      getElem?_write_self, set?_ofSet]

theorem dirtyAt_removeEntry (p : ProducerStateTable) (ks : Keyspace) (key : Bytes) :
    p.dirtyAt (p.removeEntry ks key) = insert key (p.dirtyAt ks) := by
  rw [dirtyAt, (setAt_removeEntry p ks key).1, getD_some]

theorem setAt_of_settable (settable : p.Settable ks values) :
    ks.setAt p.getKeySetName = some (p.dirtyAt ks) := by
  obtain ⟨members, found⟩ := isSome_iff_exists.mp settable.keySet
  rw [dirtyAt, found, getD_some]

theorem Settable.addEntry (settable : p.Settable ks values) (value : KeyOpFieldsValuesTuple) :
    p.Settable (p.addEntry ks value) values where
  keySet := by rw [setAt_addEntry]; rfl
  pending other member some := by
    by_cases same : p.pendingName value.kfvKey = p.pendingName other.kfvKey
    · rw [← same, hashAt, ProducerStateTable.addEntry, putFields]
      split
      · rw [getElem?_write_of_ne (p.pendingName_ne_keySetName _).symm, same]
        exact settable.pending other member some
      · rw [getElem?_write_self, hash?_ofHash]
        rfl
    · rw [hashAt, ProducerStateTable.addEntry, getElem?_putFields_of_ne same,
        getElem?_write_of_ne (p.pendingName_ne_keySetName _).symm]
      exact settable.pending other member some

theorem Deletable.removeEntry (p : ProducerStateTable) (ks : Keyspace) (key : Bytes) :
    p.Deletable (p.removeEntry ks key) where
  keySet := by rw [(setAt_removeEntry p ks key).1]; rfl
  delSet := by rw [(setAt_removeEntry p ks key).2]; rfl

theorem Settable.addEntries (settable : p.Settable ks values) (more : List KeyOpFieldsValuesTuple) :
    p.Settable (more.foldl p.addEntry ks) values := by
  induction more generalizing ks with
  | nil => exact settable
  | cons value more ih => exact ih (settable.addEntry value)

theorem Deletable.removeEntries (deletable : p.Deletable ks) (keys : List Bytes) :
    p.Deletable (keys.foldl p.removeEntry ks) := by
  induction keys generalizing ks with
  | nil => exact deletable
  | cons key keys ih => exact ih (Deletable.removeEntry p ks key)

end Entries

private theorem foldl_take_succ {α β : Type} (f : α → β → α) (a : α) {xs : List β} {i x}
    (found : xs[i]? = some x) :
    (xs.take (i + 1)).foldl f a = f ((xs.take i).foldl f a) x := by
  simp [take_add_one, found]

theorem batchedSet_writes (values : List KeyOpFieldsValuesTuple)
    (settable : values ≠ [] → p.Settable s.keyspace values) :
    Ensures (p.batchedSet values) s fun _ s' =>
      s' = ⟨values.foldl p.addEntry s.keyspace, s.published ++ p.announcement
        ((p.dirtyAt (values.foldl p.addEntry s.keyspace)).card - (p.dirtyAt s.keyspace).card)⟩ := by
  unfold batchedSet
  rw [append_assoc]
  let KEYS := [p.getChannelName p.dbId, p.getKeySetName,
    p.getStateHashPrefix ++ p.tableName ++ p.getTableNameSeparator] ++ values.map (·.kfvKey)
  let ARGV := [ascii "G"] ++ values.flatMap entryWords
  apply evalsha_ensures KEYS ARGV (by simp [KEYS])
  apply Ensures.bind
  rw [show KEYS.length - 3 = values.length by simp [KEYS]]
  -- after i rounds i entries are added and idx points at the next field count
  refine mono ?_ (foldRange_ensures (fun i (local_ : Nat × Nat) s' =>
    s' = ⟨(values.take i).foldl p.addEntry s.keyspace, s.published⟩ ∧
      (p.dirtyAt s.keyspace).card + local_.1 =
        (p.dirtyAt ((values.take i).foldl p.addEntry s.keyspace)).card ∧
      local_.2 = 2 + ((values.take i).flatMap entryWords).length) ⟨rfl, rfl, rfl⟩ ?_)
  · rintro ⟨added, idx⟩ s' ⟨rfl, counted, -⟩
    apply luaPub_ensures rfl rfl
    rw [Nat.zero_add, take_length] at counted ⊢
    simp only [← counted, Nat.add_sub_cancel_left]
  · rintro i ⟨added, idx⟩ s' - inside ⟨rfl, counted, position⟩
    have inValues : i < values.length := by omega
    obtain ⟨value, found⟩ : ∃ value, values[i]? = some value := ⟨_, getElem?_eq_getElem inValues⟩
    have key : KEYS[i + 3]? = some value.kfvKey := by simp [KEYS, found]
    have word : ∀ {j w}, (entryWords value)[j]? = some w →
        ARGV[((values.take i).flatMap entryWords).length + j + 1]? = some w := by
      intro j w atWord
      simpa [ARGV] using flatMap_getElem? entryWords found atWord
    have typed := (settable (ne_nil_of_length_pos (by omega))).addEntries (values.take i)
    refine .argument (j := 1) rfl rfl ?_
    refine .argument (j := i + 3) (by omega) key ?_
    refine .bind (sadd_ensures (setAt_of_settable typed) ?_)
    refine .argument (by omega) (word (j := 0) rfl) (.bind (toNumber_ensures ?_))
    refine .bind (mono ?_ (fieldLoop_ensures (p.pendingName value.kfvKey)
      (fun some => ?_) ?_))
    · rintro _ s'' rfl
      apply Ensures.pure
      rw [foldl_take_succ p.addEntry s.keyspace found]
      refine ⟨rfl, ?_, ?_⟩
      · have grown := card_insert_sub
        have larger := Finset.card_le_card (Finset.subset_insert value.kfvKey
          (p.dirtyAt ((values.take i).foldl p.addEntry s.keyspace)))
        simp only [dirtyAt_addEntry, ← grown]
        omega
      · simp only [take_add_one, found, toList_some, flatMap_append,
          length_append, flatMap_singleton, entryWords, length_cons, flatten_length]
        omega
    · rw [hashAt, Server.write_keyspace, getElem?_write_of_ne (p.pendingName_ne_keySetName _).symm]
      exact typed.pending value (mem_of_getElem? found) some
    · intro j iv s'' Q atField assigned
      obtain ⟨field, content⟩ := flatten_getElem? atField
      refine .argument (by omega)
        (word (j := j * 2 + 1) (by simpa [entryWords] using field)) ?_
      refine .argument (by omega)
        (word (j := j * 2 + 1 + 1) (by simpa [entryWords] using content)) ?_
      refine .argument (j := 2) rfl rfl ?_
      refine .argument (j := i + 3) (by omega) key (.bind ?_)
      exact assigned.mono fun _ _ post => .pure post

theorem batchedDel_writes (keys : List Bytes) (deletable : keys ≠ [] → p.Deletable s.keyspace) :
    Ensures (p.batchedDel keys) s fun _ s' =>
      s' = ⟨keys.foldl p.removeEntry s.keyspace, s.published ++
        p.announcement ((p.dirtyAt (keys.foldl p.removeEntry s.keyspace)).card -
          (p.dirtyAt s.keyspace).card)⟩ := by
  let KEYS := [p.getChannelName p.dbId, p.getKeySetName, p.getDelKeySetName,
    p.getStateHashPrefix ++ p.tableName ++ p.getTableNameSeparator] ++ keys
  apply evalsha_ensures KEYS [ascii "G"] (by simp [KEYS])
  apply Ensures.bind
  rw [show KEYS.length - 4 = keys.length by simp [KEYS]]
  refine mono ?_ (foldRange_ensures (fun i added s' =>
    s' = ⟨(keys.take i).foldl p.removeEntry s.keyspace, s.published⟩ ∧
      (p.dirtyAt s.keyspace).card + added =
        (p.dirtyAt ((keys.take i).foldl p.removeEntry s.keyspace)).card) ⟨rfl, rfl⟩ ?_)
  · rintro added s' ⟨rfl, counted⟩
    apply luaPub_ensures rfl rfl
    rw [Nat.zero_add, take_length] at counted ⊢
    simp only [← counted, Nat.add_sub_cancel_left]
  · rintro i added s' - inside ⟨rfl, counted⟩
    have inKeys : i < keys.length := by omega
    obtain ⟨key, found⟩ : ∃ key, keys[i]? = some key := ⟨_, getElem?_eq_getElem inKeys⟩
    have atKey : KEYS[i + 4]? = some key := by simp [KEYS, found]
    have typed := (deletable (ne_nil_of_length_pos (by omega))).removeEntries (keys.take i)
    obtain ⟨members, keySet⟩ := isSome_iff_exists.mp typed.keySet
    obtain ⟨erased, delSet⟩ := isSome_iff_exists.mp typed.delSet
    have marks : (((keys.take i).foldl p.removeEntry s.keyspace).write p.getKeySetName
        (ofSet (insert key members))).setAt p.getDelKeySetName = some erased := by
      rw [setAt, getElem?_write_of_ne p.keySetName_ne_delKeySetName]
      exact delSet
    refine .argument (j := 1) rfl rfl ?_
    refine .argument (j := i + 4) (by omega) atKey ?_
    refine .bind (sadd_ensures keySet ?_)
    refine .argument (j := 2) rfl rfl ?_
    refine .argument (j := i + 4) (by omega) atKey ?_
    refine .bind (sadd_ensures marks ?_)
    refine .argument (j := 3) rfl rfl ?_
    refine .argument (j := i + 4) (by omega) atKey ?_
    refine .bind (Script.del_ensures fun _ => .pure ?_)
    have known : p.dirtyAt ((keys.take i).foldl p.removeEntry s.keyspace) = members := by
      rw [dirtyAt, keySet, getD_some]
    rw [foldl_take_succ p.removeEntry s.keyspace found]
    refine ⟨?_, ?_⟩
    · simp [removeEntry, known, delSet, Server.write, pendingName, mainName]
    · have grown := card_insert_sub members key
      have larger := Finset.card_le_card (Finset.subset_insert key members)
      rw [dirtyAt_removeEntry, known]
      rw [known] at counted
      omega

/-! ## Batches on a keyspace that shows the table -/

theorem dirtyAt_of_shows (h : Shows p.toTableBase s.keyspace st) :
    p.dirtyAt s.keyspace = st.dirty := by
  rw [dirtyAt, h.keySet, getD_some]

theorem settable_of_shows (h : Shows p.toTableBase s.keyspace st)
    (values : List KeyOpFieldsValuesTuple) : p.Settable s.keyspace values where
  keySet := by rw [h.keySet]; rfl
  pending value _ _ := by rw [h.pending]; rfl

theorem deletable_of_shows (h : Shows p.toTableBase s.keyspace st) : p.Deletable s.keyspace where
  keySet := by rw [h.keySet]; rfl
  delSet := by rw [h.delSet]; rfl

variable {s₀ : Server}

private theorem silent_addEntry (h : Silent p.toTableBase s₀ st s)
    (value : KeyOpFieldsValuesTuple) :
    Silent p.toTableBase s₀ (st.merge value.kfvKey (ofFields value.kfvFieldsValues))
      ⟨p.addEntry s.keyspace value, s.published⟩ := by
  have marked := h.writeKeySet (set?_ofSet (insert value.kfvKey st.dirty))
  have after := marked.writePending value.kfvKey (hash?_ofHash
    (st.delta value.kfvKey * ofFields value.kfvFieldsValues))
  have buffer : (s.keyspace.write p.getKeySetName (ofSet (insert value.kfvKey st.dirty))).hashAt
      (p.pendingName value.kfvKey) = some (st.delta value.kfvKey) :=
    marked.shown.pending value.kfvKey
  rw [addEntry, dirtyAt_of_shows h.shown, putFields_of_hashAt buffer]
  exact after

private theorem silent_removeEntry (h : Silent p.toTableBase s₀ st s) (key : Bytes) :
    Silent p.toTableBase s₀ (st.remove key) ⟨p.removeEntry s.keyspace key, s.published⟩ := by
  have after := ((h.writeKeySet (set?_ofSet (insert key st.dirty))).writeDelSet
    (set?_ofSet (insert key st.erased))).writePending key (v := none) (d := 1) rfl
  rw [removeEntry, dirtyAt_of_shows h.shown, h.shown.delSet]
  exact after

private theorem silent_addEntries (h : Silent p.toTableBase s₀ st s)
    (values : List KeyOpFieldsValuesTuple) :
    Silent p.toTableBase s₀ (st.mergeAll (batch values))
      ⟨values.foldl p.addEntry s.keyspace, s.published⟩ := by
  induction values generalizing s st with
  | nil => exact h
  | cons value values ih => exact ih (silent_addEntry h value)

private theorem silent_removeEntries (h : Silent p.toTableBase s₀ st s) (keys : List Bytes) :
    Silent p.toTableBase s₀ (st.removeAll keys)
      ⟨keys.foldl p.removeEntry s.keyspace, s.published⟩ := by
  induction keys generalizing s st with
  | nil => exact h
  | cons key keys ih => exact ih (silent_removeEntry h key)

private theorem produced_of_silent {s' : Server} {after : StateStore}
    (h : Shows p.toTableBase s.keyspace st) (silent : Silent p.toTableBase s after s') :
    p.Produced s st after ⟨s'.keyspace, s.published ++
      p.announcement ((p.dirtyAt s'.keyspace).card - (p.dirtyAt s.keyspace).card)⟩ where
  shown := silent.shown
  published := by rw [dirtyAt_of_shows silent.shown, dirtyAt_of_shows h]
  elsewhere := silent.elsewhere

theorem batchedSet_ensures (values : List KeyOpFieldsValuesTuple)
    (h : Shows p.toTableBase s.keyspace st) :
    Ensures (p.batchedSet values) s fun _ => p.Produced s st (st.mergeAll (batch values)) := by
  refine (batchedSet_writes values fun _ => settable_of_shows h values).mono ?_
  rintro _ s' rfl
  exact produced_of_silent h (silent_addEntries (.refl h) values)

theorem batchedDel_ensures (keys : List Bytes) (h : Shows p.toTableBase s.keyspace st) :
    Ensures (p.batchedDel keys) s fun _ => p.Produced s st (st.removeAll keys) := by
  refine (batchedDel_writes keys fun _ => deletable_of_shows h).mono ?_
  rintro _ s' rfl
  exact produced_of_silent h (silent_removeEntries (.refl h) keys)

end ProducerStateTable

namespace ConsumerStateTable

variable {c : ConsumerStateTable} {s : Server} {st : StateStore}

theorem copyLoop_ensures {t} {fields : List FieldValueTuple} (key : Bytes)
    {s₀} (h : Silent t s₀ st s) :
    Ensures (foldEach fields () fun fv _ => do let _ ← hset (t.mainName key) fv.1 fv.2) s fun _ =>
      Silent t s₀
        { st with base := Function.update st.base key (st.base key * ofFields fields) } := by
  apply foldEach_ensures (fun seen _ => Silent t s₀
    { st with base := Function.update st.base key (st.base key * ofFields seen) })
  · simpa [ofFields_nil] using h
  · rintro seen fv rest ⟨⟩ s' - copied
    refine .bind (hset_ensures (copied.shown.main key) (.pure ?_))
    have next := copied.writeMain key (hash?_ofHash
      ((st.base key * ofFields seen).insert fv.1 fv.2))
    simpa [insert_eq_mul, mul_assoc, ofFields_append] using next

theorem popKey_ensures {t key s₀} (h : Silent t s₀ st s)
    (popped : key ∉ st.dirty) :
    Ensures (popKey (t.tableName ++ t.getTableNameSeparator) t.getStateHashPrefix
      t.getDelKeySetName key) s fun fieldvalues s' =>
        fieldvalues = (st.delta key).toList ∧ Silent t s₀ (st.settle key) s' := by
  unfold popKey
  rw [show t.getStateHashPrefix ++ (t.tableName ++ t.getTableNameSeparator) ++ key =
    t.pendingName key by simp [pendingName, mainName]]
  refine .bind (srem_ensures h.shown.delSet (.bind ?_))
  have unmarked := h.writeDelSet (set?_ofSet (st.erased.erase key))
  -- a recorded delete empties the main hash, so that either way the update lands
  -- on the entry it was recorded against
  let cleared : Hash := if key ∈ st.erased then 1 else st.base key
  refine mono (Q := fun _ => Silent t s₀
    { st with erased := st.erased.erase key, base := Function.update st.base key cleared }) ?_ ?_
  · rintro - s₁ emptied
    refine .bind (hgetall_ensures (emptied.shown.pending key) (.bind ?_))
    refine (copyLoop_ensures key emptied).mono fun _ s₂ copied => ?_
    refine .bind (Script.del_ensures fun _ => .pure ⟨rfl, ?_⟩)
    have gone := copied.writePending key (v := none) (d := 1) rfl
    have landed : cleared * st.delta key = st.effective key := by
      simp only [cleared, effective]
      split <;> simp
    simpa [settle, ofFields_toList, landed, Finset.erase_eq_of_notMem popped] using gone
  · by_cases marked : key ∈ st.erased
    · simp only [marked]
      refine Script.del_ensures fun _ => ?_
      simpa [cleared, marked, mainName] using unmarked.writeMain key (v := none) (d := 1) rfl
    · simp only [marked]
      exact .pure (by simpa [cleared, marked] using unmarked)

theorem popCommand_eq (choice : SpopChoice) (keySet tablename delSet stateprefix : Bytes)
    (n : Nat) :
    evalsha (popScript choice) [ascii "3", keySet, tablename, delSet, decimal n, stateprefix] =
      spop choice keySet n >>= fun keys => foldEach keys [] fun key ret =>
        popKey tablename stateprefix delSet key >>= fun fieldvalues =>
          pure (ret ++ [(key, fieldvalues)]) := by
  change (toNumber (decimal n) >>= _) = _
  rw [toNumber_decimal]
  rfl

theorem pops_ensures (choice : SpopChoice) (nulFree : 0 ∉ c.tableName)
    (h : Shows c.toTableBase s.keyspace st) :
    Ensures (c.pops choice) s fun vkco s' =>
      vkco = (choice.pick st.dirty c.POP_BATCH_SIZE).map
          (fun key => toTuple (key, (st.delta key).toList)) ∧
        Silent c.toTableBase s (st.settleAll (choice.pick st.dirty c.POP_BATCH_SIZE)) s' := by
  unfold pops
  rw [c.cStr_tableName nulFree, c.cStr_keySetName nulFree, c.cStr_delKeySetName nulFree,
    c.cStr_separator]
  have reply := choice.reply st.dirty c.POP_BATCH_SIZE
  rw [popCommand_eq]
  refine .bind (.bind (spop_ensures h.keySet ?_))
  generalize choice.pick st.dirty c.POP_BATCH_SIZE = picked at reply ⊢
  have taken := (Silent.refl h).writeKeySet (set?_ofSet (st.dirty \ picked.toFinset))
  refine mono ?_ (foldEach_ensures (fun seen ret s' =>
    ret = seen.map (fun key => (key, (st.delta key).toList)) ∧
      Silent c.toTableBase s (settleAll { st with dirty := st.dirty \ picked.toFinset } seen) s')
    ⟨rfl, taken⟩ ?_)
  · rintro ret s' ⟨replied, after⟩
    refine .pure ⟨by simp [replied], ?_⟩
    rw [settleAll_withDirty, sdiff_idem] at after
    rwa [show st.settleAll picked = _ from st.settleAll_withDirty st.dirty picked]
  · rintro seen key rest ret s' split ⟨replied, after⟩
    have fresh : key ∉ seen := by
      intro twice
      have nodup := reply.nodup
      rw [split] at nodup
      exact (nodup_append.mp nodup).2.2 key twice key (by simp) rfl
    have gone : key ∉ (st.dirty \ picked.toFinset) \ seen.toFinset := by
      simp [split]
    refine .bind (mono ?_ (popKey_ensures after ?_))
    · rintro fieldvalues s'' ⟨replied', settled⟩
      refine .pure ⟨?_, ?_⟩
      · simp [replied, replied', (settleAll_of_notMem _ fresh).2]
      · simpa [settleAll] using settled
    · rw [dirty_settleAll]
      exact gone

theorem pops_foreign (choice : SpopChoice) (nul : 0 ∈ c.tableName) :
    Preserves (fun s => Shows c.toTableBase s.keyspace st) (c.pops choice) := by
  have kept : ∀ {name}, c.Foreign name → ∀ (s : Server) v,
      Shows c.toTableBase s.keyspace st → Shows c.toTableBase (s.write name v).keyspace st :=
    fun foreign _ v shown => shown.writeForeign foreign v
  have popKey_foreign : ∀ key, Preserves (fun s => Shows c.toTableBase s.keyspace st)
      (popKey (cStr c.tableName ++ c.getTableNameSeparator) c.getStateHashPrefix
        (cStr c.tableName) key) := by
    intro key
    refine (srem_preserves (kept (c.foreign_cut nul)) key).bind fun num => ?_
    refine .bind ?_ fun _ => hgetall_preserves.bind fun fieldvalues => ?_
    · split
      · exact del_preserves (kept (c.foreign_cut_main nul key))
      · exact .pure _
    refine (foldEach_preserves (fun fv _ => ?_) _ _).bind fun _ => ?_
    · exact (hset_preserves (kept (c.foreign_cut_main nul key)) _ _).bind fun _ => .pure _
    · exact (del_preserves (kept (c.foreign_cut_pending nul key))).bind fun _ => .pure _
  unfold pops
  rw [c.cStr_separator, show cStr c.getKeySetName = cStr c.tableName from
    cStr_append_of_nul nul _, show cStr c.getDelKeySetName = cStr c.tableName from
    cStr_append_of_nul nul _]
  rw [popCommand_eq]
  refine .bind (.bind (spop_preserves (kept (c.foreign_cut nul)) _ _) fun keys => ?_) fun _ =>
    .pure _
  exact foldEach_preserves (fun key _ => (popKey_foreign key).bind fun _ => .pure _) _ _

end ConsumerStateTable

end SwssCommon
