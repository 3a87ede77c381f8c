import SwssCommon.StateTable.Convergence
import SwssCommon.StateTable.TempView

/-! # Switching to a temporary view

After the first of the three scripts nothing is buffered, so pops in between change nothing and the
dump still describes the main table when the difference arrives. From then on the table converges to
the view.
-/

namespace SwssCommon

open Bytes Redis Script List Std.ExtTreeMap Option OrderedMap Keyspace Hash Value WriteBehind
  TableBase

namespace ProducerStateTable

variable {p : ProducerStateTable} {s : Server} {st : StateStore}

theorem clear_pattern {t : TableBase} (plain : Glob.Plain t.tableName) (name : Bytes) :
    Glob.globMatch (t.getStateHashPrefix ++ t.tableName ++ ascii "*") name ↔
      t.getStateHashPrefix ++ t.tableName <+: name := by
  apply Glob.globMatch_plain_star
  intro c member
  rcases mem_append.mp member with inPrefix | inName
  · rw [mem_singleton.mp inPrefix]
    decide
  · exact plain c inName

theorem clear_drops (p : ProducerStateTable) (s : Server) :
    Ensures p.clear s fun _ s' => s'.published = s.published ∧
      ∀ name, s'.keyspace[name]? =
        if name = p.getKeySetName ∨ name = p.getDelKeySetName ∨
          Glob.globMatch (p.getStateHashPrefix ++ p.tableName ++ ascii "*") name
        then none else s.keyspace[name]? := by
  apply evalsha_ensures (n := 3) [p.getKeySetName, p.getStateHashPrefix ++ p.tableName,
    p.getDelKeySetName] [] rfl
  refine .argument (j := 0) rfl rfl (.bind (Script.del_ensures fun _ => ?_))
  refine .argument (j := 1) rfl rfl (.bind (keys_ensures ?_))
  refine .bind (Ensures.mono ?_ (delLoop_ensures _))
  rintro _ s' ⟨quiet, content⟩
  refine .pure ⟨quiet, fun name => ?_⟩
  rw [Server.write_keyspace, getElem?_write]
  by_cases delSet : p.getDelKeySetName = name
  · simp [delSet]
  · rw [if_neg delSet, content, Server.write_keyspace]
    simp only [mem_filter, Std.ExtTreeMap.mem_keys, mem_iff_getElem?_ne_none, getElem?_write]
    by_cases keySet : p.getKeySetName = name
    · simp [keySet]
    · cases found : s.keyspace[name]? <;> simp [keySet, Ne.symm keySet, Ne.symm delSet]

theorem clear_leaves (plain : Glob.Plain p.tableName) {base}
    (mains : ∀ k, s.keyspace.hashAt (p.mainName k) = some (base k)) :
    Ensures p.clear s fun _ s' =>
      Shows p.toTableBase s'.keyspace (.ofBase base) ∧ s'.published = s.published := by
  refine (p.clear_drops s).mono ?_
  rintro _ s' ⟨quiet, content⟩
  simp only [clear_pattern plain] at content
  refine ⟨⟨?_, ?_, fun k => ?_, fun k => ?_⟩, quiet⟩
  · rw [setAt, content, if_pos (.inl rfl)]
    rfl
  · rw [setAt, content, if_pos (.inr (.inl rfl))]
    rfl
  · rw [hashAt, content, if_pos (.inr (.inr (p.statePrefix_isPrefix_pendingName k)))]
    rfl
  · rw [hashAt, content, if_neg]
    · exact mains k
    · rintro (keySet | delSet | pending)
      · exact p.mainName_ne_keySetName k keySet
      · exact p.mainName_ne_delKeySetName k delSet
      · exact p.not_statePrefix_isPrefix_mainName k pending

theorem clear_ensures (plain : Glob.Plain p.tableName) (h : Shows p.toTableBase s.keyspace st) :
    Ensures p.clear s fun _ s' =>
      Shows p.toTableBase s'.keyspace (.ofBase st.base) ∧ s'.published = s.published :=
  clear_leaves plain h.main

def ViewDiff.staged (diff : ViewDiff) (st : StateStore) : StateStore :=
  amendAll
    { st with
      dirty := st.dirty ∪ diff.keysToSet.toFinset
      erased := st.erased ∪ diff.keysToDel.toFinset }
    diff.tempViewState.toList

def objectWords (kfvPair : Bytes × TableMap) : List Bytes :=
  decimal kfvPair.2.size :: flatten kfvPair.2.toList

/-- The last loop of the script: one assignment of a whole hash per object, whose words start after
    the first `o`. -/
theorem objectLoop_ensures {name : Bytes → Bytes} {KEYS ARGV}
    {entries : List (Bytes × TableMap)} {o} (I : List (Bytes × TableMap) → Server → Prop)
    (start : I [] s)
    (assign : ∀ seen kfvPair s', kfvPair ∈ entries → I seen s' →
      ∃ h, s'.keyspace.hashAt (name kfvPair.1) = some h ∧
        I (seen ++ [kfvPair]) (s'.write (name kfvPair.1) (ofHash (h * kfvPair.2))))
    (key : ∀ {i kfvPair}, entries[i]? = some kfvPair → KEYS[i + 3]? = some (name kfvPair.1))
    (word : ∀ {i w}, (entries.flatMap objectWords)[i]? = some w → ARGV[o + i]? = some w) :
    Ensures (foldRange 4 entries.length (o + 1) fun j arg_start => do
      let count ← toNumber (← argument ARGV arg_start)
      foldRange 1 count () fun i _ => do
        let _ ← hset (← argument KEYS j) (← argument ARGV (arg_start + i * 2 - 1))
          (← argument ARGV (arg_start + i * 2))
      pure (arg_start + 2 * count + 1)) s fun _ => I entries := by
  refine Ensures.mono ?_ (foldRange_ensures (fun n arg_start s' =>
    I (entries.take (n - 4)) s' ∧
      arg_start = o + 1 + ((entries.take (n - 4)).flatMap objectWords).length) ⟨start, rfl⟩ ?_)
  · rintro _ s' ⟨assigned, -⟩
    simpa using assigned
  · rintro n arg_start s' above inside ⟨assigned, position⟩
    obtain ⟨i, rfl⟩ := Nat.exists_eq_add_of_le above
    rw [Nat.add_sub_cancel_left] at assigned position
    obtain ⟨kfvPair, found⟩ : ∃ kfvPair, entries[i]? = some kfvPair :=
      ⟨_, getElem?_eq_getElem (by omega)⟩
    have here : ∀ {j w}, (objectWords kfvPair)[j]? = some w →
        ARGV[arg_start + j - 1]? = some w := by
      intro j w atWord
      have shifted := word (flatMap_getElem? objectWords found atWord)
      rw [show arg_start + j - 1 = o + (((entries.take i).flatMap objectWords).length + j) by omega]
      exact shifted
    obtain ⟨h, holds, next⟩ := assign _ _ _ (mem_of_getElem? found) assigned
    refine .argument (by omega) (here (j := 0) rfl) (.bind (toNumber_ensures ?_))
    rw [show kfvPair.2.size = kfvPair.2.toList.length by simp]
    refine .bind (Ensures.mono ?_ (hsetLoop_ensures holds ?_))
    · rintro _ s'' rfl
      rw [show 4 + i + 1 - 4 = i + 1 by omega, take_add_one, found, toList_some]
      refine .pure ⟨by simpa only [ofFields_toList] using next, ?_⟩
      simp only [flatMap_append, length_append, flatMap_singleton,
        objectWords, length_cons, flatten_length]
      omega
    · intro j iv s'' Q atField assigned
      obtain ⟨field, value⟩ := flatten_getElem? atField
      refine .argument (j := i + 3) (by omega) (key found) ?_
      refine .argument (by omega)
        (here (j := j * 2 + 1) (by simpa [objectWords] using field)) ?_
      refine .argument (by omega)
        (here (j := j * 2 + 1 + 1) (by simpa [objectWords] using value)) ?_
      exact .bind (assigned.mono fun _ _ post => .pure post)

/-! ## The words of the script -/

namespace ViewDiff

def KEYS (p : ProducerStateTable) (diff : ViewDiff) : List Bytes :=
  [p.getChannelName p.dbId, p.getKeySetName, p.getDelKeySetName] ++
    diff.tempViewState.toList.map fun kfvPair => p.bufferName kfvPair.1

/-- Three counted sections: the keys to set, the keys to delete, and the objects. -/
def ARGV (diff : ViewDiff) : List Bytes :=
  ascii "G" :: decimal diff.keysToSet.length :: (diff.keysToSet ++
    (decimal diff.keysToDel.length :: (diff.keysToDel ++
      diff.tempViewState.toList.flatMap objectWords)))

variable {diff : ViewDiff} {i : Nat} {w : Bytes}

theorem length_ARGV (diff : ViewDiff) :
    diff.ARGV.length = diff.keysToSet.length + diff.keysToDel.length + 3 +
      (diff.tempViewState.toList.flatMap objectWords).length := by
  simp only [ARGV, length_cons, length_append]
  omega

theorem KEYS_getElem? {kfvPair}
    (found : diff.tempViewState.toList[i]? = some kfvPair) :
    (diff.KEYS p)[i + 3]? = some (p.bufferName kfvPair.1) := by
  simp [KEYS, found]

theorem ARGV_set (found : diff.keysToSet[i]? = some w) : diff.ARGV[i + 2]? = some w := by
  have bound := (List.getElem?_eq_some_iff.mp found).1
  simpa [ARGV, List.getElem?_append_left bound] using found

theorem ARGV_rest (diff : ViewDiff) (i : Nat) : diff.ARGV[diff.keysToSet.length + i + 2]? =
    (decimal diff.keysToDel.length :: (diff.keysToDel ++
      diff.tempViewState.toList.flatMap objectWords))[i]? := by
  simp [ARGV, getElem?_append_right]

theorem ARGV_del (found : diff.keysToDel[i]? = some w) :
    diff.ARGV[diff.keysToSet.length + (i + 1) + 2]? = some w := by
  have bound := (List.getElem?_eq_some_iff.mp found).1
  simpa [ARGV_rest, List.getElem?_append_left bound] using found

theorem ARGV_object (found : (diff.tempViewState.toList.flatMap objectWords)[i]? = some w) :
    diff.ARGV[diff.keysToSet.length + diff.keysToDel.length + 3 + i]? = some w := by
  rw [show diff.keysToSet.length + diff.keysToDel.length + 3 + i =
    diff.keysToSet.length + (diff.keysToDel.length + i + 1) + 2 by omega, ARGV_rest]
  simpa [getElem?_append_right] using found

end ViewDiff

theorem applyView_eq (p : ProducerStateTable) (diff : ViewDiff) :
    p.applyView diff = luaApplyView (diff.KEYS p) diff.ARGV := by
  unfold applyView
  simp only [append_assoc]
  exact evalsha_eq (diff.KEYS p) diff.ARGV (by simp [ViewDiff.KEYS])

/-- The script files the keys under both sets, then the fields of one object after the other under
    its buffer, and always publishes. -/
theorem applyView_writes {diff : ViewDiff} {dirty erased}
    (I : List (Bytes × TableMap) → Server → Prop)
    (keySet : s.keyspace.setAt p.getKeySetName = some dirty)
    (delSet : s.keyspace.setAt p.getDelKeySetName = some erased)
    (start : I [] ((s.write p.getKeySetName (ofSet (dirty ∪ diff.keysToSet.toFinset))).write
      p.getDelKeySetName (ofSet (erased ∪ diff.keysToDel.toFinset))))
    (assign : ∀ seen kfvPair s', kfvPair ∈ diff.tempViewState.toList → I seen s' →
      ∃ h, s'.keyspace.hashAt (p.bufferName kfvPair.1) = some h ∧
        I (seen ++ [kfvPair]) (s'.write (p.bufferName kfvPair.1) (ofHash (h * kfvPair.2)))) :
    Ensures (p.applyView diff) s fun _ s' => ∃ s₁, I diff.tempViewState.toList s₁ ∧
      s' = { s₁ with published := s₁.published ++ [(p.getChannelName p.dbId, ascii "G")] } := by
  rw [applyView_eq]
  refine .argument (j := 1) rfl rfl (.bind (toNumber_ensures ?_))
  refine .bind (Ensures.mono ?_ (saddLoop_ensures keySet ?_))
  case refine_2 =>
    intro i m s' Q found added
    refine .argument (j := 1) rfl rfl ?_
    refine .argument (j := i + 2) (by omega) (ViewDiff.ARGV_set found) ?_
    exact .bind (added.mono fun _ _ post => .pure post)
  rintro - s₁ rfl
  have marks : (s.write p.getKeySetName (ofSet (dirty ∪ diff.keysToSet.toFinset))).keyspace.setAt
      p.getDelKeySetName = some erased := by
    rw [setAt, Server.write_keyspace, getElem?_write_of_ne p.keySetName_ne_delKeySetName]
    exact delSet
  refine .argument (j := diff.keysToSet.length + 0 + 2) (by omega)
    (diff.ARGV_rest 0) ?_
  refine .bind (toNumber_ensures ?_)
  refine .bind (Ensures.mono ?_ (saddLoop_ensures marks ?_))
  case refine_2 =>
    intro i m s' Q found added
    refine .argument (j := 2) rfl rfl ?_
    refine .argument (by omega) (ViewDiff.ARGV_del found) ?_
    exact .bind (added.mono fun _ _ post => .pure post)
  rintro - s₂ rfl
  rw [show (diff.KEYS p).length - 3 = diff.tempViewState.toList.length by simp [ViewDiff.KEYS],
    show 2 + diff.keysToSet.length + 1 + diff.keysToDel.length + 1 =
      diff.keysToSet.length + diff.keysToDel.length + 3 + 1 by omega]
  refine .bind (Ensures.mono ?_ (objectLoop_ensures I start assign ViewDiff.KEYS_getElem?
    ViewDiff.ARGV_object))
  rintro - s₃ assigned
  exact publish_ensures ⟨s₃, assigned, rfl⟩

theorem applyView_ensures {diff : ViewDiff} (nonempty : ∀ key ∈ diff.tempViewState, key ≠ [])
    (h : Shows p.toTableBase s.keyspace st) :
    Ensures (p.applyView diff) s fun _ s' =>
      Shows p.toTableBase s'.keyspace (diff.staged st) ∧
        s'.published = s.published ++ [(p.getChannelName p.dbId, ascii "G")] := by
  have filed := ((Silent.refl h).writeKeySet
    (set?_ofSet (st.dirty ∪ diff.keysToSet.toFinset))).writeDelSet
    (set?_ofSet (st.erased ∪ diff.keysToDel.toFinset))
  refine (applyView_writes (fun seen => Silent p.toTableBase s (amendAll
    { st with
      dirty := st.dirty ∪ diff.keysToSet.toFinset
      erased := st.erased ∪ diff.keysToDel.toFinset } seen)) h.keySet h.delSet filed ?_).mono ?_
  · intro seen kfvPair s' member assigned
    have found := mem_toList_iff_getElem?_eq_some.mp member
    have present : kfvPair.1 ∈ diff.tempViewState := mem_iff_getElem?_ne_none.mpr (by simp [found])
    rw [p.bufferName_of_ne_nil (nonempty _ present)]
    refine ⟨_, assigned.shown.pending kfvPair.1, ?_⟩
    rw [amendAll, foldl_append]
    exact assigned.writePending kfvPair.1 (hash?_ofHash _)
  · rintro _ s' ⟨s₁, assigned, rfl⟩
    exact ⟨assigned.shown, by simp [assigned.quiet]⟩

/-! ## What the difference amounts to -/

/-- An entry that became what the view wants, except that a `NULL` field may have
    survived from the main hash. -/
structure Matches (target : Option TableMap) (main entry : Hash) : Prop where
  present : entry ≠ 1 ↔ target ≠ none
  field : ∀ f : Bytes, f ≠ nullField → entry[f]? = (target.getD 1)[f]?
  null : entry[nullField]? = (target.getD 1)[nullField]? ∨ entry[nullField]? = main[nullField]?

section Staged

variable {base : Bytes → Hash} {currentState tempViewState : TableDump}

theorem delta_staged (diff : ViewDiff) (st : StateStore) (key : Bytes) :
    (diff.staged st).delta key = diff.tempViewState[key]?.elim (st.delta key) (st.delta key * ·) :=
  foldl_toList_at (fun s : StateStore => s.delta key) (fun d x => x * d)
    (fun _ _ _ different => Function.update_of_ne different.symm _ _)
    (fun _ _ => Function.update_self _ _ _) _ _

theorem ne_nil_of_left (nonempty : ∀ (key : Bytes) v, tempViewState[key]? = some v → key ≠ []) :
    ∀ key ∈ (compareViews currentState tempViewState).tempViewState, key ≠ [] := by
  intro key member
  have left := (compareViews_spec currentState tempViewState key).2.2
  rw [mem_iff_getElem?_ne_none, left] at member
  split at member
  · exact absurd rfl member
  · obtain ⟨v, found⟩ := ne_none_iff_exists'.mp member
    exact nonempty key v found

theorem mem_dirty_staged {diff : ViewDiff} {key} :
    key ∈ (diff.staged (.ofBase base)).dirty ↔ key ∈ diff.keysToSet := by
  rw [ViewDiff.staged, amendAll_eq]
  simp [ofBase]

theorem mem_erased_staged {diff : ViewDiff} {key} :
    key ∈ (diff.staged (.ofBase base)).erased ↔ key ∈ diff.keysToDel := by
  rw [ViewDiff.staged, amendAll_eq]
  simp [ofBase]

theorem delta_staged_ofBase (diff : ViewDiff) (key : Bytes) :
    (diff.staged (.ofBase base)).delta key = diff.tempViewState[key]?.getD 1 := by
  rw [delta_staged]
  cases diff.tempViewState[key]? with
  | none => rfl
  | some v => exact one_mul v

theorem staged_announced :
    ((compareViews currentState tempViewState).staged (.ofBase base)).Announced := by
  intro key work
  have spec := compareViews_spec currentState tempViewState key
  rw [delta_staged_ofBase, mem_erased_staged] at work
  rw [mem_dirty_staged, spec.1]
  rintro same
  rcases work with buffered | erased
  · rw [spec.2.2, if_pos same] at buffered
    exact buffered rfl
  · obtain ⟨c, current, gone⟩ := spec.2.1.mp erased
    obtain ⟨f, there, missing⟩ := gone c (same ▸ current)
    exact there missing

theorem effective_staged (diff : ViewDiff) (key : Bytes) :
    (diff.staged (.ofBase base)).effective key =
      if key ∈ diff.keysToDel then diff.tempViewState[key]?.getD 1
      else base key * diff.tempViewState[key]?.getD 1 := by
  have main : (diff.staged (.ofBase base)).base = base := by
    rw [ViewDiff.staged, amendAll_eq]
    rfl
  simp only [effective, delta_staged_ofBase, mem_erased_staged, main]

theorem Matches.refl {v} (nonempty : v ≠ 1) (main : Hash) :
    Matches (some v) main v :=
  ⟨by simp [nonempty], fun _ _ => rfl, .inl rfl⟩

theorem Matches.of_withoutNull {main v : Hash} (present : main ≠ 1) (same : withoutNull main = v) :
    Matches (some v) main main := by
  refine ⟨by simp [present], fun f other => ?_, .inr rfl⟩
  rw [getD_some, ← same, getElem?_withoutNull, if_neg other]

theorem Matches.overlay {main v : Hash} (nonempty : v ≠ 1)
    (covered : ∀ f, f ≠ nullField → v[f]? = none → main[f]? = none) :
    Matches (some v) main (main * v) := by
  refine ⟨?_, fun f other => ?_, ?_⟩
  · refine ⟨fun _ => by simp, fun _ gone => nonempty (ext fun f => ?_)⟩
    have empty : (main * v)[f]? = none := by rw [gone, getElem?_one]
    rw [getElem?_mul, or_eq_none_iff] at empty
    rw [empty.1, getElem?_one]
  · rw [getElem?_mul, getD_some]
    cases found : v[f]? with
    | none => simp [covered f other found]
    | some x => rfl
  · rw [getElem?_mul, getD_some]
    cases v[nullField]? with
    | none => exact .inr rfl
    | some x => exact .inl rfl

theorem staged_matches (dump : ∀ k, currentState[k]? = dumped (base k))
    (nonempty : ∀ (k : Bytes) v, tempViewState[k]? = some v → v ≠ 1) (key : Bytes) :
    Matches tempViewState[key]? (base key)
      (((compareViews currentState tempViewState).staged (.ofBase base)).effective key) := by
  obtain ⟨-, inDel, left⟩ := compareViews_spec currentState tempViewState key
  rw [effective_staged]
  generalize compareViews currentState tempViewState = diff at inDel left
  rw [dump] at inDel left
  rw [left]
  unfold dumped at inDel ⊢
  by_cases empty : base key = 1
  · -- not in the main table: created if the view has it
    rw [if_pos empty] at inDel ⊢
    rw [if_neg (by simp [inDel]), empty, one_mul]
    cases target : tempViewState[key]? with
    | none => exact ⟨by simp, fun _ _ => rfl, .inl rfl⟩
    | some v => exact .refl (nonempty key v target) 1
  · rw [if_neg empty] at inDel ⊢
    cases target : tempViewState[key]? with
    | none =>
      -- gone from the view: deleted
      rw [if_pos (by simp [inDel, target])]
      exact ⟨by simp, fun _ _ => rfl, .inl rfl⟩
    | some v =>
      rw [target] at inDel
      by_cases same : withoutNull (base key) = v
      · have kept : key ∉ diff.keysToDel := by
          rw [inDel]
          rintro ⟨c, current, gone⟩
          obtain ⟨f, there, missing⟩ := gone v rfl
          exact there (by rw [← some.inj current, same, missing])
        rw [if_neg kept, if_pos (by rw [same]), getD_none, mul_one]
        exact .of_withoutNull empty same
      · have differs : ¬ some (withoutNull (base key)) = some v :=
          fun equal => same (some.inj equal)
        split
        · exact .refl (nonempty key v target) _
        · rename_i kept
          apply Matches.overlay (nonempty key v target)
          intro f other missing
          by_contra there
          refine kept (inDel.mpr ⟨_, rfl, fun v' found => ⟨f, ?_, ?_⟩⟩)
          · rwa [getElem?_withoutNull, if_neg other]
          · rw [← some.inj found, missing]

end Staged

end ProducerStateTable

namespace ViewSwitch

open ProducerStateTable

inductive Phase where
  | building (tempViewState : TableDump)
  | cleared (tempViewState : TableDump)
  | dumped (tempViewState currentState : TableDump)
  | applied

structure State where
  server : Server
  phase : Phase

inductive Event where
  | viewSet (key : Bytes) (values : List FieldValueTuple)
  | viewDel (key : Bytes)
  | viewBatchedSet (values : List KeyOpFieldsValuesTuple)
  | viewBatchedDel (keys : List Bytes)
  | earlier (call : StateTable.Call)
  | pops (c : ConsumerStateTable) (choice : SpopChoice)
  | clear
  | dump
  | apply

/-- Calls issued before the view was created may still sit in the pipeline until `clear` flushes it.
    A dump that does not parse throws, and then the view is not applied. -/
inductive Step (json : JsonDump) (p : ProducerStateTable) : State → Event → State → Prop where
  | viewSet {s : Server} {view : TableDump} {key : Bytes} {values : List FieldValueTuple} :
      key ≠ [] → Step json p ⟨s, .building view⟩ (.viewSet key values)
        ⟨s, .building (viewSet view key values)⟩
  | viewDel {s : Server} {view : TableDump} {key : Bytes} :
      key ≠ [] → Step json p ⟨s, .building view⟩ (.viewDel key) ⟨s, .building (viewDel view key)⟩
  | viewBatchedSet {s : Server} {view : TableDump} {values : List KeyOpFieldsValuesTuple} :
      (∀ value ∈ values, value.kfvKey ≠ []) →
      Step json p ⟨s, .building view⟩ (.viewBatchedSet values)
        ⟨s, .building (viewBatchedSet view values)⟩
  | viewBatchedDel {s : Server} {view : TableDump} {keys : List Bytes} :
      (∀ key ∈ keys, key ≠ []) →
      Step json p ⟨s, .building view⟩ (.viewBatchedDel keys)
        ⟨s, .building (viewBatchedDel view keys)⟩
  | earlier {s s' : Server} {view : TableDump} {call : StateTable.Call} :
      StateTable.Step p.toTableBase s call s' →
      Step json p ⟨s, .building view⟩ (.earlier call) ⟨s', .building view⟩
  | pops {s : Server} {phase : Phase} {c : ConsumerStateTable} {choice : SpopChoice} :
      c.toTableBase = p.toTableBase → 1 ≤ c.POP_BATCH_SIZE →
      Step json p ⟨s, phase⟩ (.pops c choice) ⟨(c.pops choice s).2, phase⟩
  | clear {s : Server} {view : TableDump} :
      Step json p ⟨s, .building view⟩ .clear ⟨(p.clear s).2, .cleared view⟩
  | dump {s s' : Server} {view currentState : TableDump} {data : Bytes} :
      p.dumpCommand json s = (.ok data, s') → p.readDump json data = some currentState →
      Step json p ⟨s, .cleared view⟩ .dump ⟨s', .dumped view currentState⟩
  | apply {s : Server} {view currentState : TableDump} :
      Step json p ⟨s, .dumped view currentState⟩ .apply
        ⟨(p.applyView (compareViews currentState view) s).2, .applied⟩

/-! ## Building the view -/

/-- No object of a view is empty, and none has the empty key. -/
def WellFormed (view : TableDump) : Prop :=
  ∀ (key : Bytes) v, view[key]? = some v → key ≠ [] ∧ v ≠ 1

variable {view : TableDump}

theorem WellFormed.viewAssign (h : WellFormed view) {key : Bytes} (nonempty : key ≠ [])
    (iv : FieldValueTuple) : WellFormed (viewAssign key view iv) := by
  intro j v found
  rw [ProducerStateTable.viewAssign, Std.ExtTreeMap.getElem?_insert] at found
  split at found
  · rename_i same
    obtain rfl : key = j := by simpa using same
    obtain rfl := some.inj found
    refine ⟨nonempty, fun empty => ?_⟩
    have field : ((view[key]?.getD 1).insert iv.1 iv.2)[iv.1]? = some iv.2 := by simp
    rw [empty] at field
    cases field
  · exact h j v found

theorem WellFormed.viewSet (h : WellFormed view) {key : Bytes} (nonempty : key ≠ [])
    (values : List FieldValueTuple) : WellFormed (viewSet view key values) := by
  induction values generalizing view with
  | nil => exact h
  | cons iv values ih => exact ih (h.viewAssign nonempty iv)

theorem WellFormed.viewDel (h : WellFormed view) (key : Bytes) : WellFormed (viewDel view key) := by
  intro j v found
  rw [ProducerStateTable.viewDel, getElem?_erase] at found
  split at found
  · cases found
  · exact h j v found

theorem WellFormed.viewBatchedSet (h : WellFormed view) {values : List KeyOpFieldsValuesTuple}
    (nonempty : ∀ value ∈ values, value.kfvKey ≠ []) : WellFormed (viewBatchedSet view values) := by
  induction values generalizing view with
  | nil => exact h
  | cons value values ih =>
    exact ih (h.viewSet (nonempty value (by simp)) _)
      fun other member => nonempty other (by simp [member])

theorem WellFormed.viewBatchedDel (h : WellFormed view) (keys : List Bytes) :
    WellFormed (viewBatchedDel view keys) := by
  induction keys generalizing view with
  | nil => exact h
  | cons key keys ih => exact ih (h.viewDel key)

/-- While the view is being built, the database shows some store. -/
def Built (p : ProducerStateTable) (state : State) : Prop :=
  ∀ view, state.phase = .building view →
    WellFormed view ∧ ∃ st, Shows p.toTableBase state.server.keyspace st

variable {json : JsonDump} {p : ProducerStateTable}

theorem Built.step {state state' event} (h : Built p state)
    (taken : Step json p state event state') : Built p state' := by
  intro view phase
  cases taken with
  | viewSet nonempty =>
    obtain ⟨formed, shown⟩ := h _ rfl
    obtain rfl := Phase.building.inj phase
    exact ⟨formed.viewSet nonempty _, shown⟩
  | viewDel nonempty =>
    obtain ⟨formed, shown⟩ := h _ rfl
    obtain rfl := Phase.building.inj phase
    exact ⟨formed.viewDel _, shown⟩
  | viewBatchedSet nonempty =>
    obtain ⟨formed, shown⟩ := h _ rfl
    obtain rfl := Phase.building.inj phase
    exact ⟨formed.viewBatchedSet nonempty, shown⟩
  | viewBatchedDel nonempty =>
    obtain ⟨formed, shown⟩ := h _ rfl
    obtain rfl := Phase.building.inj phase
    exact ⟨formed.viewBatchedDel _, shown⟩
  | earlier called =>
    obtain ⟨formed, st, shown⟩ := h _ rfl
    obtain rfl := Phase.building.inj phase
    obtain ⟨st', shown', -⟩ := called.simulates shown
    exact ⟨formed, st', shown'⟩
  | pops here batch =>
    obtain ⟨formed, st, shown⟩ := h view phase
    rw [← here] at shown ⊢
    obtain ⟨ks, -, settled⟩ := StateTable.pops_settles _ shown
    exact ⟨formed, _, settled⟩
  | clear | dump | apply => cases phase

/-! ## Applying the view -/

/-- From `clear` on: nothing is buffered until the difference arrives, and then
    the table converges to the view. -/
def Switching (p : ProducerStateTable) (view : TableDump) (base : Bytes → Hash) (state : State) :
    Prop :=
  match state.phase with
  | .building _ => False
  | .cleared v => v = view ∧ Shows p.toTableBase state.server.keyspace (.ofBase base)
  | .dumped v currentState =>
    v = view ∧ Shows p.toTableBase state.server.keyspace (.ofBase base) ∧
      ∀ k : Bytes, currentState[k]? = dumped (base k)
  | .applied =>
    ∃ st, Shows p.toTableBase state.server.keyspace st ∧ st.Announced ∧
      ∀ k, Matches view[k]? (base k) (st.effective k)

theorem pops_ofBase {c : ConsumerStateTable} {s base}
    (choice : SpopChoice) (h : Shows c.toTableBase s.keyspace (.ofBase base)) :
    Shows c.toTableBase (c.pops choice s).2.keyspace (.ofBase base) := by
  obtain ⟨ks, marked, settled⟩ := StateTable.pops_settles choice h
  have none : ks = [] := by
    apply eq_nil_iff_forall_not_mem.mpr
    intro k member
    simpa [ofBase] using marked k member
  rw [none] at settled
  exact settled

theorem Switching.step {base state state' event}
    (plain : Glob.Plain p.tableName) (nulFree : 0 ∉ p.tableName)
    (colon : p.separator = .colon) (formed : WellFormed view) (h : Switching p view base state)
    (taken : Step json p state event state') : Switching p view base state' := by
  cases taken with
  | viewSet | viewDel | viewBatchedSet | viewBatchedDel | earlier | clear => exact h.elim
  | @pops s phase c choice here batch =>
    cases phase with
    | building => exact h
    | cleared v =>
      obtain ⟨same, shown⟩ := h
      rw [← here] at shown
      exact ⟨same, here ▸ pops_ofBase choice shown⟩
    | dumped v currentState =>
      obtain ⟨same, shown, dump⟩ := h
      rw [← here] at shown
      exact ⟨same, here ▸ pops_ofBase choice shown, dump⟩
    | applied =>
      obtain ⟨st, shown, announced, target⟩ := h
      rw [← here] at shown
      obtain ⟨ks, -, settled⟩ := StateTable.pops_settles choice shown
      refine ⟨_, here ▸ settled, announced.settleAll ks, ?_⟩
      rwa [st.effective_settleAll ks]
  | @dump s s' v currentState data ran read =>
    obtain ⟨same, shown⟩ := h
    obtain ⟨data', s'', ran', rfl, res, rfl, content, named⟩ :=
      dumpCommand_ensures json plain nulFree colon shown.main
    rw [ran] at ran'
    obtain ⟨data, rfl⟩ := Prod.mk.inj ran'
    obtain rfl := Except.ok.inj data
    exact ⟨same, shown, readDump_spec content named read⟩
  | @apply s v currentState =>
    obtain ⟨rfl, shown, dump⟩ := h
    have nonempty : ∀ key ∈ (compareViews currentState v).tempViewState, key ≠ [] :=
      ne_nil_of_left fun key w found => (formed key w found).1
    have after := (applyView_ensures nonempty shown).finalState
    refine ⟨_, after.1, staged_announced, ?_⟩
    exact staged_matches dump fun key w found => (formed key w found).2

/-- Once consumers have emptied the key set the main table is the view, except for `NULL` fields
    that were there when the switch began, and nothing buffered before the switch has survived. -/
def SwitchesView (json : JsonDump) (p : ProducerStateTable) : Prop :=
  ∀ (s s₁ s' : Server) (st : StateStore) (view : TableDump) (before after : List Event),
    Shows p.toTableBase s.keyspace st →
    Run (Step json p) ⟨s, .building ∅⟩ before ⟨s₁, .building view⟩ →
    Run (Step json p) ⟨s₁, .building view⟩ (.clear :: after) ⟨s', .applied⟩ →
    s'.keyspace.setAt p.getKeySetName = some ∅ →
    ∃ st₁ st', Shows p.toTableBase s₁.keyspace st₁ ∧ Shows p.toTableBase s'.keyspace st' ∧
      (∀ k, Matches view[k]? (st₁.base k) (st'.base k)) ∧ st'.erased = ∅ ∧ ∀ k, st'.delta k = 1

theorem applyTempView_switches (json : JsonDump) {p : ProducerStateTable}
    (colon : p.separator = .colon) (plain : Glob.Plain p.tableName)
    (nulFree : (0 : UInt8) ∉ p.tableName) : SwitchesView json p := by
  intro s s₁ s' st view before after start built applied idle
  have initially : Built p ⟨s, .building ∅⟩ := by
    intro v phase
    obtain rfl := Phase.building.inj phase
    exact ⟨fun key v found => by simp at found, st, start⟩
  obtain ⟨formed, st₁, shown₁⟩ := built.invariant (I := fun _ => Built p) initially
    (fun h taken => h.step taken) view rfl
  obtain ⟨state, cleared, rest⟩ := applied.of_cons
  have begun : Switching p view st₁.base state := by
    cases cleared with
    | clear => exact ⟨rfl, (clear_ensures plain shown₁).finalState.1⟩
  obtain ⟨st', shown', announced, target⟩ := rest.invariant
    (I := fun _ => Switching p view st₁.base) begun
    fun h taken => h.step plain nulFree colon formed taken
  have empty : st'.dirty = ∅ := some.inj (shown'.keySet.symm.trans idle)
  obtain ⟨main, clean, unbuffered⟩ := announced.quiescent empty
  exact ⟨st₁, st', shown₁, shown', fun k => main ▸ target k, clean, congrFun unbuffered⟩

private theorem pops_empties {c : ConsumerStateTable} {s : Server} {st : StateStore}
    (choice : SpopChoice) (nulFree : 0 ∉ c.tableName) (h : Shows c.toTableBase s.keyspace st)
    (few : st.dirty.card ≤ c.POP_BATCH_SIZE) :
    (c.pops choice s).2.keyspace.setAt c.getKeySetName = some ∅ := by
  have reply := choice.reply st.dirty c.POP_BATCH_SIZE
  have all : st.dirty ⊆ (choice.pick st.dirty c.POP_BATCH_SIZE).toFinset := by
    refine (Finset.eq_of_subset_of_card_le (fun k member => ?_) ?_).superset
    · exact reply.subset k (mem_toFinset.mp member)
    · rw [toFinset_card_of_nodup reply.nodup, reply.length, Nat.min_eq_right few]
  have after := ((ConsumerStateTable.pops_ensures choice nulFree h).mono
    fun _ _ popped => popped.2.shown.keySet).finalState
  rw [after, WriteBehind.dirty_settleAll, Finset.sdiff_eq_empty_iff_subset.mpr all]

/-- A view with another value for one port and without the other, and a consumer that pops both
    keys. -/
theorem applyTempView_switches_port :
    let p : ProducerStateTable := ⟨⟨ascii "PORT", .colon⟩, 0, false, false⟩
    let mtu (value : Bytes) : Hash := ofFields [(ascii "mtu", value)]
    let s : Server := ⟨((∅ : Keyspace).write (p.mainName (ascii "e4"))
      (ofHash (mtu (ascii "1500")))).write (p.mainName (ascii "e0"))
      (ofHash (mtu (ascii "1500"))), []⟩
    let json : JsonDump := .only (((∅ : TableDump).insert (ascii "PORT:e0")
        (mtu (ascii "1500"))).insert (ascii "PORT:e4") (mtu (ascii "1500")))
      (ascii "\x7b\"PORT:e0\":\x7b\"mtu\":\"1500\"\x7d,\"PORT:e4\":\x7b\"mtu\":\"1500\"\x7d\x7d")
      (by decide)
    ∃ s' st', Run (Step json p) ⟨s, .building ∅⟩
        [.viewSet (ascii "e0") [(ascii "mtu", ascii "9100")], .clear, .dump, .apply,
          .pops ⟨p.toTableBase, 2⟩ .listed] ⟨s', .applied⟩ ∧
      Shows p.toTableBase s'.keyspace st' ∧
      (st'.base (ascii "e0"))[ascii "mtu"]? = some (ascii "9100") ∧ st'.base (ascii "e4") = 1 := by
  intro p mtu s json
  let view := viewSet ∅ (ascii "e0") [(ascii "mtu", ascii "9100")]
  let current : TableDump := ((∅ : TableDump).insert (ascii "e0") (mtu (ascii "1500"))).insert
    (ascii "e4") (mtu (ascii "1500"))
  have first : Shows p.toTableBase ((∅ : Keyspace).write (p.mainName (ascii "e4"))
      (ofHash (mtu (ascii "1500"))))
      (.ofBase (Function.update (fun _ => 1) (ascii "e4") (mtu (ascii "1500")))) :=
    (shows_empty _).writeMain (hash?_ofHash _)
  have shown : Shows p.toTableBase s.keyspace (.ofBase (Function.update _ _ _)) :=
    first.writeMain (k := ascii "e0") (hash?_ofHash (mtu (ascii "1500")))
  have built : Run (Step json p) ⟨s, .building ∅⟩
      [.viewSet (ascii "e0") [(ascii "mtu", ascii "9100")]] ⟨s, .building view⟩ :=
    .single (.viewSet (by decide))
  have dumped : p.dumpCommand json (p.clear s).2 = (.ok (ascii
    "\x7b\"PORT:e0\":\x7b\"mtu\":\"1500\"\x7d,\"PORT:e4\":\x7b\"mtu\":\"1500\"\x7d\x7d"),
    (p.clear s).2) := rfl
  have cleared := (clear_ensures (p := p) (by decide) shown).finalState.1
  have named : ∀ key ∈ (compareViews current view).tempViewState, key ≠ [] :=
    ne_nil_of_left (OrderedMap.forall_entries (by decide))
  have staged := (applyView_ensures named cleared).finalState.1
  have idle := pops_empties (c := ⟨p.toTableBase, 2⟩) .listed (by decide) staged (by decide)
  have applied : Run (Step json p) ⟨s, .building view⟩
      [.clear, .dump, .apply, .pops ⟨p.toTableBase, 2⟩ .listed] ⟨_, .applied⟩ :=
    .cons .clear (.cons (.dump dumped (show _ = some current by decide))
      (.cons .apply (.single (.pops rfl (by decide)))))
  obtain ⟨st₁, st', -, shown', target, -⟩ :=
    applyTempView_switches json (p := p) rfl (by decide) (by decide) _ _ _ _ view _ _ shown built
      applied idle
  refine ⟨_, st', built.append applied, shown', ?_, ?_⟩
  · exact (target (ascii "e0")).field _ (by decide)
  · exact not_not.mp ((target (ascii "e4")).present.not.mpr (by decide))

/-! ## Names the commands read differently

The dump script takes the table name for a pattern, and the dump command takes it
for a C string. -/

section Misread

def entry : Hash :=
  ofFields [(ascii "f", ascii "1")]

/-- A producer of a table that is called `A?`, next to a table `AB`. -/
def globProducer : ProducerStateTable :=
  ⟨⟨ascii "A?", .colon⟩, 0, false, false⟩

def globServer : Server :=
  ⟨(∅ : Keyspace).write (ascii "AB:k") (ofHash entry), []⟩

def globJson : JsonDump :=
  .only ((∅ : TableDump).insert (ascii "AB:k") entry) (ascii "\x7b\"AB:k\":\x7b\"f\":\"1\"\x7d\x7d")
    (by decide)

theorem globServer_shows :
    Shows globProducer.toTableBase globServer.keyspace (.ofBase fun _ => 1) := by
  have foreign : globProducer.Foreign (ascii "AB:k") := by
    refine ⟨by decide, by decide, fun k same => ?_, fun k same => ?_⟩
    · have second : (globProducer.pendingName k)[1]? = some 65 := rfl
      rw [← same] at second
      exact absurd second (by decide)
    · have second : (globProducer.mainName k)[1]? = some 63 := rfl
      rw [← same] at second
      exact absurd second (by decide)
  exact (shows_empty _).writeForeign foreign (ofHash entry)

def nulProducer : ProducerStateTable :=
  ⟨⟨[65, 0], .colon⟩, 0, false, false⟩

def nulServer : Server :=
  ⟨(∅ : Keyspace).write (nulProducer.mainName (ascii "k")) (ofHash entry), []⟩

def nulJson : JsonDump :=
  .only ∅ (ascii "\x7b\x7d") (by decide)

theorem nulServer_shows : Shows nulProducer.toTableBase nulServer.keyspace
    (.ofBase (Function.update (fun _ => 1) (ascii "k") entry)) :=
  (shows_empty _).writeMain (hash?_ofHash entry)

/-- The object of `AB` passes for one of `A?` and is never written; that of the table with a NUL in
    its name is never deleted. -/
theorem applyTempView_misreads :
    ¬ SwitchesView globJson globProducer ∧ ¬ SwitchesView nulJson nulProducer := by
  constructor
  · intro promise
    let view := viewSet ∅ (ascii "k") [(ascii "f", ascii "1")]
    have dumped : globProducer.dumpCommand globJson (globProducer.clear globServer).2 =
      (.ok (ascii "\x7b\"AB:k\":\x7b\"f\":\"1\"\x7d\x7d"), _) := rfl
    obtain ⟨st₁, st', -, shown, target, -⟩ := promise globServer globServer _ _ view
      [.viewSet (ascii "k") [(ascii "f", ascii "1")]] [.dump, .apply] globServer_shows
      (.single (.viewSet (by decide)))
      (.cons .clear (.cons (.dump dumped (show _ = some view by decide)) (.single .apply)))
      (by decide)
    have present := (target (ascii "k")).present.mpr (by decide)
    let after := (globProducer.applyView (compareViews view view)
      (globProducer.clear globServer).2).2
    have absent : after.keyspace.hashAt (globProducer.mainName (ascii "k")) = some 1 := by decide
    exact present (some.inj ((shown.main (ascii "k")).symm.trans absent))
  · intro promise
    have dumped : nulProducer.dumpCommand nulJson (nulProducer.clear nulServer).2 =
      (.ok (ascii "\x7b\x7d"), _) := rfl
    obtain ⟨st₁, st', -, shown, target, -⟩ := promise nulServer nulServer _ _ ∅ [] [.dump, .apply]
      nulServer_shows (.refl _)
      (.cons .clear (.cons (.dump dumped (show _ = some ∅ by decide)) (.single .apply)))
      (by decide)
    have absent := (target (ascii "k")).present.not.mpr (by decide)
    let after := (nulProducer.applyView (compareViews ∅ ∅) (nulProducer.clear nulServer).2).2
    have kept : after.keyspace.hashAt (nulProducer.mainName (ascii "k")) = some entry := by decide
    have main := some.inj (kept.symm.trans (shown.main (ascii "k")))
    exact absent fun gone => absurd (main.trans gone) (by decide)

end Misread

end ViewSwitch

end SwssCommon
