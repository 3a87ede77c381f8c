import SwssCommon.Redis.Reads
import SwssCommon.StateTable.ViewSwitch

/-! # The least a view switch has to hand over

After its last script a view switch has filed exactly the keys at which the main table and the view
differ, marked for deletion those that lose a field, and buffered the view there. The script reads
every word of its argument list and none beyond.
-/

namespace SwssCommon.ProducerStateTable

open Bytes Redis Script List ViewSwitch

variable {p : ProducerStateTable}

/-! ## The words the script reads -/

/-- `luaApplyView` with a log of the arguments it reads. -/
def loggedApplyView (KEYS ARGV : List Bytes) : Logged Unit := do
  let toSet ← toNumber (← Logged.argument ARGV 2)
  Logged.foldRange 1 toSet () fun i _ => do
    let _ ← sadd (← argument KEYS 2) (← Logged.argument ARGV (2 + i))
  let arg_start := 2 + toSet + 1
  let toDel ← toNumber (← Logged.argument ARGV arg_start)
  Logged.foldRange 1 toDel () fun i _ => do
    let _ ← sadd (← argument KEYS 3) (← Logged.argument ARGV (arg_start + i))
  let arg_start := arg_start + toDel + 1
  let _ ← Logged.foldRange 4 (KEYS.length - 3) arg_start fun j arg_start => do
    let count ← toNumber (← Logged.argument ARGV arg_start)
    Logged.foldRange 1 count () fun i _ => do
      let _ ← hset (← argument KEYS j) (← Logged.argument ARGV (arg_start + i * 2 - 1))
        (← Logged.argument ARGV (arg_start + i * 2))
    pure (arg_start + 2 * count + 1)
  publish (← argument KEYS 1) (← Logged.argument ARGV 1)

theorem loggedApplyView_erases (KEYS ARGV : List Bytes) :
    Logged.Erases (loggedApplyView KEYS ARGV) (luaApplyView KEYS ARGV) := by
  have file : ∀ (key : Nat) (position : Nat → Nat) (i : Nat), Logged.Erases
      (do let _ ← sadd (← argument KEYS key) (← Logged.argument ARGV (position i)))
      (do let _ ← sadd (← argument KEYS key) (← argument ARGV (position i))) := by
    intro key position i
    refine .bind (.lift _) fun _ => .bind (.argument _ _) fun _ => ?_
    exact .bind (.lift _) fun _ => .pure ()
  refine .bind (.argument _ _) fun _ => .bind (.lift _) fun toSet => ?_
  refine .bind (.foldRange (fun i _ => file 2 _ i) _ _ _) fun _ => ?_
  refine .bind (.argument _ _) fun _ => .bind (.lift _) fun toDel => ?_
  refine .bind (.foldRange (fun i _ => file 3 _ i) _ _ _) fun _ => ?_
  refine .bind (.foldRange (fun j arg_start => ?_) _ _ _) fun _ => ?_
  · refine .bind (.argument _ _) fun _ => .bind (.lift _) fun count => ?_
    refine .bind (.foldRange (fun i _ => ?_) _ _ _) fun _ => .pure _
    refine .bind (.lift _) fun _ => .bind (.argument _ _) fun _ => ?_
    exact .bind (.argument _ _) fun _ => .bind (.lift _) fun _ => .pure ()
  · exact .bind (.lift _) fun _ => .bind (.argument _ _) fun _ => .lift _

section Reads

open Logged

variable {KEYS ARGV : List Bytes}

theorem fileLoop_reads {keys : List Bytes} {key o}
    (word : ∀ {i w}, keys[i]? = some w → ARGV[o + i]? = some w) :
    Reads (Logged.foldRange 1 keys.length () fun i _ => do
      let _ ← sadd (← Script.argument KEYS key) (← Logged.argument ARGV (o + i)))
      fun _ => Covers (o + 1) (o + keys.length + 1) := by
  refine .mono ?_ (.foldRange (fun i _ => Covers (o + 1) (o + i)) (.nil _) ?_)
  · intro _ read covered
    rw [show o + (1 + keys.length) = o + keys.length + 1 by omega] at covered
    exact covered
  · intro i _ read low high covered
    obtain ⟨j, rfl⟩ := Nat.exists_eq_add_of_le low
    obtain ⟨w, found⟩ : ∃ w, keys[j]? = some w := ⟨_, getElem?_eq_getElem (by omega)⟩
    refine .bind (.lift fun _ => .bind (.argument (j := o + j) (by omega) (word found) ?_))
    refine .bind (.lift fun _ => .pure ?_)
    exact covered.append (.single _) (by omega)

theorem fieldLoop_reads {j arg_start count} (inside : arg_start + 2 * count ≤ ARGV.length) :
    Reads (Logged.foldRange 1 count () fun i _ => do
      let _ ← hset (← Script.argument KEYS j) (← Logged.argument ARGV (arg_start + i * 2 - 1))
        (← Logged.argument ARGV (arg_start + i * 2)))
      fun _ => Covers (arg_start + 1) (arg_start + 2 * count + 1) := by
  refine .mono ?_ (.foldRange (fun i _ => Covers (arg_start + 1) (arg_start + i * 2 - 1)) ?_ ?_)
  · intro _ read covered
    rw [show arg_start + (1 + count) * 2 - 1 = arg_start + 2 * count + 1 by omega] at covered
    exact covered
  · exact .nil _
  · intro i _ read low high covered
    have word : ∀ {k}, k < ARGV.length → ∃ w, ARGV[k]? = some w :=
      fun bound => ⟨_, getElem?_eq_getElem bound⟩
    obtain ⟨field, found⟩ := word (show arg_start + i * 2 - 2 < ARGV.length by omega)
    obtain ⟨value, found'⟩ := word (show arg_start + i * 2 - 1 < ARGV.length by omega)
    refine .bind (.lift fun _ => .bind (.argument (by omega) found ?_))
    refine .bind (.argument (by omega) found' (.bind (.lift fun _ => .pure ?_)))
    have first := covered.append (.single _) (by omega)
    have second := first.append (.single _) (by omega)
    rw [show arg_start + i * 2 - 1 + 1 = arg_start + i * 2 by omega] at second
    rw [show arg_start + (i + 1) * 2 - 1 = arg_start + i * 2 + 1 by omega]
    simpa using second

theorem objectLoop_reads {entries : List (Bytes × TableMap)} {o}
    (word : ∀ {i w}, (entries.flatMap objectWords)[i]? = some w → ARGV[o + i]? = some w) :
    Reads (Logged.foldRange 4 entries.length (o + 1) fun j arg_start => do
      let count ← toNumber (← Logged.argument ARGV arg_start)
      Logged.foldRange 1 count () fun i _ => do
        let _ ← hset (← Script.argument KEYS j) (← Logged.argument ARGV (arg_start + i * 2 - 1))
          (← Logged.argument ARGV (arg_start + i * 2))
      pure (arg_start + 2 * count + 1))
      fun _ => Covers (o + 1) (o + 1 + (entries.flatMap objectWords).length) := by
  refine .mono ?_ (.foldRange (fun n arg_start read =>
    arg_start = o + 1 + ((entries.take (n - 4)).flatMap objectWords).length ∧
      Covers (o + 1) arg_start read) ⟨rfl, .nil _⟩ ?_)
  · intro _ read covered
    rw [Nat.add_sub_cancel_left, take_length] at covered
    exact covered.1 ▸ covered.2
  · intro n arg_start read above inside covered
    obtain ⟨i, rfl⟩ := Nat.exists_eq_add_of_le above
    rw [Nat.add_sub_cancel_left] at covered
    obtain ⟨position, covered⟩ := covered
    obtain ⟨kfvPair, found⟩ : ∃ kfvPair, entries[i]? = some kfvPair :=
      ⟨_, getElem?_eq_getElem (by omega)⟩
    have size : (objectWords kfvPair).length = 2 * kfvPair.2.size + 1 := by
      simp [objectWords, flatten_length, Nat.mul_comm]
    have here : ∀ {j w}, (objectWords kfvPair)[j]? = some w →
        ARGV[arg_start - 1 + j]? = some w := by
      intro j w atWord
      have shifted := word (flatMap_getElem? objectWords found atWord)
      rw [show arg_start - 1 + j = o + (((entries.take i).flatMap objectWords).length + j) by omega]
      exact shifted
    have last := here (List.getElem?_eq_getElem (show 2 * kfvPair.2.size < _ by omega))
    have bound := (List.getElem?_eq_some_iff.mp last).1
    refine .bind (.argument (by omega) (here (j := 0) rfl) (.bind (.toNumber ?_)))
    refine .bind (.mono ?_ (fieldLoop_reads (by omega)))
    intro _ fields covered'
    refine .pure ⟨?_, ?_⟩
    · rw [show 4 + i + 1 - 4 = i + 1 by omega, take_add_one, found, Option.toList_some,
        flatMap_append, length_append, flatMap_singleton]
      omega
    · have whole := covered.append ((Covers.single arg_start).append covered' (by omega)) (by omega)
      simpa using whole

theorem applyView_reads (diff : ViewDiff) :
    Reads (loggedApplyView (diff.KEYS p) diff.ARGV)
      fun _ => Covers 1 (diff.ARGV.length + 1) := by
  let n := diff.keysToSet.length
  let m := diff.keysToDel.length
  have set : ∀ {i w}, diff.keysToSet[i]? = some w → diff.ARGV[2 + i]? = some w := by
    intro i w found
    rw [Nat.add_comm]
    exact ViewDiff.ARGV_set found
  have del : ∀ {i w}, diff.keysToDel[i]? = some w → diff.ARGV[2 + n + 1 + i]? = some w := by
    intro i w found
    rw [show 2 + n + 1 + i = n + (i + 1) + 2 by omega]
    exact ViewDiff.ARGV_del found
  have object : ∀ {i w}, (diff.tempViewState.toList.flatMap objectWords)[i]? = some w →
      diff.ARGV[2 + n + 1 + m + i]? = some w := by
    intro i w found
    rw [show 2 + n + 1 + m + i = n + m + 3 + i by omega]
    exact ViewDiff.ARGV_object found
  have length := diff.length_ARGV
  unfold loggedApplyView
  rw [show (diff.KEYS p).length - 3 = diff.tempViewState.toList.length by simp [ViewDiff.KEYS]]
  refine .bind (.argument (j := 1) rfl rfl (.bind (.toNumber ?_)))
  refine .bind (.mono ?_ (fileLoop_reads set))
  intro _ sets covered
  refine .bind (.argument (j := n + 0 + 2) (by omega) (diff.ARGV_rest 0) ?_)
  refine .bind (.toNumber (.bind (.mono ?_ (fileLoop_reads del))))
  intro _ dels covered'
  refine .bind (.mono ?_ (objectLoop_reads object))
  intro _ objects covered''
  refine .bind (.lift fun _ => .bind (.argument (j := 0) rfl rfl (.lift fun _ => ?_)))
  intro i
  have inSets := covered i
  have inDels := covered' i
  have inObjects := covered'' i
  simp only [mem_append, mem_singleton, not_mem_nil, false_or, or_false, inSets, inDels, inObjects]
  omega

end Reads

/-! ## What is handed over -/

def entryOf (main : Bytes → Hash) (key : Bytes) : Option TableMap :=
  if main key = 1 then none else some (main key)

/-- The key set holds the keys that differ, the delete set those that lose a field, and the
    view is buffered at the former. -/
structure Minimal (p : ProducerStateTable) (main : Bytes → Hash) (view : TableDump)
    (ks : Keyspace) : Prop where
  keySet : ∃ dirty, ks.setAt p.getKeySetName = some dirty ∧
    ∀ key, key ∈ dirty ↔ entryOf main key ≠ view[key]?
  delSet : ∃ erased, ks.setAt p.getDelKeySetName = some erased ∧
    ∀ key, key ∈ erased ↔ main key ≠ 1 ∧
      ∀ v, view[key]? = some v → ∃ f : Bytes, (main key)[f]? ≠ none ∧ v[f]? = none
  pending : ∀ key, ks.hashAt (p.pendingName key) =
    some (if entryOf main key ≠ view[key]? then view[key]?.getD 1 else 1)

/-- The three commands of `apply_temp_view` in a row, from any state of the database. -/
def SwitchesMinimally (json : JsonDump) (p : ProducerStateTable) : Prop :=
  ∀ (s s₁ : Server) (main : Bytes → Hash) (view currentState : TableDump) (data : Bytes),
    (∀ key, s.keyspace.hashAt (p.mainName key) = some (main key)) →
    (∀ key, (main key)[nullField]? = none) →
    (∀ (key : Bytes) v, view[key]? = some v → key ≠ [] ∧ v[nullField]? = none) →
    p.dumpCommand json (p.clear s).2 = (.ok data, s₁) →
    p.readDump json data = some currentState →
    let diff := compareViews currentState view
    ∃ s' log, p.applyView diff s₁ = (.ok (), s') ∧ Minimal p main view s'.keyspace ∧
      (loggedApplyView (diff.KEYS p) diff.ARGV).run [] s₁ = (.ok ((), log), s') ∧
      ∀ i, i ∈ log ↔ 1 ≤ i ∧ i ≤ diff.ARGV.length

theorem withoutNull_eq {h} (noNull : h[nullField]? = none) : withoutNull h = h := by
  refine Hash.ext fun f => ?_
  rw [getElem?_withoutNull]
  split
  · rename_i isNull
    rw [isNull, noNull]
  · rfl

theorem dumped_eq_entryOf {main key}
    (noNull : (main key)[nullField]? = none) :
    TableBase.dumped (main key) = entryOf main key := by
  rw [TableBase.dumped, entryOf, withoutNull_eq noNull]

theorem minimal_of_staged {main view currentState ks}
    (current : ∀ key, currentState[key]? = entryOf main key)
    (shown : Shows p.toTableBase ks ((compareViews currentState view).staged (.ofBase main))) :
    Minimal p main view ks := by
  have spec := compareViews_spec currentState view
  simp only [current] at spec
  refine ⟨⟨_, shown.keySet, fun key => ?_⟩, ⟨_, shown.delSet, fun key => ?_⟩, fun key => ?_⟩
  · rw [mem_dirty_staged, (spec key).1]
  · rw [mem_erased_staged, (spec key).2.1]
    by_cases absent : main key = 1
    · simp [entryOf]
    · simp [entryOf]
  · rw [shown.pending, delta_staged_ofBase, (spec key).2.2]
    by_cases same : entryOf main key = view[key]?
    · simp [same]
    · simp [same]

theorem applyTempView_minimal (json : JsonDump) {p : ProducerStateTable}
    (colon : p.separator = .colon) (plain : Glob.Plain p.tableName)
    (nulFree : (0 : UInt8) ∉ p.tableName) : SwitchesMinimally json p := by
  intro s s₁ main view currentState data mains noNull views dumped read diff
  have cleared := (clear_leaves plain mains).finalState.1
  obtain ⟨data', s₂, ran, rfl, res, rfl, content, named⟩ :=
    TableBase.dumpCommand_ensures json plain nulFree colon cleared.main
  cases dumped.symm.trans ran
  have current : ∀ key : Bytes, currentState[key]? = entryOf main key := by
    intro key
    rw [TableBase.readDump_spec content named read key]
    exact dumped_eq_entryOf (noNull key)
  obtain ⟨_, s', applied, shown, -⟩ :=
    applyView_ensures (ne_nil_of_left fun key v found => (views key v found).1) cleared
  have erases := loggedApplyView_erases (diff.KEYS p) diff.ARGV
  rw [← applyView_eq] at erases
  obtain ⟨log, logged⟩ := erases.completes applied []
  obtain ⟨positions, same, covered⟩ := applyView_reads diff _ _ _ _ _ logged
  refine ⟨s', log, applied, minimal_of_staged current shown, logged, fun i => ?_⟩
  rw [same, nil_append, covered, Nat.lt_succ_iff]

private theorem noNull_update {k h} (noNull : h[nullField]? = none) (key : Bytes) :
    (Function.update (fun _ => (1 : Hash)) k h key)[nullField]? = none := by
  by_cases here : key = k
  · rw [here, Function.update_self, noNull]
  · rw [Function.update_of_ne here, Hash.getElem?_one]

/-- The port gets another `mtu`: it is filed, but not marked for deletion. -/
theorem applyTempView_minimal_port :
    let p : ProducerStateTable := ⟨⟨ascii "PORT", .colon⟩, 0, false, false⟩
    let mtu : Hash := Hash.ofFields [(ascii "mtu", ascii "9100")]
    let main : Bytes → Hash := Function.update (fun _ => 1) (ascii "e0") mtu
    let s : Server := ⟨(∅ : Keyspace).write (p.mainName (ascii "e0")) (Value.ofHash mtu), []⟩
    let view := viewSet ∅ (ascii "e0") [(ascii "mtu", ascii "9000")]
    let diff := compareViews (viewSet ∅ (ascii "e0") [(ascii "mtu", ascii "9100")]) view
    ∃ s', p.applyView diff (p.clear s).2 = (.ok (), s') ∧ Minimal p main view s'.keyspace ∧
      s'.keyspace.setAt (ascii "PORT_KEY_SET") = some {ascii "e0"} ∧
      s'.keyspace.setAt (ascii "PORT_DEL_SET") = some ∅ := by
  intro p mtu main s view diff
  let json : JsonDump := .only ((∅ : TableDump).insert (ascii "PORT:e0") mtu)
    (ascii "\x7b\"PORT:e0\":\x7b\"mtu\":\"9100\"\x7d\x7d") (by decide)
  have shown : Shows p.toTableBase s.keyspace (.ofBase main) :=
    (shows_empty _).writeMain (Value.hash?_ofHash mtu)
  have dumped : p.dumpCommand json (p.clear s).2 =
    (.ok (ascii "\x7b\"PORT:e0\":\x7b\"mtu\":\"9100\"\x7d\x7d"), (p.clear s).2) := rfl
  obtain ⟨s', log, applied, minimal, -⟩ := applyTempView_minimal json (p := p) rfl (by decide)
    (by decide) s _ main view _ _ shown.main (noNull_update (by decide))
    (OrderedMap.forall_entries (by decide)) dumped
    (show _ = some (viewSet ∅ (ascii "e0") [(ascii "mtu", ascii "9100")]) by decide)
  have final : s' = (p.applyView diff (p.clear s).2).2 := (congrArg Prod.snd applied).symm
  refine ⟨s', applied, minimal, ?_, ?_⟩
  · rw [final]
    decide
  · rw [final]
    decide

/-- The object of `AB` is taken for one of `A?`, so its key is not filed; and that of the table with
    a NUL in its name is overlooked. -/
theorem applyTempView_misfiles :
    ¬ SwitchesMinimally globJson globProducer ∧
      ¬ SwitchesMinimally nulJson nulProducer := by
  constructor
  · intro promise
    let p := globProducer
    let s := globServer
    let view := viewSet ∅ (ascii "k") [(ascii "f", ascii "1")]
    have dumped : p.dumpCommand globJson (p.clear s).2 =
      (.ok (ascii "\x7b\"AB:k\":\x7b\"f\":\"1\"\x7d\x7d"), _) := rfl
    obtain ⟨s', log, applied, minimal, -⟩ := promise s _ (fun _ => 1) view view _
      globServer_shows.main (fun _ => Hash.getElem?_one _)
      (OrderedMap.forall_entries (by decide)) dumped (show _ = some view by decide)
    obtain ⟨dirty, keySet, filed⟩ := minimal.keySet
    rw [← show _ = s' from congrArg Prod.snd applied] at keySet
    have empty : (p.applyView (compareViews view view) (p.clear s).2).2.keyspace.setAt
      p.getKeySetName = some ∅ := by decide
    cases keySet.symm.trans empty
    exact absurd ((filed (ascii "k")).mpr (by decide)) (Finset.notMem_empty _)
  · intro promise
    let p := nulProducer
    let s := nulServer
    have dumped : p.dumpCommand nulJson (p.clear s).2 = (.ok (ascii "\x7b\x7d"), _) :=
      rfl
    obtain ⟨s', log, applied, minimal, -⟩ := promise s _ _ ∅ ∅ _
      nulServer_shows.main (noNull_update (by decide))
      (fun key v found => by simp at found) dumped (show _ = some ∅ by decide)
    obtain ⟨dirty, keySet, filed⟩ := minimal.keySet
    rw [← show _ = s' from congrArg Prod.snd applied] at keySet
    have empty : (p.applyView (compareViews ∅ ∅) (p.clear s).2).2.keyspace.setAt
      p.getKeySetName = some ∅ := by decide
    cases keySet.symm.trans empty
    exact absurd ((filed (ascii "k")).mpr (by decide)) (Finset.notMem_empty _)

end SwssCommon.ProducerStateTable
