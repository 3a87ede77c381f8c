import SwssCommon.StateTable.ViewSwitch

/-! # What clearing a table does to the others

`clear` lists the pending hashes of its table by a pattern that ends after the table name, without
the separator. So it takes in those of every table whose name goes on from there, and everything of
a table whose name starts with the prefix of pending hashes.
-/

namespace SwssCommon.TableBase

open Bytes Redis Script List

/-- Everything the table keeps in the database is what it was. -/
structure Untouched (t : TableBase) (ks ks' : Keyspace) : Prop where
  keySet : ks'[t.getKeySetName]? = ks[t.getKeySetName]?
  delSet : ks'[t.getDelKeySetName]? = ks[t.getDelKeySetName]?
  pending : ∀ k, ks'[t.pendingName k]? = ks[t.pendingName k]?
  main : ∀ k, ks'[t.mainName k]? = ks[t.mainName k]?

/-- The pattern that clears `p` misses the names of `t`. -/
structure Misses (p t : TableBase) : Prop where
  names : ¬ p.tableName <+: t.tableName
  keySet : ¬ p.getStateHashPrefix ++ p.tableName <+: t.getKeySetName
  delSet : ¬ p.getStateHashPrefix ++ p.tableName <+: t.getDelKeySetName

variable {p t : TableBase}

private theorem prefix_of_mainName {a k : Bytes} (free : t.separator.byte ∉ a)
    (h : a <+: t.mainName k) : a <+: t.tableName := by
  rw [mainName, append_assoc] at h
  exact prefix_of_separatorFree free h

private theorem separator_notMem_stateHashPrefix (t : TableBase) :
    t.separator.byte ∉ ascii "_" := by
  cases t.separator <;> decide

private theorem separator_mem_mainName (t : TableBase) (k : Bytes) :
    t.separator.byte ∈ t.mainName k := by
  simp [mainName, getTableNameSeparator]

theorem Misses.pattern (misses : p.Misses t) (free : t.separator.byte ∉ p.tableName) (k : Bytes) :
    ¬ p.getStateHashPrefix ++ p.tableName <+: t.pendingName k ∧
      ¬ p.getStateHashPrefix ++ p.tableName <+: t.mainName k := by
  constructor
  · intro matched
    have rest : p.tableName <+: t.mainName k := (prefix_append_right_inj (ascii "_")).mp matched
    exact misses.names (prefix_of_mainName free rest)
  · intro matched
    have noSeparator : t.separator.byte ∉ p.getStateHashPrefix ++ p.tableName := by
      intro member
      rcases mem_append.mp member with inPrefix | inName
      · exact t.separator_notMem_stateHashPrefix inPrefix
      · exact free inName
    have name := prefix_of_mainName noSeparator matched
    exact misses.keySet (name.trans (prefix_append _ _))

theorem Misses.sets (misses : p.Misses t) (free : t.separator.byte ∉ p.tableName) {suffix}
    (sets : suffix = ascii "_KEY_SET" ∨ suffix = ascii "_DEL_SET") :
    (t.getKeySetName ≠ p.tableName ++ suffix ∧ t.getDelKeySetName ≠ p.tableName ++ suffix) ∧
      ∀ k, t.pendingName k ≠ p.tableName ++ suffix ∧ t.mainName k ≠ p.tableName ++ suffix := by
  have different : t.tableName ≠ p.tableName := by
    intro same
    exact misses.names (same ▸ prefix_rfl)
  have noSeparator : t.separator.byte ∉ p.tableName ++ suffix := by
    intro member
    rcases mem_append.mp member with inName | inSuffix
    · exact free inName
    · obtain rfl | rfl := sets <;> exact absurd inSuffix (by cases t.separator <;> decide)
  have ends : ∀ {other : Bytes}, other = ascii "_KEY_SET" ∨ other = ascii "_DEL_SET" →
      t.tableName ++ other ≠ p.tableName ++ suffix := by
    intro other known same
    have long : other.length = suffix.length := by
      obtain rfl | rfl := known <;> obtain rfl | rfl := sets <;> decide
    exact different (append_inj' same long).1
  refine ⟨⟨ends (.inl rfl), ends (.inr rfl)⟩, fun k => ⟨fun same => ?_, fun same => ?_⟩⟩
  · apply noSeparator
    rw [← same, pendingName]
    exact mem_append_right _ (t.separator_mem_mainName k)
  · apply noSeparator
    rw [← same]
    exact t.separator_mem_mainName k

end SwssCommon.TableBase

namespace SwssCommon.ProducerStateTable

open Bytes Redis Script

variable {p : ProducerStateTable} {t : TableBase}

theorem clear_reaches (plain : Glob.Plain p.tableName) (name : Bytes)
    (matched : p.getStateHashPrefix ++ p.tableName <+: name) (s : Server) :
    (p.clear s).2.keyspace[name]? = none := by
  obtain ⟨-, dropped⟩ := (p.clear_drops s).finalState
  rw [dropped, if_pos (.inr (.inr ((clear_pattern plain name).mpr matched)))]

/-- Clearing a table, and dumping it afterwards as `apply_temp_view` does, leaves the
    tables alone that its pattern misses. -/
theorem clear_confined (json : JsonDump) (plain : Glob.Plain p.tableName)
    (free : t.separator.byte ∉ p.tableName) (misses : p.Misses t) (s : Server) :
    t.Untouched s.keyspace (p.clear s).2.keyspace ∧
      t.Untouched s.keyspace (p.dumpCommand json (p.clear s).2).2.keyspace := by
  obtain ⟨-, dropped⟩ := (p.clear_drops s).finalState
  simp only [clear_pattern plain] at dropped
  have kept : ∀ name : Bytes, name ≠ p.getKeySetName → name ≠ p.getDelKeySetName →
      ¬ p.getStateHashPrefix ++ p.tableName <+: name →
      (p.clear s).2.keyspace[name]? = s.keyspace[name]? := by
    intro name notKeySet notDelSet unmatched
    rw [dropped, if_neg]
    rintro (keySet | delSet | matched)
    · exact notKeySet keySet
    · exact notDelSet delSet
    · exact unmatched matched
  have keySets := misses.sets free (.inl rfl)
  have delSets := misses.sets free (.inr rfl)
  have confined : t.Untouched s.keyspace (p.clear s).2.keyspace := {
    keySet := kept _ keySets.1.1 delSets.1.1 misses.keySet
    delSet := kept _ keySets.1.2 delSets.1.2 misses.delSet
    pending := fun k => kept _ (keySets.2 k).1 (delSets.2 k).1 (misses.pattern free k).1
    main := fun k => kept _ (keySets.2 k).2 (delSets.2 k).2 (misses.pattern free k).2 }
  exact ⟨confined, p.dumpCommand_preserves json (fun s' => t.Untouched s.keyspace s'.keyspace)
    (p.clear s).2 confined⟩

/-- Two tables next to each other. -/
theorem clear_confined_lag :
    let port : ProducerStateTable := ⟨⟨ascii "PORT_TABLE", .colon⟩, 0, false, false⟩
    let lag : TableBase := ⟨ascii "LAG_TABLE", .colon⟩
    let s : Server := ⟨(∅ : Keyspace).write (lag.pendingName (ascii "PortChannel1"))
      (Value.ofHash (Hash.ofFields [(ascii "mtu", ascii "9100")])), []⟩
    lag.Untouched s.keyspace (port.clear s).2.keyspace := by
  intro port lag s
  exact (clear_confined (.only ∅ (ascii "\x7b\x7d") (by decide)) (p := port) (t := lag) (by decide)
    (by decide) ⟨by decide, by decide, by decide⟩ s).1

/-- Clearing one table drops what is buffered for another whose name goes on after its own, and the
    key set of one named with the prefix of pending hashes. -/
theorem clear_spills :
    let port : ProducerStateTable := ⟨⟨ascii "PORT_TABLE", .colon⟩, 0, false, false⟩
    let peer : TableBase := ⟨ascii "PORT_TABLE_PEER", .colon⟩
    let shadow : TableBase := ⟨ascii "_PORT_TABLE", .colon⟩
    (∃ s : Server, ¬ peer.Untouched s.keyspace (port.clear s).2.keyspace) ∧
      ∃ s : Server, ¬ shadow.Untouched s.keyspace (port.clear s).2.keyspace := by
  intro port peer shadow
  have plain : Glob.Plain port.tableName := by decide
  constructor
  · let s : Server := ⟨(∅ : Keyspace).write (peer.pendingName (ascii "Ethernet0"))
      (Value.ofHash (Hash.ofFields [(ascii "mtu", ascii "9100")])), []⟩
    refine ⟨s, fun untouched => ?_⟩
    have gone := clear_reaches plain (peer.pendingName (ascii "Ethernet0")) (by decide) s
    rw [untouched.pending] at gone
    exact absurd gone (by decide)
  · let s : Server := ⟨(∅ : Keyspace).write shadow.getKeySetName
      (Value.ofSet {ascii "Ethernet0"}), []⟩
    refine ⟨s, fun untouched => ?_⟩
    have gone := clear_reaches plain shadow.getKeySetName (by decide) s
    rw [untouched.keySet] at gone
    exact absurd gone (by decide)

end SwssCommon.ProducerStateTable
