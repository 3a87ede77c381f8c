import SwssCommon.Profile.Provider

/-! # Deletion marks

Deleting or reverting an item only writes its mark. But the underscore that joins table and key may
be part of both, so items can share a mark; and as a deleted item is not deleted again, a revert
takes back the earlier deletion.
-/

namespace SwssCommon

open Bytes Redis Throwing Std.ExtTreeMap OrderedMap Keyspace Value

namespace PlainHashes

theorem empty : PlainHashes ∅ where
  hash k member := absurd member not_mem_empty
  names k member := absurd member not_mem_empty
  fields k h f v found stored := by
    cases Option.some.inj found
    simp at stored

variable {ks : Keyspace}

theorem write {k h} (plain : PlainHashes ks) (name : 0 ∉ k)
    (fields : ∀ f v : Bytes, h[f]? = some v → 0 ∉ f ∧ 0 ∉ v) :
    PlainHashes (ks.write k (ofHash h)) := by
  have known : ∀ j, j ∈ ks.write k (ofHash h) → j = k ∨ j ∈ ks := by
    intro j member
    by_cases same : k = j
    · exact .inl same.symm
    · rw [mem_iff_getElem?_ne_none, getElem?_write_of_ne same] at member
      exact .inr (mem_iff_getElem?_ne_none.mpr member)
  constructor
  · intro j member
    rw [hashAt_write]
    split
    · exact ⟨h, hash?_ofHash h⟩
    · rename_i other
      exact plain.hash j ((known j member).resolve_left (Ne.symm other))
  · intro j member
    cases known j member with
    | inl same => rwa [same]
    | inr before => exact plain.names j before
  · intro j g f v found stored
    rw [hashAt_write] at found
    split at found
    · rw [hash?_ofHash] at found
      cases found
      exact fields f v stored
    · exact plain.fields j g f v found stored

theorem readable (plain : PlainHashes ks) (k : Bytes) : ∃ h, ks.hashAt k = some h := by
  cases stored : ks[k]? with
  | none => exact ⟨∅, by rw [hashAt, stored, hash?]⟩
  | some v =>
    apply plain.hash
    rw [mem_iff_getElem?_ne_none, stored]
    exact Option.some_ne_none v

theorem hgetallMap_eq {server key h} (plain : PlainHashes ks)
    (found : ks.hashAt (cStr key) = some h) : DBConnector.hgetallMap server key ks = .ok h ks := by
  rw [DBConnector.hgetallMap_eq found, plain.fields_eq server found, insertNew_fields (by simp)]

end PlainHashes

namespace ProfileProvider

open DBConnector

variable (p : ProfileProvider)

/-- The hash that is a mark: one field, without a name and without a value. -/
def marked : Hash := Hash.ofFields [([], [])]

theorem itemDeleted_bind (table key : Bytes) (cfg : Keyspace) {α} (f : Bool → M α) :
    endState ((p.itemDeleted table key >>= f) cfg) =
      if p.Refused table key then cfg else endState (f (decide (p.mark table key ∈ cfg)) cfg) := by
  have read := p.itemDeleted_eq table key cfg
  split_ifs at read ⊢
  · rw [bind_error read]
    rfl
  · rw [bind_ok read]

theorem tryDeleteItem_after (table key : Bytes) (cfg : Keyspace) :
    endState (p.tryDeleteItem table key cfg) =
      if p.Refused table key ∨ p.mark table key ∈ cfg then cfg
      else cfg.write (p.mark table key) (ofHash marked) := by
  rw [tryDeleteItem, itemDeleted_bind, ite_or]
  congr 1
  by_cases already : p.mark table key ∈ cfg
  · rw [if_pos (decide_eq_true already), if_pos already]
    rfl
  · have nothing : cfg.hashAt (cStr (p.getDeletedKeyName table key)) = some 1 := by
      have absent : cfg[p.mark table key]? = none := getElem?_eq_none already
      unfold hashAt
      rw [← mark, absent]
      rfl
    rw [if_neg (by simpa using already), if_neg already, deleteItem,
      bind_ok (hset_eq nothing [] [])]
    rfl

theorem tryRevertItem_after (table key : Bytes) (cfg : Keyspace) :
    endState (p.tryRevertItem table key cfg) =
      if p.Refused table key ∨ p.mark table key ∉ cfg then cfg
      else cfg.write (p.mark table key) none := by
  rw [tryRevertItem, itemDeleted_bind, ite_or]
  congr 1
  by_cases already : p.mark table key ∈ cfg
  · rw [if_pos (decide_eq_true already), if_neg (not_not.mpr already)]
    rfl
  · rw [if_neg (by simpa using already), if_pos already]
    rfl

/-! ## What the calls leave -/

variable {p} {table key name : Bytes} {cfg : Keyspace}

theorem mem_tryDeleteItem :
    name ∈ endState (p.tryDeleteItem table key cfg) ↔
      name ∈ cfg ∨ ¬ p.Refused table key ∧ name = p.mark table key := by
  have stored : ofHash marked ≠ none := by simp [ofHash, marked, Hash.ofFields]
  rw [tryDeleteItem_after]
  split
  · grind
  · rename_i fresh
    rw [mem_iff_getElem?_ne_none, getElem?_write]
    split
    · grind
    · rw [← mem_iff_getElem?_ne_none]
      grind

theorem mem_tryRevertItem :
    name ∈ endState (p.tryRevertItem table key cfg) ↔
      name ∈ cfg ∧ (p.Refused table key ∨ name ≠ p.mark table key) := by
  rw [tryRevertItem_after]
  split
  · grind
  · rename_i there
    rw [mem_iff_getElem?_ne_none, getElem?_write]
    split
    · grind
    · rw [← mem_iff_getElem?_ne_none]
      grind

theorem revert_after_delete (refused : p.Refused table key ∨ p.mark table key ∉ cfg) :
    endState (p.tryRevertItem table key (endState (p.tryDeleteItem table key cfg))) = cfg := by
  by_cases accepted : p.Refused table key
  · rw [tryRevertItem_after, if_pos (.inl accepted), tryDeleteItem_after, if_pos (.inl accepted)]
  · have fresh := refused.resolve_left accepted
    have marked : p.mark table key ∈ endState (p.tryDeleteItem table key cfg) :=
      mem_tryDeleteItem.mpr (.inr ⟨accepted, rfl⟩)
    have absent : cfg[p.mark table key]? = none := getElem?_eq_none fresh
    rw [tryRevertItem_after, if_neg (not_or.mpr ⟨accepted, not_not.mpr marked⟩),
      tryDeleteItem_after, if_neg (not_or.mpr ⟨accepted, fresh⟩), write_write, ← absent,
      write_getElem?]

/-! ## Precision -/

variable (p) in
/-- Neither call on the first item changes whether a view has the second. -/
def Frames (table key table' key' : Bytes) : Prop :=
  ∀ (cfg profile : Keyspace) (view : View),
    (p.Visible profile (endState (p.tryDeleteItem table key cfg)) table' key' view ↔
      p.Visible profile cfg table' key' view) ∧
    (p.Visible profile (endState (p.tryRevertItem table key cfg)) table' key' view ↔
      p.Visible profile cfg table' key' view)

variable (p) in
structure SameViews (profile cfg cfg' : Keyspace) : Prop where
  item : ∀ table key,
    query cfg' (p.getConfigs profile table key) = query cfg (p.getConfigs profile table key)
  all : query cfg' (p.getAllConfigs profile) = query cfg (p.getAllConfigs profile)
  keys : ∀ table, query cfg' (p.getKeys profile table) = query cfg (p.getKeys profile table)

theorem SameViews.visible_iff {profile cfg'} (same : p.SameViews profile cfg cfg')
    (table key : Bytes) :
    p.Visible profile cfg' table key .item ↔ p.Visible profile cfg table key .item := by
  unfold Visible
  rw [same.item]

variable (p) in
/-- Deleting an item and reverting it leaves every view of every profile. -/
def Restores (cfg : Keyspace) (table key : Bytes) : Prop :=
  ∀ profile, p.SameViews profile cfg
    (endState (p.tryRevertItem table key (endState (p.tryDeleteItem table key cfg))))

variable (p) in
def oneItem (table key : Bytes) : Keyspace :=
  (∅ : Keyspace).write (cStr (getKeyName p.separator table key)) (ofHash marked)

theorem inProfile_oneItem (accepted : ¬ p.Refused table key) :
    p.InProfile (p.oneItem table key) table key .item := by
  have plain : PlainHashes (p.oneItem table key) := by
    apply PlainHashes.empty.write (nul_notMem_cStr _)
    intro f v stored
    simp [marked, Hash.ofFields_singleton] at stored
    grind
  have found : (p.oneItem table key).hashAt (cStr (getKeyName p.separator table key)) =
      some marked := hashAt_write_ofHash _ _ _
  refine ⟨accepted, marked, query_ok (plain.hgetallMap_eq found), ?_⟩
  simp [marked, Hash.ofFields_singleton]

theorem frames_iff {table' key'} :
    p.Frames table key table' key' ↔
      p.mark table key ≠ p.mark table' key' ∨ p.Refused table key ∨ p.Refused table' key' := by
  constructor
  · intro frames
    by_contra other
    push Not at other
    obtain ⟨same, accepted, accepted'⟩ := other
    have unchanged := (frames ∅ (p.oneItem table' key') .item).1
    rw [visible_iff, visible_iff, mem_tryDeleteItem] at unchanged
    have there := inProfile_oneItem accepted'
    grind
  · intro apart cfg profile view
    have accepted : p.InProfile profile table' key' view → ¬ p.Refused table' key' :=
      not_refused_of_inProfile
    rw [visible_iff, visible_iff, visible_iff, mem_tryDeleteItem, mem_tryRevertItem]
    grind

theorem restores_iff : p.Restores cfg table key ↔ p.mark table key ∉ cfg ∨ p.Refused table key := by
  constructor
  · intro restores
    by_contra other
    push Not at other
    obtain ⟨deleted, accepted⟩ := other
    have unchanged := (restores (p.oneItem table key)).visible_iff table key
    rw [visible_iff, visible_iff, mem_tryRevertItem] at unchanged
    have there := inProfile_oneItem accepted
    grind
  · intro fresh profile
    rw [revert_after_delete fresh.symm]
    exact ⟨fun _ _ => rfl, rfl, fun _ => rfl⟩

/-- The calls on an item leave the views of another exactly if their marks differ, or one can have
    none. A revert restores the views exactly if the item was not deleted before. -/
theorem marks_precise_iff (p : ProfileProvider) (table key table' key' : Bytes) :
    (p.Frames table key table' key' ↔
      p.mark table key ≠ p.mark table' key' ∨ p.Refused table key ∨ p.Refused table' key') ∧
    ∀ cfg, (p.Restores cfg table key ↔ p.mark table key ∉ cfg ∨ p.Refused table key) :=
  ⟨frames_iff, fun _ => restores_iff⟩

/-- Deleting a member of a VLAN hides an entry of the table of VLANs; a later deletion and revert of
    that entry shows both again. -/
theorem marks_collide :
    let p : ProfileProvider := ⟨.sorted, .vbar, .vbar⟩
    let profile := p.oneItem (ascii "VLAN") (ascii "MEMBER_Vlan2")
    let deleted := endState (p.tryDeleteItem (ascii "VLAN_MEMBER") (ascii "Vlan2") ∅)
    p.Visible profile ∅ (ascii "VLAN") (ascii "MEMBER_Vlan2") .item ∧
      ¬ p.Visible profile deleted (ascii "VLAN") (ascii "MEMBER_Vlan2") .item ∧
      ¬ p.Restores deleted (ascii "VLAN") (ascii "MEMBER_Vlan2") := by
  intro p profile deleted
  have accepted : ¬ p.Refused (ascii "VLAN") (ascii "MEMBER_Vlan2") := by decide
  have hidden : p.mark (ascii "VLAN") (ascii "MEMBER_Vlan2") ∈ deleted :=
    mem_tryDeleteItem.mpr (.inr ⟨by decide, by decide⟩)
  refine ⟨(visible_iff .item).mpr ⟨inProfile_oneItem accepted, by simp⟩, ?_, ?_⟩
  · intro visible
    exact ((visible_iff .item).mp visible).2 hidden
  · intro restores
    exact (restores_iff.mp restores).elim (fun fresh => fresh hidden) accepted

end ProfileProvider

end SwssCommon
