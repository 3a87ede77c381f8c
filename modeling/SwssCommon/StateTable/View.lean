import SwssCommon.Lib.WriteBehind
import SwssCommon.StateTable.Scripts

/-! # The state table as a write-behind store

`Shows t ks st` reads the key set, the delete set, the pending hashes and the main hashes of a table
out of the keyspace. On a keyspace that shows a store the scripts never raise and lead to the next
store.
-/

namespace SwssCommon

open Bytes Redis Script Function Keyspace Value

abbrev StateStore := WriteBehind Bytes Hash

/-- The keyspace holds table `t` with this content. Names of the table hold sets
    and hashes; other names are unconstrained. -/
structure Shows (t : TableBase) (ks : Keyspace) (st : StateStore) : Prop where
  keySet : ks.setAt t.getKeySetName = some st.dirty
  delSet : ks.setAt t.getDelKeySetName = some st.erased
  pending : ∀ k, ks.hashAt (t.pendingName k) = some (st.delta k)
  main : ∀ k, ks.hashAt (t.mainName k) = some (st.base k)

namespace Shows

variable {t : TableBase} {ks : Keyspace} {st : StateStore}

variable {k : Bytes}

private theorem hashAt_write_of_ne {j} (different : k ≠ j) (v : Option Value) :
    (ks.write k v).hashAt j = ks.hashAt j := by
  rw [hashAt_write, if_neg different]

private theorem setAt_write_of_ne {j} (different : k ≠ j) (v : Option Value) :
    (ks.write k v).setAt j = ks.setAt j := by
  simp only [setAt, getElem?_write_of_ne different]

variable {v : Option Value}

theorem writeKeySet (h : Shows t ks st) {s : Finset Bytes} (holds : set? v = some s) :
    Shows t (ks.write t.getKeySetName v) { st with dirty := s } where
  keySet := by simpa only [setAt, getElem?_write_self] using holds
  delSet := (setAt_write_of_ne t.keySetName_ne_delKeySetName v).trans h.delSet
  pending k := (hashAt_write_of_ne (t.pendingName_ne_keySetName k).symm v).trans (h.pending k)
  main k := (hashAt_write_of_ne (t.mainName_ne_keySetName k).symm v).trans (h.main k)

theorem writeDelSet (h : Shows t ks st) {s : Finset Bytes} (holds : set? v = some s) :
    Shows t (ks.write t.getDelKeySetName v) { st with erased := s } where
  keySet := (setAt_write_of_ne t.keySetName_ne_delKeySetName.symm v).trans h.keySet
  delSet := by simpa only [setAt, getElem?_write_self] using holds
  pending k := (hashAt_write_of_ne (t.pendingName_ne_delKeySetName k).symm v).trans (h.pending k)
  main k := (hashAt_write_of_ne (t.mainName_ne_delKeySetName k).symm v).trans (h.main k)

variable {d : Hash}

private theorem hashAt_write_family {name} (injective : Function.Injective name)
    {entries} (before : ∀ j, ks.hashAt (name j) = some (entries j))
    (holds : hash? v = some d) (j : Bytes) :
    (ks.write (name k) v).hashAt (name j) = some (update entries k d j) := by
  by_cases same : j = k
  · subst same
    simpa only [hashAt, getElem?_write_self, update_self] using holds
  · rw [hashAt_write_of_ne (fun clash => same (injective clash).symm), before j, update_of_ne same]

theorem writePending (h : Shows t ks st) (holds : hash? v = some d) :
    Shows t (ks.write (t.pendingName k) v) { st with delta := update st.delta k d } where
  keySet := (setAt_write_of_ne (t.pendingName_ne_keySetName k) v).trans h.keySet
  delSet := (setAt_write_of_ne (t.pendingName_ne_delKeySetName k) v).trans h.delSet
  pending := hashAt_write_family t.pendingName_injective h.pending holds
  main j := (hashAt_write_of_ne (t.pendingName_ne_mainName k j) v).trans (h.main j)

theorem writeMain (h : Shows t ks st) (holds : hash? v = some d) :
    Shows t (ks.write (t.mainName k) v) { st with base := update st.base k d } where
  keySet := (setAt_write_of_ne (t.mainName_ne_keySetName k) v).trans h.keySet
  delSet := (setAt_write_of_ne (t.mainName_ne_delKeySetName k) v).trans h.delSet
  pending j := (hashAt_write_of_ne (t.pendingName_ne_mainName j k).symm v).trans (h.pending j)
  main := hashAt_write_family t.mainName_injective h.main holds

theorem writeForeign {name : Bytes} (foreign : t.Foreign name) (h : Shows t ks st)
    (v : Option Value) : Shows t (ks.write name v) st where
  keySet := (setAt_write_of_ne foreign.keySet v).trans h.keySet
  delSet := (setAt_write_of_ne foreign.delSet v).trans h.delSet
  pending k := (hashAt_write_of_ne (foreign.pending k) v).trans (h.pending k)
  main k := (hashAt_write_of_ne (foreign.main k) v).trans (h.main k)

end Shows

/-- What a part of a script leaves behind: the table shows `st`, nothing was
    published and names outside the table are as they were. -/
structure Silent (t : TableBase) (s : Server) (st : StateStore) (s' : Server) : Prop where
  shown : Shows t s'.keyspace st
  quiet : s'.published = s.published
  elsewhere : ∀ name, t.Foreign name → s'.keyspace[name]? = s.keyspace[name]?

namespace Silent

variable {t : TableBase} {s s' s'' : Server} {st st' : StateStore}

theorem refl (shown : Shows t s.keyspace st) : Silent t s st s := ⟨shown, rfl, fun _ _ => rfl⟩

variable {v : Option Value}

private theorem write {k : Bytes} (h : Silent t s st s')
    (shown : Shows t (s'.keyspace.write k v) st') (own : ¬ t.Foreign k) :
    Silent t s st' (s'.write k v) where
  shown := shown
  quiet := h.quiet
  elsewhere name foreign := by
    have different : k ≠ name := fun same => own (same ▸ foreign)
    rw [Server.write_keyspace, getElem?_write_of_ne different]
    exact h.elsewhere name foreign

theorem writeKeySet (h : Silent t s st s') {m} (holds : set? v = some m) :
    Silent t s { st with dirty := m } (s'.write t.getKeySetName v) :=
  h.write (h.shown.writeKeySet holds) fun foreign => foreign.keySet rfl

theorem writeDelSet (h : Silent t s st s') {m} (holds : set? v = some m) :
    Silent t s { st with erased := m } (s'.write t.getDelKeySetName v) :=
  h.write (h.shown.writeDelSet holds) fun foreign => foreign.delSet rfl

theorem writePending (h : Silent t s st s') (k : Bytes) {d} (holds : hash? v = some d) :
    Silent t s { st with delta := update st.delta k d } (s'.write (t.pendingName k) v) :=
  h.write (h.shown.writePending holds) fun foreign => foreign.pending k rfl

theorem writeMain (h : Silent t s st s') (k : Bytes) {d} (holds : hash? v = some d) :
    Silent t s { st with base := update st.base k d } (s'.write (t.mainName k) v) :=
  h.write (h.shown.writeMain holds) fun foreign => foreign.main k rfl

end Silent

theorem shows_empty (t : TableBase) : Shows t ∅ (.ofBase fun _ => 1) where
  keySet := rfl
  delSet := rfl
  pending _ := rfl
  main _ := rfl

/-! ## Arguments line up -/

theorem flatMap_getElem? {α β : Type} (f : α → List β) {xs : List α} {i j x w}
    (found : xs[i]? = some x) (inside : (f x)[j]? = some w) :
    (xs.flatMap f)[((xs.take i).flatMap f).length + j]? = some w := by
  induction xs generalizing i with
  | nil => simp at found
  | cons head xs ih =>
    cases i with
    | zero =>
      obtain rfl : head = x := by simpa using found
      have bound : j < (f head).length := (List.getElem?_eq_some_iff.mp inside).1
      simpa [List.getElem?_append_left bound] using inside
    | succ i =>
      have rest := ih (i := i) (by simpa using found)
      simpa [Nat.add_assoc, List.getElem?_append_right] using rest

theorem flatten_getElem? {values i iv}
    (found : values[i]? = some iv) :
    (flatten values)[i * 2]? = some iv.1 ∧ (flatten values)[i * 2 + 1]? = some iv.2 := by
  induction values generalizing i with
  | nil => simp at found
  | cons head values ih =>
    cases i with
    | zero =>
      obtain rfl : head = iv := by simpa using found
      exact ⟨rfl, rfl⟩
    | succ i =>
      have rest := ih (i := i) (by simpa using found)
      rw [show (i + 1) * 2 = i * 2 + 2 by omega]
      exact rest

end SwssCommon
