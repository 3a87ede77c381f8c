import Mathlib.Algebra.Group.Defs
import Mathlib.Data.Finset.Basic
import Mathlib.Data.Finset.Lattice.Lemmas

/-! # Write-behind stores

Writers leave updates of a keyed store in a side buffer and mark the keys; readers later settle
marked keys in any order. Updates of one key form a monoid: `a * b` is `a` followed by `b`. Removals
have a mark of their own, as an update cannot cancel what the base holds. Settling never changes the
*effective* content.
-/

namespace SwssCommon

open List Function

/-- The base entries, the buffered updates, the keys whose base entry is dropped before the update,
    and those awaiting a reader. -/
structure WriteBehind (K M : Type*) where
  dirty : Finset K
  erased : Finset K
  delta : K → M
  base : K → M

namespace WriteBehind

variable {K M : Type*} [DecidableEq K] [Monoid M]

/-- What the entry of `k` is once everything buffered has been settled. -/
def effective (s : WriteBehind K M) (k : K) : M :=
  if k ∈ s.erased then s.delta k else s.base k * s.delta k

theorem effective_eq_mul (s : WriteBehind K M) (k : K) : ∃ a, s.effective k = a * s.delta k := by
  by_cases erased : k ∈ s.erased
  · exact ⟨1, by rw [effective, if_pos erased, one_mul]⟩
  · exact ⟨s.base k, by rw [effective, if_neg erased]⟩

def Announced (s : WriteBehind K M) : Prop :=
  ∀ k, s.delta k ≠ 1 ∨ k ∈ s.erased → k ∈ s.dirty

def ofBase (base : K → M) : WriteBehind K M :=
  ⟨∅, ∅, fun _ => 1, base⟩

def amend (s : WriteBehind K M) (k : K) (d : M) : WriteBehind K M :=
  { s with delta := update s.delta k (s.delta k * d) }

def merge (s : WriteBehind K M) (k : K) (d : M) : WriteBehind K M :=
  { s with dirty := insert k s.dirty, delta := update s.delta k (s.delta k * d) }

def remove (s : WriteBehind K M) (k : K) : WriteBehind K M :=
  { s with
    dirty := insert k s.dirty
    erased := insert k s.erased
    delta := update s.delta k 1 }

def settle (s : WriteBehind K M) (k : K) : WriteBehind K M where
  dirty := s.dirty.erase k
  erased := s.erased.erase k
  delta := update s.delta k 1
  base := update s.base k (s.effective k)

theorem effective_ofBase (base : K → M) : (ofBase base).effective = base := by
  funext k
  simp [effective, ofBase]

omit [DecidableEq K] in
theorem announced_ofBase (base : K → M) : (ofBase base).Announced := by
  intro k work
  simp [ofBase] at work

theorem effective_merge (s : WriteBehind K M) (k : K) (d : M) :
    (s.merge k d).effective = update s.effective k (s.effective k * d) := by
  funext j
  by_cases same : j = k
  · subst same
    simp only [effective, merge, update_self]
    split <;> simp only [mul_assoc]
  · simp only [effective, merge, update_of_ne same]

theorem effective_remove (s : WriteBehind K M) (k : K) :
    (s.remove k).effective = update s.effective k 1 := by
  funext j
  by_cases same : j = k
  · subst same
    simp [effective, remove]
  · simp [effective, remove, same]

theorem effective_settle (s : WriteBehind K M) (k : K) : (s.settle k).effective = s.effective := by
  funext j
  by_cases same : j = k
  · subst same
    simp [effective, settle]
  · simp [effective, settle, same]

variable {s : WriteBehind K M}

theorem Announced.merge (h : s.Announced) (k : K) (d : M) : (s.merge k d).Announced := by
  intro j work
  by_cases same : j = k
  · simp [WriteBehind.merge, same]
  · simp only [WriteBehind.merge, update_of_ne same] at work
    exact Finset.mem_insert_of_mem (h j work)

theorem Announced.remove (h : s.Announced) (k : K) : (s.remove k).Announced := by
  intro j work
  by_cases same : j = k
  · simp [WriteBehind.remove, same]
  · simp only [WriteBehind.remove, update_of_ne same, Finset.mem_insert, same, false_or] at work
    exact Finset.mem_insert_of_mem (h j work)

theorem Announced.settle (h : s.Announced) (k : K) : (s.settle k).Announced := by
  intro j work
  have different : j ≠ k := by
    rintro rfl
    simp [WriteBehind.settle] at work
  simp only [WriteBehind.settle, update_of_ne different, Finset.mem_erase, ne_eq,
    different, not_false_eq_true, true_and] at work ⊢
  exact h j work

theorem Announced.quiescent (h : s.Announced) (idle : s.dirty = ∅) :
    s.base = s.effective ∧ s.erased = ∅ ∧ s.delta = fun _ => 1 := by
  have clean : ∀ k, s.delta k = 1 ∧ k ∉ s.erased := by
    intro k
    have unmarked : ¬ (s.delta k ≠ 1 ∨ k ∈ s.erased) := fun work => by
      simpa [idle] using h k work
    push Not at unmarked
    exact unmarked
  refine ⟨?_, Finset.eq_empty_of_forall_notMem fun k => (clean k).2, funext fun k => (clean k).1⟩
  funext k
  simp [effective, (clean k).1, (clean k).2]

/-! ## Many keys at once -/

def settleAll (s : WriteBehind K M) (ks : List K) : WriteBehind K M :=
  ks.foldl settle s

theorem effective_settleAll (s : WriteBehind K M) (ks : List K) :
    (s.settleAll ks).effective = s.effective := by
  induction ks generalizing s with
  | nil => rfl
  | cons k ks ih => exact (ih (s.settle k)).trans (s.effective_settle k)

theorem Announced.settleAll (h : s.Announced) (ks : List K) : (s.settleAll ks).Announced := by
  induction ks generalizing s with
  | nil => exact h
  | cons k ks ih => exact ih (h.settle k)

def mergeAll (s : WriteBehind K M) (entries : List (K × M)) : WriteBehind K M :=
  entries.foldl (fun s e => s.merge e.1 e.2) s

def amendAll (s : WriteBehind K M) (entries : List (K × M)) : WriteBehind K M :=
  entries.foldl (fun s e => s.amend e.1 e.2) s

theorem amendAll_eq (s : WriteBehind K M) (entries : List (K × M)) :
    s.amendAll entries = { s with delta := (s.amendAll entries).delta } := by
  induction entries generalizing s with
  | nil => rfl
  | cons e entries ih => exact ih (s.amend e.1 e.2)

def removeAll (s : WriteBehind K M) (ks : List K) : WriteBehind K M :=
  ks.foldl remove s

theorem dirty_mergeAll (s : WriteBehind K M) (entries : List (K × M)) :
    (s.mergeAll entries).dirty = s.dirty ∪ (entries.map Prod.fst).toFinset := by
  induction entries generalizing s with
  | nil => simp [mergeAll]
  | cons e entries ih =>
    rw [mergeAll, foldl_cons, ← mergeAll, ih]
    simp [merge]

theorem dirty_removeAll (s : WriteBehind K M) (ks : List K) :
    (s.removeAll ks).dirty = s.dirty ∪ ks.toFinset := by
  induction ks generalizing s with
  | nil => simp [removeAll]
  | cons k ks ih =>
    rw [removeAll, foldl_cons, ← removeAll, ih]
    simp [remove]

theorem effective_mergeAll (s : WriteBehind K M) (entries : List (K × M)) :
    (s.mergeAll entries).effective =
      entries.foldl (fun m e => update m e.1 (m e.1 * e.2)) s.effective := by
  induction entries generalizing s with
  | nil => rfl
  | cons e entries ih =>
    exact (ih (s.merge e.1 e.2)).trans (by rw [effective_merge, foldl_cons])

theorem effective_removeAll (s : WriteBehind K M) (ks : List K) :
    (s.removeAll ks).effective = ks.foldl (fun m k => update m k 1) s.effective := by
  induction ks generalizing s with
  | nil => rfl
  | cons k ks ih => exact (ih (s.remove k)).trans (by rw [effective_remove, foldl_cons])

theorem Announced.mergeAll (h : s.Announced) (entries : List (K × M)) :
    (s.mergeAll entries).Announced := by
  induction entries generalizing s with
  | nil => exact h
  | cons e entries ih => exact ih (h.merge e.1 e.2)

theorem Announced.removeAll (h : s.Announced) (ks : List K) : (s.removeAll ks).Announced := by
  induction ks generalizing s with
  | nil => exact h
  | cons k ks ih => exact ih (h.remove k)

theorem settleAll_withDirty (s : WriteBehind K M) (marks : Finset K) (ks : List K) :
    { s with dirty := marks }.settleAll ks =
      { s.settleAll ks with dirty := marks \ ks.toFinset } := by
  induction ks generalizing s marks with
  | nil => simp [settleAll]
  | cons k ks ih =>
    have rest := ih (s.settle k) (marks.erase k)
    simp only [toFinset_cons] at rest ⊢
    rw [Finset.sdiff_insert, ← Finset.erase_sdiff_comm]
    exact rest

theorem dirty_settleAll (s : WriteBehind K M) (ks : List K) :
    (s.settleAll ks).dirty = s.dirty \ ks.toFinset :=
  congrArg dirty (s.settleAll_withDirty s.dirty ks)

variable {ks : List K}

theorem settleAll_of_notMem (s : WriteBehind K M) {k} (absent : k ∉ ks) :
    (s.settleAll ks).base k = s.base k ∧ (s.settleAll ks).delta k = s.delta k := by
  induction ks generalizing s with
  | nil => exact ⟨rfl, rfl⟩
  | cons j ks ih =>
    simp only [mem_cons, not_or] at absent
    obtain ⟨base, delta⟩ := ih (s.settle j) absent.2
    exact ⟨base.trans (update_of_ne absent.1 _ _), delta.trans (update_of_ne absent.1 _ _)⟩

theorem base_settleAll_of_mem (s : WriteBehind K M) {k} (settled : k ∈ ks) :
    (s.settleAll ks).base k = s.effective k := by
  induction ks generalizing s with
  | nil => simp at settled
  | cons j ks ih =>
    by_cases later : k ∈ ks
    · exact (ih (s.settle j) later).trans (congrFun (s.effective_settle j) k)
    · obtain rfl : k = j := (mem_cons.mp settled).resolve_right later
      exact (settleAll_of_notMem (s.settle k) later).1.trans (update_self ..)

/-! ## Keys that await a reader for nothing -/

/-- If the key awaits a reader, there is something to settle. -/
def Accounted (s : WriteBehind K M) (k : K) : Prop :=
  k ∈ s.dirty → s.delta k ≠ 1 ∨ k ∈ s.erased

namespace Accounted

variable {s : WriteBehind K M} {k : K}

omit [DecidableEq K] in
theorem ofBase (base : K → M) (k : K) : (WriteBehind.ofBase base).Accounted k := by
  intro dirty
  simp [WriteBehind.ofBase] at dirty

theorem merge (h : s.Accounted k) {j d} (something : j = k → ∀ a, a * d ≠ 1) :
    (s.merge j d).Accounted k := by
  intro dirty
  by_cases same : k = j
  · subst same
    exact .inl (by simpa [WriteBehind.merge] using something rfl (s.delta k))
  · simpa [WriteBehind.merge, same] using h (by simpa [WriteBehind.merge, same] using dirty)

theorem remove (h : s.Accounted k) (j : K) : (s.remove j).Accounted k := by
  intro dirty
  by_cases same : k = j
  · exact .inr (by simp [WriteBehind.remove, same])
  · simpa [WriteBehind.remove, same] using h (by simpa [WriteBehind.remove, same] using dirty)

theorem settle (h : s.Accounted k) (j : K) : (s.settle j).Accounted k := by
  intro dirty
  by_cases same : k = j
  · simp [WriteBehind.settle, same] at dirty
  · simpa [WriteBehind.settle, same] using h (by simpa [WriteBehind.settle, same] using dirty)

theorem mergeAll (h : s.Accounted k) {entries}
    (something : ∀ e ∈ entries, e.1 = k → ∀ a, a * e.2 ≠ 1) :
    (s.mergeAll entries).Accounted k := by
  induction entries generalizing s with
  | nil => exact h
  | cons e entries ih =>
    exact ih (h.merge (something e (by simp))) fun e' member => something e' (by simp [member])

theorem removeAll (h : s.Accounted k) (ks : List K) : (s.removeAll ks).Accounted k := by
  induction ks generalizing s with
  | nil => exact h
  | cons j ks ih => exact ih (h.remove j)

theorem settleAll (h : s.Accounted k) (ks : List K) : (s.settleAll ks).Accounted k := by
  induction ks generalizing s with
  | nil => exact h
  | cons j ks ih => exact ih (h.settle j)

theorem effective_eq_one (h : s.Accounted k) (dirty : k ∈ s.dirty) (unchanged : s.delta k = 1) :
    s.effective k = 1 := by
  have erased := (h dirty).resolve_left fun changed => changed unchanged
  rw [effective, if_pos erased, unchanged]

end Accounted

end WriteBehind

end SwssCommon
