import Mathlib.Data.Finset.Card
import Std.Data.ExtTreeMap

/-! # Loops over ordered maps

A loop over the entries of a map often shows the round of one entry only at its key. Then it is
understood one key at a time.
-/

namespace SwssCommon.OrderedMap

open List Std.ExtTreeMap Std

variable {K V S O : Type*} {cmp : K → K → Ordering} [TransCmp cmp] [LawfulEqCmp cmp]

theorem lookup_of_entries [BEq K] [LawfulBEq K] {l : List (K × V)} {k found}
    (entries : ∀ v, (k, v) ∈ l ↔ found = some v) : l.lookup k = found := by
  cases result : l.lookup k with
  | none =>
    rw [lookup_eq_none_iff] at result
    cases found with
    | none => rfl
    | some v =>
      have apart := result (k, v) ((entries v).mpr rfl)
      simp at apart
  | some v =>
    obtain ⟨before, after, rfl, -⟩ := lookup_eq_some_iff.mp result
    exact ((entries v).mp (by simp)).symm

theorem lookup_map [BEq K] {W} (l : List (K × V)) (f : V → W) (k : K) :
    (l.map fun p => (p.1, f p.2)).lookup k = (l.lookup k).map f := by
  induction l with
  | nil => rfl
  | cons p l ih =>
    rw [map_cons, lookup_cons, lookup_cons, ih]
    cases k == p.1 <;> rfl

theorem lookup_toList [BEq K] [LawfulBEq K] (m : ExtTreeMap K V cmp) (k : K) :
    m.toList.lookup k = m[k]? := by
  exact lookup_of_entries fun v => mem_toList_iff_getElem?_eq_some

theorem getElem?_foldl_erase [BEq K] [LawfulBEq K] (ks : List K) (m : ExtTreeMap K V cmp) (k : K) :
    (ks.foldl (fun m k => m.erase k) m)[k]? = if k ∈ ks then none else m[k]? := by
  induction ks generalizing m with
  | nil => rfl
  | cons j ks ih =>
    rw [foldl_cons, ih, getElem?_erase]
    by_cases same : k = j
    · simp [same]
    · have other : cmp j k ≠ .eq := fun equal => same (LawfulEqCmp.eq_of_compare equal).symm
      simp [same, other]

/-- A fold over distinct keys, observed at one of them: only the round of that key
    is seen, and at most one round is. -/
theorem foldl_at [BEq K] [LawfulBEq K] {f} (observe : S → O) {k}
    (act : V → O → O) (elsewhere : ∀ s j v, j ≠ k → observe (f s (j, v)) = observe s)
    (here : ∀ s v, observe (f s (k, v)) = act v (observe s)) {l : List (K × V)}
    (distinct : l.Pairwise fun a b => a.1 ≠ b.1) (s : S) :
    observe (l.foldl f s) = (l.lookup k).elim (observe s) (act · (observe s)) := by
  induction l generalizing s with
  | nil => rfl
  | cons entry l ih =>
    obtain ⟨j, w⟩ := entry
    rw [pairwise_cons] at distinct
    rw [foldl_cons, ih distinct.2, lookup_cons]
    by_cases same : k = j
    · subst same
      have absent : l.lookup k = none := lookup_eq_none_iff.mpr fun e member => by
        simpa using distinct.1 e member
      simp [absent, here]
    · have other : (k == j) = false := by simpa using same
      simp [other, elsewhere s j w (Ne.symm same)]

theorem foldl_toList_at {f} (observe : S → O) {k} (act : V → O → O)
    (elsewhere : ∀ s j v, j ≠ k → observe (f s (j, v)) = observe s)
    (here : ∀ s v, observe (f s (k, v)) = act v (observe s)) (m : ExtTreeMap K V cmp) (s : S) :
    observe (m.toList.foldl f s) = m[k]?.elim (observe s) (act · (observe s)) := by
  classical
  have distinct : m.toList.Pairwise fun a b => a.1 ≠ b.1 :=
    m.distinct_keys_toList.imp fun apart same => apart (by simp [same])
  rw [foldl_at observe act elsewhere here distinct, lookup_toList]

theorem mem_of_keys {m : ExtTreeMap K V cmp} {k l} (keys : m.keys = l) :
    k ∈ m ↔ k ∈ l := by
  rw [← keys, ExtTreeMap.mem_keys]

theorem forall_mem {m : ExtTreeMap K V cmp} {P : K → Prop} (all : ∀ k ∈ m.keys, P k) :
    ∀ k ∈ m, P k :=
  fun k member => all k (mem_keys.mpr member)

theorem forall_entries {m : ExtTreeMap K V cmp} {P : K → V → Prop}
    (all : ∀ entry ∈ m.toList, P entry.1 entry.2) : ∀ k v, m[k]? = some v → P k v :=
  fun k v found => all (k, v) (mem_toList_iff_getElem?_eq_some.mpr found)

omit [LawfulEqCmp cmp] in
theorem mem_iff_getElem?_ne_none {m : ExtTreeMap K V cmp} {k} : k ∈ m ↔ m[k]? ≠ none := by
  rw [mem_iff_isSome_getElem?, Option.isSome_iff_ne_none]

theorem eq_of_entries_of_size_le [DecidableEq K] {a b : ExtTreeMap K V cmp}
    (entries : ∀ (k : K) v, a[k]? = some v → b[k]? = some v) (size : b.size ≤ a.size) : a = b := by
  have member : ∀ {m : ExtTreeMap K V cmp} {k : K}, k ∈ m.keys ↔ ∃ v, m[k]? = some v := by
    intro m k
    rw [ExtTreeMap.mem_keys, mem_iff_isSome_getElem?, Option.isSome_iff_exists]
  have subset : a.keys.toFinset ⊆ b.keys.toFinset := by
    intro k inside
    rw [mem_toFinset, member] at inside ⊢
    exact inside.imp fun v found => entries k v found
  have cards : b.keys.toFinset.card ≤ a.keys.toFinset.card := by
    rw [toFinset_card_of_nodup b.nodup_keys, toFinset_card_of_nodup a.nodup_keys,
      length_keys, length_keys]
    exact size
  have sameKeys := Finset.eq_of_subset_of_card_le subset cards
  apply ExtTreeMap.ext_getElem?
  intro k
  cases found : a[k]? with
  | some v => exact (entries k v found).symm
  | none =>
    have outside : k ∉ b.keys := by
      rw [← mem_toFinset, ← sameKeys, mem_toFinset, member]
      simp [found]
    rw [member] at outside
    exact (Option.eq_none_iff_forall_ne_some.mpr fun v there => outside ⟨v, there⟩).symm

/-- `insert(first, last)` of the standard maps: a key that is there keeps its value. -/
def insertNew (m : ExtTreeMap K V cmp) (l : List (K × V)) : ExtTreeMap K V cmp :=
  l.foldl (fun m p => m.insertIfNew p.1 p.2) m

theorem getElem?_insertNew [BEq K] [LawfulBEq K] (m : ExtTreeMap K V cmp)
    (l : List (K × V)) (k : K) : (insertNew m l)[k]? = m[k]?.or (l.lookup k) := by
  induction l generalizing m with
  | nil => simp [insertNew]
  | cons p l ih =>
    change (insertNew (m.insertIfNew p.1 p.2) l)[k]? = _
    rw [ih, getElem?_insertIfNew, lookup_cons]
    by_cases here : p.1 = k
    · subst here
      cases found : m[p.1]? with
      | none | some v => simp [mem_iff_isSome_getElem?, found]
    · have other : (k == p.1) = false := by simpa using Ne.symm here
      simp [here, other]

theorem isLE_of_toList_cons {m : ExtTreeMap K V cmp} {first other v}
    {rest} (entries : m.toList = (first, v) :: rest) (inside : other ∈ m) :
    (cmp first other).isLE := by
  have ordered := ordered_keys_toList (t := m)
  rw [entries, pairwise_cons] at ordered
  have listed := mem_toList_iff_getElem?_eq_some.mpr (getElem?_eq_some_getElem inside)
  rw [entries] at listed
  cases mem_cons.mp listed with
  | inl same =>
    cases same
    exact ReflCmp.isLE_rfl
  | inr later =>
    rw [ordered.1 _ later]
    rfl

end SwssCommon.OrderedMap
