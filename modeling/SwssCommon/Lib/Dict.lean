import SwssCommon.Lib.OrderedMap

/-! # Dictionaries

A dictionary lists its entries in the order in which their keys were first set. Two are the same if
they hold the same values.
-/

namespace SwssCommon

open List

structure Dict (κ ν : Type) where
  items : List (κ × ν)
  nodup : (items.map Prod.fst).Nodup

namespace Dict

variable {κ ν : Type} [DecidableEq κ] {d : Dict κ ν} {k j : κ} {v w : ν}

def empty : Dict κ ν := ⟨[], .nil⟩

def get? (d : Dict κ ν) (k : κ) : Option ν :=
  d.items.lookup k

def setItems (items : List (κ × ν)) (k : κ) (v : ν) : List (κ × ν) :=
  if k ∈ items.map Prod.fst then items.map fun e => if e.1 = k then (k, v) else e
  else items ++ [(k, v)]

variable {items : List (κ × ν)}

theorem setItems_new (new : k ∉ items.map Prod.fst) (v : ν) :
    setItems items k v = items ++ [(k, v)] :=
  if_neg new

theorem nodup_setItems (nodup : (items.map Prod.fst).Nodup) (k : κ) (v : ν) :
    ((setItems items k v).map Prod.fst).Nodup := by
  by_cases known : k ∈ items.map Prod.fst
  · rw [setItems, if_pos known, map_map]
    have same : items.map (Prod.fst ∘ fun e => if e.1 = k then (k, v) else e) =
        items.map Prod.fst := by
      refine map_congr_left fun e _ => ?_
      by_cases here : e.1 = k
      · simp [here]
      · simp [here]
    rw [same]
    exact nodup
  · rw [setItems_new known, map_append]
    exact nodup.append (nodup_singleton k) (by simpa using known)

/-- `d[k] = v`. -/
def set (d : Dict κ ν) (k : κ) (v : ν) : Dict κ ν :=
  ⟨setItems d.items k v, nodup_setItems d.nodup k v⟩

theorem get?_eq_some_iff : d.get? k = some v ↔ (k, v) ∈ d.items := by
  constructor
  · intro found
    obtain ⟨before, after, split, -⟩ := lookup_eq_some_iff.mp found
    rw [split]
    simp
  · intro member
    obtain ⟨before, after, split⟩ := append_of_mem member
    have nodup := d.nodup
    refine lookup_eq_some_iff.mpr ⟨before, after, split, fun e earlier => ?_⟩
    rw [split, map_append] at nodup
    have apart : e.1 ∉ k :: after.map Prod.fst :=
      disjoint_of_nodup_append nodup (mem_map_of_mem earlier)
    simpa using Ne.symm (ne_of_not_mem_cons apart)

theorem forall_get? {P : κ → ν → Prop} (each : ∀ e ∈ d.items, P e.1 e.2) (k : κ) (v : ν)
    (found : d.get? k = some v) : P k v :=
  each (k, v) (get?_eq_some_iff.mp found)

theorem get?_eq_none_iff : d.get? k = none ↔ k ∉ d.items.map Prod.fst := by
  rw [Option.eq_none_iff_forall_ne_some, mem_map]
  constructor
  · rintro none ⟨e, member, rfl⟩
    exact none e.2 (get?_eq_some_iff.mpr member)
  · intro none v found
    exact none ⟨(k, v), get?_eq_some_iff.mp found, rfl⟩

theorem get?_empty (k : κ) : (empty : Dict κ ν).get? k = none := rfl

theorem mem_setItems : (j, w) ∈ setItems items k v ↔ if j = k then w = v else (j, w) ∈ items := by
  unfold setItems
  split
  case isTrue known =>
    obtain ⟨e, member, same⟩ := mem_map.mp known
    rw [mem_map]
    by_cases here : j = k
    · rw [if_pos here]
      constructor
      · rintro ⟨e', -, changed⟩
        by_cases there : e'.1 = k
        · rw [if_pos there] at changed
          exact (Prod.mk.inj changed).2.symm
        · rw [if_neg there] at changed
          exact absurd ((congrArg Prod.fst changed).trans here) there
      · rintro rfl
        exact ⟨e, member, by rw [if_pos same, here]⟩
    · rw [if_neg here]
      constructor
      · rintro ⟨e', inside, changed⟩
        by_cases there : e'.1 = k
        · rw [if_pos there] at changed
          exact absurd (Prod.mk.inj changed).1.symm here
        · rw [if_neg there] at changed
          exact changed ▸ inside
      · intro inside
        exact ⟨(j, w), inside, if_neg here⟩
  case isFalse new =>
    by_cases here : j = k
    · have absent : (j, w) ∉ items := fun member =>
        new (mem_map.mpr ⟨_, member, here⟩)
      simp [here, here ▸ absent]
    · simp [here]

@[simp]
theorem get?_set (d : Dict κ ν) (k j : κ) (v : ν) :
    (d.set k v).get? j = if j = k then some v else d.get? j := by
  ext w
  rw [get?_eq_some_iff]
  change (j, w) ∈ setItems d.items k v ↔ _
  rw [mem_setItems]
  by_cases here : j = k
  · rw [if_pos here, if_pos here, Option.some_inj, eq_comm]
  · rw [if_neg here, if_neg here, get?_eq_some_iff]

def ofItems (l : List (κ × ν)) : Dict κ ν :=
  l.foldl (fun d e => d.set e.1 e.2) empty

theorem ofItems_snoc (l : List (κ × ν)) (e : κ × ν) :
    ofItems (l ++ [e]) = (ofItems l).set e.1 e.2 := by
  rw [ofItems, foldl_append]
  rfl

theorem items_ofItems {l : List (κ × ν)} (nodup : (l.map Prod.fst).Nodup) :
    (ofItems l).items = l := by
  induction l using reverseRecOn with
  | nil => rfl
  | append_singleton l e ih =>
    rw [map_append] at nodup
    have before := ih nodup.of_append_left
    have new : e.1 ∉ l.map Prod.fst := fun member =>
      disjoint_of_nodup_append nodup member (by simp)
    rw [ofItems_snoc]
    change setItems (ofItems l).items e.1 e.2 = _
    rw [before, setItems_new new]

/-- `del d[k]`. -/
def erase (d : Dict κ ν) (k : κ) : Dict κ ν :=
  ⟨d.items.filter (·.1 ≠ k), d.nodup.sublist (filter_sublist.map _)⟩

@[simp]
theorem get?_erase (d : Dict κ ν) (k j : κ) :
    (d.erase k).get? j = if j = k then none else d.get? j := by
  ext w
  rw [get?_eq_some_iff]
  change (j, w) ∈ d.items.filter _ ↔ _
  by_cases here : j = k
  · simp [here]
  · simp [here, get?_eq_some_iff]

theorem foldl_items_at {S O : Type} {f} (observe : S → O) (act : ν → O → O)
    (elsewhere : ∀ s j v, j ≠ k → observe (f s (j, v)) = observe s)
    (here : ∀ s v, observe (f s (k, v)) = act v (observe s)) (d : Dict κ ν) (s : S) :
    observe (d.items.foldl f s) = (d.get? k).elim (observe s) (act · (observe s)) :=
  OrderedMap.foldl_at observe act elsewhere here (pairwise_map.mp d.nodup) s

/-- `==`. -/
def Same (d e : Dict κ ν) : Prop :=
  ∀ k, d.get? k = e.get? k

instance [DecidableEq ν] (d e : Dict κ ν) : Decidable (d.Same e) :=
  decidable_of_iff
    ((∀ x ∈ d.items, e.get? x.1 = some x.2) ∧ ∀ x ∈ e.items, d.get? x.1 = some x.2) (by
      constructor
      · intro ⟨there, back⟩ k
        ext v
        constructor
        · intro found
          exact there (k, v) (get?_eq_some_iff.mp found)
        · intro found
          exact back (k, v) (get?_eq_some_iff.mp found)
      · intro same
        refine ⟨fun x member => ?_, fun x member => ?_⟩
        · rw [← same, get?_eq_some_iff.mpr member]
        · rw [same, get?_eq_some_iff.mpr member])

end Dict

end SwssCommon
