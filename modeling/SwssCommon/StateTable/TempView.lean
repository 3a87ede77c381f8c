import SwssCommon.StateTable.Scripts
import SwssCommon.Table.Dump

/-! # Temporary views

Between `create_temp_view` and `apply_temp_view` a producer collects its calls in a view. Applying
it drops what is buffered, dumps the main table, works out which keys to set and which to delete
first, and hands the difference to a script. Consumers run in between.
-/

namespace SwssCommon.ProducerStateTable

open Bytes Redis Script Std.ExtTreeMap OrderedMap

/-! ## Calls while a view is active -/

/-- `m_tempViewState[key][field] = value`. -/
def viewAssign (key : Bytes) (tempViewState : TableDump) (iv : FieldValueTuple) : TableDump :=
  tempViewState.insert key ((tempViewState[key]?.getD 1).insert iv.1 iv.2)

def viewSet (tempViewState : TableDump) (key : Bytes) (values : List FieldValueTuple) :
    TableDump :=
  values.foldl (viewAssign key) tempViewState

def viewDel (tempViewState : TableDump) (key : Bytes) : TableDump :=
  tempViewState.erase key

def viewBatchedSet (tempViewState : TableDump) (values : List KeyOpFieldsValuesTuple) :
    TableDump :=
  values.foldl (fun view value => viewSet view value.kfvKey value.kfvFieldsValues) tempViewState

def viewBatchedDel (tempViewState : TableDump) (keys : List Bytes) : TableDump :=
  keys.foldl viewDel tempViewState

/-! ## Dropping what is buffered -/

def luaClear (KEYS _ARGV : List Bytes) : Script Unit := do
  let _ ← Script.del (← argument KEYS 1)
  let keys ← Script.keys ((← argument KEYS 2) ++ ascii "*")
  foldEach keys () fun k _ => do
    let _ ← Script.del k
  let _ ← Script.del (← argument KEYS 3)

def clear (p : ProducerStateTable) : Script Unit :=
  evalsha luaClear
    [ascii "3", p.getKeySetName, p.getStateHashPrefix ++ p.tableName, p.getDelKeySetName]

/-! ## The difference between the main table and a view -/

/-- What `apply_temp_view` has worked out so far. Entries of the view that the main
    table already holds are dropped from it. -/
structure ViewDiff where
  keysToSet : List Bytes
  keysToDel : List Bytes
  tempViewState : TableDump

/-- The loop over the current fields of a key, returning `(needDel, needSet)`. It
    breaks off at a field the view lacks. -/
def compareFields (newFieldValueMap : TableMap) : List FieldValueTuple → Bool → Bool × Bool
  | [], needSet => (false, needSet)
  | (field, value) :: rest, needSet =>
    match newFieldValueMap[field]? with
    | none => (true, true)
    | some new => compareFields newFieldValueMap rest (needSet || new ≠ value)

def compareObject (diff : ViewDiff) (kfvPair : Bytes × TableMap) : ViewDiff :=
  let (key, fieldValueMap) := kfvPair
  match diff.tempViewState[key]? with
  | none =>
    { diff with keysToDel := diff.keysToDel ++ [key], keysToSet := diff.keysToSet ++ [key] }
  | some newFieldValueMap =>
    let (needDel, changed) := compareFields newFieldValueMap fieldValueMap.toList false
    let needSet := changed || newFieldValueMap.size > fieldValueMap.size
    { keysToDel := if needDel then diff.keysToDel ++ [key] else diff.keysToDel
      keysToSet := if needSet then diff.keysToSet ++ [key] else diff.keysToSet
      tempViewState := if needSet then diff.tempViewState else diff.tempViewState.erase key }

def compareViews (currentState tempViewState : TableDump) : ViewDiff :=
  let diff := currentState.toList.foldl compareObject ⟨[], [], tempViewState⟩
  -- objects that do not exist currently need to be created
  { diff with
    keysToSet := diff.keysToSet ++ diff.tempViewState.keys.filter fun key => key ∉ currentState }

/-! ## Handing the difference over -/

/-- `producer_state_table_apply_view.lua`. -/
def luaApplyView (KEYS ARGV : List Bytes) : Script Unit := do
  let toSet ← toNumber (← argument ARGV 2)
  foldRange 1 toSet () fun i _ => do
    let _ ← sadd (← argument KEYS 2) (← argument ARGV (2 + i))
  let arg_start := 2 + toSet + 1
  let toDel ← toNumber (← argument ARGV arg_start)
  foldRange 1 toDel () fun i _ => do
    let _ ← sadd (← argument KEYS 3) (← argument ARGV (arg_start + i))
  let arg_start := arg_start + toDel + 1
  let _ ← foldRange 4 (KEYS.length - 3) arg_start fun j arg_start => do
    let count ← toNumber (← argument ARGV arg_start)
    foldRange 1 count () fun i _ => do
      let _ ← hset (← argument KEYS j) (← argument ARGV (arg_start + i * 2 - 1))
        (← argument ARGV (arg_start + i * 2))
    pure (arg_start + 2 * count + 1)
  publish (← argument KEYS 1) (← argument ARGV 1)

/-- The last command of `apply_temp_view`. -/
def applyView (p : ProducerStateTable) (diff : ViewDiff) : Script Unit :=
  evalsha luaApplyView <|
    [decimal (diff.tempViewState.size + 3), p.getChannelName p.dbId, p.getKeySetName,
      p.getDelKeySetName] ++
    diff.tempViewState.toList.map (fun kfvPair => p.getStateHashPrefix ++ p.getKeyName kfvPair.1) ++
    [ascii "G", decimal diff.keysToSet.length] ++ diff.keysToSet ++
    [decimal diff.keysToDel.length] ++ diff.keysToDel ++
    diff.tempViewState.toList.flatMap fun kfvPair =>
      decimal kfvPair.2.size :: flatten kfvPair.2.toList

/-! ## What the comparison finds -/

theorem compareFields_eq (v : TableMap) (fields : List FieldValueTuple) (needSet : Bool) :
    compareFields v fields needSet =
      (fields.any fun fv => v[fv.1]?.isNone,
        needSet || fields.any fun fv => v[fv.1]? ≠ some fv.2) := by
  induction fields generalizing needSet with
  | nil => simp [compareFields]
  | cons fv fields ih =>
    obtain ⟨field, value⟩ := fv
    cases found : v[field]? with
    | none => simp [compareFields, found]
    | some new => simp [compareFields, found, ih, Bool.or_assoc]

private def fieldGone (c v : TableMap) : Bool := c.toList.any fun fv => v[fv.1]?.isNone

private def objectChanged (c v : TableMap) : Bool :=
  (c.toList.any fun fv => v[fv.1]? ≠ some fv.2) || v.size > c.size

private theorem fieldGone_iff (old v : TableMap) :
    fieldGone old v ↔ ∃ f : Bytes, old[f]? ≠ none ∧ v[f]? = none := by
  simp only [fieldGone, List.any_eq_true, Option.isNone_iff_eq_none, Prod.exists,
    mem_toList_iff_getElem?_eq_some]
  constructor
  · rintro ⟨f, x, current, gone⟩
    exact ⟨f, by simp [current], gone⟩
  · rintro ⟨f, current, gone⟩
    obtain ⟨x, found⟩ := Option.ne_none_iff_exists'.mp current
    exact ⟨f, x, found, gone⟩

private theorem objectChanged_iff (c v : TableMap) : objectChanged c v ↔ c ≠ v := by
  constructor
  · rintro changed rfl
    simp only [objectChanged, lt_irrefl, decide_false, Bool.or_false,
      List.any_eq_true, Prod.exists, mem_toList_iff_getElem?_eq_some] at changed
    obtain ⟨f, x, found, differs⟩ := changed
    simp [found] at differs
  · intro different
    by_contra unchanged
    simp only [objectChanged, Bool.or_eq_true, decide_eq_true_eq, not_or, not_lt,
      List.any_eq_true, Prod.exists, mem_toList_iff_getElem?_eq_some, not_exists,
      not_and, not_not] at unchanged
    exact different (eq_of_entries_of_size_le unchanged.1 unchanged.2)

private def compareAt (c : TableMap) : Bool × Bool × Option TableMap → Bool × Bool × Option TableMap
  | (_, _, none) => (true, true, none)
  | (inSet, inDel, some v) =>
    (inSet || objectChanged c v, inDel || fieldGone c v,
      if objectChanged c v then some v else none)

private def seenAt (key : Bytes) (diff : ViewDiff) : Bool × Bool × Option TableMap :=
  (key ∈ diff.keysToSet, key ∈ diff.keysToDel, diff.tempViewState[key]?)

private theorem compareObject_some {diff key c v}
    (found : diff.tempViewState[key]? = some v) :
    compareObject diff (key, c) =
      { keysToDel := if fieldGone c v then diff.keysToDel ++ [key] else diff.keysToDel
        keysToSet := if objectChanged c v then diff.keysToSet ++ [key] else diff.keysToSet
        tempViewState :=
          if objectChanged c v then diff.tempViewState else diff.tempViewState.erase key } := by
  unfold compareObject
  simp only [found, compareFields_eq]
  rfl

private theorem seenAt_compareObject_of_ne {key j} (different : j ≠ key) (diff : ViewDiff)
    (c : TableMap) : seenAt key (compareObject diff (j, c)) = seenAt key diff := by
  cases found : diff.tempViewState[j]? with
  | none => simp [compareObject, found, seenAt, different.symm]
  | some v =>
    rw [compareObject_some found]
    cases fieldGone c v <;> cases objectChanged c v <;>
      simp [seenAt, different, different.symm, getElem?_erase]

private theorem seenAt_compareObject_self (key : Bytes) (diff : ViewDiff) (c : TableMap) :
    seenAt key (compareObject diff (key, c)) = compareAt c (seenAt key diff) := by
  cases found : diff.tempViewState[key]? with
  | none => simp [compareObject, found, seenAt, compareAt]
  | some v =>
    rw [compareObject_some found]
    simp only [seenAt, compareAt, found]
    cases fieldGone c v <;> cases objectChanged c v <;> simp [found]

section Specification

variable (currentState tempViewState : TableDump) (key : Bytes)

private theorem seenAt_loop :
    seenAt key (currentState.toList.foldl compareObject ⟨[], [], tempViewState⟩) =
      currentState[key]?.elim (false, false, tempViewState[key]?)
        (compareAt · (false, false, tempViewState[key]?)) := by
  have folded := foldl_toList_at (seenAt key) compareAt
    (fun diff j c different => seenAt_compareObject_of_ne different diff c)
    (seenAt_compareObject_self key) currentState ⟨[], [], tempViewState⟩
  simpa [seenAt] using folded

theorem compareViews_spec :
    let diff := compareViews currentState tempViewState
    (key ∈ diff.keysToSet ↔ currentState[key]? ≠ tempViewState[key]?) ∧
    (key ∈ diff.keysToDel ↔ ∃ old, currentState[key]? = some old ∧
      ∀ v, tempViewState[key]? = some v → ∃ f : Bytes, old[f]? ≠ none ∧ v[f]? = none) ∧
    diff.tempViewState[key]? =
      if currentState[key]? = tempViewState[key]? then none else tempViewState[key]? := by
  intro diff
  have loop := seenAt_loop currentState tempViewState key
  generalize loops : currentState.toList.foldl compareObject ⟨[], [], tempViewState⟩ = found at loop
  have shape : diff = { found with keysToSet := found.keysToSet ++
      found.tempViewState.keys.filter fun key => key ∉ currentState } := by
    simp only [diff, compareViews, loops]
  rw [shape]
  cases current : currentState[key]? with
  | none =>
    rw [current, Option.elim_none] at loop
    simp only [seenAt, Prod.mk.injEq, decide_eq_false_iff_not] at loop
    obtain ⟨notSet, notDel, view⟩ := loop
    refine ⟨?_, by simp [notDel], ?_⟩
    · simp only [List.mem_append, notSet, false_or, List.mem_filter, mem_keys,
        mem_iff_getElem?_ne_none, view, current, ne_eq, not_true_eq_false,
        not_false_eq_true, decide_true, and_true, eq_comm]
    · rw [view]
      cases tempViewState[key]? with
      | none => rfl
      | some v => rfl
  | some c =>
    have present : key ∈ currentState := by
      simp [mem_iff_getElem?_ne_none, current]
    rw [current, Option.elim_some] at loop
    cases target : tempViewState[key]? with
    | none =>
      simp only [seenAt, compareAt, target, Prod.mk.injEq, decide_eq_true_eq] at loop
      obtain ⟨inSet, inDel, view⟩ := loop
      exact ⟨by simp [inSet], by simp [inDel], by simp [view]⟩
    | some v =>
      simp only [seenAt, compareAt, target, Bool.false_or, Prod.mk.injEq] at loop
      obtain ⟨inSet, inDel, view⟩ := loop
      refine ⟨?_, ?_, ?_⟩
      · have changed := objectChanged_iff c v
        rw [← inSet, decide_eq_true_eq] at changed
        simp [changed, present]
      · have gone := fieldGone_iff c v
        rw [← inDel, decide_eq_true_eq] at gone
        simp [gone]
      · rw [view]
        by_cases same : c = v
        · simp [same, (objectChanged_iff v v).not]
        · simp [same, (objectChanged_iff c v).mpr same]

end Specification

end SwssCommon.ProducerStateTable
