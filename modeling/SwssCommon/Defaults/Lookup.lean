import SwssCommon.Defaults.Provider

/-! # Which defaults are looked up

The schema designates defaults by the number of keys among several lists, by name among containers,
and as those of the only list. The provider finds them unless there are none, or a container comes
before the only list in the order of the key schemas.
-/

namespace SwssCommon

open Bytes Redis Looping DefaultValueHelper List Std.ExtTreeMap OrderedMap TableInfo SchemaNode

namespace SchemaNode

def isList : SchemaNode → Bool
  | .list .. => true
  | _ => false

def isContainer (key : Bytes) : SchemaNode → Bool
  | .container name _ => name.1 = key
  | _ => false

def lists (table : SchemaNode) : List SchemaNode :=
  table.child.filter isList

def designated (table : SchemaNode) (key : Bytes) : Option SchemaNode :=
  match table.lists with
  | [] => table.child.find? (isContainer key)
  | [only] => some only
  | several => several.find? fun list => list.keys.length = key.count 124 + 1

def defaultOf (json : Nlohmann) (table : SchemaNode) (key field : Bytes) : Option Bytes :=
  (table.designated key).bind (·.default? json field)

/-- Every list has keys, and no two have the same number of keys. -/
structure Keyed (table : SchemaNode) : Prop where
  keys : ∀ list ∈ table.lists, list.keys ≠ []
  distinct : (table.lists.map fun list => list.keys.length).Nodup

theorem Keyed.child {table child : SchemaNode} (keyed : table.Keyed) (member : child ∈ table.child)
    (isList : child.isList) : child.keys ≠ [] :=
  keyed.keys child (mem_filter.mpr ⟨member, isList⟩)

theorem Keyed.eq_of_length {table list list' : SchemaNode} (keyed : table.Keyed)
    (member : list ∈ table.lists) (member' : list' ∈ table.lists)
    (same : list.keys.length = list'.keys.length) : list = list' :=
  inj_on_of_nodup_map keyed.distinct member member' same

end SchemaNode

namespace DefaultValueHelper

open SchemaNode

/-! ## Key schemas -/

theorem foldl_addKey_snd (children : List SchemaNode) (schema : KeySchema) :
    (children.foldl addKey schema).2 = schema.2 + (children.filterMap key?).length := by
  induction children generalizing schema with
  | nil => rfl
  | cons node children ih =>
    rw [foldl_cons, ih, addKey]
    cases key : node.key? with
    | none => simp [key]
    | some name =>
      simp only [filterMap_cons, key, length_cons]
      omega

variable {node : SchemaNode}

theorem space_notMem_key {name} (key : node.key? = some name) : (32 : UInt8) ∉ name := by
  cases node with
  | leaf identifier isKey dflt =>
    cases isKey with
    | false => cases key
    | true =>
      cases key
      exact identifier.space_notMem
  | _ => cases key

theorem count_intercalate {key} {keys : List Bytes}
    (spaceless : ∀ k ∈ key :: keys, (32 : UInt8) ∉ k) :
    (intercalate [32] (key :: keys)).count 32 = keys.length := by
  induction keys generalizing key with
  | nil => simpa [count_eq_zero] using spaceless key
  | cons next keys ih =>
    have rest := ih fun k member => spaceless k (mem_cons_of_mem key member)
    have first : key.count 32 = 0 := count_eq_zero.mpr (spaceless key mem_cons_self)
    simp
    omega

variable {list : SchemaNode}

theorem getKeySchema_list (isList : list.isList) (keyed : list.keys ≠ [])
    (version : LibYang) : ∃ s, getKeySchema version list = some (s, list.keys.length) := by
  cases list with
  | list name children =>
    cases version with
    | v3 =>
      rw [getKeySchema, ← Prod.mk.eta (p := children.foldl addKey ([], 0)), foldl_addKey_snd]
      simp [SchemaNode.keys, child]
    | v1 =>
      refine ⟨[], ?_⟩
      obtain ⟨key, keys, named⟩ := exists_cons_of_ne_nil keyed
      have spaceless : ∀ k ∈ key :: keys, (32 : UInt8) ∉ k := by
        rw [← named]
        intro k member
        obtain ⟨node, -, isKey⟩ := mem_filterMap.mp member
        exact space_notMem_key isKey
      rw [getKeySchema, keysStr, if_neg keyed, named, Option.map_some,
        count_intercalate spaceless, length_cons]
  | _ => cases isList

variable {child : SchemaNode}

theorem getKeySchema_eq_zero_iff (keyed : child.isList → child.keys ≠ []) (version : LibYang)
    (key : Bytes) : getKeySchema version child = some (key, 0) ↔ child.isContainer key := by
  cases child with
  | container name children => simp [getKeySchema, isContainer]
  | list name children =>
    obtain ⟨s, schema⟩ := getKeySchema_list rfl (keyed rfl) version
    have counted := length_pos_iff.mpr (keyed rfl)
    rw [schema]
    simp only [isContainer, Option.some.injEq, Prod.mk.injEq, Bool.false_eq_true, iff_false]
    omega
  | _ => simp [getKeySchema, isContainer]

variable {n : Nat}

theorem getKeySchema_pos_iff (keyed : child.isList → child.keys ≠ []) (version : LibYang)
    (counted : 0 < n) :
    (∃ s, getKeySchema version child = some (s, n)) ↔
      child.isList ∧ child.keys.length = n := by
  cases child with
  | list name children =>
    obtain ⟨s, schema⟩ := getKeySchema_list rfl (keyed rfl) version
    rw [schema]
    simp [isList]
  | container name children =>
    simp [getKeySchema, isList]
    omega
  | _ => simp [getKeySchema, isList]

theorem isList_eq (keyed : child.isList → child.keys ≠ []) (version : LibYang) :
    IsList version child = child.isList := by
  cases child with
  | list name children =>
    obtain ⟨s, schema⟩ := getKeySchema_list rfl (keyed rfl) version
    have counted := length_pos_iff.mpr (keyed rfl)
    simp only [IsList, schema, isList, bne_iff_ne]
    omega
  | _ => rfl

/-! ## The mapping of a table -/

variable (json : Nlohmann)

def tableMapping (version : LibYang) (table : SchemaNode) : TableDefaultValueMapping :=
  (table.child.foldl (addChild json version) (0, ∅)).2

theorem getElem?_tableMapping (version : LibYang) (table : SchemaNode) (schema : KeySchema) :
    (tableMapping json version table)[schema]? =
      (table.child.find? fun child => getKeySchema version child = some schema).map
        fun child => insertNew ∅ (child.defaults json) := by
  rw [tableMapping, foldl_addChild_snd, getElem?_empty, Option.none_or]

def tableInfo (version : LibYang) (table : SchemaNode) : TableInfo :=
  ofMapping (table.child.foldl (addChild json version) (0, ∅)).1 (tableMapping json version table)

variable {json} {table : SchemaNode}

theorem tableInfo_eq (keyed : table.Keyed) (version : LibYang) :
    tableInfo json version table =
      ofMapping table.lists.length (tableMapping json version table) := by
  have count : table.child.countP (IsList version) = table.lists.length := by
    rw [lists, ← countP_eq_length_filter]
    apply countP_congr
    intro child member
    rw [isList_eq (keyed.child member)]
  rw [tableInfo, foldl_addChild_fst, count, Nat.zero_add]

variable {schema : KeySchema}

theorem of_getElem?_tableMapping {version mapping}
    (found : (tableMapping json version table)[schema]? = some mapping) :
    ∃ child ∈ table.child, getKeySchema version child = some schema ∧
      mapping = insertNew ∅ (child.defaults json) := by
  rw [getElem?_tableMapping] at found
  obtain ⟨child, first, same⟩ := Option.map_eq_some_iff.mp found
  have matched := find?_some first
  exact ⟨child, mem_of_find?_eq_some first, of_decide_eq_true matched, same.symm⟩

theorem mem_map_toList {K : Type} (part : KeySchema → K) {m : TableDefaultValueMapping} {k}
    {mapping} :
    (k, mapping) ∈ (m.toList.map fun entry => (part entry.1, entry.2)) ↔
      ∃ schema, m[schema]? = some mapping ∧ part schema = k := by
  rw [mem_map]
  constructor
  · rintro ⟨⟨schema, mapping'⟩, stored, same⟩
    cases same
    exact ⟨schema, mem_toList_iff_getElem?_eq_some.mp stored, rfl⟩
  · rintro ⟨schema, stored, same⟩
    exact ⟨(schema, mapping), mem_toList_iff_getElem?_eq_some.mpr stored, Prod.ext same rfl⟩

theorem find?_eq_of_unique {l : List SchemaNode} {p} (member : node ∈ l)
    (holds : p node) (unique : ∀ other ∈ l, p other → other = node) :
    l.find? p = some node := by
  cases found : l.find? p with
  | none => exact absurd holds (find?_eq_none.mp found node member)
  | some other =>
    rw [unique other (mem_of_find?_eq_some found) (find?_some found)]

theorem lookup_dict (keyed : table.Keyed) (none : table.lists = []) (version : LibYang)
    (key : Bytes) :
    ((tableMapping json version table).toList.map fun entry => (entry.1.1, entry.2)).lookup key =
      (table.child.find? (isContainer key)).map
        fun child => insertNew ∅ (child.defaults json) := by
  have same : table.child.find? (isContainer key) =
      table.child.find? fun child => getKeySchema version child = some (key, 0) := by
    rw [← head?_filter, ← head?_filter]
    congr 1
    apply filter_congr
    intro child member
    rw [Bool.eq_iff_iff, decide_eq_true_iff,
      getKeySchema_eq_zero_iff (keyed.child member) version key]
  rw [same, ← getElem?_tableMapping]
  apply lookup_of_entries
  intro mapping
  rw [mem_map_toList Prod.fst]
  constructor
  · rintro ⟨⟨name, n⟩, stored, rfl⟩
    obtain ⟨child, member, schema, -⟩ := of_getElem?_tableMapping stored
    cases n with
    | zero => exact stored
    | succ n =>
      have list := ((getKeySchema_pos_iff (keyed.child member) version n.succ_pos).mp
        ⟨name, schema⟩).1
      have listed : child ∈ table.lists := mem_filter.mpr ⟨member, list⟩
      rw [none] at listed
      cases listed
  · intro stored
    exact ⟨(key, 0), stored, rfl⟩

theorem lookup_multipleList (keyed : table.Keyed) (version : LibYang) (counted : 0 < n) :
    ((tableMapping json version table).toList.map fun entry => (entry.1.2, entry.2)).lookup n =
      (table.lists.find? fun list => list.keys.length = n).map
        fun child => insertNew ∅ (child.defaults json) := by
  have listed : ∀ child ∈ table.child, (∃ s, getKeySchema version child = some (s, n)) ↔
      child ∈ table.lists ∧ child.keys.length = n := by
    intro child member
    rw [getKeySchema_pos_iff (keyed.child member) version counted, lists,
      mem_filter, and_iff_right member]
  apply lookup_of_entries
  intro mapping
  rw [mem_map_toList Prod.snd]
  constructor
  · rintro ⟨⟨s, n⟩, stored, rfl⟩
    obtain ⟨child, member, schema, rfl⟩ := of_getElem?_tableMapping stored
    obtain ⟨isListed, length⟩ := (listed child member).mp ⟨s, schema⟩
    rw [find?_eq_of_unique isListed (decide_eq_true length), Option.map_some]
    intro other member' length'
    exact keyed.eq_of_length member' isListed ((of_decide_eq_true length').trans length.symm)
  · intro found
    obtain ⟨child, first, rfl⟩ := Option.map_eq_some_iff.mp found
    have isListed := mem_of_find?_eq_some first
    have matched := find?_some first
    have length : child.keys.length = n := of_decide_eq_true matched
    have member : child ∈ table.child := mem_of_mem_filter isListed
    obtain ⟨s, schema⟩ := (listed child member).mpr ⟨isListed, length⟩
    refine ⟨(s, n), ?_, rfl⟩
    rw [getElem?_tableMapping, find?_eq_of_unique member (decide_eq_true schema), Option.map_some]
    intro other member' schema'
    obtain ⟨isListed', length'⟩ := (listed other member').mp ⟨s, of_decide_eq_true schema'⟩
    exact keyed.eq_of_length isListed' isListed (length'.trans length.symm)

/-- The first list or container in the order of the key schemas. -/
def Leads (version : LibYang) (table node : SchemaNode) : Prop :=
  ∃ schema, table.child.find? (fun child => getKeySchema version child = some schema) = some node ∧
    ∀ child ∈ table.child, ∀ other, getKeySchema version child = some other →
      (KeySchema.cmp schema other).isLE = true

theorem Leads.unique {version other} (leads : Leads version table node)
    (leads' : Leads version table other) : node = other := by
  obtain ⟨schema, first, least⟩ := leads
  obtain ⟨schema', first', least'⟩ := leads'
  have found := find?_some first
  have found' := find?_some first'
  have before := least other (mem_of_find?_eq_some first') schema' (of_decide_eq_true found')
  have after := least' node (mem_of_find?_eq_some first) schema (of_decide_eq_true found)
  have same : schema = schema' :=
    Std.LawfulEqCmp.eq_of_compare (Std.OrientedCmp.isLE_antisymm before after)
  subst same
  exact Option.some.inj (first.symm.trans first')

theorem exists_leader (keyed : table.Keyed) (only : table.lists = [list]) (version : LibYang) :
    ∃ leader, Leads version table leader ∧
      ofSingleList (tableMapping json version table) =
        .singleList (insertNew ∅ (leader.defaults json)) := by
  have listed : list ∈ table.lists := by rw [only]; exact mem_singleton_self list
  obtain ⟨member, isList⟩ := mem_filter.mp listed
  obtain ⟨s, schema⟩ := getKeySchema_list isList (keyed.keys list listed) version
  have stored : ∀ child ∈ table.child, ∀ schema, getKeySchema version child = some schema →
      schema ∈ tableMapping json version table := by
    intro child member schema named
    rw [mem_iff_getElem?_ne_none, getElem?_tableMapping]
    intro absent
    exact find?_eq_none.mp (Option.map_eq_none_iff.mp absent) child member (decide_eq_true named)
  cases entries : (tableMapping json version table).toList with
  | nil =>
    have there := stored list member _ schema
    rw [toList_eq_nil_iff] at entries
    rw [entries] at there
    exact absurd there not_mem_empty
  | cons entry rest =>
    obtain ⟨first, mapping⟩ := entry
    have found : (tableMapping json version table)[first]? = some mapping := by
      rw [← mem_toList_iff_getElem?_eq_some, entries]
      exact mem_cons_self
    rw [getElem?_tableMapping] at found
    obtain ⟨leader, leads, rfl⟩ := Option.map_eq_some_iff.mp found
    refine ⟨leader, ⟨first, leads, ?_⟩, ?_⟩
    · intro child member schema named
      exact isLE_of_toList_cons entries (stored child member schema named)
    · rw [ofSingleList, entries]
      rfl

/-! ## What is found -/

/-- The mapping of the designated list or container is found, and no other one is taken for it. -/
def Found (json : Nlohmann) (version : LibYang) (table : SchemaNode) (key : Bytes) : Prop :=
  match table.lists with
  | [only] => ∀ leader, Leads version table leader → leader.default? json = only.default? json
  | _ => (table.designated key).isSome

theorem getKeySchema_v1_fst (named : getKeySchema .v1 child = some schema) :
    child.isList ∧ schema.1 = [] ∨ child.isList = false ∧ schema.1 ≠ [] := by
  cases child with
  | list name children =>
    obtain ⟨key, -, rfl⟩ := Option.map_eq_some_iff.mp named
    exact .inl ⟨rfl, rfl⟩
  | container name children =>
    cases named
    exact .inr ⟨rfl, Identifier.ne_nil name⟩
  | _ => cases named

theorem cmp_nil_isLE (named : schema.1 ≠ []) : (KeySchema.cmp ([], n) schema).isLE := by
  obtain ⟨text, m⟩ := schema
  cases text with
  | nil => exact absurd rfl named
  | cons c rest => rfl

theorem found_of_v1 (keyed : table.Keyed) (only : table.lists = [list]) (key : Bytes) :
    Found json .v1 table key := by
  have listed : list ∈ table.lists := by rw [only]; exact mem_singleton_self list
  have single : ∀ other ∈ table.child, other.isList → other = list := by
    intro other member isList
    have listed' : other ∈ table.lists := mem_filter.mpr ⟨member, isList⟩
    rw [only] at listed'
    exact mem_singleton.mp listed'
  obtain ⟨member, isList⟩ := mem_filter.mp listed
  obtain ⟨s, schema⟩ := getKeySchema_list isList (keyed.keys list listed) .v1
  have leads : Leads .v1 table list := by
    refine ⟨(s, list.keys.length), find?_eq_of_unique member (decide_eq_true schema) ?_, ?_⟩
    · intro other member' named
      have positive := length_pos_iff.mpr (keyed.keys list listed)
      exact single other member' ((getKeySchema_pos_iff (keyed.child member') .v1 positive).mp
        ⟨s, of_decide_eq_true named⟩).1
    · intro other member' schema' named
      have empty : s = [] := by
        cases getKeySchema_v1_fst schema with
        | inl own => exact own.2
        | inr container =>
          rw [isList] at container
          cases container.1
      cases getKeySchema_v1_fst named with
      | inl isListed =>
        rw [single other member' isListed.1, schema] at named
        cases named
        exact Std.ReflCmp.isLE_rfl
      | inr container =>
        rw [empty]
        exact cmp_nil_isLE container.2
  unfold Found
  rw [only]
  intro leader leads'
  rw [leads'.unique leads]

theorem getDefaultValue_dict_eq (m : Std.ExtTreeMap Bytes FieldDefaultValueMapping compare)
    (key field : Bytes) :
    (dict m).getDefaultValue key field =
      dereference (m[key]?.map fun mapping => mapping[field]?) := by
  unfold getDefaultValue foundFieldMappingByKey
  simp only
  cases m[key]? <;> rfl

theorem getDefaultValue_multipleList_eq (m : Std.ExtTreeMap Nat FieldDefaultValueMapping compare)
    (key field : Bytes) :
    (multipleList m).getDefaultValue key field =
      dereference (m[key.count 124 + 1]?.map fun mapping => mapping[field]?) := by
  unfold getDefaultValue foundFieldMappingByKey
  simp only
  cases m[key.count 124 + 1]? <;> rfl

theorem getDefaultValue_eq (keyed : table.Keyed) (several : table.lists.length ≠ 1)
    (version : LibYang) (key field : Bytes) :
    (tableInfo json version table).getDefaultValue key field =
      dereference ((table.designated key).map fun node => node.default? json field) := by
  have declared : ∀ found : Option SchemaNode,
      (found.map fun node => insertNew (∅ : Hash) (node.defaults json)).map
        (fun mapping => mapping[field]?) = found.map fun node => node.default? json field := by
    intro found
    rw [Option.map_map]
    congr 1
    funext node
    exact getElem?_defaults json node field
  rw [tableInfo_eq keyed]
  cases lists : table.lists with
  | nil =>
    have designated : table.designated key = table.child.find? (isContainer key) := by
      rw [designated, lists]
    rw [designated, length_nil, ofMapping, ofDict,
      getDefaultValue_dict_eq, getElem?_insertNew, getElem?_empty,
      Option.none_or, lookup_dict keyed lists, declared]
  | cons first rest =>
    cases rest with
    | nil => simp [lists] at several
    | cons second rest =>
      have designated : table.designated key =
          table.lists.find? fun list => list.keys.length = key.count 124 + 1 := by
        rw [designated, lists]
      rw [designated, ofMapping,
        ofMultipleList, getDefaultValue_multipleList_eq,
        getElem?_insertNew, getElem?_empty, Option.none_or,
        lookup_multipleList keyed version (Nat.succ_pos _), declared]
      all_goals simp

theorem getDefaultValue_iff (keyed : table.Keyed) (version : LibYang) (key : Bytes) :
    (∀ field, (tableInfo json version table).getDefaultValue key field =
      .ok (table.defaultOf json key field)) ↔ Found json version table key := by
  by_cases single : table.lists.length = 1
  · obtain ⟨list, only⟩ := length_eq_one_iff.mp single
    obtain ⟨leader, leads, kept⟩ := exists_leader keyed only version
    have designated : table.designated key = some list := by
      rw [designated, only]
    have found : Found json version table key ↔ leader.default? json = list.default? json := by
      unfold Found
      rw [only]
      constructor
      · intro same
        exact same leader leads
      · intro same other leads'
        rw [leads'.unique leads, same]
    have looked : ∀ field, (tableInfo json version table).getDefaultValue key field =
        .ok (leader.default? json field) := by
      intro field
      rw [tableInfo_eq keyed, single, ofMapping, kept, ← getElem?_defaults]
      rfl
    simp only [found, looked, defaultOf, designated, Except.ok.injEq]
    exact funext_iff.symm
  · have several : Found json version table key ↔ (table.designated key).isSome := by
      unfold Found
      split
      · rename_i only
        simp [only] at single
      · rfl
    rw [several]
    simp only [getDefaultValue_eq keyed single, defaultOf]
    cases table.designated key with
    | none | some node => simp [dereference]

end DefaultValueHelper

namespace DefaultValueProvider

/-! ## The tables that are loaded -/

def tablesBelow : SchemaNode → List SchemaNode
  | .container _ children => children
  | _ => []

def tables (modules : List (List SchemaNode)) : List SchemaNode :=
  modules.flatMap fun module' => module'.flatMap tablesBelow

def TablePasses (version : LibYang) (table : SchemaNode) : Prop :=
  ∀ child ∈ table.child, Passes version child

variable (json : Nlohmann)

def addTable (version : LibYang) (provider : DefaultValueProvider) (table : SchemaNode) :
    DefaultValueProvider :=
  provider.insertIfNew table.name (tableInfo json version table)

theorem appendTableInfo_returns (version : LibYang) (provider : DefaultValueProvider)
    (table : SchemaNode) (provider' : DefaultValueProvider) :
    (appendTableInfoToMapping json version provider table).Returns provider' ↔
      TablePasses version table ∧ provider' = addTable json version provider table := by
  unfold appendTableInfoToMapping TablePasses
  simp only [returns_bind, build_returns, returns_pure, and_assoc, exists_and_left, exists_eq_left]
  rfl

theorem returns_each {N} {visit : DefaultValueProvider → N → Looping DefaultValueProvider}
    {passes : N → Prop} {act}
    (visits : ∀ provider node provider', (visit provider node).Returns provider' ↔
      passes node ∧ provider' = act provider node)
    (nodes : List N) (provider provider' : DefaultValueProvider) :
    (walk (fun node next provider => (next, ·) <$> visit provider node) nodes provider).Returns
      provider' ↔ (∀ node ∈ nodes, passes node) ∧ provider' = nodes.foldl act provider := by
  apply returns_walk_iff
  · intro node next provider at' past
    simp only [returns_map, visits, and_iff_right past, exists_eq_left]
  · intro node next provider stops
    refine .inr fun at' returned => ?_
    obtain ⟨provider', visited, -⟩ := returns_map.mp returned
    exact stops ((visits provider node provider').mp visited).1

theorem loadModule_returns (version : LibYang) (provider : DefaultValueProvider)
    (module' : List SchemaNode) (provider' : DefaultValueProvider) :
    (loadModule json version provider module').Returns provider' ↔
      (∀ table ∈ module'.flatMap tablesBelow, TablePasses version table) ∧
        provider' = (module'.flatMap tablesBelow).foldl (addTable json version) provider := by
  have below := returns_each (appendTableInfo_returns json version)
  rw [forall_mem_flatMap, foldl_flatMap]
  apply returns_walk_iff
  · intro node next provider at' passes
    cases node with
    | container name children =>
      have passed : ∀ table ∈ children, TablePasses version table := passes
      simp only [returns_map, below, and_iff_right passed, exists_eq_left]
      rfl
    | _ => rw [returns_pure]; rfl
  · intro node next provider stops
    cases node with
    | container name children =>
      refine .inr fun at' returned => ?_
      obtain ⟨provider', walked, -⟩ := returns_map.mp returned
      exact stops ((below children provider provider').mp walked).1
    | _ => exact absurd (fun table member => by cases member) stops

variable {json}

theorem load_returns {version modules}
    {provider} :
    (load json version modules).Returns provider ↔
      (∀ table ∈ tables modules, TablePasses version table) ∧
        provider = (tables modules).foldl (addTable json version) ∅ := by
  unfold tables
  rw [forall_mem_flatMap, foldl_flatMap]
  exact returns_each (loadModule_returns json version) modules ∅ provider

theorem getElem?_foldl_addTable (version : LibYang) (l : List SchemaNode)
    (provider : DefaultValueProvider) (name : Bytes) :
    (l.foldl (addTable json version) provider)[name]? =
      provider[name]?.or ((l.find? fun table => table.name = name).map
        (tableInfo json version)) := by
  induction l generalizing provider with
  | nil => simp
  | cons table l ih =>
    rw [foldl_cons, ih, addTable, getElem?_insertIfNew]
    by_cases same : table.name = name
    · cases before : provider[name]? with
      | none | some info => simp [mem_iff_isSome_getElem?, before, same]
    · simp [same]

/-- The defaults of a table are looked up as its schema says exactly if the walks through the
    default cases end and the designated mapping is found. -/
theorem lookup_follows_schema_iff (version : LibYang) {modules : List (List SchemaNode)}
    {table : SchemaNode}
    (known : (tables modules).find? (fun t => t.name = table.name) = some table)
    (keyed : table.Keyed) (key : Bytes) :
    (∃ provider, (load json version modules).Returns provider ∧ ∀ field,
      provider.getDefaultValue table.name key field = .ok (table.defaultOf json key field)) ↔
    (∀ t ∈ tables modules, ∀ child ∈ t.child,
      (getKeySchema version child).isSome → child.LeafCases) ∧ Found json version table key := by
  have info : ((tables modules).foldl (addTable json version) ∅)[table.name]? =
      some (tableInfo json version table) := by
    rw [getElem?_foldl_addTable, known, getElem?_empty, Option.none_or, Option.map_some]
  constructor
  · rintro ⟨provider, returned, looked⟩
    obtain ⟨passes, rfl⟩ := load_returns.mp returned
    refine ⟨passes, (getDefaultValue_iff keyed version key).mp fun field => ?_⟩
    have here := looked field
    unfold getDefaultValue at here
    rwa [info] at here
  · rintro ⟨passes, found⟩
    refine ⟨_, load_returns.mpr ⟨passes, rfl⟩, fun field => ?_⟩
    unfold getDefaultValue
    rw [info]
    exact (getDefaultValue_iff keyed version key).mpr found field

private def keyLeaf (name : Identifier) : SchemaNode := .leaf name true none

private def zoneLeaf (value : String) : SchemaNode :=
  .leaf ⟨ascii "nat_zone", by decide⟩ false (some (ascii value))

private def vlanInterface : SchemaNode :=
  .container ⟨ascii "VLAN_INTERFACE", by decide⟩
    [.list ⟨ascii "VLAN_INTERFACE_LIST", by decide⟩
      [keyLeaf ⟨ascii "name", by decide⟩, zoneLeaf "0"],
      .list ⟨ascii "VLAN_INTERFACE_IPPREFIX_LIST", by decide⟩
        [keyLeaf ⟨ascii "name", by decide⟩, keyLeaf ⟨ascii "ip-prefix", by decide⟩, zoneLeaf "1"]]

private def moduleOf (table : SchemaNode) : List SchemaNode :=
  [.container ⟨ascii "sonic", by decide⟩ [table]]

theorem lookup_follows_schema_vlan :
    ∃ provider, (load .plain .v3 [moduleOf vlanInterface]).Returns provider ∧ ∀ field,
      provider.getDefaultValue vlanInterface.name (ascii "Vlan1000|192.168.0.1/21") field =
        .ok (vlanInterface.defaultOf .plain (ascii "Vlan1000|192.168.0.1/21") field) := by
  have keyed : vlanInterface.Keyed := ⟨by decide, by decide⟩
  have found : Found .plain .v3 vlanInterface (ascii "Vlan1000|192.168.0.1/21") := by
    change (vlanInterface.designated (ascii "Vlan1000|192.168.0.1/21")).isSome = true
    decide
  refine (lookup_follows_schema_iff .v3 rfl keyed _).mpr ⟨?_, found⟩
  intro table member child inside _ field declared
  obtain rfl : table = vlanInterface := by
    simpa [tables, tablesBelow, moduleOf] using member
  have leaves : ∀ child ∈ vlanInterface.child, ∀ field ∈ child.child, field.IsLeaf := by
    simp [vlanInterface, SchemaNode.child, keyLeaf, zoneLeaf, SchemaNode.IsLeaf]
  have leaf := leaves child inside field declared
  cases field with
  | leaf => exact trivial
  | _ => exact leaf.elim

/-- A table without lists, and a table with one list and a container. -/
theorem lookup_astray :
    let nat : SchemaNode := .container ⟨ascii "NAT_GLOBAL", by decide⟩
      [.container ⟨ascii "Values", by decide⟩ [zoneLeaf "0"]]
    let vlan : SchemaNode := .container ⟨ascii "VLAN", by decide⟩
      [.list ⟨ascii "VLAN_LIST", by decide⟩ [keyLeaf ⟨ascii "name", by decide⟩, zoneLeaf "0"],
        .container ⟨ascii "GLOBAL", by decide⟩ []]
    (∃ provider, (load .plain .v1 [moduleOf nat]).Returns provider ∧
      provider.getDefaultValue (ascii "NAT_GLOBAL") (ascii "NOT_EXIST_KEY") (ascii "nat_zone") =
        .error .endDereferenced) ∧
    ∃ provider, (load .plain .v3 [moduleOf vlan]).Returns provider ∧
      provider.getDefaultValue (ascii "VLAN") (ascii "Vlan2") (ascii "nat_zone") = .ok none ∧
      vlan.defaultOf .plain (ascii "Vlan2") (ascii "nat_zone") = some (ascii "0") := by
  intro nat vlan
  have dereferenced : ((load .plain .v1 [moduleOf nat]).run 9).map (fun provider =>
      provider.getDefaultValue (ascii "NAT_GLOBAL") (ascii "NOT_EXIST_KEY") (ascii "nat_zone")) =
        some (.error .endDereferenced) := by decide +kernel
  have missed : ((load .plain .v3 [moduleOf vlan]).run 9).map (fun provider =>
      provider.getDefaultValue (ascii "VLAN") (ascii "Vlan2") (ascii "nat_zone")) =
        some (.ok none) := by decide +kernel
  obtain ⟨provider, ran, result⟩ := Option.map_eq_some_iff.mp dereferenced
  obtain ⟨provider', ran', result'⟩ := Option.map_eq_some_iff.mp missed
  exact ⟨⟨provider, ⟨9, ran⟩, result⟩, provider', ⟨9, ran'⟩, result', by decide⟩

end DefaultValueProvider

end SwssCommon
