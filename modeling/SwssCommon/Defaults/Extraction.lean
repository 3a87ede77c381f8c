import SwssCommon.Defaults.Schema

/-! # The defaults that are extracted

Every walk through a schema is a fold over its nodes, except that through the default case of a
choice, which stays at a node that is not a leaf.
-/

namespace SwssCommon.DefaultValueHelper

open Bytes Redis Looping SchemaNode List Std.ExtTreeMap OrderedMap

theorem forLeaf_eq (name : Identifier) (isKey : Bool) (dflt : Option Bytes)
    (mapping : FieldDefaultValueMapping) :
    getDefaultValueInfoForLeaf name dflt mapping =
      insertNew mapping (leafDefault (.leaf name isKey dflt)) := by
  cases dflt <;> rfl

theorem forLeaflist_eq (json : Nlohmann) (name : Identifier) (dflts : Option (List Bytes))
    (mapping : FieldDefaultValueMapping) :
    getDefaultValueInfoForLeaflist json name dflts mapping =
      insertNew mapping (fieldDefaults json (.leafList name dflts)) := by
  cases dflts <;> rfl

theorem insertNew_append (m : Hash) (l l' : List (Bytes × Bytes)) :
    insertNew m (l ++ l') = insertNew (insertNew m l) l' :=
  foldl_append

theorem foldl_insertNew (f : SchemaNode → List (Bytes × Bytes)) (nodes : List SchemaNode)
    (m : Hash) :
    nodes.foldl (fun m node => insertNew m (f node)) m =
      insertNew m (nodes.flatMap f) := by
  induction nodes generalizing m with
  | nil => rfl
  | cons node nodes ih => rw [foldl_cons, ih, flatMap_cons, insertNew_append]

theorem forChoice_returns (json : Nlohmann) {dflt} (name : Identifier)
    {mapping mapping'} :
    (getDefaultValueInfoForChoice dflt mapping).Returns mapping' ↔
      (SchemaNode.choice name dflt).LeafCase ∧
        mapping' = insertNew mapping (fieldDefaults json (.choice name dflt)) := by
  cases dflt with
  | none => simp [getDefaultValueInfoForChoice, LeafCase, fieldDefaults, leafDefault,
      insertNew]
  | some fields =>
    simp only [getDefaultValueInfoForChoice, fieldDefaults, ← foldl_insertNew]
    apply returns_walk_iff
    · intro field next m at' isLeaf
      cases field with
      | leaf name isKey dflt => rw [returns_pure, forLeaf_eq name isKey]
      | _ => exact isLeaf.elim
    · intro field next m notLeaf
      cases field with
      | leaf name isKey dflt => exact absurd trivial notLeaf
      | _ => exact .inl (returns_pure.mpr rfl)

variable {json : Nlohmann}

theorem getDefaultValueInfo_returns {node mapping} :
    (getDefaultValueInfo json node).Returns mapping ↔
      node.LeafCases ∧ mapping = insertNew ∅ (node.defaults json) := by
  unfold LeafCases defaults
  rw [← foldl_insertNew]
  apply returns_walk_iff
  · intro field next m at' passes
    cases field with
    | leaf name isKey dflt =>
      rw [returns_pure, forLeaf_eq name isKey]
      rfl
    | leafList name dflts => rw [returns_pure, forLeaflist_eq]
    | choice name dflt =>
      simp only [returns_map, forChoice_returns json name, and_iff_right passes, exists_eq_left]
    | container | list | other => rw [returns_pure]; rfl
  · intro field next m stops
    cases field with
    | choice name dflt =>
      refine .inr fun at' returned => ?_
      obtain ⟨m', collected, -⟩ := returns_map.mp returned
      exact stops ((forChoice_returns json name).mp collected).1
    | _ => exact absurd trivial stops

/-! ## The defaults of a table -/

def addChild (json : Nlohmann) (version : LibYang) (built : Nat × TableDefaultValueMapping)
    (child : SchemaNode) :
    Nat × TableDefaultValueMapping :=
  match getKeySchema version child with
  | none => built
  | some schema =>
    (if schema.2 ≠ 0 then built.1 + 1 else built.1,
      built.2.insertIfNew schema (insertNew ∅ (child.defaults json)))

def Passes (version : LibYang) (child : SchemaNode) : Prop :=
  (getKeySchema version child).isSome → child.LeafCases

theorem build_returns {version table}
    {built} :
    (buildTableDefaultValueMapping json version table).Returns built ↔
      (∀ child ∈ table.child, Passes version child) ∧
        built = table.child.foldl (addChild json version) (0, ∅) := by
  apply returns_walk_iff
  · intro child next built at' passes
    unfold Passes at passes
    unfold addChild
    cases schema : getKeySchema version child with
    | none => simp only [returns_pure]
    | some keySchema =>
      rw [schema] at passes
      simp only [returns_bind, getDefaultValueInfo_returns, and_iff_right (passes rfl),
        exists_eq_left, returns_pure]
  · intro child next built stops
    unfold Passes at stops
    cases schema : getKeySchema version child with
    | none => simp [schema] at stops
    | some keySchema =>
      refine .inr fun at' returned => ?_
      obtain ⟨m, collected, -⟩ := returns_bind.mp returned
      exact stops fun _ => (getDefaultValueInfo_returns.mp collected).1

def IsList (version : LibYang) (child : SchemaNode) : Bool :=
  match getKeySchema version child with
  | none => false
  | some schema => schema.2 != 0

theorem foldl_addChild_fst (json : Nlohmann) (version : LibYang) (children : List SchemaNode)
    (built : Nat × TableDefaultValueMapping) :
    (children.foldl (addChild json version) built).1 =
      built.1 + children.countP (IsList version) := by
  induction children generalizing built with
  | nil => rfl
  | cons child children ih =>
    rw [foldl_cons, ih, countP_cons, addChild, IsList]
    cases getKeySchema version child with
    | none => simp
    | some schema =>
      by_cases keyed : schema.2 = 0
      · simp [keyed]
      · simp [keyed]
        omega

theorem foldl_addChild_snd (json : Nlohmann) (version : LibYang) (children : List SchemaNode)
    (built : Nat × TableDefaultValueMapping) (schema : KeySchema) :
    (children.foldl (addChild json version) built).2[schema]? =
      built.2[schema]?.or
        ((children.find? fun child => getKeySchema version child = some schema).map
          fun child => insertNew ∅ (child.defaults json)) := by
  induction children generalizing built with
  | nil => simp
  | cons child children ih =>
    rw [foldl_cons, ih, find?_cons, addChild]
    cases here : getKeySchema version child with
    | none => simp
    | some found =>
      rw [getElem?_insertIfNew]
      by_cases same : found = schema
      · subst same
        cases before : built.2[found]? with
        | none | some mapping => simp [mem_iff_isSome_getElem?, before]
      · simp [same]

theorem getElem?_defaults (json : Nlohmann) (node : SchemaNode) (field : Bytes) :
    (insertNew (∅ : Hash) (node.defaults json))[field]? = node.default? json field := by
  rw [getElem?_insertNew]
  simp [default?]

/-- The defaults of every list and container as declared, and in its place in the mapping. -/
structure Extracted (json : Nlohmann) (version : LibYang) (table : SchemaNode) : Prop where
  each : ∀ child ∈ table.child, (getKeySchema version child).isSome →
    ∃ mapping, (getDefaultValueInfo json child).Returns mapping ∧
      ∀ field, mapping[field]? = child.default? json field
  all : ∃ built, (buildTableDefaultValueMapping json version table).Returns built ∧
    ∀ child ∈ table.child, ∀ schema, getKeySchema version child = some schema →
      ∃ mapping, built.2[schema]? = some mapping ∧
        ∀ field, mapping[field]? = child.default? json field

/-- Lists and containers that share a place declare the same. -/
def Shareable (json : Nlohmann) (version : LibYang) (children : List SchemaNode) : Prop :=
  ∀ child ∈ children, ∀ other ∈ children, ∀ schema, getKeySchema version child = some schema →
    getKeySchema version other = some schema → child.default? json = other.default? json

theorem getElem?_built {version schema child} {children : List SchemaNode}
    (first : (children.find? fun child => getKeySchema version child = some schema) = some child) :
    (children.foldl (addChild json version) (0, ∅)).2[schema]? =
      some (insertNew ∅ (child.defaults json)) := by
  rw [foldl_addChild_snd, first, getElem?_empty]
  rfl

/-- The defaults of a table are extracted iff the default cases of its lists and containers have
    only leaves, and those of one key schema declare the same. -/
theorem extracted_iff (json : Nlohmann) (version : LibYang) (table : SchemaNode) :
    Extracted json version table ↔
      (∀ child ∈ table.child, (getKeySchema version child).isSome → child.LeafCases) ∧
        Shareable json version table.child := by
  constructor
  · intro extracted
    obtain ⟨built, returned, placed⟩ := extracted.all
    refine ⟨(build_returns.mp returned).1, fun child member other member' schema own own' => ?_⟩
    obtain ⟨mapping, found, declared⟩ := placed child member schema own
    obtain ⟨mapping', found', declared'⟩ := placed other member' schema own'
    obtain rfl : mapping = mapping' := Option.some.inj (found.symm.trans found')
    exact funext fun field => (declared field).symm.trans (declared' field)
  · rintro ⟨passes, shareable⟩
    constructor
    · intro child member keyed
      exact ⟨_, getDefaultValueInfo_returns.mpr ⟨passes child member keyed, rfl⟩,
        getElem?_defaults json child⟩
    · refine ⟨_, build_returns.mpr ⟨passes, rfl⟩, fun child member schema own => ?_⟩
      -- the first child of the key schema has the place
      cases first : table.child.find? fun child => getKeySchema version child = some schema with
      | none => exact absurd own (by simpa using find?_eq_none.mp first child member)
      | some other =>
        have own' : getKeySchema version other = some schema := by simpa using find?_some first
        refine ⟨_, getElem?_built first, fun field => ?_⟩
        rw [getElem?_defaults,
          shareable child member other (mem_of_find?_eq_some first) schema own own']

/-- A choice whose default case is a list of leaves, which the walk does not get past; and two lists
    with one key leaf of the same name, of which the second has no place for its default. -/
theorem extraction_stays :
    let name : SchemaNode := .leaf ⟨ascii "name", by decide⟩ true none
    let servers : SchemaNode := .leafList ⟨ascii "servers", by decide⟩ (some [ascii "10.0.0.1"])
    let mode : SchemaNode := .choice ⟨ascii "mode", by decide⟩ (some [servers])
    let ntp : SchemaNode := .list ⟨ascii "NTP_LIST", by decide⟩ [name, mode]
    let a : SchemaNode := .list ⟨ascii "A_LIST", by decide⟩
      [name, .leaf ⟨ascii "x", by decide⟩ false (some (ascii "1"))]
    let b : SchemaNode := .list ⟨ascii "B_LIST", by decide⟩
      [name, .leaf ⟨ascii "y", by decide⟩ false (some (ascii "2"))]
    (¬ ∃ built, (buildTableDefaultValueMapping .plain .v3
      (.container ⟨ascii "NTP", by decide⟩ [ntp])).Returns built) ∧
    b.default? .plain (ascii "y") = some (ascii "2") ∧
    ∀ built, (buildTableDefaultValueMapping .plain .v3
        (.container ⟨ascii "T", by decide⟩ [a, b])).Returns built →
      ∃ mapping, built.2[(ascii "name", 1)]? = some mapping ∧ mapping[ascii "y"]? = none := by
  intro name servers mode ntp a b
  refine ⟨?_, rfl, fun built returned => ?_⟩
  · rintro ⟨built, returned⟩
    have passes := (build_returns.mp returned).1 ntp (by simp [child]) rfl
    exact passes mode (by simp [child, ntp]) servers (by simp)
  · obtain rfl := (build_returns.mp returned).2
    exact ⟨insertNew ∅ (a.defaults .plain), getElem?_built rfl, by rw [getElem?_defaults]; rfl⟩

end SwssCommon.DefaultValueHelper
