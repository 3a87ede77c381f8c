import SwssCommon.Lib.JsonStrings
import SwssCommon.Lib.Looping
import SwssCommon.Redis.Keyspace

/-! # Default values in a schema

The tables of a schema are containers of lists and containers. `DefaultValueHelper` collects the
defaults of leaves, of lists of leaves, and of the leaves in the default case of a choice. Two
versions of the schema library give the keys of a list in different ways.
-/

namespace SwssCommon

open Bytes Redis

def identifierByte (c : UInt8) : Bool :=
  Nat.ble 97 c.toNat && Nat.ble c.toNat 122 || Nat.ble 65 c.toNat && Nat.ble c.toNat 90 ||
    Nat.ble 48 c.toNat && Nat.ble c.toNat 57 || c.toNat == 95 || c.toNat == 45 || c.toNat == 46

def isIdentifier (s : Bytes) : Bool :=
  !s.isEmpty && s.all identifierByte

abbrev Identifier := { s : Bytes // isIdentifier s = true }

namespace Identifier

theorem ne_nil (name : Identifier) : name.1 ≠ [] := by
  intro empty
  have holds := name.2
  rw [empty] at holds
  cases holds

theorem space_notMem (name : Identifier) : (32 : UInt8) ∉ name.1 := by
  intro blank
  have bytes := (Bool.and_eq_true_iff.mp name.2).2
  exact absurd (List.all_eq_true.mp bytes 32 blank) (by decide)

end Identifier

/-- A node of a schema tree. The other cases of a choice are not looked at. -/
inductive SchemaNode where
  | leaf (name : Identifier) (isKey : Bool) (dflt : Option Bytes)
  | leafList (name : Identifier) (dflts : Option (List Bytes))
  | choice (name : Identifier) (dflt : Option (List SchemaNode))
  | container (name : Identifier) (children : List SchemaNode)
  | list (name : Identifier) (children : List SchemaNode)
  | other (name : Identifier)

namespace SchemaNode

/-- `SWSS_LYS_NODE_CHILD`. -/
def child : SchemaNode → List SchemaNode
  | .container _ children | .list _ children => children
  | _ => []

/-- `lysc_is_key`, and the name of the key. -/
def key? : SchemaNode → Option Bytes
  | .leaf name true _ => some name
  | _ => none

def keys (node : SchemaNode) : List Bytes :=
  node.child.filterMap key?

/-- The names of the keys of a list with blanks between them, as libyang1 has them. -/
def keysStr (node : SchemaNode) : Option Bytes :=
  if node.keys = [] then none else some (List.intercalate [32] node.keys)

end SchemaNode

inductive LibYang where
  | v1
  | v3

abbrev KeySchema := Bytes × Nat

namespace KeySchema

/-- The order of `std::pair<std::string, int>`. -/
def cmp : KeySchema → KeySchema → Ordering :=
  compareLex (compareOn Prod.fst) (compareOn Prod.snd)

instance : Std.TransCmp cmp :=
  inferInstanceAs (Std.TransCmp (compareLex (compareOn Prod.fst) (compareOn Prod.snd)))

instance : Std.LawfulEqCmp cmp where
  compare_self := Std.ReflCmp.compare_self
  eq_of_compare {a b} same := by
    simp only [cmp, compareLex, compareOn, Ordering.then_eq_eq,
      Std.LawfulEqCmp.compare_eq_iff_eq] at same
    exact Prod.ext same.1 same.2

end KeySchema

abbrev FieldDefaultValueMapping := Hash

abbrev TableDefaultValueMapping :=
  Std.ExtTreeMap KeySchema FieldDefaultValueMapping KeySchema.cmp

namespace DefaultValueHelper

def addKey (schema : KeySchema) (node : SchemaNode) : KeySchema :=
  match node.key? with
  | none => schema
  | some name =>
    (if schema.1 = [] then name else schema.1 ++ ascii " " ++ name, schema.2 + 1)

def getKeySchema (version : LibYang) (node : SchemaNode) : Option KeySchema :=
  match node with
  | .list _ children =>
    match version with
    | .v3 => some (children.foldl addKey ([], 0))
    | .v1 => node.keysStr.map fun key => ([], key.count 32 + 1)
  | .container name _ => some (name, 0)
  | _ => none

def getDefaultValueInfoForLeaf (name : Identifier) (dflt : Option Bytes)
    (fieldMapping : FieldDefaultValueMapping) : FieldDefaultValueMapping :=
  match dflt with
  | none => fieldMapping
  | some value => fieldMapping.insertIfNew name value

def getDefaultValueInfoForChoice (dflt : Option (List SchemaNode))
    (fieldMapping : FieldDefaultValueMapping) : Looping FieldDefaultValueMapping :=
  match dflt with
  | none => pure fieldMapping
  | some fields =>
    Looping.walk (fun field next mapping =>
      match field with
      | .leaf name _ dflt => pure (next, getDefaultValueInfoForLeaf name dflt mapping)
      -- `continue`, with the same node again
      | _ => pure (field :: next, mapping)) fields fieldMapping

variable (json : Nlohmann)

def getDefaultValueInfoForLeaflist (name : Identifier) (dflts : Option (List Bytes))
    (fieldMapping : FieldDefaultValueMapping) : FieldDefaultValueMapping :=
  match dflts with
  | none => fieldMapping
  | some values => fieldMapping.insertIfNew name (json.dump values)

def getDefaultValueInfo (tableChildNode : SchemaNode) : Looping FieldDefaultValueMapping :=
  Looping.walk (fun field next mapping =>
    match field with
    | .leaf name _ dflt => pure (next, getDefaultValueInfoForLeaf name dflt mapping)
    | .choice _ dflt => (next, ·) <$> getDefaultValueInfoForChoice dflt mapping
    | .leafList name dflts => pure (next, getDefaultValueInfoForLeaflist json name dflts mapping)
    | _ => pure (next, mapping)) tableChildNode.child ∅

/-- The number of lists, and the defaults of every list and container. -/
def buildTableDefaultValueMapping (version : LibYang) (table : SchemaNode) :
    Looping (Nat × TableDefaultValueMapping) :=
  Looping.walk (fun nextChild next built =>
    match getKeySchema version nextChild with
    | none => pure (next, built)
    | some keySchema => do
      let fieldMapping ← getDefaultValueInfo json nextChild
      let childListCount := if keySchema.2 ≠ 0 then built.1 + 1 else built.1
      pure (next, (childListCount, built.2.insertIfNew keySchema fieldMapping)))
    table.child (0, ∅)

end DefaultValueHelper

/-! ## What is declared -/

namespace SchemaNode

def leafDefault : SchemaNode → List (Bytes × Bytes)
  | .leaf name _ (some value) => [(name, value)]
  | _ => []

variable (json : Nlohmann)

/-- The defaults that a field of a list or container declares. -/
def fieldDefaults : SchemaNode → List (Bytes × Bytes)
  | .leafList name (some values) => [(name, json.dump values)]
  | .choice _ (some fields) => fields.flatMap leafDefault
  | field => field.leafDefault

def defaults (node : SchemaNode) : List (Bytes × Bytes) :=
  node.child.flatMap (fieldDefaults json)

def default? (node : SchemaNode) (field : Bytes) : Option Bytes :=
  (node.defaults json).lookup field

def IsLeaf : SchemaNode → Prop
  | .leaf .. => True
  | _ => False

/-- If the node is a choice, its default case has only leaves. -/
def LeafCase : SchemaNode → Prop
  | .choice _ (some fields) => ∀ field ∈ fields, field.IsLeaf
  | _ => True

/-- The choices of a list or container have only leaves in their default cases. -/
def LeafCases (node : SchemaNode) : Prop :=
  ∀ field ∈ node.child, field.LeafCase

end SchemaNode

end SwssCommon
