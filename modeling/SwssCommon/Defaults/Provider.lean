import SwssCommon.Defaults.Extraction

/-! # DefaultValueProvider

For every table the provider keeps the defaults of the containers by name, those of the only list,
or those of several lists by the number of keys. To dereference the end of a map is undefined.
-/

namespace SwssCommon

open Bytes Redis Looping

inductive Undefined where
  | endDereferenced
  deriving DecidableEq

/-- `result->second` of a search in a map. -/
def dereference {α : Type} : Option α → Except Undefined α
  | some a => .ok a
  | none => .error .endDereferenced

/-- `TableInfoDict`, `TableInfoSingleList` and `TableInfoMultipleList`. -/
inductive TableInfo where
  | dict (defaultValueMapping : Std.ExtTreeMap Bytes FieldDefaultValueMapping compare)
  | singleList (defaultValueMapping : FieldDefaultValueMapping)
  | multipleList (defaultValueMapping : Std.ExtTreeMap Nat FieldDefaultValueMapping compare)

namespace TableInfo

def ofDict (mapping : TableDefaultValueMapping) : TableInfo :=
  .dict (OrderedMap.insertNew ∅ (mapping.toList.map fun entry => (entry.1.1, entry.2)))

/-- `begin()->second`. The list has an entry. -/
def ofSingleList (mapping : TableDefaultValueMapping) : TableInfo :=
  .singleList ((mapping.toList.head?.map Prod.snd).getD ∅)

def ofMultipleList (mapping : TableDefaultValueMapping) : TableInfo :=
  .multipleList (OrderedMap.insertNew ∅ (mapping.toList.map fun entry => (entry.1.2, entry.2)))

/-- The switch on the number of lists in `AppendTableInfoToMapping`. -/
def ofMapping (listCount : Nat) (mapping : TableDefaultValueMapping) : TableInfo :=
  match listCount with
  | 0 => ofDict mapping
  | 1 => ofSingleList mapping
  | _ => ofMultipleList mapping

def foundFieldMappingByKey (info : TableInfo) (key : Bytes) :
    Except Undefined (Bool × FieldDefaultValueMapping) :=
  match info with
  | .dict mapping => do
    let keyResult := mapping[key]?
    let found ← dereference keyResult
    pure (keyResult.isSome, found)
  | .singleList mapping => pure (true, mapping)
  | .multipleList mapping => do
    let fieldCount := key.count 124 + 1
    let keySchema := mapping[fieldCount]?
    let found ← dereference keySchema
    pure (keySchema.isSome, found)

def getDefaultValue (info : TableInfo) (key field : Bytes) : Except Undefined (Option Bytes) := do
  let (found, fieldMapping) ← info.foundFieldMappingByKey key
  if !found then pure none else pure fieldMapping[field]?

def appendDefaultValues (info : TableInfo) (key : Bytes) (existedValues targetValues : Hash) :
    Except Undefined Hash := do
  let (found, fieldMapping) ← info.foundFieldMappingByKey key
  if !found then pure targetValues
  else pure (fieldMapping.toList.foldl (fun target entry =>
    if entry.1 ∈ existedValues then target else target.insertIfNew entry.1 entry.2) targetValues)

end TableInfo

abbrev DefaultValueProvider := Std.ExtTreeMap Bytes TableInfo compare

namespace SchemaNode

def name : SchemaNode → Bytes
  | .leaf name .. | .leafList name _ | .choice name _ | .container name _ | .list name _
  | .other name => name

end SchemaNode

namespace DefaultValueProvider

variable (json : Nlohmann)

def appendTableInfoToMapping (version : LibYang) (provider : DefaultValueProvider)
    (table : SchemaNode) : Looping DefaultValueProvider := do
  let (listCount, mapping) ← DefaultValueHelper.buildTableDefaultValueMapping json version table
  pure (provider.insertIfNew table.name (TableInfo.ofMapping listCount mapping))

/-- The tables are the children of the containers at the top of a module. -/
def loadModule (version : LibYang) (provider : DefaultValueProvider) (module' : List SchemaNode) :
    Looping DefaultValueProvider :=
  walk (fun topLevelNode next provider =>
    match topLevelNode with
    | .container _ children =>
      (next, ·) <$> walk (fun container next provider =>
        (next, ·) <$> appendTableInfoToMapping json version provider container) children provider
    | _ => pure (next, provider)) module' provider

/-- `Initialize`, with the modules that can be loaded in the order of the directory. -/
def load (version : LibYang) (modules : List (List SchemaNode)) : Looping DefaultValueProvider :=
  walk (fun module' next provider => (next, ·) <$> loadModule json version provider module')
    modules ∅

def getDefaultValue (provider : DefaultValueProvider) (table key field : Bytes) :
    Except Undefined (Option Bytes) :=
  match provider[table]? with
  | none => pure none
  | some info => info.getDefaultValue key field

def internalAppendDefaultValues (provider : DefaultValueProvider) (table key : Bytes)
    (existedValues defaultValues : Hash) : Except Undefined Hash :=
  match provider[table]? with
  | none => pure defaultValues
  | some info => info.appendDefaultValues key existedValues defaultValues

def appendDefaultValues (provider : DefaultValueProvider) (table key : Bytes)
    (fvs : List (Bytes × Bytes)) : Except Undefined (List (Bytes × Bytes)) := do
  let existedValues := OrderedMap.insertNew ∅ fvs
  let defaultValues ← provider.internalAppendDefaultValues table key existedValues ∅
  pure (fvs ++ defaultValues.toList)

end DefaultValueProvider

end SwssCommon
