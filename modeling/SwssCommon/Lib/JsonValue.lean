import SwssCommon.Lib.Bytes

/-! # JSON values as a program reads them

The operations of the nlohmann library on a value that was parsed. They throw where they make no
sense, with a text that begins with the class and the number of the exception.
-/

namespace SwssCommon

open Bytes

/-- A value. The members of an object come in the order of their names, each once; a
    number with a fraction is known by its integral part. -/
inductive JsonValue where
  | null
  | boolean (b : Bool)
  | integer (n : Int)
  | float (truncated : Int)
  | string (s : Bytes)
  | array (elements : List JsonValue)
  | object (members : List (Bytes × JsonValue))

namespace JsonValue

def typeName : JsonValue → Bytes
  | null => ascii "null"
  | boolean _ => ascii "boolean"
  | integer _ | float _ => ascii "number"
  | string _ => ascii "string"
  | array _ => ascii "array"
  | object _ => ascii "object"

abbrev Exception := Bytes

/-- `operator[]` of a value that may be changed: a missing member is made, as null. -/
def subscript (j : JsonValue) (key : Bytes) : Except Exception JsonValue :=
  match j with
  | null => .ok null
  | object members => .ok ((members.lookup key).getD null)
  | _ => .error
    (ascii "[json.exception.type_error.305] cannot use operator[] with a string argument with " ++
      j.typeName)

/-- `at`. -/
def member (j : JsonValue) (key : Bytes) : Except Exception JsonValue :=
  match j with
  | object members =>
    match members.lookup key with
    | some value => .ok value
    | none => .error (ascii "[json.exception.out_of_range.403] key '" ++ key ++ ascii "' not found")
  | _ => .error (ascii "[json.exception.type_error.304] cannot use at() with " ++ j.typeName)

/-- `find`, with `none` for the end. -/
def find (j : JsonValue) (key : Bytes) : Option JsonValue :=
  match j with
  | object members => members.lookup key
  | _ => none

/-- What a loop over a value visits. A value that is no container is its own element. -/
def elements : JsonValue → List JsonValue
  | null => []
  | array elements => elements
  | object members => members.map Prod.snd
  | j => [j]

/-- The same, with what `key()` of the iterator gives. -/
def items (j : JsonValue) : List (Except Exception Bytes × JsonValue) :=
  match j with
  | object members => members.map fun m => (.ok m.1, m.2)
  | _ => j.elements.map fun e =>
    (.error
      (ascii "[json.exception.invalid_iterator.207] cannot use key() for non-object iterators"), e)

def empty : JsonValue → Bool
  | null => true
  | array elements => elements.isEmpty
  | object members => members.isEmpty
  | _ => false

def getString : JsonValue → Except Exception Bytes
  | string s => .ok s
  | j => .error (ascii "[json.exception.type_error.302] type must be string, but is " ++ j.typeName)

/-- Conversion to an `int`, which keeps the low 32 bits. -/
def getInt : JsonValue → Except Exception Int
  | integer n | float n => .ok (n.bmod (2 ^ 32))
  | boolean b => .ok (if b then 1 else 0)
  | j => .error (ascii "[json.exception.type_error.302] type must be number, but is " ++ j.typeName)

end JsonValue

end SwssCommon
