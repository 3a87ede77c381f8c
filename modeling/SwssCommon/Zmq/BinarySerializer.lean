import SwssCommon.Lib.Frames
import SwssCommon.Table.Names

/-! # The binary message format

A message is a count of pairs of strings, and the pairs: the first names the database and the table;
every record is a pair of its key and the number of its fields, then the fields. A record without
fields is a delete. The serializer throws where the buffer is too small. Positions and lengths are
`size_t`.
-/

namespace SwssCommon.BinarySerializer

open Bytes

/-- `sizeof(size_t)`. -/
def word : Nat := 8

def sizeT (n : Nat) : Nat :=
  n % 2 ^ 64

inductive SerializerError where
  | notEnoughBuffer (keyCount dataLength bufferSize : Nat)
  | keyTruncated (keyLength bufferSize : Nat)
  | valueTruncated (valueLength bufferSize : Nat)
  | stoi (e : StoiError)
  /-- `std::length_error` of a string that is longer than strings can be. -/
  | lengthError
  /-- A word read beyond the end of the buffer. -/
  | outOfBounds
  deriving DecidableEq

/-! ## Writing -/

/-- `n += s.size() + sizeof(size_t)`. -/
def addSize (n : Nat) (s : Bytes) : Nat :=
  sizeT (n + s.length + word)

def serializedSize (dbName tableName : Bytes) (kcos : List KeyOpFieldsValuesTuple) : Nat :=
  let n := addSize 0 dbName
  let n := addSize n tableName
  let n := kcos.foldl (fun n kco =>
    let n := addSize n kco.kfvKey
    let n := addSize n (decimal kco.kfvFieldsValues.length)
    kco.kfvFieldsValues.foldl (fun n fv => addSize (addSize n fv.1) fv.2) n) n
  sizeT (n + word)

/-- A serializer at work. Its position is counted from the start of the buffer. -/
structure Serializer where
  buffer : Bytes
  position : Nat
  kvpCount : Nat

namespace Serializer

def setData (z : Serializer) (data : Bytes) : Except SerializerError Serializer :=
  if sizeT (z.position + data.length + word) > z.buffer.length then
    .error (.notEnoughBuffer z.kvpCount data.length z.buffer.length)
  else
    let buffer := overwrite z.buffer z.position (littleEndian word data.length)
    .ok { z with
      buffer := overwrite buffer (z.position + word) data
      position := z.position + word + data.length }

def setKeyAndValue (z : Serializer) (key value : Bytes) : Except SerializerError Serializer := do
  let z ← z.setData key
  let z ← z.setData value
  pure { z with kvpCount := sizeT (z.kvpCount + 1) }

def finalize (z : Serializer) : Nat × Bytes :=
  (z.position, overwrite z.buffer 0 (littleEndian word z.kvpCount))

end Serializer

def serializeBuffer (buffer : Bytes) (dbName tableName : Bytes)
    (kcos : List KeyOpFieldsValuesTuple) : Except SerializerError (Nat × Bytes) := do
  let z : Serializer := ⟨buffer, word, 0⟩
  let z ← z.setKeyAndValue dbName tableName
  let z ← kcos.foldlM (fun z kco => do
    let z ← z.setKeyAndValue kco.kfvKey (decimal kco.kfvFieldsValues.length)
    kco.kfvFieldsValues.foldlM (fun z fv => z.setKeyAndValue fv.1 fv.2) z) z
  pure z.finalize

/-! ## Reading -/

def readSize (buffer : Bytes) (position : Nat) : Except SerializerError Nat :=
  if position + word ≤ buffer.length then .ok (ofLittleEndian ((buffer.drop position).take word))
  else .error .outOfBounds

def readData (truncated : Nat → Nat → SerializerError) (buffer : Bytes) (position : Nat) :
    Except SerializerError (Bytes × Nat) := do
  let length ← readSize buffer position
  let position := position + word
  if sizeT (position + length) > buffer.length then .error (truncated length buffer.length)
  -- the sum has wrapped around
  else if position + length > buffer.length then .error .lengthError
  else pure ((buffer.drop position).take length, position + length)

def readPairs (buffer : Bytes) : Nat → Nat → List FieldValueTuple →
    Except SerializerError (List FieldValueTuple)
  | 0, _, values => pure values
  | kvpCount + 1, position, values => do
    let (key, position) ← readData .keyTruncated buffer position
    let (value, position) ← readData .valueTruncated buffer position
    readPairs buffer kvpCount position (values ++ [(key, value)])

/-- The pairs of a message, appended to `values`. -/
def deserializePairs (buffer : Bytes) (values : List FieldValueTuple) :
    Except SerializerError (List FieldValueTuple) := do
  let kvpCount ← readSize buffer 0
  readPairs buffer kvpCount word values

structure Message where
  dbName : Bytes
  tableName : Bytes
  kcos : List KeyOpFieldsValuesTuple
  deriving DecidableEq

/-- The loop that cuts the pairs into records. `fvsSize` counts the fields still to come;
    it is negative until the names have been read. -/
structure Decoder extends Message where
  fvsSize : Int
  kco : KeyOpFieldsValuesTuple

def Decoder.decode (d : Decoder) (fv : FieldValueTuple) : Except SerializerError Decoder :=
  if d.fvsSize < 0 then
    .ok { d with dbName := fv.1, tableName := fv.2, fvsSize := 0 }
  else do
    let d ← (if d.fvsSize = 0 then
        match Bytes.stoi fv.2 with
        | .error e => .error (.stoi e)
        | .ok n =>
          .ok { d with fvsSize := n, kco := ⟨fv.1, if n = 0 then DEL_COMMAND else SET_COMMAND, []⟩ }
      else
        .ok { d with
          fvsSize := d.fvsSize - 1
          kco := { d.kco with kfvFieldsValues := d.kco.kfvFieldsValues ++ [fv] } } :
      Except SerializerError Decoder)
    pure (if d.fvsSize = 0 then { d with kcos := d.kcos ++ [d.kco] } else d)

/-- The message in a buffer. Names that are not there and records that are keep what
    `into` holds. -/
def deserializeBuffer (buffer : Bytes) (into : Message) : Except SerializerError Message := do
  let values ← deserializePairs buffer []
  let d ← values.foldlM Decoder.decode ⟨into, -1, ⟨[], [], []⟩⟩
  pure d.toMessage

end SwssCommon.BinarySerializer
