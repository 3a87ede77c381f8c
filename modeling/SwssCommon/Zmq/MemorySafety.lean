import SwssCommon.Lib.Reading
import SwssCommon.Zmq.RoundTrip

/-! # What the deserializer reads

The deserializer dereferences a length before it compares it with the size. As long as the buffer
holds the first word, a message that is accepted was read inside the buffer, and one that is refused
at most a word beyond it.
-/

namespace SwssCommon.BinarySerializer

open Bytes

section Reads

variable (maxSize n : Nat)

def readSizeAt (position : Nat) : Reading SerializerError Nat := do
  let bytes ← Reading.fetch ⟨position, word⟩
  pure (ofLittleEndian bytes)

/-- `string(pointer, length)`, which throws beyond `max_size()`. -/
def stringAt (position length : Nat) : Reading SerializerError Bytes :=
  if length > maxSize then .lift (.error .lengthError) else Reading.fetch ⟨position, length⟩

def readDataAt (truncated : Nat → Nat → SerializerError) (position : Nat) :
    Reading SerializerError (Bytes × Nat) := do
  let length ← readSizeAt position
  if sizeT (position + word + length) > n then .lift (.error (truncated length n))
  else do
    let data ← stringAt maxSize (position + word) length
    pure (data, position + word + length)

def readPairsAt : Nat → Nat → List FieldValueTuple →
    Reading SerializerError (List FieldValueTuple)
  | 0, _, values => pure values
  | kvpCount + 1, position, values => do
    let (key, position) ← readDataAt maxSize n .keyTruncated position
    let (value, position) ← readDataAt maxSize n .valueTruncated position
    readPairsAt kvpCount position (values ++ [(key, value)])

def deserializePairsAt (values : List FieldValueTuple) :
    Reading SerializerError (List FieldValueTuple) := do
  let kvpCount ← readSizeAt 0
  readPairsAt maxSize n kvpCount word values

/-- `deserializeBuffer` of an address and a size. -/
def deserializeBufferAt (into : Message) : Reading SerializerError Message := do
  let values ← deserializePairsAt maxSize n []
  .lift do
    let d ← values.foldlM Decoder.decode ⟨into, -1, ⟨[], [], []⟩⟩
    pure d.toMessage

end Reads

variable {maxSize n : Nat} {memory : Memory}

theorem readSizeAt_run (position : Nat) :
    readSizeAt position memory =
      (.ok (ofLittleEndian (memory.bytes ⟨position, word⟩)), [⟨position, word⟩]) := rfl

theorem readSizeAt_follows {position} (inside : position + word ≤ n) :
    (readSizeAt position).Follows memory n word (readSize (memory.buffer n) position) := by
  unfold readSize
  rw [if_pos (by simpa using inside)]
  exact (Reading.Follows.fetch (r := ⟨position, word⟩) inside).map ofLittleEndian

section Sizes

variable (strings : maxSize < 2 ^ 63) (room : n + word ≤ 2 ^ 63)
include strings room

variable {position : Nat}

theorem length_of_wrapped {length} (low : position ≤ n ∨ position ≤ word)
    (passes : sizeT (position + word + length) ≤ n) (beyond : n < position + word + length) :
    maxSize < length := by
  unfold sizeT word at *
  omega

theorem readDataAt_fails (memory : Memory) (truncated : Nat → Nat → SerializerError)
    (low : position ≤ n ∨ position ≤ word) (outside : n < position + word) :
    ∃ e, readDataAt maxSize n truncated position memory = (.error e, [⟨position, word⟩]) := by
  unfold readDataAt
  rw [Reading.bind_of_ok (congrArg Prod.fst (readSizeAt_run position))]
  generalize ofLittleEndian (memory.bytes ⟨position, word⟩) = length
  by_cases passes : sizeT (position + word + length) > n
  · rw [if_pos passes]
    exact ⟨_, rfl⟩
  · have long := length_of_wrapped strings room low (Nat.le_of_not_lt passes) (by omega)
    rw [if_neg passes, stringAt, if_pos long]
    exact ⟨.lengthError, rfl⟩

theorem readDataAt_follows {truncated} (low : position ≤ n) :
    (readDataAt maxSize n truncated position).Follows memory n word
      (readData truncated (memory.buffer n) position) := by
  by_cases inside : position + word ≤ n
  · refine (readSizeAt_follows inside).bind fun length _ => ?_
    simp only [Memory.buffer_length]
    by_cases passes : sizeT (position + word + length) > n
    · rw [if_pos passes, if_pos passes]
      exact .lift _
    · rw [if_neg passes, if_neg passes]
      by_cases long : length > maxSize
      · rw [stringAt, if_pos long]
        exact .fails (e := .lengthError) rfl (by rintro r ⟨⟩)
      · have fits : position + word + length ≤ n := by
          by_contra beyond
          exact long (length_of_wrapped strings room (.inl low) (Nat.le_of_not_lt passes)
            (Nat.lt_of_not_le beyond))
        rw [stringAt, if_neg long, if_neg (Nat.not_lt.mpr fits)]
        exact (Reading.Follows.fetch (r := ⟨position + word, length⟩) fits).map
          fun data => (data, position + word + length)
  · obtain ⟨e, ran⟩ := readDataAt_fails strings room memory truncated (.inl low)
      (Nat.lt_of_not_le inside)
    refine .fails (e := e) (by rw [ran]) ?_
    rw [ran]
    intro r member
    rw [List.mem_singleton.mp member]
    exact Nat.add_le_add_right low word

theorem readPairsAt_follows (kvpCount : Nat) (low : position ≤ n) (values : List FieldValueTuple) :
    (readPairsAt maxSize n kvpCount position values).Follows memory n word
      (readPairs (memory.buffer n) kvpCount position values) := by
  induction kvpCount generalizing position values with
  | zero => exact .pure values
  | succ kvpCount ih =>
    refine (readDataAt_follows strings room low).bind fun (key, position) readKey => ?_
    have low : position ≤ n := by simpa using (readData_ok readKey).2
    refine (readDataAt_follows strings room low).bind fun (value, position) readValue => ?_
    have low : position ≤ n := by simpa using (readData_ok readValue).2
    exact ih low (values ++ [(key, value)])

theorem deserializeBufferAt_follows (into : Message) (counted : word ≤ n) :
    (deserializeBufferAt maxSize n into).Follows memory n word
      (deserializeBuffer (memory.buffer n) into) := by
  have pairs : (deserializePairsAt maxSize n []).Follows memory n word
      (deserializePairs (memory.buffer n) []) :=
    (readSizeAt_follows (by simpa using counted)).bind fun kvpCount _ =>
      readPairsAt_follows strings room kvpCount counted []
  exact pairs.bind fun values _ => .lift _

theorem deserializeBufferAt_fails (into : Message) (short : n < word)
    (counted : ofLittleEndian (memory.bytes ⟨0, word⟩) ≠ 0) :
    ∃ e, (deserializeBufferAt maxSize n into memory).1 = .error e := by
  obtain ⟨kvpCount, more⟩ := Nat.exists_eq_succ_of_ne_zero counted
  obtain ⟨e, failed⟩ := readDataAt_fails strings room memory .keyTruncated (.inr (le_refl word))
    (by omega)
  have stopped : readPairsAt maxSize n (kvpCount + 1) word [] memory =
      (.error e, [⟨word, word⟩]) := by
    unfold readPairsAt
    rw [Reading.bind_of_error (congrArg Prod.fst failed), failed]
  have pairs : (deserializePairsAt maxSize n [] memory).1 = .error e := by
    unfold deserializePairsAt
    rw [Reading.bind_of_ok (congrArg Prod.fst (readSizeAt_run 0)), more, stopped]
  exact ⟨e, by rw [deserializeBufferAt, Reading.bind_of_error pairs]⟩

end Sizes

theorem deserializeBufferAt_empty (into : Message)
    (nothing : ofLittleEndian (memory.bytes ⟨0, word⟩) = 0) :
    deserializeBufferAt maxSize n into memory =
      (.ok (Decoder.toMessage ⟨into, -1, ⟨[], [], []⟩⟩), [⟨0, word⟩]) := by
  have pairs : deserializePairsAt maxSize n [] memory = (.ok [], [⟨0, word⟩]) := by
    unfold deserializePairsAt
    rw [Reading.bind_of_ok (congrArg Prod.fst (readSizeAt_run 0)), nothing]
    rfl
  unfold deserializeBufferAt
  rw [Reading.bind_of_ok (congrArg Prod.fst pairs), pairs]
  rfl

/-- A refused message has been read at most a word beyond the buffer, if that holds the first. -/
theorem deserializeBuffer_reads_near (into : Message) (strings : maxSize < 2 ^ 63)
    (room : n + word ≤ 2 ^ 63) (held : word ≤ n) :
    ∀ r ∈ (deserializeBufferAt maxSize n into memory).2, r.Within (n + word) :=
  (deserializeBufferAt_follows strings room into held).near

/-- A call throws or has read inside the buffer iff the first word lies in the buffer or counts
    something. -/
theorem deserializeBuffer_reads_inside (maxSize n : Nat) (memory : Memory) (into : Message)
    (strings : maxSize < 2 ^ 63) (room : n + word ≤ 2 ^ 63) :
    ((∃ e, (deserializeBufferAt maxSize n into memory).1 = .error e) ∨
        ∀ r ∈ (deserializeBufferAt maxSize n into memory).2, r.Within n) ↔
      (word ≤ n ∨ ofLittleEndian (memory.bytes ⟨0, word⟩) ≠ 0) := by
  by_cases held : word ≤ n
  · refine iff_of_true ?_ (.inl held)
    cases ended : (deserializeBufferAt maxSize n into memory).1 with
    | error e => exact .inl ⟨e, rfl⟩
    | ok message =>
      exact .inr ((deserializeBufferAt_follows strings room into held).completes ended).2
  · by_cases counted : ofLittleEndian (memory.bytes ⟨0, word⟩) = 0
    · refine iff_of_false ?_ (not_or.mpr ⟨held, not_not.mpr counted⟩)
      rw [deserializeBufferAt_empty into counted]
      rintro (⟨e, threw⟩ | inside)
      · cases threw
      · exact held (by simpa [Range.Within] using inside ⟨0, word⟩ (List.mem_singleton_self _))
    · exact iff_of_true (.inl (deserializeBufferAt_fails strings room into
        (Nat.lt_of_not_le held) counted)) (.inr counted)

/-- A message of the two names alone, with other bytes behind it. -/
theorem deserializeBuffer_reads_inside_names :
    let message := littleEndian word 1 ++ frame (ascii "APPL_DB") ++ frame (ascii "PORT_TABLE")
    let memory : Memory := fun i => message.getD i 255
    (deserializeBufferAt (2 ^ 62) message.length ⟨[], [], []⟩ memory).1 =
        .ok ⟨ascii "APPL_DB", ascii "PORT_TABLE", []⟩ ∧
      ∀ r ∈ (deserializeBufferAt (2 ^ 62) message.length ⟨[], [], []⟩ memory).2,
        r.Within message.length := by
  intro message memory
  have accepted : (deserializeBufferAt (2 ^ 62) message.length ⟨[], [], []⟩ memory).1 =
      .ok ⟨ascii "APPL_DB", ascii "PORT_TABLE", []⟩ := by decide
  have reads := deserializeBuffer_reads_inside (2 ^ 62) message.length memory ⟨[], [], []⟩
    (by decide) (by decide)
  refine ⟨accepted, (reads.mpr (.inl (by decide))).resolve_left ?_⟩
  rintro ⟨e, refused⟩
  rw [accepted] at refused
  cases refused

/-- Eight zero bytes behind an empty buffer pass for an empty message. -/
theorem deserializeBuffer_reads_outside :
    let empty : Message := ⟨[], [], []⟩
    deserializeBufferAt (2 ^ 62) 0 empty (fun _ => 0) = (.ok empty, [⟨0, 8⟩]) ∧
      ¬ (⟨0, 8⟩ : Range).Within 0 := by
  refine ⟨?_, by decide⟩
  rfl

end SwssCommon.BinarySerializer
