import SwssCommon.Zmq.BinarySerializer

/-! # Messages come back as they were sent

The serializer writes the frames of a list of pairs, of length `serializedSize`. Reading takes the
frames apart, and the decoder cuts the pairs into the records.
-/

namespace SwssCommon.BinarySerializer

open Bytes List Decoder Serializer

variable {buffer dbName tableName : Bytes} {kcos : List KeyOpFieldsValuesTuple}

def recordPairs (kco : KeyOpFieldsValuesTuple) : List FieldValueTuple :=
  (kco.kfvKey, decimal kco.kfvFieldsValues.length) :: kco.kfvFieldsValues

def messagePairs (dbName tableName : Bytes) (kcos : List KeyOpFieldsValuesTuple) :
    List FieldValueTuple :=
  (dbName, tableName) :: kcos.flatMap recordPairs

/-! ## Sizes -/

theorem addSize_eq (n : Nat) (s : Bytes) : addSize (sizeT n) s = sizeT (n + (frame s).length) := by
  simp only [addSize, sizeT, frame_length, word]
  omega

private theorem foldl_addSize (n : Nat) (fvs : List FieldValueTuple) :
    fvs.foldl (fun n fv => addSize (addSize n fv.1) fv.2) (sizeT n) =
      sizeT (n + (framePairs fvs).length) := by
  induction fvs generalizing n with
  | nil => rfl
  | cons fv fvs ih =>
    rw [foldl_cons, addSize_eq, addSize_eq, ih, framePairs_cons]
    simp only [length_append, Nat.add_assoc]

private theorem foldl_records (n : Nat) (kcos : List KeyOpFieldsValuesTuple) :
    kcos.foldl (fun n kco => kco.kfvFieldsValues.foldl (fun n fv => addSize (addSize n fv.1) fv.2)
        (addSize (addSize n kco.kfvKey) (decimal kco.kfvFieldsValues.length))) (sizeT n) =
      sizeT (n + (framePairs (kcos.flatMap recordPairs)).length) := by
  induction kcos generalizing n with
  | nil => rfl
  | cons kco kcos ih =>
    rw [foldl_cons, addSize_eq, addSize_eq, foldl_addSize, ih, flatMap_cons,
      framePairs_append, recordPairs, framePairs_cons]
    simp only [length_append, Nat.add_assoc]

theorem serializedSize_eq (dbName tableName : Bytes) (kcos : List KeyOpFieldsValuesTuple) :
    serializedSize dbName tableName kcos =
      sizeT (word + (framePairs (messagePairs dbName tableName kcos)).length) := by
  have first : addSize 0 dbName = sizeT (frame dbName).length := by
    simpa [sizeT] using addSize_eq 0 dbName
  simp only [serializedSize, first, addSize_eq, foldl_records, messagePairs, framePairs_cons,
    length_append]
  simp only [sizeT]
  omega

/-! ## Writing -/

def wrote (buffer bytes : Bytes) (count : Nat) : Serializer :=
  ⟨overwrite buffer word bytes, word + bytes.length, count⟩

variable {bytes : Bytes}

theorem setData_wrote {data count} (inside : word + bytes.length ≤ buffer.length)
    (small : word + (bytes ++ frame data).length < 2 ^ 64) :
    (wrote buffer bytes count).setData data =
      if word + (bytes ++ frame data).length ≤ buffer.length then
        .ok (wrote buffer (bytes ++ frame data) count)
      else .error (.notEnoughBuffer count data.length buffer.length) := by
  have sum : word + bytes.length + data.length + word = word + (bytes ++ frame data).length := by
    simp only [length_append, frame_length, word]
    omega
  have whole : (overwrite buffer word bytes).length = buffer.length := overwrite_length inside
  simp only [setData, wrote, sum, sizeT, Nat.mod_eq_of_lt small, whole]
  by_cases room : word + (bytes ++ frame data).length ≤ buffer.length
  · rw [if_neg (by omega), if_pos room]
    have here : word ≤ buffer.length := by omega
    have lengthFirst : overwrite (overwrite buffer word bytes) (word + bytes.length)
        (littleEndian word data.length) =
          overwrite buffer word (bytes ++ littleEndian 8 data.length) :=
      overwrite_overwrite here
    have position : word + bytes.length + word =
        word + (bytes ++ littleEndian 8 data.length).length := by
      simp [word, Nat.add_assoc]
    rw [lengthFirst, position, overwrite_overwrite here, append_assoc]
    simp only [frame, length_append, Nat.add_assoc]
  · rw [if_pos (by omega), if_neg room]

theorem setKeyAndValue_wrote {key value} (count : Nat)
    (inside : word + bytes.length ≤ buffer.length)
    (small : word + (bytes ++ (frame key ++ frame value)).length < 2 ^ 64) :
    if word + (bytes ++ (frame key ++ frame value)).length ≤ buffer.length then
      (wrote buffer bytes count).setKeyAndValue key value =
        .ok (wrote buffer (bytes ++ (frame key ++ frame value)) (sizeT (count + 1)))
    else ∃ e, (wrote buffer bytes count).setKeyAndValue key value = .error e := by
  simp only [← append_assoc] at small ⊢
  have smallKey : word + (bytes ++ frame key).length < 2 ^ 64 := by
    simp only [length_append] at small ⊢
    omega
  simp only [setKeyAndValue, setData_wrote inside smallKey]
  by_cases roomKey : word + (bytes ++ frame key).length ≤ buffer.length
  · rw [if_pos roomKey]
    change if _ then ((wrote buffer (bytes ++ frame key) count).setData value >>= _) = _
      else ∃ e, ((wrote buffer (bytes ++ frame key) count).setData value >>= _) = _
    rw [setData_wrote roomKey small]
    by_cases room : word + (bytes ++ frame key ++ frame value).length ≤ buffer.length
    · rw [if_pos room, if_pos room]
      rfl
    · rw [if_neg room, if_neg room]
      exact ⟨_, rfl⟩
  · rw [if_neg roomKey, if_neg (by simp only [length_append] at roomKey ⊢; omega)]
    exact ⟨_, rfl⟩

def writePairs (z : Serializer) (pairs : List FieldValueTuple) :
    Except SerializerError Serializer :=
  pairs.foldlM (fun z fv => z.setKeyAndValue fv.1 fv.2) z

variable {pairs : List FieldValueTuple}

theorem writePairs_wrote (count : Nat) (inside : word + bytes.length ≤ buffer.length)
    (small : word + (bytes ++ framePairs pairs).length < 2 ^ 64)
    (counted : count + pairs.length < 2 ^ 64) :
    if word + (bytes ++ framePairs pairs).length ≤ buffer.length then
      writePairs (wrote buffer bytes count) pairs =
        .ok (wrote buffer (bytes ++ framePairs pairs) (count + pairs.length))
    else ∃ e, writePairs (wrote buffer bytes count) pairs = .error e := by
  induction pairs generalizing bytes count with
  | nil =>
    rw [if_pos (by simpa [framePairs] using inside)]
    simp [framePairs]
    rfl
  | cons fv pairs ih =>
    rw [framePairs_cons, ← append_assoc] at small ⊢
    rw [length_cons] at counted
    have smallFirst : word + (bytes ++ (frame fv.1 ++ frame fv.2)).length < 2 ^ 64 := by
      simp only [length_append] at small ⊢
      omega
    have first := setKeyAndValue_wrote count inside smallFirst
    simp only [writePairs, foldlM_cons]
    by_cases room : word + (bytes ++ (frame fv.1 ++ frame fv.2)).length ≤ buffer.length
    · rw [if_pos room] at first
      have count1 : sizeT (count + 1) = count + 1 := Nat.mod_eq_of_lt (by omega)
      rw [first, count1]
      have rest := ih (count + 1) room small (by omega)
      rw [length_cons, Nat.add_comm pairs.length 1, ← Nat.add_assoc]
      exact rest
    · rw [if_neg room] at first
      obtain ⟨e, failed⟩ := first
      rw [failed, if_neg (by simp only [length_append] at room ⊢; omega)]
      exact ⟨e, rfl⟩

theorem serializeBuffer_eq (buffer dbName tableName : Bytes) (kcos : List KeyOpFieldsValuesTuple) :
    serializeBuffer buffer dbName tableName kcos =
      (writePairs ⟨buffer, word, 0⟩ (messagePairs dbName tableName kcos)).map
        finalize := by
  have records : ∀ z, writePairs z (kcos.flatMap recordPairs) =
      kcos.foldlM (fun z kco => do
        let z ← z.setKeyAndValue kco.kfvKey (decimal kco.kfvFieldsValues.length)
        kco.kfvFieldsValues.foldlM (fun z fv => z.setKeyAndValue fv.1 fv.2) z) z := by
    induction kcos with
    | nil => exact fun _ => rfl
    | cons kco kcos ih =>
      intro z
      rw [flatMap_cons, writePairs, foldlM_append]
      exact congrArg (bind _) (funext ih)
  simp only [serializeBuffer, messagePairs, writePairs, foldlM_cons]
  simp only [← records]
  cases setKeyAndValue ⟨buffer, word, 0⟩ dbName tableName with
  | error e => rfl
  | ok z =>
    cases foldlM (fun z (fv : FieldValueTuple) => setKeyAndValue z fv.1 fv.2) z
      (kcos.flatMap recordPairs) with
    | error e => rfl
    | ok z' => rfl

/-! ## Reading -/

theorem readData_frame {front data rest truncated}
    (small : (front ++ frame data ++ rest).length < 2 ^ 64) :
    readData truncated (front ++ frame data ++ rest) front.length =
      .ok (data, (front ++ frame data).length) := by
  have length : (front ++ frame data).length = front.length + word + data.length := by
    simp only [length_append, frame_length, word]
    omega
  have short : data.length < 256 ^ 8 := by
    simp only [length_append, frame_length] at small
    omega
  have lengthWord : readSize (front ++ frame data ++ rest) front.length = .ok data.length := by
    rw [readSize, if_pos (by simp only [length_append, frame_length, word]; omega), frame,
      append_assoc, drop_left, append_assoc, take_left' (by simp [word]),
      ofLittleEndian_littleEndian short]
  have content : ((front ++ frame data ++ rest).drop (front.length + word)).take data.length =
      data := by
    rw [frame, ← append_assoc, append_assoc _ data, drop_left' (by simp [word]),
      take_left]
  simp only [readData, lengthWord]
  change (if sizeT (front.length + word + data.length) > _ then _ else _) = _
  have total : front.length + word + data.length ≤ (front ++ frame data ++ rest).length := by
    rw [← length]
    simp only [length_append]
    omega
  rw [sizeT, if_neg (by omega), if_neg (by omega), content, length]
  rfl

theorem readPairs_framePairs {front rest}
    (small : (front ++ framePairs pairs ++ rest).length < 2 ^ 64) (values : List FieldValueTuple) :
    readPairs (front ++ framePairs pairs ++ rest) pairs.length front.length values =
      .ok (values ++ pairs) := by
  induction pairs generalizing front values with
  | nil => simp [readPairs]; rfl
  | cons fv pairs ih =>
    have keyFirst : front ++ framePairs (fv :: pairs) ++ rest =
        front ++ frame fv.1 ++ (frame fv.2 ++ framePairs pairs ++ rest) := by
      simp [framePairs_cons]
    have valueNext : front ++ framePairs (fv :: pairs) ++ rest =
        front ++ frame fv.1 ++ frame fv.2 ++ (framePairs pairs ++ rest) := by
      simp [framePairs_cons]
    have others : front ++ framePairs (fv :: pairs) ++ rest =
        (front ++ frame fv.1 ++ frame fv.2) ++ framePairs pairs ++ rest := by
      simp [framePairs_cons]
    have key : readData .keyTruncated (front ++ framePairs (fv :: pairs) ++ rest) front.length =
        .ok (fv.1, (front ++ frame fv.1).length) := by
      rw [keyFirst] at small ⊢
      exact readData_frame small
    have value : readData .valueTruncated (front ++ framePairs (fv :: pairs) ++ rest)
        (front ++ frame fv.1).length = .ok (fv.2, (front ++ frame fv.1 ++ frame fv.2).length) := by
      rw [valueNext] at small ⊢
      exact readData_frame small
    simp only [length_cons, readPairs, key]
    change (readData .valueTruncated _ _ >>= _) = _
    rw [value]
    change readPairs _ pairs.length (front ++ frame fv.1 ++ frame fv.2).length (values ++ [fv]) = _
    rw [others] at small ⊢
    rw [ih small, append_assoc]
    rfl

variable {position : Nat}

theorem readSize_ok {length} (read : readSize buffer position = .ok length) :
    position + word ≤ buffer.length ∧
      buffer.drop position = littleEndian word length ++ buffer.drop (position + word) := by
  unfold readSize at read
  split at read
  · rename_i inside
    cases read
    have size : ((buffer.drop position).take word).length = word := by
      rw [length_take, length_drop]
      omega
    have whole := littleEndian_ofLittleEndian ((buffer.drop position).take word)
    rw [size] at whole
    refine ⟨inside, ?_⟩
    rw [whole, ← drop_drop, take_append_drop]
  · cases read

theorem readData_ok {truncated data position'}
    (read : readData truncated buffer position = .ok (data, position')) :
    buffer.drop position = frame data ++ buffer.drop position' ∧ position' ≤ buffer.length := by
  unfold readData at read
  cases size : readSize buffer position with
  | error e =>
    rw [size] at read
    cases read
  | ok length =>
    rw [size] at read
    change (if _ then _ else if _ then _ else _) = _ at read
    split at read
    · cases read
    · split at read
      · cases read
      · rename_i fits
        cases read
        obtain ⟨_, split⟩ := readSize_ok size
        have content : ((buffer.drop (position + word)).take length).length = length := by
          rw [length_take, length_drop]
          omega
        have rest := take_append_drop length (buffer.drop (position + word))
        rw [drop_drop] at rest
        refine ⟨?_, Nat.le_of_not_lt fits⟩
        rw [split, frame, content, append_assoc, rest]
        rfl

theorem readPairs_ok {count values out}
    (read : readPairs buffer count position values = .ok out) :
    ∃ pairs, out = values ++ pairs ∧ pairs.length = count ∧
      framePairs pairs <+: buffer.drop position := by
  induction count generalizing position values with
  | zero =>
    cases read
    exact ⟨[], by simp, rfl, by simp [framePairs]⟩
  | succ count ih =>
    unfold readPairs at read
    cases key : readData .keyTruncated buffer position with
    | error e =>
      rw [key] at read
      cases read
    | ok first =>
      rw [key] at read
      change (readData .valueTruncated buffer first.2 >>= _) = _ at read
      cases value : readData .valueTruncated buffer first.2 with
      | error e =>
        rw [value] at read
        cases read
      | ok second =>
        rw [value] at read
        obtain ⟨pairs, rfl, rfl, rest⟩ := ih read
        refine ⟨(first.1, second.1) :: pairs, by simp, rfl, ?_⟩
        rw [(readData_ok key).1, (readData_ok value).1, framePairs_cons, append_assoc]
        exact (prefix_append_right_inj _).mpr ((prefix_append_right_inj _).mpr rest)

/-! ## Records -/

/-- A record as it arrives: the operation follows from the fields. -/
def received (kco : KeyOpFieldsValuesTuple) : KeyOpFieldsValuesTuple :=
  { kco with kfvOp := if kco.kfvFieldsValues = [] then DEL_COMMAND else SET_COMMAND }

variable {kco : KeyOpFieldsValuesTuple}

private theorem decode_fields {m fvs} (some : fvs ≠ []) :
    fvs.foldlM decode ⟨m, fvs.length, kco⟩ =
      .ok ⟨{ m with
        kcos := m.kcos ++ [{ kco with kfvFieldsValues := kco.kfvFieldsValues ++ fvs }] },
        0, { kco with kfvFieldsValues := kco.kfvFieldsValues ++ fvs }⟩ := by
  induction fvs generalizing kco with
  | nil => exact absurd rfl some
  | cons fv fvs ih =>
    have counting : ¬ ((fv :: fvs).length : Int) < 0 ∧ ¬ ((fv :: fvs).length : Int) = 0 := by
      simp only [length_cons]
      omega
    have left : ((fv :: fvs).length : Int) - 1 = fvs.length := by
      simp only [length_cons]
      omega
    rw [foldlM_cons, decode]
    simp only [left]
    cases fvs with
    | nil => rfl
    | cons next fvs =>
      change (pure (if ((next :: fvs).length : Int) = 0 then _ else _) >>= _) = _
      rw [if_neg (by simp only [length_cons]; omega)]
      change foldlM _ _ _ = _
      rw [ih (by simp)]
      simp

private theorem decode_record {m last}
    (count : (kco.kfvFieldsValues.length : Int) ≤ INT_MAX) :
    (recordPairs kco).foldlM decode ⟨m, 0, last⟩ =
      .ok ⟨{ m with kcos := m.kcos ++ [received kco] }, 0, received kco⟩ := by
  obtain ⟨key, op, fvs⟩ := kco
  rw [recordPairs, foldlM_cons, decode]
  simp only [stoi_decimal count]
  cases fvs with
  | nil => rfl
  | cons fv fvs =>
    have some : ¬ ((fv :: fvs).length : Int) = 0 := by
      simp only [length_cons]
      omega
    rw [if_neg some]
    change foldlM _ _ _ = _
    rw [if_neg some, decode_fields (by simp)]
    simp [received]

private theorem decode_records (m : Message) (last : KeyOpFieldsValuesTuple)
    (counts : ∀ kco ∈ kcos, (kco.kfvFieldsValues.length : Int) ≤ INT_MAX) :
    ∃ last', (kcos.flatMap recordPairs).foldlM decode ⟨m, 0, last⟩ =
      .ok ⟨{ m with kcos := m.kcos ++ kcos.map received }, 0, last'⟩ := by
  induction kcos generalizing m last with
  | nil => exact ⟨last, by simp; rfl⟩
  | cons kco kcos ih =>
    rw [flatMap_cons, foldlM_append, decode_record (counts kco (by simp))]
    obtain ⟨last', rest⟩ := ih { m with kcos := m.kcos ++ [received kco] } (received kco)
      fun other member => counts other (by simp [member])
    refine ⟨last', rest.trans ?_⟩
    simp

def messageBytes (dbName tableName : Bytes) (kcos : List KeyOpFieldsValuesTuple) : Bytes :=
  littleEndian word (messagePairs dbName tableName kcos).length ++
    framePairs (messagePairs dbName tableName kcos)

def pairMessage (pairs : List FieldValueTuple) : Bytes :=
  littleEndian word pairs.length ++ framePairs pairs

theorem length_le_messageBytes (dbName tableName : Bytes) (member : kco ∈ kcos) :
    kco.kfvFieldsValues.length ≤ (messageBytes dbName tableName kcos).length := by
  have pairs := length_le_framePairs (messagePairs dbName tableName kcos)
  have record : (recordPairs kco).length ≤ (kcos.flatMap recordPairs).length := by
    obtain ⟨before, after, rfl⟩ := append_of_mem member
    simp only [flatMap_append, flatMap_cons, length_append]
    omega
  simp only [messagePairs, recordPairs, length_cons] at pairs record
  simp only [messageBytes, messagePairs, length_append]
  omega

theorem deserializePairs_iff (inMemory : buffer.length < 2 ^ 64) :
    deserializePairs buffer [] = .ok pairs ↔ pairMessage pairs <+: buffer := by
  constructor
  · intro read
    unfold deserializePairs at read
    cases counted : readSize buffer 0 with
    | error e =>
      rw [counted] at read
      cases read
    | ok count =>
      rw [counted] at read
      obtain ⟨_, rfl, rfl, frames⟩ := readPairs_ok read
      have split := (readSize_ok counted).2
      rw [drop_zero] at split
      rw [split]
      exact (prefix_append_right_inj _).mpr frames
  · rintro ⟨rest, rfl⟩
    unfold pairMessage at inMemory ⊢
    have many : pairs.length < 256 ^ 8 := by
      have frames := length_le_framePairs pairs
      simp only [length_append] at inMemory
      omega
    have count : readSize (littleEndian word pairs.length ++ framePairs pairs ++ rest) 0 =
        .ok pairs.length := by
      rw [readSize, if_pos (by simp), drop_zero, append_assoc, take_left' (by simp),
        show word = 8 from rfl, ofLittleEndian_littleEndian many]
    have read := readPairs_framePairs inMemory []
    rw [deserializePairs, count]
    exact read

theorem deserializePairs_pairMessage (small : (pairMessage pairs).length < 2 ^ 64) :
    deserializePairs (pairMessage pairs) [] = .ok pairs :=
  (deserializePairs_iff small).mpr (prefix_refl _)

theorem deserializePairs_messageBytes
    (small : (messageBytes dbName tableName kcos).length < 2 ^ 64) :
    deserializePairs (messageBytes dbName tableName kcos) [] =
      .ok (messagePairs dbName tableName kcos) :=
  deserializePairs_pairMessage small

theorem deserializeBuffer_messageBytes (into : Message)
    (small : (messageBytes dbName tableName kcos).length < 2 ^ 64)
    (counts : ∀ kco ∈ kcos, (kco.kfvFieldsValues.length : Int) ≤ INT_MAX) :
    deserializeBuffer (messageBytes dbName tableName kcos) into =
      .ok ⟨dbName, tableName, into.kcos ++ kcos.map received⟩ := by
  obtain ⟨last, decoded⟩ := decode_records ⟨dbName, tableName, into.kcos⟩ ⟨[], [], []⟩ counts
  rw [deserializeBuffer, deserializePairs_messageBytes small]
  change (foldlM decode ⟨⟨dbName, tableName, into.kcos⟩, 0, _⟩ _ >>= _) = _
  rw [decoded]
  rfl

/-! ## Round trip -/

/-- What the arguments of a call take up in memory: a string has its characters and at
    least a pointer and a length. -/
def footprint (dbName tableName : Bytes) (kcos : List KeyOpFieldsValuesTuple) : Nat :=
  size dbName + size tableName + (kcos.map fun kco => size kco.kfvKey + size kco.kfvOp +
    (kco.kfvFieldsValues.map fun fv => size fv.1 + size fv.2).sum).sum
where
  size (s : Bytes) : Nat := s.length + 2 * word

private theorem framePairs_le_sizes (fvs : List FieldValueTuple) :
    (framePairs fvs).length + fvs.length ≤
      (fvs.map fun fv => footprint.size fv.1 + footprint.size fv.2).sum := by
  induction fvs with
  | nil => simp [framePairs]
  | cons fv fvs ih =>
    simp only [framePairs_cons, length_append, frame_length, length_cons,
      map_cons, sum_cons, footprint.size, word] at ih ⊢
    omega

theorem messageBytes_le_footprint (dbName tableName : Bytes) (kcos : List KeyOpFieldsValuesTuple) :
    (messageBytes dbName tableName kcos).length ≤ footprint dbName tableName kcos := by
  have records : (framePairs (kcos.flatMap recordPairs)).length ≤
      (kcos.map fun kco => footprint.size kco.kfvKey + footprint.size kco.kfvOp +
        (kco.kfvFieldsValues.map fun fv => footprint.size fv.1 + footprint.size fv.2).sum).sum := by
    induction kcos with
    | nil => simp [framePairs]
    | cons kco kcos ih =>
      have fields := framePairs_le_sizes kco.kfvFieldsValues
      have digits := decimal_length_le kco.kfvFieldsValues.length
      simp only [flatMap_cons, recordPairs, framePairs_append, framePairs_cons,
        length_append, frame_length, map_cons, sum_cons]
      simp only [footprint.size, word] at fields ih ⊢
      omega
  simp only [messageBytes, messagePairs, framePairs_cons, length_append, frame_length,
    littleEndian_length, footprint]
  simp only [footprint.size, word] at records ⊢
  omega

theorem serializedSize_eq_length (fits : (messageBytes dbName tableName kcos).length < 2 ^ 64) :
    serializedSize dbName tableName kcos = (messageBytes dbName tableName kcos).length := by
  have length : (messageBytes dbName tableName kcos).length =
      word + (framePairs (messagePairs dbName tableName kcos)).length := by
    simp [messageBytes]
  rw [serializedSize_eq, ← length, sizeT, Nat.mod_eq_of_lt fits]

theorem serializeBuffer_spec (room : word ≤ buffer.length)
    (fits : (messageBytes dbName tableName kcos).length < 2 ^ 64) :
    if (messageBytes dbName tableName kcos).length ≤ buffer.length then
      serializeBuffer buffer dbName tableName kcos =
        .ok ((messageBytes dbName tableName kcos).length,
          overwrite buffer 0 (messageBytes dbName tableName kcos))
    else ∃ e, serializeBuffer buffer dbName tableName kcos = .error e := by
  have length : (messageBytes dbName tableName kcos).length =
      word + ([] ++ framePairs (messagePairs dbName tableName kcos)).length := by
    simp [messageBytes]
  have many := length_le_framePairs (messagePairs dbName tableName kcos)
  rw [length] at fits
  have inside : word + ([] : Bytes).length ≤ buffer.length := room
  have written := writePairs_wrote 0 inside fits (by rw [nil_append] at fits; omega)
  have start : wrote buffer [] 0 = ⟨buffer, word, 0⟩ := by
    simp [wrote, overwrite]
  rw [serializeBuffer_eq, ← start, length]
  split
  · next inside =>
      rw [if_pos inside] at written
      rw [written]
      have front : overwrite (overwrite buffer word
            (framePairs (messagePairs dbName tableName kcos))) 0
            (littleEndian word (messagePairs dbName tableName kcos).length) =
          overwrite buffer 0 (messageBytes dbName tableName kcos) := by
        have both := @overwrite_front buffer
          (littleEndian word (messagePairs dbName tableName kcos).length)
          (framePairs (messagePairs dbName tableName kcos)) (by simpa using inside)
        rwa [littleEndian_length] at both
      simp [Except.map, finalize, wrote, front]
  · next outside =>
      rw [if_neg outside] at written
      obtain ⟨e, failed⟩ := written
      exact ⟨e, by rw [failed]; rfl⟩

/-- Serializing succeeds exactly with a buffer of `serializedSize`, and the message read back is the
    one that was written. -/
theorem serialize_roundtrip (buffer dbName tableName : Bytes)
    (kcos : List KeyOpFieldsValuesTuple) (room : word ≤ buffer.length)
    (fits : footprint dbName tableName kcos < 2 ^ 64)
    (counts : ∀ kco ∈ kcos, (kco.kfvFieldsValues.length : Int) ≤ INT_MAX) :
    ((∃ out, serializeBuffer buffer dbName tableName kcos = .ok out) ↔
      serializedSize dbName tableName kcos ≤ buffer.length) ∧
    ∀ n written, serializeBuffer buffer dbName tableName kcos = .ok (n, written) →
      n = serializedSize dbName tableName kcos ∧
      written.length = buffer.length ∧ written.drop n = buffer.drop n ∧
      ∀ into : Message, into.kcos = [] →
        deserializeBuffer (written.take n) into = .ok ⟨dbName, tableName, kcos.map received⟩ := by
  have small := (messageBytes_le_footprint dbName tableName kcos).trans_lt fits
  have spec := serializeBuffer_spec room small
  rw [serializedSize_eq_length small]
  split at spec
  · next inside =>
      refine ⟨⟨fun _ => inside, fun _ => ⟨_, spec⟩⟩, fun n written out => ?_⟩
      rw [spec] at out
      cases out
      refine ⟨rfl, overwrite_length (by simpa using inside), drop_overwrite (by simp) (by simp),
        fun into fresh => ?_⟩
      have bytes : (overwrite buffer 0 (messageBytes dbName tableName kcos)).take
          (messageBytes dbName tableName kcos).length = messageBytes dbName tableName kcos := by
        simp [overwrite]
      rw [bytes, deserializeBuffer_messageBytes into small counts, fresh, nil_append]
  · next outside =>
      obtain ⟨e, failed⟩ := spec
      rw [failed]
      refine ⟨⟨?_, fun inside => absurd inside outside⟩, ?_⟩
      · rintro ⟨_, out⟩
        cases out
      · intro _ _ out
        cases out

/-- A set of one field, whose value is a NUL, and a delete of the empty key, in a buffer
    with a byte to spare. -/
theorem serialize_roundtrip_set_del :
    let buffer : Bytes := replicate 80 0xff
    let kcos : List KeyOpFieldsValuesTuple :=
      [⟨[0x6b], SET_COMMAND, [([0x66], [0])]⟩, ⟨[], DEL_COMMAND, []⟩]
    word ≤ buffer.length ∧ footprint [0x44] [0x54] kcos < 2 ^ 64 ∧
    ∃ written, serializeBuffer buffer [0x44] [0x54] kcos = .ok (79, written) ∧
      written.drop 79 = [0xff] ∧
      deserializeBuffer (written.take 79) ⟨[], [], []⟩ = .ok ⟨[0x44], [0x54], kcos⟩ := by
  intro buffer kcos
  have trip := serialize_roundtrip buffer [0x44] [0x54] kcos (by decide) (by decide) (by decide)
  have size : serializedSize [0x44] [0x54] kcos = 79 := by decide
  obtain ⟨⟨n, written⟩, out⟩ := trip.1.mpr (by rw [size]; decide)
  obtain ⟨rfl, _, spared, read⟩ := trip.2 n written out
  rw [size] at out spared read
  exact ⟨by decide, by decide, written, out, spared, read ⟨[], [], []⟩ rfl⟩

end SwssCommon.BinarySerializer
