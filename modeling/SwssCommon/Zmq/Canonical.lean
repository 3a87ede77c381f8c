import SwssCommon.Zmq.RoundTrip

/-! # Messages that lose nothing

The deserializer takes more than the serializer writes: a count with blanks, a sign, leading zeros
or a tail, a negative one, which makes it take the next pair for the names, and a record that breaks
off. A decoder is followed by the pairs that would be written for what it has taken in.
-/

namespace SwssCommon.BinarySerializer

open Bytes List Decoder

/-- The pairs are `n` fields and then whole records, each behind the shortest numeral of the number
    of its fields. -/
def Counted : Nat → List FieldValueTuple → Bool
  | 0, [] => true
  | 0, (_, value) :: rest =>
    match parseDecimal value with
    | none => false
    | some n => value = decimal n && Counted n rest
  | _ + 1, [] => false
  | n + 1, _ :: rest => Counted n rest

def Complete : List FieldValueTuple → Bool
  | [] => false
  | _ :: rest => Counted 0 rest

theorem counted_append (fvs : List FieldValueTuple) (rest : List FieldValueTuple) :
    Counted fvs.length (fvs ++ rest) = Counted 0 rest := by
  induction fvs with
  | nil => rfl
  | cons fv fvs ih => exact ih

theorem counted_records (kcos : List KeyOpFieldsValuesTuple) :
    Counted 0 (kcos.flatMap recordPairs) := by
  induction kcos with
  | nil => rfl
  | cons kco kcos ih =>
    simp only [flatMap_cons, recordPairs, cons_append, Counted, parseDecimal_decimal,
      decide_true, Bool.true_and, counted_append, ih]

theorem complete_messagePairs (dbName tableName : Bytes) (kcos : List KeyOpFieldsValuesTuple) :
    Complete (messagePairs dbName tableName kcos) :=
  counted_records kcos

theorem counted_zero_cons {fv rest}
    (counted : Counted 0 (fv :: rest)) :
    ∃ n, fv.2 = decimal n ∧ Counted n rest := by
  obtain ⟨key, value⟩ := fv
  unfold Counted at counted
  cases parsed : parseDecimal value with
  | none =>
    rw [parsed] at counted
    cases counted
  | some n =>
    rw [parsed] at counted
    simp only [Bool.and_eq_true, decide_eq_true_eq] at counted
    exact ⟨n, counted⟩

namespace Decoder

variable {d d' : Decoder} {fv : FieldValueTuple} {pairs : List FieldValueTuple}

def pending (d : Decoder) : List FieldValueTuple :=
  if 0 < d.fvsSize then
    (d.kco.kfvKey, decimal (d.kco.kfvFieldsValues.length + d.fvsSize.toNat)) ::
      d.kco.kfvFieldsValues
  else []

def rewritten (d : Decoder) : List FieldValueTuple :=
  messagePairs d.dbName d.tableName d.kcos ++ d.pending

theorem pending_of_nonpos (done : d.fvsSize ≤ 0) : d.pending = [] := if_neg (Int.not_lt.mpr done)

/-- The names are read, a record is begun, or a field is added to the one that is under
    way. -/
inductive Takes (d : Decoder) (fv : FieldValueTuple) : Decoder → Prop where
  | names : d.fvsSize < 0 →
      Takes d fv { d with dbName := fv.1, tableName := fv.2, fvsSize := 0 }
  | delete {op : Bytes} : d.fvsSize = 0 → stoi fv.2 = .ok 0 →
      Takes d fv { d with fvsSize := 0, kco := ⟨fv.1, op, []⟩, kcos := d.kcos ++ [⟨fv.1, op, []⟩] }
  | start {n : Int} {op : Bytes} : d.fvsSize = 0 → stoi fv.2 = .ok n → n ≠ 0 →
      Takes d fv { d with fvsSize := n, kco := ⟨fv.1, op, []⟩ }
  | field : 1 < d.fvsSize →
      Takes d fv { d with
        fvsSize := d.fvsSize - 1
        kco.kfvFieldsValues := d.kco.kfvFieldsValues ++ [fv] }
  | last : d.fvsSize = 1 →
      Takes d fv { d with
        fvsSize := 0
        kco.kfvFieldsValues := d.kco.kfvFieldsValues ++ [fv]
        kcos := d.kcos ++ [{ d.kco with kfvFieldsValues := d.kco.kfvFieldsValues ++ [fv] }] }

theorem decode_takes (decoded : d.decode fv = .ok d') : Takes d fv d' := by
  unfold decode at decoded
  by_cases before : d.fvsSize < 0
  · rw [if_pos before] at decoded
    cases decoded
    exact .names before
  rw [if_neg before] at decoded
  by_cases between : d.fvsSize = 0
  · rw [if_pos between] at decoded
    cases read : stoi fv.2 with
    | error e =>
      rw [read] at decoded
      cases decoded
    | ok n =>
      rw [read] at decoded
      by_cases none : n = 0
      · subst none
        cases decoded
        exact .delete between read
      · simp only [if_neg none] at decoded
        change Except.ok (if n = 0 then _ else _) = _ at decoded
        rw [if_neg none] at decoded
        cases decoded
        exact .start between read none
  · rw [if_neg between] at decoded
    change Except.ok (if d.fvsSize - 1 = 0 then _ else _) = _ at decoded
    by_cases more : 1 < d.fvsSize
    · rw [if_neg (by omega)] at decoded
      cases decoded
      exact .field more
    · obtain one : d.fvsSize = 1 := by omega
      cases decoded
      simp only [one]
      exact .last one

theorem rewritten_field (under : 0 < d.fvsSize) (takes : Takes d fv d') :
    d'.rewritten = d.rewritten ++ [fv] := by
  cases takes with
  | names before | delete between | start between => omega
  | field more =>
    have counts : d.kco.kfvFieldsValues.length + 1 + (d.fvsSize.toNat - 1) =
        d.kco.kfvFieldsValues.length + d.fvsSize.toNat := by omega
    simp [rewritten, pending, under, more, counts]
  | last one =>
    simp [rewritten, pending, one, messagePairs, recordPairs]

theorem rewritten_start {n} (between : d.fvsSize = 0) (numeral : fv.2 = decimal n)
    (takes : Takes d fv d') : d'.rewritten = d.rewritten ++ [fv] ∧ d'.fvsSize = n := by
  obtain ⟨key, value⟩ := fv
  obtain rfl : value = decimal n := numeral
  cases takes with
  | names before => omega
  | delete _ read =>
    have zero : n = 0 := by
      have same := eq_of_stoi_decimal read
      omega
    simp [rewritten, pending, between, messagePairs, recordPairs, zero]
  | start _ read some =>
    obtain rfl := eq_of_stoi_decimal read
    have positive : 0 < n := by omega
    simp [rewritten, pending, between, positive]
  | field more => omega
  | last one => omega

theorem rewritten_counted {n : Nat} (between : d.fvsSize = n)
    (decoded : pairs.foldlM decode d = .ok d') (counted : Counted n pairs) :
    d'.rewritten = d.rewritten ++ pairs ∧ d'.fvsSize = 0 := by
  induction pairs generalizing d n with
  | nil =>
    cases decoded
    cases n with
    | zero => simpa using between
    | succ n => cases counted
  | cons fv pairs ih =>
    rw [foldlM_cons] at decoded
    cases first : d.decode fv with
    | error e =>
      rw [first] at decoded
      cases decoded
    | ok d₁ =>
      rw [first] at decoded
      have takes := decode_takes first
      cases n with
      | zero =>
        obtain ⟨n, numeral, rest⟩ := counted_zero_cons counted
        obtain ⟨step, left⟩ := rewritten_start between numeral takes
        obtain ⟨run, done⟩ := ih left decoded rest
        exact ⟨by simp [run, step], done⟩
      | succ n =>
        have step := rewritten_field (by omega) takes
        have left : d₁.fvsSize = n := by
          cases takes with
          | names | delete | start => omega
          | field =>
            change d.fvsSize - 1 = n
            omega
          | last =>
            change (0 : Int) = n
            omega
        obtain ⟨run, done⟩ := ih left decoded counted
        exact ⟨by simp [run, step], done⟩

theorem length_rewritten (takes : Takes d fv d') :
    (framePairs d'.rewritten).length ≤
      (framePairs d.rewritten).length + (framePairs [fv]).length := by
  by_cases under : 0 < d.fvsSize
  · rw [rewritten_field under takes, framePairs_append, length_append]
  have written : d.rewritten = messagePairs d.dbName d.tableName d.kcos := by
    rw [rewritten, pending_of_nonpos (Int.not_lt.mp under), append_nil]
  rw [written]
  cases takes with
  | names before =>
    simp [rewritten, pending, messagePairs, framePairs]
    omega
  | delete between read =>
    have digits := decimal_length_le_of_stoi read (le_refl 0)
    simp [rewritten, pending, messagePairs, recordPairs, framePairs] at digits ⊢
    omega
  | @start n op between read some =>
    by_cases positive : 0 < n
    · have digits := decimal_length_le_of_stoi read (Int.le_of_lt positive)
      simp [rewritten, pending, positive, framePairs] at digits ⊢
      omega
    · simp [rewritten, pending, positive]
  | field more => omega
  | last last => omega

theorem length_rewritten_run (decoded : pairs.foldlM decode d = .ok d') :
    (framePairs d'.rewritten).length ≤
      (framePairs d.rewritten).length + (framePairs pairs).length := by
  induction pairs generalizing d with
  | nil =>
    cases decoded
    exact Nat.le_add_right _ _
  | cons fv pairs ih =>
    rw [foldlM_cons] at decoded
    cases first : d.decode fv with
    | error e =>
      rw [first] at decoded
      cases decoded
    | ok d₁ =>
      rw [first] at decoded
      have step := length_rewritten (decode_takes first)
      have run := ih decoded
      rw [show fv :: pairs = [fv] ++ pairs from rfl, framePairs_append, length_append]
      omega

end Decoder

/-! ## Writing again -/

theorem pairMessage_length (pairs : List FieldValueTuple) :
    (pairMessage pairs).length = word + (framePairs pairs).length := by
  simp [pairMessage]

variable {pairs : List FieldValueTuple}

theorem pairMessage_inj {pairs'}
    (inMemory : (pairMessage pairs).length < 2 ^ 64)
    (same : pairMessage pairs = pairMessage pairs') : pairs = pairs' := by
  have read := deserializePairs_pairMessage inMemory
  rw [same] at inMemory read
  rw [deserializePairs_pairMessage inMemory] at read
  cases read
  rfl

/-- Serializing `m` gives the message of these pairs, in any buffer that has room for it. -/
def WrittenAs (m : Message) (pairs : List FieldValueTuple) : Prop :=
  ∀ buffer : Bytes, (pairMessage pairs).length ≤ buffer.length →
    serializeBuffer buffer m.dbName m.tableName m.kcos =
      .ok ((pairMessage pairs).length, overwrite buffer 0 (pairMessage pairs))

theorem writtenAs_iff {m}
    (inMemory : (messageBytes m.dbName m.tableName m.kcos).length < 2 ^ 64) :
    WrittenAs m pairs ↔ messagePairs m.dbName m.tableName m.kcos = pairs := by
  constructor
  · intro written
    have length := pairMessage_length pairs
    have spec := @serializeBuffer_spec (pairMessage pairs) _ _ _ (by omega) inMemory
    rw [written (pairMessage pairs) (le_refl _)] at spec
    split at spec
    · injection spec with spec
      injection spec with lengths bytes
      apply pairMessage_inj inMemory
      change messageBytes m.dbName m.tableName m.kcos = _
      simpa [overwrite, lengths] using bytes.symm
    · obtain ⟨e, failed⟩ := spec
      cases failed
  · rintro rfl buffer room
    have length := pairMessage_length (messagePairs m.dbName m.tableName m.kcos)
    have spec := @serializeBuffer_spec buffer _ _ _ (by omega) inMemory
    exact (if_pos room).mp spec

theorem deserializeBuffer_pairMessage {into m}
    (inMemory : (pairMessage pairs).length < 2 ^ 64)
    (accepted : deserializeBuffer (pairMessage pairs) into = .ok m) :
    ∃ d, pairs.foldlM decode ⟨into, -1, ⟨[], [], []⟩⟩ = .ok d ∧ d.toMessage = m := by
  rw [deserializeBuffer, deserializePairs_pairMessage inMemory] at accepted
  change (pairs.foldlM decode ⟨into, -1, ⟨[], [], []⟩⟩ >>= _) = _ at accepted
  cases decoded : pairs.foldlM decode ⟨into, -1, ⟨[], [], []⟩⟩ with
  | error e =>
    rw [decoded] at accepted
    cases accepted
  | ok d =>
    rw [decoded] at accepted
    cases accepted
    exact ⟨d, rfl, rfl⟩

/-- An accepted message is written again as it was exactly if it has the names and whole records,
    counted as they would be written. -/
theorem accepted_kept_iff (pairs : List FieldValueTuple) (m : Message)
    (inMemory : (pairMessage pairs).length < 2 ^ 63)
    (accepted : deserializeBuffer (pairMessage pairs) ⟨[], [], []⟩ = .ok m) :
    WrittenAs m pairs ↔ Complete pairs = true := by
  obtain ⟨d, decoded, rfl⟩ := deserializeBuffer_pairMessage (by omega) accepted
  have small : (messageBytes d.dbName d.tableName d.kcos).length < 2 ^ 64 := by
    have bound := length_rewritten_run decoded
    have start : (framePairs (rewritten ⟨⟨[], [], []⟩, -1, ⟨[], [], []⟩⟩)).length = 16 := rfl
    have length := pairMessage_length pairs
    change (pairMessage (messagePairs d.dbName d.tableName d.kcos)).length < _
    rw [pairMessage_length]
    rw [rewritten, framePairs_append, length_append] at bound
    simp only [word] at length ⊢
    omega
  rw [writtenAs_iff small]
  constructor
  · rintro rfl
    exact complete_messagePairs _ _ _
  · intro complete
    cases pairs with
    | nil => cases complete
    | cons names records =>
      rw [foldlM_cons] at decoded
      change records.foldlM decode ⟨⟨names.1, names.2, []⟩, 0, ⟨[], [], []⟩⟩ = _ at decoded
      obtain ⟨written, done⟩ := rewritten_counted rfl decoded complete
      rw [rewritten, pending_of_nonpos (by omega), append_nil] at written
      exact written

/-- A set of one field and a delete. -/
theorem accepted_kept_set_del :
    let pairs := [(ascii "APPL_DB", ascii "PORT_TABLE"), (ascii "Ethernet0", ascii "1"),
      (ascii "mtu", ascii "9100"), (ascii "Ethernet4", ascii "0")]
    let m : Message := ⟨ascii "APPL_DB", ascii "PORT_TABLE",
      [⟨ascii "Ethernet0", SET_COMMAND, [(ascii "mtu", ascii "9100")]⟩,
        ⟨ascii "Ethernet4", DEL_COMMAND, []⟩]⟩
    deserializeBuffer (pairMessage pairs) ⟨[], [], []⟩ = .ok m ∧ WrittenAs m pairs := by
  intro pairs m
  have accepted : deserializeBuffer (pairMessage pairs) ⟨[], [], []⟩ = .ok m := by decide +kernel
  exact ⟨accepted, (accepted_kept_iff pairs m (by decide +kernel) accepted).mpr (by decide +kernel)⟩

/-- A record that announces two fields and has one is dropped, and a negative count lets the next
    pair replace the names. -/
theorem accepted_lossy :
    let cut := [(ascii "APPL_DB", ascii "PORT_TABLE"), (ascii "Ethernet0", ascii "2"),
      (ascii "mtu", ascii "9100")]
    let negative := [(ascii "APPL_DB", ascii "PORT_TABLE"), (ascii "Ethernet0", ascii "-1"),
      (ascii "mtu", ascii "9100")]
    deserializeBuffer (pairMessage cut) ⟨[], [], []⟩ =
        .ok ⟨ascii "APPL_DB", ascii "PORT_TABLE", []⟩ ∧
      ¬ WrittenAs ⟨ascii "APPL_DB", ascii "PORT_TABLE", []⟩ cut ∧
    deserializeBuffer (pairMessage negative) ⟨[], [], []⟩ = .ok ⟨ascii "mtu", ascii "9100", []⟩ ∧
      ¬ WrittenAs ⟨ascii "mtu", ascii "9100", []⟩ negative := by
  intro cut negative
  have dropped : deserializeBuffer (pairMessage cut) ⟨[], [], []⟩ =
      .ok ⟨ascii "APPL_DB", ascii "PORT_TABLE", []⟩ := by decide +kernel
  have replaced : deserializeBuffer (pairMessage negative) ⟨[], [], []⟩ =
      .ok ⟨ascii "mtu", ascii "9100", []⟩ := by decide +kernel
  refine ⟨dropped, ?_, replaced, ?_⟩
  · rw [writtenAs_iff (by decide +kernel)]
    decide +kernel
  · rw [writtenAs_iff (by decide +kernel)]
    decide +kernel

end SwssCommon.BinarySerializer
