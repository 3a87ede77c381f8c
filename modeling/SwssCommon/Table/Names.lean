import SwssCommon.Lib.Glob

/-! # Names under which a table lives in the database

Every component assembles names from the table name, the separator and a key. The main hashes, the
pending hashes, the key set and the delete set of a table never meet.
-/

namespace SwssCommon

open Bytes List

inductive Separator where
  | colon
  | vbar
  deriving DecidableEq

def Separator.byte : Separator → UInt8
  | .colon => 58
  | .vbar => 124

/-- `(field, value)`. -/
abbrev FieldValueTuple := Bytes × Bytes

def flatten (values : List FieldValueTuple) : List Bytes :=
  values.flatMap fun iv => [iv.1, iv.2]

theorem flatten_length (values : List FieldValueTuple) :
    (flatten values).length = values.length * 2 := by
  induction values with
  | nil => rfl
  | cons head values ih =>
    simp only [flatten, flatMap_cons, length_append, length_cons, length_nil] at ih ⊢
    omega

structure KeyOpFieldsValuesTuple where
  kfvKey : Bytes
  kfvOp : Bytes
  kfvFieldsValues : List FieldValueTuple
  deriving DecidableEq

def SET_COMMAND : Bytes := ascii "SET"
def DEL_COMMAND : Bytes := ascii "DEL"
def HSET_COMMAND : Bytes := ascii "HSET"

/-- `std::string::substr(pos)`, which throws past the end. -/
def substr (s : Bytes) (pos : Nat) : Option Bytes :=
  if pos ≤ s.length then some (s.drop pos) else none

structure TableBase where
  tableName : Bytes
  separator : Separator
  deriving DecidableEq

namespace TableBase

def getTableNameSeparator (t : TableBase) : Bytes :=
  [t.separator.byte]

/-- `tableName<separator>key`, or the bare table name for the empty key. -/
def getKeyName (t : TableBase) (key : Bytes) : Bytes :=
  if key = [] then t.tableName else t.tableName ++ t.getTableNameSeparator ++ key

def getChannelName (t : TableBase) (dbId : Nat) : Bytes :=
  t.tableName ++ ascii "_CHANNEL" ++ ascii "@" ++ decimal dbId

def getKeySetName (t : TableBase) : Bytes :=
  t.tableName ++ ascii "_KEY_SET"

def getDelKeySetName (t : TableBase) : Bytes :=
  t.tableName ++ ascii "_DEL_SET"

def getStateHashPrefix (_ : TableBase) : Bytes :=
  ascii "_"

def getKeyValueOpQueueTableName (t : TableBase) : Bytes :=
  t.tableName ++ ascii "_KEY_VALUE_OP_QUEUE"

def mainName (t : TableBase) (key : Bytes) : Bytes :=
  t.tableName ++ t.getTableNameSeparator ++ key

def pendingName (t : TableBase) (key : Bytes) : Bytes :=
  t.getStateHashPrefix ++ t.mainName key

theorem getKeyName_of_ne_nil (t : TableBase) {key : Bytes} (nonempty : key ≠ []) :
    t.getKeyName key = t.mainName key := by
  simp only [getKeyName, nonempty, if_false, mainName]

theorem mainName_injective (t : TableBase) : Function.Injective t.mainName := by
  intro j k same
  exact append_cancel_left same

theorem pendingName_injective (t : TableBase) : Function.Injective t.pendingName := by
  intro j k same
  exact t.mainName_injective (append_cancel_left same)

theorem shifted_name {c} {name left right : Bytes}
    (same : c :: (name ++ left) = name ++ right) : right = c :: left := by
  induction name with
  | nil => exact same.symm
  | cons d name ih =>
    simp only [cons_append, cons.injEq] at same
    obtain ⟨rfl, rest⟩ := same
    exact ih rest

private theorem separator_ne (t : TableBase) : t.separator.byte ≠ 95 ∧ t.separator.byte ≠ 75 ∧
    t.separator.byte ≠ 68 := by
  cases t.separator <;> decide

private theorem separator_ne_nul (t : TableBase) : t.separator.byte ≠ 0 := by
  cases t.separator <;> decide

private theorem pendingName_eq (t : TableBase) (k : Bytes) :
    t.pendingName k = 95 :: (t.tableName ++ (t.separator.byte :: k)) := by
  simp [pendingName, getStateHashPrefix, mainName, getTableNameSeparator, ascii]

private theorem mainName_eq (t : TableBase) (k : Bytes) :
    t.mainName k = t.tableName ++ (t.separator.byte :: k) := by
  simp [mainName, getTableNameSeparator]

private theorem mainName_seam (t : TableBase) {k suffix}
    (same : t.mainName k = t.tableName ++ suffix) : suffix[0]? = some t.separator.byte := by
  rw [mainName_eq] at same
  rw [← append_cancel_left same]
  rfl

private theorem pendingName_seam (t : TableBase) {k suffix}
    (same : t.pendingName k = t.tableName ++ suffix) :
    suffix[0]? = some 95 ∧ suffix[1]? = some t.separator.byte := by
  rw [pendingName_eq] at same
  rw [shifted_name same]
  exact ⟨rfl, rfl⟩

theorem pendingName_ne_mainName (t : TableBase) (j k : Bytes) : t.pendingName j ≠ t.mainName k := by
  intro same
  rw [mainName_eq] at same
  have seam := (t.pendingName_seam same).1
  exact t.separator_ne.1 (by simpa using seam)

theorem statePrefix_isPrefix_pendingName (t : TableBase) (k : Bytes) :
    t.getStateHashPrefix ++ t.tableName <+: t.pendingName k :=
  ⟨t.getTableNameSeparator ++ k, by simp [pendingName, mainName]⟩

theorem not_statePrefix_isPrefix_mainName (t : TableBase) (k : Bytes) :
    ¬ t.getStateHashPrefix ++ t.tableName <+: t.mainName k := by
  rintro ⟨rest, same⟩
  rw [mainName_eq] at same
  have seam : t.separator.byte :: k = 95 :: rest := shifted_name same
  exact t.separator_ne.1 (cons.inj seam).1

theorem mainName_ne_keySetName (t : TableBase) (k : Bytes) : t.mainName k ≠ t.getKeySetName := by
  intro same
  have seam := t.mainName_seam same
  exact t.separator_ne.1 (Option.some.inj seam).symm

theorem mainName_ne_delKeySetName (t : TableBase) (k : Bytes) :
    t.mainName k ≠ t.getDelKeySetName := by
  intro same
  have seam := t.mainName_seam same
  exact t.separator_ne.1 (Option.some.inj seam).symm

theorem pendingName_ne_keySetName (t : TableBase) (k : Bytes) :
    t.pendingName k ≠ t.getKeySetName := by
  intro same
  have seam := (t.pendingName_seam same).2
  exact t.separator_ne.2.1 (Option.some.inj seam).symm

theorem pendingName_ne_delKeySetName (t : TableBase) (k : Bytes) :
    t.pendingName k ≠ t.getDelKeySetName := by
  intro same
  have seam := (t.pendingName_seam same).2
  exact t.separator_ne.2.2 (Option.some.inj seam).symm

theorem keySetName_ne_delKeySetName (t : TableBase) : t.getKeySetName ≠ t.getDelKeySetName := by
  intro same
  have suffix := append_cancel_left same
  exact absurd suffix (by decide)

/-! ## Names as C strings -/

section CStrings

variable (t : TableBase) (nulFree : (0 : UInt8) ∉ t.tableName)
include nulFree

theorem cStr_tableName : cStr t.tableName = t.tableName := cStr_of_nulFree nulFree

theorem cStr_keySetName : cStr t.getKeySetName = t.getKeySetName := by
  apply cStr_of_nulFree
  exact fun member => (mem_append.mp member).elim nulFree (by decide)

theorem cStr_delKeySetName : cStr t.getDelKeySetName = t.getDelKeySetName := by
  apply cStr_of_nulFree
  exact fun member => (mem_append.mp member).elim nulFree (by decide)

theorem cStr_queueName :
    cStr t.getKeyValueOpQueueTableName = t.getKeyValueOpQueueTableName := by
  apply cStr_of_nulFree
  exact fun member => (mem_append.mp member).elim nulFree (by decide)

theorem cStr_channelName (dbId : Nat) :
    cStr (t.getChannelName dbId) = t.getChannelName dbId := by
  apply cStr_of_nulFree
  intro member
  rcases mem_append.mp member with before | inId
  · rcases mem_append.mp before with before | isAt
    · exact (mem_append.mp before).elim nulFree (by decide)
    · exact absurd isAt (by decide)
  · exact absurd (decimal_isDigit dbId 0 inId) (by decide)

theorem nul_notMem_mainName {key} (key_nulFree : 0 ∉ key) :
    0 ∉ t.mainName key := by
  intro member
  rcases mem_append.mp member with before | inKey
  · rcases mem_append.mp before with inName | isSeparator
    · exact nulFree inName
    · exact t.separator_ne_nul (mem_singleton.mp isSeparator).symm
  · exact key_nulFree inKey

omit nulFree in
theorem cStr_separator : cStr t.getTableNameSeparator = t.getTableNameSeparator := by
  show cStr [t.separator.byte] = [t.separator.byte]
  cases t.separator <;> decide

omit nulFree in
theorem cStr_stateHashPrefix : cStr t.getStateHashPrefix = t.getStateHashPrefix := by
  show cStr (ascii "_") = ascii "_"
  decide

end CStrings

/-! ## Names cut off at a NUL

A name with a NUL is cut off when it is formatted, and what is left is no name of the table. -/

structure Foreign (t : TableBase) (name : Bytes) : Prop where
  keySet : name ≠ t.getKeySetName
  delSet : name ≠ t.getDelKeySetName
  pending : ∀ k, name ≠ t.pendingName k
  main : ∀ k, name ≠ t.mainName k

/-- The hash the single-key calls of a producer buffer a key in. The empty key has one
    of its own, which no consumer reads. -/
def bufferName (t : TableBase) (key : Bytes) : Bytes :=
  t.getStateHashPrefix ++ t.getKeyName key

theorem bufferName_of_ne_nil (t : TableBase) {key : Bytes} (nonempty : key ≠ []) :
    t.bufferName key = t.pendingName key := by
  rw [bufferName, t.getKeyName_of_ne_nil nonempty]
  rfl

theorem foreign_bufferName_nil (t : TableBase) : t.Foreign (t.bufferName []) := by
  have name : t.bufferName [] = 95 :: t.tableName := by
    simp [bufferName, getKeyName, getStateHashPrefix, ascii]
  rw [name]
  have longer : ∀ {suffix : Bytes}, 1 < suffix.length →
      95 :: t.tableName ≠ t.tableName ++ suffix := by
    intro suffix long same
    have lengths := congrArg length same
    simp only [length_cons, length_append] at lengths
    omega
  refine ⟨longer (by decide), longer (by decide), fun k same => ?_, fun k same => ?_⟩
  · rw [pendingName_eq] at same
    have rest := (cons.inj same).2
    exact absurd (self_eq_append_right.mp rest) (by simp)
  · rw [mainName_eq] at same
    rw [← append_nil t.tableName, append_assoc] at same
    have seam : t.separator.byte :: k = [95] := shifted_name same
    exact t.separator_ne.1 (cons.inj seam).1

section CutOff

variable (t : TableBase) (nul : (0 : UInt8) ∈ t.tableName)
include nul

private theorem foreign_of_stops {name : Bytes}
    (stops : ∀ rest, name ≠ cStr t.tableName ++ 0 :: rest)
    (stopsPending : ∀ rest, name ≠ 95 :: (cStr t.tableName ++ 0 :: rest)) : t.Foreign name := by
  obtain ⟨hidden, split⟩ := eq_cStr_append_of_nul nul
  have goesOn : ∀ suffix, t.tableName ++ suffix = cStr t.tableName ++ 0 :: (hidden ++ suffix) := by
    intro suffix
    nth_rewrite 1 [split]
    simp
  refine ⟨?_, ?_, fun k => ?_, fun k => ?_⟩
  · exact fun same => stops _ (same.trans (goesOn _))
  · exact fun same => stops _ (same.trans (goesOn _))
  · exact fun same => stopsPending _ ((same.trans (t.pendingName_eq k)).trans
      (congrArg (95 :: ·) (goesOn _)))
  · exact fun same => stops _ ((same.trans (t.mainName_eq k)).trans (goesOn _))

theorem foreign_cut : t.Foreign (cStr t.tableName) := by
  apply t.foreign_of_stops nul
  · intro rest same
    simpa using congrArg length same
  · intro rest same
    have longer := congrArg length same
    simp only [length_cons, length_append] at longer
    omega

theorem foreign_cut_main (k : Bytes) :
    t.Foreign (cStr t.tableName ++ t.getTableNameSeparator ++ k) := by
  have seam := t.separator_ne_nul
  apply t.foreign_of_stops nul
  · intro rest same
    rw [append_assoc] at same
    have tails := append_cancel_left same
    exact seam (cons.inj tails).1
  · intro rest same
    rw [append_assoc] at same
    have tails := shifted_name same.symm
    exact t.separator_ne.1 (cons.inj tails).1

theorem foreign_cut_pending (k : Bytes) :
    t.Foreign (t.getStateHashPrefix ++ (cStr t.tableName ++ t.getTableNameSeparator) ++ k) := by
  have seam := t.separator_ne_nul
  have shape : t.getStateHashPrefix ++ (cStr t.tableName ++ t.getTableNameSeparator) ++ k =
      95 :: (cStr t.tableName ++ (t.separator.byte :: k)) := by
    simp [getStateHashPrefix, getTableNameSeparator, ascii]
  rw [shape]
  apply t.foreign_of_stops nul
  · intro rest same
    have tails := shifted_name same
    exact absurd (cons.inj tails).1 (by decide)
  · intro rest same
    have tails := append_cancel_left (cons.inj same).2
    exact seam (cons.inj tails).1

end CutOff

/-! ## The pattern of a table -/

theorem plain_separated {t : TableBase} (plain : Glob.Plain t.tableName) :
    Glob.Plain (t.tableName ++ t.getTableNameSeparator) := by
  intro p member
  rcases mem_append.mp member with inName | isSeparator
  · exact plain p inName
  · rw [mem_singleton.mp isSeparator]
    cases t.separator <;> decide

theorem globMatch_mainName {t : TableBase} (plain : Glob.Plain t.tableName) (name : Bytes) :
    Glob.globMatch (t.tableName ++ t.getTableNameSeparator ++ [Glob.star]) name ↔
      ∃ k, name = t.mainName k := by
  rw [Glob.globMatch_plain_star (plain_separated plain)]
  exact ⟨fun ⟨k, same⟩ => ⟨k, same.symm⟩, fun ⟨k, same⟩ => ⟨k, same.symm⟩⟩

end TableBase

/-! ## Writing an entry -/

namespace Table

def DEFAULT_DB_TTL : Int := -1

/-- The name of an entry in a command, which takes it for a C string. -/
def entryName (t : TableBase) (key : Bytes) : Bytes :=
  cStr (t.getKeyName key)

/-- `Table::set`, for the ways in which its commands are sent. -/
def setEntry {m : Type → Type} [Monad m] (hset : Bytes → List FieldValueTuple → m Unit)
    (expire : Bytes → Int → m Unit) (flush : m Unit) (t : TableBase) (key : Bytes)
    (values : List FieldValueTuple) (ttl : Int) : m Unit :=
  if values = [] then pure ()
  else do
    hset (entryName t key) values
    if ttl ≠ DEFAULT_DB_TTL then expire (entryName t key) ttl
    flush

end Table

end SwssCommon
