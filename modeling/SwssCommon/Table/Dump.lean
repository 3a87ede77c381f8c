import SwssCommon.Redis.Script
import SwssCommon.Table.Names

/-! # Dumping a table

A script encodes every hash of the table as JSON; the C++ side parses it, strips the table name off
the keys and leaves out the fields called `NULL`. Of the two JSON libraries only this is used: what
parses is what was encoded.
-/

namespace SwssCommon

open Bytes Redis Script Std.ExtTreeMap

abbrev TableMap := Hash

abbrev TableDump := Std.ExtTreeMap Bytes TableMap compare

/-- The encoder of the script and the parser of the caller. The text travels as a
    C string, and a text that is not valid UTF-8 does not parse. -/
structure JsonDump where
  encode : TableDump → Bytes
  parse : Bytes → Option TableDump
  parse_encode : ∀ d d', parse (cStr (encode d)) = some d' → d' = d

/-- `table_dump.lua`. -/
def tableDumpScript (json : JsonDump) (KEYS _ARGV : List Bytes) : Script Bytes := do
  let keys ← Script.keys ((← argument KEYS 1) ++ ascii ":*")
  let res ← foldEach keys (∅ : TableDump) fun k res => do
    let flat_map ← hgetall k
    pure (res.insert k (Hash.ofFields flat_map))
  pure (json.encode res)

def nullField : Bytes := ascii "NULL"

/-- The loop over the fields of one hash, which skips that one. -/
def withoutNull (jj : Hash) : TableMap :=
  Hash.ofFields (jj.toList.filter fun itt => itt.1 ≠ nullField)

theorem getElem?_withoutNull (h : Hash) (f : Bytes) :
    (withoutNull h)[f]? = if f = nullField then none else h[f]? := by
  have filtered : withoutNull h = h.filter fun field _ => field ≠ nullField := by
    rw [← Hash.ofFields_toList (h.filter _), toList_filter, withoutNull]
  rw [filtered, getElem?_filter']
  by_cases isNull : f = nullField
  · cases h[f]? <;> simp [isNull]
  · simp only [ne_eq, isNull]
    cases h[f]? <;> rfl

def JsonDump.only (dump : TableDump) (text : Bytes) (readable : cStr text ≠ []) : JsonDump where
  encode d := if d = dump then text else []
  parse data := if data = cStr text then some dump else none
  parse_encode d d' parsed := by
    by_cases same : d = dump
    · simpa [same] using parsed.symm
    · rw [if_neg same, if_neg (show cStr [] ≠ cStr text from readable.symm)] at parsed
      cases parsed

namespace TableBase

variable (t : TableBase) (json : JsonDump)

/-- The command `dump` sends. -/
def dumpCommand : Script Bytes :=
  evalsha (tableDumpScript json) [ascii "1", cStr t.tableName, ascii "''"]

/-- What `dump` makes of the reply, `none` where it throws. -/
def readDump (data : Bytes) : Option TableDump := do
  let j ← json.parse (cStr data)
  let tableNameLen := t.tableName.length + 1
  j.toList.foldlM (fun tableDump it => do
    let key ← substr it.1 tableNameLen
    pure (tableDump.insert key (withoutNull it.2))) ∅

def dumped (h : Hash) : Option TableMap :=
  if h = 1 then none else some (withoutNull h)

/-! ## A dump shows the main hashes -/

variable {t json} {s : Server}

theorem dump_pattern (plain : Glob.Plain t.tableName) (colon : t.separator = .colon)
    (name : Bytes) :
    Glob.globMatch (t.tableName ++ ascii ":*") name ↔ ∃ k, name = t.mainName k := by
  have split : t.tableName ++ ascii ":*" =
      t.tableName ++ t.getTableNameSeparator ++ [Glob.star] := by
    rw [getTableNameSeparator, colon, List.append_assoc]
    rfl
  rw [split]
  exact globMatch_mainName plain name

theorem dumpCommand_ensures (json : JsonDump) {base : Bytes → Hash} (plain : Glob.Plain t.tableName)
    (nulFree : 0 ∉ t.tableName) (colon : t.separator = .colon)
    (mains : ∀ k, s.keyspace.hashAt (t.mainName k) = some (base k)) :
    Ensures (t.dumpCommand json) s fun data s' => s' = s ∧ ∃ res,
      data = json.encode res ∧
      (∀ k, res[t.mainName k]? = if base k = 1 then none else some (base k)) ∧
      ∀ name ∈ res, ∃ k, name = t.mainName k := by
  unfold dumpCommand
  rw [t.cStr_tableName nulFree]
  apply evalsha_ensures (n := 1) [t.tableName] _ rfl
  refine .argument (j := 0) rfl rfl ?_
  refine .bind (keys_ensures ?_)
  refine .bind (Ensures.mono ?_ (foldEach_ensures (fun seen res s' => s' = s ∧
    ∀ name, (res : TableDump)[name]? = if name ∈ seen then s.keyspace.hashAt name else none)
    ⟨rfl, by simp⟩ ?_))
  · rintro res s' ⟨rfl, content⟩
    refine .pure ⟨rfl, res, rfl, fun k => ?_, fun name member => ?_⟩
    · have listed := Keyspace.mem_iff_of_hashAt (mains k)
      have matching : Glob.globMatch (t.tableName ++ ascii ":*") (t.mainName k) :=
        (dump_pattern plain colon _).mpr ⟨k, rfl⟩
      by_cases empty : base k = 1
      · simp [content, listed, empty]
      · simp [content, listed, matching, mains k]
    · have found := mem_iff_isSome_getElem?.mp member
      rw [content] at found
      split at found
      · rename_i inList
        exact (dump_pattern plain colon name).mp (List.mem_filter.mp inList).2
      · simp at found
  · rintro seen name rest res s' split ⟨rfl, content⟩
    have inList : name ∈ s'.keyspace.keys.filter
        (Glob.globMatch (t.tableName ++ ascii ":*")) := by simp [split]
    obtain ⟨k, rfl⟩ := (dump_pattern plain colon name).mp (List.mem_filter.mp inList).2
    refine .bind (hgetall_ensures (mains k) (.pure ⟨rfl, fun other => ?_⟩))
    rw [Hash.ofFields_toList, getElem?_insert]
    by_cases same : t.mainName k = other
    · subst same
      simp [mains k]
    · simp [content, same, Ne.symm same]

theorem dumpCommand_preserves (t : TableBase) (json : JsonDump) (I : Server → Prop) :
    Preserves I (t.dumpCommand json) := by
  refine evalsha_preserves (fun KEYS ARGV => ?_) _
  refine (argument_preserves KEYS 1).bind fun name => (keys_preserves _).bind fun keys => ?_
  refine (foldEach_preserves (fun k res => ?_) keys ∅).bind fun res => .pure _
  exact hgetall_preserves.bind fun flat_map => .pure _

theorem substr_mainName (t : TableBase) (k : Bytes) :
    substr (t.mainName k) (t.tableName.length + 1) = some k := by
  simp [substr, mainName, getTableNameSeparator]

private theorem readDump_fold {l : List (Bytes × TableMap)} {e d : TableDump}
    (distinct : l.Pairwise fun a b => ¬ compare a.1 b.1 = .eq)
    (named : ∀ it ∈ l, ∃ k, it.1 = t.mainName k)
    (ran : l.foldlM (fun tableDump it => do
      let key ← substr it.1 (t.tableName.length + 1)
      pure (tableDump.insert key (withoutNull it.2))) e = some d)
    (k : Bytes) :
    (∀ h, (t.mainName k, h) ∈ l → d[k]? = some (withoutNull h)) ∧
      ((∀ h, (t.mainName k, h) ∉ l) → d[k]? = e[k]?) := by
  induction l generalizing e with
  | nil =>
    obtain rfl : e = d := by simpa using ran
    simp
  | cons it l ih =>
    obtain ⟨j, name⟩ := named it (by simp)
    have stripped : substr it.1 (t.tableName.length + 1) = some j := by
      rw [name, substr_mainName]
    rw [List.pairwise_cons] at distinct
    have rest := ih distinct.2 (fun other member => named other (by simp [member]))
      (by simpa [stripped] using ran)
    constructor
    · intro h member
      rcases List.mem_cons.mp member with here | later
      · have key : j = k := t.mainName_injective (name.symm.trans (congrArg Prod.fst here).symm)
        rw [rest.2 fun h' again => distinct.1 _ again (by simp [name, key])]
        simp [← here, key]
      · exact rest.1 h later
    · intro absent
      have different : j ≠ k := by
        rintro rfl
        exact absent it.2 (by simp [← name])
      rw [rest.2 fun h member => absent h (by simp [member])]
      simp [getElem?_insert, different]

theorem readDump_spec {base : Bytes → Hash} {res : TableDump} {d}
    (content : ∀ k, res[t.mainName k]? = if base k = 1 then none else some (base k))
    (named : ∀ name ∈ res, ∃ k, name = t.mainName k)
    (read : t.readDump json (json.encode res) = some d) (k : Bytes) :
    d[k]? = dumped (base k) := by
  unfold readDump at read
  cases parsed : json.parse (cStr (json.encode res)) with
  | none => simp [parsed] at read
  | some j =>
    obtain rfl := json.parse_encode res j parsed
    have folded := readDump_fold (e := ∅) (t := t) distinct_keys_toList
      (fun it member => named it.1 (by
        have found := mem_toList_iff_getElem?_eq_some.mp member
        exact mem_iff_isSome_getElem?.mpr (by rw [found]; rfl)))
      (by simpa [parsed] using read) k
    unfold dumped
    split
    · rename_i empty
      rw [folded.2 fun h member => ?_]
      · simp
      · rw [mem_toList_iff_getElem?_eq_some, content, if_pos empty] at member
        simp at member
    · rename_i nonempty
      apply folded.1
      rw [mem_toList_iff_getElem?_eq_some, content, if_neg nonempty]

end TableBase

end SwssCommon
