import SwssCommon.Redis.Script

/-! # Flushing the forwarding database

`fdb_flush.v2` gets a switch, a bridge VLAN, a bridge port and an entry type, each of which may be
left open. The first two are looked for in the key, a JSON text, with a glob pattern; port and type
are fields of the entry.
-/

namespace SwssCommon.FdbFlush

open Bytes Redis Script List Std.ExtTreeMap Keyspace Glob

/-! ## The script -/

def attrType : Bytes := ascii "SAI_FDB_ENTRY_ATTR_TYPE"

def attrPort : Bytes := ascii "SAI_FDB_ENTRY_ATTR_BRIDGE_PORT_ID"

def unlessNull (oid : Bytes) : Bytes :=
  if oid = ascii "oid:0x0" then [] else oid

def pattern (swid bvid : Bytes) : Bytes :=
  ascii "ASIC_STATE:SAI_OBJECT_TYPE_FDB_ENTRY:*bvid*" ++ bvid ++ ascii "*switch_id*" ++ swid ++
    ascii "*"

def flushKey (port type key : Bytes) : Script Unit :=
  if port = [] ∧ type = [] then do
    let _ ← del key
  else if port = [] ∧ type ≠ [] then do
    let etype ← hget key attrType
    if etype = some type then
      let _ ← del key
  else if port ≠ [] ∧ type = [] then do
    let eport ← hget key attrPort
    if eport = some port then
      let _ ← del key
  else do
    let etype ← hget key attrType
    let eport ← hget key attrPort
    if eport = some port ∧ etype = some type then
      let _ ← del key

def fdbFlush (KEYS _ARGV : List Bytes) : Script Unit := do
  let swid ← argument KEYS 1
  let bvid ← argument KEYS 2
  let port ← argument KEYS 3
  let type ← argument KEYS 4
  let keys ← Script.keys (pattern (unlessNull swid) (unlessNull bvid))
  foldEach keys () fun key _ => flushKey (unlessNull port) type key

/-! ## Entries and arguments -/

/-- An object identifier is written as `oid:0x` and its digits. -/
structure Oid where
  digits : Bytes
  hex : ∀ c ∈ digits, isHexDigit c = true
  deriving DecidableEq

def Oid.text (oid : Oid) : Bytes :=
  ascii "oid:0x" ++ oid.digits

structure Entry where
  bvid : Oid
  mac : Bytes
  switchId : Oid
  macText : ∀ c ∈ mac, isHexDigit c = true ∨ c = 58

def Entry.key (e : Entry) : Bytes :=
  ascii "ASIC_STATE:SAI_OBJECT_TYPE_FDB_ENTRY:" ++
    (ascii "\x7b\"bvid\":\"" ++ e.bvid.text ++ ascii "\",\"mac\":\"" ++ e.mac ++
      ascii "\",\"switch_id\":\"" ++ e.switchId.text ++ ascii "\"\x7d")

structure Arguments where
  switchId : Oid
  bvid : Oid
  port : Oid
  type : Bytes

def Arguments.words (args : Arguments) : List Bytes :=
  [args.switchId.text, args.bvid.text, args.port.text, args.type]

/-- What an argument asks for; the null object asks for nothing. -/
def Oid.wanted (oid : Oid) : Option Oid :=
  if oid.text = ascii "oid:0x0" then none else some oid

/-- The entry has the switch and the VLAN that are asked for. -/
def Arguments.Names (args : Arguments) (e : Entry) : Prop :=
  (∀ swid ∈ args.switchId.wanted, e.switchId = swid) ∧ ∀ bvid ∈ args.bvid.wanted, e.bvid = bvid

def Arguments.Admits (args : Arguments) (fields : Hash) : Prop :=
  (∀ port ∈ args.port.wanted, fields[attrPort]? = some port.text) ∧
    (args.type ≠ [] → fields[attrType]? = some args.type)

/-- The entries of the table are those of the forwarding database. -/
def Entries (s : Server) : Prop :=
  ∀ k ∈ s.keyspace, ascii "ASIC_STATE:SAI_OBJECT_TYPE_FDB_ENTRY:" <+: k →
    ∃ (e : Entry) (fields : Hash), k = e.key ∧ s.keyspace.hashAt k = some fields

/-- The script deletes the entries that are asked for, and nothing else. -/
def Exact (s : Server) (args : Arguments) : Prop :=
  Ensures (fdbFlush args.words []) s fun _ s' =>
    s'.published = s.published ∧
    (∀ k : Bytes, s'.keyspace[k]? = none ∨ s'.keyspace[k]? = s.keyspace[k]?) ∧
    ∀ k ∈ s.keyspace, s'.keyspace[k]? = none ↔
      ∃ (e : Entry) (fields : Hash), k = e.key ∧ s.keyspace.hashAt k = some fields ∧
        args.Names e ∧ args.Admits fields

def Arguments.Begins (args : Arguments) (e : Entry) : Prop :=
  (∀ swid ∈ args.switchId.wanted, swid.digits <+: e.switchId.digits) ∧
    ∀ bvid ∈ args.bvid.wanted, bvid.digits <+: e.bvid.digits

/-! ## What the pattern finds -/

/-- What stands in the pattern for an object that may be left open. -/
def word (oid : Option Oid) : Bytes :=
  (oid.map Oid.text).getD []

theorem unlessNull_text (oid : Oid) : unlessNull oid.text = word oid.wanted := by
  rw [unlessNull, Oid.wanted]
  split <;> rfl

variable {c : UInt8}

theorem literal_of_hex (hex : isHexDigit c) : Glob.Literal c := by
  refine ⟨?_, ?_, ?_, ?_⟩
  all_goals
    rintro rfl
    exact absurd hex (by decide)

theorem plain_text (oid : Oid) : Glob.Plain oid.text := by
  have marker : Glob.Plain (ascii "oid:0x") := by decide
  intro c member
  cases mem_append.mp member with
  | inl inMarker => exact marker c inMarker
  | inr digit => exact literal_of_hex (oid.hex c digit)

theorem plain_word (oid : Option Oid) : Glob.Plain (word oid) := by
  cases oid with
  | none => exact fun c member => absurd member not_mem_nil
  | some oid => exact plain_text oid

theorem notMem_digits (oid : Oid) (notHex : isHexDigit c = false) : c ∉ oid.digits := fun member =>
  Bool.false_ne_true (notHex.symm.trans (oid.hex c member))

/-- The `x` of `oid:0x` is the only one, so the digits of an identifier that is found in a text
    begin the digits that stand there. -/
theorem prefix_of_infix {wanted found : Oid} {before after : Bytes} (noneBefore : 120 ∉ before)
    (noneAfter : 120 ∉ after)
    (inside : wanted.text <:+: before ++ (found.text ++ 34 :: after)) :
    wanted.digits <+: found.digits := by
  obtain ⟨front, back, split⟩ := inside
  have marker : ascii "oid:0x" = ascii "oid:0" ++ [120] := by decide
  have unique : (120 : UInt8) ∉ found.digits ++ 34 :: after := by
    simp only [mem_append, mem_cons, not_or]
    exact ⟨notMem_digits found rfl, by decide, noneAfter⟩
  have split' : (before ++ ascii "oid:0") ++ 120 :: (found.digits ++ 34 :: after) =
      (front ++ ascii "oid:0") ++ 120 :: (wanted.digits ++ back) := by
    simpa [Oid.text, marker] using split.symm
  have same := (append_cons_inj_of_notMem (by
    simp only [mem_append, not_or]
    exact ⟨noneBefore, by decide⟩) unique).mp split'
  exact prefix_of_separatorFree (notMem_digits wanted rfl) ⟨back, same.2.2.symm⟩

/-- The part of a key from the opening brace to the first letter of `switch_id`. -/
def Entry.front (e : Entry) : Bytes :=
  ascii "\x7b\"bvid\":\"" ++ (e.bvid.text ++ 34 :: (ascii ",\"mac\":\"" ++ e.mac ++ ascii "\",\"s"))

def Entry.back (e : Entry) : Bytes :=
  ascii "itch_id\":\"" ++ (e.switchId.text ++ 34 :: ascii "\x7d")

theorem key_eq (e : Entry) :
    e.key = ascii "ASIC_STATE:SAI_OBJECT_TYPE_FDB_ENTRY:" ++ (e.front ++ 119 :: e.back) := by
  have opening : ascii "\",\"mac\":\"" = 34 :: ascii ",\"mac\":\"" := by decide
  have middle : ascii "\",\"switch_id\":\"" = ascii "\",\"s" ++ 119 :: ascii "itch_id\":\"" := by
    decide
  have closing : ascii "\"\x7d" = 34 :: ascii "\x7d" := by decide
  rw [Entry.key, opening, middle, closing, Entry.front, Entry.back]
  simp only [append_assoc, cons_append]

theorem notMem_text (oid : Oid) (notMarker : c ∉ ascii "oid:0x") (notHex : isHexDigit c = false) :
    c ∉ oid.text := by
  simp only [Oid.text, mem_append, not_or]
  exact ⟨notMarker, notMem_digits oid notHex⟩

theorem Entry.notMem_mac (e : Entry) (notHex : isHexDigit c = false) (notColon : c ≠ 58) :
    c ∉ e.mac := by
  intro member
  cases e.macText c member with
  | inl hex => exact Bool.false_ne_true (notHex.symm.trans hex)
  | inr colon => exact notColon colon

theorem w_notMem_front (e : Entry) : 119 ∉ e.front := by
  simp only [Entry.front, mem_append, mem_cons, not_or]
  exact ⟨by decide, notMem_text e.bvid (by decide) rfl, by decide,
    ⟨by decide, e.notMem_mac rfl (by decide)⟩, by decide⟩

theorem w_notMem_back (e : Entry) : 119 ∉ e.back := by
  simp only [Entry.back, mem_append, mem_cons, not_or]
  exact ⟨by decide, notMem_text e.switchId (by decide) rfl, by decide, by decide⟩

variable {e : Entry} {bvid : Option Oid}

theorem bvid_of_infix (inside : word bvid <:+: e.front) :
    ∀ oid ∈ bvid, oid.digits <+: e.bvid.digits := by
  rintro oid rfl
  refine prefix_of_infix (by decide) ?_ inside
  simp only [mem_append, not_or]
  exact ⟨⟨by decide, e.notMem_mac rfl (by decide)⟩, by decide⟩

variable {swid : Option Oid}

theorem swid_of_infix (inside : word swid <:+: e.back) :
    ∀ oid ∈ swid, oid.digits <+: e.switchId.digits := by
  rintro oid rfl
  exact prefix_of_infix (by decide) (by decide) inside

theorem word_infix (before after : Bytes) {wanted} {found : Oid}
    (begins : ∀ oid ∈ wanted, oid.digits <+: found.digits) :
    word wanted <:+: before ++ (found.text ++ after) := by
  cases wanted with
  | none => exact ⟨[], before ++ (found.text ++ after), rfl⟩
  | some oid =>
    obtain ⟨rest, digits⟩ := begins oid rfl
    refine ⟨before, rest ++ after, ?_⟩
    simp [word, Oid.text, ← digits]

theorem pattern_eq (swid bvid : Bytes) :
    pattern swid bvid = ascii "ASIC_STATE:SAI_OBJECT_TYPE_FDB_ENTRY:" ++ star ::
      (ascii "bvid" ++ star :: (bvid ++ star ::
        (ascii "switch_id" ++ star :: (swid ++ [star])))) := by
  have first : ascii "ASIC_STATE:SAI_OBJECT_TYPE_FDB_ENTRY:*bvid*" =
      ascii "ASIC_STATE:SAI_OBJECT_TYPE_FDB_ENTRY:" ++ star :: (ascii "bvid" ++ [star]) := by
    decide
  have second : ascii "*switch_id*" = star :: (ascii "switch_id" ++ [star]) := by decide
  have third : ascii "*" = [star] := by decide
  rw [pattern, first, second, third]
  simp only [append_assoc, cons_append, nil_append]

variable {k : Bytes}

theorem globMatch_pattern :
    globMatch (pattern (word swid) (word bvid)) k ↔
      ∃ a b c d e, k = ascii "ASIC_STATE:SAI_OBJECT_TYPE_FDB_ENTRY:" ++
        (a ++ (ascii "bvid" ++ (b ++ (word bvid ++ (c ++ (ascii "switch_id" ++
          (d ++ (word swid ++ e)))))))) := by
  rw [pattern_eq, globMatch_word_star (by decide)]
  constructor
  · rintro ⟨a, _, rfl, afterTable⟩
    obtain ⟨b, _, rfl, afterName⟩ := (globMatch_word_star (by decide) _).mp afterTable
    obtain ⟨c, _, rfl, afterBvid⟩ := (globMatch_word_star (plain_word bvid) _).mp afterName
    obtain ⟨d, _, rfl, atSwid⟩ := (globMatch_word_star (by decide) _).mp afterBvid
    obtain ⟨e, rfl⟩ := (globMatch_plain_star (plain_word swid) _).mp atSwid
    exact ⟨a, b, c, d, e, rfl⟩
  · rintro ⟨a, b, c, d, e, rfl⟩
    refine ⟨a, _, rfl, (globMatch_word_star (by decide) _).mpr ⟨b, _, rfl, ?_⟩⟩
    refine (globMatch_word_star (plain_word bvid) _).mpr ⟨c, _, rfl, ?_⟩
    refine (globMatch_word_star (by decide) _).mpr ⟨d, _, rfl, ?_⟩
    exact (globMatch_plain_star (plain_word swid) _).mpr ⟨e, rfl⟩

/-- The pattern has no closing quote after an identifier, so it finds the entries whose
    identifiers only begin with the one that is asked for. -/
theorem globMatch_key :
    globMatch (pattern (word swid) (word bvid)) e.key ↔
      (∀ oid ∈ swid, oid.digits <+: e.switchId.digits) ∧
        ∀ oid ∈ bvid, oid.digits <+: e.bvid.digits := by
  have name : ascii "switch_id" = ascii "s" ++ 119 :: ascii "itch_id" := by decide
  rw [globMatch_pattern, key_eq]
  constructor
  · rintro ⟨a, b, c, d, f, split⟩
    have split' : e.front ++ 119 :: e.back =
        (a ++ (ascii "bvid" ++ (b ++ (word bvid ++ (c ++ ascii "s"))))) ++
          119 :: (ascii "itch_id" ++ (d ++ (word swid ++ f))) := by
      rw [append_cancel_left split, name]
      simp only [append_assoc, cons_append]
    obtain ⟨front, -, back⟩ :=
      (append_cons_inj_of_notMem (w_notMem_front e) (w_notMem_back e)).mp split'
    constructor
    · exact swid_of_infix ⟨ascii "itch_id" ++ d, f, by simp [back]⟩
    · exact bvid_of_infix ⟨a ++ ascii "bvid" ++ b, c ++ ascii "s", by simp [front]⟩
  · rintro ⟨swidBegins, bvidBegins⟩
    have frontSplit : e.front = ascii "\x7b\"" ++
        (ascii "bvid" ++ ((ascii "\":\"" ++ (e.bvid.text ++
        (34 :: (ascii ",\"mac\":\"" ++ e.mac ++ ascii "\",\"")))) ++ ascii "s")) := by
      simp only [append_assoc, cons_append]
      rfl
    have backSplit : e.back = ascii "itch_id" ++ (ascii "\":\"" ++ (e.switchId.text ++
        34 :: ascii "\x7d")) := by
      simp only [← append_assoc]
      rfl
    obtain ⟨b, c, bvidSplit⟩ := word_infix (ascii "\":\"")
      (34 :: (ascii ",\"mac\":\"" ++ e.mac ++ ascii "\",\"")) bvidBegins
    obtain ⟨d, f, swidSplit⟩ := word_infix (ascii "\":\"") (34 :: ascii "\x7d") swidBegins
    refine ⟨ascii "\x7b\"", b, c, d, f, ?_⟩
    rw [frontSplit, backSplit, ← bvidSplit, ← swidSplit, name]
    simp only [append_assoc, cons_append]

/-! ## What the loop deletes -/

/-- The test of the loop, with the empty word for what is left open. -/
def Fits (port type : Bytes) (fields : Hash) : Prop :=
  (port ≠ [] → fields[attrPort]? = some port) ∧ (type ≠ [] → fields[attrType]? = some type)

instance (port type : Bytes) (fields : Hash) : Decidable (Fits port type fields) :=
  inferInstanceAs (Decidable (_ ∧ _))

theorem fits_iff (args : Arguments) (fields : Hash) :
    Fits (unlessNull args.port.text) args.type fields ↔ args.Admits fields := by
  rw [Fits, Arguments.Admits, unlessNull_text]
  cases args.port.wanted with
  | none => simp [word]
  | some oid => simp [word, Oid.text, ascii]

variable {s : Server} {port type key : Bytes} {fields : Hash}

theorem del_if_ensures {P} [Decidable P] (same : P ↔ Fits port type fields) :
    Ensures (if P then do let _ ← del key else pure ()) s
      fun _ s' => s' = if Fits port type fields then s.write key none else s := by
  simp only [← same]
  split
  · exact .bind (del_ensures fun n => .pure rfl)
  · exact .pure rfl

theorem flushKey_ensures (found : s.keyspace.hashAt key = some fields) :
    Ensures (flushKey port type key) s
      fun _ s' => s' = if Fits port type fields then s.write key none else s := by
  unfold flushKey
  split
  · rename_i neither
    rw [if_pos ⟨fun some => absurd neither.1 some, fun some => absurd neither.2 some⟩]
    exact .bind (del_ensures fun n => .pure rfl)
  · split
    · rename_i onlyType
      refine .bind (hget_ensures found (del_if_ensures ?_))
      simp [Fits, onlyType]
    · split
      · rename_i onlyPort
        refine .bind (hget_ensures found (del_if_ensures ?_))
        simp [Fits, onlyPort]
      · rename_i notNeither notOnlyType notOnlyPort
        refine .bind (hget_ensures found (.bind (hget_ensures found (del_if_ensures ?_))))
        have somePort : port ≠ [] := fun anyPort =>
          (em (type = [])).elim (notNeither ⟨anyPort, ·⟩) (notOnlyType ⟨anyPort, ·⟩)
        have someType : type ≠ [] := fun anyType => notOnlyPort ⟨somePort, anyType⟩
        simp [Fits, somePort, someType]

/-- What was deleted when the loop is over: the listed keys whose fields fit. -/
def Gone (s : Server) (args : Arguments) (listed : List Bytes) (k : Bytes) : Prop :=
  k ∈ listed ∧ ∃ fields, s.keyspace.hashAt k = some fields ∧ args.Admits fields

def listed (s : Server) (args : Arguments) : List Bytes :=
  s.keyspace.keys.filter
    (globMatch (pattern (unlessNull args.switchId.text) (unlessNull args.bvid.text)))

variable {args : Arguments}

theorem table_prefix_of_listed (found : k ∈ listed s args) :
    k ∈ s.keyspace ∧ ascii "ASIC_STATE:SAI_OBJECT_TYPE_FDB_ENTRY:" <+: k := by
  rw [listed, mem_filter, unlessNull_text, unlessNull_text, Std.ExtTreeMap.mem_keys,
    globMatch_pattern] at found
  obtain ⟨member, a, b, c, d, e, split⟩ := found
  exact ⟨member, _, split.symm⟩

structure Flushed (start : Server) (args : Arguments) (seen : List Bytes) (s : Server) : Prop where
  published : s.published = start.published
  gone : ∀ k : Bytes, Gone start args seen k → s.keyspace[k]? = none
  kept : ∀ k : Bytes, ¬ Gone start args seen k → s.keyspace[k]? = start.keyspace[k]?

theorem flushed_step {start seen} (before : Flushed start args seen s)
    (unseen : key ∉ seen) (found : start.keyspace.hashAt key = some fields) :
    Ensures (flushKey (unlessNull args.port.text) args.type key) s
      fun _ => Flushed start args (seen ++ [key]) := by
  have untouched : s.keyspace[key]? = start.keyspace[key]? :=
    before.kept key fun gone => unseen gone.1
  have here : s.keyspace.hashAt key = some fields := by
    rw [hashAt, untouched]
    exact found
  have goneHere : Gone start args (seen ++ [key]) key ↔
      Fits (unlessNull args.port.text) args.type fields := by
    simp [Gone, found, fits_iff]
  have goneElsewhere : ∀ k ≠ key, (Gone start args (seen ++ [key]) k ↔ Gone start args seen k) := by
    intro k other
    simp [Gone, other]
  refine (flushKey_ensures here).mono ?_
  rintro - s' rfl
  have elsewhere : ∀ k ≠ key, (if Fits (unlessNull args.port.text) args.type fields then
      s.write key none else s).keyspace[k]? = s.keyspace[k]? := by
    intro k other
    split
    · exact getElem?_write_of_ne (Ne.symm other) _ _
    · rfl
  refine ⟨?_, ?_, ?_⟩
  · split <;> exact before.published
  · intro k gone
    by_cases same : k = key
    · subst same
      rw [if_pos (goneHere.mp gone)]
      exact getElem?_write_self _ _ _
    · exact (elsewhere k same).trans (before.gone k ((goneElsewhere k same).mp gone))
  · intro k stays
    by_cases same : k = key
    · subst same
      rw [if_neg (mt goneHere.mpr stays), untouched]
    · exact (elsewhere k same).trans (before.kept k (mt (goneElsewhere k same).mpr stays))

theorem fdbFlush_ensures (entries : Entries s) (args : Arguments) :
    Ensures (fdbFlush args.words []) s fun _ => Flushed s args (listed s args) := by
  have start : Flushed s args [] s := ⟨rfl, fun k gone => absurd gone.1 not_mem_nil, fun k _ => rfl⟩
  refine foldEach_ensures (fun seen _ => Flushed s args seen) start ?_
  intro seen key rest _ s' split before
  have split' : listed s args = seen ++ key :: rest := split
  have distinct : (listed s args).Nodup := nodup_keys.filter _
  rw [split'] at distinct
  have unseen : key ∉ seen := fun again =>
    (nodup_append.mp distinct).2.2 key again key (mem_cons_self) rfl
  obtain ⟨member, inTable⟩ :=
    table_prefix_of_listed (show key ∈ listed s args by simp [split'])
  obtain ⟨e, fields, -, found⟩ := entries key member inTable
  exact flushed_step before unseen found

/-! ## Exactness -/

theorem mem_listed : e.key ∈ listed s args ↔ e.key ∈ s.keyspace ∧ args.Begins e := by
  rw [listed, mem_filter, Std.ExtTreeMap.mem_keys, unlessNull_text, unlessNull_text, globMatch_key]
  rfl

private theorem oid_eq {a b : Oid} (ab : a.digits <+: b.digits) (ba : b.digits <+: a.digits) :
    a = b := by
  obtain ⟨a, _⟩ := a
  obtain ⟨b, _⟩ := b
  obtain rfl : a = b := ab.eq_of_length_le ba.length_le
  rfl

private theorem begins_of_key_eq {e' : Entry} (same : e.key = e'.key) :
    e.switchId.digits <+: e'.switchId.digits ∧ e.bvid.digits <+: e'.bvid.digits := by
  have own : globMatch (pattern (word (some e.switchId)) (word (some e.bvid))) e.key :=
    globMatch_key.mpr ⟨by rintro oid ⟨⟩; exact prefix_refl _, by rintro oid ⟨⟩; exact prefix_refl _⟩
  rw [same, globMatch_key] at own
  exact ⟨own.1 _ rfl, own.2 _ rfl⟩

theorem ids_of_key_eq {e' : Entry} (same : e.key = e'.key) :
    e.switchId = e'.switchId ∧ e.bvid = e'.bvid := by
  have there := begins_of_key_eq same
  have back := begins_of_key_eq same.symm
  exact ⟨oid_eq there.1 back.1, oid_eq there.2 back.2⟩

theorem names_of_key_eq {e'} (same : e.key = e'.key) (names : args.Names e) :
    args.Names e' := by
  obtain ⟨switchId, bvid⟩ := ids_of_key_eq same
  rwa [Arguments.Names, ← switchId, ← bvid]

theorem begins_of_names (names : args.Names e) : args.Begins e :=
  ⟨fun swid wanted => names.1 swid wanted ▸ prefix_refl _,
    fun bvid wanted => names.2 bvid wanted ▸ prefix_refl _⟩

theorem names_of_exact (entries : Entries s) (exactly : Exact s args) (stored : e.key ∈ s.keyspace)
    (found : s.keyspace.hashAt e.key = some fields) (admitted : args.Admits fields)
    (begins : args.Begins e) : args.Names e := by
  obtain ⟨_, s', ran, -, -, deleted⟩ := exactly
  obtain ⟨_, s'', ran', flushed⟩ := fdbFlush_ensures entries args
  cases ran.symm.trans ran'
  have gone := flushed.gone e.key ⟨mem_listed.mpr ⟨stored, begins⟩, fields, found, admitted⟩
  obtain ⟨e', _, same, -, names, -⟩ := (deleted e.key stored).mp gone
  exact names_of_key_eq same.symm names

/-- The script is exact unless an entry with the port and the type asked for has a longer identifier
    that begins with the one asked for. -/
theorem flush_exact_iff (s : Server) (entries : Entries s) (args : Arguments) :
    Exact s args ↔
      ∀ (e : Entry) (fields : Hash), e.key ∈ s.keyspace → s.keyspace.hashAt e.key = some fields →
        args.Admits fields → args.Begins e → args.Names e := by
  constructor
  · intro exactly e fields stored found admitted begins
    exact names_of_exact entries exactly stored found admitted begins
  · intro distinct
    refine (fdbFlush_ensures entries args).mono ?_
    intro _ s' flushed
    refine ⟨flushed.published, ?_, ?_⟩
    · intro k
      exact (em (Gone s args (listed s args) k)).imp (flushed.gone k) (flushed.kept k)
    · intro k stored
      constructor
      · intro absent
        by_cases gone : Gone s args (listed s args) k
        · obtain ⟨isListed, fields, found, admitted⟩ := gone
          obtain ⟨e, _, rfl, -⟩ := entries k stored (table_prefix_of_listed isListed).2
          have names := distinct e fields stored found admitted (mem_listed.mp isListed).2
          exact ⟨e, fields, rfl, found, names, admitted⟩
        · rw [flushed.kept k gone] at absent
          rw [mem_iff_isSome_getElem?, absent] at stored
          cases stored
      · rintro ⟨e, fields, rfl, found, names, admitted⟩
        have isListed := mem_listed.mpr ⟨stored, begins_of_names names⟩
        exact flushed.gone e.key ⟨isListed, fields, found, admitted⟩

/-! ## Static entries of some VLANs -/

private def nullOid : Oid := ⟨ascii "0", by decide +kernel⟩

private def vlan : Oid := ⟨ascii "26000000000001", by decide +kernel⟩

private def longerVlan : Oid := ⟨ascii "260000000000010", by decide +kernel⟩

private def otherVlan : Oid := ⟨ascii "26000000000002", by decide +kernel⟩

private def learned (bvid : Oid) : Entry where
  bvid := bvid
  mac := ascii "00:00:00:00:00:01"
  switchId := ⟨ascii "21000000000000", by decide +kernel⟩
  macText := by decide +kernel

private def static : Hash :=
  Hash.ofFields [(attrType, ascii "SAI_FDB_ENTRY_TYPE_STATIC")]

private def holding (bvids : List Oid) : Server :=
  bvids.foldr (fun bvid s => s.write (learned bvid).key (Value.ofHash static)) ⟨∅, []⟩

private theorem hashAt_holding {bvid bvids} (member : bvid ∈ bvids) :
    (holding bvids).keyspace.hashAt (learned bvid).key = some static := by
  induction bvids with
  | nil => cases member
  | cons first bvids ih =>
    change ((holding bvids).keyspace.write (learned first).key _).hashAt _ = _
    rw [hashAt_write]
    split
    · exact Value.hash?_ofHash static
    · rename_i other
      refine ih (mem_of_ne_of_mem (fun same => other ?_) member)
      rw [same]

private theorem mem_holding {bvids} (stored : k ∈ (holding bvids).keyspace) :
    ∃ bvid ∈ bvids, k = (learned bvid).key := by
  induction bvids with
  | nil => simp [holding] at stored
  | cons first bvids ih =>
    by_cases here : (learned first).key = k
    · exact ⟨first, mem_cons_self, here.symm⟩
    · change k ∈ (holding bvids).keyspace.write (learned first).key _ at stored
      rw [mem_iff_isSome_getElem?, getElem?_write_of_ne here, ← mem_iff_isSome_getElem?] at stored
      obtain ⟨bvid, member, same⟩ := ih stored
      exact ⟨bvid, mem_cons_of_mem _ member, same⟩

private theorem entries_holding (bvids : List Oid) : Entries (holding bvids) := by
  intro k stored _
  obtain ⟨bvid, member, rfl⟩ := mem_holding stored
  exact ⟨learned bvid, static, rfl, hashAt_holding member⟩

private theorem learned_stored {bvid bvids} (member : bvid ∈ bvids) :
    (learned bvid).key ∈ (holding bvids).keyspace :=
  (mem_iff_of_hashAt (hashAt_holding member)).mpr
    (Hash.ofFields_eq_one_iff _ |>.not.mpr (by decide))

private def flushVlan : Arguments := ⟨nullOid, vlan, nullOid, []⟩

private theorem flushVlan_admits (fields : Hash) : flushVlan.Admits fields :=
  ⟨by rintro port ⟨⟩, fun some => absurd rfl some⟩

private theorem flushVlan_names (e : Entry) : flushVlan.Names e ↔ e.bvid = vlan := by
  constructor
  · intro names
    exact names.2 vlan (by decide)
  · intro same
    refine ⟨by rintro swid ⟨⟩, ?_⟩
    rintro oid ⟨⟩
    exact same

/-- The entry of the VLAN is deleted and that of the other one stays. -/
theorem flush_exact_same_vlan :
    let s := holding [vlan, otherVlan]
    Entries s ∧ Ensures (fdbFlush flushVlan.words []) s fun _ s' =>
      s'.keyspace[(learned vlan).key]? = none ∧
        s'.keyspace[(learned otherVlan).key]? = s.keyspace[(learned otherVlan).key]? := by
  intro s
  refine ⟨entries_holding _, ?_⟩
  have exactly := (flush_exact_iff s (entries_holding _) flushVlan).mpr ?_
  · refine exactly.mono ?_
    rintro _ s' ⟨-, kept, deleted⟩
    refine ⟨(deleted _ (learned_stored (by simp))).mpr ⟨learned vlan, static, rfl,
      hashAt_holding (by simp), (flushVlan_names _).mpr rfl, flushVlan_admits _⟩, ?_⟩
    refine (kept _).resolve_left fun gone => ?_
    obtain ⟨e, _, same, -, names, -⟩ := (deleted _ (learned_stored (by simp))).mp gone
    have bvid : otherVlan = vlan := (ids_of_key_eq same).2.trans ((flushVlan_names e).mp names)
    exact absurd bvid (by decide)
  · intro e fields stored _ _ begins
    rw [flushVlan_names]
    obtain ⟨bvid, member, same⟩ := mem_holding stored
    obtain rfl : bvid = e.bvid := (ids_of_key_eq same).2.symm
    have starts := begins.2 vlan (by decide)
    rcases mem_cons.mp member with here | member
    · exact here
    · rw [mem_singleton.mp member] at starts
      exact absurd starts (by decide)

/-- A flush of one VLAN also takes the entry of a VLAN with a longer identifier. -/
theorem flush_takes_longer_vlan :
    let s := holding [longerVlan]
    Entries s ∧ (learned longerVlan).key ∈ s.keyspace ∧ ¬ flushVlan.Names (learned longerVlan) ∧
      ¬ Exact s flushVlan := by
  have member : longerVlan ∈ [longerVlan] := mem_singleton_self _
  have differs : ¬ flushVlan.Names (learned longerVlan) := by
    rw [flushVlan_names]
    exact (by decide : longerVlan ≠ vlan)
  refine ⟨entries_holding _, learned_stored member, differs, fun exactly => differs ?_⟩
  apply names_of_exact (entries_holding _) exactly (learned_stored member) (hashAt_holding member)
    (flushVlan_admits _)
  refine ⟨by rintro swid ⟨⟩, ?_⟩
  rintro oid ⟨⟩
  exact ⟨ascii "0", by decide⟩

end SwssCommon.FdbFlush
