import SwssCommon.Counters.KeyCache
import SwssCommon.Lib.Doubles
import SwssCommon.Table.Content

/-! # Counters of a port with a gearbox

In union mode a script adds to the counters of the ASIC those of both sides of the gearbox. It adds
in doubles and prints fourteen digits; a longer sum comes out in scientific notation.
-/

namespace SwssCommon

open Bytes Redis List OrderedMap PortCounter Doubles DBConnector

/-! ## The script -/

inductive LuaError where
  /-- `redis.call` on a value that is not a hash. -/
  | wrongType
  /-- Arithmetic on a text that is not a number. -/
  | arithmetic
  deriving DecidableEq

namespace Lua

abbrev M := Except LuaError

/-- The hash a call of `HGET` or `HGETALL` is about. -/
def call (ks : Keyspace) (key : Bytes) : M Hash :=
  match ks.hashAt key with
  | none => .error .wrongType
  | some h => .ok h

/-- A text in an addition. Of the texts that Lua takes for numbers these are the ones made of
    digits. -/
def number (text : Bytes) : M Nat :=
  match parseDecimal text with
  | none => .error .arithmetic
  | some n => .ok (round n)

def tostring (x : Nat) : Bytes :=
  printG 14 x

end Lua

namespace PortCounter

def gbCounterList : List (Bytes × List Bytes) :=
  [(ascii "SAI_PORT_STAT_IF_IN_ERRORS",
      [ascii "SAI_PORT_STAT_IF_OUT_ERRORS", ascii "SAI_PORT_STAT_IF_IN_ERRORS"]),
    (ascii "SAI_PORT_STAT_IF_IN_DISCARDS",
      [ascii "SAI_PORT_STAT_IF_OUT_DISCARDS", ascii "SAI_PORT_STAT_IF_IN_DISCARDS"]),
    (ascii "SAI_PORT_STAT_IF_OUT_ERRORS",
      [ascii "SAI_PORT_STAT_IF_IN_ERRORS", ascii "SAI_PORT_STAT_IF_OUT_ERRORS"]),
    (ascii "SAI_PORT_STAT_IF_OUT_DISCARDS",
      [ascii "SAI_PORT_STAT_IF_IN_DISCARDS", ascii "SAI_PORT_STAT_IF_OUT_DISCARDS"]),
    (ascii "SAI_PORT_STAT_ETHER_RX_OVERSIZE_PKTS",
      [ascii "SAI_PORT_STAT_ETHER_TX_OVERSIZE_PKTS", ascii "SAI_PORT_STAT_ETHER_RX_OVERSIZE_PKTS"]),
    (ascii "SAI_PORT_STAT_ETHER_TX_OVERSIZE_PKTS",
      [ascii "SAI_PORT_STAT_ETHER_RX_OVERSIZE_PKTS", ascii "SAI_PORT_STAT_ETHER_TX_OVERSIZE_PKTS"]),
    (ascii "SAI_PORT_STAT_ETHER_STATS_UNDERSIZE_PKTS",
      [[], ascii "SAI_PORT_STAT_ETHER_STATS_UNDERSIZE_PKTS"]),
    (ascii "SAI_PORT_STAT_ETHER_STATS_JABBERS", [[], ascii "SAI_PORT_STAT_ETHER_STATS_JABBERS"]),
    (ascii "SAI_PORT_STAT_ETHER_STATS_FRAGMENTS",
      [[], ascii "SAI_PORT_STAT_ETHER_STATS_FRAGMENTS"]),
    (ascii "SAI_PORT_STAT_IF_IN_FEC_NOT_CORRECTABLE_FRAMES",
      [[], ascii "SAI_PORT_STAT_IF_IN_FEC_NOT_CORRECTABLE_FRAMES"]),
    (ascii "SAI_PORT_STAT_IF_IN_FEC_SYMBOL_ERRORS",
      [[], ascii "SAI_PORT_STAT_IF_IN_FEC_SYMBOL_ERRORS"])]

/-- One round of the loop of `get_gbcounter`: a counter of one side, under this name. -/
def addSide (gbcountersDB : Keyspace) (r : Nat) (id name : Bytes) : Lua.M Nat :=
  if id = [] then pure r
  else do
    match (← Lua.call gbcountersDB name)[id]? with
    | none => pure r
    | some num => pure (add r (← Lua.number num))

def getGbcounter (gbcountersDB : Keyspace) (names : List Bytes) (counterId : Bytes) : Lua.M Nat :=
  match gbCounterList.lookup counterId with
  | none => pure 0
  | some counter =>
    (counter.zip names).foldlM (fun r side => addSide gbcountersDB r side.1 side.2) 0

/-- A counter of the ASIC with what the sides have counted, as a text. -/
def unionCounter (t : CounterTable) (names : List Bytes) (field counter : Bytes) : Lua.M Bytes := do
  let r ← getGbcounter t.gbcountersDB names field
  pure (Lua.tostring (add (← Lua.number counter) r))

inductive Operator where
  | HGET (field : Bytes)
  | HGETALL

/-- `portcounter.lua`. -/
def portcounter (server : RedisServer) (t : CounterTable) (base : TableBase) (KEYS : List Bytes)
    (operator : Operator) : Lua.M RedisReply :=
  match KEYS with
  | asic :: systemside :: lineside :: _ =>
    let union := unionCounter t [base.mainName systemside, base.mainName lineside]
    match operator with
    | .HGET field => do
      match (← Lua.call t.countersDB (base.mainName asic))[field]? with
      | none => pure .nil
      | some counter => pure (.string (← union field counter))
    | .HGETALL => do
      let counterList := server.fields (← Lua.call t.countersDB (base.mainName asic))
      let sums ← counterList.mapM fun fv => do pure (fv.1, ← union fv.1 fv.2)
      pure (.array (sums.flatMap fun fv => [.string fv.1, .string fv.2]))
  | _ => pure .nil

def usingLuaTable (server : RedisServer) (mode : Mode) (t : CounterTable) (name : Bytes) :
    Except Failure Bool :=
  if mode ≠ .UNION then pure false
  else do
    let oid ← query t.gbcountersDB
      (hget server COUNTERS_PORT_NAME_MAP (name ++ ascii "_line"))
    pure oid.isSome

end PortCounter

def Counter.usingLuaTable (server : RedisServer) (t : CounterTable) (name : Bytes) :
    Counter → Except Failure Bool
  | port mode => PortCounter.usingLuaTable server mode t name
  | macsec => pure false

/-! ## The tables -/

inductive CounterError where
  | connector (e : Failure)
  | script (e : LuaError)
  | table (e : Table.TableError)
  | unexpectedReply
  deriving DecidableEq

namespace LuaTable

variable (server : RedisServer) (t : CounterTable) (base : TableBase) (luaKeys : List Bytes)

/-- What `get` makes of the reply. -/
def readAll (values : List FieldValueTuple) :
    RedisReply → Except CounterError (Bool × List FieldValueTuple)
  | .array [] => pure (false, values)
  | .array element =>
    if element.length % 2 = 1 then throw .unexpectedReply
    else pure (true, pairs element)
  | _ => throw .unexpectedReply

/-- The result, and what `values` is afterwards. -/
def get (values : List FieldValueTuple) : Except CounterError (Bool × List FieldValueTuple) :=
  if luaKeys = [] then pure (false, [])
  else do
    readAll values (← (portcounter server t base luaKeys .HGETALL).mapError .script)

/-- The result, and what `value` is afterwards. -/
def hget (field : Bytes) : Except CounterError (Bool × Bytes) :=
  if luaKeys = [] ∨ field = [] then pure (false, [])
  else do
    match ← (portcounter server t base luaKeys (.HGET field)).mapError .script with
    | .nil => pure (false, [])
    | .string str => pure (true, cStr str)
    | _ => throw .unexpectedReply

end LuaTable

namespace CounterTable

variable (server : RedisServer) (caches : KeyCaches) (base gbBase : TableBase) (t : CounterTable)
  (counter : Counter) (name : Bytes)

def get (values : List FieldValueTuple) : Except CounterError (Bool × List FieldValueTuple) := do
  if ← (counter.usingLuaTable server t name).mapError .connector then
    let luaKeys ← (counter.getLuaKeys server caches t name).mapError .connector
    LuaTable.get server t base luaKeys values
  else
    let keyPair ← (counter.getKey server caches t name).mapError .connector
    if keyPair.2 = [] then pure (false, [])
    else
      let found ← (if keyPair.1 = GB_COUNTERS_DB then
          Table.get server gbBase t.gbcountersDB keyPair.2
        else Table.get server base t.countersDB keyPair.2).mapError .table
      pure (found.isSome, found.getD [])

def hget (field : Bytes) : Except CounterError (Bool × Bytes) := do
  if ← (counter.usingLuaTable server t name).mapError .connector then
    let luaKeys ← (counter.getLuaKeys server caches t name).mapError .connector
    LuaTable.hget server t base luaKeys field
  else
    let keyPair ← (counter.getKey server caches t name).mapError .connector
    if keyPair.2 = [] then pure (false, [])
    else
      let found ← (if keyPair.1 = GB_COUNTERS_DB then
          Table.hget gbBase t.gbcountersDB keyPair.2 field
        else Table.hget base t.countersDB keyPair.2 field).mapError .table
      pure (found.isSome, found.getD [])

/-! ## Ports with a gearbox -/

def counted (counter : Option Bytes) : Nat :=
  (counter.bind parseDecimal).getD 0

structure Objects where
  asic : Hash
  systemside : Hash
  lineside : Hash

def Objects.gearbox (o : Objects) (field : Bytes) : Nat :=
  ((((gbCounterList.lookup field).getD []).zip [o.systemside, o.lineside]).map
    fun side => if side.1 = [] then 0 else counted side.2[side.1]?).sum

def Objects.total (o : Objects) (field : Bytes) : Nat :=
  counted o.asic[field]? + o.gearbox field

/-- A counter is a numeral below `2 ^ 62`. -/
def Numerals (h : Hash) : Prop :=
  ∀ (f v : Bytes), h[f]? = some v → ∃ n, parseDecimal v = some n ∧ n < 2 ^ 62

structure HasObjects (o : Objects) : Prop where
  usesLua : usingLuaTable server .UNION t name = .ok true
  found : ∃ asic systemside lineside,
    getLuaKeys server caches.port .UNION t name = .ok [asic, systemside, lineside] ∧
    t.countersDB.hashAt (base.mainName asic) = some o.asic ∧
    t.gbcountersDB.hashAt (base.mainName systemside) = some o.systemside ∧
    t.gbcountersDB.hashAt (base.mainName lineside) = some o.lineside
  asic : Numerals o.asic
  systemside : Numerals o.systemside
  lineside : Numerals o.lineside

/-- `get` and `hget` find the sum of every counter of the ASIC in full, and a `get` that finds
    nothing leaves nothing in `values`. -/
def ExactUnion (o : Objects) (values : List FieldValueTuple) : Prop :=
  ∃ found after, get server caches base gbBase t (.port .UNION) name values = .ok (found, after) ∧
    (∀ field ∈ o.asic, (∀ sum, (field, sum) ∈ after ↔ sum = decimal (o.total field)) ∧
      hget server caches base gbBase t (.port .UNION) name field =
        .ok (true, decimal (o.total field))) ∧
    (found = false → after = [])

variable {server caches base gbBase t name}

theorem hashAt_of_mem {db : Keyspace} {oid} (mapped : (ports db)[name]? = some oid) :
    db.hashAt COUNTERS_PORT_NAME_MAP = some (ports db) := by
  unfold ports nameMap at *
  cases names : db.hashAt COUNTERS_PORT_NAME_MAP with
  | none =>
    rw [names] at mapped
    cases mapped
  | some h => rfl

/-- A port has its objects if the name maps have ids for it and for both sides, with these counters,
    and the cache is disabled, or fresh and transparent. -/
theorem hasObjects_of_names {o : Objects} {asic systemside lineside : Bytes} (plain : 0 ∉ name)
    (cache : caches.port.enabled = false ∨
      caches.port.Fresh (cachingKey server t) ∧ LuaAgrees server t name)
    (asicNamed : (ports t.countersDB)[name]? = some asic)
    (systemNamed : (ports t.gbcountersDB)[name ++ ascii "_system"]? = some systemside)
    (lineNamed : (ports t.gbcountersDB)[name ++ ascii "_line"]? = some lineside)
    (asicStored : t.countersDB.hashAt (base.mainName (cStr asic)) = some o.asic)
    (systemStored : t.gbcountersDB.hashAt (base.mainName (cStr systemside)) = some o.systemside)
    (lineStored : t.gbcountersDB.hashAt (base.mainName (cStr lineside)) = some o.lineside)
    (numerals : Numerals o.asic ∧ Numerals o.systemside ∧ Numerals o.lineside) :
    HasObjects server caches base t name o := by
  have counted := hashAt_of_mem asicNamed
  have geared := hashAt_of_mem lineNamed
  have system : asked (ports t.gbcountersDB) (name ++ ascii "_system") = some (cStr systemside) :=
    (asked_eq (portName_nulFree plain .SYSTEMSIDE) _).trans (congrArg (·.map cStr) systemNamed)
  have line : asked (ports t.gbcountersDB) (name ++ ascii "_line") = some (cStr lineside) :=
    (asked_eq (portName_nulFree plain .LINESIDE) _).trans (congrArg (·.map cStr) lineNamed)
  have off : ∀ {off : KeyCache Bytes}, off.enabled = false → getLuaKeys server off .UNION t name =
      .ok [cStr asic, cStr systemside, cStr lineside] := by
    intro off disabled
    rw [getLuaKeys_off counted geared disabled, system, line, asked_eq plain, asicNamed]
    rfl
  have keys : getLuaKeys server caches.port .UNION t name =
      .ok [cStr asic, cStr systemside, cStr lineside] := by
    cases cache with
    | inl disabled => exact off disabled
    | inr transparent =>
      have disabled : (⟨∅, false⟩ : KeyCache Bytes).enabled = false := rfl
      have same := getLuaKeys_same_iff transparent.1 disabled .UNION name
      exact (same.mpr fun _ => transparent.2).trans (off rfl)
  refine ⟨?_, ⟨_, _, _, keys, asicStored, systemStored, lineStored⟩, numerals.1, numerals.2.1,
    numerals.2.2⟩
  unfold usingLuaTable
  rw [if_neg (by decide), query_hget geared, line]
  rfl

theorem counted_eq {v n} (numeral : parseDecimal v = some n) :
    counted (some v) = n := by
  simp [counted, numeral]

variable {h : Hash} {ks : Keyspace}

theorem addSide_tracks {side r n} (id : Bytes) (stored : ks.hashAt side = some h)
    (numerals : Numerals h) (tracks : Tracks r n) :
    ∃ x, addSide ks r id side = .ok x ∧
      Tracks x (n + if id = [] then 0 else counted h[id]?) := by
  unfold addSide Lua.call
  split
  · exact ⟨r, rfl, tracks⟩
  · rw [stored]
    cases counter : h[id]? with
    | none => exact ⟨r, by simp [bind, Except.bind, counter, pure, Except.pure], tracks⟩
    | some num =>
      obtain ⟨m, numeral, -⟩ := numerals id num counter
      refine ⟨add r (round m), ?_, ?_⟩
      · simp [bind, Except.bind, counter, Lua.number, numeral, pure, Except.pure]
      · rw [counted_eq numeral]
        exact tracks.add (tracks_round m)

theorem sides_tracks {sides hs}
    (stored : List.Forall₂ (fun side h => ks.hashAt side = some h ∧ Numerals h) sides hs)
    (counter : List Bytes) {r n} (tracks : Tracks r n) :
    ∃ x, (counter.zip sides).foldlM (fun r side => addSide ks r side.1 side.2) r = .ok x ∧
      Tracks x (n + ((counter.zip hs).map
        fun side => if side.1 = [] then 0 else counted side.2[side.1]?).sum) := by
  induction stored generalizing counter r n with
  | nil => exact ⟨r, by simp [pure, Except.pure], by simpa using tracks⟩
  | cons here _ ih =>
    cases counter with
    | nil => exact ⟨r, rfl, by simpa using tracks⟩
    | cons id counter =>
      obtain ⟨y, added, next⟩ := addSide_tracks id here.1 here.2 tracks
      obtain ⟨x, rest, tracks⟩ := ih counter next
      refine ⟨x, ?_, ?_⟩
      · rw [zip_cons_cons, foldlM_cons, added]
        exact rest
      · rwa [zip_cons_cons, map_cons, sum_cons, ← Nat.add_assoc]

section

variable {o : Objects} {systemside lineside : Bytes}

theorem unionCounter_tracks (asic : Numerals o.asic)
    (systemStored : t.gbcountersDB.hashAt systemside = some o.systemside)
    (lineStored : t.gbcountersDB.hashAt lineside = some o.lineside)
    (system : Numerals o.systemside) (line : Numerals o.lineside) {field counter}
    (stored : o.asic[field]? = some counter) :
    ∃ x, unionCounter t [systemside, lineside] field counter = .ok (Lua.tostring x) ∧
      Tracks x (o.total field) := by
  obtain ⟨n, numeral, -⟩ := asic field counter stored
  obtain ⟨r, added, tracks⟩ : ∃ r,
      getGbcounter t.gbcountersDB [systemside, lineside] field = .ok r ∧
      Tracks r (o.gearbox field) := by
    unfold getGbcounter Objects.gearbox
    cases gbCounterList.lookup field with
    | none => exact ⟨0, rfl, .inl rfl⟩
    | some ids =>
      obtain ⟨r, added, tracks⟩ := sides_tracks
        (.cons ⟨systemStored, system⟩ (.cons ⟨lineStored, line⟩ .nil)) ids (.inl rfl)
      exact ⟨r, added, by simpa using tracks⟩
  refine ⟨add (round n) r, ?_, ?_⟩
  · simp [unionCounter, added, Lua.number, numeral, bind, Except.bind, pure, Except.pure]
  · rw [Objects.total, stored, counted_eq numeral]
    exact (tracks_round n).add tracks

end

theorem ok_bind {α β ε : Type} (a : α) (f : α → Except ε β) : Except.ok a >>= f = f a := rfl

theorem call_ok {key} (stored : ks.hashAt key = some h) : Lua.call ks key = .ok h := by
  rw [Lua.call, stored]

theorem readAll_pairs (fvs values : List FieldValueTuple) :
    LuaTable.readAll values (.array (fvs.flatMap fun fv => [.string fv.1, .string fv.2])) =
      .ok (if fvs = [] then (false, values)
        else (true, fvs.map fun fv => (cStr fv.1, cStr fv.2))) := by
  have length : (fvs.flatMap fun fv => [RedisReply.string fv.1, .string fv.2]).length =
      fvs.length * 2 := by
    simp [map_const']
  cases fvs with
  | nil => rfl
  | cons fv fvs =>
    rw [← pairs_flatMap]
    exact if_neg (by omega)

theorem luaTable_get (server : RedisServer) {asic systemside lineside} {sum : Bytes → Bytes}
    (stored : t.countersDB.hashAt (base.mainName asic) = some h)
    (sums : ∀ f v, h[f]? = some v →
      unionCounter t [base.mainName systemside, base.mainName lineside] f v =
        .ok (sum f)) (values : List FieldValueTuple) :
    LuaTable.get server t base [asic, systemside, lineside] values =
      .ok (if h = ∅ then (false, values)
        else (true, (server.fields h).map fun fv => (cStr fv.1, cStr (sum fv.1)))) := by
  have added : (server.fields h).mapM (fun fv => do
      pure (fv.1, ← unionCounter t [base.mainName systemside, base.mainName lineside]
        fv.1 fv.2)) = Except.ok ((server.fields h).map fun fv => (fv.1, sum fv.1)) := by
    apply Throwing.mapM_ok
    intro fv member
    rw [sums fv.1 fv.2 (server.mem_fields.mp member)]
    rfl
  have reply : portcounter server t base [asic, systemside, lineside] .HGETALL =
      .ok (.array (((server.fields h).map fun fv => (fv.1, sum fv.1)).flatMap
        fun fv => [.string fv.1, .string fv.2])) := by
    unfold portcounter
    dsimp only
    rw [call_ok stored, ok_bind, added]
    rfl
  unfold LuaTable.get
  rw [reply]
  refine (readAll_pairs _ values).trans ?_
  simp only [map_eq_nil_iff, server.fields_eq_nil_iff, map_map]
  rfl

theorem luaTable_hget {asic systemside lineside field counter sum}
    (stored : t.countersDB.hashAt (base.mainName asic) = some h)
    (present : h[field]? = some counter)
    (added : unionCounter t [base.mainName systemside, base.mainName lineside] field
      counter = .ok sum) :
    LuaTable.hget server t base [asic, systemside, lineside] field =
      .ok (if field = [] then (false, []) else (true, cStr sum)) := by
  have reply : portcounter server t base [asic, systemside, lineside] (.HGET field) =
      .ok (.string sum) := by
    unfold portcounter
    dsimp only
    rw [call_ok stored, ok_bind, present]
    dsimp only
    rw [added]
    rfl
  unfold LuaTable.hget
  by_cases named : field = []
  · rw [if_pos (.inr named), if_pos named]
    rfl
  · rw [if_neg (by simp [named]), if_neg named, reply]
    rfl

theorem union_eq {o} (port : HasObjects server caches base t name o)
    (gbBase : TableBase) :
    ∃ sum : Bytes → Nat, (∀ field ∈ o.asic, Tracks (sum field) (o.total field)) ∧
      (∀ values, get server caches base gbBase t (.port .UNION) name values =
        .ok (if o.asic = ∅ then (false, values)
          else (true, (server.fields o.asic).map fun fv => (cStr fv.1, Lua.tostring (sum fv.1))))) ∧
      ∀ field ∈ o.asic, hget server caches base gbBase t (.port .UNION) name field =
        .ok (if field = [] then (false, []) else (true, Lua.tostring (sum field))) := by
  obtain ⟨asic, systemside, lineside, keys, asicStored, systemStored, lineStored⟩ := port.found
  have uses : Counter.usingLuaTable server t name (.port .UNION) = .ok true := port.usesLua
  have luaKeys : Counter.getLuaKeys server caches t name (.port .UNION) =
    .ok [asic, systemside, lineside] := keys
  have tracked : ∀ field, ∃ x, ∀ counter, o.asic[field]? = some counter →
      PortCounter.unionCounter t [base.mainName systemside, base.mainName lineside] field counter =
        .ok (Lua.tostring x) ∧ Tracks x (o.total field) := by
    intro field
    cases stored : o.asic[field]? with
    | none => exact ⟨0, fun counter found => by cases found⟩
    | some counter =>
      obtain ⟨x, printed, tracks⟩ := unionCounter_tracks port.asic systemStored lineStored
        port.systemside port.lineside stored
      exact ⟨x, fun other found => by cases found; exact ⟨printed, tracks⟩⟩
  choose sum spec using tracked
  have whole : ∀ field, cStr (Lua.tostring (sum field)) = Lua.tostring (sum field) :=
    fun field => cStr_of_nulFree (nul_notMem_printG 14 (sum field))
  refine ⟨sum, fun field member => ?_, fun values => ?_, fun field member => ?_⟩
  · obtain ⟨counter, stored⟩ := Option.ne_none_iff_exists'.mp (mem_iff_getElem?_ne_none.mp member)
    exact (spec field counter stored).2
  · have table := luaTable_get server asicStored (fun f v stored => (spec f v stored).1) values
    simp only [whole] at table
    unfold get
    rw [uses]
    rw [luaKeys]
    exact table
  · obtain ⟨counter, stored⟩ := Option.ne_none_iff_exists'.mp (mem_iff_getElem?_ne_none.mp member)
    unfold hget
    rw [uses]
    rw [luaKeys]
    refine (luaTable_hget asicStored stored (spec field counter stored).1).trans ?_
    rw [whole]

theorem mem_listed (server : RedisServer) {g : Bytes → Bytes} {field s}
    (whole : ∀ f ∈ h, 0 ∉ f) (member : field ∈ h) :
    (field, s) ∈ (server.fields h).map (fun fv => (cStr fv.1, g fv.1)) ↔ s = g field := by
  rw [mem_map]
  constructor
  · rintro ⟨⟨f, v⟩, stored, same⟩
    obtain ⟨name, rfl⟩ := Prod.mk.inj same
    have there : f ∈ h := by
      rw [mem_iff_getElem?_ne_none, server.mem_fields.mp stored]
      exact Option.some_ne_none v
    rw [← name, cStr_of_nulFree (whole f there)]
  · rintro rfl
    obtain ⟨v, stored⟩ := Option.ne_none_iff_exists'.mp (mem_iff_getElem?_ne_none.mp member)
    refine ⟨(field, v), server.mem_fields.mpr stored, ?_⟩
    rw [cStr_of_nulFree (whole field member)]

/-- Counters that are returned in full under their own names, and a result that nothing else
    is in. -/
structure Printable (o : Objects) (values : List FieldValueTuple) : Prop where
  small : ∀ field ∈ o.asic, o.total field < 10 ^ 14
  named : ∀ field ∈ o.asic, field ≠ [] ∧ (0 : UInt8) ∉ field
  cleared : o.asic = ∅ → values = []

theorem exactUnion_iff {o : Objects} (port : HasObjects server caches base t name o)
    (values : List FieldValueTuple) :
    ExactUnion server caches base gbBase t name o values ↔ Printable o values := by
  obtain ⟨sum, tracks, getAll, getOne⟩ := union_eq port gbBase
  have printed : ∀ field ∈ o.asic,
      (Lua.tostring (sum field) = decimal (o.total field) ↔ o.total field < 10 ^ 14) :=
    fun field member => (tracks field member).printG_eq_iff (by decide)
  by_cases none : o.asic = ∅
  · have nobody : ∀ field, field ∉ o.asic := by simp [none]
    constructor
    · rintro ⟨found, after, got, fields, empty⟩
      rw [getAll, if_pos none] at got
      cases got
      exact {
        small := fun field member => absurd member (nobody field)
        named := fun field member => absurd member (nobody field)
        cleared := fun _ => empty rfl }
    · intro printable
      refine ⟨false, values, ?_, fun field member => absurd member (nobody field), ?_⟩
      · rw [getAll, if_pos none]
      · exact fun _ => printable.cleared none
  · constructor
    · rintro ⟨found, after, got, fields, empty⟩
      rw [getAll, if_neg none] at got
      cases got
      have one : ∀ field ∈ o.asic, field ≠ [] ∧ o.total field < 10 ^ 14 := by
        intro field member
        have returned := (getOne field member).symm.trans (fields field member).2
        by_cases named : field = []
        · rw [if_pos named] at returned
          cases returned
        · rw [if_neg named] at returned
          exact ⟨named, (printed field member).mp (Prod.mk.inj (Except.ok.inj returned)).2⟩
      exact {
        small := fun field member => (one field member).2
        named := fun field member => by
          have listed := ((fields field member).1 _).mpr rfl
          obtain ⟨fv, -, same⟩ := mem_map.mp listed
          rw [← (Prod.mk.inj same).1]
          exact ⟨by rw [(Prod.mk.inj same).1]; exact (one field member).1, nul_notMem_cStr fv.1⟩
        cleared := fun empty => absurd empty none }
    · intro printable
      refine ⟨true, _, by rw [getAll, if_neg none], fun field member => ⟨fun s => ?_, ?_⟩, ?_⟩
      · rw [← (printed field member).mpr (printable.small field member)]
        exact mem_listed server (g := fun f => Lua.tostring (sum f))
          (fun f member => (printable.named f member).2) member
      · rw [getOne field member, if_neg (printable.named field member).1,
          (printed field member).mpr (printable.small field member)]
      · intro found
        cases found

private def disabledCaches : KeyCaches := ⟨⟨∅, false⟩, ⟨∅, false⟩⟩

private def countersBase : TableBase := ⟨ascii "COUNTERS", .colon⟩

private def octets : Bytes := ascii "SAI_PORT_STAT_IF_IN_OCTETS"

private def errors : Bytes := ascii "SAI_PORT_STAT_IF_IN_ERRORS"

private def ethernet0 (asic : List FieldValueTuple) : Objects where
  asic := Hash.ofFields asic
  systemside := Hash.ofFields [(ascii "SAI_PORT_STAT_IF_OUT_ERRORS", ascii "3")]
  lineside := Hash.ofFields [(errors, ascii "4")]

private def ethernet0Names : Hash := Hash.ofFields [(ascii "Ethernet0", ascii "oid:0x1")]

private def ethernet0Sides : Hash :=
  Hash.ofFields [(ascii "Ethernet0_system", ascii "oid:0x2"),
    (ascii "Ethernet0_line", ascii "oid:0x3")]

private def ethernet0Table (asic : List FieldValueTuple) : CounterTable where
  countersDB := ((∅ : Keyspace).write COUNTERS_PORT_NAME_MAP (Value.ofHash ethernet0Names)).write
    (countersBase.mainName (ascii "oid:0x1")) (Value.ofHash (ethernet0 asic).asic)
  gbcountersDB := (((∅ : Keyspace).write COUNTERS_PORT_NAME_MAP (Value.ofHash ethernet0Sides)).write
    (countersBase.mainName (ascii "oid:0x2")) (Value.ofHash (ethernet0 asic).systemside)).write
    (countersBase.mainName (ascii "oid:0x3")) (Value.ofHash (ethernet0 asic).lineside)

private def healthy : List FieldValueTuple :=
  [(errors, ascii "5"), (octets, ascii "99999999999999")]

/-- Errors on both sides of the gearbox, and a counter of fourteen digits. -/
theorem exactUnion_iff_errors :
    HasObjects .sorted disabledCaches countersBase (ethernet0Table healthy) (ascii "Ethernet0")
      (ethernet0 healthy) ∧
    ExactUnion .sorted disabledCaches countersBase countersBase (ethernet0Table healthy)
      (ascii "Ethernet0") (ethernet0 healthy) [] := by
  have port : HasObjects .sorted disabledCaches countersBase (ethernet0Table healthy)
      (ascii "Ethernet0") (ethernet0 healthy) :=
    hasObjects_of_names (by decide) (.inl rfl) rfl rfl rfl rfl rfl rfl
      ⟨forall_entries (by decide), forall_entries (by decide), forall_entries (by decide)⟩
  exact ⟨port, (exactUnion_iff port []).mpr {
    small := forall_mem (by decide +kernel)
    named := forall_mem (by decide)
    cleared := fun _ => rfl }⟩

private def busy : List FieldValueTuple := [(octets, ascii "100000000000000")]

/-- A counter of fifteen digits, and a port that the ASIC has no counters of yet. -/
theorem exactUnion_scientific :
    (HasObjects .sorted disabledCaches countersBase (ethernet0Table busy) (ascii "Ethernet0")
      (ethernet0 busy) ∧
    (ethernet0 busy).total octets = 100000000000000 ∧
    get .sorted disabledCaches countersBase countersBase (ethernet0Table busy) (.port .UNION)
      (ascii "Ethernet0") [] = .ok (true, [(octets, ascii "1e+14")]) ∧
    hget .sorted disabledCaches countersBase countersBase (ethernet0Table busy) (.port .UNION)
      (ascii "Ethernet0") octets = .ok (true, ascii "1e+14") ∧
    ¬ ExactUnion .sorted disabledCaches countersBase countersBase (ethernet0Table busy)
      (ascii "Ethernet0") (ethernet0 busy) []) ∧
    HasObjects .sorted disabledCaches countersBase (ethernet0Table []) (ascii "Ethernet0")
      (ethernet0 []) ∧
    get .sorted disabledCaches countersBase countersBase (ethernet0Table []) (.port .UNION)
      (ascii "Ethernet0") [(octets, ascii "7")] = .ok (false, [(octets, ascii "7")]) ∧
    ¬ ExactUnion .sorted disabledCaches countersBase countersBase (ethernet0Table [])
      (ascii "Ethernet0") (ethernet0 []) [(octets, ascii "7")] := by
  have sides : Numerals (ethernet0 []).systemside ∧ Numerals (ethernet0 []).lineside :=
    ⟨forall_entries (by decide), forall_entries (by decide)⟩
  have full : HasObjects .sorted disabledCaches countersBase (ethernet0Table busy)
      (ascii "Ethernet0") (ethernet0 busy) :=
    hasObjects_of_names (by decide) (.inl rfl) rfl rfl rfl rfl rfl rfl
      ⟨forall_entries (by decide), sides⟩
  have none : HasObjects .sorted disabledCaches countersBase (ethernet0Table [])
      (ascii "Ethernet0") (ethernet0 []) :=
    hasObjects_of_names (by decide) (.inl rfl) rfl rfl rfl rfl rfl rfl
      ⟨forall_entries (by decide), sides⟩
  have sum : hget .sorted disabledCaches countersBase countersBase (ethernet0Table busy)
      (.port .UNION) (ascii "Ethernet0") octets = .ok (true, ascii "1e+14") := by
    decide +kernel
  have total : (ethernet0 busy).total octets = 100000000000000 := by decide +kernel
  refine ⟨⟨full, total, by decide +kernel, sum, ?_⟩, none, rfl, ?_⟩
  · rintro ⟨found, after, -, exact, -⟩
    have listed : octets ∈ (ethernet0 busy).asic := Hash.mem_ofFields.mpr (by decide)
    have returned := sum.symm.trans (exact octets listed).2
    rw [total] at returned
    exact absurd returned (by decide +kernel)
  · rintro ⟨found, after, got, -, empty⟩
    cases got
    exact absurd (empty rfl) (by decide)

end CounterTable

end SwssCommon
