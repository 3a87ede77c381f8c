import Mathlib.Data.Prod.Lex
import SwssCommon.ConfigDb.ListenReads
import SwssCommon.Subscriber.Convergence

/-! # A listener follows its tables

Once the events that are on their way have been taken, the handler of an entry has the data of the
database: the last event tells whether the entry is there, and a handler that is not called has the
data of the cache.
-/

namespace SwssCommon.TypedConfig

open Bytes Redis Throwing ChangeFeed List Dict
open SetEntry (readFields)
open SubscriberStateTable (notice executes_announced)

/-! ## Handlers -/

section Handlers

variable {table : Bytes} {key : PyKey} {calls : List Call} {initData : InitData}

theorem built_call (table : Bytes) (calls : List Call) (call : Call) (key : PyKey) :
    built table (calls ++ [call]) key =
      if table = call.table ∧ key = call.key then call.data else built table calls key := by
  by_cases here : call.table = table
  · simp [here, Function.update_apply, built]
  · simp [here, Ne.symm here, built]

def cached (initData : InitData) (table : Bytes) (key : PyKey) : Option TypedData :=
  (initData.get? table).bind (·.get? key)

theorem built_loadData (table : Bytes) (initData : InitData) (key : PyKey) :
    built table (loadData initData) key = cached initData table key := by
  have rows (m : PyKey → Option TypedData) (data : Dict PyKey TypedData) :
      data.items.foldl (fun (m : PyKey → Option TypedData) x => Function.update m x.1 (some x.2)) m
        key = (data.get? key).elim (m key) some :=
    foldl_items_at (fun m => m key) (fun x _ => some x) (fun m j x other => by
      simp [other.symm]) (fun m x => by simp) data m
  rw [built, loadData, foldl_flatMap]
  simp only [foldl_map]
  refine (foldl_items_at (k := table) (fun (m : PyKey → Option TypedData) => m key)
    (fun data old => (data.get? key).elim old some) (fun m j data other => by simp [other])
    (fun m data => by simp [rows]) initData _).trans ?_
  unfold cached
  cases initData.get? table with
  | none => rfl
  | some data => cases found : data.get? key <;> simp [found]

theorem cached_set (initData : InitData) (table : Bytes) (rows : Dict PyKey TypedData)
    (table' : Bytes) (key : PyKey) :
    cached (initData.set table rows) table' key =
      if table' = table then rows.get? key else cached initData table' key := by
  rw [cached, get?_set]
  split <;> rfl

theorem cached_take {rows} (found : initData.get? table = some rows)
    (key : PyKey) (table' : Bytes) (key' : PyKey) :
    cached (initData.take table rows key) table' key' =
      if table' = table ∧ key' = key then none else cached initData table' key' := by
  have taken : cached (initData.take table rows key) table' key' =
      if table' = table then (rows.erase key).get? key' else cached initData table' key' := by
    unfold InitData.take
    split
    · rename_i empty
      have gone : (rows.erase key).get? key' = none := by
        rw [get?, empty]
        rfl
      rw [cached, get?_erase, gone]
      split <;> rfl
    · exact cached_set initData table _ table' key'
  rw [taken]
  by_cases here : table' = table
  · subst here
    simp [cached, found]
  · simp [here]

theorem cached_fire (initData : InitData) (table : Bytes) (key : PyKey) (data : Option TypedData)
    (table' : Bytes) (key' : PyKey) : cached (fire initData table key data).1 table' key' =
      if table' = table ∧ key' = key then none else cached initData table' key' := by
  have missing (absent : cached initData table key = none) : cached initData table' key' =
      if table' = table ∧ key' = key then none else cached initData table' key' := by
    split
    · rename_i same
      rw [same.1, same.2, absent]
    · rfl
  unfold fire
  cases found : initData.get? table with
  | none => exact missing (by rw [cached, found]; rfl)
  | some rows =>
    cases stored : rows.get? key with
    | none => simpa only [stored] using missing (by rw [cached, found]; exact stored)
    | some d => simpa only [stored] using cached_take found key table' key'

theorem fire_calls (initData : InitData) (table : Bytes) (key : PyKey) (data : Option TypedData) :
    (fire initData table key data).2 = [⟨table, key, data⟩] ∨
      (fire initData table key data).2 = [] ∧
        ∃ d, cached initData table key = some d ∧ some d.get? = data.map get? := by
  unfold fire
  cases found : initData.get? table with
  | none => exact .inl rfl
  | some rows =>
    cases stored : rows.get? key with
    | none => exact .inl (by simp only [stored])
    | some d =>
      simp only [stored]
      cases data with
      | none => exact .inl rfl
      | some data =>
        by_cases same : d.Same data
        · refine .inr ⟨by simp [cacheHit, same], d, ?_, congrArg some (funext same)⟩
          rw [cached, found]
          exact stored
        · exact .inl (by simp [cacheHit, same])

def Given (initData : InitData) (calls : List Call) : Prop :=
  ∀ table key d, cached initData table key = some d → built table calls key = some d

theorem fire_spec (given : Given initData calls) (table : Bytes) (key : PyKey)
    (data : Option TypedData) :
    Given (fire initData table key data).1 (calls ++ (fire initData table key data).2) ∧
      (built table (calls ++ (fire initData table key data).2) key).map get? =
        data.map get? ∧
      ∀ table' key', ¬ (table' = table ∧ key' = key) →
        built table' (calls ++ (fire initData table key data).2) key' =
          built table' calls key' := by
  have elsewhere (table' : Bytes) (key' : PyKey) (other : ¬ (table' = table ∧ key' = key)) :
      built table' (calls ++ (fire initData table key data).2) key' = built table' calls key' := by
    rcases fire_calls initData table key data with called | ⟨quiet, -⟩
    · rw [called, built_call, if_neg other]
    · rw [quiet, append_nil]
  refine ⟨fun table' key' d kept => ?_, ?_, elsewhere⟩
  · rw [cached_fire] at kept
    split at kept
    · exact nomatch kept
    · rename_i other
      rw [elsewhere table' key' other, given table' key' d kept]
  · rcases fire_calls initData table key data with called | ⟨quiet, d, stored, same⟩
    · rw [called, built_call, if_pos ⟨rfl, rfl⟩]
    · rw [quiet, append_nil, given table key d stored]
      exact same

end Handlers

/-! ## Along a run -/

inductive Held where
  | later
  /-- The key has been listed, but not yet read. -/
  | listed
  | data (d : Option TypedData)

def held (c : UInt8) (sys : System) (table row : Bytes) : Held :=
  match sys.phase with
  | .unsubscribed => .later
  | .reading todo initData =>
    if table ∈ todo then .later else .data (cached initData table (keyOf c row))
  | .fetching current keys data todo initData =>
    if table = current then
      if entryName c table row ∈ keys then .listed else .data (rowOf c data (keyOf c row))
    else if table ∈ todo then .later else .data (cached initData table (keyOf c row))
  | .looping _ => .data (built table sys.calls (keyOf c row))

def view (L : Listener) (h : Hash) : Option (Bytes → Option Typed) :=
  if h = ∅ then none else some (entryData L h).get?

/-- The listener has the data of the entry, or will read them. -/
def Agrees (L : Listener) (h : Hash) : Held → Prop
  | .later => True
  | .listed => h ≠ ∅
  | .data d => d.map get? = view L h

def pending (c : UInt8) (notes : List (Bytes × Bytes)) (table row : Bytes) : List Change :=
  (notes.filter (·.1 = entryName c table row)).map (notice ·.2)

def Keyed (c : UInt8) (m : Bytes → PyKey → Option TypedData) : Prop :=
  ∀ table key d, m table key = some d → ∃ row, key = keyOf c row

def Shape (L : Listener) (c : UInt8) (sys : System) : Prop :=
  match sys.phase with
  | .unsubscribed => sys.calls = []
  | .reading todo initData =>
    sys.calls = [] ∧ todo ⊆ L.handlers ∧ Keyed c (cached initData)
  | .fetching table keys _ todo initData =>
    sys.calls = [] ∧ table :: todo ⊆ L.handlers ∧ Keyed c (cached initData) ∧
      ∀ key ∈ keys, ∃ row, key = entryName c table row ∧ (0 : UInt8) ∉ row
  | .looping initData => Given initData sys.calls ∧ Keyed c fun table => built table sys.calls

/-- A key of the tables that are listened to has one part, without a NUL. -/
def Legible (L : Listener) (c : UInt8) (name : Bytes) : Prop :=
  ∀ table ∈ L.handlers, ∀ row, name = entryName c table row → c ∉ row ∧ (0 : UInt8) ∉ row

def Settled (sys : System) : Prop :=
  (∃ initData, sys.phase = .looping initData) ∧ sys.unread = []

/-- The handler of a table has built what `get_table` returns. -/
def Follows (L : Listener) (sys : System) (table : Bytes) : Prop :=
  ∃ rows, getTable L.server L.separator table sys.database = .ok (some rows) sys.database ∧
    ∀ key, (built table sys.calls key).map get? = (rows.get? key).map get?

def rank (L : Listener) (sys : System) : ℕ ×ₗ ℕ :=
  match sys.phase with
  | .unsubscribed => toLex (2 * L.handlers.length + 2, 0)
  | .reading todo _ => toLex (2 * todo.length + 1, 0)
  | .fetching _ keys _ todo _ => toLex (2 * todo.length + 2, keys.length)
  | .looping _ => toLex (0, sys.unread.length)

structure Tracks (L : Listener) (c : UInt8) (sys : System) (notes : List (Bytes × Bytes)) :
    Prop where
  tidy : Tidy L c sys.database
  unread : sys.unread = notes.map (eventMessage L)
  legible : ∀ note ∈ notes, Legible L c note.1 ∧ (0 : UInt8) ∉ note.2
  quiet : sys.phase = .unsubscribed → sys.patterns = [] ∧ notes = []
  listening : sys.phase ≠ .unsubscribed → sys.patterns = [L.pattern]
  shape : Shape L c sys
  due : ∀ table ∈ L.handlers, ∀ row, Due ∅ (entry c sys.database table row)
    (Agrees L (entry c sys.database table row) (held c sys table row)) (pending c notes table row)

section Notes

variable {c : UInt8} {note : Bytes × Bytes} {table row : Bytes}

theorem pending_cons_of_ne (other : note.1 ≠ entryName c table row) (notes : List (Bytes × Bytes)) :
    pending c (note :: notes) table row = pending c notes table row := by
  rw [pending, filter_cons_of_neg (by simpa using other)]
  rfl

theorem pending_cons_self (same : note.1 = entryName c table row) (notes : List (Bytes × Bytes)) :
    pending c (note :: notes) table row = notice note.2 :: pending c notes table row := by
  rw [pending, filter_cons_of_pos (by simpa using same)]
  rfl

theorem pending_append (c : UInt8) (notes more : List (Bytes × Bytes)) (table row : Bytes) :
    pending c (notes ++ more) table row =
      pending c notes table row ++ pending c more table row := by
  simp only [pending, filter_append, map_append]

theorem pending_events {name} (events : List Bytes) :
    pending c (events.map (name, ·)) table row =
      if name = entryName c table row then events.map notice else [] := by
  split <;> simp [pending, filter_map, *, Function.comp_def]

end Notes

theorem refresh_sound {command ks ks' events}
    (executed : Executes ks command ks' events) (heard : Heard ks command events)
    (refresh : events.map notice = [.refresh]) : ks'.hashAt command.name ≠ some ∅ := by
  cases executed with
  | @hset name fields h found filled =>
    rw [Command.name, ks.hashAt_write_ofHash]
    exact fun empty => Hash.mul_ofFields_ne_one filled h (Option.some.inj empty)
  | @hdel name fields h found kept =>
    rw [Command.name, ks.hashAt_write_ofHash]
    intro empty
    rw [kept (Option.some.inj empty)] at found
    exact nomatch heard name fields rfl found
  | hdelLast | del => exact absurd refresh (by decide)
  | hdelNothing | delNothing => exact nomatch refresh

namespace Tracks

variable {L : Listener} {c : UInt8} {sys sys' : System} {notes : List (Bytes × Bytes)}

theorem initially {ks : Keyspace} (tidy : Tidy L c ks) : Tracks L c (start ks) [] where
  tidy := tidy
  unread := rfl
  legible := by simp
  quiet _ := ⟨rfl, rfl⟩
  listening other := absurd rfl other
  shape := rfl
  due _ _ _ := trivial

section

variable (h : Tracks L c sys notes)
include h

theorem advance (database : sys'.database = sys.database) (unread : sys'.unread = sys.unread)
    (listening : sys'.patterns = [L.pattern]) (subscribed : sys'.phase ≠ .unsubscribed)
    (shape : Shape L c sys')
    (agrees : ∀ table ∈ L.handlers, ∀ row,
      Agrees L (entry c sys.database table row) (held c sys table row) →
        Agrees L (entry c sys.database table row) (held c sys' table row)) :
    Tracks L c sys' notes where
  tidy := database ▸ h.tidy
  unread := unread.trans h.unread
  legible := h.legible
  quiet new := absurd new subscribed
  listening _ := listening
  shape := shape
  due table inside row := by
    rw [database]
    exact (h.due table inside row).mono fun _ => agrees table inside row

theorem psubscribe (new : sys.phase = .unsubscribed) :
    Tracks L c { sys with patterns := [L.pattern], phase := .reading L.handlers .empty } notes := by
  have none := h.shape
  simp only [Shape, new] at none
  refine h.advance rfl rfl rfl nofun ⟨none, fun _ inside => inside, nofun⟩ ?_
  intro table inside row _
  simp [held, inside, Agrees]

variable {initData : InitData}

theorem load (read : sys.phase = .reading [] initData) :
    Tracks L c { sys with phase := .looping initData, calls := sys.calls ++ loadData initData }
      notes := by
  have shape := h.shape
  simp only [Shape, read] at shape
  obtain ⟨none, -, keyed⟩ := shape
  have loaded (table : Bytes) (key : PyKey) :
      built table (sys.calls ++ loadData initData) key = cached initData table key := by
    rw [none, nil_append, built_loadData]
  refine h.advance rfl rfl (h.listening (by simp [read])) nofun ⟨?_, ?_⟩ ?_
  · exact fun table key d found => (loaded table key).trans found
  · exact fun table key d found => keyed table key d ((loaded table key).symm.trans found)
  · intro table inside row before
    simpa [held, read, loaded] using before

variable (regular : Regular L c)
include regular

variable {todo : List Bytes}

theorem keys {table keys}
    (reading : sys.phase = .reading (table :: todo) initData)
    (listed : DBConnector.keys L.server (ConfigDBConnector.pattern L.separator table)
      sys.database = .ok keys sys.database) :
    Tracks L c { sys with phase := .fetching table keys ∅ todo initData } notes := by
  have shape := h.shape
  simp only [Shape, reading] at shape
  obtain ⟨none, inside, keyed⟩ := shape
  obtain ⟨_, listed', nulFree, present⟩ := keys_spec regular h.tidy (inside mem_cons_self)
  rw [listed] at listed'
  cases listed'
  refine h.advance rfl rfl (h.listening (by simp [reading])) nofun
    ⟨none, inside, keyed, nulFree⟩ ?_
  intro table' inside' row before
  simp only [held, reading] at before ⊢
  by_cases here : table' = table
  · subst here
    by_cases filled : entry c sys.database table' row = ∅
    · simp [present, filled, Agrees, rowOf_keyOf, view]
    · simp [present, filled, Agrees]
  · simpa [here] using before

theorem row {table key keys data data'}
    (fetching : sys.phase = .fetching table (key :: keys) data todo initData)
    (fetched : ConfigDBConnector.readRow L.server L.separator data key sys.database =
      .ok data' sys.database) :
    Tracks L c { sys with phase := .fetching table keys data' todo initData } notes := by
  have shape := h.shape
  simp only [Shape, fetching] at shape
  obtain ⟨none, inside, keyed, nulFree⟩ := shape
  have handled : table ∈ L.handlers := inside mem_cons_self
  obtain ⟨row, rfl, free⟩ := nulFree key mem_cons_self
  rw [readRow_entry regular h.tidy handled free] at fetched
  cases fetched
  refine h.advance rfl rfl (h.listening (by simp [fetching])) nofun
    ⟨none, inside, keyed, fun key member => nulFree key (mem_cons_of_mem _ member)⟩ ?_
  intro table' inside' row' before
  simp only [held, fetching] at before ⊢
  by_cases here : table' = table
  · subst here
    by_cases again : entryName c table' row' ∈ keys
    · simpa [again] using before
    · by_cases same : row' = row
      · subst same
        have filled : entry c sys.database table' row' ≠ ∅ := by simpa [Agrees] using before
        simp [again, Agrees, rowOf_keyOf, view, filled, entryData]
      · have apart := regular.separatorFree table' handled
        have other : entryName c table' row' ≠ entryName c table' row := fun equal =>
          same (entryName_injective apart apart equal).2
        simpa [other, rowOf_keyOf, Std.ExtTreeMap.getElem?_insert, Ne.symm same]
          using before
  · simpa [here] using before

theorem table {table data}
    {rows} (fetched : sys.phase = .fetching table [] data todo initData)
    (typed : typedTable L.separator data = some rows) :
    Tracks L c { sys with phase := .reading todo (initData.set table rows) } notes := by
  have shape := h.shape
  simp only [Shape, fetched] at shape
  obtain ⟨none, inside, keyed, -⟩ := shape
  obtain ⟨_, typed', rowAt⟩ := typedTable_eq regular data
  rw [typed] at typed'
  cases typed'
  refine h.advance rfl rfl (h.listening (by simp [fetched])) nofun
    ⟨none, fun _ member => inside (mem_cons_of_mem _ member), ?_⟩ ?_
  · intro table' key d found
    rw [cached_set] at found
    split at found
    · exact exists_of_rowOf ((rowAt key).symm.trans found)
    · exact keyed table' key d found
  · intro table' inside' row before
    simp only [held, fetched, cached_set] at before ⊢
    by_cases later : table' ∈ todo
    · simp [later, Agrees]
    · by_cases here : table' = table
      · subst here
        simpa [later, rowAt] using before
      · simpa [here] using before

end

variable {note : Bytes × Bytes}

theorem skip (h : Tracks L c sys (note :: notes))
    (foreign : ∀ table ∈ L.handlers, ∀ row, note.1 ≠ entryName c table row)
    (subscribed : sys.phase ≠ .unsubscribed) :
    Tracks L c { sys with unread := notes.map (eventMessage L) } notes where
  tidy := h.tidy
  unread := rfl
  legible other member := h.legible other (mem_cons_of_mem _ member)
  quiet new := absurd new subscribed
  listening := h.listening
  shape := h.shape
  due table inside row := by
    have before := h.due table inside row
    rw [pending_cons_of_ne (foreign table inside row)] at before
    exact before

variable {initData : InitData}

theorem take (h : Tracks L c sys (note :: notes)) (regular : Regular L c)
    (looping : sys.phase = .looping initData) {table row} (handled : table ∈ L.handlers)
    (name : note.1 = entryName c table row) {data}
    (read : data = if note.2 = ascii "del" then none
      else some (entryData L (entry c sys.database table row))) :
    Tracks L c { sys with
      unread := notes.map (eventMessage L)
      phase := .looping (fire initData table (.text row) data).1
      calls := sys.calls ++ (fire initData table (.text row) data).2 } notes := by
  have shape := h.shape
  simp only [Shape, looping] at shape
  obtain ⟨given', here, elsewhere⟩ := fire_spec shape.1 table (.text row) data
  have key : keyOf c row = .text row :=
    keyOf_single ((h.legible note mem_cons_self).1 table handled row name).1
  refine ⟨h.tidy, rfl, fun other member => h.legible other (mem_cons_of_mem _ member), nofun,
    fun _ => h.listening (by simp [looping]), ⟨given', ?_⟩, ?_⟩
  · intro table' key' d found
    by_cases same : table' = table ∧ key' = .text row
    · exact ⟨row, same.2.trans key.symm⟩
    · exact shape.2 table' key' d ((elsewhere table' key' same).symm.trans found)
  · intro table' inside row'
    have before := h.due table' inside row'
    by_cases same : table' = table ∧ row' = row
    · obtain ⟨rfl, rfl⟩ := same
      rw [pending_cons_self name] at before
      refine before.taken (fun refresh present => ?_) fun remove missing => ?_
      · have other : note.2 ≠ ascii "del" := fun del => by simp [notice, del] at refresh
        rw [if_neg other] at read
        rw [held, Agrees, key, here, read, view, if_neg present]
        rfl
      · have del : note.2 = ascii "del" := by
          by_contra other
          simp [notice, other] at remove
        rw [if_pos del] at read
        rw [held, Agrees, key, here, read, view, if_pos missing]
        rfl
    · have other : note.1 ≠ entryName c table' row' := by
        rw [name]
        intro equal
        obtain ⟨rfl, rfl⟩ := entryName_injective (regular.separatorFree table handled)
          (regular.separatorFree table' inside) equal
        exact same ⟨rfl, rfl⟩
      rw [pending_cons_of_ne other] at before
      refine before.mono fun _ agrees => ?_
      simp only [held, looping] at agrees ⊢
      rwa [elsewhere table' (keyOf c row') fun equal =>
        same ⟨equal.1, keyOf_injective c (equal.2.trans key.symm)⟩]

theorem taken (regular : Regular L c) (h : Tracks L c sys (note :: notes))
    (looping : sys.phase = .looping initData) :
    ∃ initData' calls, L.onMessage initData (RedisMessage.ofReply (eventMessage L note))
        sys.database = .ok (initData', calls) sys.database ∧
      Tracks L c { sys with
        unread := notes.map (eventMessage L)
        phase := .looping initData'
        calls := sys.calls ++ calls } notes := by
  obtain ⟨legible, nulFree⟩ := h.legible note mem_cons_self
  rw [onMessage_eventMessage, cStr_of_nulFree nulFree]
  by_cases ours : ∃ table ∈ L.handlers, ∃ row, note.1 = entryName c table row
  · obtain ⟨table, inside, row, name⟩ := ours
    have free := (legible table inside row name).2
    have whole : cStr note.1 = entryName c table row := by
      rw [name, cStr_of_nulFree (nulFree_entryName regular inside free)]
    rw [whole, onEvent_entry regular h.tidy inside free]
    exact ⟨_, _, rfl, h.take regular looping inside name rfl⟩
  · have foreign (table : Bytes) (inside : table ∈ L.handlers) (row : Bytes) :
        note.1 ≠ entryName c table row := fun name => ours ⟨table, inside, row, name⟩
    have passed (table : Bytes) (inside : table ∈ L.handlers) (row : Bytes) :
        cStr note.1 ≠ entryName c table row := fun cut => foreign table inside row
      (eq_entryName_of_cStr (fun row name => (legible table inside row name).2) cut)
    refine ⟨initData, [], onEvent_foreign regular passed initData note.2, ?_⟩
    rw [← looping, append_nil]
    exact h.skip foreign (by simp [looping])

theorem message (h : Tracks L c sys notes) (regular : Regular L c) {initData'}
    {reply rest calls}
    (looping : sys.phase = .looping initData) (next : sys.unread = reply :: rest)
    (handled : L.onMessage initData (RedisMessage.ofReply reply) sys.database =
      .ok (initData', calls) sys.database) :
    ∃ notes', Tracks L c { sys with
      unread := rest
      phase := .looping initData'
      calls := sys.calls ++ calls } notes' := by
  cases notes with
  | nil => exact nomatch h.unread.symm.trans next
  | cons note notes =>
    obtain ⟨rfl, rfl⟩ := cons.inj (h.unread.symm.trans next)
    obtain ⟨_, _, handled', after⟩ := h.taken regular looping
    rw [handled] at handled'
    cases handled'
    exact ⟨notes, after⟩

section

variable (h : Tracks L c sys notes) {command : Command} {database : Keyspace}
  {events : List Bytes} (executed : Executes sys.database command database events)
  (heard : Heard sys.database command events)
include h executed heard

theorem due_executed {table} (inside : table ∈ L.handlers) (row : Bytes) :
    Due ∅ (entry c database table row)
      (Agrees L (entry c database table row) (held c sys table row))
      (pending c (notes ++ events.map (command.name, ·)) table row) := by
  have before := h.due table inside row
  rw [pending_append, pending_events]
  by_cases name : command.name = entryName c table row
  · have old : sys.database.hashAt command.name = some (entry c sys.database table row) := by
      rw [name]
      exact h.tidy.hashAt inside row
    obtain ⟨new, stored, announced, -, -⟩ := executes_announced executed old
    have current : entry c database table row = new := by
      rw [entry, ← name, stored]
      rfl
    rw [if_pos name, current]
    refine before.announced announced (fun refresh empty => ?_) fun agrees same => same ▸ agrees
    exact refresh_sound executed heard refresh (by rw [stored, empty])
  · rw [if_neg name, append_nil, entry_executed executed name]
    exact before

theorem write (legible : Legible L c command.name) :
    ∃ notes', Tracks L c { sys with
      database := database
      unread := sys.unread ++ events.flatMap (pmessages sys.patterns L.dbId command.name) }
      notes' := by
  have tidy := h.tidy.executed executed fun table inside row name =>
    (legible table inside row name).2
  by_cases new : sys.phase = .unsubscribed
  · obtain ⟨silent, none⟩ := h.quiet new
    refine ⟨notes, tidy, ?_, h.legible, h.quiet, h.listening, h.shape, ?_⟩
    · rw [silent, h.unread]
      simp [pmessages]
    · intro table inside row
      rw [none]
      simp [Due, pending, held, new, Agrees]
  · have sent : events.flatMap (pmessages sys.patterns L.dbId command.name) =
        (events.map (command.name, ·)).map (eventMessage L) := by
      rw [h.listening new, map_map, map_eq_flatMap]
      exact flatMap_congr fun event _ => pmessages_pattern L command.name event
    refine ⟨notes ++ events.map (command.name, ·), tidy, ?_, ?_, fun old => absurd old new,
      h.listening, h.shape, fun table inside row => h.due_executed executed heard inside row⟩
    · rw [h.unread, sent, map_append]
    · intro note member
      rcases mem_append.mp member with older | newer
      · exact h.legible note older
      · obtain ⟨event, fired, rfl⟩ := mem_map.mp newer
        exact ⟨legible, executed.nulFree event fired⟩

end

section

variable (regular : Regular L c)
include regular

theorem step (h : Tracks L c sys notes) {label} (step : Step L sys label sys')
    (legible : ∀ command, label = .wrote command → Legible L c command.name) :
    ∃ notes', Tracks L c sys' notes' := by
  cases step with
  | write executed heard => exact h.write executed heard (legible _ rfl)
  | psubscribe new => exact ⟨notes, h.psubscribe new⟩
  | keys reading listed => exact ⟨notes, h.keys regular reading listed⟩
  | row fetching fetched => exact ⟨notes, h.row regular fetching fetched⟩
  | table fetched typed => exact ⟨notes, h.table regular fetched typed⟩
  | load read => exact ⟨notes, h.load read⟩
  | message looping next handled => exact h.message regular looping next handled

theorem advances (h : Tracks L c sys notes) (unsettled : ¬ Settled sys) :
    ∃ sys', Step L sys .listened sys' ∧ rank L sys' < rank L sys := by
  have shape := h.shape
  cases phase : sys.phase with
  | unsubscribed =>
    refine ⟨_, .psubscribe phase, ?_⟩
    simp [rank, phase, Prod.Lex.toLex_lt_toLex]
  | reading todo initData =>
    simp only [Shape, phase] at shape
    cases todo with
    | nil =>
      refine ⟨_, .load phase, ?_⟩
      simp [rank, phase, Prod.Lex.toLex_lt_toLex]
    | cons table todo =>
      obtain ⟨keys, listed, -⟩ := keys_spec regular h.tidy (shape.2.1 mem_cons_self)
      refine ⟨_, .keys phase listed, ?_⟩
      simp [rank, phase, Prod.Lex.toLex_lt_toLex]
      omega
  | fetching table keys data todo initData =>
    simp only [Shape, phase] at shape
    obtain ⟨-, inside, -, nulFree⟩ := shape
    cases keys with
    | nil =>
      obtain ⟨rows, typed, -⟩ := typedTable_eq regular data
      refine ⟨_, .table phase typed, ?_⟩
      simp [rank, phase, Prod.Lex.toLex_lt_toLex]
    | cons key keys =>
      obtain ⟨row, rfl, free⟩ := nulFree key mem_cons_self
      have fetched := readRow_entry regular h.tidy (inside mem_cons_self) free data
      refine ⟨_, .row phase fetched, ?_⟩
      simp [rank, phase, Prod.Lex.toLex_lt_toLex]
  | looping initData =>
    cases notes with
    | nil => exact absurd ⟨⟨initData, phase⟩, h.unread⟩ unsettled
    | cons note notes =>
      obtain ⟨initData', calls, handled, -⟩ := h.taken regular phase
      refine ⟨_, .message phase h.unread handled, ?_⟩
      simp [rank, phase, h.unread, Prod.Lex.toLex_lt_toLex]

theorem settles (h : Tracks L c sys notes) :
    ∃ labels sys', (∀ label ∈ labels, label = .listened) ∧ Run (Step L) sys labels sys' ∧
      Settled sys' := by
  have advance (s : System) (kept : ∃ notes', Tracks L c s notes') (unsettled : ¬ Settled s) :
      ∃ label t, label = .listened ∧ Step L s label t ∧ (∃ notes', Tracks L c t notes') ∧
        rank L t < rank L s := by
    obtain ⟨notes', tracks⟩ := kept
    obtain ⟨t, taken, less⟩ := tracks.advances regular unsettled
    exact ⟨.listened, t, rfl, taken, tracks.step regular taken nofun, less⟩
  obtain ⟨labels, sys', alone, run, -, settled⟩ := Run.exists_of_rank advance ⟨notes, h⟩
  exact ⟨labels, sys', alone, run, settled⟩

theorem follows (h : Tracks L c sys notes) (settled : Settled sys) {table}
    (inside : table ∈ L.handlers) : Follows L sys table := by
  obtain ⟨⟨initData, phase⟩, unread⟩ := settled
  obtain rfl : notes = [] := map_eq_nil_iff.mp (h.unread.symm.trans unread)
  obtain ⟨rows, read, keyed, rowAt⟩ := getTable_spec regular h.tidy inside
  have shape := h.shape
  simp only [Shape, phase] at shape
  refine ⟨rows, read, fun key => ?_⟩
  by_cases row : ∃ row, key = keyOf c row
  · obtain ⟨row, rfl⟩ := row
    have agrees := h.due table inside row
    simp only [held, phase] at agrees
    rw [agrees, rowAt, view]
    split <;> rfl
  · have unknown : built table sys.calls key = none :=
      Option.eq_none_iff_forall_ne_some.mpr fun d found => row (shape.2 table key d found)
    have unlisted : rows.get? key = none :=
      Option.eq_none_iff_forall_ne_some.mpr fun d found => row (keyed key d found)
    rw [unknown, unlisted]

end

end Tracks

/-- In every run in which the keys that are written have one part, the handlers have the tables once
    there is nothing left to read, and the listener gets there. -/
theorem listen_converges {L : Listener} {c : UInt8} {ks : Keyspace} {labels : List Label}
    {sys : System} (regular : Regular L c) (tidy : Tidy L c ks)
    (run : Run (Step L) (start ks) labels sys)
    (legible : ∀ command, .wrote command ∈ labels → Legible L c command.name) :
    (Settled sys → ∀ table ∈ L.handlers, Follows L sys table) ∧
      ∃ more sys', (∀ label ∈ more, label = .listened) ∧ Run (Step L) sys more sys' ∧
        Settled sys' := by
  have tracked : (∀ command, .wrote command ∈ labels → Legible L c command.name) →
      ∃ notes, Tracks L c sys notes := by
    refine Run.invariant (I := fun labels sys =>
      (∀ command, .wrote command ∈ labels → Legible L c command.name) →
        ∃ notes, Tracks L c sys notes) ?_ ?_ run
    · exact fun _ => ⟨[], Tracks.initially tidy⟩
    · intro labels sys label sys' before taken legible
      obtain ⟨notes, h⟩ := before fun command member =>
        legible command (mem_append_left _ member)
      refine h.step regular taken fun command same => legible command ?_
      rw [same]
      exact mem_append_right _ mem_cons_self
  obtain ⟨notes, h⟩ := tracked legible
  exact ⟨fun settled table inside => h.follows regular settled inside, h.settles regular⟩

private def interfaces : Listener := ⟨.sorted, 4, ascii "|", [ascii "INTERFACE"]⟩

private theorem regular_interfaces : Regular interfaces 124 where
  single := rfl
  literal := by decide
  notNul := by decide
  upper := by decide
  plain := by decide
  nulFree := by decide
  separatorFree := by decide

private def oneInterface : Keyspace :=
  (∅ : Keyspace).write (entryName 124 (ascii "INTERFACE") (ascii "f"))
    (Value.ofHash (Hash.ofFields [(ascii "mtu", ascii "1500")]))

private theorem tidy_oneInterface : Tidy interfaces 124 oneInterface where
  hashes table inside row := by
    rw [oneInterface, Keyspace.hashAt_write]
    split
    · rw [Value.hash?_ofHash]
      exact Option.some_ne_none _
    · exact Option.some_ne_none _
  nulFree table inside row present := by
    obtain rfl := mem_singleton.mp inside
    by_cases same : entryName 124 (ascii "INTERFACE") (ascii "f") =
        entryName 124 (ascii "INTERFACE") row
    · rw [← (entryName_injective (by decide) (by decide) same).2]
      decide
    · refine absurd ?_ present
      rw [entry, oneInterface, Keyspace.hashAt_write, if_neg same]
      rfl

private def familySet : Command := .hset (ascii "INTERFACE|e|a") [(ascii "family", ascii "IPv4")]

private def mtu : Command := .hset (ascii "INTERFACE|e") [(ascii "mtu", ascii "9100")]

/-- With one interface in the table another one is configured while the listener runs. -/
theorem listen_converges_interface :
    ∃ labels sys, Run (Step interfaces) (start oneInterface) labels sys ∧ .wrote mtu ∈ labels ∧
      Settled sys ∧ Follows interfaces sys (ascii "INTERFACE") := by
  have set : Executes oneInterface mtu _ _ := .hset (h := ∅) rfl (cons_ne_nil _ _)
  have run : Run (Step interfaces) (start oneInterface) _ _ :=
    ((((((Run.single (.psubscribe rfl)).snoc (.keys rfl rfl)).snoc (.row rfl rfl)).snoc
      (.table rfl rfl)).snoc (.load rfl)).snoc (.write set nofun)).snoc (.message rfl rfl rfl)
  refine ⟨_, _, run, by simp, ⟨⟨_, rfl⟩, rfl⟩, ?_⟩
  refine (listen_converges regular_interfaces tidy_oneInterface run fun command member => ?_).1
    ⟨⟨_, rfl⟩, rfl⟩ _ mem_cons_self
  obtain rfl : command = mtu := by simpa using member
  intro table inside row same
  obtain rfl := mem_singleton.mp inside
  change entryName 124 (ascii "INTERFACE") (ascii "e") = _ at same
  rw [← (entryName_injective (by decide) (by decide) same).2]
  decide

/-- The handler is given the address of an interface under the text of the row, and `get_table` has
    it under a pair. -/
theorem listen_row_not_split :
    ∃ labels sys rows, Run (Step interfaces) (start ∅) labels sys ∧ .wrote familySet ∈ labels ∧
      Settled sys ∧
      getTable .sorted (ascii "|") (ascii "INTERFACE") sys.database = .ok (some rows) sys.database ∧
      (built (ascii "INTERFACE") sys.calls (.text (ascii "e|a"))).isSome ∧
      rows.get? (.text (ascii "e|a")) = none ∧
      built (ascii "INTERFACE") sys.calls (.tuple [ascii "e", ascii "a"]) = none ∧
      (rows.get? (.tuple [ascii "e", ascii "a"])).isSome := by
  have set : Executes ∅ familySet _ _ := .hset (h := ∅) rfl (cons_ne_nil _ _)
  have run : Run (Step interfaces) (start ∅) _ _ := (((((Run.single (.psubscribe rfl)).snoc
    (.keys rfl rfl)).snoc (.table rfl rfl)).snoc (.load rfl)).snoc (.write set nofun)).snoc
    (.message rfl rfl rfl)
  exact ⟨_, _, _, run, by simp, ⟨⟨_, rfl⟩, rfl⟩, rfl, rfl, rfl, rfl, rfl⟩

end SwssCommon.TypedConfig
