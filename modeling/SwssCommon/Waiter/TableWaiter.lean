import SwssCommon.Subscriber.Delivery

/-! # Waiting for a table

`RedisTableWaiter` looks at the database, then follows the table and looks at each entry that is
popped, until one is what it waits for, a signal comes, or the time is over. Other clients write
between any two commands; when `select` reads and when the time is over is left open, and a call
that throws is not followed further.
-/

namespace SwssCommon.RedisTableWaiter

open Bytes Redis List Std.ExtTreeMap DBConnector SubscriberStateTable

inductive Wait where
  | fieldSet (key fieldName : Bytes) (cond : Bytes → Bool)
  | keySet (key : Bytes)
  | keyDel (key : Bytes)

namespace Wait

def precheck (server : RedisServer) (t : TableBase) (db : Keyspace) :
    Wait → Except DBConnector.Failure Bool
  | fieldSet key fieldName cond => do
    let value ← query db (hget server (t.mainName key) fieldName)
    .ok (value.any cond)
  | keySet key => query db (existsKey (t.mainName key))
  | keyDel key => do
    .ok !(← query db (existsKey (t.mainName key)))

def checkFunc : Wait → KeyOpFieldsValuesTuple → Bool
  | fieldSet key fieldName cond, kco =>
    if kco.kfvOp = SET_COMMAND ∧ kco.kfvKey = key then
      (kco.kfvFieldsValues.find? fun fvt => fvt.1 = fieldName).any fun fvt => cond fvt.2
    else false
  | keySet key, kco => kco.kfvOp = SET_COMMAND ∧ kco.kfvKey = key
  | keyDel key, kco => kco.kfvOp = DEL_COMMAND ∧ kco.kfvKey = key

end Wait

/-- How a call returns: `true` for the first, `false` for the others. -/
inductive Outcome where
  | found
  | timeout
  | signal
  /-- `maxWaitSec` is 0. -/
  | invalid

inductive Phase where
  | checking
  | waiting
  | ended (outcome : Outcome)

structure State where
  table : SubscriberStateTable.System
  phase : Phase

inductive Event where
  | checked
  | table (l : SubscriberStateTable.Event)
  | timeout
  | signal

def start (database : Keyspace) : State :=
  ⟨SubscriberStateTable.start database, .checking⟩

/-- What `pop` leaves in its result when there is nothing. -/
def nothing : KeyOpFieldsValuesTuple :=
  ⟨[], [], []⟩

section Steps

variable (server : RedisServer) (t : SubscriberStateTable) (hiredis : Hiredis) (maxWaitSec : Nat)
  (w : Wait)

/-- The entries are popped one by one, and each is looked at. -/
inductive Step : State → Event → State → Prop where
  | write {s : State} {command : Command} {table : SubscriberStateTable.System}
      (runs : ∀ outcome, s.phase ≠ .ended outcome)
      (wrote : t.Step hiredis s.table (.wrote command) table) :
      Step s (.table (.wrote command)) { s with table := table }
  | check {s : State} {holds : Bool} (checks : s.phase = .checking)
      (answered : w.precheck server t.toTableBase s.table.database = .ok holds) :
      Step s .checked { s with
        phase :=
          if holds then .ended .found
          else if maxWaitSec = 0 then .ended .invalid
          else .waiting }
  | construct {s : State} {table : SubscriberStateTable.System} (waits : s.phase = .waiting)
      (constructed : t.Step hiredis s.table .constructed table) :
      Step s (.table .constructed) { s with table := table }
  | read {s : State} {table : SubscriberStateTable.System} (waits : s.phase = .waiting)
      (read : t.Step hiredis s.table .read table) :
      Step s (.table .read) { s with table := table }
  | took {s : State} {table : SubscriberStateTable.System} (waits : s.phase = .waiting)
      (took : t.Step hiredis s.table .took table)
      (byPop : ∀ vkco, table.phase ≠ .popping false vkco) :
      Step s (.table .took) { s with table := table }
  | pop {s : State} {vkco : List KeyOpFieldsValuesTuple} {table : SubscriberStateTable.System}
      (waits : s.phase = .waiting) (popped : t.Step hiredis s.table (.popped vkco) table)
      (one : vkco.length ≤ 1) :
      Step s (.table (.popped vkco))
        ⟨table, if w.checkFunc (vkco.headD nothing) then .ended .found else .waiting⟩
  | timeout {s : State} (waits : s.phase = .waiting) (idle : s.table.phase = .idle) :
      Step s .timeout { s with phase := .ended .timeout }
  | signal {s : State} (waits : s.phase = .waiting) (idle : s.table.phase = .idle) :
      Step s .signal { s with phase := .ended .signal }

end Steps

/-! ## What is awaited -/

namespace Wait

def Holds (t : TableBase) (db : Keyspace) : Wait → Prop
  | fieldSet key fieldName cond =>
    ∃ h v, db.hashAt (t.mainName key) = some h ∧ h[fieldName]? = some v ∧ cond v = true
  | keySet key => t.mainName key ∈ db
  | keyDel key => t.mainName key ∉ db

def Named : Wait → Prop
  | fieldSet key fieldName _ =>
    SubscriberStateTable.Legible key ∧ Table.stripSpecialSym (cStr fieldName) = fieldName
  | keySet key => SubscriberStateTable.Legible key
  | keyDel key => (0 : UInt8) ∉ key

/-- The field is the only one of its entry that is read under its name. -/
def Alone (t : TableBase) (db : Keyspace) (key fieldName : Bytes) : Prop :=
  ∀ h f v, db.hashAt (t.mainName key) = some h → h[f]? = some v →
    Table.stripSpecialSym (cStr f) = fieldName → f = fieldName

/-- A key to be deleted is there when the subscription is made, and no other field is
    mistaken for the awaited one when the time is over. -/
def Sees (t : SubscriberStateTable) (s : State) (e : Event) : Wait → Prop
  | fieldSet key fieldName _ =>
    e = .timeout → Alone t.toTableBase s.table.database key fieldName
  | keySet _ => True
  | keyDel key => ∀ l, e = .table l → SubscriberStateTable.PresentAt t key s.table l

/-- The time is not over before all entries that were read have been looked at. -/
def Meets (t : SubscriberStateTable) (s : State) (e : Event) (w : Wait) : Prop :=
  w.Sees t s e ∧ (e = .timeout → s.table.buffer = [])

end Wait

def tableEvents (ls : List Event) : List SubscriberStateTable.Event :=
  ls.filterMap fun
    | .table l => some l
    | _ => none

variable {server : RedisServer} {t : SubscriberStateTable} {hiredis : Hiredis} {maxWaitSec : Nat}
  {w : Wait} {s s' : State} {e : Event} {ls : List Event} {database : Keyspace}

theorem tableEvents_table (ls : List Event) (l : SubscriberStateTable.Event) :
    tableEvents (ls ++ [.table l]) = tableEvents ls ++ [l] := by
  simp [tableEvents]

def SeenStep (server : RedisServer) (t : SubscriberStateTable) (hiredis : Hiredis)
    (maxWaitSec : Nat) (w : Wait) (s : State) (e : Event) (s' : State) : Prop :=
  Step server t hiredis maxWaitSec w s e s' ∧ w.Meets t s e

theorem Step.table (step : Step server t hiredis maxWaitSec w s e s') (ls : List Event) :
    (∃ l, e = .table l ∧ t.Step hiredis s.table l s'.table) ∨
      (tableEvents (ls ++ [e]) = tableEvents ls ∧ s'.table = s.table) := by
  cases step with
  | write _ moved | construct _ moved | read _ moved | took _ moved | pop _ moved =>
    exact .inl ⟨_, rfl, moved⟩
  | check | timeout | signal => exact .inr ⟨by simp [tableEvents], rfl⟩

theorem tableRun (run : Run (SeenStep server t hiredis maxWaitSec w) (start database) ls s) :
    Run (fun sys l sys' => t.Step hiredis sys l sys' ∧
        ∀ key, w = .keyDel key → SubscriberStateTable.PresentAt t key sys l)
      (SubscriberStateTable.start database) (tableEvents ls) s.table := by
  induction run with
  | refl => exact .refl _
  | @snoc _ _ before _ _ taken ih =>
    obtain ⟨step, meets⟩ := taken
    rcases step.table before with ⟨l, rfl, moved⟩ | ⟨same, unmoved⟩
    · rw [tableEvents_table]
      refine ih.snoc ⟨moved, fun key deletes => ?_⟩
      subst deletes
      exact meets.1 l rfl
    · rw [same, unmoved]
      exact ih

theorem checkFunc_popped (run : Run (SeenStep server t hiredis maxWaitSec w) (start database) ls s)
    (missing : s.phase ≠ .ended .found) {kco}
    (member : kco ∈ popped (tableEvents ls)) : w.checkFunc kco = false := by
  induction run with
  | refl => simp [tableEvents, popped] at member
  | @snoc _ _ before _ _ taken ih =>
    have earlier {l : SubscriberStateTable.Event} (pops : popped [l] = [])
        (now : kco ∈ popped (tableEvents (before ++ [.table l]))) :
        kco ∈ popped (tableEvents before) := by
      simpa [tableEvents_table, popped_append, pops] using now
    cases taken.1 with
    | write runs => exact ih (runs _) (earlier rfl member)
    | construct waits | read waits | took waits => exact ih missing (earlier rfl member)
    | check phase | timeout phase | signal phase =>
      exact ih (by simp [phase]) (by simpa [tableEvents] using member)
    | @pop vkco _ waits _ one =>
      rw [tableEvents_table, popped_append] at member
      rcases mem_append.mp member with earlier | now
      · exact ih (by simp [waits]) earlier
      · have now : kco ∈ vkco := by simpa [popped] using now
        obtain rfl : vkco = [kco] := by
          cases vkco with
          | nil => simp at now
          | cons first rest => simp_all
        simpa using missing

theorem idle_of_timeout (run : Run (SeenStep server t hiredis maxWaitSec w) (start database) ls s)
    (timedOut : s.phase = .ended .timeout) : s.table.phase = .idle ∧ w.Meets t s .timeout := by
  cases run with
  | refl => simp [start] at timedOut
  | snoc _ taken =>
    obtain ⟨step, meets⟩ := taken
    cases step with
    | write runs => exact absurd timedOut (runs _)
    | check checks => grind
    | construct waits | read waits | took waits => simp [waits] at timedOut
    | pop waits => grind
    | signal => simp at timedOut
    | timeout waits idle =>
      cases w with
      | fieldSet | keySet | keyDel => exact ⟨idle, meets⟩

theorem notMem_of_precheck {key db} (nulFree : 0 ∉ t.mainName key)
    (answered : (Wait.keySet key).precheck server t.toTableBase db = .ok false) :
    t.mainName key ∉ db := by
  by_cases blank : DBConnector.Blank (t.mainName key)
  · have refused : query db (existsKey (t.mainName key)) =
        .error invalidKey := by
      simp only [existsKey, if_pos blank]
      rfl
    rw [Wait.precheck, refused] at answered
    cases answered
  · intro there
    have asked : query db (existsKey (t.mainName key)) =
        .ok (decide (cStr (t.mainName key) ∈ db)) := by
      simp only [existsKey, if_neg blank]
      rfl
    rw [Wait.precheck, asked, cStr_of_nulFree nulFree] at answered
    simp [there] at answered

theorem hashed {key} (nulFree : 0 ∉ t.mainName key)
    (run : Run (SeenStep server t hiredis maxWaitSec (.keySet key)) (start database) ls s)
    (checked : s.phase ≠ .checking) (missing : s.phase ≠ .ended .found) :
    s.table.database.hashAt (t.mainName key) ≠ none := by
  induction run with
  | refl => exact absurd rfl checked
  | snoc _ taken ih =>
    cases taken.1 with
    | write runs moved => exact hash_step moved (ih checked missing)
    | construct waits moved | read waits moved | took waits moved | pop waits moved =>
      exact hash_step moved (ih (by simp [waits]) (by simp [waits]))
    | timeout waits | signal waits => exact ih (by simp [waits]) (by simp [waits])
    | @check holds _ answered =>
      cases holds with
      | true => exact absurd rfl missing
      | false =>
        have absent := notMem_of_precheck nulFree answered
        simp [Keyspace.hashAt, Value.hash?, getElem?_eq_none absent]

theorem find_field (server : RedisServer) {fieldName v} {h : Hash}
    (readsSame : Table.stripSpecialSym (cStr fieldName) = fieldName)
    (alone : ∀ f v, h[f]? = some v → Table.stripSpecialSym (cStr f) = fieldName → f = fieldName)
    (value : h[fieldName]? = some v) :
    ((server.fields h).map fun iv => (Table.stripSpecialSym (cStr iv.1), iv.2)).find?
      (fun fvt => fvt.1 = fieldName) = some (fieldName, v) := by
  have member : (fieldName, v) ∈
      (server.fields h).map fun iv => (Table.stripSpecialSym (cStr iv.1), iv.2) := by
    refine mem_map.mpr ⟨(fieldName, v), ?_, by rw [readsSame]⟩
    exact server.mem_fields.mpr value
  cases first : ((server.fields h).map fun iv => (Table.stripSpecialSym (cStr iv.1), iv.2)).find?
      (fun fvt => fvt.1 = fieldName) with
  | none => simpa using find?_eq_none.mp first _ member
  | some fvt =>
    have name : fvt.1 = fieldName := by simpa using find?_some first
    obtain ⟨⟨f, v'⟩, stored, rfl⟩ := mem_map.mp (mem_of_find?_eq_some first)
    have stored := server.mem_fields.mp stored
    obtain rfl := alone f v' stored name
    obtain rfl := Option.some.inj (stored.symm.trans value)
    exact congrArg some (Prod.ext name rfl)

/-- If the time is over and every event has been consumed, what the wait waits for is not there: for
    names that are given back as they are, if a key to be deleted is there at the subscription, no
    other field is mistaken for the awaited one, and the time is not over before the entries are
    looked at. -/
theorem not_holds_of_timeout (suitable : t.Suitable hiredis) (named : w.Named)
    (run : Run (SeenStep server t hiredis maxWaitSec w) (start database) ls s)
    (timedOut : s.phase = .ended .timeout) (consumed : s.table.events = []) :
    ¬ w.Holds t.toTableBase s.table.database := by
  obtain ⟨idle, sees, looked⟩ := idle_of_timeout run timedOut
  have empty := looked rfl
  have missing : s.phase ≠ .ended .found := by simp [timedOut]
  have followed := tableRun run
  have steps : Run (t.Step hiredis) (SubscriberStateTable.start database)
      (tableEvents ls) s.table :=
    followed.mono fun _ step => step.1
  intro holds
  cases w with
  | fieldSet key fieldName cond =>
    obtain ⟨legible, readsSame⟩ := named
    obtain ⟨h, v, found, value, good⟩ := holds
    have filled : h ≠ ∅ := by
      rintro rfl
      simp at value
    have entry := get_of_hashAt suitable legible found filled
    have set := mem_popped_of_get suitable legible steps idle consumed empty entry
    have seen := checkFunc_popped run missing set
    rw [Wait.checkFunc, if_pos ⟨rfl, rfl⟩,
      find_field t.server readsSame (fun f v stored => sees rfl h f v found stored) value] at seen
    simp [good] at seen
  | keySet key =>
    obtain ⟨h, found⟩ := Option.ne_none_iff_exists'.mp
      (hashed (t.nul_notMem_mainName suitable.nulFree named.2) run (by simp [timedOut]) missing)
    have filled : h ≠ ∅ := (Keyspace.mem_iff_of_hashAt found).mp holds
    have entry := get_of_hashAt suitable named found filled
    have set := mem_popped_of_get suitable named steps idle consumed empty entry
    have seen := checkFunc_popped run missing set
    simp [Wait.checkFunc] at seen
  | keyDel key =>
    have deleted := SubscriberStateTable.mem_popped_of_notMem suitable named
      (followed.mono fun _ step => ⟨step.1, step.2 key rfl⟩) idle consumed empty holds
    have seen := checkFunc_popped run missing deleted
    simp [Wait.checkFunc] at seen

private def ports : SubscriberStateTable := ⟨⟨ascii "PORT", .vbar⟩, 6, .sorted⟩

private def onePort (status : Bytes) : Keyspace :=
  (∅ : Keyspace).write (ports.mainName (ascii "p"))
    (Value.ofHash (∅ * Hash.ofFields [(ascii "status", status)]))

private def untilUp : Wait := .fieldSet (ascii "p") (ascii "status") (· = ascii "up")

/-- A port is set while the call waits, with another status than the awaited one. -/
theorem not_holds_of_timeout_down :
    ∃ ls s, Run (SeenStep .sorted ports .blanks 1 untilUp) (start ∅) ls s ∧
      s.phase = .ended .timeout ∧ s.table.database = onePort (ascii "down") ∧
      ¬ untilUp.Holds ports.toTableBase s.table.database := by
  have suitable : ports.Suitable .blanks := ⟨by decide, by decide, by decide⟩
  have named : untilUp.Named := ⟨⟨by decide, by decide⟩, by decide⟩
  have write : Executes ∅ (.hset (ports.mainName (ascii "p")) [(ascii "status", ascii "down")])
      (onePort (ascii "down")) [ascii "hset"] := .hset rfl (cons_ne_nil _ _)
  have alone : Wait.Alone ports.toTableBase (onePort (ascii "down")) (ascii "p")
      (ascii "status") := by
    rintro h f v ⟨⟩ stored _
    exact OrderedMap.forall_entries (P := fun f _ => f = ascii "status") (by decide) f v stored
  have quiet {s : State} {e : Event} (other : e ≠ .timeout) : untilUp.Meets ports s e :=
    ⟨fun timeout => absurd timeout other, fun timeout => absurd timeout other⟩
  have missing : untilUp.precheck .sorted ports.toTableBase ∅ = .ok false := rfl
  have looks : SeenStep .sorted ports .blanks 1 untilUp (start ∅) .checked _ :=
    ⟨.check rfl missing, quiet (by simp)⟩
  have checked : Run (SeenStep .sorted ports .blanks 1 untilUp) (start ∅) [.checked]
      ⟨SubscriberStateTable.start ∅, .waiting⟩ := .single looks
  have subscribed := checked.snoc
    ⟨.construct rfl (.psubscribe rfl suitable.oneWord), quiet (by simp)⟩
  have listed := subscribed.snoc
    ⟨.construct rfl (.getKeys rfl (show _ = some [] from rfl)), quiet (by simp)⟩
  have built := listed.snoc ⟨.construct rfl (.built rfl), quiet (by simp)⟩
  have written := built.snoc ⟨.write (by simp) (.write write), quiet (by simp)⟩
  have read := written.snoc ⟨.read rfl (.readData rfl (append_nil _).symm), quiet (by simp)⟩
  have pops := read.snoc
    ⟨.took rfl (@SubscriberStateTable.Step.popsStart ports .blanks _ true rfl rfl) (by simp),
      quiet (by simp)⟩
  have took := pops.snoc ⟨.took rfl (.popsEvent rfl rfl rfl) (by simp), quiet (by simp)⟩
  have popped := took.snoc ⟨.pop rfl (.popReturn rfl rfl) (by simp), quiet (by simp)⟩
  have ended := popped.snoc ⟨.timeout rfl rfl, fun _ => alone, fun _ => rfl⟩
  exact ⟨_, _, ended, rfl, rfl, not_holds_of_timeout suitable named ended rfl rfl⟩

/-- The key is deleted after the call has looked for it and before it subscribes: nothing tells of
    it. -/
theorem deletion_missed :
    ports.Suitable .blanks ∧ (Wait.keyDel (ascii "p")).Named ∧
    ∃ ls s, Run (Step .sorted ports .blanks 1 (.keyDel (ascii "p"))) (start (onePort [])) ls s ∧
      s.phase = .ended .timeout ∧ s.table.events = [] ∧ s.table.buffer = [] ∧
      (Wait.keyDel (ascii "p")).Holds ports.toTableBase s.table.database := by
  have suitable : ports.Suitable .blanks := ⟨by decide, by decide, by decide⟩
  have named : (0 : UInt8) ∉ ascii "p" := by decide
  have present : (Wait.keyDel (ascii "p")).precheck .sorted ports.toTableBase (onePort []) =
      .ok false := rfl
  have looks : Step .sorted ports .blanks 1 (.keyDel (ascii "p")) (start (onePort [])) .checked _ :=
    .check rfl present
  have checked : Run (Step .sorted ports .blanks 1 (.keyDel (ascii "p"))) (start (onePort []))
      [.checked] ⟨SubscriberStateTable.start (onePort []), .waiting⟩ := .single looks
  have deleted := checked.snoc (l := .table (.wrote (.del (ports.mainName (ascii "p")))))
    (.write (by simp) (.write .del))
  have subscribed := deleted.snoc (.construct rfl (.psubscribe rfl suitable.oneWord))
  have listed := subscribed.snoc (.construct rfl (.getKeys rfl (show _ = some [] from rfl)))
  have built := listed.snoc (.construct rfl (.built rfl))
  have ended := built.snoc (.timeout rfl rfl)
  have gone : ∀ name, name ∉ (onePort []).write name none := by simp [Keyspace.write]
  exact ⟨suitable, named, _, _, ended, rfl, rfl, rfl, gone _⟩

end SwssCommon.RedisTableWaiter
