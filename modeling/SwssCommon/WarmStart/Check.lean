import SwssCommon.Table.FieldReads

/-! # Checking for a warm start

`checkWarmStart` looks up whether warm restart is on, for the system or for a docker, and whether
the application left its restore count. Two variables remember a switch that was found on; they are
cleared only when the count is missing, so a verdict may be that of an earlier call.
-/

namespace SwssCommon.WarmStart

open Bytes Redis Throwing

/-! ## The source -/

/-- The variables of the process and the database it is connected to. Both variables are false
    when the process starts. -/
structure State where
  enabled : Bool
  systemWarmRebootEnabled : Bool
  stateDb : Server

inductive Error where
  /-- The reply is an error. -/
  | reply (e : Table.TableError)
  | stoul (e : StoiError)
  deriving DecidableEq

abbrev Call := EStateM Error State

def enableTable : TableBase := ⟨ascii "WARM_RESTART_ENABLE_TABLE", .vbar⟩

def restartTable : TableBase := ⟨ascii "WARM_RESTART_TABLE", .vbar⟩

def enableField : Bytes := ascii "enable"

def restoreCount : Bytes := ascii "restore_count"

/-- What `Table::hget` leaves in its argument, which is empty for a field that is missing. -/
def hget (t : TableBase) (key field : Bytes) : Call Bytes := fun s =>
  match Table.hget t s.stateDb.keyspace key field with
  | .ok value => .ok (value.getD []) s
  | .error e => .error (.reply e) s

def hset (t : TableBase) (key field value : Bytes) : Call Unit := fun s =>
  match Table.hset t key field value s.stateDb with
  | (.ok _, server) => .ok () { s with stateDb := server }
  | (.error _, server) => .error (.reply .wrongType) { s with stateDb := server }

def coldStart (app_name : Bytes) : Call Bool := do
  hset restartTable app_name restoreCount (ascii "0")
  pure false

def warmStart (app_name : Bytes) (incr_restore_cnt : Bool) (value : Bytes) : Call Bool := do
  if incr_restore_cnt then
    match stoul value with
    | .ok count =>
      hset restartTable app_name restoreCount (decimal (count.setWidth 32 + 1).toNat)
    | .error e => throw (.stoul e)
  pure true

def checkRestoreCount (app_name : Bytes) (incr_restore_cnt : Bool) : Call Bool := do
  let value ← hget restartTable app_name restoreCount
  if value = [] then
    modify fun s => { s with enabled := false, systemWarmRebootEnabled := false }
    coldStart app_name
  else warmStart app_name incr_restore_cnt value

def checkSystem : Call Unit := do
  let value ← hget enableTable (ascii "system") enableField
  if value = ascii "true" then
    modify fun s => { s with enabled := true, systemWarmRebootEnabled := true }

def checkDocker (docker_name : Bytes) : Call Unit := do
  let value ← hget enableTable docker_name enableField
  if value = ascii "true" then
    modify fun s => { s with enabled := true }

def checkWarmStart (app_name docker_name : Bytes) (incr_restore_cnt : Bool) : Call Bool := do
  checkSystem
  checkDocker docker_name
  if !(← get).enabled then coldStart app_name
  else checkRestoreCount app_name incr_restore_cnt

def isWarmStart (s : State) : Bool :=
  s.enabled

def isSystemWarmRebootEnabled (s : State) : Bool :=
  s.systemWarmRebootEnabled

/-! ## What the database says -/

def stored (t : TableBase) (ks : Keyspace) (key field : Bytes) : Option Bytes :=
  (ks.hashAt (cStr (t.getKeyName key))).bind fun h => h[field]?

def readValue (value : Bytes) : Bytes :=
  Table.stripSpecialSym (cStr value)

variable (s : State) (app docker : Bytes) (incr : Bool)

def switch (row : Bytes) : Option Bytes :=
  stored enableTable s.stateDb.keyspace row enableField

def count : Option Bytes :=
  stored restartTable s.stateDb.keyspace app restoreCount

def IsOn (row : Bytes) : Prop :=
  switch s row = some (ascii "true")

instance (row : Bytes) : Decidable (IsOn s row) :=
  inferInstanceAs (Decidable (_ = _))

def ReadsOn (row : Bytes) : Prop :=
  (switch s row).map readValue = some (ascii "true")

instance (row : Bytes) : Decidable (ReadsOn s row) :=
  inferInstanceAs (Decidable (_ = _))

/-- A warm start is due: a switch is on and the count is there. -/
def Warm : Prop :=
  (IsOn s (ascii "system") ∨ IsOn s docker) ∧ (count s app).isSome

instance : Decidable (Warm s app docker) :=
  inferInstanceAs (Decidable (_ ∧ _))

def Counted (s' : State) : Prop :=
  if Warm s app docker then
    if incr then ∃ n, (count s app).bind parseDecimal = some n ∧
      count s' app = some (decimal (n + 1))
    else s'.stateDb = s.stateDb
  else count s' app = some (ascii "0")

/-- The call answers, reports and counts as the database is at this moment. -/
def Reflects : Prop :=
  ∃ s', checkWarmStart app docker incr s = .ok (decide (Warm s app docker)) s' ∧
    isWarmStart s' = decide (Warm s app docker) ∧
    isSystemWarmRebootEnabled s' = decide (IsOn s (ascii "system") ∧ (count s app).isSome) ∧
    Counted s app docker incr s'

def IsHash (t : TableBase) (s : State) (key : Bytes) : Prop :=
  (s.stateDb.keyspace.hashAt (cStr (t.getKeyName key))).isSome

/-- If the count is there and a switch is on, the count is not empty. If it is not empty and a
    switch was found on before, or is read as if it were, then one is on, likewise for that of the
    system; and a count to be increased is a numeral below the largest of 32 bits. -/
structure Fresh : Prop where
  systemEntry : IsHash enableTable s (ascii "system")
  dockerEntry : IsHash enableTable s docker
  appEntry : IsHash restartTable s app
  nonempty : ∀ v, count s app = some v → IsOn s (ascii "system") ∨ IsOn s docker → readValue v ≠ []
  current : ∀ v, count s app = some v → readValue v ≠ [] →
    s.enabled = true ∨ ReadsOn s (ascii "system") ∨ ReadsOn s docker →
      IsOn s (ascii "system") ∨ IsOn s docker
  currentSystem : ∀ v, count s app = some v → readValue v ≠ [] →
    s.systemWarmRebootEnabled = true ∨ ReadsOn s (ascii "system") → IsOn s (ascii "system")
  numeral : incr = true → Warm s app docker →
    ∃ n, (count s app).bind parseDecimal = some n ∧ n + 1 < 2 ^ 32

/-! ## Single steps of the call -/

variable {s app docker incr}

variable {t : TableBase} {key field : Bytes}

theorem hget_ok (hash : IsHash t s key) (plain : cStr field = field) :
    hget t key field s =
      .ok (((stored t s.stateDb.keyspace key field).map readValue).getD []) s := by
  obtain ⟨h, found⟩ := Option.isSome_iff_exists.mp hash
  simp only [hget, Table.hget_eq found, plain, stored, found]
  rfl

variable {value : Bytes} {s' : State}

theorem isHash_of_hget (ran : hget t key field s = .ok value s') : IsHash t s key ∧ s' = s := by
  unfold hget Table.hget at ran
  cases found : s.stateDb.keyspace.hashAt (cStr (t.getKeyName key)) with
  | none =>
    rw [found] at ran
    cases ran
  | some h =>
    rw [found] at ran
    cases ran
    exact ⟨by rw [IsHash, found]; rfl, rfl⟩

theorem hset_ok {h} (found : s.stateDb.keyspace.hashAt (cStr (t.getKeyName key)) = some h) :
    hset t key field value s = .ok () { s with
      stateDb := s.stateDb.write (cStr (t.getKeyName key))
        (Value.ofHash (h.insert (cStr field) (cStr value))) } := by
  obtain ⟨_, server, ran, rfl⟩ : Script.Ensures (Table.hset t key field value) s.stateDb
      fun _ server => server = s.stateDb.write (cStr (t.getKeyName key))
        (Value.ofHash (h.insert (cStr field) (cStr value))) :=
    .bind (Script.hset_ensures found (.pure rfl))
  simp only [hset, ran]

theorem isHash_of_hset (ran : hset t key field value s = .ok () s') : IsHash t s key := by
  cases found : s.stateDb.keyspace.hashAt (cStr (t.getKeyName key)) with
  | none =>
    obtain ⟨e, stops⟩ : Script.Stops (Table.hset t key field value) s.stateDb :=
      (Script.hset_stops found).bind _
    simp only [hset, stops] at ran
    cases ran
  | some h =>
    rw [IsHash, found]
    rfl

theorem readValue_true : readValue (ascii "true") = ascii "true" := by decide

variable {row : Bytes}

theorem ReadsOn.of_isOn (on : IsOn s row) : ReadsOn s row := by
  rw [ReadsOn, show switch s row = some (ascii "true") from on, Option.map_some, readValue_true]

theorem readsOn_iff : ((switch s row).map readValue).getD [] = ascii "true" ↔ ReadsOn s row := by
  rw [ReadsOn]
  cases switch s row with
  | none => simp [ascii]
  | some v => simp

theorem hget_switch (hash : IsHash enableTable s row) :
    hget enableTable row enableField s = .ok (((switch s row).map readValue).getD []) s :=
  hget_ok hash (by decide)

theorem hget_count (hash : IsHash restartTable s app) :
    hget restartTable app restoreCount s = .ok (((count s app).map readValue).getD []) s :=
  hget_ok hash (by decide)

def afterSystem (s : State) : State :=
  { s with
    enabled := s.enabled || decide (ReadsOn s (ascii "system"))
    systemWarmRebootEnabled := s.systemWarmRebootEnabled || decide (ReadsOn s (ascii "system")) }

theorem checkSystem_ok (hash : IsHash enableTable s (ascii "system")) :
    checkSystem s = .ok () (afterSystem s) := by
  rw [checkSystem, bind_ok (hget_switch hash)]
  by_cases on : ReadsOn s (ascii "system")
  · rw [if_pos (readsOn_iff.mpr on)]
    simp only [afterSystem, on, decide_true, Bool.or_true]
    rfl
  · rw [if_neg (mt readsOn_iff.mp on)]
    simp only [afterSystem, on, decide_false, Bool.or_false]
    rfl

theorem checkDocker_ok (hash : IsHash enableTable s docker) :
    checkDocker docker s = .ok () { s with
      enabled := s.enabled || decide (ReadsOn s docker) } := by
  rw [checkDocker, bind_ok (hget_switch hash)]
  by_cases on : ReadsOn s docker
  · rw [if_pos (readsOn_iff.mpr on)]
    simp only [on, decide_true, Bool.or_true]
    rfl
  · rw [if_neg (mt readsOn_iff.mp on)]
    simp only [on, decide_false, Bool.or_false]
    rfl

def afterSwitches (s : State) (docker : Bytes) : State :=
  { s with
    enabled := s.enabled || decide (ReadsOn s (ascii "system")) || decide (ReadsOn s docker)
    systemWarmRebootEnabled := s.systemWarmRebootEnabled || decide (ReadsOn s (ascii "system")) }

theorem checkWarmStart_eq (systemEntry : IsHash enableTable s (ascii "system"))
    (dockerEntry : IsHash enableTable s docker) :
    checkWarmStart app docker incr s =
      (if (afterSwitches s docker).enabled then checkRestoreCount app incr else coldStart app)
        (afterSwitches s docker) := by
  have second : checkDocker docker (afterSystem s) = .ok () (afterSwitches s docker) :=
    checkDocker_ok dockerEntry
  rw [checkWarmStart, bind_ok (checkSystem_ok systemEntry), bind_ok second]
  change (if !(afterSwitches s docker).enabled then coldStart app else checkRestoreCount app incr)
    (afterSwitches s docker) = _
  cases (afterSwitches s docker).enabled <;> rfl

theorem hset_count (appEntry : IsHash restartTable s app) (nulFree : cStr value = value) :
    ∃ db, hset restartTable app restoreCount value s = .ok () { s with stateDb := db } ∧
      count { s with stateDb := db } app = some value := by
  obtain ⟨h, found⟩ := Option.isSome_iff_exists.mp appEntry
  refine ⟨_, hset_ok found, ?_⟩
  have field : cStr restoreCount = restoreCount := by decide
  rw [count, stored, Server.write_keyspace, Keyspace.hashAt_write_ofHash, field, nulFree]
  simp

theorem coldStart_ok (appEntry : IsHash restartTable s app) :
    ∃ db, coldStart app s = .ok false { s with stateDb := db } ∧
      count { s with stateDb := db } app = some (ascii "0") := by
  have zero : cStr (ascii "0") = ascii "0" := by decide
  obtain ⟨db, ran, counted⟩ := hset_count appEntry zero
  refine ⟨db, ?_, counted⟩
  rw [coldStart, bind_ok ran]
  rfl

theorem checkRestoreCount_cold (appEntry : IsHash restartTable s app)
    (empty : ((count s app).map readValue).getD [] = []) (incr : Bool) :
    ∃ db, checkRestoreCount app incr s = .ok false ⟨false, false, db⟩ ∧
      count ⟨false, false, db⟩ app = some (ascii "0") := by
  obtain ⟨db, ran, counted⟩ :=
    coldStart_ok (s := { s with enabled := false, systemWarmRebootEnabled := false }) appEntry
  refine ⟨db, ?_, counted⟩
  rw [checkRestoreCount, bind_ok (hget_count appEntry), if_pos empty]
  exact ran

variable {v : Bytes}

theorem checkRestoreCount_warm (appEntry : IsHash restartTable s app) (there : count s app = some v)
    (some : readValue v ≠ []) :
    checkRestoreCount app incr s = warmStart app incr (readValue v) s := by
  rw [checkRestoreCount, bind_ok (hget_count appEntry), there]
  exact congrFun (if_neg some) s

/-! ## When the answer is right -/

theorem reflects_of_false (ran : checkWarmStart app docker incr s = .ok false s')
    (off : s'.enabled = false) (systemOff : s'.systemWarmRebootEnabled = false)
    (counted : count s' app = some (ascii "0")) :
    Reflects s app docker incr ↔ ¬ Warm s app docker := by
  constructor
  · rintro ⟨s'', ran', -⟩ warm
    rw [ran] at ran'
    simp [warm] at ran'
  · intro cold
    have system : ¬ (IsOn s (ascii "system") ∧ (count s app).isSome) := fun both =>
      cold ⟨.inl both.1, both.2⟩
    refine ⟨s', ?_, ?_, ?_, ?_⟩
    · simp [ran, cold]
    · simp [isWarmStart, off, cold]
    · rw [isSystemWarmRebootEnabled, systemOff, decide_eq_false system]
    · rwa [Counted, if_neg cold]

theorem reflects_of_true {C} (ran : checkWarmStart app docker incr s = .ok true s')
    (on : s'.enabled) (there : (count s app).isSome)
    (counted : Warm s app docker → (Counted s app docker incr s' ↔ C)) :
    Reflects s app docker incr ↔ (IsOn s (ascii "system") ∨ IsOn s docker) ∧
      (s'.systemWarmRebootEnabled ↔ IsOn s (ascii "system")) ∧ C := by
  constructor
  · rintro ⟨s'', ran', reports, system, counts⟩
    rw [ran, EStateM.Result.ok.injEq] at ran'
    obtain ⟨answer, rfl⟩ := ran'
    have warm : Warm s app docker := by simpa using answer.symm
    refine ⟨warm.1, ?_, (counted warm).mp counts⟩
    rw [isSystemWarmRebootEnabled] at system
    simp [system, there]
  · rintro ⟨switched, system, counts⟩
    have warm : Warm s app docker := ⟨switched, there⟩
    refine ⟨s', by simp [ran, warm], by simp [isWarmStart, on, warm], ?_, (counted warm).mpr counts⟩
    rw [isSystemWarmRebootEnabled, Bool.eq_iff_iff, system]
    simp [there]

/-! ## Counting -/

theorem nul_notMem_numeral (digits : ∀ c ∈ v, isDigit c) : 0 ∉ v :=
  fun nul => absurd (digits 0 nul) (by decide)

theorem readValue_numeral (digits : ∀ c ∈ v, isDigit c) : readValue v = v :=
  Table.read_eq_self_iff.mpr
    ⟨nul_notMem_numeral digits, fun at' => absurd (digits 64 at') (by decide)⟩

variable {c : BitVec 64}

theorem increased_iff (read : stoul (readValue v) = .ok c) (n : Nat)
    (numeral : parseDecimal v = some n) :
    decimal (c.setWidth 32 + 1).toNat = decimal (n + 1) ↔ n + 1 < 2 ^ 32 := by
  obtain ⟨-, digits, -⟩ := digits_of_parseDecimal numeral
  rw [readValue_numeral digits, stoul_numeral numeral] at read
  split at read
  · cases read
  · rename_i fits
    obtain rfl := Except.ok.inj read
    have value : ((BitVec.ofNat 64 n).setWidth 32 + 1).toNat = (n + 1) % 2 ^ 32 := by
      simp [BitVec.toNat_add]
    constructor
    · intro same
      have equal := congrArg decimalValue same
      rw [decimalValue_decimal, decimalValue_decimal] at equal
      omega
    · intro small
      rw [value, Nat.mod_eq_of_lt small]

theorem not_stoul_of_numeral {n e} (read : stoul (readValue v) = .error e)
    (numeral : parseDecimal v = some n) : ¬ n + 1 < 2 ^ 32 := by
  obtain ⟨-, digits, -⟩ := digits_of_parseDecimal numeral
  rw [readValue_numeral digits, stoul_numeral numeral] at read
  split at read
  · rename_i large
    omega
  · cases read

theorem warmStart_error {e} (read : stoul value = .error e) :
    warmStart app true value s = .error (.stoul e) s := by
  simp only [warmStart, read]
  rfl

theorem warmStart_ok (appEntry : IsHash restartTable s app) (read : stoul value = .ok c) :
    ∃ db, warmStart app true value s = .ok true { s with stateDb := db } ∧
      count { s with stateDb := db } app = some (decimal (c.setWidth 32 + 1).toNat) := by
  obtain ⟨db, ran, counted⟩ := hset_count appEntry
    (cStr_of_nulFree (nul_notMem_numeral (decimal_isDigit (c.setWidth 32 + 1).toNat)))
  refine ⟨db, ?_, counted⟩
  simp only [warmStart, read, if_true]
  rw [bind_ok ran]
  rfl

def Countable (incr : Bool) (v : Bytes) : Prop :=
  incr = true → ∃ n, parseDecimal v = some n ∧ n + 1 < 2 ^ 32

theorem countable_iff (read : stoul (readValue v) = .ok c) :
    (∃ n, parseDecimal v = some n ∧ decimal (c.setWidth 32 + 1).toNat = decimal (n + 1)) ↔
      Countable true v := by
  constructor
  · rintro ⟨n, numeral, same⟩ _
    exact ⟨n, numeral, (increased_iff read n numeral).mp same⟩
  · intro countable
    obtain ⟨n, numeral, small⟩ := countable rfl
    exact ⟨n, numeral, (increased_iff read n numeral).mpr small⟩

theorem enabled_afterSwitches : (afterSwitches s docker).enabled ↔
    s.enabled ∨ ReadsOn s (ascii "system") ∨ ReadsOn s docker := by
  simp [afterSwitches, or_assoc]

theorem system_afterSwitches : (afterSwitches s docker).systemWarmRebootEnabled ↔
    s.systemWarmRebootEnabled ∨ ReadsOn s (ascii "system") := by
  simp [afterSwitches]

section Cases

variable (systemEntry : IsHash enableTable s (ascii "system"))
  (dockerEntry : IsHash enableTable s docker) (appEntry : IsHash restartTable s app)
include systemEntry dockerEntry appEntry

theorem reflects_iff_of_counted (there : count s app = some v) (nonempty : readValue v ≠ [])
    (on : (afterSwitches s docker).enabled) :
    Reflects s app docker incr ↔ (IsOn s (ascii "system") ∨ IsOn s docker) ∧
      ((afterSwitches s docker).systemWarmRebootEnabled ↔ IsOn s (ascii "system")) ∧
      Countable incr v := by
  have isThere : (count s app).isSome := by
    rw [there]
    rfl
  have whole : checkWarmStart app docker incr s =
      warmStart app incr (readValue v) (afterSwitches s docker) := by
    rw [checkWarmStart_eq systemEntry dockerEntry, if_pos on]
    exact checkRestoreCount_warm appEntry there nonempty
  cases incr with
  | false =>
    refine reflects_of_true whole on isThere fun warm => ?_
    simp [Counted, warm, Countable, afterSwitches]
  | true =>
    cases read : stoul (readValue v) with
    | error e =>
      rw [warmStart_error read] at whole
      constructor
      · rintro ⟨s', ran, -⟩
        rw [whole] at ran
        cases ran
      · rintro ⟨-, -, countable⟩
        obtain ⟨n, numeral, small⟩ := countable rfl
        exact absurd small (not_stoul_of_numeral read numeral)
    | ok c =>
      have appEntry' : IsHash restartTable (afterSwitches s docker) app := appEntry
      obtain ⟨db, ran, counted⟩ := warmStart_ok appEntry' read
      have counts : Warm s app docker → (Counted s app docker true
          { afterSwitches s docker with stateDb := db } ↔ Countable true v) := by
        intro warm
        rw [← countable_iff read, Counted, if_pos warm, if_pos rfl, there]
        simp only [Option.bind_some, counted, Option.some.injEq]
      have answer := reflects_of_true (whole.trans ran) on isThere counts
      exact answer

theorem reflects_iff_of_empty (empty : ((count s app).map readValue).getD [] = [])
    (on : (afterSwitches s docker).enabled) :
    Reflects s app docker incr ↔ ¬ Warm s app docker := by
  have appEntry' : IsHash restartTable (afterSwitches s docker) app := appEntry
  obtain ⟨db, ran, counted⟩ := checkRestoreCount_cold appEntry' empty incr
  refine reflects_of_false ?_ rfl rfl counted
  rw [checkWarmStart_eq systemEntry dockerEntry, if_pos on, ran]

theorem reflects_of_off (ordered : s.systemWarmRebootEnabled → s.enabled)
    (off : ¬ (afterSwitches s docker).enabled) : Reflects s app docker incr := by
  have appEntry' : IsHash restartTable (afterSwitches s docker) app := appEntry
  obtain ⟨db, ran, counted⟩ := coldStart_ok appEntry'
  simp only [afterSwitches, Bool.or_eq_true, decide_eq_true_eq, not_or] at off
  obtain ⟨⟨notEnabled, systemOff⟩, dockerOff⟩ := off
  have cold : ¬ Warm s app docker := by
    rintro ⟨system | docker, -⟩
    · exact systemOff (.of_isOn system)
    · exact dockerOff (.of_isOn docker)
  have after (ran : checkWarmStart app docker incr s =
      .ok false { afterSwitches s docker with stateDb := db }) := reflects_of_false ran
  refine (after ?_ ?_ ?_ counted).mpr cold
  · rw [checkWarmStart_eq systemEntry dockerEntry, if_neg, ran]
    simp [afterSwitches, notEnabled, systemOff, dockerOff]
  · simp [afterSwitches, notEnabled, systemOff, dockerOff]
  · have notSystem : ¬ s.systemWarmRebootEnabled := mt ordered notEnabled
    simp [afterSwitches, notSystem, systemOff]

/-! ## The condition, case by case -/

theorem fresh_of_missing (missing : count s app = none) : Fresh s app docker incr := by
  refine ⟨systemEntry, dockerEntry, appEntry, ?_, ?_, ?_, ?_⟩
  all_goals simp [missing, Warm]

theorem fresh_iff_of_empty (there : count s app = some v) (empty : readValue v = []) :
    Fresh s app docker incr ↔ ¬ Warm s app docker := by
  have only : ∀ v', count s app = some v' → readValue v' = [] := by
    intro v' found
    rw [there, Option.some.injEq] at found
    rwa [← found]
  constructor
  · intro fresh warm
    exact fresh.nonempty v there warm.1 empty
  · intro cold
    refine ⟨systemEntry, dockerEntry, appEntry, ?_, ?_, ?_, fun _ warm => absurd warm cold⟩
    · intro v' _ on
      exact absurd ⟨on, by rw [there]; rfl⟩ cold
    · intro v' found nonempty
      exact absurd (only v' found) nonempty
    · intro v' found nonempty
      exact absurd (only v' found) nonempty

theorem fresh_iff_of_counted (there : count s app = some v) (nonempty : readValue v ≠ [])
    (on : (afterSwitches s docker).enabled) :
    Fresh s app docker incr ↔ (IsOn s (ascii "system") ∨ IsOn s docker) ∧
      ((afterSwitches s docker).systemWarmRebootEnabled ↔ IsOn s (ascii "system")) ∧
      Countable incr v := by
  have isThere : (count s app).isSome := by
    rw [there]
    rfl
  constructor
  · intro fresh
    have switched := fresh.current v there nonempty (enabled_afterSwitches.mp on)
    refine ⟨switched, ⟨?_, ?_⟩, ?_⟩
    · intro reported
      exact fresh.currentSystem v there nonempty (system_afterSwitches.mp reported)
    · intro isOn
      exact system_afterSwitches.mpr (.inr (.of_isOn isOn))
    · intro increase
      have numeral := fresh.numeral increase ⟨switched, isThere⟩
      rwa [there] at numeral
  · rintro ⟨switched, system, countable⟩
    refine ⟨systemEntry, dockerEntry, appEntry, ?_, fun _ _ _ _ => switched, ?_, ?_⟩
    · intro v' found _
      rw [there, Option.some.injEq] at found
      rwa [← found]
    · intro _ _ _ reported
      exact system.mp (system_afterSwitches.mpr reported)
    · intro increase _
      rw [there]
      exact countable increase

theorem fresh_of_off (ordered : s.systemWarmRebootEnabled → s.enabled)
    (off : ¬ (afterSwitches s docker).enabled) : Fresh s app docker incr := by
  rw [enabled_afterSwitches, not_or, not_or] at off
  obtain ⟨notEnabled, systemOff, dockerOff⟩ := off
  have noneOn : ¬ (IsOn s (ascii "system") ∨ IsOn s docker) := by
    rintro (system | docker)
    · exact systemOff (.of_isOn system)
    · exact dockerOff (.of_isOn docker)
  refine ⟨systemEntry, dockerEntry, appEntry, ?_, ?_, ?_, fun _ warm => absurd warm.1 noneOn⟩
  · intro _ _ on
    exact absurd on noneOn
  · rintro _ _ _ (remembered | system | docker)
    · exact absurd remembered notEnabled
    · exact absurd system systemOff
    · exact absurd docker dockerOff
  · rintro _ _ _ (remembered | system)
    · exact absurd (ordered remembered) notEnabled
    · exact absurd system systemOff

end Cases

theorem entries_of_returned {b} (ran : checkWarmStart app docker incr s = .ok b s') :
    IsHash enableTable s (ascii "system") ∧ IsHash enableTable s docker ∧
      IsHash restartTable s app := by
  obtain ⟨_, s₁, first, rest⟩ := bind_ok_iff.mp ran
  obtain ⟨_, s₂, second, last⟩ := bind_ok_iff.mp rest
  obtain ⟨_, _, firstRead, -⟩ := bind_ok_iff.mp first
  have systemEntry := (isHash_of_hget firstRead).1
  rw [checkSystem_ok systemEntry] at first
  cases first
  obtain ⟨_, _, secondRead, -⟩ := bind_ok_iff.mp second
  have dockerEntry : IsHash enableTable s docker := (isHash_of_hget secondRead).1
  refine ⟨systemEntry, dockerEntry, ?_⟩
  rw [checkWarmStart_eq systemEntry dockerEntry] at ran
  split at ran
  · obtain ⟨_, _, read, -⟩ := bind_ok_iff.mp ran
    exact (isHash_of_hget read).1
  · obtain ⟨_, _, written, -⟩ := bind_ok_iff.mp ran
    have entry := isHash_of_hset written
    exact entry

theorem reflects_iff_fresh (ordered : s.systemWarmRebootEnabled → s.enabled) :
    Reflects s app docker incr ↔ Fresh s app docker incr := by
  by_cases entries : IsHash enableTable s (ascii "system") ∧ IsHash enableTable s docker ∧
      IsHash restartTable s app
  · obtain ⟨systemEntry, dockerEntry, appEntry⟩ := entries
    by_cases on : (afterSwitches s docker).enabled
    · cases there : count s app with
      | none =>
        rw [reflects_iff_of_empty systemEntry dockerEntry appEntry (by simp [there]) on]
        exact iff_of_true (by simp [Warm, there])
          (fresh_of_missing systemEntry dockerEntry appEntry there)
      | some v =>
        by_cases empty : readValue v = []
        · rw [reflects_iff_of_empty systemEntry dockerEntry appEntry (by simp [there, empty]) on,
            fresh_iff_of_empty systemEntry dockerEntry appEntry there empty]
        · rw [reflects_iff_of_counted systemEntry dockerEntry appEntry there empty on,
            fresh_iff_of_counted systemEntry dockerEntry appEntry there empty on]
    · exact iff_of_true (reflects_of_off systemEntry dockerEntry appEntry ordered on)
        (fresh_of_off systemEntry dockerEntry appEntry ordered on)
  · refine iff_of_false ?_ ?_
    · rintro ⟨s', ran, -⟩
      exact entries (entries_of_returned ran)
    · intro fresh
      exact entries ⟨fresh.systemEntry, fresh.dockerEntry, fresh.appEntry⟩

end SwssCommon.WarmStart
