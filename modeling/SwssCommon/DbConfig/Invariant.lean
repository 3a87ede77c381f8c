import SwssCommon.DbConfig.Config
import SwssCommon.Lib.Run

/-! # What holds of the database configuration

The three maps have the same keys. The default key is among them whenever the configuration counts
as initialized, provided that the first include of the default key tells something.
-/

namespace SwssCommon.SonicDBConfig

open Bytes Throwing Std.ExtTreeMap SonicDBKey Except

def Aligned (s : SonicDBConfig) : Prop :=
  ∀ key, (key ∈ s.instInfo ↔ key ∈ s.dbInfo) ∧ (key ∈ s.dbInfo ↔ key ∈ s.dbSeparator)

def Present (s : SonicDBConfig) : Prop :=
  default ∈ s.instInfo ∧ default ∈ s.dbInfo ∧
    default ∈ s.dbSeparator

def HasDefault (s : SonicDBConfig) : Prop :=
  s.init = true → Present s

def Tell (files : Files) (P : Entries → Prop) : Prop :=
  ∀ file ignoreNonexistent entries,
    parseDatabaseConfig files file ignoreNonexistent = .ok entries → P entries

variable {s : SonicDBConfig} {I : SonicDBConfig → Prop} {files : Files} {P : Entries → Prop}

theorem tell_true (files : Files) : Tell files fun _ => True := fun _ _ _ _ => trivial

/-! ## The calls that fill the maps -/

theorem aligned_publish (aligned : Aligned s) (key : SonicDBKey) (entries : Entries) :
    Aligned (publish key entries s) := by
  intro other
  unfold publish
  cases entries.nonempty <;> cases key.isEmpty <;> simp [aligned other]

theorem keeps_loadInclusions (tell : Tell files P)
    (keeps : ∀ s key entries, P entries → I s → I (publish key entries s)) (dirName : Bytes)
    (ignoreNonexistent : Bool) (elements : List JsonValue) :
    Keeps I (loadInclusions files dirName ignoreNonexistent elements) := by
  induction elements with
  | nil => exact .pure ()
  | cons element rest ih =>
    apply Keeps.bind _ fun _ => ih
    apply (Keeps.ofExcept _).bind
    intro inclusion s
    apply Keeps.ite (.pure _)
    apply Keeps.ofExcept_bind
    intro entries read
    have told : parseDatabaseConfig files inclusion.localFile ignoreNonexistent = .ok entries := by
      cases parsed : parseDatabaseConfig files inclusion.localFile ignoreNonexistent with
      | error e =>
        rw [parsed] at read
        cases read
      | ok _ =>
        rw [parsed] at read
        exact congrArg ok (ok.inj read)
    exact .modify fun s => keeps s inclusion.key entries (tell _ _ _ told)

theorem keeps_initializeGlobalConfig (tell : Tell files P)
    (keeps : ∀ s key entries, P entries → I s → I (publish key entries s))
    (flag : ∀ s, I s → I { s with globalInit := true }) (file : Bytes)
    (ignoreNonexistent : Bool) : Keeps I (initializeGlobalConfig files file ignoreNonexistent) := by
  intro s
  apply Keeps.ite (.pure _)
  apply Keeps.bind _ fun _ => .modify flag
  unfold loadGlobal
  split
  · apply Keeps.adaptExcept
    apply (Keeps.ofExcept _).bind
    exact fun elements => keeps_loadInclusions tell keeps _ _ elements
  · exact .pure _

theorem keeps_initializeConfig (tell : Tell files P)
    (keeps : ∀ s entries, P entries → I s → I (adopt entries s)) (file : Bytes) :
    Keeps I (initializeConfig files file) := by
  intro s
  apply Keeps.ite (.throw _)
  apply Keeps.ofExcept_bind
  exact fun entries told => .modify fun s => keeps s entries (tell _ _ _ told)

/-! ## The lookups, which may load the default file -/

section Lookups

variable (tell : Tell files P) (keeps : ∀ s entries, P entries → I s → I (adopt entries s))
include tell keeps

theorem keeps_ensureInit : Keeps I (ensureInit files) := by
  apply Keeps.get.bind
  intro s
  exact Keeps.ite (.pure _) (keeps_initializeConfig tell keeps _)

omit tell keeps in
theorem keeps_requireGlobal (function : Bytes) (key : SonicDBKey) :
    Keeps I (requireGlobal function key) := by
  apply Keeps.get.bind
  intro s
  exact Keeps.ite (.throw _) (.pure _)

theorem keeps_atKey {V α function key invalid}
    {map} {found : V → M α}
    (entry : ∀ v, Keeps I (found v)) : Keeps I (atKey files function key map invalid found) := by
  apply (keeps_ensureInit tell keeps).bind
  intro _
  apply (keeps_requireGlobal _ key).bind
  intro _
  apply Keeps.get.bind
  intro s
  split
  · exact .throw _
  · exact entry _

omit tell keeps in
theorem keeps_orThrow {α} (found : Option α) (e : Failure) :
    Keeps I (orThrow found e) := by
  cases found with
  | none => exact .throw e
  | some a => exact .pure a

theorem keeps_getDbInfo (dbName : Bytes) (key : SonicDBKey) :
    Keeps I (getDbInfo files dbName key) :=
  keeps_atKey tell keeps fun _ => keeps_orThrow _ _

theorem keeps_getRedisInfo (dbName : Bytes) (key : SonicDBKey) :
    Keeps I (getRedisInfo files dbName key) :=
  keeps_atKey tell keeps fun _ =>
    (keeps_getDbInfo tell keeps dbName key).bind fun _ => keeps_orThrow _ _

theorem keeps_getSeparatorOf (dbId : Int) (key : SonicDBKey) :
    Keeps I (getSeparatorOf files dbId key) :=
  keeps_atKey tell keeps fun _ => keeps_orThrow _ _

omit tell keeps in
theorem keeps_validateNamespace (netns : Bytes) : Keeps I (validateNamespace netns) := by
  apply Keeps.ite (.pure _)
  intro s
  apply Keeps.ite (.throw _)
  apply Keeps.get.bind
  intro s
  exact Keeps.ite (.pure _) (.throw _)

theorem keeps_getDbList (key : SonicDBKey) : Keeps I (getDbList files key) := by
  apply (keeps_ensureInit tell keeps).bind
  intro _
  apply (keeps_validateNamespace _).bind
  intro _
  apply Keeps.get.bind
  intro s
  exact (keeps_orThrow _ _).bind fun _ => .pure _

theorem keeps_call (reset : I start) (call : Call)
    (global : ∀ file ignore, call = .initGlobal file ignore →
      Keeps I (initializeGlobalConfig files file ignore)) : Keeps I (call.run files) := by
  have result : ∀ {α : Type} {x : M α}, Keeps I x → Keeps I (do let _ ← x) :=
    fun keeps => keeps.bind fun _ => .pure _
  have initialized := keeps_ensureInit tell keeps
  cases call with
  | init file => exact keeps_initializeConfig tell keeps file
  | initGlobal file ignoreNonexistent => exact global file ignoreNonexistent rfl
  | reset => exact .modify fun _ _ => reset
  | getDbInfo dbName key => exact result (keeps_getDbInfo tell keeps dbName key)
  | getRedisInfo dbName key => exact result (keeps_getRedisInfo tell keeps dbName key)
  | getSeparator dbId key => exact result (keeps_getSeparatorOf tell keeps dbId key)
  | validateNamespace netns => exact keeps_validateNamespace netns
  | getDbKeys | getNamespaces =>
    exact result (initialized.bind fun _ => Keeps.get.bind fun _ => .pure _)
  | getDbList key => exact result (keeps_getDbList tell keeps key)
  | getInstanceList key =>
    exact result (initialized.bind fun _ => (keeps_validateNamespace _).bind fun _ =>
      Keeps.get.bind fun _ => .pure _)

end Lookups

/-! ## The default key -/

theorem present_adopt (entries : Entries) (s : SonicDBConfig) : Present (adopt entries s) := by
  simp [Present, adopt]

theorem aligned_adopt (aligned : Aligned s) (entries : Entries) : Aligned (adopt entries s) := by
  intro key
  simp [adopt, aligned key]

theorem present_publish (present : Present s) (key : SonicDBKey) (entries : Entries) :
    Present (publish key entries s) := by
  unfold publish Present at *
  cases entries.nonempty <;> cases key.isEmpty <;> simp [present]

theorem present_publish_default {entries} (some : entries.nonempty)
    (s : SonicDBConfig) : Present (publish .default entries s) := by
  unfold publish Present
  simp [some, SonicDBKey.isEmpty, SonicDBKey.default]

theorem hasDefault_publish (has : HasDefault s) {key} (other : key ≠ .default)
    (entries : Entries) : HasDefault (publish key entries s) := by
  intro init
  rw [init_publish, Bool.or_eq_true, SonicDBKey.isEmpty_iff] at init
  cases init with
  | inl isDefault => exact absurd isDefault other
  | inr init => exact present_publish (has init) key entries

/-- The first include of the default key tells something, if its file is read at all. -/
def TellsDefault (files : Files) (dirName : Bytes) (ignoreNonexistent : Bool)
    (elements : List JsonValue) : Prop :=
  ∀ before element after inclusion entries, elements = before ++ element :: after →
    (∀ e ∈ before, ∀ i, readInclusion dirName e = .ok i → i.key ≠ .default) →
    readInclusion dirName element = .ok inclusion → inclusion.key = .default →
    parseDatabaseConfig files inclusion.localFile ignoreNonexistent = .ok entries →
    entries.nonempty = true

variable {dirName : Bytes} {ignoreNonexistent : Bool} {element : JsonValue}
  {elements : List JsonValue} {inclusion : Inclusion}

theorem TellsDefault.tail
    (tells : TellsDefault files dirName ignoreNonexistent (element :: elements))
    (read : readInclusion dirName element = .ok inclusion) (other : inclusion.key ≠ .default) :
    TellsDefault files dirName ignoreNonexistent elements := by
  intro before e after i entries split earlier
  apply tells (element :: before) e after i entries (by rw [split, List.cons_append])
  intro e' member i' read'
  cases List.mem_cons.mp member with
  | inl first =>
    obtain rfl : inclusion = i' := ok.inj (read.symm.trans (first ▸ read'))
    exact other
  | inr later => exact earlier e' later i' read'

theorem loadInclusions_hasDefault (has : HasDefault s)
    (tells : s.init = false → TellsDefault files dirName ignoreNonexistent elements) :
    Ends (loadInclusions files dirName ignoreNonexistent elements) s
      (fun _ => HasDefault) (fun _ => HasDefault) := by
  induction elements generalizing s with
  | nil => exact Ends.pure has
  | cons element rest ih =>
    apply Ends.bind
    apply Ends.bind
    apply Ends.ofExcept _ fun _ _ => has
    intro inclusion read
    apply Ends.bind_get
    split
    · rename_i skipped
      have init : s.init := by simp_all
      exact Ends.pure (ih has (by simp [init]))
    rename_i parsed
    apply Ends.bind
    apply Ends.ofExcept _ fun _ _ => has
    intro entries told
    by_cases isDefault : inclusion.key = .default
    · have fresh : s.init = false := by simpa [SonicDBKey.isEmpty_iff, isDefault] using parsed
      have some : entries.nonempty := by
        apply tells fresh [] element rest inclusion entries rfl (by simp) read isDefault
        cases ran : parseDatabaseConfig files inclusion.localFile ignoreNonexistent with
        | error e => simp [ran, Except.mapError] at told
        | ok entries' => simpa [ran, Except.mapError] using told
      rw [isDefault]
      apply ih fun _ => present_publish_default some s
      simp [init_publish, SonicDBKey.isEmpty, SonicDBKey.default]
    · apply ih (hasDefault_publish has isDefault entries)
      intro still
      rw [init_publish, Bool.or_eq_false_iff] at still
      exact (tells still.2).tail read isDefault

/-- A load of a global file while nothing is initialized: the first include of the default
    key has something to tell. -/
def Populated (s : SonicDBConfig) (files : Files) : Call → Prop
  | .initGlobal file ignoreNonexistent => s.init = false → s.globalInit = false →
      ∀ content elements, files (cStr file) = .readable content → includes content = .ok elements →
        TellsDefault files (SonicDBConfig.dirName file) ignoreNonexistent elements
  | _ => True

theorem initializeGlobalConfig_hasDefault {file} (has : HasDefault s)
    (populated : Populated s files (.initGlobal file ignoreNonexistent)) :
    Ends (initializeGlobalConfig files file ignoreNonexistent) s
      (fun _ => HasDefault) (fun _ => HasDefault) := by
  apply Ends.bind_get
  split
  · exact Ends.pure has
  rename_i fresh
  apply Ends.bind
  unfold loadGlobal
  split
  · rename_i content found
    apply Ends.adaptExcept
    apply Ends.bind
    apply Ends.ofExcept _ fun _ _ => has
    intro elements listed
    apply (loadInclusions_hasDefault has _).mono
    · exact fun _ s' after => Ends.modify after
    · exact fun _ s' after => after
    · exact fun init => populated init (by simpa using fresh) content elements found listed
  · exact Ends.pure (Ends.modify has)

/-! ## Lookups of the default key -/

def InvalidKey (e : Failure) : Prop :=
  e = invalidKey .default ∨ e = invalidInstanceKey .default ∨
    e = .outOfRange (ascii "_Map_base::at")

theorem not_invalidKey_runtime (what : Bytes) : ¬ InvalidKey (.runtime what) := by
  simp [InvalidKey, invalidKey, invalidInstanceKey]

theorem not_invalidKey_failed (rest : Bytes) :
    ¬ InvalidKey (.outOfRange (ascii "Failed to find " ++ rest)) := by
  have key : ∀ rest', ascii "Failed to find " ++ rest ≠ ascii "Key " ++ rest' := by
    intro rest' same
    exact absurd (congrArg List.head? same) (by simp [ascii])
  have map : ascii "Failed to find " ++ rest ≠ ascii "_Map_base::at" := by
    intro same
    exact absurd (congrArg List.head? same) (by simp [ascii])
  rintro (wrong | wrong | wrong)
  · exact key _ (by simpa [invalidKey] using Failure.outOfRange.inj wrong)
  · exact key _ (by simpa [invalidInstanceKey] using Failure.outOfRange.inj wrong)
  · exact map (Failure.outOfRange.inj wrong)

theorem runtime_of_parseDatabaseConfig {file e}
    (failed : parseDatabaseConfig files file ignoreNonexistent = .error e) :
    ∃ what, e = .runtime what := by
  unfold parseDatabaseConfig at failed
  split at failed
  · split at failed
    · cases failed
    · exact ⟨_, (error.inj failed).symm⟩
  · exact ⟨_, (error.inj failed).symm⟩
  · split at failed
    · cases failed
    · exact ⟨_, (error.inj failed).symm⟩

theorem ensureInit_present (has : HasDefault s) :
    Ends (ensureInit files) s (fun _ => Present) (fun e _ => ¬ InvalidKey e) := by
  apply Ends.bind_get
  split
  · rename_i init
    exact Ends.pure (has init)
  · apply Ends.bind_get
    rename_i fresh
    rw [if_neg fresh]
    apply Ends.bind
    apply Ends.ofExcept
    · exact fun entries _ => Ends.modify (present_adopt entries s)
    · intro e failed
      obtain ⟨what, rfl⟩ := runtime_of_parseDatabaseConfig failed
      exact not_invalidKey_runtime what

theorem atKey_default {V α function invalid}
    {map : SonicDBConfig → Std.ExtTreeMap SonicDBKey V cmp} {found : V → M α}
    (has : HasDefault s) (here : ∀ s, Present s → default ∈ map s)
    (entry : ∀ s v, Present s → Ends (found v) s (fun _ _ => True) (fun e _ => ¬ InvalidKey e)) :
    Ends (atKey files function .default map invalid found) s
      (fun _ _ => True) (fun e _ => ¬ InvalidKey e) := by
  apply (ensureInit_present has).seq
  intro _ s' present
  apply Ends.bind
  apply Ends.pure
  apply Ends.bind_get
  split
  · rename_i absent
    have there := here s' present
    rw [mem_iff_isSome_getElem?, absent] at there
    cases there
  · exact entry s' _ present

theorem orThrow_ends {α} {found : Option α} {e} (valid : ¬ InvalidKey e) :
    Ends (orThrow found e) s (fun _ _ => True) (fun e _ => ¬ InvalidKey e) := by
  cases found with
  | none => exact Ends.throw valid
  | some a => exact Ends.pure trivial

theorem getDbInfo_default (has : HasDefault s) (dbName : Bytes) :
    Ends (getDbInfo files dbName .default) s (fun _ _ => True) (fun e _ => ¬ InvalidKey e) := by
  apply atKey_default has fun _ present => present.2.1
  intro s v _
  apply orThrow_ends
  simpa using not_invalidKey_failed _

theorem getRedisInfo_default (has : HasDefault s) (dbName : Bytes) :
    Ends (getRedisInfo files dbName .default) s (fun _ _ => True) (fun e _ => ¬ InvalidKey e) := by
  apply atKey_default has fun _ present => present.1
  intro s v present
  apply (getDbInfo_default (fun _ => present) dbName).seq
  intro info s' _
  apply orThrow_ends
  simpa [ascii] using not_invalidKey_failed (ascii "the Redis instance for " ++ dbName ++
    ascii " database in " ++ default.toString ++ ascii " key")

theorem getSeparatorOf_default (has : HasDefault s) (dbId : Int) :
    Ends (getSeparatorOf files dbId .default) s (fun _ _ => True) (fun e _ => ¬ InvalidKey e) := by
  apply atKey_default has fun _ present => present.2.2
  intro s v _
  apply orThrow_ends
  simpa using not_invalidKey_failed _

theorem getDbList_default (has : HasDefault s) :
    Ends (getDbList files .default) s (fun _ _ => True) (fun e _ => ¬ InvalidKey e) := by
  apply (ensureInit_present has).seq
  intro _ s' present
  apply Ends.bind
  apply Ends.pure
  apply Ends.bind_get
  obtain ⟨infos, found⟩ := Option.isSome_iff_exists.mp (mem_iff_isSome_getElem?.mp present.2.1)
  rw [found]
  exact Ends.bind (Ends.pure (Ends.pure trivial))

/-- The lookups that need the key to be there, for the default one. -/
def DefaultLookup (call : Call) : Prop :=
  (∃ dbName, call = .getDbInfo dbName .default) ∨ (∃ dbName, call = .getRedisInfo dbName .default) ∨
    (∃ dbId, call = .getSeparator dbId .default) ∨ call = .getDbList .default

theorem lookup_default (has : HasDefault s) {call} (lookup : DefaultLookup call) :
    Ends (call.run files) s (fun _ _ => True) (fun e _ => ¬ InvalidKey e) := by
  have result : ∀ {α : Type} {x : M α}, Ends x s (fun _ _ => True) (fun e _ => ¬ InvalidKey e) →
      Ends (do let _ ← x) s (fun _ _ => True) (fun e _ => ¬ InvalidKey e) :=
    fun ends => Ends.bind (ends.mono (fun _ _ _ => Ends.pure trivial) fun _ _ still => still)
  obtain ⟨dbName, rfl⟩ | ⟨dbName, rfl⟩ | ⟨dbId, rfl⟩ | rfl := lookup
  · exact result (getDbInfo_default has dbName)
  · exact result (getRedisInfo_default has dbName)
  · exact result (getSeparatorOf_default has dbId)
  · exact result (getDbList_default has)

/-! ## Every sequence of calls -/

def Step (s : SonicDBConfig) (call : Files × Call) (s' : SonicDBConfig) : Prop :=
  s' = endState (call.2.run call.1 s)

def PopulatedStep (s : SonicDBConfig) (call : Files × Call) (s' : SonicDBConfig) : Prop :=
  Step s call s' ∧ Populated s call.1 call.2

theorem aligned_kept {ls} (run : Run Step start ls s) : Aligned s := by
  induction run with
  | refl => simp [Aligned, start]
  | @snoc t u ls call _ step ih =>
    rw [step]
    apply Keeps.endState _ ih
    apply keeps_call (tell_true _) (fun s entries _ aligned => aligned_adopt aligned entries)
    · simp [Aligned, start]
    · intro file ignoreNonexistent _
      exact keeps_initializeGlobalConfig (I := Aligned) (tell_true _)
        (fun s key entries _ aligned => aligned_publish aligned key entries)
        (fun _ aligned => aligned) _ _

theorem hasDefault_kept {ls} (run : Run PopulatedStep start ls s) :
    HasDefault s := by
  induction run with
  | refl => simp [HasDefault, start]
  | @snoc t u ls call _ step ih =>
    obtain ⟨step, populated⟩ := step
    rw [step]
    obtain ⟨files, call⟩ := call
    by_cases global : ∃ file ignore, call = .initGlobal file ignore
    · obtain ⟨file, ignore, rfl⟩ := global
      exact (initializeGlobalConfig_hasDefault ih populated).endState
    · apply Keeps.endState _ ih
      apply keeps_call (tell_true _) (fun s entries _ _ _ => present_adopt entries s)
      · simp [HasDefault, start]
      · exact fun file ignore same => (global ⟨file, ignore, same⟩).elim

/-- After any calls the maps have the same keys. As long as every load of a global file is
    populated, the default key is there once the configuration is initialized, and no lookup of it
    fails because it is not. -/
theorem config_invariant {ls : List (Files × Call)} {s : SonicDBConfig}
    (run : Run Step start ls s) :
    Aligned s ∧ (Run PopulatedStep start ls s → HasDefault s ∧ ∀ files call, DefaultLookup call →
      ∀ e s', call.run files s = .error e s' → ¬ InvalidKey e) := by
  refine ⟨aligned_kept run, fun populated => ?_⟩
  have has := hasDefault_kept populated
  exact ⟨has, fun files call lookup e s' failed => (lookup_default has lookup).of_thrown failed⟩

private def globalFile : JsonValue :=
  .object [(ascii "INCLUDES", .array [.object [(ascii "include", .string (ascii "db.json"))]])]

private def databaseFile : JsonValue :=
  .object [(ascii "DATABASES", .object []),
    (ascii "INSTANCES", .object [(ascii "redis", .object [(ascii "hostname", .string (ascii "h")),
      (ascii "port", .integer 6379)])])]

private def filesWith (default : File) : Files := fun name =>
  if name = ascii "/d/g.json" then .readable (.ok globalFile)
  else if name = ascii "/d/db.json" then default
  else .missing

private def loaded (files : Files) : SonicDBConfig :=
  endState ((Call.initGlobal (ascii "/d/g.json") true).run files start)

/-- The include is there. -/
theorem config_invariant_taken_up :
    let files := filesWith (.readable (.ok databaseFile))
    (loaded files).init = true ∧ default ∈ (loaded files).dbInfo := by
  intro files
  have step : Step start (files, .initGlobal (ascii "/d/g.json") true) (loaded files) := rfl
  have populated : Populated start files (.initGlobal (ascii "/d/g.json") true) := by
    rintro _ _ content elements found listed before element after inclusion entries split _
      read _ told
    obtain rfl : _ = content := File.readable.inj found
    obtain rfl : [.object [(ascii "include", .string (ascii "db.json"))]] = elements :=
      ok.inj listed
    have member : element ∈ before ++ element :: after := by simp
    rw [← split] at member
    obtain rfl := List.mem_singleton.mp member
    obtain rfl : (⟨ascii "/d/db.json", .default⟩ : Inclusion) = inclusion := ok.inj read
    obtain rfl : _ = entries := ok.inj told
    rfl
  have invariant := config_invariant (.single step)
  have init : (loaded files).init = true := rfl
  exact ⟨init, ((invariant.2 (.single ⟨step, populated⟩)).1 init).2.1⟩

/-- The include is missing, which is ignored. -/
theorem config_invariant_missing_include :
    let s := loaded (filesWith .missing)
    s.init = true ∧ s.instInfo = ∅ ∧
      (Call.getDbInfo (ascii "APPL_DB") .default).run (filesWith .missing) s =
        .error (invalidKey .default) s :=
  ⟨rfl, rfl, rfl⟩

end SwssCommon.SonicDBConfig
