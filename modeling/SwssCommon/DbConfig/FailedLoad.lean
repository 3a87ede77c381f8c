import SwssCommon.DbConfig.Config

/-! # A global file that fails to load

The includes of a global file are published one by one. If one fails, those before it have left
their entries, and the default key may count as initialized. Nothing has changed only if all they
told was there before.
-/

namespace SwssCommon.SonicDBConfig

open Bytes Throwing Std.ExtTreeMap SonicDBKey

section Publications

variable (files : Files) (dirName : Bytes) (ignoreNonexistent : Bool)

/-- What one element has to tell, or nothing if it is skipped. -/
def publication (init : Bool) (element : JsonValue) :
    Except JsonValue.Exception (Option (SonicDBKey × Entries)) := do
  let inclusion ← readInclusion dirName element
  if inclusion.key.isEmpty && init then pure none
  else
    let entries ←
      (parseDatabaseConfig files inclusion.localFile ignoreNonexistent).mapError Failure.what
    pure (some (inclusion.key, entries))

def published (init : Bool) : List JsonValue → List (SonicDBKey × Entries)
  | [] => []
  | element :: rest =>
    match publication files dirName ignoreNonexistent init element with
    | .error _ => []
    | .ok none => published init rest
    | .ok (some told) => told :: published (told.1.isEmpty || init) rest

end Publications

def told (s : SonicDBConfig) (files : Files) (file : Bytes) (ignoreNonexistent : Bool) :
    List (SonicDBKey × Entries) :=
  match files (cStr file) with
  | .readable content =>
    match includes content with
    | .ok elements => published files (dirName file) ignoreNonexistent s.init elements
    | .error _ => []
  | _ => []

def publishAll (told : List (SonicDBKey × Entries)) (s : SonicDBConfig) : SonicDBConfig :=
  told.foldl (fun s t => publish t.1 t.2 s) s

def lastTold (key : SonicDBKey) : List (SonicDBKey × Entries) → Option Entries
  | [] => none
  | t :: rest => (lastTold key rest).or (if t.1 = key ∧ t.2.nonempty = true then some t.2 else none)

variable {files : Files} {file dirName : Bytes} {ignoreNonexistent : Bool} {s s' : SonicDBConfig}
  {element : JsonValue} {elements : List JsonValue} {e : JsonValue.Exception}

theorem loadInclusion_ends : Ends (loadInclusion files dirName ignoreNonexistent element) s
    (fun _ s' =>
      (publication files dirName ignoreNonexistent s.init element = .ok none ∧ s' = s) ∨
      ∃ t, publication files dirName ignoreNonexistent s.init element = .ok (some t) ∧
        s' = publish t.1 t.2 s)
    (fun e s' => publication files dirName ignoreNonexistent s.init element = .error e ∧
      s' = s) := by
  unfold publication
  apply Ends.bind
  apply Ends.ofExcept
  · intro inclusion read
    rw [read]
    apply Ends.bind_get
    by_cases skipped : (inclusion.key.isEmpty && s.init)
    · rw [if_pos skipped]
      exact Ends.pure (.inl ⟨if_pos skipped, rfl⟩)
    · rw [if_neg skipped]
      apply Ends.bind
      apply Ends.ofExcept
      · intro entries parsed
        refine Ends.modify (.inr ⟨(inclusion.key, entries), ?_, rfl⟩)
        exact (if_neg skipped).trans (by rw [parsed]; rfl)
      · intro e failed
        exact ⟨(if_neg skipped).trans (by rw [failed]; rfl), rfl⟩
  · intro e failed
    rw [failed]
    exact ⟨rfl, rfl⟩

theorem loadInclusions_ends : Ends (loadInclusions files dirName ignoreNonexistent elements) s
    (fun _ _ => True)
    (fun _ s' =>
      s' = publishAll (published files dirName ignoreNonexistent s.init elements) s) := by
  induction elements generalizing s with
  | nil => exact Ends.pure trivial
  | cons element rest ih =>
    unfold published
    apply Ends.bind
    apply loadInclusion_ends.mono
    · rintro _ _ (⟨nothing, rfl⟩ | ⟨t, something, rfl⟩)
      · rw [nothing]
        exact ih
      · rw [something]
        have rest := ih (s := publish t.1 t.2 s)
        rw [init_publish] at rest
        exact rest
    · rintro e _ ⟨failed, rfl⟩
      rw [failed]
      rfl

theorem initializeGlobalConfig_ends : Ends (initializeGlobalConfig files file ignoreNonexistent) s
    (fun _ _ => True)
    (fun _ s' => s' = publishAll (told s files file ignoreNonexistent) s) := by
  unfold told
  apply Ends.bind_get
  split
  · exact Ends.pure trivial
  apply Ends.bind
  unfold loadGlobal
  cases files (cStr file) with
  | missing | unreadable => exact Ends.pure (Ends.modify trivial)
  | readable content =>
    apply Ends.adaptExcept
    apply Ends.bind
    apply Ends.ofExcept
    · intro elements listed
      simp only [listed]
      exact loadInclusions_ends.mono (fun _ _ _ => Ends.modify trivial) (fun _ _ left => left)
    · intro e failed
      simp only [failed]
      rfl

/-! ## What a list of publications leaves -/

theorem publishAll_cons (t : SonicDBKey × Entries) (rest : List (SonicDBKey × Entries))
    (s : SonicDBConfig) : publishAll (t :: rest) s = publishAll rest (publish t.1 t.2 s) :=
  rfl

theorem getElem?_publishAll {V : Type}
    (map : SonicDBConfig → Std.ExtTreeMap SonicDBKey V cmp) (part : Entries → V)
    (receives : ∀ key entries s, map (publish key entries s) =
      if entries.nonempty then (map s).insert key (part entries) else map s)
    (told : List (SonicDBKey × Entries)) (s : SonicDBConfig) (key : SonicDBKey) :
    (map (publishAll told s))[key]? = ((lastTold key told).map part).or (map s)[key]? := by
  induction told generalizing s with
  | nil => rfl
  | cons t rest ih =>
    rw [publishAll_cons, ih, receives, lastTold]
    cases lastTold key rest with
    | some later => rfl
    | none =>
      by_cases something : t.2.nonempty
      · by_cases here : t.1 = key
        · simp [something, here]
        · simp [something, here, getElem?_insert]
      · simp [something]

theorem init_publishAll (told : List (SonicDBKey × Entries)) (s : SonicDBConfig) :
    (publishAll told s).init = (told.any (·.1.isEmpty) || s.init) := by
  induction told generalizing s with
  | nil => rfl
  | cons t rest ih =>
    rw [publishAll_cons, ih, init_publish, List.any_cons]
    cases t.1.isEmpty <;> simp

theorem globalInit_publishAll (told : List (SonicDBKey × Entries)) (s : SonicDBConfig) :
    (publishAll told s).globalInit = s.globalInit := by
  induction told generalizing s with
  | nil => rfl
  | cons t rest ih =>
    rw [publishAll_cons, ih]
    unfold publish
    cases t.2.nonempty <;> cases t.1.isEmpty <;> rfl

structure Holds (s : SonicDBConfig) (key : SonicDBKey) (entries : Entries) : Prop where
  inst : s.instInfo[key]? = some entries.inst
  db : s.dbInfo[key]? = some entries.db
  separator : s.dbSeparator[key]? = some entries.separator

/-- All that is told for a key is in the maps, and the default key is not told of for the
    first time. -/
structure Known (s : SonicDBConfig) (told : List (SonicDBKey × Entries)) : Prop where
  holds : ∀ key entries, lastTold key told = some entries → s.Holds key entries
  initialized : default ∈ told.map Prod.fst → s.init = true

theorem publishAll_eq_iff {told} :
    publishAll told s = s ↔ Known s told := by
  have inst := getElem?_publishAll instInfo Entries.inst instInfo_publish told s
  have db := getElem?_publishAll dbInfo Entries.db dbInfo_publish told s
  have separator := getElem?_publishAll dbSeparator Entries.separator dbSeparator_publish told s
  have flag := init_publishAll told s
  have first : told.any (·.1.isEmpty) ↔ SonicDBKey.default ∈ told.map Prod.fst := by
    simp [SonicDBKey.isEmpty_iff]
  constructor
  · intro same
    rw [same] at inst db separator flag
    refine ⟨fun key entries last => ⟨?_, ?_, ?_⟩, fun member => ?_⟩
    · rw [inst, last]
      rfl
    · rw [db, last]
      rfl
    · rw [separator, last]
      rfl
    · rw [flag, first.mpr member]
      rfl
  · intro known
    have unchanged : ∀ {V : Type} (part : Entries → V) (held : Option V) (key : SonicDBKey),
        (∀ entries, lastTold key told = some entries → held = some (part entries)) →
        ((lastTold key told).map part).or held = held := by
      intro V part held key all
      cases last : lastTold key told with
      | none => rfl
      | some entries => simp [all entries last]
    have sameInit : (publishAll told s).init = s.init := by
      rw [flag]
      cases any : told.any (·.1.isEmpty) with
      | false => rfl
      | true => simp [known.initialized (first.mp any)]
    have sameInst : (publishAll told s).instInfo = s.instInfo :=
      ext_getElem? fun key =>
        (inst key).trans (unchanged _ _ key fun entries last => (known.holds key entries last).inst)
    have sameDb : (publishAll told s).dbInfo = s.dbInfo :=
      ext_getElem? fun key =>
        (db key).trans (unchanged _ _ key fun entries last => (known.holds key entries last).db)
    have sameSeparator : (publishAll told s).dbSeparator = s.dbSeparator :=
      ext_getElem? fun key => (separator key).trans
        (unchanged _ _ key fun entries last => (known.holds key entries last).separator)
    exact SonicDBConfig.ext sameInst sameDb sameSeparator sameInit (globalInit_publishAll told s)

/-- A global file that fails to load has no effect, also on what is loaded later, exactly where all
    that was told before the failure was known. -/
theorem failed_load_iff {files : Files} {file : Bytes} {ignoreNonexistent : Bool}
    {s s' : SonicDBConfig} {e : Failure}
    (failed : initializeGlobalConfig files file ignoreNonexistent s = .error e s') :
    (s' = s ∧ ∀ files file ignoreNonexistent,
      initializeGlobalConfig files file ignoreNonexistent s' =
        initializeGlobalConfig files file ignoreNonexistent s) ↔
      Known s (told s files file ignoreNonexistent) := by
  obtain rfl := initializeGlobalConfig_ends.of_thrown failed
  rw [← publishAll_eq_iff]
  constructor
  · exact And.left
  · intro same
    exact ⟨same, fun files file ignoreNonexistent => by rw [same]⟩

/-- The element of a global file for a file of its directory. -/
private def inclusionOf (file netns : String) : JsonValue :=
  .object [(ascii "include", .string (ascii file)), (ascii "namespace", .string (ascii netns))]

private def instancesOf (hostname : String) : JsonValue :=
  .object [(ascii "DATABASES", .object []),
    (ascii "INSTANCES", .object [(ascii "redis", .object
      [(ascii "hostname", .string (ascii hostname)), (ascii "port", .integer 6379)])])]

/-- A global file with these elements. One of the files it may include has this content, the
    others are missing. -/
private def filesOf (elements : List JsonValue) (hostname : String) : Files := fun name =>
  if name = ascii "/d/g.json" then
    .readable (.ok (.object [(ascii "INCLUDES", .array elements)]))
  else if name = ascii "/d/a.json" then .readable (.ok (instancesOf hostname))
  else .missing

private def failing (netns : String) : Files :=
  filesOf [inclusionOf "a.json" netns, inclusionOf "b.json" "asic1"] "h"

private def attempted (netns : String) : SonicDBConfig :=
  endState (initializeGlobalConfig (failing netns) (ascii "/d/g.json") false start)

/-- The second attempt with the same files. -/
theorem failed_load_again :
    ∃ e, initializeGlobalConfig (failing "asic0") (ascii "/d/g.json") false (attempted "asic0") =
      .error e (attempted "asic0") := by
  have ran : initializeGlobalConfig (failing "asic0") (ascii "/d/g.json") false
      (attempted "asic0") = .error _ _ := rfl
  have known : Known (attempted "asic0")
      (told (attempted "asic0") (failing "asic0") (ascii "/d/g.json") false) := by
    constructor
    · intro key entries last
      obtain ⟨⟨rfl, _⟩, same⟩ := Option.ite_none_right_eq_some.mp last
      obtain rfl := Option.some.inj same
      exact ⟨rfl, rfl, rfl⟩
    · intro member
      cases List.mem_singleton.mp member
  exact ⟨_, ran.trans (congrArg _ ((failed_load_iff ran).mpr known).1)⟩

/-- The first attempt tells of the default key before it fails. When the files have been corrected,
    the default one is not read again. -/
theorem failed_load_leaves_default :
    let corrected := filesOf [inclusionOf "a.json" ""] "other"
    let loaded := endState
      (initializeGlobalConfig corrected (ascii "/d/g.json") false (attempted ""))
    let first := endState (initializeGlobalConfig corrected (ascii "/d/g.json") false start)
    (∃ e, initializeGlobalConfig (failing "") (ascii "/d/g.json") false start =
        .error e (attempted "")) ∧
      start.init = false ∧ (attempted "").init = true ∧
      (loaded.instInfo[default]?.bind fun inst => inst[ascii "redis"]?) =
        some ⟨[], ascii "h", 6379⟩ ∧
      (first.instInfo[default]?.bind fun inst => inst[ascii "redis"]?) =
        some ⟨[], ascii "other", 6379⟩ :=
  ⟨⟨_, rfl⟩, rfl, rfl, rfl, rfl⟩

end SwssCommon.SonicDBConfig
