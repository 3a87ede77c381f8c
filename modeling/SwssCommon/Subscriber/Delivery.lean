import SwssCommon.Subscriber.Convergence

/-! # What a subscriber does not miss

An entry that is there when all events have been taken has been popped as it is, and one that was
deleted after the subscription has been popped as deleted. At each moment it is still to be read, or
an event will make the subscriber look again, or it has been given.
-/

namespace SwssCommon

open Bytes Redis List Std.ExtTreeMap Table

namespace SubscriberStateTable

variable {t : SubscriberStateTable} {hiredis : Hiredis} {k : Bytes} {ls : List Event} {l : Event}
  {sys sys' : System} {op : Bytes → Prop} {kco : KeyOpFieldsValuesTuple}

theorem hash_step (step : t.Step hiredis sys l sys') {name}
    (hash : sys.database.hashAt name ≠ none) : sys'.database.hashAt name ≠ none := by
  cases step with
  | write executed => exact executed.hash hash
  | psubscribe | getKeys | get | built | readData | popsBuffer | popBuffer | popsStart | popsEvent
  | popsReturn | popReturn => exact hash

/-! ## What a step gives -/

/-- What a step of the subscriber adds to the entries that have left the database. -/
inductive Gives (t : SubscriberStateTable) (sys sys' : System) :
    List KeyOpFieldsValuesTuple → Prop where
  | nothing (kept : ∀ event ∈ sys.events, event ∈ sys'.events) : Gives t sys sys' []
  | subscribed (new : sys.phase = .unsubscribed) : Gives t sys sys' []
  | fetched {key : Bytes} {values : Option (List FieldValueTuple)}
      (found : get t.server t.toTableBase sys.database key = .ok values)
      (kept : sys'.events = sys.events) :
      Gives t sys sys' (values.map fun fvs => ⟨key, SET_COMMAND, fvs⟩).toList
  | took {event : Reply} {kco : Option KeyOpFieldsValuesTuple}
      (next : sys.events = event :: sys'.events)
      (became : t.popEvent sys.database event = .ok kco) :
      Gives t sys sys' kco.toList

/-- The loop of `pops` has begun with an empty buffer. -/
abbrev System.Alone (sys : System) : Prop :=
  ∀ byPop vkco, sys.phase = .popping byPop vkco → sys.buffer = []

theorem Step.alone (taken : t.Step hiredis sys l sys') (alone : sys.Alone) : sys'.Alone := by
  intro byPop vkco popping
  cases taken with
  | write => exact alone byPop vkco popping
  | readData idle | popsBuffer idle | popBuffer idle => cases idle.symm.trans popping
  | popsStart idle empty => exact empty
  | popsEvent before => exact alone _ _ before
  | psubscribe | getKeys | get | built | popsReturn | popReturn => cases popping

theorem Step.gives (taken : t.Step hiredis sys l sys') (alone : sys.Alone) (ls : List Event) :
    ∃ new, given (ls ++ [l]) sys' = given ls sys ++ new ∧ Gives t sys sys' new := by
  cases taken with
  | write executed =>
    refine ⟨[], ?_, .nothing fun event member => ?_⟩
    · simp [given, popped_append, popped, System.collected]
    · rw [System.events, ← append_assoc]
      exact mem_append_left _ member
  | psubscribe new words =>
    refine ⟨[], ?_, .subscribed new⟩
    simp [given, popped_append, popped, System.collected, new]
  | getKeys subscribed listed =>
    refine ⟨[], ?_, .nothing fun _ member => member⟩
    simp [given, popped_append, popped, System.collected, subscribed]
  | get fetching fetched =>
    refine ⟨_, ?_, .fetched fetched rfl⟩
    simp [given, popped_append, popped, System.collected, fetching]
  | built fetched =>
    refine ⟨[], ?_, .nothing fun _ member => member⟩
    simp [given, popped_append, popped, System.collected, fetched]
  | readData idle waiting =>
    refine ⟨[], ?_, .nothing fun event member => ?_⟩
    · simp [given, popped_append, popped, System.collected]
    · rw [System.events, waiting, ← append_assoc] at member
      exact member
  | popsBuffer idle filled | popsStart idle empty =>
    refine ⟨[], ?_, .nothing fun _ member => member⟩
    simp [given, popped_append, popped, System.collected, idle]
  | popBuffer idle filled =>
    refine ⟨[], ?_, .nothing fun _ member => member⟩
    simp [given, popped_append, popped, System.collected, idle, filled]
  | popsEvent popping next became =>
    refine ⟨_, ?_, .took (by rw [System.events, next]; rfl) became⟩
    simp [given, popped_append, popped, System.collected, popping, alone _ _ popping]
  | popsReturn popping done =>
    refine ⟨[], ?_, .nothing fun _ member => member⟩
    simp [given, popped_append, popped, System.collected, popping]
  | @popReturn vkco popping done =>
    refine ⟨[], ?_, .nothing fun _ member => member⟩
    cases vkco <;> simp [given, popped_append, popped, System.collected, popping, alone _ _ popping]

/-! ## What is owed stays owed until it is given -/

structure Follows (t : SubscriberStateTable) (sys : System) : Prop where
  listening : sys.phase ≠ .unsubscribed → sys.patterns = [t.keyspace]
  alone : sys.Alone

theorem Follows.step (suitable : t.Suitable hiredis) (follows : Follows t sys)
    (step : t.Step hiredis sys l sys') : Follows t sys' := by
  refine ⟨fun subscribed => ?_, step.alone follows.alone⟩
  cases step with
  | write => exact follows.listening subscribed
  | psubscribe new words =>
    rw [suitable.oneWord] at words
    injection words with _ words
    injection words with first more
    subst first more
    rfl
  | getKeys phase | get phase | built phase | readData phase | popsBuffer phase | popBuffer phase
  | popsStart phase | popsEvent phase | popsReturn phase | popReturn phase =>
    exact follows.listening (by simp [phase])

theorem follows_start (database : Keyspace) : Follows t (start database) where
  listening subscribed := absurd rfl subscribed
  alone _ _ popping := by simp [start] at popping

/-- There is an event of the key with such an operation, or it has led to its entry. -/
def Owed (t : SubscriberStateTable) (k : Bytes) (op : Bytes → Prop) (kco : KeyOpFieldsValuesTuple)
    (ls : List Event) (sys : System) : Prop :=
  (∃ event ∈ sys.events, ∃ data, t.readEvent event = some (k, data) ∧ op data) ∨ kco ∈ given ls sys

theorem Owed.popped (owed : Owed t k op kco ls sys) (idle : sys.phase = .idle)
    (consumed : sys.events = []) (empty : sys.buffer = []) :
    kco ∈ SubscriberStateTable.popped ls := by
  rcases owed with ⟨event, waiting, _⟩ | there
  · simp [consumed] at waiting
  · simpa [given, System.collected, idle, empty] using there

theorem Owed.step (follows : Follows t sys) (subscribed : sys.phase ≠ .unsubscribed)
    (owed : Owed t k op kco ls sys) (step : t.Step hiredis sys l sys')
    (leads : ∀ event data read, t.readEvent event = some (k, data) → op data →
      t.popEvent sys.database event = .ok read → read = some kco) :
    Owed t k op kco (ls ++ [l]) sys' := by
  obtain ⟨new, added, gives⟩ := step.gives follows.alone ls
  rcases owed with ⟨event, waiting, data, read, fits⟩ | there
  · cases gives with
    | nothing kept => exact .inl ⟨event, kept event waiting, data, read, fits⟩
    | subscribed new => exact absurd new subscribed
    | fetched _ kept => exact .inl ⟨event, kept ▸ waiting, data, read, fits⟩
    | took next became =>
      rw [next] at waiting
      rcases mem_cons.mp waiting with rfl | later
      · right
        rw [added, leads event data _ read fits became]
        simp
      · exact .inl ⟨event, later, data, read, fits⟩
  · right
    rw [added]
    exact mem_append_left _ there

theorem entryMessage_sent (suitable : t.Suitable hiredis) (follows : Follows t sys)
    (subscribed : sys.phase ≠ .unsubscribed) {command : Command}
    (name : command.name = t.mainName k) {events : List Bytes} {event}
    (announced : event ∈ events) :
    t.entryMessage k event ∈ events.flatMap (pmessages sys.patterns t.dbId command.name) := by
  rw [follows.listening subscribed, name, mem_flatMap]
  exact ⟨event, announced, by simp [pmessages_entry suitable.plain]⟩

/-! ## Entries that are there -/

/-- If there is an entry, it is still to be read, or it has been read since its last change. -/
def Current (t : SubscriberStateTable) (k : Bytes) (ls : List Event) (sys : System) : Prop :=
  ∀ values, get t.server t.toTableBase sys.database k = .ok (some values) →
    sys.awaits k ∨ Owed t k (· ≠ ascii "del") ⟨k, SET_COMMAND, values⟩ ls sys

theorem popEvent_of_refresh {ks values event}
    {data read}
    (entry : get t.server t.toTableBase ks k = .ok (some values))
    (about : t.readEvent event = some (k, data)) (refreshes : data ≠ ascii "del")
    (became : t.popEvent ks event = .ok read) : read = some ⟨k, SET_COMMAND, values⟩ := by
  simp only [popEvent, about, if_neg refreshes, entry] at became
  exact (Except.ok.inj became).symm

section Legible

variable (suitable : t.Suitable hiredis) (legible : Legible k)
include suitable legible

theorem cStr_getKeyName : cStr (t.getKeyName k) = t.mainName k := by
  rw [t.getKeyName_of_ne_nil legible.1]
  exact cStr_of_nulFree (t.nul_notMem_mainName suitable.nulFree legible.2)

variable {ks : Keyspace}

theorem get_congr {ks'} (same : ks'.hashAt (t.mainName k) = ks.hashAt (t.mainName k)) :
    Table.get t.server t.toTableBase ks' k = Table.get t.server t.toTableBase ks k := by
  simp only [Table.get, cStr_getKeyName suitable legible, same]

theorem mem_of_get {values}
    (entry : Table.get t.server t.toTableBase ks k = .ok (some values)) : t.mainName k ∈ ks := by
  rw [Table.get, cStr_getKeyName suitable legible] at entry
  cases found : ks.hashAt (t.mainName k) with
  | none => simp [found] at entry
  | some h =>
    rw [Keyspace.mem_iff_of_hashAt found]
    intro empty
    subst empty
    simp [found, Hash.one_eq_empty, RedisServer.fields_eq_nil_iff] at entry

theorem get_of_hashAt {h} (found : ks.hashAt (t.mainName k) = some h)
    (filled : h ≠ ∅) : Table.get t.server t.toTableBase ks k =
      .ok (some ((t.server.fields h).map fun iv => (Table.stripSpecialSym (cStr iv.1), iv.2))) := by
  rw [Table.get, cStr_getKeyName suitable legible, found]
  simp only [RedisServer.fields_eq_nil_iff, if_neg filled]

theorem current_write (follows : Follows t sys) (current : Current t k ls sys) {command}
    {database events}
    (executed : Executes sys.database command database events) :
    Current t k (ls ++ [.wrote command]) { sys with
      database := database
      unread := sys.unread ++ events.flatMap (pmessages sys.patterns t.dbId command.name) } := by
  intro values entry
  by_cases unsubscribed : sys.phase = .unsubscribed
  · exact .inl (by simp [System.awaits, unsubscribed])
  have step : t.Step hiredis sys _ _ := .write executed
  have untouched (before : get t.server t.toTableBase sys.database k = .ok (some values)) :=
    (current values before).imp_right fun owed =>
      owed.step follows unsubscribed step
        fun _ _ _ about refreshes => popEvent_of_refresh before about refreshes
  by_cases name : command.name = t.mainName k
  · rcases executed.refreshes with rfl | emptied | ⟨event, announced, refreshes, data⟩
    · exact untouched entry
    · have present := mem_of_get suitable legible entry
      rw [name] at emptied
      exact absurd Hash.one_eq_empty.symm ((Keyspace.mem_iff_of_hashAt emptied).mp present)
    · have sent := entryMessage_sent suitable follows unsubscribed name announced
      have about := readEvent_entryMessage suitable legible.2 data
      exact .inr (.inl ⟨_, mem_append_right _ (mem_append_right _ sent), event, about, refreshes⟩)
  · rw [get_congr suitable legible (executed.elsewhere name)] at entry
    exact untouched entry

theorem current_step (follows : Follows t sys) (current : Current t k ls sys)
    (step : t.Step hiredis sys l sys') : Current t k (ls ++ [l]) sys' := by
  intro values entry
  have stays (same : sys'.database = sys.database) (subscribed : sys.phase ≠ .unsubscribed)
      (owed : Owed t k (· ≠ ascii "del") ⟨k, SET_COMMAND, values⟩ ls sys) :
      Owed t k (· ≠ ascii "del") ⟨k, SET_COMMAND, values⟩ (ls ++ [l]) sys' := by
    refine owed.step follows subscribed step fun _ _ _ about refreshes => ?_
    rw [same] at entry
    exact popEvent_of_refresh entry about refreshes
  cases step with
  | write executed => exact current_write suitable legible follows current executed values entry
  | psubscribe => exact .inl trivial
  | getKeys subscribed listed =>
    have present := mem_of_get suitable legible entry
    exact .inl (mem_getKeys suitable.plain suitable.nulFree legible.2 listed present)
  | get fetching fetched =>
    have subscribed : sys.phase ≠ .unsubscribed := by simp [fetching]
    rcases current values entry with awaiting | owed
    · rw [System.awaits, fetching] at awaiting
      rcases mem_cons.mp awaiting with rfl | later
      · right; right
        obtain rfl := Except.ok.inj (entry.symm.trans fetched)
        simp [given]
      · exact .inl later
    · exact .inr (stays rfl subscribed owed)
  | built fetched =>
    have subscribed : sys.phase ≠ .unsubscribed := by simp [fetched]
    rcases current values entry with awaiting | owed
    · simp [System.awaits, fetched] at awaiting
    · exact .inr (stays rfl subscribed owed)
  | readData phase | popsBuffer phase | popBuffer phase | popsStart phase | popsEvent phase
  | popsReturn phase | popReturn phase =>
    have subscribed : sys.phase ≠ .unsubscribed := by simp [phase]
    rcases current values entry with awaiting | owed
    · simp [System.awaits, phase] at awaiting
    · exact .inr (stays rfl subscribed owed)

theorem mem_popped_of_get {database} (run : Run (t.Step hiredis) (start database) ls sys)
    (idle : sys.phase = .idle) (consumed : sys.events = []) (empty : sys.buffer = [])
    {values}
    (entry : get t.server t.toTableBase sys.database k = .ok (some values)) :
    ⟨k, SET_COMMAND, values⟩ ∈ popped ls := by
  have kept : Follows t sys ∧ Current t k ls sys := by
    refine run.invariant (I := fun ls sys => Follows t sys ∧ Current t k ls sys) ?_ ?_
    · exact ⟨follows_start database, fun _ _ => .inl trivial⟩
    · intro ls sys l sys' before step
      exact ⟨before.1.step suitable step, current_step suitable legible before.1 before.2 step⟩
  rcases kept.2 values entry with awaiting | owed
  · simp [System.awaits, idle] at awaiting
  · exact owed.popped idle consumed empty

end Legible

/-! ## Entries that are gone -/

/-- If there is no entry, it was not there when the subscription was made, or its deletion
    was announced. -/
def Departed (t : SubscriberStateTable) (k : Bytes) (ls : List Event) (sys : System) : Prop :=
  sys.phase ≠ .unsubscribed →
    t.mainName k ∈ sys.database ∨ Owed t k (· = ascii "del") ⟨k, DEL_COMMAND, []⟩ ls sys

theorem popEvent_of_del {ks event data}
    {read} (about : t.readEvent event = some (k, data))
    (deletes : data = ascii "del") (became : t.popEvent ks event = .ok read) :
    read = some ⟨k, DEL_COMMAND, []⟩ := by
  simp only [popEvent, about, if_pos deletes] at became
  exact (Except.ok.inj became).symm

def PresentAt (t : SubscriberStateTable) (k : Bytes) (sys : System) (l : Event) : Prop :=
  sys.phase = .unsubscribed → l = .constructed → t.mainName k ∈ sys.database

section NulFree

variable (suitable : t.Suitable hiredis) (nulFree : (0 : UInt8) ∉ k)
include suitable nulFree

theorem departed_step (follows : Follows t sys) (departed : Departed t k ls sys)
    (step : t.Step hiredis sys l sys') (present : PresentAt t k sys l) :
    Departed t k (ls ++ [l]) sys' := by
  intro subscribed'
  by_cases unsubscribed : sys.phase = .unsubscribed
  · cases step with
    | write => exact absurd unsubscribed subscribed'
    | psubscribe => exact .inl (present unsubscribed rfl)
    | getKeys phase | get phase | built phase | readData phase | popsBuffer phase
    | popBuffer phase | popsStart phase | popsEvent phase | popsReturn phase | popReturn phase =>
      simp [unsubscribed] at phase
  · rcases departed unsubscribed with there | owed
    · cases step with
      | @write command database events executed =>
        by_cases name : command.name = t.mainName k
        · rw [← name] at there
          rcases executed.announces there with still | announced
          · exact .inl (name ▸ still)
          · have sent := entryMessage_sent suitable follows unsubscribed name announced
            have data : 0 ∉ ascii "del" := by decide
            have about := readEvent_entryMessage suitable nulFree data
            exact .inr (.inl ⟨_, mem_append_right _ (mem_append_right _ sent), _, about, rfl⟩)
        · left
          rw [mem_iff_isSome_getElem?, executed.untouched name, ← mem_iff_isSome_getElem?]
          exact there
      | psubscribe new => exact absurd new unsubscribed
      | getKeys | get | built | readData | popsBuffer | popBuffer | popsStart | popsEvent
      | popsReturn | popReturn => exact .inl there
    · exact .inr (owed.step follows unsubscribed step fun _ _ _ => popEvent_of_del)

/-- An entry that was there at the subscription, and is not there once all events have been taken,
    has been popped as deleted. -/
theorem mem_popped_of_notMem {database}
    (run : Run (fun sys l sys' => t.Step hiredis sys l sys' ∧ PresentAt t k sys l)
      (start database) ls sys)
    (idle : sys.phase = .idle) (consumed : sys.events = []) (empty : sys.buffer = [])
    (gone : t.mainName k ∉ sys.database) : ⟨k, DEL_COMMAND, []⟩ ∈ popped ls := by
  have kept : Follows t sys ∧ Departed t k ls sys := by
    refine run.invariant (I := fun ls sys => Follows t sys ∧ Departed t k ls sys) ?_ ?_
    · exact ⟨follows_start database, fun subscribed => absurd rfl subscribed⟩
    · intro ls sys l sys' before step
      exact ⟨before.1.step suitable step.1,
        departed_step suitable nulFree before.1 before.2 step.1 step.2⟩
  rcases kept.2 (by simp [idle]) with there | owed
  · exact absurd there gone
  · exact owed.popped idle consumed empty

end NulFree

end SubscriberStateTable

end SwssCommon
