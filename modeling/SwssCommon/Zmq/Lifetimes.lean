import SwssCommon.Lib.Run
import SwssCommon.Zmq.Messaging

/-! # Consumers come and go

Consumers register in their constructors and remove their entry in their destructors. A mutex guards
the registry, and dispatch holds it while a handler runs. A constructor does not replace an entry,
but a destructor removes whatever entry its names have: maybe that of another consumer, but never
leaving its own.
-/

namespace SwssCommon.Zmq.Lifetimes

open Bytes Function ZmqHandlerRegistry

variable {ι : Type} [DecidableEq ι]

inductive Lifetime where
  | unborn
  | alive
  /-- The destructor has been entered and waits for `removeHandler`. -/
  | ending
  | gone
  deriving DecidableEq

/-- `calling` is the handler that dispatch is calling and holds the mutex for. The server
    may be gone; the registry belongs to the consumers as well. -/
structure State (ι : Type) where
  registry : ZmqHandlerRegistry ι
  calling : Option ι
  lifetime : ι → Lifetime
  server : Bool

def initial : State ι :=
  ⟨.empty, none, fun _ => .unborn, true⟩

inductive Event (ι : Type) where
  | constructed (i : ι)
  | destructing (i : ι)
  /-- `removeHandler` has returned. -/
  | removed (i : ι)
  | called (i : ι) (dbName tableName : Bytes)
  | returned (i : ι)
  | unhandled (dbName tableName : Bytes)
  | serverGone

/-- What may happen next. Whoever takes the mutex needs it free. -/
inductive Step (consumer : ι → ZmqConsumerStateTable) : State ι → Event ι → State ι → Prop where
  | construct {s : State ι} {i : ι} (server : s.server = true) (free : s.calling = none)
      (fresh : s.lifetime i = .unborn) :
      Step consumer s (.constructed i)
        { s with
          registry := s.registry.registerHandler (consumer i).dbName (consumer i).tableName i
          lifetime := update s.lifetime i .alive }
  | destruct {s : State ι} {i : ι} (alive : s.lifetime i = .alive) :
      Step consumer s (.destructing i) { s with lifetime := update s.lifetime i .ending }
  | remove {s : State ι} {i : ι} (free : s.calling = none) (ending : s.lifetime i = .ending) :
      Step consumer s (.removed i)
        { s with
          registry := s.registry.removeHandler (consumer i).dbName (consumer i).tableName
          lifetime := update s.lifetime i .gone }
  | call {s : State ι} {i : ι} {dbName tableName : Bytes} (free : s.calling = none)
      (found : s.registry.find dbName tableName = some i) :
      Step consumer s (.called i dbName tableName) { s with calling := some i }
  | finish {s : State ι} {i : ι} (calling : s.calling = some i) :
      Step consumer s (.returned i) { s with calling := none }
  | unhandled {s : State ι} {dbName tableName : Bytes} (free : s.calling = none)
      (missing : s.registry.find dbName tableName = none) :
      Step consumer s (.unhandled dbName tableName) s
  | serverGone {s : State ι} (server : s.server = true) :
      Step consumer s .serverGone { s with server := false }

def Lifetime.Present (l : Lifetime) : Prop :=
  l = .alive ∨ l = .ending

/-- Entries belong to consumers that are there, under their own names, and the lifetimes
    are the ones the events tell. -/
structure Sound (consumer : ι → ZmqConsumerStateTable) (ls : List (Event ι)) (s : State ι) :
    Prop where
  entries : ∀ {dbName tableName i}, s.registry.find dbName tableName = some i →
    (s.lifetime i).Present ∧ (consumer i).dbName = dbName ∧ (consumer i).tableName = tableName
  populated : s.registry.Populated
  calling : ∀ {i}, s.calling = some i → (s.lifetime i).Present
  removed : ∀ {i}, .removed i ∈ ls → s.lifetime i = .gone
  constructed : ∀ {i}, (s.lifetime i).Present → .constructed i ∈ ls

variable {consumer : ι → ZmqConsumerStateTable}

omit [DecidableEq ι] in
theorem sound_initial : Sound consumer [] (initial : State ι) where
  entries found := by simp [initial] at found
  populated := populated_empty
  calling calls := by simp [initial] at calls
  removed member := by simp at member
  constructed present := by
    rcases present with alive | ending
    · cases alive
    · cases ending

variable {i : ι} {l : Lifetime} {lifetime : ι → Lifetime}

private theorem present_update {j} (now : l.Present) (before : (lifetime j).Present) :
    (update lifetime i l j).Present := by
  by_cases same : j = i
  · rwa [same, update_self]
  · rwa [update_of_ne same]

private theorem not_gone_of_present (present : l.Present) : l ≠ .gone := by
  rcases present with rfl | rfl <;> decide

private theorem present_update_of_ne {j} (different : j ≠ i) (before : (lifetime j).Present) :
    (update lifetime i l j).Present := by
  rwa [update_of_ne different]

private theorem present_of_update {j} (different : j ≠ i)
    (now : (update lifetime i l j).Present) : (lifetime j).Present := by
  rwa [update_of_ne different] at now

private theorem gone_update {j} (notGone : lifetime i ≠ .gone) (gone : lifetime j = .gone) :
    update lifetime i l j = .gone := by
  have different : j ≠ i := by
    rintro rfl
    exact notGone gone
  rwa [update_of_ne different]

omit [DecidableEq ι] in
private theorem find_construct {s : State ι} {i j dbName tableName}
    (found : (s.registry.registerHandler (consumer i).dbName (consumer i).tableName i).find
      dbName tableName = some j) :
    s.registry.find dbName tableName = some j ∨
      j = i ∧ (consumer i).dbName = dbName ∧ (consumer i).tableName = tableName := by
  rw [find_registerHandler] at found
  split at found
  · rename_i here
    obtain ⟨rfl, rfl⟩ := here
    cases old : s.registry.find (consumer i).dbName (consumer i).tableName with
    | none =>
      rw [old] at found
      exact .inr ⟨(Option.some.inj found).symm, rfl, rfl⟩
    | some k =>
      rw [old] at found
      exact .inl found
  · exact .inl found

variable {s s' : State ι} {ls : List (Event ι)}

theorem Sound.step {l} (h : Sound consumer ls s) (taken : Step consumer s l s') :
    Sound consumer (ls ++ [l]) s' := by
  -- what is recorded of the past stays, and the last event tells its own
  have before : ∀ {i}, .removed i ∈ ls ++ [l] → l ≠ .removed i → s.lifetime i = .gone := by
    intro i member other
    rcases List.mem_append.mp member with earlier | last
    · exact h.removed earlier
    · exact (other (List.mem_singleton.mp last).symm).elim
  have known : ∀ {i}, (s.lifetime i).Present → .constructed i ∈ ls ++ [l] :=
    fun present => List.mem_append_left _ (h.constructed present)
  cases taken with
  | @construct i server free fresh =>
    refine ⟨fun found => ?_, h.populated.registerHandler _ _ i, fun calls => ?_, fun member => ?_,
      fun {j} present => ?_⟩
    · rcases find_construct found with old | ⟨rfl, names⟩
      · exact ⟨present_update (.inl rfl) (h.entries old).1, (h.entries old).2⟩
      · exact ⟨.inl (update_self ..), names⟩
    · rw [free] at calls
      cases calls
    · exact gone_update (by rw [fresh]; decide) (before member (by simp))
    · by_cases same : j = i
      · simp [same]
      · exact known (present_of_update same present)
  | @destruct i alive =>
    refine ⟨fun found => ?_, h.populated, fun calls => ?_, fun member => ?_, fun {j} present => ?_⟩
    · exact ⟨present_update (.inr rfl) (h.entries found).1, (h.entries found).2⟩
    · exact present_update (.inr rfl) (h.calling calls)
    · exact gone_update (by rw [alive]; decide) (before member (by simp))
    · by_cases same : j = i
      · exact known (.inl (same ▸ alive))
      · exact known (present_of_update same present)
  | @remove i free ending =>
    refine ⟨fun {dbName tableName j} found => ?_, h.populated.removeHandler _ _, fun calls => ?_,
      fun {j} member => ?_, fun {j} present => ?_⟩
    · rw [find_removeHandler] at found
      split at found
      · cases found
      · rename_i elsewhere
        obtain ⟨there, rfl, rfl⟩ := h.entries found
        have different : j ≠ i := by
          rintro rfl
          exact elsewhere ⟨rfl, rfl⟩
        exact ⟨present_update_of_ne different there, rfl, rfl⟩
    · rw [free] at calls
      cases calls
    · by_cases same : j = i
      · exact same ▸ update_self ..
      · exact gone_update (by rw [ending]; decide)
          (before member fun again => same (Event.removed.inj again).symm)
    · by_cases same : j = i
      · subst same
        have isGone : update s.lifetime j .gone j = .gone := update_self ..
        exact (not_gone_of_present present isGone).elim
      · exact known (present_of_update same present)
  | call free found =>
    refine ⟨h.entries, h.populated, fun calls => ?_, fun member => before member (by simp), known⟩
    obtain rfl := Option.some.inj calls
    exact (h.entries found).1
  | finish calling =>
    exact ⟨h.entries, h.populated, fun calls => (nomatch calls),
      fun member => before member (by simp), known⟩
  | unhandled free missing | serverGone server =>
    exact ⟨h.entries, h.populated, h.calling, fun member => before member (by simp), known⟩

/-- The receive thread calls a consumer only for messages to its table, between its construction and
    the end of its `removeHandler`. -/
theorem dispatch_live {ls : List (Event ι)} {s : State ι} (run : Run (Step consumer) initial ls s) :
    (∀ before after i dbName tableName, ls = before ++ .called i dbName tableName :: after →
      .removed i ∉ before ∧ .constructed i ∈ before ∧
        (consumer i).dbName = dbName ∧ (consumer i).tableName = tableName) ∧
    (∀ i, s.calling = some i → .removed i ∉ ls) ∧ s.registry.Populated := by
  have sound : ∀ {ls s}, Run (Step consumer) initial ls s → Sound consumer ls s :=
    fun run => run.invariant sound_initial fun h taken => h.step taken
  refine ⟨?_, fun i calls removed => ?_, (sound run).populated⟩
  · rintro before after i dbName tableName rfl
    obtain ⟨t, first, rest⟩ := run.split
    obtain ⟨t', taken, -⟩ := rest.of_cons
    have soundBefore := sound first
    cases taken with
    | call free found =>
      obtain ⟨present, names⟩ := soundBefore.entries found
      refine ⟨fun removed => ?_, soundBefore.constructed present, names⟩
      exact not_gone_of_present present (soundBefore.removed removed)
  · exact not_gone_of_present ((sound run).calling calls) ((sound run).removed removed)

/-- Two consumers of one table. The second one takes the entry of the first one with it,
    and a message is then left unhandled. -/
theorem dispatch_live_two :
    let table : ZmqConsumerStateTable := .make (ascii "APPL_DB") (ascii "PORT_TABLE") 128
    let before : List (Event Nat) := [.constructed 0, .constructed 1]
    let after : List (Event Nat) := [.destructing 1, .returned 0, .removed 1, .serverGone,
      .unhandled (ascii "APPL_DB") (ascii "PORT_TABLE")]
    ∃ s, Run (Step fun _ => table) initial
        (before ++ .called 0 (ascii "APPL_DB") (ascii "PORT_TABLE") :: after) s ∧
      s.lifetime 0 = .alive ∧ .removed 0 ∉ before ∧ s.registry.Populated := by
  intro table before after
  have run : Run (Step fun _ => table) initial
      (before ++ .called 0 (ascii "APPL_DB") (ascii "PORT_TABLE") :: after) _ :=
    .cons (.construct rfl rfl rfl) (.cons (.construct rfl rfl rfl) (.cons (.call rfl (by decide))
      (.cons (.destruct rfl) (.cons (.finish rfl) (.cons (.remove rfl rfl) (.cons (.serverGone rfl)
        (.single (.unhandled rfl (by decide)))))))))
  obtain ⟨live, -, populated⟩ := dispatch_live run
  exact ⟨_, run, rfl, (live before after _ _ _ rfl).1, populated⟩

/-! ## Who receives -/

def Receives (consumer : ι → ZmqConsumerStateTable) (s : State ι) (i : ι) : Prop :=
  s.registry.find (consumer i).dbName (consumer i).tableName = some i

def SameTable (consumer : ι → ZmqConsumerStateTable) (i j : ι) : Prop :=
  (consumer i).dbName = (consumer j).dbName ∧ (consumer i).tableName = (consumer j).tableName

def ReceiversKept (consumer : ι → ZmqConsumerStateTable) (s s' : State ι) : Prop :=
  ∀ i, (s.lifetime i).Present → Receives consumer s i → (s'.lifetime i).Present →
    Receives consumer s' i

def Served (consumer : ι → ZmqConsumerStateTable) (s : State ι) : Prop :=
  ∀ i, (s.lifetime i).Present → ∃ j, SameTable consumer i j ∧ (s.lifetime j).Present ∧
    Receives consumer s j

def Alone (consumer : ι → ZmqConsumerStateTable) (s : State ι) (l : Event ι) : Prop :=
  ∀ i j, l = .removed i → (s.lifetime j).Present → SameTable consumer i j → j = i

structure AloneStep (consumer : ι → ZmqConsumerStateTable) (s : State ι) (l : Event ι)
    (s' : State ι) : Prop where
  taken : Step consumer s l s'
  alone : Alone consumer s l

theorem served_construct (sound : Sound consumer ls s) (served : Served consumer s)
    (taken : Step consumer s (.constructed i) s') :
    ReceiversKept consumer s s' ∧ Served consumer s' := by
  cases taken with
  | construct server free fresh =>
    have kept : ∀ k, Receives consumer s k →
        (s.registry.registerHandler (consumer i).dbName (consumer i).tableName i).find
          (consumer k).dbName (consumer k).tableName = some k := by
      intro k receives
      rw [find_registerHandler]
      split
      · next same => rw [← same.1, ← same.2, receives, Option.getD_some]
      · exact receives
    refine ⟨fun k _ receives _ => kept k receives, fun k present => ?_⟩
    by_cases same : k = i
    · subst same
      cases old : s.registry.find (consumer k).dbName (consumer k).tableName with
      | none =>
        refine ⟨k, ⟨rfl, rfl⟩, present, ?_⟩
        unfold Receives
        rw [find_registerHandler, if_pos ⟨rfl, rfl⟩, old, Option.getD_none]
      | some j =>
        obtain ⟨there, dbName, tableName⟩ := sound.entries old
        refine ⟨j, ⟨dbName.symm, tableName.symm⟩, present_update (.inl rfl) there, kept j ?_⟩
        rwa [Receives, dbName, tableName]
    · obtain ⟨j, names, there, receives⟩ := served k (present_of_update same present)
      exact ⟨j, names, present_update (.inl rfl) there, kept j receives⟩

/-- `removeHandler` leaves the other receivers exactly if there is no other consumer of that table.
    -/
theorem served_remove_iff (served : Served consumer s) (taken : Step consumer s (.removed i) s') :
    ReceiversKept consumer s s' ∧ Served consumer s' ↔ Alone consumer s (.removed i) := by
  cases taken with
  | remove free ending =>
    constructor
    · rintro ⟨-, after⟩ k j label present names
      cases label
      by_contra different
      obtain ⟨r, same, -, receives⟩ := after j (present_update_of_ne different present)
      unfold Receives at receives
      rw [find_removeHandler, if_pos] at receives
      · cases receives
      · exact ⟨(names.1.trans same.1).symm, (names.2.trans same.2).symm⟩
    · intro alone
      have other : ∀ k, (update s.lifetime i .gone k).Present → k ≠ i := by
        rintro k present rfl
        exact not_gone_of_present present (update_self ..)
      have kept : ∀ k, (s.lifetime k).Present → k ≠ i → Receives consumer s k →
          (s.registry.removeHandler (consumer i).dbName (consumer i).tableName).find
            (consumer k).dbName (consumer k).tableName = some k := by
        intro k present different receives
        rw [find_removeHandler, if_neg]
        · exact receives
        · rintro ⟨dbName, tableName⟩
          exact different (alone i k rfl present ⟨dbName.symm, tableName.symm⟩)
      refine ⟨fun k present receives after => kept k present (other k after) receives, ?_⟩
      intro k after
      have present := present_of_update (other k after) after
      obtain ⟨j, names, there, receives⟩ := served k present
      have different : j ≠ i := by
        rintro rfl
        exact other k after (alone j k rfl present ⟨names.1.symm, names.2.symm⟩)
      exact ⟨j, names, present_update_of_ne different there, kept j there different receives⟩

theorem kept_and_served_iff {l} (sound : Sound consumer ls s) (served : Served consumer s)
    (taken : Step consumer s l s') :
    ReceiversKept consumer s s' ∧ Served consumer s' ↔ Alone consumer s l := by
  cases l with
  | constructed i => exact iff_of_true (served_construct sound served taken) (by simp [Alone])
  | removed i => exact served_remove_iff served taken
  | destructing i =>
    cases taken with
    | destruct alive =>
      refine iff_of_true ⟨fun _ _ receives _ => receives, fun k present => ?_⟩ (by simp [Alone])
      have before : (s.lifetime k).Present := by
        by_cases same : k = i
        · exact .inl (same ▸ alive)
        · exact present_of_update same present
      obtain ⟨j, names, there, receives⟩ := served k before
      exact ⟨j, names, present_update (.inr rfl) there, receives⟩
  | called i dbName tableName =>
    cases taken with
    | call => exact iff_of_true ⟨fun _ _ receives _ => receives, served⟩ (by simp [Alone])
  | returned i =>
    cases taken with
    | finish => exact iff_of_true ⟨fun _ _ receives _ => receives, served⟩ (by simp [Alone])
  | unhandled dbName tableName =>
    cases taken with
    | unhandled => exact iff_of_true ⟨fun _ _ receives _ => receives, served⟩ (by simp [Alone])
  | serverGone =>
    cases taken with
    | serverGone => exact iff_of_true ⟨fun _ _ receives _ => receives, served⟩ (by simp [Alone])

omit [DecidableEq ι] in
theorem served_initial : Served consumer (initial : State ι) := by
  intro i present
  cases present with
  | inl alive => cases alive
  | inr ending => cases ending

/-- As long as every consumer is alone when it is removed, receivers stay and tables are served; the
    first one that is not ends that. -/
theorem receivers_kept_iff {ls : List (Event ι)} {s s' : State ι} {l : Event ι}
    (run : Run (AloneStep consumer) initial ls s) (taken : Step consumer s l s') :
    Served consumer s ∧
      (ReceiversKept consumer s s' ∧ Served consumer s' ↔ Alone consumer s l) := by
  have both : Sound consumer ls s ∧ Served consumer s := by
    refine run.invariant (I := fun ls s => Sound consumer ls s ∧ Served consumer s)
      ⟨sound_initial, served_initial⟩ fun before step => ?_
    exact ⟨before.1.step step.taken,
      ((kept_and_served_iff before.1 before.2 step.taken).mpr step.alone).2⟩
  exact ⟨both.2, kept_and_served_iff both.1 both.2 taken⟩

/-- A consumer is gone before the next one of its table is constructed. -/
theorem receivers_kept_replaced :
    let table : ZmqConsumerStateTable := .make (ascii "APPL_DB") (ascii "PORT_TABLE") 128
    ∃ s s', Run (AloneStep fun _ => table) initial [.constructed 0, .destructing 0, .removed 0] s ∧
      Step (fun _ => table) s (.constructed 1) s' ∧ s'.lifetime (1 : Nat) = .alive ∧
      ReceiversKept (fun _ => table) s s' ∧ Served (fun _ => table) s' := by
  intro table
  obtain ⟨s, run, server, free, fresh⟩ : ∃ s, Run (AloneStep fun _ => table) initial
      [.constructed (0 : Nat), .destructing 0, .removed 0] s ∧
      s.server = true ∧ s.calling = none ∧ s.lifetime 1 = .unborn := by
    refine ⟨_, .cons ⟨.construct rfl rfl rfl, by simp [Alone]⟩ (.cons
      ⟨.destruct rfl, by simp [Alone]⟩ (.single ⟨.remove rfl rfl, ?_⟩)), rfl, rfl, rfl⟩
    intro i j label present _
    cases label
    by_contra different
    simp [initial, different, Lifetime.Present] at present
  have taken : Step (fun _ => table) s (.constructed 1) _ := .construct server free fresh
  obtain ⟨kept, served⟩ := (receivers_kept_iff run taken).2.mpr (by simp [Alone])
  exact ⟨s, _, run, taken, by simp, kept, served⟩

/-- The second of two consumers of one table is destroyed. The first one receives no longer. -/
theorem receiver_silenced :
    let table : ZmqConsumerStateTable := .make (ascii "APPL_DB") (ascii "PORT_TABLE") 128
    ∃ s s', Run (Step fun _ => table) initial [.constructed 0, .constructed 1, .destructing 1] s ∧
      Step (fun _ => table) s (.removed 1) s' ∧
      s.lifetime 0 = .alive ∧ Receives (fun _ => table) s (0 : Nat) ∧
      s'.lifetime 0 = .alive ∧ s'.registry.find (ascii "APPL_DB") (ascii "PORT_TABLE") = none := by
  intro table
  exact ⟨_, _, .cons (.construct rfl rfl rfl) (.cons (.construct rfl rfl rfl)
    (.single (.destruct rfl))), .remove rfl rfl, rfl, by unfold Receives; decide, rfl, by decide⟩

end SwssCommon.Zmq.Lifetimes
