import SwssCommon.Select.ReadySet
import SwssCommon.Zmq.Delivery

/-! # A consumer that does not sleep on data

The receiving thread queues records one at a time and then writes to the event descriptor. The
consuming thread selects, which resets the descriptor, and pops once; what is left in the queue is
counted. Whatever the interleaving, records in the queue are not forgotten.
-/

namespace SwssCommon.Zmq.WakeUp

open Bytes

variable {ι : Type} [DecidableEq ι]

/-- The event descriptor behind a consumer and its queue. Reading blocks until the
    counter is positive. -/
def selectable : Selectable Consumer where
  readable c := c.selectableEvent > 0
  ReadData c c' := 0 < c.selectableEvent ∧ c' = c.readData
  ReadThrows _ _ := False
  hasData c := c.receivedOperationQueue ≠ []
  hasCachedData c := c.receivedOperationQueue ≠ []
  initializedWithData _ := false
  updateAfterRead c := c

def tables (getPri : ι → Int) : Select.Objects ι Consumer :=
  ⟨getPri, fun _ => selectable⟩

inductive Receiver (ι : Type) where
  | idle
  /-- In `handleReceivedData` of one table. -/
  | handling (i : ι) (pushed kcos : List KeyOpFieldsValuesTuple)

def Receiver.Between (i : ι) : Receiver ι → Prop
  | .idle => False
  | .handling j pushed _ => j = i ∧ pushed ≠ []

structure System (ι : Type) [DecidableEq ι] where
  receiver : Receiver ι
  /-- The set of ready tables is taken as a set. -/
  select : Select.System ι Consumer (.plain ι)
  /-- The table that has been returned to the caller and not been popped yet. -/
  due : Option ι

def System.update (sys : System ι) (i : ι) (c : Consumer) : System ι :=
  { sys with select := { sys.select with data := Function.update sys.select.data i c } }

theorem System.update_data_self (sys : System ι) (i : ι) (c : Consumer) :
    (sys.update i c).select.data i = c :=
  Function.update_self ..

theorem System.update_data_of_ne {i j} (other : j ≠ i) (sys : System ι) (c : Consumer) :
    (sys.update i c).select.data j = sys.select.data j :=
  Function.update_of_ne other ..

inductive Event (ι : Type) where
  | received
  | pushed
  | notified
  | selected (l : Select.Event ι)
  | started
  | took
  | popped

def returned : Select.Event ι → Option ι
  | .returned (.object i) => some i
  | _ => none

/-- The caller registers tables, and it selects and pops in turn. -/
inductive Step (consumer : ι → ZmqConsumerStateTable) (getPri : ι → Int) :
    System ι → Event ι → System ι → Prop where
  | receive {sys i kcos} (idle : sys.receiver = .idle) :
      Step consumer getPri sys .received { sys with receiver := .handling i [] kcos }
  | push {sys i pushed kco kcos} (busy : sys.receiver = .handling i pushed (kco :: kcos)) :
      Step consumer getPri sys .pushed
        { sys.update i ((sys.select.data i).push kco) with
          receiver := .handling i (pushed ++ [kco]) kcos }
  | notify {sys i pushed} (busy : sys.receiver = .handling i pushed []) :
      Step consumer getPri sys .notified
        { sys.update i (sys.select.data i).notify with receiver := .idle }
  | select {sys l s} (turn : sys.due = none) (kept : ∀ i, l ≠ .removed i)
      (step : Select.Step (tables getPri) (· ≤ ·) (fun _ _ _ => False) sys.select l s) :
      Step consumer getPri sys (.selected l) { sys with select := s, due := returned l }
  | popsNothing {sys i} (due : sys.due = some i) (idle : (sys.select.data i).popping = none)
      (empty : (sys.select.data i).receivedOperationQueue = []) :
      Step consumer getPri sys .popped { sys with due := none }
  | popsStart {sys i} (due : sys.due = some i) (idle : (sys.select.data i).popping = none)
      (some : (sys.select.data i).receivedOperationQueue ≠ []) :
      Step consumer getPri sys .started (sys.update i { sys.select.data i with
        popping := Option.some ⟨(sys.select.data i).receivedOperationQueue.length,
          min (sys.select.data i).receivedOperationQueue.length (consumer i).popBatchSize, []⟩ })
  | popsTake {sys i p left kco rest} (due : sys.due = some i)
      (busy : (sys.select.data i).popping = some p) (more : p.left = left + 1)
      (front : (sys.select.data i).receivedOperationQueue = kco :: rest) :
      Step consumer getPri sys .took (sys.update i ((sys.select.data i).take p left kco rest))
  | popsReturn {sys i p} (due : sys.due = some i) (busy : (sys.select.data i).popping = some p)
      (done : p.left = 0) :
      Step consumer getPri sys .popped
        { sys.update i ((sys.select.data i).finish p (consumer i).popBatchSize) with due := none }

def start (lastUsedTime : ι → Nat) (clock : Nat) : System ι where
  receiver := .idle
  select := Select.start (.plain ι) lastUsedTime clock fun _ => ⟨[], 0, none⟩
  due := none

/-! ## Nothing is forgotten -/

def Given (sys : System ι) (i : ι) : Prop :=
  sys.select.phase.holding = some i ∨ sys.due = some i

def Stirred (sys : System ι) (i : ι) : Prop :=
  0 < (sys.select.data i).selectableEvent ∨ sys.select.IsReady i ∨ sys.receiver.Between i ∨
    Given sys i

/-- A table that is returned goes back into the ready set: it has data, and only the
    caller takes any. -/
structure Awake (sys : System ι) : Prop where
  held : ∀ i, sys.select.phase.holding = some i → (sys.select.data i).receivedOperationQueue ≠ []
  due : ∀ i, sys.due = some i → sys.select.IsReady i ∧ sys.select.phase = .idle
  stirred : ∀ i, (sys.select.data i).receivedOperationQueue ≠ [] → Stirred sys i

namespace Awake

theorem initially (lastUsedTime : ι → Nat) (clock : Nat) : Awake (start lastUsedTime clock) where
  held _ held := nomatch held
  due _ due := nomatch due
  stirred _ some := absurd rfl some

variable {consumer : ι → ZmqConsumerStateTable} {getPri : ι → Int} {sys sys' : System ι}
  {l : Event ι} {i : ι}

theorem not_given (free : sys.select.phase.holding = none) (turn : sys.due = none) :
    ¬ Given sys i := by
  rintro (held | due)
  · exact nomatch free.symm.trans held
  · exact nomatch turn.symm.trans due

theorem carry (stirred : Stirred sys i) (same : sys'.select.data i = sys.select.data i)
    (ready : sys.select.IsReady i → sys'.select.IsReady i)
    (between : sys.receiver.Between i → sys'.receiver.Between i)
    (given : Given sys i → Stirred sys' i) : Stirred sys' i := by
  rcases stirred with signalled | isReady | isBetween | isGiven
  · exact .inl (same ▸ signalled)
  · exact .inr (.inl (ready isReady))
  · exact .inr (.inr (.inl (between isBetween)))
  · exact given isGiven

variable {c : Consumer}

theorem receiving {pushed kcos : List KeyOpFieldsValuesTuple} {receiver : Receiver ι}
    (h : Awake sys) (busy : sys.receiver = .handling i pushed kcos)
    (grows : (sys.select.data i).receivedOperationQueue ≠ [] → c.receivedOperationQueue ≠ [])
    (stirs : 0 < c.selectableEvent ∨ receiver.Between i) :
    Awake { sys.update i c with receiver := receiver } where
  held j held := by
    by_cases same : j = i
    · subst same
      rw [sys.update_data_self]
      exact grows (h.held j held)
    · rw [System.update_data_of_ne same sys c]
      exact h.held j held
  due := h.due
  stirred j some := by
    by_cases same : j = i
    · subst same
      rcases stirs with signalled | between
      · exact .inl (by rwa [sys.update_data_self])
      · exact .inr (.inr (.inl between))
    · rw [System.update_data_of_ne same sys c] at some
      refine carry (h.stirred j some) (System.update_data_of_ne same sys c) id
        (fun between => ?_) fun given => .inr (.inr (.inr given))
      rw [busy] at between
      exact absurd between.1.symm same

theorem popping {due : Option ι} (h : Awake sys) (isDue : sys.due = some i)
    (ends : due = none ∨ due = some i) : Awake { sys.update i c with due := due } where
  held j held := by
    have idle := (h.due i isDue).2
    change sys.select.phase.holding = some j at held
    rw [idle] at held
    cases held
  due j due' := by
    rcases ends with rfl | rfl
    · cases due'
    · cases due'
      exact h.due i isDue
  stirred j some := by
    by_cases same : j = i
    · subst same
      exact .inr (.inl (h.due j isDue).1)
    · rw [System.update_data_of_ne same sys c] at some
      refine carry (h.stirred j some) (System.update_data_of_ne same sys c) id id fun given => ?_
      rcases given with held | due'
      · exact .inr (.inr (.inr (.inl held)))
      · exact absurd (Option.some.inj (due'.symm.trans isDue)) same

theorem rephase {phase : Select.Phase ι} {objects : Finset ι} (h : Awake sys)
    (turn : sys.due = none) (free : sys.select.phase.holding = none)
    (free' : phase.holding = none) :
    Awake { sys with
      select := { sys.select with phase := phase, objects := objects }, due := none } where
  held _ held := nomatch free'.symm.trans held
  due _ due := nomatch due
  stirred i some :=
    carry (h.stirred i some) rfl id id fun given => absurd given (not_given free turn)

theorem read {fds : List ι} {turn : Select.Turn} (h : Awake sys) (due : sys.due = none)
    (reading : sys.select.phase = .reading (i :: fds) turn) :
    Awake { sys with
      select := { sys.select.readData (tables getPri) i c with phase := .reading fds turn }
      due := none } where
  held _ held := nomatch held
  due _ due := nomatch due
  stirred j some := by
    by_cases same : j = i
    · subst same
      exact .inr (.inl (Finset.mem_insert_self ..))
    · have data : (sys.update i c).select.data j = sys.select.data j :=
        System.update_data_of_ne same sys c
      refine carry (h.stirred j (by rwa [← data])) data Finset.mem_insert_of_mem id fun given => ?_
      exact absurd given (not_given (by rw [reading]; rfl) due)

theorem takeOut {turn : Select.Turn} {phase : Select.Phase ι} (h : Awake sys)
    (getPri : ι → Int) (now : Nat)
    (due : sys.due = none) (reading : sys.select.phase = .reading [] turn)
    (leaves : (sys.select.data i).receivedOperationQueue = [] ∧ phase.holding = none ∨
      (sys.select.data i).receivedOperationQueue ≠ [] ∧ phase.holding = some i) :
    Awake { sys with
      select := { sys.select.takeOut (tables getPri) i now with phase := phase }
      due := none } where
  held j held := by
    rcases leaves with ⟨-, free⟩ | ⟨some, isI⟩
    · exact nomatch free.symm.trans held
    · obtain rfl := Option.some.inj (isI.symm.trans held)
      exact some
  due _ due := nomatch due
  stirred j some := by
    by_cases same : j = i
    · subst same
      rcases leaves with ⟨empty, -⟩ | ⟨-, isI⟩
      · exact absurd empty some
      · exact .inr (.inr (.inr (.inl isI)))
    · refine carry (h.stirred j some) rfl (fun ready => Finset.mem_erase.mpr ⟨same, ready⟩) id
        fun given => ?_
      exact absurd given (not_given (by rw [reading]; rfl) due)

theorem give {used} (h : Awake sys) (given : sys.select.phase = .given i used) :
    Awake { sys with select := sys.select.give (tables getPri) i, due := some i } := by
  have some := h.held i (by rw [given]; rfl)
  have ready : ∀ j, (sys.select.give (tables getPri) i).IsReady j ↔
      j = i ∨ sys.select.IsReady j := by
    intro j
    refine Select.mem_insertIf_plain.trans (or_congr_left (and_iff_left ?_))
    simpa [tables, selectable] using some
  have same : ∀ j, (sys.select.give (tables getPri) i).data j = sys.select.data j := by
    intro j
    change Function.update sys.select.data i (sys.select.data i) j = _
    rw [Function.update_eq_self]
  refine ⟨fun _ held => (nomatch held), ?_, fun j some => ?_⟩
  · rintro _ ⟨⟩
    exact ⟨(ready i).mpr (.inl rfl), rfl⟩
  · refine carry (h.stirred j (by rwa [← same j])) (same j)
      (fun isReady => (ready j).mpr (.inr isReady)) id fun isGiven => ?_
    rcases isGiven with held | due
    · rw [given] at held
      exact .inr (.inl ((ready j).mpr (.inl (Option.some.inj held).symm)))
    · have idle := (h.due j due).2
      rw [given] at idle
      cases idle

theorem select {l s} (h : Awake sys)
    (due : sys.due = none) (kept : ∀ i, l ≠ .removed i)
    (taken : Select.Step (tables getPri) (· ≤ ·) (fun _ _ _ => False) sys.select l s) :
    Awake { sys with select := s, due := returned l } := by
  cases taken with
  | change changes => exact changes.elim
  | add idle =>
    unfold Select.System.addSelectable
    split
    · exact h.rephase due (by rw [idle]; rfl) (by rw [idle]; rfl)
    · exact h.rephase due (by rw [idle]; rfl) (by rw [idle]; rfl)
  | remove idle => exact absurd rfl (kept _)
  | call idle start => exact h.rephase due (by rw [idle]; rfl) rfl
  | report waiting nodup registered quiet | fail waiting | interrupt waiting =>
    exact h.rephase due (by rw [waiting]; rfl) rfl
  | read reading reads => exact h.read due reading
  | throw reading throws => exact throws.elim
  | skip reading begins ticks nothing =>
    refine h.takeOut getPri _ due reading (.inl ⟨by simpa [tables, selectable] using nothing, ?_⟩)
    rw [reading]
    rfl
  | take reading begins ticks something =>
    exact h.takeOut getPri _ due reading (.inr ⟨by simpa [tables, selectable] using something, rfl⟩)
  | give given => exact h.give given
  | retry reading none | timeout reading final none =>
    exact h.rephase due (by rw [reading]; rfl) rfl

theorem step (h : Awake sys) (taken : Step consumer getPri sys l sys') : Awake sys' := by
  cases taken with
  | receive idle =>
    refine ⟨h.held, h.due, fun j some => ?_⟩
    rcases h.stirred j some with signalled | ready | between | given
    · exact .inl signalled
    · exact .inr (.inl ready)
    · rw [idle] at between
      exact between.elim
    · exact .inr (.inr (.inr given))
  | push busy =>
    exact h.receiving busy (by simp [Consumer.push]) (.inr ⟨rfl, by simp⟩)
  | notify busy => exact h.receiving busy id (.inl (Nat.succ_pos _))
  | select turn kept step => exact h.select turn kept step
  | popsNothing due idle empty =>
    rename_i i
    have ends := h.popping (c := sys.select.data i) due (.inl rfl)
    simpa [System.update] using ends
  | popsStart due idle some | popsTake due busy more front => exact h.popping due (.inr due)
  | popsReturn due busy done => exact h.popping due (.inl rfl)

end Awake

/-- In every reachable state where the queue of a table is not empty, the descriptor is signalled,
    or the table is ready, or the receiver is between its first push and the notification, or the
    caller has not finished popping it. -/
theorem never_sleeps {consumer : ι → ZmqConsumerStateTable} {getPri : ι → Int}
    {lastUsedTime : ι → Nat} {clock : Nat} {ls : List (Event ι)} {sys : System ι}
    (run : Run (Step consumer getPri) (start lastUsedTime clock) ls sys) (i : ι)
    (some : (sys.select.data i).receivedOperationQueue ≠ []) :
    0 < (sys.select.data i).selectableEvent ∨ sys.select.IsReady i ∨ sys.receiver.Between i ∨
      Given sys i := by
  have awake := run.invariant (I := fun _ => Awake) (.initially lastUsedTime clock)
    fun h taken => h.step taken
  exact awake.stirred i some

/-- A message of two records for a consumer that pops one at a time: the table is selected and
    popped, and one record stays in the queue. -/
theorem never_sleeps_pushed :
    let step := Step (fun _ : Unit => .make (ascii "APPL_DB") (ascii "PORT") 1) fun _ => 0
    ∃ sys, Run step (start (fun _ => 0) 0)
        [.selected (.added ()), .received, .pushed, .pushed, .notified, .selected .called,
          .selected (.reported [()]), .selected (.read ()), .selected (.took ()),
          .selected (.returned (.object ())), .started, .took, .popped] sys ∧
      (sys.select.data ()).receivedOperationQueue ≠ [] ∧
      (0 < (sys.select.data ()).selectableEvent ∨ sys.select.IsReady () ∨
        sys.receiver.Between () ∨ Given sys ()) := by
  intro step
  let kco : KeyOpFieldsValuesTuple := ⟨ascii "p", DEL_COMMAND, []⟩
  let added : System Unit := { start (fun _ => 0) 0 with
    select := (start (fun _ => 0) 0).select.addSelectable (tables fun _ => 0) () }
  have registered : step (start (fun _ => 0) 0) (.selected (.added ())) added :=
    .select rfl (by simp) (.add rfl)
  have received : step added .received { added with receiver := .handling () [] [kco, kco] } :=
    .receive rfl
  have notified := (((Run.cons registered (.single received)).snoc (.push rfl)).snoc
    (.push rfl)).snoc (.notify rfl)
  have reported := (notified.snoc (.select rfl (by simp)
    (.call rfl (by decide : Select.Turn.first ≠ .second)))).snoc
    (.select (l := .reported [()]) rfl (by simp) (.report rfl (by simp) (by decide) (by simp)))
  have read := reported.snoc (.select rfl (by simp) (.read rfl ⟨by decide, rfl⟩))
  have returned := (read.snoc (.select rfl (by simp)
    (.take (i := ()) rfl ⟨by decide, by decide⟩ (le_refl 0) rfl))).snoc
    (.select rfl (by simp) (.give rfl))
  have popped := ((returned.snoc (.popsStart rfl rfl (List.cons_ne_nil kco [kco]))).snoc
    (.popsTake rfl rfl rfl rfl)).snoc (.popsReturn rfl rfl rfl)
  have some : ([kco] : List KeyOpFieldsValuesTuple) ≠ [] := List.cons_ne_nil _ _
  exact ⟨_, popped, some, never_sleeps popped () some⟩

end SwssCommon.Zmq.WakeUp
