import Mathlib.Data.Finset.Basic
import SwssCommon.Lib.OrderedSet
import SwssCommon.Lib.Run

/-! # Waiting for selectables

A `Select` polls the descriptors of its objects, reads from those that have something, and returns
the first ready object that has data. If there is none it polls once more and waits.

Objects are left open, and so is the set of ready ones: the class uses a `std::set` ordered by
`cmp`, which only knows priorities and times of the last use.
-/

namespace SwssCommon

open Function

/-- The virtual functions of a selectable, over its state and that of its descriptor. -/
structure Selectable (δ : Type) where
  /-- Whether there is something to read from the descriptor. -/
  readable : δ → Bool
  ReadData : δ → δ → Prop
  /-- `readData` throws. -/
  ReadThrows : δ → δ → Prop
  hasData : δ → Bool
  hasCachedData : δ → Bool
  initializedWithData : δ → Bool
  updateAfterRead : δ → δ

namespace Select

variable {ι δ : Type}

structure Objects (ι δ : Type) where
  getPri : ι → Int
  selectable : ι → Selectable δ

/-- Highest priority first, then the one that was selected earlier. -/
def cmp (getPri : ι → Int) (getLastUsedTime : ι → Nat) (a b : ι) : Bool :=
  if getPri a > getPri b then true
  else if getPri a < getPri b then false
  else if getLastUsedTime a < getLastUsedTime b then true
  else if getLastUsedTime a > getLastUsedTime b then false
  else false

structure ReadySet (ι : Type) where
  carrier : Type
  empty : carrier
  insert : (ι → ι → Bool) → ι → carrier → carrier
  erase : (ι → ι → Bool) → ι → carrier → carrier
  /-- The element at `begin()`. -/
  Begins : (ι → ι → Bool) → carrier → ι → Prop
  Mem : ι → carrier → Prop

/-- `std::set`. -/
abbrev ReadySet.ordered (ι : Type) : ReadySet ι where
  carrier := List ι
  empty := []
  insert := OrderedSet.insert
  erase := OrderedSet.erase
  Begins _ l i := l.head? = some i
  Mem i l := i ∈ l

abbrev ReadySet.plain (ι : Type) [DecidableEq ι] : ReadySet ι where
  carrier := Finset ι
  empty := ∅
  insert _ i s := Insert.insert i s
  erase _ i s := s.erase i
  Begins lt s i := i ∈ s ∧ ∀ j ∈ s, lt j i = false
  Mem i s := i ∈ s

/-- The calls of `poll_descriptors` that `select` makes. -/
inductive Turn where
  /-- With a timeout of zero there is just one. -/
  | only
  | first
  | second
  deriving DecidableEq

inductive Phase (ι : Type) where
  | idle
  /-- In `epoll_wait`. -/
  | waiting (turn : Turn)
  /-- Descriptors that were reported and have still to be read; the loop over the ready
      objects comes after them. -/
  | reading (fds : List ι) (turn : Turn)
  /-- An object with data has been taken, last used at the given time before. -/
  | given (i : ι) (used : Nat)
  deriving DecidableEq

/-- The object that has been taken and not been returned yet. -/
def Phase.holding : Phase ι → Option ι
  | .given i _ => some i
  | _ => none

structure System (ι δ : Type) (R : ReadySet ι) where
  objects : Finset ι
  ready : R.carrier
  lastUsedTime : ι → Nat
  /-- The last reading of the clock. -/
  clock : Nat
  data : ι → δ
  phase : Phase ι

inductive Result (ι : Type) where
  | object (i : ι)
  | error
  | timeout
  | signalint
  deriving DecidableEq

inductive Event (ι : Type) where
  /-- Something has happened to the object, such as a message arriving. -/
  | changed (i : ι)
  | added (i : ι)
  | removed (i : ι)
  | called
  | reported (fds : List ι)
  | read (i : ι)
  | skipped (i : ι)
  | took (i : ι)
  | retried
  | returned (result : Result ι)
  deriving DecidableEq

section Step

variable [DecidableEq ι] (o : Objects ι δ) {R : ReadySet ι}

namespace System

def cmp (sys : System ι δ R) : ι → ι → Bool :=
  Select.cmp o.getPri sys.lastUsedTime

def insert (sys : System ι δ R) (i : ι) : R.carrier :=
  R.insert (sys.cmp o) i sys.ready

def erase (sys : System ι δ R) (i : ι) : R.carrier :=
  R.erase (sys.cmp o) i sys.ready

def insertIf (sys : System ι δ R) (condition : Bool) (i : ι) : R.carrier :=
  if condition then sys.insert o i else sys.ready

def addSelectable (sys : System ι δ R) (i : ι) : System ι δ R :=
  if i ∈ sys.objects then sys
  else { sys with
    objects := Insert.insert i sys.objects
    ready := sys.insertIf o ((o.selectable i).initializedWithData (sys.data i)) i }

def removeSelectable (sys : System ι δ R) (i : ι) : System ι δ R :=
  { sys with objects := sys.objects.erase i, ready := sys.erase o i }

/-- `i` has been read, which leaves it with `d`. -/
def readData (sys : System ι δ R) (i : ι) (d : δ) : System ι δ R :=
  { sys with data := update sys.data i d, ready := sys.insert o i }

/-- `i` leaves the set and its time is updated while it is out. -/
def takeOut (sys : System ι δ R) (i : ι) (now : Nat) : System ι δ R :=
  { sys with
    ready := sys.erase o i
    lastUsedTime := update sys.lastUsedTime i now
    clock := now }

/-- The object is returned, and stays in the set if it has more than one message. -/
def give (sys : System ι δ R) (i : ι) : System ι δ R :=
  { sys with
    ready := sys.insertIf o ((o.selectable i).hasCachedData (sys.data i)) i
    data := update sys.data i ((o.selectable i).updateAfterRead (sys.data i))
    phase := .idle }

end System

/-- Readings of the clock are related by `Ticks`, and the objects change by `Changes`
    besides what the select does with them. -/
inductive Step (Ticks : Nat → Nat → Prop) (Changes : ι → δ → δ → Prop) :
    System ι δ R → Event ι → System ι δ R → Prop where
  | change {sys i d} (changes : Changes i (sys.data i) d) :
      Step Ticks Changes sys (.changed i) { sys with data := update sys.data i d }
  | add {sys i} (idle : sys.phase = .idle) :
      Step Ticks Changes sys (.added i) (sys.addSelectable o i)
  | remove {sys i} (idle : sys.phase = .idle) :
      Step Ticks Changes sys (.removed i) (sys.removeSelectable o i)
  | call {sys turn} (idle : sys.phase = .idle) (start : turn ≠ .second) :
      Step Ticks Changes sys .called { sys with phase := .waiting turn }
  | report {sys turn fds} (waiting : sys.phase = .waiting turn) (nodup : fds.Nodup)
      (registered : ∀ i ∈ fds, i ∈ sys.objects ∧ (o.selectable i).readable (sys.data i) = true)
      (quiet : fds = [] → ∀ i ∈ sys.objects, (o.selectable i).readable (sys.data i) = false) :
      Step Ticks Changes sys (.reported fds) { sys with phase := .reading fds turn }
  | fail {sys turn} (waiting : sys.phase = .waiting turn) :
      Step Ticks Changes sys (.returned .error) { sys with phase := .idle }
  | interrupt {sys} (waiting : sys.phase = .waiting .second) :
      Step Ticks Changes sys (.returned .signalint) { sys with phase := .idle }
  | read {sys i fds turn d} (reading : sys.phase = .reading (i :: fds) turn)
      (reads : (o.selectable i).ReadData (sys.data i) d) :
      Step Ticks Changes sys (.read i) { sys.readData o i d with phase := .reading fds turn }
  | throw {sys i fds turn d} (reading : sys.phase = .reading (i :: fds) turn)
      (throws : (o.selectable i).ReadThrows (sys.data i) d) :
      Step Ticks Changes sys (.returned .error) { sys with
        data := update sys.data i d, phase := .idle }
  | skip {sys i turn now} (reading : sys.phase = .reading [] turn)
      (begins : R.Begins (sys.cmp o) sys.ready i) (ticks : Ticks sys.clock now)
      (nothing : (o.selectable i).hasData (sys.data i) = false) :
      Step Ticks Changes sys (.skipped i) (sys.takeOut o i now)
  | take {sys i turn now} (reading : sys.phase = .reading [] turn)
      (begins : R.Begins (sys.cmp o) sys.ready i) (ticks : Ticks sys.clock now)
      (something : (o.selectable i).hasData (sys.data i) = true) :
      Step Ticks Changes sys (.took i)
        { sys.takeOut o i now with phase := .given i (sys.lastUsedTime i) }
  | give {sys i used} (given : sys.phase = .given i used) :
      Step Ticks Changes sys (.returned (.object i)) (sys.give o i)
  | retry {sys} (reading : sys.phase = .reading [] .first) (empty : ∀ i, ¬ R.Mem i sys.ready) :
      Step Ticks Changes sys .retried { sys with phase := .waiting .second }
  | timeout {sys turn} (reading : sys.phase = .reading [] turn) (final : turn ≠ .first)
      (empty : ∀ i, ¬ R.Mem i sys.ready) :
      Step Ticks Changes sys (.returned .timeout) { sys with phase := .idle }

theorem Step.times {o Ticks Changes}
    {sys sys' : System ι δ R} {l} (taken : Step o Ticks Changes sys l sys') :
    sys'.lastUsedTime = sys.lastUsedTime ∧ sys'.clock = sys.clock ∨
      ∃ i now, (l = .skipped i ∨ l = .took i) ∧ Ticks sys.clock now ∧
        sys'.lastUsedTime = update sys.lastUsedTime i now ∧ sys'.clock = now := by
  cases taken with
  | add idle =>
    left
    unfold System.addSelectable
    split <;> exact ⟨rfl, rfl⟩
  | skip reading begins ticks nothing => exact .inr ⟨_, _, .inl rfl, ticks, rfl, rfl⟩
  | take reading begins ticks something => exact .inr ⟨_, _, .inr rfl, ticks, rfl, rfl⟩
  | _ => exact .inl ⟨rfl, rfl⟩

end Step

/-- A new select. The objects have been used before, or constructed, at these times. -/
def start (R : ReadySet ι) (lastUsedTime : ι → Nat) (clock : Nat) (data : ι → δ) :
    System ι δ R where
  objects := ∅
  ready := R.empty
  lastUsedTime := lastUsedTime
  clock := clock
  data := data
  phase := .idle

/-! ## The comparator -/

theorem cmp_iff (getPri : ι → Int) (getLastUsedTime : ι → Nat) (a b : ι) :
    cmp getPri getLastUsedTime a b ↔
      getPri b < getPri a ∨ getPri a = getPri b ∧ getLastUsedTime a < getLastUsedTime b := by
  unfold cmp
  grind

theorem cmp_strictWeak (getPri : ι → Int) (getLastUsedTime : ι → Nat) :
    OrderedSet.StrictWeak (cmp getPri getLastUsedTime) where
  asymm {a b} before := by
    have later : ¬ cmp getPri getLastUsedTime b a := by
      rw [cmp_iff] at before ⊢
      omega
    simpa using later
  cotrans {a b} c before := by
    rw [cmp_iff] at before
    rw [cmp_iff, cmp_iff]
    omega

end Select

end SwssCommon
