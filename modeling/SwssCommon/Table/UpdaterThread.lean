import SwssCommon.Lib.Run
import SwssCommon.Table.Updater

/-! # The thread of an updater

`update` and the destructor notify the thread, which looks without the mutex it waits with: a
notification between the look and the wait is lost. A record that comes between its looks at the
queue and at the flag is left behind when it exits.
-/

namespace SwssCommon.AsyncDBUpdater

open Bytes Redis List

inductive Phase where
  | size
  /-- It looks at the flag, having found so many records. -/
  | flag (count : Nat)
  | wait
  | blocked
  /-- It writes the front, and so many records after it. -/
  | writing (left : Nat)
  | popping (left : Nat)
  | exited

def Phase.notified : Phase → Phase
  | .blocked => .size
  | phase => phase

def Phase.afterPop : Nat → Phase
  | 0 => .size
  | left + 1 => .writing left

inductive Destructor where
  | uncalled
  | cleared
  | joining
  | joined

/-- The updater with its thread, the threads that call `update`, and the destructor. -/
structure Threads (τ : Type) where
  updater : AsyncDBUpdater
  runThread : Bool
  phase : Phase
  /-- Threads that have pushed a record and not notified yet. -/
  owes : τ → Bool
  destructor : Destructor

inductive Action (τ : Type) where
  | push (thread : τ) (kco : KeyOpFieldsValuesTuple)
  | notify (thread : τ)
  | clear
  | notifyExit
  | join
  | updater

variable {τ : Type} [DecidableEq τ]

inductive Step (t : TableBase) : Threads τ → Action τ → Threads τ → Prop where
  | push {s : Threads τ} {thread : τ} {kco : KeyOpFieldsValuesTuple}
      (free : s.owes thread = false) :
      Step t s (.push thread kco) { s with
        updater := s.updater.update kco
        owes := Function.update s.owes thread true }
  | notify {s : Threads τ} {thread : τ} (pushed : s.owes thread = true) :
      Step t s (.notify thread) { s with
        phase := s.phase.notified
        owes := Function.update s.owes thread false }
  | clear {s : Threads τ} (uncalled : s.destructor = .uncalled) :
      Step t s .clear { s with runThread := false, destructor := .cleared }
  | notifyExit {s : Threads τ} (cleared : s.destructor = .cleared) :
      Step t s .notifyExit { s with phase := s.phase.notified, destructor := .joining }
  | join {s : Threads τ} (joining : s.destructor = .joining) (exited : s.phase = .exited) :
      Step t s .join { s with destructor := .joined }
  | size {s : Threads τ} (size : s.phase = .size) :
      Step t s .updater { s with phase := .flag s.updater.dbUpdateDataQueue.length }
  | exit {s : Threads τ} (empty : s.phase = .flag 0) (cleared : s.runThread = false) :
      Step t s .updater { s with phase := .exited }
  | stay {s : Threads τ} (empty : s.phase = .flag 0) (running : s.runThread = true) :
      Step t s .updater { s with phase := .wait }
  -- the flag is looked at here as well, for the log
  | work {s : Threads τ} {left : Nat} (found : s.phase = .flag (left + 1)) :
      Step t s .updater { s with phase := .writing left }
  | wait {s : Threads τ} (wait : s.phase = .wait) :
      Step t s .updater { s with phase := .blocked }
  | write {s : Threads τ} {left : Nat} {kco : KeyOpFieldsValuesTuple}
      {rest : List KeyOpFieldsValuesTuple} {db : Server} (writing : s.phase = .writing left)
      (front : s.updater.dbUpdateDataQueue = kco :: rest)
      (wrote : write t kco s.updater.db = (.ok (), db)) :
      Step t s .updater { s with
        updater := { s.updater with db := db }
        phase := .popping left }
  | pop {s : Threads τ} {left : Nat} {kco : KeyOpFieldsValuesTuple}
      {rest : List KeyOpFieldsValuesTuple} (popping : s.phase = .popping left)
      (front : s.updater.dbUpdateDataQueue = kco :: rest) :
      Step t s .updater { s with
        updater := { s.updater with dbUpdateDataQueue := rest }
        phase := .afterPop left }

def constructed (db : Server) : Threads τ :=
  ⟨⟨[], db⟩, true, .size, fun _ => false, .uncalled⟩

def pushed : List (Action τ) → List KeyOpFieldsValuesTuple
  | [] => []
  | .push _ kco :: actions => kco :: pushed actions
  | _ :: actions => pushed actions

theorem run_dbUpdateThread {t} {s : Threads τ} {left u}
    (writing : s.phase = .writing left) (wrote : s.updater.dbUpdateThread t = some u) :
    Run (Step t) s [.updater, .updater] { s with updater := u, phase := .afterPop left } := by
  unfold dbUpdateThread at wrote
  cases queue : s.updater.dbUpdateDataQueue with
  | nil =>
    rw [queue] at wrote
    cases wrote
  | cons kco rest =>
    rw [queue] at wrote
    dsimp only at wrote
    split at wrote
    · rename_i db ran
      cases wrote
      refine (Run.single (.write writing queue ran)).snoc ?_
      exact Step.pop (s := { s with updater := ⟨_, db⟩, phase := .popping left }) rfl queue
    · cases wrote

/-! ## Work and notifications -/

namespace Threads

variable (s : Threads τ)

def Idle : Prop :=
  s.updater.dbUpdateDataQueue = [] ∧ s.runThread = true

def Announcing : Prop :=
  (∃ thread, s.owes thread = true) ∨ s.destructor = .cleared

/-- The thread has looked, found nothing to do, and does not wait yet. -/
def Leaving : Prop :=
  s.phase = .wait ∨ s.phase = .flag 0 ∧ s.runThread = true

/-- No notification comes too early, unless there is nothing to do or another is to come. No record
    comes between the look at the queue and the one at a cleared flag, or later. -/
def Timely : Action τ → Prop
  | .push _ _ => s.phase ≠ .exited ∧ (s.phase = .flag 0 → s.runThread = true)
  | .notify thread => s.Leaving →
      s.Idle ∨ (∃ other, other ≠ thread ∧ s.owes other = true) ∨ s.destructor = .cleared
  | .clear => s.phase = .flag 0 → s.updater.dbUpdateDataQueue = []
  | .notifyExit => s.Leaving → ∃ thread, s.owes thread = true
  | .join | .updater => True

/-- No step of another thread is pending, unless it waits for this one. -/
def Quiet : Prop :=
  (∀ thread, s.owes thread = false) ∧ s.destructor ≠ .cleared

def unwritten : List KeyOpFieldsValuesTuple :=
  match s.phase with
  | .popping _ => s.updater.dbUpdateDataQueue.tail
  | _ => s.updater.dbUpdateDataQueue

end Threads

structure TimelyStep (t : TableBase) (s : Threads τ) (action : Action τ) (s' : Threads τ) :
    Prop where
  taken : Step t s action s'
  timely : s.Timely action

/-- The thread on its own ends after so many steps at most. All records are then written, and the
    destructor can go on. -/
def Settles (t : TableBase) (main : Bytes → Hash) (kcos : List KeyOpFieldsValuesTuple)
    (s : Threads τ) : Prop :=
  ∃ bound, ∀ actions s', Run (Step t) s actions s' → (∀ action ∈ actions, action = .updater) →
    actions.length ≤ bound ∧
      ((¬∃ s'', Step t s' .updater s'') →
        s'.updater.dbUpdateDataQueue = [] ∧
          Table.Stores t (kcos.foldl (written t) main) s'.updater.db ∧
          (s'.destructor = .joining → ∃ s'', Step t s' .join s''))

/-! ## What every timely run keeps -/

/-- What the thread has found is still so, or somebody will tell it. -/
def Threads.Relies (s : Threads τ) : Phase → Prop
  | .size => True
  | .flag count => count ≤ s.updater.dbUpdateDataQueue.length ∧
      (count = 0 → s.updater.dbUpdateDataQueue = [] ∨ s.runThread = true ∧ s.Announcing)
  | .wait | .blocked => s.Idle ∨ s.Announcing
  | .writing left | .popping left => left < s.updater.dbUpdateDataQueue.length
  | .exited => s.updater.dbUpdateDataQueue = [] ∧ s.runThread = false

structure Sound (s : Threads τ) : Prop where
  relies : s.Relies s.phase
  flagged : s.runThread = true ↔ s.destructor = .uncalled

variable {t : TableBase} {s s' : Threads τ} {action : Action τ}

theorem Sound.push (h : Sound s) {thread kco}
    (timely : s.Timely (.push thread kco)) :
    Sound { s with
      updater := s.updater.update kco
      owes := Function.update s.owes thread true } := by
  refine ⟨?_, h.flagged⟩
  have relies := h.relies
  have announcing : ∃ other, Function.update s.owes thread true other :=
    ⟨thread, Function.update_self ..⟩
  have longer : (s.updater.update kco).dbUpdateDataQueue.length =
      s.updater.dbUpdateDataQueue.length + 1 := length_append
  cases phase : s.phase with
  | size => trivial
  | flag count =>
    rw [phase] at relies
    refine ⟨(Nat.le_succ_of_le relies.1).trans_eq longer.symm, fun empty => ?_⟩
    subst empty
    exact .inr ⟨timely.2 phase, .inl announcing⟩
  | wait | blocked => exact .inr (.inl announcing)
  | writing left | popping left =>
    rw [phase] at relies
    exact (Nat.lt_succ_of_lt relies).trans_eq longer.symm
  | exited => exact absurd phase timely.1

omit [DecidableEq τ] in
theorem Sound.notified (h : Sound s) {owes : τ → Bool} {destructor}
    (flagged : s.runThread ↔ destructor = .uncalled)
    (heard : s.Leaving → s.Idle ∨ (∃ thread, owes thread) ∨ destructor = .cleared) :
    Sound { s with phase := s.phase.notified, owes := owes, destructor := destructor } := by
  refine ⟨?_, flagged⟩
  have relies := h.relies
  cases phase : s.phase with
  | size => trivial
  | flag count =>
    rw [phase] at relies
    refine ⟨relies.1, fun empty => ?_⟩
    subst empty
    rcases relies.2 rfl with nothing | ⟨running, -⟩
    · exact .inl nothing
    · rcases heard (.inr ⟨phase, running⟩) with idle | announcing
      · exact .inl idle.1
      · exact .inr ⟨running, announcing⟩
  | wait => exact heard (.inl phase)
  | blocked => trivial
  | writing left | popping left | exited =>
    rw [phase] at relies
    exact relies

omit [DecidableEq τ] in
theorem Sound.clear (h : Sound s) (timely : s.Timely .clear) :
    Sound { s with runThread := false, destructor := .cleared } := by
  refine ⟨?_, by simp⟩
  have relies := h.relies
  cases phase : s.phase with
  | size => trivial
  | flag count =>
    rw [phase] at relies
    refine ⟨relies.1, fun empty => ?_⟩
    subst empty
    exact .inl (timely phase)
  | wait | blocked => exact .inr (.inr rfl)
  | writing left | popping left =>
    rw [phase] at relies
    exact relies
  | exited =>
    rw [phase] at relies
    exact ⟨relies.1, rfl⟩

theorem Sound.updater (h : Sound s) (taken : Step t s .updater s') : Sound s' := by
  have relies := h.relies
  cases taken with
  | size size =>
    refine ⟨⟨Nat.le_refl _, fun empty => ?_⟩, h.flagged⟩
    exact .inl (length_eq_zero_iff.mp empty)
  | exit empty cleared =>
    rw [empty] at relies
    rcases relies.2 rfl with nothing | ⟨running, -⟩
    · exact ⟨⟨nothing, cleared⟩, h.flagged⟩
    · cases cleared.symm.trans running
  | stay empty running =>
    rw [empty] at relies
    refine ⟨?_, h.flagged⟩
    rcases relies.2 rfl with nothing | ⟨-, announcing⟩
    · exact .inl ⟨nothing, running⟩
    · exact .inr announcing
  | work found =>
    rw [found] at relies
    exact ⟨relies.1, h.flagged⟩
  | wait wait =>
    rw [wait] at relies
    exact ⟨relies, h.flagged⟩
  | write writing front wrote =>
    rw [writing] at relies
    exact ⟨relies, h.flagged⟩
  | @pop left kco rest popping front =>
    rw [popping, Threads.Relies, front] at relies
    refine ⟨?_, h.flagged⟩
    cases left with
    | zero => trivial
    | succ left => exact Nat.lt_of_succ_lt_succ relies

theorem Sound.step (h : Sound s) (step : TimelyStep t s action s') : Sound s' := by
  obtain ⟨taken, timely⟩ := step
  cases action with
  | push thread kco =>
    cases taken with
    | push free => exact h.push timely
  | notify thread =>
    cases taken with
    | notify pushed =>
      refine h.notified h.flagged fun leaving => ?_
      rcases timely leaving with idle | ⟨other, different, owes⟩ | cleared
      · exact .inl idle
      · exact .inr (.inl ⟨other, by rwa [Function.update_of_ne different]⟩)
      · exact .inr (.inr cleared)
  | clear =>
    cases taken with
    | clear uncalled => exact h.clear timely
  | notifyExit =>
    cases taken with
    | notifyExit cleared =>
      refine h.notified ?_ fun leaving => .inr (.inl (timely leaving))
      rw [h.flagged, cleared]
      simp
  | join =>
    cases taken with
    | join joining exited =>
      have relies := h.relies
      rw [exited] at relies
      refine ⟨?_, by rw [h.flagged, joining]; simp⟩
      rw [exited]
      exact relies
  | updater => exact h.updater taken

/-! ## What is written -/

omit [DecidableEq τ] in
theorem pushed_append (actions more : List (Action τ)) :
    pushed (actions ++ more) = pushed actions ++ pushed more := by
  induction actions with
  | nil => rfl
  | cons action actions ih => cases action <;> simp [pushed, ih]

/-- The records pushed are those in the table and those that have not been written. -/
def Accounts (t : TableBase) (main : Bytes → Hash) (kcos : List KeyOpFieldsValuesTuple)
    (s : Threads τ) : Prop :=
  ∃ done, done ++ s.unwritten = kcos ∧ Table.Stores t (done.foldl (written t) main) s.updater.db

section

variable {main : Bytes → Hash} {kcos : List KeyOpFieldsValuesTuple}

omit [DecidableEq τ] in
theorem Accounts.keep (h : Accounts t main kcos s) (silent : pushed [action] = [])
    (database : s'.updater.db = s.updater.db) (left : s'.unwritten = s.unwritten) :
    Accounts t main (kcos ++ pushed [action]) s' := by
  obtain ⟨done, split, stored⟩ := h
  rw [silent, append_nil]
  exact ⟨done, by rw [left, split], database ▸ stored⟩

omit [DecidableEq τ] in
theorem unwritten_push (sound : Sound s) (kco : KeyOpFieldsValuesTuple) (owes : τ → Bool) :
    ({ s with updater := s.updater.update kco, owes := owes } : Threads τ).unwritten =
      s.unwritten ++ [kco] := by
  have relies := sound.relies
  cases phase : s.phase with
  | popping left =>
    rw [phase] at relies
    have waiting : s.updater.dbUpdateDataQueue ≠ [] := ne_nil_of_length_pos
      (Nat.zero_lt_of_lt relies)
    simp [Threads.unwritten, phase, AsyncDBUpdater.update, tail_append_of_ne_nil waiting]
  | size | flag | wait | blocked | writing | exited =>
    simp [Threads.unwritten, phase, AsyncDBUpdater.update]

omit [DecidableEq τ] in
theorem unwritten_notified (s : Threads τ) (owes : τ → Bool) (destructor : Destructor) :
    ({ s with phase := s.phase.notified, owes := owes, destructor := destructor } :
      Threads τ).unwritten = s.unwritten := by
  cases phase : s.phase <;> simp [Threads.unwritten, phase, Phase.notified]

theorem Accounts.step (sound : Sound s) (h : Accounts t main kcos s)
    (taken : Step t s action s') : Accounts t main (kcos ++ pushed [action]) s' := by
  cases taken with
  | push free =>
    obtain ⟨done, split, stored⟩ := h
    exact ⟨done, by rw [unwritten_push sound, ← append_assoc, split]; rfl, stored⟩
  | notify | notifyExit => exact h.keep rfl rfl (unwritten_notified s _ _)
  | clear | join => exact h.keep rfl rfl rfl
  | size phase | exit phase | stay phase | work phase | wait phase =>
    exact h.keep rfl rfl (by simp [Threads.unwritten, phase])
  | @write left kco rest db writing front wrote =>
    obtain ⟨done, split, stored⟩ := h
    obtain ⟨_, db', ran, after⟩ := write_ensures stored kco
    obtain ⟨-, rfl⟩ := Prod.mk.inj (ran.symm.trans wrote)
    refine ⟨done ++ [kco], ?_, by rwa [foldl_append]⟩
    simpa [Threads.unwritten, writing, front, pushed] using split
  | @pop left kco rest popping front =>
    refine h.keep rfl rfl ?_
    cases left <;> simp [Threads.unwritten, popping, front, Phase.afterPop]

end

/-! ## The thread on its own -/

/-- How many steps the thread takes at most before it waits or exits. -/
def Threads.rank (s : Threads τ) : Nat :=
  4 * s.updater.dbUpdateDataQueue.length +
    match s.phase with
    | .size => 3
    | .flag _ => 2
    | .wait | .writing _ => 1
    | .blocked | .popping _ | .exited => 0

theorem rank_updater (taken : Step t s .updater s') : s'.rank < s.rank := by
  cases taken with
  | size phase | exit phase | stay phase | work phase | wait phase | write phase =>
    simp [Threads.rank, phase]
  | @pop left kco rest popping front =>
    cases left <;> simp [Threads.rank, front, Phase.afterPop] <;> omega

variable {main : Bytes → Hash} {kcos : List KeyOpFieldsValuesTuple}

theorem updater_step (sound : Sound s) (h : Accounts t main kcos s) :
    s.phase = .blocked ∨ s.phase = .exited ∨ ∃ s', Step t s .updater s' := by
  have relies := sound.relies
  cases phase : s.phase with
  | size => exact .inr (.inr ⟨_, .size phase⟩)
  | flag count =>
    cases count with
    | zero =>
      cases flag : s.runThread with
      | false => exact .inr (.inr ⟨_, .exit phase flag⟩)
      | true => exact .inr (.inr ⟨_, .stay phase flag⟩)
    | succ left => exact .inr (.inr ⟨_, .work phase⟩)
  | wait => exact .inr (.inr ⟨_, .wait phase⟩)
  | blocked => exact .inl rfl
  | writing left =>
    rw [phase] at relies
    obtain ⟨kco, rest, front⟩ := exists_cons_of_length_pos (Nat.zero_lt_of_lt relies)
    obtain ⟨done, -, stored⟩ := h
    obtain ⟨_, db, ran, -⟩ := write_ensures stored kco
    exact .inr (.inr ⟨_, .write phase front ran⟩)
  | popping left =>
    rw [phase] at relies
    obtain ⟨kco, rest, front⟩ := exists_cons_of_length_pos (Nat.zero_lt_of_lt relies)
    exact .inr (.inr ⟨_, .pop phase front⟩)
  | exited => exact .inr (.inl rfl)

theorem run_updater {actions} (sound : Sound s)
    (accounts : Accounts t main kcos s) (quiet : s.Quiet) (run : Run (Step t) s actions s')
    (only : ∀ action ∈ actions, action = .updater) :
    (Sound s' ∧ Accounts t main kcos s' ∧ s'.Quiet) ∧ actions.length + s'.rank ≤ s.rank := by
  induction run with
  | refl => exact ⟨⟨sound, accounts, quiet⟩, by simp⟩
  | @snoc _ _ actions action _ taken ih =>
    obtain ⟨⟨sound, accounts, quiet⟩, bound⟩ :=
      ih fun action member => only action (mem_append_left _ member)
    obtain rfl := only action (by simp)
    have less := rank_updater taken
    have kept := accounts.step sound taken
    rw [show pushed [.updater] = [] from rfl, append_nil] at kept
    refine ⟨⟨sound.updater taken, kept, ?_⟩, ?_⟩
    · cases taken <;> exact quiet
    · rw [length_append, length_singleton]
      omega

theorem settled (sound : Sound s) (accounts : Accounts t main kcos s) (quiet : s.Quiet)
    (ended : ¬∃ s', Step t s .updater s') :
    s.updater.dbUpdateDataQueue = [] ∧ Table.Stores t (kcos.foldl (written t) main) s.updater.db ∧
      (s.destructor = .joining → ∃ s', Step t s .join s') := by
  have relies := sound.relies
  obtain ⟨done, split, stored⟩ := accounts
  rcases updater_step sound ⟨done, split, stored⟩ with blocked | exited | goes
  · rw [blocked] at relies
    rcases relies with ⟨nothing, running⟩ | ⟨thread, owes⟩ | cleared
    · rw [Threads.unwritten, blocked] at split
      rw [nothing, append_nil] at split
      refine ⟨nothing, split ▸ stored, fun joining => ?_⟩
      cases (sound.flagged.mp running).symm.trans joining
    · cases (quiet.1 thread).symm.trans owes
    · exact absurd cleared quiet.2
  · rw [exited] at relies
    rw [Threads.unwritten, exited] at split
    rw [relies.1, append_nil] at split
    exact ⟨relies.1, split ▸ stored, fun joining => ⟨_, .join joining exited⟩⟩
  · exact absurd goes ended

omit [DecidableEq τ] in
theorem sound_constructed (db : Server) : Sound (constructed db : Threads τ) :=
  ⟨trivial, by simp [constructed]⟩

/-- In a run of timely steps the thread is blocked only while there is nothing to do or a
    notification is to come. Left alone it writes all that was pushed, and the destructor returns.
    -/
theorem updater_awake {main : Bytes → Hash} {db : Server} {actions : List (Action τ)}
    (stored : Table.Stores t main db) (run : Run (TimelyStep t) (constructed db) actions s) :
    (s.phase = .blocked → s.Idle ∨ s.Announcing) ∧
      (s.Quiet → Settles t main (pushed actions) s) := by
  have kept : Sound s ∧ Accounts t main (pushed actions) s := by
    refine Run.invariant (I := fun actions s => Sound s ∧ Accounts t main (pushed actions) s)
      ?_ ?_ run
    · exact ⟨sound_constructed db, [], rfl, stored⟩
    · rintro actions s action s' ⟨sound, accounts⟩ step
      rw [pushed_append]
      exact ⟨sound.step step, accounts.step sound step.taken⟩
  obtain ⟨sound, accounts⟩ := kept
  refine ⟨fun blocked => ?_, fun quiet => ⟨s.rank, fun actions s' run only => ?_⟩⟩
  · have relies := sound.relies
    rw [blocked] at relies
    exact relies
  · obtain ⟨⟨sound, accounts, quiet⟩, bound⟩ := run_updater sound accounts quiet run only
    exact ⟨by omega, settled sound accounts quiet⟩

private def ports : TableBase := ⟨ascii "PORT_TABLE", .colon⟩

private def emptyDb : Server := ⟨∅, []⟩

private theorem emptyDb_stores : Table.Stores ports (fun _ => 1) emptyDb := fun _ => rfl

private def record : KeyOpFieldsValuesTuple :=
  ⟨ascii "Ethernet0", SET_COMMAND, [(ascii "mtu", ascii "9100")]⟩

private theorem notified_quiet : ∀ thread,
    Function.update (Function.update (fun _ => false) () true) () false thread = false := by
  simp

/-- The record comes while the thread is about to wait, and its notification once it does. -/
theorem updater_awake_notified :
    Table.Stores ports (fun _ => 1) emptyDb ∧ ∃ s : Threads Unit,
      Run (TimelyStep ports) (constructed emptyDb)
        [.updater, .updater, .push () record, .updater, .notify (), .clear, .notifyExit] s ∧
      s.Quiet ∧ Settles ports (fun _ => 1) [record] s := by
  have looks : Run (TimelyStep ports) (constructed emptyDb : Threads Unit) [.updater, .updater] _ :=
    (Run.single ⟨.size rfl, trivial⟩).snoc ⟨.stay rfl rfl, trivial⟩
  have pushes := looks.snoc (l := .push () record) ⟨.push rfl, by
    constructor <;> intro phase <;> cases phase⟩
  have waits := pushes.snoc ⟨.wait rfl, trivial⟩
  have hears := waits.snoc (l := .notify ()) ⟨.notify rfl, by
    rintro (phase | ⟨phase, -⟩) <;> cases phase⟩
  have clears := hears.snoc (l := .clear) ⟨.clear rfl, by
    intro phase
    cases phase⟩
  have exits := clears.snoc (l := .notifyExit) ⟨.notifyExit rfl, by
    rintro (phase | ⟨phase, -⟩) <;> cases phase⟩
  have joining : Destructor.joining ≠ .cleared := by simp
  exact ⟨emptyDb_stores, _, exits, ⟨notified_quiet, joining⟩,
    (updater_awake emptyDb_stores exits).2 ⟨notified_quiet, joining⟩⟩

/-- The record and its notification come while the thread is about to wait: it waits. They come
    while it is about to look at the flag, which is then cleared: it exits and leaves the record. -/
theorem updater_asleep :
    (∃ s : Threads Unit, Run (Step ports) (constructed emptyDb)
        [.updater, .updater, .push () record, .notify (), .updater] s ∧
      s.phase = .blocked ∧ s.Quiet ∧ ¬(s.Idle ∨ s.Announcing)) ∧
    ∃ s : Threads Unit, Run (Step ports) (constructed emptyDb)
        [.updater, .push () record, .notify (), .clear, .notifyExit, .updater] s ∧
      s.phase = .exited ∧ s.Quiet ∧ s.updater.dbUpdateDataQueue = [record] := by
  have looks : Step ports (constructed emptyDb : Threads Unit) .updater _ := .size rfl
  constructor
  · have steps := ((((Run.single looks).snoc (.stay rfl rfl)).snoc
      (l := .push () record) (.push rfl)).snoc (l := .notify ()) (.notify rfl)).snoc (.wait rfl)
    refine ⟨_, steps, rfl, ⟨notified_quiet, by simp [constructed]⟩, ?_⟩
    rintro (⟨nothing, -⟩ | ⟨thread, owes⟩ | cleared)
    · cases nothing
    · cases (notified_quiet thread).symm.trans owes
    · cases cleared
  · have steps := (((((Run.single looks).snoc (l := .push () record) (.push rfl)).snoc
      (l := .notify ()) (.notify rfl)).snoc (l := .clear) (.clear rfl)).snoc
      (l := .notifyExit) (.notifyExit rfl)).snoc (.exit rfl rfl)
    exact ⟨_, steps, rfl, ⟨notified_quiet, by simp⟩, rfl⟩

end SwssCommon.AsyncDBUpdater
