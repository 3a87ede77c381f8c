import SwssCommon.Lib.Run
import SwssCommon.WarmStart.Check

/-! # Histories of a process that checks for a warm start

Others change the database, and the process calls `checkWarmStart` for any applications. Only its
two variables pass from one call to the next.
-/

namespace SwssCommon.WarmStart

open Bytes Redis Throwing

variable {s : State}

inductive Label where
  /-- Somebody changes the database. -/
  | change (keyspace : Keyspace)
  | call (app_name docker_name : Bytes) (incr_restore_cnt : Bool)

inductive Step : State → Label → State → Prop where
  | change (s : State) (keyspace : Keyspace) :
      Step s (.change keyspace) { s with stateDb := { s.stateDb with keyspace := keyspace } }
  | call (s : State) (app docker : Bytes) (incr : Bool) :
      Step s (.call app docker incr) (endState (checkWarmStart app docker incr s))

def start (stateDb : Server) : State :=
  ⟨false, false, stateDb⟩

/-- A process that remembers the switch of the system remembers that some switch was on. -/
def Ordered (s : State) : Prop :=
  s.systemWarmRebootEnabled = true → s.enabled = true

theorem keeps_hget (t : TableBase) (key field : Bytes) : Keeps Ordered (hget t key field) := by
  intro s ordered
  unfold Ends hget
  cases Table.hget t s.stateDb.keyspace key field <;> exact ordered

theorem keeps_hset (t : TableBase) (key field value : Bytes) :
    Keeps Ordered (hset t key field value) := by
  intro s ordered
  unfold Ends hset
  obtain ⟨outcome, server⟩ := Table.hset t key field value s.stateDb
  cases outcome <;> exact ordered

theorem keeps_checkWarmStart (app docker : Bytes) (incr : Bool) :
    Keeps Ordered (checkWarmStart app docker incr) := by
  have cold : Keeps Ordered (coldStart app) := .bind (keeps_hset _ _ _ _) fun _ => .pure _
  have warm : ∀ value, Keeps Ordered (warmStart app incr value) := by
    intro value
    unfold warmStart
    split
    · split
      · exact .bind (keeps_hset _ _ _ _) fun _ => .pure _
      · exact .bind (.throw _) fun _ => .pure _
    · exact .bind (.pure _) fun _ => .pure _
  have restore : Keeps Ordered (checkRestoreCount app incr) :=
    .bind (keeps_hget _ _ _) fun value =>
      .ite (.bind (.modify fun _ _ remembered => remembered) fun _ => cold) (warm value)
  have system : Keeps Ordered checkSystem :=
    .bind (keeps_hget _ _ _) fun _ => .ite (.modify fun _ _ _ => rfl) (.pure _)
  have ofDocker : Keeps Ordered (checkDocker docker) :=
    .bind (keeps_hget _ _ _) fun _ => .ite (.modify fun _ _ _ => rfl) (.pure _)
  exact .bind system fun _ => .bind ofDocker fun _ => .bind .get fun _ => .ite cold restore

theorem ordered_run {stateDb ls} (run : Run Step (start stateDb) ls s) :
    Ordered s := by
  refine run.invariant (I := fun _ => Ordered) (fun remembered => remembered) ?_
  intro _ s l s' ordered step
  cases step with
  | change => exact ordered
  | call app docker incr => exact (keeps_checkWarmStart app docker incr).endState ordered

/-- A call answers, reports and counts as the database is at this moment just if the database and
    the variables of the process are as `Fresh` says. -/
theorem checkWarmStart_reflects_iff {stateDb : Server} {ls : List Label} {s : State}
    (run : Run Step (start stateDb) ls s) (app docker : Bytes) (incr : Bool) :
    Reflects s app docker incr ↔ Fresh s app docker incr :=
  reflects_iff_fresh (ordered_run run)

/-! ## A switch that is turned off -/

private def testApp : Bytes := ascii "TestApp"

private def testDocker : Bytes := ascii "TestDocker"

/-- The switch of the system and the count of the application. -/
private def database (system count : Bytes) : Keyspace :=
  ((∅ : Keyspace).write (cStr (enableTable.getKeyName (ascii "system")))
      (Value.ofHash (Hash.ofFields [(enableField, system)]))).write
    (cStr (restartTable.getKeyName testApp)) (Value.ofHash (Hash.ofFields [(restoreCount, count)]))

private def testState (enabled systemEnabled : Bool) (system count : Bytes) : State :=
  ⟨enabled, systemEnabled, ⟨database system count, []⟩⟩

theorem reflects_switched_on :
    let s := testState false false (ascii "true") (ascii "4")
    Run Step (start ⟨∅, []⟩) [.change (database (ascii "true") (ascii "4"))] s ∧
      Reflects s testApp testDocker true := by
  have run : Run Step (start ⟨∅, []⟩) [.change (database (ascii "true") (ascii "4"))]
      (testState false false (ascii "true") (ascii "4")) := .single (.change _ _)
  have on : IsOn (testState false false (ascii "true") (ascii "4")) (ascii "system") := rfl
  refine ⟨run, (checkWarmStart_reflects_iff run testApp testDocker true).mpr ?_⟩
  refine ⟨rfl, rfl, rfl, ?_, fun _ _ _ _ => .inl on, fun _ _ _ _ => on,
    fun _ _ => ⟨4, by decide, by decide⟩⟩
  rintro v ⟨⟩ _
  decide

/-- A call that finds the switch on, the switch turned off, and a second call: it still answers
    that a warm start is due. -/
theorem stale_after_switched_off :
    let s := testState true true (ascii "false") (ascii "4")
    Run Step (start ⟨∅, []⟩)
        [.change (database (ascii "true") (ascii "4")), .call testApp testDocker false,
          .change (database (ascii "false") (ascii "4"))] s ∧
      checkWarmStart testApp testDocker false s = .ok true s ∧
      ¬ Warm s testApp testDocker ∧ ¬ Reflects s testApp testDocker false := by
  have returned : checkWarmStart testApp testDocker false
      (testState true true (ascii "false") (ascii "4")) = .ok true _ := rfl
  refine ⟨.cons (.change _ _) (.cons (.call _ _ _ _) (.single (.change _ _))), rfl, by decide, ?_⟩
  rintro ⟨s', ran, -⟩
  cases returned.symm.trans ran

end SwssCommon.WarmStart
