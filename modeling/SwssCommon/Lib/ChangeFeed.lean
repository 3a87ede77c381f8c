import Mathlib.Logic.Basic

/-! # Following a value by its change notices

A writer changes a value and leaves a notice. A reader takes the notices in order, later: a removal
it believes, for anything else it looks up the current value, and if it finds none it leaves things
as they are. What it will have seen once it has taken all notices is the value itself.
-/

namespace SwssCommon.ChangeFeed

open List

inductive Change where
  | refresh
  | remove
  deriving DecidableEq

section

variable {V : Type*} [DecidableEq V] (absent : V)

/-- What is seen after one notice, if the value is `current` when it is taken. -/
def follow (current seen : V) : Change → V
  | .refresh => if current = absent then seen else current
  | .remove => absent

def catchUp (current seen : V) (changes : List Change) : V :=
  changes.foldl (follow absent current) seen

/-- The notices a change may leave. One that changes nothing may leave a notice or not. -/
inductive Announced : V → V → List Change → Prop where
  | changed {old new : V} : new ≠ absent → Announced old new [.refresh]
  | removed {old : V} : Announced old absent [.remove]
  | emptied {old : V} : Announced old absent [.refresh, .remove]
  | unnoticed {v : V} : Announced v v []
  | repeated {v : V} : Announced v v [.refresh]

variable {absent} {current seen seen' old new : V} {pending changes : List Change}

@[simp]
theorem catchUp_nil : catchUp absent current seen [] = seen := rfl

theorem catchUp_cons (c : Change) :
    catchUp absent current seen (c :: changes) =
      catchUp absent current (follow absent current seen c) changes := rfl

theorem catchUp_append :
    catchUp absent current seen (pending ++ changes) =
      catchUp absent current (catchUp absent current seen pending) changes :=
  foldl_append

/-- A change keeps the reader on the way to the value. It may have seen the value all
    along, or what it had seen before. -/
theorem Announced.catchUp_eq (announced : Announced absent old new changes)
    (onTheWay : catchUp absent old seen pending = old)
    (start : seen' = seen ∨ seen = old ∧ seen' = new) :
    catchUp absent new seen' (pending ++ changes) = new := by
  rw [catchUp_append]
  cases announced with
  | changed present => simp [catchUp, follow, present]
  | removed => rfl
  | emptied => rfl
  | unnoticed =>
    obtain rfl | ⟨rfl, rfl⟩ := start <;> exact onTheWay
  | repeated =>
    have same : catchUp absent old seen' pending = old := by
      obtain rfl | ⟨rfl, rfl⟩ := start <;> exact onTheWay
    rw [same, catchUp_cons, follow, ite_self, catchUp_nil]

end

/-! ## The last notice

A reader may also make something of a value that it does not find. Then only the last notice sets
things right.
-/

section

variable {V : Type*} {absent current old new : V} {agrees agrees' : Prop}
  {pending changes rest : List Change}

/-- With no notice left the reader agrees with the value. Otherwise the last one tells whether
    there is a value. -/
def Due (absent current : V) (agrees : Prop) (pending : List Change) : Prop :=
  match pending.getLast? with
  | none => agrees
  | some .refresh => current ≠ absent
  | some .remove => current = absent

theorem Due.mono (due : Due absent current agrees pending)
    (agree : pending = [] → agrees → agrees') : Due absent current agrees' pending := by
  unfold Due at due ⊢
  cases last : pending.getLast? with
  | none =>
    rw [last] at due
    exact agree (getLast?_eq_none_iff.mp last) due
  | some c =>
    rw [last] at due
    cases c with
    | refresh => exact due
    | remove => exact due

theorem Due.announced (due : Due absent old agrees pending)
    (announced : Announced absent old new changes) (sound : changes = [.refresh] → new ≠ absent)
    (still : agrees → old = new → agrees') : Due absent new agrees' (pending ++ changes) := by
  cases announced with
  | unnoticed =>
    rw [append_nil]
    exact due.mono fun _ agree => still agree rfl
  | changed | repeated =>
    unfold Due
    rw [getLast?_concat]
    exact sound rfl
  | removed =>
    unfold Due
    rw [getLast?_concat]
  | emptied =>
    unfold Due
    rw [getLast?_append]
    rfl

theorem Due.taken {c} (due : Due absent current agrees (c :: rest))
    (refreshed : c = .refresh → current ≠ absent → agrees')
    (removed : c = .remove → current = absent → agrees') : Due absent current agrees' rest := by
  unfold Due at due ⊢
  cases rest with
  | nil =>
    cases c with
    | refresh => exact refreshed rfl due
    | remove => exact removed rfl due
  | cons d rest =>
    rw [getLast?_cons_cons] at due
    cases last : (d :: rest).getLast? with
    | none => exact absurd (getLast?_eq_none_iff.mp last) (cons_ne_nil d rest)
    | some c =>
      rw [last] at due
      cases c with
      | refresh => exact due
      | remove => exact due

end

end SwssCommon.ChangeFeed
