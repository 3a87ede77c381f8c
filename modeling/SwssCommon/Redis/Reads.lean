import SwssCommon.Redis.Script

/-! # The arguments a script reads

A script that keeps a log of the positions at which it reads its arguments. Dropping the log gives
back the script.
-/

namespace SwssCommon.Redis

open Script List

abbrev Logged := StateT (List Nat) Script

namespace Logged

variable {α β : Type}

/-- `ARGV[i]`, with an entry in the log. -/
def argument (args : List Bytes) (i : Nat) : Logged Bytes := do
  modify (· ++ [i])
  Script.argument args i

def foldRange (first : Nat) : Nat → α → (Nat → α → Logged α) → Logged α
  | 0, a, _ => pure a
  | count + 1, a, body => body first a >>= fun a => foldRange (first + 1) count a body

/-! ## Dropping the log -/

def withoutLog : Except ScriptError (α × List Nat) × Server → Except ScriptError α × Server
  | (.ok (a, _), s) => (.ok a, s)
  | (.error e, s) => (.error e, s)

/-- Whatever is in the log, `x` does what `y` does. -/
def Erases (x : Logged α) (y : Script α) : Prop :=
  ∀ log s, withoutLog (x.run log s) = y s

namespace Erases

theorem pure (a : α) : Erases (Pure.pure a) (Pure.pure a) := fun _ _ => rfl

theorem bind {x y f} {g : α → Script β}
    (first : Erases x y) (rest : ∀ a, Erases (f a) (g a)) : Erases (x >>= f) (y >>= g) := by
  intro log s
  change withoutLog ((x.run log >>= fun p => (f p.1).run p.2) s) = _
  cases ran : x.run log s with
  | mk outcome s' =>
    have plain := first log s
    rw [ran] at plain
    cases outcome with
    | ok p =>
      rw [bind_of_ok ran, bind_of_ok plain.symm]
      exact rest p.1 p.2 s'
    | error e =>
      rw [bind_of_error ran, bind_of_error plain.symm]
      rfl

theorem lift (x : Script α) : Erases (monadLift x : Logged α) x := by
  intro log s
  change withoutLog ((x >>= fun a => Pure.pure (a, log)) s) = x s
  cases ran : x s with
  | mk outcome s' =>
    cases outcome with
    | ok a =>
      rw [bind_of_ok ran]
      rfl
    | error e =>
      rw [bind_of_error ran]
      rfl

theorem argument (args : List Bytes) (i : Nat) :
    Erases (Logged.argument args i) (Script.argument args i) :=
  fun log s => lift (Script.argument args i) (log ++ [i]) s

theorem foldRange {body plain}
    (step : ∀ i a, Erases (body i a) (plain i a)) (first count : Nat) (a : α) :
    Erases (Logged.foldRange first count a body) (Script.foldRange first count a plain) := by
  induction count generalizing first a with
  | zero => exact .pure a
  | succ count ih => exact (step first a).bind fun b => ih (first + 1) b

theorem completes {x y s s'} {a : α} (erases : Erases x y)
    (ran : y s = (.ok a, s')) (log : List Nat) : ∃ log', x.run log s = (.ok (a, log'), s') := by
  rw [← erases log s] at ran
  cases logged : x.run log s with
  | mk outcome s₁ =>
    rw [logged] at ran
    cases outcome with
    | ok p =>
      cases ran
      exact ⟨p.2, rfl⟩
    | error e => cases ran

end Erases

/-! ## What the log holds -/

/-- A run that completes adds positions to the log that satisfy `Q`. -/
def Reads (x : Logged α) (Q : α → List Nat → Prop) : Prop :=
  ∀ log s a log' s', x.run log s = (.ok (a, log'), s') → ∃ read, log' = log ++ read ∧ Q a read

namespace Reads

variable {Q : α → List Nat → Prop}

theorem pure {a} (post : Q a []) : Reads (Pure.pure a) Q := by
  intro log s b log' s' ran
  cases ran
  exact ⟨[], (append_nil log).symm, post⟩

theorem bind {x} {f : α → Logged β} {Q}
    (first : Reads x fun a read => Reads (f a) fun b more => Q b (read ++ more)) :
    Reads (x >>= f) Q := by
  intro log s b log' s' ran
  obtain ⟨p, s₁, began, ended⟩ := bind_eq_ok (x := x.run log) (f := fun p => (f p.1).run p.2) ran
  obtain ⟨read, same, rest⟩ := first _ _ _ _ _ began
  obtain ⟨more, same', post⟩ := rest _ _ _ _ _ ended
  exact ⟨read ++ more, by rw [same', same, append_assoc], post⟩

theorem mono {x R} (weaker : ∀ a read, Q a read → R a read)
    (reads : Reads x Q) : Reads x R := by
  intro log s a log' s' ran
  obtain ⟨read, same, post⟩ := reads _ _ _ _ _ ran
  exact ⟨read, same, weaker a read post⟩

theorem lift {x : Script α} (post : ∀ {a s s'}, x s = (.ok a, s') → Q a []) :
    Reads (monadLift x : Logged α) Q := by
  intro log s a log' s' ran
  obtain ⟨b, s₁, began, ended⟩ := bind_eq_ok (x := x) (f := fun a => Pure.pure (a, log)) ran
  cases ended
  exact ⟨[], (append_nil log).symm, post began⟩

theorem argument {args i j w Q}
    (position : i = j + 1) (found : args[j]? = some w) (post : Q w [i]) :
    Reads (Logged.argument args i) Q := by
  intro log s a log' s' ran
  subst position
  have given : Script.argument args (j + 1) = Pure.pure w := by simp only [Script.argument, found]
  unfold Logged.argument at ran
  rw [given] at ran
  cases ran
  exact ⟨[j + 1], rfl, post⟩

theorem toNumber {n Q} (post : Q n []) :
    Reads (monadLift (Script.toNumber (Bytes.decimal n)) : Logged Nat) Q := by
  refine lift fun ran => ?_
  rw [toNumber_decimal] at ran
  cases ran
  exact post

theorem foldRange {first count a body}
    (I : Nat → α → List Nat → Prop) (start : I first a [])
    (step : ∀ i a read, first ≤ i → i < first + count → I i a read →
      Reads (body i a) fun b more => I (i + 1) b (read ++ more)) :
    Reads (Logged.foldRange first count a body) (I (first + count)) := by
  suffices general : ∀ count first a read, I first a read →
      (∀ i a read, first ≤ i → i < first + count → I i a read →
        Reads (body i a) fun b more => I (i + 1) b (read ++ more)) →
      Reads (Logged.foldRange first count a body)
        fun b more => I (first + count) b (read ++ more) from
    general count first a [] start step
  intro count
  induction count with
  | zero =>
    intro first a read holds _
    exact .pure (by simpa using holds)
  | succ count ih =>
    intro first a read holds step
    refine .bind ((step first a read le_rfl (by omega) holds).mono ?_)
    intro b more next
    refine (ih (first + 1) b (read ++ more) next ?_).mono ?_
    · intro i a read low high
      exact step i a read (by omega) (by omega)
    · intro b' last
      rw [show first + (count + 1) = first + 1 + count by omega, ← append_assoc]
      exact id

end Reads

/-- The log holds exactly the positions from `low` up to `high`. -/
def Covers (low high : Nat) (read : List Nat) : Prop :=
  ∀ i, i ∈ read ↔ low ≤ i ∧ i < high

namespace Covers

variable {low middle high : Nat} {read more : List Nat}

theorem nil (low : Nat) : Covers low low [] := by
  intro i
  simp only [not_mem_nil, false_iff]
  omega

theorem single (low : Nat) : Covers low (low + 1) [low] := by
  intro i
  rw [mem_singleton]
  omega

theorem append (covered : Covers low middle read) (covered' : Covers middle high more)
    (ordered : low ≤ middle ∧ middle ≤ high) : Covers low high (read ++ more) := by
  intro i
  rw [mem_append, covered, covered']
  omega

end Covers

end Logged

end SwssCommon.Redis
