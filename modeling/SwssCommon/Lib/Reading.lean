import SwssCommon.Lib.Bytes

/-! # Reads of raw memory

A program that is handed an address can read beyond what it was handed. A computation is kept with
the ranges it has read and compared with one that stops where it would need other bytes.
-/

namespace SwssCommon

abbrev Memory := Nat → UInt8

structure Range where
  start : Nat
  length : Nat
  deriving DecidableEq

/-- The range ends at offset `n` at the latest. -/
def Range.Within (r : Range) (n : Nat) : Prop :=
  r.start + r.length ≤ n

instance (r : Range) (n : Nat) : Decidable (r.Within n) :=
  inferInstanceAs (Decidable (_ ≤ _))

def Memory.bytes (memory : Memory) (r : Range) : Bytes :=
  (List.range' r.start r.length).map memory

/-- The first `n` bytes. -/
def Memory.buffer (memory : Memory) (n : Nat) : Bytes :=
  memory.bytes ⟨0, n⟩

@[simp]
theorem Memory.buffer_length (memory : Memory) (n : Nat) : (memory.buffer n).length = n := by
  simp [buffer, bytes]

theorem Memory.buffer_slice (memory : Memory) {r n} (within : r.Within n) :
    ((memory.buffer n).drop r.start).take r.length = memory.bytes r := by
  unfold Range.Within at within
  apply List.ext_getElem
  · simp [bytes]
    omega
  · intro i inSlice inBytes
    simp [buffer, bytes]

/-- How a computation over memory ends, and what it has read until then. -/
def Reading (ε α : Type) : Type :=
  Memory → Except ε α × List Range

namespace Reading

variable {ε α β : Type} {memory : Memory}

instance : Monad (Reading ε) where
  pure a := fun _ => (.ok a, [])
  bind x f := fun memory => match x memory with
    | (.ok a, reads) => ((f a memory).1, reads ++ (f a memory).2)
    | (.error e, reads) => (.error e, reads)

def fetch (r : Range) : Reading ε Bytes :=
  fun memory => (.ok (memory.bytes r), [r])

def lift (x : Except ε α) : Reading ε α :=
  fun _ => (x, [])

theorem bind_apply (x : Reading ε α) (f : α → Reading ε β) :
    (x >>= f) memory = match (x memory).1 with
      | .ok a => ((f a memory).1, (x memory).2 ++ (f a memory).2)
      | .error e => (.error e, (x memory).2) := by
  change (match x memory with
    | (.ok a, reads) => ((f a memory).1, reads ++ (f a memory).2)
    | (.error e, reads) => (.error e, reads)) = _
  rcases x memory with ⟨_ | _, reads⟩ <;> rfl

theorem bind_of_ok {x} {f : α → Reading ε β} {a} (done : (x memory).1 = .ok a) :
    (x >>= f) memory = ((f a memory).1, (x memory).2 ++ (f a memory).2) := by
  rw [bind_apply, done]

theorem bind_of_error {x} {f : α → Reading ε β} {e}
    (failed : (x memory).1 = .error e) : (x >>= f) memory = (.error e, (x memory).2) := by
  rw [bind_apply, failed]

/-- A computation that completes does so as `spec`, which knows the first `n` bytes, and has read
    these only. One that fails has read at most `slack` beyond. -/
structure Follows (memory : Memory) (n slack : Nat) (x : Reading ε α) (spec : Except ε α) :
    Prop where
  completes : ∀ {a}, (x memory).1 = .ok a → spec = .ok a ∧ ∀ r ∈ (x memory).2, r.Within n
  near : ∀ r ∈ (x memory).2, r.Within (n + slack)

theorem within_add {r : Range} {n} (within : r.Within n) (slack : Nat) :
    r.Within (n + slack) :=
  Nat.le_trans within (Nat.le_add_right n slack)

namespace Follows

variable {n slack : Nat}

theorem pure (a : α) : Follows memory n slack (Pure.pure a : Reading ε α) (.ok a) :=
  ⟨fun done => ⟨done, by rintro r ⟨⟩⟩, by rintro r ⟨⟩⟩

theorem lift (x : Except ε α) : Follows memory n slack (Reading.lift x) x :=
  ⟨fun done => ⟨done, by rintro r ⟨⟩⟩, by rintro r ⟨⟩⟩

variable {x : Reading ε α}

theorem fails {spec e} (failed : (x memory).1 = .error e)
    (near : ∀ r ∈ (x memory).2, r.Within (n + slack)) : Follows memory n slack x spec := by
  refine ⟨fun done => ?_, near⟩
  rw [failed] at done
  cases done

theorem fetch {r} (within : r.Within n) :
    Follows memory n slack (Reading.fetch r : Reading ε Bytes)
      (.ok (((memory.buffer n).drop r.start).take r.length)) := by
  have only : ∀ r' ∈ [r], r'.Within n := by
    intro r' member
    rwa [List.mem_singleton.mp member]
  refine ⟨fun done => ⟨?_, only⟩, fun r' member => within_add (only r' member) slack⟩
  rw [memory.buffer_slice within]
  exact done

theorem bind {f spec} {rest : α → Except ε β}
    (first : Follows memory n slack x spec)
    (second : ∀ a, spec = .ok a → Follows memory n slack (f a) (rest a)) :
    Follows memory n slack (x >>= f) (spec >>= rest) := by
  cases ended : (x memory).1 with
  | error e =>
    refine .fails (e := e) (by rw [bind_of_error ended]) ?_
    rw [bind_of_error ended]
    exact first.near
  | ok a =>
    obtain ⟨rfl, inside⟩ := first.completes ended
    have after := second a rfl
    have together : ∀ {k : Nat}, (∀ r ∈ (x memory).2, r.Within k) →
        (∀ r ∈ (f a memory).2, r.Within k) → ∀ r ∈ ((x >>= f) memory).2, r.Within k := by
      intro k early late r member
      rw [bind_of_ok ended] at member
      exact (List.mem_append.mp member).elim (early r) (late r)
    refine ⟨fun done => ?_, together first.near after.near⟩
    rw [bind_of_ok ended] at done
    obtain ⟨same, inside'⟩ := after.completes done
    exact ⟨same, together inside inside'⟩

theorem map {a} (h : Follows memory n slack x (.ok a)) (f : α → β) :
    Follows memory n slack (x >>= fun a => Pure.pure (f a)) (.ok (f a)) :=
  h.bind fun a _ => .pure (f a)

end Follows

end Reading

end SwssCommon
