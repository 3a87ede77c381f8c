import Mathlib.Data.List.Perm.Basic
import Mathlib.Data.List.Range

/-! # Objects that are to be released once

An object is the number of objects that were created before it. What is released is written down.
All is right if each object has been released once or is owned once.
-/

namespace SwssCommon

open List

/-- The objects that were created, and the numbers of those that were released. -/
structure Ledger (α : Type) where
  created : List α
  released : List Nat

namespace Ledger

variable {α : Type} {l : Ledger α} {owned : List Nat}

def start : Ledger α := ⟨[], []⟩

def next (l : Ledger α) : Nat :=
  l.created.length

def create (l : Ledger α) (objects : List α) : Ledger α :=
  { l with created := l.created ++ objects }

def release (l : Ledger α) (objects : List Nat) : Ledger α :=
  { l with released := l.released ++ objects }

def Owned (l : Ledger α) (owned : List Nat) : Prop :=
  (l.released ++ owned).Perm (range l.next)

def Settled (l : Ledger α) : Prop :=
  l.Owned []

@[simp]
theorem released_release (objects : List Nat) :
    (l.release objects).released = l.released ++ objects :=
  rfl

theorem owned_start : (start : Ledger α).Owned [] := List.Perm.refl _

theorem Owned.perm {owned'} (h : l.Owned owned) (same : owned.Perm owned') :
    l.Owned owned' :=
  (same.symm.append_left l.released).trans h

theorem Owned.create (h : l.Owned owned) (objects : List α) :
    (l.create objects).Owned (owned ++ range' l.next objects.length) := by
  have grown : (l.create objects).next = l.next + objects.length := length_append
  unfold Owned at h ⊢
  rw [grown, ← append_assoc, range_eq_range', ← range'_append_1,
    ← range_eq_range', Nat.zero_add]
  exact h.append_right _

theorem Owned.release {objects} (h : l.Owned (objects ++ owned)) :
    (l.release objects).Owned owned := by
  unfold Owned at h ⊢
  rw [released_release, append_assoc]
  exact h

theorem Owned.nodup (h : l.Owned owned) : (l.released ++ owned).Nodup := h.nodup_iff.mpr nodup_range

theorem Settled.nodup (h : l.Settled) : l.released.Nodup := by
  simpa using Owned.nodup h

theorem settled_create_release (object : α) :
    ((l.create [object]).release [l.next]).Settled ↔ l.Settled := by
  constructor
  · intro h
    unfold Settled Owned at h ⊢
    have grown : ((l.create [object]).release [l.next]).next = l.next + 1 := by
      simp [next, create, release]
    rw [grown, range_succ, append_nil] at h
    rw [append_nil]
    exact (perm_append_right_iff _).mp h
  · intro h
    have more := Owned.create h [object]
    exact Owned.release more

theorem not_nodup_release {object} (before : object ∈ l.released) :
    ¬ (l.release [object]).released.Nodup := by
  intro distinct
  rw [released_release, nodup_append] at distinct
  exact distinct.2.2 object before object (mem_singleton_self _) rfl

end Ledger

end SwssCommon
