import SwssCommon.Lib.OrderedMap

/-! # What has happened to a map

A map is written over with others, and cleared. A key is in it if it was in one of those that were
written after it was last cleared.
-/

namespace SwssCommon

open List Std.ExtTreeMap Std

inductive MapEvent (M : Type*) where
  | put (m : M)
  | clear
  | other

namespace MapEvent

variable {K V : Type*} {cmp : K → K → Ordering} [TransCmp cmp]

def after (m : ExtTreeMap K V cmp) : MapEvent (ExtTreeMap K V cmp) →
    ExtTreeMap K V cmp
  | put p => m ∪ p
  | clear => ∅
  | other => m

def content (events : List (MapEvent (ExtTreeMap K V cmp))) : ExtTreeMap K V cmp :=
  events.foldl after ∅

variable {events events' : List (MapEvent (ExtTreeMap K V cmp))} {k : K}

def Kept (k : K) (events : List (MapEvent (ExtTreeMap K V cmp))) : Prop :=
  ∃ before p rest, events = before ++ put p :: rest ∧ k ∈ p ∧ ∀ e ∈ rest, e ≠ clear

section Clears

variable {α : Type*} {f g : α → MapEvent (ExtTreeMap K V cmp)}
  {ops : List α}

end Clears

end MapEvent

end SwssCommon
