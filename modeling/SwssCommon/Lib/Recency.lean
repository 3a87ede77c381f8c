import Mathlib.Data.List.Nodup

/-! # What was put and not taken since, by the time it was last put

Listed by their latest put, putting one of the things that are there again moves it to the end.
-/

namespace SwssCommon

open List

inductive Touch (α : Type*) where
  | put (a : α)
  | take (a : α)

namespace Touch

variable {α : Type*} [DecidableEq α]

def of : Touch α → α
  | put a | take a => a

/-- What is there after these events: a put that is the last event of its element. -/
def live : List (Touch α) → List α
  | [] => []
  | put a :: later => if a ∈ later.map of then live later else a :: live later
  | take _ :: later => live later

variable {events : List (Touch α)}

theorem mem_of_live {a} (member : a ∈ live events) : put a ∈ events := by
  induction events with
  | nil => cases member
  | cons event events ih =>
    cases event with
    | put b =>
      unfold live at member
      split at member
      · exact mem_cons_of_mem _ (ih member)
      · rcases mem_cons.mp member with rfl | later
        · exact mem_cons_self
        · exact mem_cons_of_mem _ (ih later)
    | take b => exact mem_cons_of_mem _ (ih member)

theorem of_mem_of_live {a} (member : a ∈ live events) : a ∈ events.map of :=
  mem_map_of_mem (f := of) (mem_of_live member)

theorem live_nodup (events : List (Touch α)) : (live events).Nodup := by
  induction events with
  | nil => exact nodup_nil
  | cons event events ih =>
    cases event with
    | put a =>
      unfold live
      split
      · exact ih
      · rename_i last
        exact nodup_cons.mpr ⟨fun member => last (of_mem_of_live member), ih⟩
    | take a => exact ih

theorem live_snoc (events : List (Touch α)) (event : Touch α) :
    live (events ++ [event]) = (live events).filter (· ≠ event.of) ++ live [event] := by
  induction events with
  | nil => rfl
  | cons first events ih =>
    cases first with
    | put b =>
      simp only [cons_append, live, ih, map_append, map_cons, map_nil, mem_append, mem_singleton]
      by_cases again : b ∈ events.map of
      · rw [if_pos (.inl again), if_pos again]
      · rw [if_neg again]
        by_cases same : b = event.of
        · rw [if_pos (.inr same), filter_cons_of_neg (by simpa using same)]
        · rw [if_neg (by simp [again, same]), filter_cons_of_pos (by simpa using same),
            cons_append]
    | take b => exact ih

theorem live_append_put (events : List (Touch α)) (a : α) :
    live (events ++ [put a]) = (live events).filter (· ≠ a) ++ [a] :=
  live_snoc events (put a)

theorem live_append_take (events : List (Touch α)) (a : α) :
    live (events ++ [take a]) = (live events).filter (· ≠ a) := by
  rw [live_snoc]
  exact append_nil _

theorem oldest_of_live {a others}
    (first : live events = a :: others) : ∃ earlier later, events = earlier ++ put a :: later ∧
      a ∉ later.map of ∧ live later = others := by
  induction events with
  | nil => cases first
  | cons event events ih =>
    cases event with
    | put b =>
      unfold live at first
      split at first
      · obtain ⟨earlier, later, rfl, rest⟩ := ih first
        exact ⟨put b :: earlier, later, rfl, rest⟩
      · rename_i last
        obtain ⟨rfl, rest⟩ := cons.inj first
        exact ⟨[], events, rfl, last, rest⟩
    | take b =>
      obtain ⟨earlier, later, rfl, rest⟩ := ih first
      exact ⟨take b :: earlier, later, rfl, rest⟩

end Touch

end SwssCommon
