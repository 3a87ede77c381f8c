import Mathlib.Data.List.Basic

/-! # Sets ordered by a comparator

A set that is ordered by a comparator tells its members apart by it alone: an element is not
inserted, and another one is erased for it, if the two are neither before nor after each other.
-/

namespace SwssCommon.OrderedSet

open List

variable {α : Type*}

section Operations

variable (lt : α → α → Bool) (a : α)

def insert : List α → List α
  | [] => [a]
  | b :: l => if lt a b then a :: b :: l else if lt b a then b :: insert l else b :: l

def erase : List α → List α
  | [] => []
  | b :: l => if lt a b then b :: l else if lt b a then b :: erase l else l

end Operations

structure StrictWeak (lt : α → α → Bool) : Prop where
  asymm : ∀ {a b}, lt a b = true → lt b a = false
  cotrans : ∀ {a b} c, lt a b = true → lt a c = true ∨ lt c b = true

namespace StrictWeak

variable {lt : α → α → Bool}

theorem irrefl (order : StrictWeak lt) (a : α) : lt a a = false := by
  cases before : lt a a with
  | false => rfl
  | true => exact before.symm.trans (order.asymm before)

theorem trans (order : StrictWeak lt) {a b c} (first : lt a b) (second : lt b c) :
    lt a c := by
  cases order.cotrans c first with
  | inl before => exact before
  | inr after => exact absurd (order.asymm after) (by simp [second])

end StrictWeak

def Apart (lt : α → α → Bool) (l : List α) (a : α) : Prop :=
  ∀ b ∈ l, b ≠ a → lt a b = true ∨ lt b a = true

section Members

variable {lt : α → α → Bool} {l : List α} {a b : α}

theorem mem_insert (order : StrictWeak lt) (sorted : l.Pairwise fun a b => lt a b) :
    b ∈ insert lt a l ↔ b ∈ l ∨ b = a ∧ ∀ c ∈ l, lt a c ∨ lt c a := by
  induction l with
  | nil => simp [insert]
  | cons c l ih =>
    rw [pairwise_cons] at sorted
    unfold insert
    split
    · next before =>
        have all : ∀ d ∈ c :: l, lt a d ∨ lt d a := by
          intro d member
          rcases mem_cons.mp member with rfl | later
          · exact .inl before
          · exact .inl (order.trans before (sorted.1 d later))
        rw [mem_cons, or_comm, and_iff_left all]
    · split
      · next after =>
          rw [mem_cons, ih sorted.2, mem_cons, or_assoc]
          simp [after]
      · next notBefore notAfter => simp [notBefore, notAfter]

theorem insert_sorted (order : StrictWeak lt) (sorted : l.Pairwise fun a b => lt a b) (a : α) :
    (insert lt a l).Pairwise fun a b => lt a b := by
  induction l with
  | nil => simp [insert]
  | cons c l ih =>
    have tail := (pairwise_cons.mp sorted).2
    have head := (pairwise_cons.mp sorted).1
    unfold insert
    split
    · next before =>
        refine pairwise_cons.mpr ⟨fun d member => ?_, sorted⟩
        rcases mem_cons.mp member with rfl | later
        · exact before
        · exact order.trans before (head d later)
    · split
      · next after =>
          refine pairwise_cons.mpr ⟨fun d member => ?_, ih tail⟩
          rcases (mem_insert order tail).mp member with old | ⟨rfl, -⟩
          · exact head d old
          · exact after
      · exact sorted

theorem mem_erase (order : StrictWeak lt) (sorted : l.Pairwise fun a b => lt a b) :
    b ∈ erase lt a l ↔ b ∈ l ∧ (lt a b ∨ lt b a) := by
  induction l with
  | nil => simp [erase]
  | cons c l ih =>
    rw [pairwise_cons] at sorted
    unfold erase
    split
    · next before =>
        refine ⟨fun member => ⟨member, ?_⟩, fun member => member.1⟩
        rcases mem_cons.mp member with rfl | later
        · exact .inl before
        · exact .inl (order.trans before (sorted.1 b later))
    · split
      · next after =>
          rw [mem_cons, ih sorted.2, mem_cons, or_and_right]
          refine or_congr_left ⟨?_, fun h => h.1⟩
          rintro rfl
          exact ⟨rfl, .inr after⟩
      · next notBefore notAfter =>
          -- the head goes, and whatever is after it is after `a` as well
          refine ⟨fun member => ⟨mem_cons_of_mem _ member, ?_⟩, ?_⟩
          · exact .inl ((order.cotrans a (sorted.1 b member)).resolve_left notAfter)
          · rintro ⟨member, compared⟩
            rcases mem_cons.mp member with rfl | later
            · rcases compared with before | after
              · exact absurd before notBefore
              · exact absurd after notAfter
            · exact later

theorem erase_sublist (lt : α → α → Bool) (a : α) (l : List α) : (erase lt a l).Sublist l := by
  induction l with
  | nil => exact .refl _
  | cons c l ih =>
    unfold erase
    split
    · exact .refl _
    · split
      · exact ih.cons_cons c
      · exact sublist_cons_self c l

theorem erase_sorted (sorted : l.Pairwise fun a b => lt a b) (a : α) :
    (erase lt a l).Pairwise fun a b => lt a b :=
  sorted.sublist (erase_sublist lt a l)

theorem erase_head (order : StrictWeak lt) (a : α) (l : List α) : erase lt a (a :: l) = l := by
  simp [erase, order.irrefl]

theorem mem_insert_of_apart (order : StrictWeak lt) (sorted : l.Pairwise fun a b => lt a b)
    (apart : Apart lt l a) : b ∈ insert lt a l ↔ b = a ∨ b ∈ l := by
  rw [mem_insert order sorted]
  refine ⟨fun h => h.symm.imp_left fun new => new.1, ?_⟩
  rintro (rfl | old)
  · by_cases member : b ∈ l
    · exact .inl member
    · refine .inr ⟨rfl, fun c there => apart c there ?_⟩
      rintro rfl
      exact member there
  · exact .inl old

theorem mem_erase_of_apart (order : StrictWeak lt) (sorted : l.Pairwise fun a b => lt a b)
    (apart : Apart lt l a) : b ∈ erase lt a l ↔ b ≠ a ∧ b ∈ l := by
  rw [mem_erase order sorted]
  constructor
  · rintro ⟨member, compared⟩
    refine ⟨?_, member⟩
    rintro rfl
    simp [order.irrefl] at compared
  · rintro ⟨other, member⟩
    exact ⟨member, apart b member other⟩

end Members

end SwssCommon.OrderedSet
