import SwssCommon.Lib.OrderedMap

/-! # Two writers that replace a map

A writer reads which names a map has, writes its own entries over it, and deletes the names it has
read that are not its own, one by one or together with the writing. Names are read, and deleted, in
a short form.

Of two such writers the first to write may still delete entries of the other. What is left is said
for every order of their parts, and when this is always the content of one of the two.
-/

namespace SwssCommon.Replacing

open List OrderedMap Std

/-- The short form of names, and the list of those to be deleted: the names in a map that are
    not in the new content. -/
structure Listing (K V : Type*) (cmp : K → K → Ordering) [TransCmp cmp] where
  short : K → K
  short_short : ∀ k, short (short k) = short k
  gone : ExtTreeMap K V cmp → ExtTreeMap K V cmp → List K
  nodup_gone : ∀ m d, (gone m d).Nodup
  mem_gone : ∀ {m d : ExtTreeMap K V cmp} {k : K}, k ∈ gone m d ↔ (∃ j ∈ m, short j = k) ∧ k ∉ d

/-- The new content, and whether it is written and the rest deleted in one part. -/
structure Writer (K V : Type*) (cmp : K → K → Ordering) where
  atomic : Bool
  data : ExtTreeMap K V cmp

inductive Phase (K : Type*) where
  | reading
  | writing (names : List K)
  | deleting (names : List K)
  | returned

structure Race (K V : Type*) (cmp : K → K → Ordering) where
  map : ExtTreeMap K V cmp
  first : Phase K
  second : Phase K

inductive Turn where
  | first
  | second

variable {K V : Type*} {cmp : K → K → Ordering} [TransCmp cmp]
variable (L : Listing K V cmp)

def eraseAll (m : ExtTreeMap K V cmp) (names : List K) : ExtTreeMap K V cmp :=
  names.foldl (fun m k => m.erase (L.short k)) m

def move (w : Writer K V cmp) (m : ExtTreeMap K V cmp) :
    Phase K → Phase K × ExtTreeMap K V cmp
  | .reading => (.writing (L.gone m w.data), m)
  | .writing names =>
    if w.atomic then (.returned, eraseAll L (m ∪ w.data) names)
    else (.deleting names, m ∪ w.data)
  | .deleting [] => (.returned, m)
  | .deleting (k :: names) => (.deleting names, m.erase (L.short k))
  | .returned => (.returned, m)

namespace Race

def start (m : ExtTreeMap K V cmp) : Race K V cmp := ⟨m, .reading, .reading⟩

variable (w w' : Writer K V cmp)

def step (t : Race K V cmp) : Turn → Race K V cmp
  | .first =>
    let (p, m) := move L w t.map t.first
    ⟨m, p, t.second⟩
  | .second =>
    let (p, m) := move L w' t.map t.second
    ⟨m, t.first, p⟩

def run (t : Race K V cmp) (schedule : List Turn) : Race K V cmp :=
  schedule.foldl (step L w w') t

def Reached (old : ExtTreeMap K V cmp) (t : Race K V cmp) : Prop :=
  ∃ schedule, run L w w' (start old) schedule = t

def swap (t : Race K V cmp) : Race K V cmp := ⟨t.map, t.second, t.first⟩

variable {L w w'} {old : ExtTreeMap K V cmp} {t : Race K V cmp}

variable (L w w' old) in
theorem Reached.start : Reached L w w' old (start old) := ⟨[], rfl⟩

theorem Reached.next (reached : Reached L w w' old t) (turn : Turn) :
    Reached L w w' old (step L w w' t turn) := by
  obtain ⟨schedule, rfl⟩ := reached
  exact ⟨schedule ++ [turn], foldl_concat ..⟩

theorem Reached.swap (reached : Reached L w w' old t) : Reached L w' w old t.swap := by
  obtain ⟨schedule, rfl⟩ := reached
  induction schedule using reverseRecOn with
  | nil => exact .start L w' w old
  | append_singleton schedule turn ih =>
    unfold run
    rw [foldl_concat]
    cases turn with
    | first => exact ih.next .second
    | second => exact ih.next .first

theorem Reached.invariant {I : Race K V cmp → Prop} (reached : Reached L w w' old t)
    (initial : I (Race.start old)) (kept : ∀ t turn, I t → I (step L w w' t turn)) : I t := by
  obtain ⟨schedule, rfl⟩ := reached
  induction schedule using reverseRecOn with
  | nil => exact initial
  | append_singleton schedule turn ih =>
    unfold run
    rw [foldl_concat]
    exact kept _ turn ih

end Race

/-! ## The map, as the writers go on -/

section Stages

variable (old d d' : ExtTreeMap K V cmp)

def Reads (k : K) : Prop := ∃ j ∈ old, L.short j = k

/-- The entries of the first that the second deletes, if it has seen them and if it has
    not. -/
def Goes (seen : Bool) (k : K) : Prop := if seen then L.short k = k else Reads L old k

variable {L old d d'} {m : ExtTreeMap K V cmp} {k : K} {names names' : List K} {seen : Bool}

theorem Reads.short (reads : Reads L old k) : L.short k = k := by
  obtain ⟨j, _, rfl⟩ := reads
  exact L.short_short j

theorem Reads.goes (reads : Reads L old k) (seen : Bool) : Goes L old seen k := by
  cases seen with
  | false => exact reads
  | true => exact reads.short

variable (L old d) in
structure Between (m : ExtTreeMap K V cmp) (names : List K) : Prop where
  listed : ∀ k ∈ names, Reads L old k ∧ k ∉ d
  ours : ∀ k ∈ d, m[k]? = d[k]?
  removed : ∀ k ∉ d, k ∉ names → L.short k = k → m[k]? = none
  hidden : ∀ k ∉ d, L.short k ≠ k → m[k]? = old[k]?

variable (L old d d') in
structure Plan (seen : Bool) (names : List K) : Prop where
  listed : ∀ k ∈ names, k ∉ d' ∧ L.short k = k
  ours : ∀ k ∈ d, k ∉ d' → (k ∈ names ↔ Goes L old seen k)

variable (L old d d') in
/-- The other has written too. Some of its entries have been deleted by the first. -/
structure After (atomic seen : Bool) (late : K → Prop) (m : ExtTreeMap K V cmp)
    (names names' : List K) : Prop where
  late_listed : ∀ k, late k → atomic = false ∧ Reads L old k ∧ k ∉ d
  listed : ∀ k ∈ names, atomic = false ∧ Reads L old k ∧ k ∉ d
  planned : ∀ k ∈ names', k ∉ d' ∧ L.short k = k ∧ (k ∈ d → Goes L old seen k)
  lost : ∀ k ∈ d', late k → m[k]? = none
  theirs : ∀ k ∈ d', ¬ late k → m[k]? = d'[k]?
  ours_gone : ∀ k ∈ d, k ∉ d' → Goes L old seen k → k ∉ names' → m[k]? = none
  ours : ∀ k ∈ d, k ∉ d' → ¬ Goes L old seen k → m[k]? = d[k]?
  removed : ∀ k ∉ d, k ∉ d' → k ∉ names → L.short k = k → m[k]? = none
  hidden : ∀ k ∉ d, k ∉ d' → L.short k ≠ k → m[k]? = old[k]?

theorem getElem?_union_of_mem {a b : ExtTreeMap K V cmp} (inside : k ∈ b) :
    (a ∪ b)[k]? = b[k]? := by
  obtain ⟨v, found⟩ := Option.isSome_iff_exists.mp (ExtTreeMap.mem_iff_isSome_getElem?.mp inside)
  rw [ExtTreeMap.getElem?_union, found]
  rfl

theorem getElem?_union_of_notMem {a b : ExtTreeMap K V cmp} (outside : k ∉ b) :
    (a ∪ b)[k]? = a[k]? := by
  rw [ExtTreeMap.getElem?_union, ExtTreeMap.getElem?_eq_none outside]
  rfl

theorem between_start : Between L old d (old ∪ d) (L.gone old d) := by
  constructor
  · intro k member
    exact L.mem_gone.mp member
  · intro k inside
    exact getElem?_union_of_mem inside
  · intro k outside unlisted fixed
    rw [getElem?_union_of_notMem outside]
    apply ExtTreeMap.getElem?_eq_none
    intro known
    exact unlisted (L.mem_gone.mpr ⟨⟨k, known, fixed⟩, outside⟩)
  · intro k outside _
    exact getElem?_union_of_notMem outside

variable [LawfulEqCmp cmp]

omit [LawfulEqCmp cmp] in
theorem plan_start : Plan L old d d' false (L.gone old d') := by
  constructor
  · intro k member
    obtain ⟨reads, outside⟩ := L.mem_gone.mp member
    exact ⟨outside, Reads.short reads⟩
  · intro k _ outside
    exact L.mem_gone.trans (and_iff_left outside)

omit [LawfulEqCmp cmp] in
theorem Between.plan (between : Between L old d m names) : Plan L old d d' true (L.gone m d') := by
  constructor
  · intro k member
    obtain ⟨reads, outside⟩ := L.mem_gone.mp member
    exact ⟨outside, Reads.short reads⟩
  · intro k inside outside
    rw [L.mem_gone, and_iff_left outside]
    constructor
    · exact Reads.short
    · intro fixed
      refine ⟨k, ?_, fixed⟩
      rw [mem_iff_getElem?_ne_none, between.ours k inside]
      exact mem_iff_getElem?_ne_none.mp inside

theorem getElem?_erase_self (m : ExtTreeMap K V cmp) (k : K) : (m.erase k)[k]? = none := by
  simp

theorem getElem?_erase_of_ne {j} (other : j ≠ k) : (m.erase j)[k]? = m[k]? := by
  rw [ExtTreeMap.getElem?_erase, if_neg]
  rwa [LawfulEqCmp.compare_eq_iff_eq]

theorem Between.delete (between : Between L old d m (k :: names)) :
    Between L old d (m.erase (L.short k)) names := by
  obtain ⟨reads, foreign⟩ := between.listed k mem_cons_self
  rw [reads.short]
  constructor
  · intro j member
    exact between.listed j (mem_cons_of_mem k member)
  · intro j inside
    have other : k ≠ j := fun same => foreign (same ▸ inside)
    rw [getElem?_erase_of_ne other, between.ours j inside]
  · intro j outside unlisted fixed
    by_cases here : k = j
    · rw [here, getElem?_erase_self]
    · rw [getElem?_erase_of_ne here]
      exact between.removed j outside (by simp [Ne.symm here, unlisted]) fixed
  · intro j outside moved
    have other : k ≠ j := fun same => moved (same ▸ reads.short)
    rw [getElem?_erase_of_ne other, between.hidden j outside moved]

omit [LawfulEqCmp cmp] in
theorem Between.write {atomic} (between : Between L old d m names)
    (apart : ∀ k ∈ names, atomic = false) (plan : Plan L old d d' seen names') :
    After L old d d' atomic seen (fun _ => False) (m ∪ d') names names' := by
  constructor
  · intro k never
    exact never.elim
  · intro k member
    exact ⟨apart k member, between.listed k member⟩
  · intro k member
    obtain ⟨foreign, fixed⟩ := plan.listed k member
    exact ⟨foreign, fixed, fun inside => (plan.ours k inside foreign).mp member⟩
  · intro k _ never
    exact never.elim
  · intro k inside _
    exact getElem?_union_of_mem inside
  · intro k inside outside goes unlisted
    exact absurd ((plan.ours k inside outside).mpr goes) unlisted
  · intro k inside outside _
    rw [getElem?_union_of_notMem outside, between.ours k inside]
  · intro k outside outside' unlisted fixed
    rw [getElem?_union_of_notMem outside', between.removed k outside unlisted fixed]
  · intro k outside outside' moved
    rw [getElem?_union_of_notMem outside', between.hidden k outside moved]

variable {atomic : Bool} {late : K → Prop}

theorem After.delete (after : After L old d d' atomic seen late m (k :: names) names') :
    After L old d d' atomic seen (fun j => late j ∨ j = k) (m.erase (L.short k)) names names' := by
  obtain ⟨plain, reads, foreign⟩ := after.listed k mem_cons_self
  rw [reads.short]
  constructor
  · rintro j (before | rfl)
    · exact after.late_listed j before
    · exact ⟨plain, reads, foreign⟩
  · intro j member
    exact after.listed j (mem_cons_of_mem k member)
  · exact after.planned
  · intro j inside isLate
    by_cases here : k = j
    · rw [here, getElem?_erase_self]
    · rw [getElem?_erase_of_ne here]
      exact after.lost j inside (isLate.resolve_right (Ne.symm here))
  · intro j inside notLate
    obtain ⟨before, other⟩ := not_or.mp notLate
    rw [getElem?_erase_of_ne (Ne.symm other), after.theirs j inside before]
  · intro j inside outside goes unlisted
    have other : k ≠ j := fun same => foreign (same ▸ inside)
    rw [getElem?_erase_of_ne other, after.ours_gone j inside outside goes unlisted]
  · intro j inside outside stays
    have other : k ≠ j := fun same => foreign (same ▸ inside)
    rw [getElem?_erase_of_ne other, after.ours j inside outside stays]
  · intro j outside outside' unlisted fixed
    by_cases here : k = j
    · rw [here, getElem?_erase_self]
    · rw [getElem?_erase_of_ne here]
      exact after.removed j outside outside' (by simp [Ne.symm here, unlisted]) fixed
  · intro j outside outside' moved
    have other : k ≠ j := fun same => moved (same ▸ reads.short)
    rw [getElem?_erase_of_ne other, after.hidden j outside outside' moved]

theorem After.delete' (after : After L old d d' atomic seen late m names (k :: names')) :
    After L old d d' atomic seen late (m.erase (L.short k)) names names' := by
  obtain ⟨foreign, fixed, goes⟩ := after.planned k mem_cons_self
  rw [fixed]
  have other : ∀ j ∈ d', k ≠ j := fun j inside same => foreign (same ▸ inside)
  constructor
  · exact after.late_listed
  · exact after.listed
  · intro j member
    exact after.planned j (mem_cons_of_mem k member)
  · intro j inside isLate
    rw [getElem?_erase_of_ne (other j inside), after.lost j inside isLate]
  · intro j inside notLate
    rw [getElem?_erase_of_ne (other j inside), after.theirs j inside notLate]
  · intro j inside outside goes unlisted
    by_cases here : k = j
    · rw [here, getElem?_erase_self]
    · rw [getElem?_erase_of_ne here]
      exact after.ours_gone j inside outside goes (by simp [Ne.symm here, unlisted])
  · intro j inside outside stays
    have other : k ≠ j := by
      rintro rfl
      exact stays (goes inside)
    rw [getElem?_erase_of_ne other, after.ours j inside outside stays]
  · intro j outside outside' unlisted short
    by_cases here : k = j
    · rw [here, getElem?_erase_self]
    · rw [getElem?_erase_of_ne here, after.removed j outside outside' unlisted short]
  · intro j outside outside' moved
    have other : k ≠ j := fun same => moved (same ▸ fixed)
    rw [getElem?_erase_of_ne other, after.hidden j outside outside' moved]

omit [LawfulEqCmp cmp] in
theorem eraseAll_keeps {P : ExtTreeMap K V cmp → List K → Prop}
    (deletes : ∀ m k names, P m (k :: names) → P (m.erase (L.short k)) names)
    (holds : P m names) : P (eraseAll L m names) [] := by
  induction names generalizing m with
  | nil => exact holds
  | cons k names ih => exact ih (deletes m k names holds)

end Stages

/-! ## Every order -/

section Orders

variable {L} {w w' : Writer K V cmp} {old m : ExtTreeMap K V cmp} {p p' : Phase K}
  {names : List K} {t : Race K V cmp}

inductive Written : Phase K → List K → Prop
  | deleting {names : List K} : Written (.deleting names) names
  | returned : Written .returned []

variable (L w old) in
inductive Waits : Phase K → Prop
  | reading : Waits .reading
  | writing : Waits (.writing (L.gone old w.data))

variable (L w w' old) in
inductive Waits' : Phase K → Prop
  | reading : Waits' .reading
  | writing {seen : Bool} {names : List K} (plan : Plan L old w.data w'.data seen names) :
      Waits' (.writing names)

variable (L w w' old) in
/-- The stages of a race that the first writer does not lose: it is not the last to write
    so far. -/
inductive Stage : Race K V cmp → Prop
  | before {p p' : Phase K} (ours : Waits L w old p) (theirs : Waits L w' old p') :
      Stage ⟨old, p, p'⟩
  | between {m : ExtTreeMap K V cmp} {p p' : Phase K} {names : List K}
      (between : Between L old w.data m names) (apart : ∀ k ∈ names, w.atomic = false)
      (ours : Written p names) (theirs : Waits' L w w' old p') : Stage ⟨m, p, p'⟩
  | after {m : ExtTreeMap K V cmp} {p p' : Phase K} {names names' : List K} {seen : Bool}
      {late : K → Prop}
      (after : After L old w.data w'.data w.atomic seen late m names names')
      (ours : Written p names) (theirs : Written p' names') : Stage ⟨m, p, p'⟩

theorem Waits.plan (waits : Waits L w' old p) : Waits' L w w' old p := by
  cases waits with
  | reading => exact .reading
  | writing => exact .writing plan_start

variable [LawfulEqCmp cmp]

theorem Stage.first (stage : Stage L w w' old t) : Stage L w w' old (t.step L w w' .first) := by
  cases stage with
  | before ours theirs =>
    cases ours with
    | reading => exact .before .writing theirs
    | writing =>
      cases plain : w.atomic with
      | false =>
        simp only [Race.step, move, plain]
        exact .between between_start (fun _ _ => plain) .deleting theirs.plan
      | true =>
        simp only [Race.step, move, plain]
        exact .between (eraseAll_keeps (fun _ _ _ => Between.delete) between_start)
          (fun _ member => by cases member) .returned theirs.plan
  | @between m p p' names between apart ours theirs =>
    cases ours with
    | returned => exact .between between apart .returned theirs
    | deleting =>
      cases names with
      | nil => exact .between between apart .returned theirs
      | cons k names =>
        exact .between between.delete (fun j member => apart j (mem_cons_of_mem k member))
          .deleting theirs
  | @after m p p' names names' seen late after ours theirs =>
    cases ours with
    | returned => exact .after after .returned theirs
    | deleting =>
      cases names with
      | nil => exact .after after .returned theirs
      | cons k names => exact .after after.delete .deleting theirs

theorem Stage.second (stage : Stage L w w' old t) :
    Stage L w w' old (t.step L w w' .second) ∨ Stage L w' w old (t.step L w w' .second).swap := by
  cases stage with
  | before ours theirs =>
    right
    have swapped : Stage L w' w old ⟨old, _, _⟩ := .before theirs ours
    exact swapped.first
  | @between m p p' names between apart ours theirs =>
    left
    cases theirs with
    | reading => exact .between between apart ours (.writing between.plan)
    | writing plan =>
      cases plain : w'.atomic with
      | false =>
        simp only [Race.step, move, plain]
        exact .after (between.write apart plan) ours .deleting
      | true =>
        simp only [Race.step, move, plain]
        have written := eraseAll_keeps
          (P := fun m => After L old w.data w'.data w.atomic _ (fun _ => False) m names)
          (fun _ _ _ => After.delete') (between.write apart plan)
        exact .after written ours .returned
  | @after m p p' names names' seen late after ours theirs =>
    left
    cases theirs with
    | returned => exact .after after ours .returned
    | deleting =>
      cases names' with
      | nil => exact .after after ours .returned
      | cons k names' => exact .after after.delete' ours .deleting

theorem reached_stage (reached : Race.Reached L w w' old t) :
    Stage L w w' old t ∨ Stage L w' w old t.swap := by
  apply reached.invariant (I := fun t => Stage L w w' old t ∨ Stage L w' w old t.swap)
  · exact .inl (.before .reading .reading)
  · intro t turn stage
    cases turn with
    | first =>
      cases stage with
      | inl ahead => exact .inl ahead.first
      | inr behind => exact behind.second.symm
    | second =>
      cases stage with
      | inl ahead => exact ahead.second
      | inr behind => exact .inr behind.first

omit [LawfulEqCmp cmp] in
theorem Stage.outcome (stage : Stage L w w' old t) (first : t.first = .returned)
    (second : t.second = .returned) :
    ∃ seen late, After L old w.data w'.data w.atomic seen late t.map [] [] := by
  cases stage with
  | before ours theirs =>
    cases ours with
    | reading | writing => cases first
  | between between apart ours theirs =>
    cases theirs with
    | reading | writing plan => cases second
  | after after ours theirs =>
    cases ours with
    | deleting => cases first
    | returned =>
      cases theirs with
      | deleting => cases second
      | returned => exact ⟨_, _, after⟩

end Orders

/-! ## When it is always the content of one of them -/

section Contents

def Within (d d' : ExtTreeMap K V cmp) : Prop := ∀ k ∈ d, d'[k]? = d[k]?

variable (old : ExtTreeMap K V cmp) (atomic : Bool) (d d' : ExtTreeMap K V cmp)

/-- Nothing is mixed if the writer of `d` writes first. -/
structure Harmless : Prop where
  hidden : ∀ k ∈ old, k ∉ d → k ∉ d' → L.short k = k
  /-- The other sees, or does not see, what is written first. -/
  seen : (∀ k ∈ d, k ∉ d' → Reads L old k) ∨
    Within d' d ∧ (∀ k ∈ d, k ∉ d' → ¬ Reads L old k) ∧
      ((∀ k ∈ d, k ∉ d' → L.short k = k) ∨ ∀ k ∈ d, k ∉ d' → L.short k ≠ k)
  /-- The other's entries are deleted afterwards. -/
  late : atomic = false → (∀ k ∈ d', k ∉ d → ¬ Reads L old k) ∨
    Within d d' ∧ (∀ k ∈ d', k ∉ d → Reads L old k) ∧ ∀ j ∈ d', j ∉ d → ∀ k ∈ d', k ∉ d → j = k

variable {L old atomic d d'} {m : ExtTreeMap K V cmp} {seen : Bool} {late : K → Prop}
  [LawfulEqCmp cmp]

omit [LawfulEqCmp cmp] in
theorem After.neither {k} (after : After L old d d' atomic seen late m [] [])
    (hidden : ∀ k ∈ old, k ∉ d → k ∉ d' → L.short k = k) (notOurs : k ∉ d) (notTheirs : k ∉ d') :
    m[k]? = none := by
  by_cases fixed : L.short k = k
  · exact after.removed k notOurs notTheirs not_mem_nil fixed
  · rw [after.hidden k notOurs notTheirs fixed]
    exact ExtTreeMap.getElem?_eq_none fun known => fixed (hidden k known notOurs notTheirs)

theorem After.eq_theirs (after : After L old d d' atomic seen late m [] [])
    (hidden : ∀ k ∈ old, k ∉ d → k ∉ d' → L.short k = k) (early : ∀ k ∈ d', ¬ late k)
    (goes : ∀ k ∈ d, k ∉ d' → Goes L old seen k) : m = d' := by
  apply ExtTreeMap.ext_getElem?
  intro k
  by_cases theirs : k ∈ d'
  · exact after.theirs k theirs (early k theirs)
  · rw [ExtTreeMap.getElem?_eq_none theirs]
    by_cases ours : k ∈ d
    · exact after.ours_gone k ours theirs (goes k ours theirs) not_mem_nil
    · exact after.neither hidden ours theirs

theorem After.eq_ours (after : After L old d d' atomic seen late m [] [])
    (hidden : ∀ k ∈ old, k ∉ d → k ∉ d' → L.short k = k)
    (same : ∀ k ∈ d', ¬ late k → d'[k]? = d[k]?)
    (stays : ∀ k ∈ d, k ∉ d' → ¬ Goes L old seen k) : m = d := by
  apply ExtTreeMap.ext_getElem?
  intro k
  by_cases theirs : k ∈ d'
  · by_cases isLate : late k
    · rw [after.lost k theirs isLate,
        ExtTreeMap.getElem?_eq_none (after.late_listed k isLate).2.2]
    · rw [after.theirs k theirs isLate, same k theirs isLate]
  · by_cases ours : k ∈ d
    · exact after.ours k ours theirs (stays k ours theirs)
    · rw [ExtTreeMap.getElem?_eq_none ours]
      exact after.neither hidden ours theirs

omit [LawfulEqCmp cmp] in
theorem Within.mem {k} (within : Within d d') (inside : k ∈ d) : k ∈ d' := by
  rw [mem_iff_getElem?_ne_none, within k inside]
  exact mem_iff_getElem?_ne_none.mp inside

theorem Harmless.content (harmless : Harmless L old atomic d d')
    (after : After L old d d' atomic seen late m [] []) : m = d ∨ m = d' := by
  cases harmless.seen with
  | inl read =>
    have goes : ∀ k ∈ d, k ∉ d' → Goes L old seen k :=
      fun k ours foreign => (read k ours foreign).goes seen
    by_cases early : ∀ k ∈ d', ¬ late k
    · exact .inr (after.eq_theirs harmless.hidden early goes)
    · push Not at early
      obtain ⟨k, theirs, isLate⟩ := early
      obtain ⟨plain, reads, foreign⟩ := after.late_listed k isLate
      cases harmless.late plain with
      | inl unread => exact absurd reads (unread k theirs foreign)
      | inr rest =>
        -- the only entry of the other that is not shared has been deleted
        obtain ⟨within, _, only⟩ := rest
        left
        apply after.eq_ours harmless.hidden
        · intro j inside notLate
          by_cases ours : j ∈ d
          · exact within j ours
          · exact absurd (only k theirs foreign j inside ours ▸ isLate) notLate
        · intro j ours outside
          exact absurd (within.mem ours) outside
  | inr rest =>
    obtain ⟨within, unread, alike⟩ := rest
    have early : ∀ k ∈ d', ¬ late k := fun k theirs isLate =>
      (after.late_listed k isLate).2.2 (within.mem theirs)
    have same : ∀ k ∈ d', ¬ late k → d'[k]? = d[k]? := fun k theirs _ => (within k theirs).symm
    cases seen with
    | false => exact .inl (after.eq_ours harmless.hidden same unread)
    | true =>
      cases alike with
      | inl fixed => exact .inr (after.eq_theirs harmless.hidden early fixed)
      | inr moved => exact .inl (after.eq_ours harmless.hidden same moved)

end Contents

/-! ## Some orders -/

section Schedules

open Race

variable {L} {w w' : Writer K V cmp} {old m : ExtTreeMap K V cmp} {p' : Phase K}
  {names names' : List K} {P : ExtTreeMap K V cmp → List K → Prop}

theorem reached_delete (deletes : ∀ m k names, P m (k :: names) → P (m.erase (L.short k)) names)
    (reached : Reached L w w' old ⟨m, .deleting (names ++ names'), p'⟩)
    (holds : P m (names ++ names')) :
    ∃ m', Reached L w w' old ⟨m', .deleting names', p'⟩ ∧ P m' names' := by
  induction names generalizing m with
  | nil => exact ⟨m, reached, holds⟩
  | cons k names ih => exact ih (reached.next .first) (deletes m k _ holds)

theorem reached_finish (deletes : ∀ m k names, P m (k :: names) → P (m.erase (L.short k)) names)
    (reached : Reached L w w' old ⟨m, .deleting names, p'⟩) (holds : P m names) :
    ∃ m', Reached L w w' old ⟨m', .returned, p'⟩ ∧ P m' [] := by
  rw [← append_nil names] at reached holds
  obtain ⟨m', reached', holds'⟩ := reached_delete deletes reached holds
  exact ⟨m', reached'.next .first, holds'⟩

theorem reached_write (deletes : ∀ m k names, P m (k :: names) → P (m.erase (L.short k)) names)
    (reached : Reached L w w' old ⟨m, .writing names, p'⟩) (holds : P (m ∪ w.data) names) :
    ∃ m', Reached L w w' old ⟨m', .returned, p'⟩ ∧ P m' [] := by
  have after := reached.next .first
  cases plain : w.atomic with
  | true =>
    simp only [step, move, plain] at after
    exact ⟨_, after, eraseAll_keeps deletes holds⟩
  | false =>
    simp only [step, move, plain] at after
    exact reached_finish deletes after holds

variable [LawfulEqCmp cmp]

variable (L w w' old) in
theorem reached_unseen : ∃ m, Reached L w w' old ⟨m, .returned, .returned⟩ ∧
    After L old w.data w'.data w.atomic false (fun _ => False) m [] [] := by
  have reading := (Reached.start L w w' old).next .second
  obtain ⟨m, reached, between⟩ := reached_write (P := Between L old w.data)
    (fun _ _ _ => Between.delete) (reading.next .first) between_start
  obtain ⟨m', reached', after⟩ := reached_write
    (P := fun m => After L old w.data w'.data w.atomic false (fun _ => False) m [])
    (fun _ _ _ => After.delete') reached.swap (between.write (by simp) plan_start)
  exact ⟨m', reached'.swap, after⟩

variable (L w w' old) in
theorem reached_seen : ∃ m, Reached L w w' old ⟨m, .returned, .returned⟩ ∧
    After L old w.data w'.data w.atomic true (fun _ => False) m [] [] := by
  have reading := (Reached.start L w w' old).next .first
  obtain ⟨m, reached, between⟩ := reached_write (P := Between L old w.data)
    (fun _ _ _ => Between.delete) reading between_start
  obtain ⟨m', reached', after⟩ := reached_write
    (P := fun m => After L old w.data w'.data w.atomic true (fun _ => False) m [])
    (fun _ _ _ => After.delete') (reached.swap.next .first) (between.write (by simp) between.plan)
  exact ⟨m', reached'.swap, after⟩

variable (w') in
theorem reached_late (plain : w.atomic = false) (split : L.gone old w.data = names ++ names') :
    ∃ m late, Reached L w w' old ⟨m, .returned, .returned⟩ ∧ (∀ k, late k ↔ k ∈ names') ∧
      After L old w.data w'.data w.atomic true late m [] [] := by
  have writing := ((Reached.start L w w' old).next .first).next .first
  simp only [step, move, start, plain] at writing
  have begun : Between L old w.data (old ∪ w.data) (L.gone old w.data) := between_start
  rw [split] at writing begun
  obtain ⟨m, reached, between⟩ := reached_delete (P := Between L old w.data)
    (fun _ _ _ => Between.delete) writing begun
  obtain ⟨m', reached', after⟩ := reached_write
    (P := fun m => After L old w.data w'.data w.atomic true (fun _ => False) m names')
    (fun _ _ _ => After.delete') (reached.swap.next .first)
    (between.write (fun _ _ => plain) between.plan)
  obtain ⟨m'', reached'', late, all, after'⟩ := reached_finish
    (P := fun m rest => ∃ late, (∀ k, late k ∨ k ∈ rest ↔ k ∈ names') ∧
      After L old w.data w'.data w.atomic true late m rest [])
    (fun m k rest ⟨late, all, after⟩ => ⟨_, fun j => by simp [← all j, or_assoc], after.delete⟩)
    reached'.swap ⟨_, by simp, after⟩
  exact ⟨m'', late, reached'', by simpa using all, after'⟩

end Schedules

/-! ## The conditions are needed -/

section Converse

open Race

variable {L} {w w' : Writer K V cmp} {old : ExtTreeMap K V cmp} {d d' m : ExtTreeMap K V cmp}
  {atomic seen : Bool} {late : K → Prop}

theorem After.unread (after : After L old d d' atomic seen late m [] []) (same : m = d) :
    ∀ k ∈ d, k ∉ d' → ¬ Goes L old seen k := by
  intro k ours foreign goes
  have gone := after.ours_gone k ours foreign goes not_mem_nil
  rw [same] at gone
  exact mem_iff_getElem?_ne_none.mp ours gone

theorem After.read (after : After L old d d' atomic seen late m [] []) (same : m = d') :
    ∀ k ∈ d, k ∉ d' → Goes L old seen k := by
  intro k ours foreign
  by_contra stays
  have kept := after.ours k ours foreign stays
  rw [same, ExtTreeMap.getElem?_eq_none foreign] at kept
  exact mem_iff_getElem?_ne_none.mp ours kept.symm

variable [LawfulEqCmp cmp]

theorem not_deleted_around {p l j k}
    (contents : ∀ m, Reached L w w' old ⟨m, .returned, .returned⟩ → m = w.data ∨ m = w'.data)
    (plain : w.atomic = false) (split : L.gone old w.data = p ++ l) (before : j ∈ p)
    (after : k ∈ l) (theirs : j ∈ w'.data) : k ∉ w'.data := by
  intro theirs'
  obtain ⟨m, late, reached, all, outcome⟩ := reached_late w' plain split
  have gone := outcome.lost k theirs' ((all k).mpr after)
  have early : ¬ late j := by
    intro isLate
    have apart := L.nodup_gone old w.data
    rw [split] at apart
    exact disjoint_of_nodup_append apart before ((all j).mp isLate)
  have kept := outcome.theirs j theirs early
  cases contents m reached with
  | inl ours =>
    have foreign : j ∉ w.data := (L.mem_gone.mp (split ▸ mem_append_left l before)).2
    rw [ours, ExtTreeMap.getElem?_eq_none foreign] at kept
    exact mem_iff_getElem?_ne_none.mp theirs kept.symm
  | inr other =>
    rw [other] at gone
    exact mem_iff_getElem?_ne_none.mp theirs' gone

theorem late_of_contents
    (contents : ∀ m, Reached L w w' old ⟨m, .returned, .returned⟩ → m = w.data ∨ m = w'.data)
    (shared : Within w'.data w.data ∨ ∀ k ∈ w.data, k ∉ w'.data → L.short k = k)
    (plain : w.atomic = false) {y} (theirs : y ∈ w'.data) (foreign : y ∉ w.data)
    (reads : Reads L old y) :
    Within w.data w'.data ∧ (∀ k ∈ w'.data, k ∉ w.data → Reads L old k) ∧
      ∀ j ∈ w'.data, j ∉ w.data → ∀ k ∈ w'.data, k ∉ w.data → j = k := by
  -- the second comes in right after the first has written
  obtain ⟨m, late, reached, all, outcome⟩ := reached_late w' plain
    (nil_append (L.gone old w.data)).symm
  have ours : m = w.data := by
    cases contents m reached with
    | inl ours => exact ours
    | inr other =>
      have gone := outcome.lost y theirs ((all y).mpr (L.mem_gone.mpr ⟨reads, foreign⟩))
      rw [other] at gone
      exact absurd gone (mem_iff_getElem?_ne_none.mp theirs)
  have read : ∀ k ∈ w'.data, k ∉ w.data → Reads L old k := by
    intro k inside outside
    by_contra unread
    have kept := outcome.theirs k inside fun isLate => unread (outcome.late_listed k isLate).2.1
    rw [ours, ExtTreeMap.getElem?_eq_none outside] at kept
    exact mem_iff_getElem?_ne_none.mp inside kept.symm
  refine ⟨fun k inside => ?_, read, fun j inside outside k inside' outside' => ?_⟩
  · have theirs' : k ∈ w'.data := by
      by_contra outside
      cases shared with
      | inl within => exact foreign (within.mem theirs)
      | inr fixed => exact outcome.unread ours k inside outside (fixed k inside outside)
    rw [← outcome.theirs k theirs' fun isLate => (outcome.late_listed k isLate).2.2 inside, ours]
  · by_contra different
    have listed := L.mem_gone.mpr ⟨read j inside outside, outside⟩
    have listed' := L.mem_gone.mpr ⟨read k inside' outside', outside'⟩
    obtain ⟨p, l, split⟩ := append_of_mem listed
    rw [split] at listed'
    cases mem_append.mp listed' with
    | inl before =>
      exact not_deleted_around contents plain split before mem_cons_self inside' inside
    | inr after =>
      have later : k ∈ l := (mem_cons.mp after).resolve_left (Ne.symm different)
      rw [append_cons] at split
      exact not_deleted_around contents plain split (by simp) later inside inside'

theorem harmless_of_contents
    (contents : ∀ m, Reached L w w' old ⟨m, .returned, .returned⟩ → m = w.data ∨ m = w'.data) :
    Harmless L old w.atomic w.data w'.data := by
  obtain ⟨m, reached, unseen⟩ := reached_unseen L w w' old
  obtain ⟨m', reached', seen⟩ := reached_seen L w w' old
  have first : (∀ k ∈ w.data, k ∉ w'.data → Reads L old k) ∨
      Within w'.data w.data ∧ (∀ k ∈ w.data, k ∉ w'.data → ¬ Reads L old k) := by
    cases contents m reached with
    | inr theirs => exact .inl (unseen.read theirs)
    | inl ours =>
      refine .inr ⟨fun k inside => ?_, unseen.unread ours⟩
      rw [← unseen.theirs k inside id, ours]
  constructor
  · intro k known foreign foreign'
    by_contra moved
    have kept := unseen.hidden k foreign foreign' moved
    have absent : m[k]? = none := by
      cases contents m reached with
      | inl ours => rw [ours, ExtTreeMap.getElem?_eq_none foreign]
      | inr theirs => rw [theirs, ExtTreeMap.getElem?_eq_none foreign']
    rw [absent] at kept
    exact mem_iff_getElem?_ne_none.mp known kept.symm
  · cases first with
    | inl read => exact .inl read
    | inr rest =>
      refine .inr ⟨rest.1, rest.2, ?_⟩
      cases contents m' reached' with
      | inr theirs => exact .inl (seen.read theirs)
      | inl ours => exact .inr (seen.unread ours)
  · intro plain
    by_cases unread : ∀ k ∈ w'.data, k ∉ w.data → ¬ Reads L old k
    · exact .inl unread
    · push Not at unread
      obtain ⟨y, theirs, foreign, reads⟩ := unread
      have shared : Within w'.data w.data ∨ ∀ k ∈ w.data, k ∉ w'.data → L.short k = k :=
        first.elim (fun read => .inr fun k ours outside => (read k ours outside).short)
          fun rest => .inl rest.1
      exact .inr (late_of_contents contents shared plain theirs foreign reads)

variable (L w w' old) in
theorem contents_iff :
    (∀ m, Reached L w w' old ⟨m, .returned, .returned⟩ → m = w.data ∨ m = w'.data) ↔
      Harmless L old w.atomic w.data w'.data ∧ Harmless L old w'.atomic w'.data w.data := by
  constructor
  · intro contents
    exact ⟨harmless_of_contents contents,
      harmless_of_contents fun m reached => (contents m reached.swap).symm⟩
  · rintro ⟨harmless, harmless'⟩ m reached
    cases reached_stage reached with
    | inl ahead =>
      obtain ⟨seen, late, after⟩ := ahead.outcome rfl rfl
      exact harmless.content after
    | inr behind =>
      obtain ⟨seen, late, after⟩ := behind.outcome rfl rfl
      exact (harmless'.content after).symm

end Converse

end SwssCommon.Replacing
