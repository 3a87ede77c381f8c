import Mathlib.Data.List.Induction
import Mathlib.Order.WellFounded

/-! # Runs of labelled transition relations

A run records the labels of its steps, so a property may speak about the history of a state.
-/

namespace SwssCommon

open List

variable {σ ℓ : Type*}

/-- `Run step s ls t`: some execution from `s` takes exactly the steps `ls` and
    ends in `t`. -/
inductive Run (step : σ → ℓ → σ → Prop) : σ → List ℓ → σ → Prop where
  | refl (s : σ) : Run step s [] s
  | snoc {s t u : σ} {ls : List ℓ} {l : ℓ} :
      Run step s ls t → step t l u → Run step s (ls ++ [l]) u

namespace Run

variable {step : σ → ℓ → σ → Prop} {s t u : σ} {ls ks : List ℓ} {l : ℓ}

theorem invariant {I : List ℓ → σ → Prop} (initially : I [] s)
    (preserved : ∀ {ls t l u}, I ls t → step t l u → I (ls ++ [l]) u)
    (run : Run step s ls t) : I ls t := by
  induction run with
  | refl => exact initially
  | snoc _ taken ih => exact preserved ih taken

theorem mono {step'} (run : Run step s ls t)
    (allowed : ∀ {s l t}, l ∈ ls → step s l t → step' s l t) : Run step' s ls t := by
  induction run with
  | refl => exact .refl _
  | snoc _ taken ih =>
    refine .snoc (ih fun member => allowed (mem_append_left _ member)) ?_
    exact allowed (mem_append_right _ (mem_singleton_self _)) taken

theorem single (taken : step s l t) : Run step s [l] t := .snoc (.refl s) taken

theorem append (first : Run step s ls t) (second : Run step t ks u) : Run step s (ls ++ ks) u := by
  induction second with
  | refl => simpa using first
  | snoc _ taken ih => simpa using ih.snoc taken

theorem cons (taken : step s l t) (rest : Run step t ls u) : Run step s (l :: ls) u :=
  (single taken).append rest

theorem step_of_mem (run : Run step s ls t) (member : l ∈ ls) : ∃ s' t', step s' l t' := by
  induction run with
  | refl => simp at member
  | snoc _ taken ih =>
    rcases mem_append.mp member with earlier | last
    · exact ih earlier
    · exact ⟨_, _, mem_singleton.mp last ▸ taken⟩

theorem nil_eq (run : Run step s [] t) : t = s := by
  generalize noSteps : ([] : List ℓ) = labels at run
  cases run with
  | refl => rfl
  | snoc => simp at noSteps

theorem of_snoc (run : Run step s (ls ++ [l]) u) : ∃ t, Run step s ls t ∧ step t l u := by
  generalize same : ls ++ [l] = labels at run
  cases run with
  | refl => simp at same
  | snoc before taken =>
    obtain ⟨rfl, rfl⟩ := append_inj' same rfl |>.imp_right (by simpa using ·)
    exact ⟨_, before, taken⟩

theorem split (run : Run step s (ls ++ ks) u) : ∃ t, Run step s ls t ∧ Run step t ks u := by
  induction ks using reverseRecOn generalizing u with
  | nil => exact ⟨u, by simpa using run, .refl u⟩
  | append_singleton ks l ih =>
    rw [← append_assoc] at run
    obtain ⟨v, before, taken⟩ := run.of_snoc
    obtain ⟨t, first, second⟩ := ih before
    exact ⟨t, first, second.snoc taken⟩

theorem of_cons (run : Run step s (l :: ls) u) : ∃ t, step s l t ∧ Run step t ls u := by
  obtain ⟨t, first, rest⟩ := split (show Run step s ([l] ++ ls) u from run)
  obtain ⟨s', none, taken⟩ := of_snoc (show Run step s ([] ++ [l]) t from first)
  obtain rfl := none.nil_eq
  exact ⟨t, taken, rest⟩

theorem exists_of_rank {α} [LT α] [WellFoundedLT α] {rank : σ → α} {I wanted : σ → Prop}
    {allowed : ℓ → Prop}
    (advances : ∀ s, I s → ¬ wanted s →
      ∃ l t, allowed l ∧ step s l t ∧ I t ∧ rank t < rank s) (initially : I s) :
    ∃ ls t, (∀ l ∈ ls, allowed l) ∧ Run step s ls t ∧ I t ∧ wanted t := by
  induction same : rank s using WellFoundedLT.induction generalizing s with
  | ind r ih =>
    by_cases reached : wanted s
    · exact ⟨[], s, by simp, .refl s, initially, reached⟩
    · obtain ⟨l, t, fine, taken, still, less⟩ := advances s initially reached
      obtain ⟨ls, u, others, run, kept, reached⟩ := ih (rank t) (same ▸ less) still rfl
      refine ⟨l :: ls, u, fun label member => ?_, .cons taken run, kept, reached⟩
      rcases mem_cons.mp member with rfl | later
      · exact fine
      · exact others label later

end Run

end SwssCommon
