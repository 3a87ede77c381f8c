import Mathlib.Init

/-! # Code that may not end

A computation is run with a bound on the rounds of its loops and returns if some bound is enough. A
walk goes through a list of siblings, where a visit says which one comes next.
-/

namespace SwssCommon

open Option

/-- A computation that returns only if enough rounds are allowed. -/
structure Looping (α : Type) where
  run : Nat → Option α
  stable : ∀ n a, run n = some a → run (n + 1) = some a

namespace Looping

variable {α β σ N : Type}

def Returns (x : Looping α) (a : α) : Prop :=
  ∃ n, x.run n = some a

variable {a : α} {x : Looping α}

theorem run_of_le {n m} (more : n ≤ m) (ran : x.run n = some a) : x.run m = some a := by
  induction more with
  | refl => exact ran
  | step _ ih => exact x.stable _ a ih

theorem Returns.unique {b} (first : x.Returns a) (second : x.Returns b) : a = b := by
  obtain ⟨n, ran⟩ := first
  obtain ⟨m, ran'⟩ := second
  have same := (run_of_le (Nat.le_max_left n m) ran).symm.trans
    (run_of_le (Nat.le_max_right n m) ran')
  exact some.inj same

/-! ## One after the other -/

theorem bind_stable (x : Looping α) (f : α → Looping β) (n : Nat) (b : β)
    (ran : (x.run n).bind (fun a => (f a).run n) = some b) :
    (x.run (n + 1)).bind (fun a => (f a).run (n + 1)) = some b := by
  obtain ⟨a, first, second⟩ := bind_eq_some_iff.mp ran
  exact bind_eq_some_iff.mpr ⟨a, x.stable n a first, (f a).stable n b second⟩

instance : Monad Looping where
  pure a := ⟨fun _ => some a, fun _ _ ran => ran⟩
  bind x f := ⟨fun n => (x.run n).bind fun a => (f a).run n, bind_stable x f⟩

@[simp]
theorem returns_pure {b} : (pure a : Looping α).Returns b ↔ b = a := by
  constructor
  · rintro ⟨n, ran⟩
    exact (some.inj ran).symm
  · rintro rfl
    exact ⟨0, rfl⟩

theorem returns_bind {f} {b : β} :
    (x >>= f).Returns b ↔ ∃ a, x.Returns a ∧ (f a).Returns b := by
  constructor
  · rintro ⟨n, ran⟩
    obtain ⟨a, first, second⟩ := bind_eq_some_iff.mp ran
    exact ⟨a, ⟨n, first⟩, ⟨n, second⟩⟩
  · rintro ⟨a, ⟨n, first⟩, ⟨m, second⟩⟩
    refine ⟨max n m, bind_eq_some_iff.mpr ⟨a, ?_, ?_⟩⟩
    · exact run_of_le (Nat.le_max_left n m) first
    · exact run_of_le (Nat.le_max_right n m) second

theorem returns_map {f} {b : β} : (f <$> x).Returns b ↔ ∃ a, x.Returns a ∧ b = f a := by
  have rewritten : f <$> x = x >>= fun a => pure (f a) := rfl
  rw [rewritten, returns_bind]
  simp only [returns_pure]

/-! ## Loops -/

def loopRun (body : σ → Looping (σ ⊕ α)) : Nat → σ → Option α
  | 0, _ => none
  | n + 1, s =>
    match (body s).run n with
    | none => none
    | some (.inl s') => loopRun body n s'
    | some (.inr a) => some a

variable {body : σ → Looping (σ ⊕ α)}

theorem loopRun_succ {n s} :
    loopRun body (n + 1) s = some a ↔ (body s).run n = some (.inr a) ∨
      ∃ s', (body s).run n = some (.inl s') ∧ loopRun body n s' = some a := by
  rw [loopRun]
  cases ran : (body s).run n with
  | none => simp
  | some next => cases next <;> simp

theorem loopRun_stable (body : σ → Looping (σ ⊕ α)) (s : σ) (n : Nat) (a : α)
    (ran : loopRun body n s = some a) : loopRun body (n + 1) s = some a := by
  induction n generalizing s with
  | zero => cases ran
  | succ n ih =>
    rw [loopRun_succ] at ran ⊢
    cases ran with
    | inl left => exact .inl ((body s).stable n _ left)
    | inr again =>
      obtain ⟨s', round, rest⟩ := again
      exact .inr ⟨s', (body s).stable n _ round, ih s' rest⟩

def loop (body : σ → Looping (σ ⊕ α)) (s : σ) : Looping α :=
  ⟨fun n => loopRun body n s, loopRun_stable body s⟩

theorem returns_loop {s} :
    (loop body s).Returns a ↔ (body s).Returns (.inr a) ∨
      ∃ s', (body s).Returns (.inl s') ∧ (loop body s').Returns a := by
  constructor
  · rintro ⟨n, ran⟩
    cases n with
    | zero => cases ran
    | succ n =>
      cases loopRun_succ.mp ran with
      | inl left => exact .inl ⟨n, left⟩
      | inr again =>
        obtain ⟨s', round, rest⟩ := again
        exact .inr ⟨s', ⟨n, round⟩, ⟨n, rest⟩⟩
  · rintro (⟨n, left⟩ | ⟨s', ⟨n, round⟩, ⟨m, rest⟩⟩)
    · exact ⟨n + 1, loopRun_succ.mpr (.inl left)⟩
    · refine ⟨max n m + 1, loopRun_succ.mpr (.inr ⟨s', ?_, ?_⟩)⟩
      · exact run_of_le (Nat.le_max_left n m) round
      · exact run_of_le (x := loop body s') (Nat.le_max_right n m) rest

theorem not_returns_loop {s} (stays : (body s).Returns (.inl s)) (a : α) :
    ¬ (loop body s).Returns a := by
  rintro ⟨n, ran⟩
  induction n with
  | zero => cases ran
  | succ n ih =>
    cases loopRun_succ.mp ran with
    | inl left => cases stays.unique ⟨n, left⟩
    | inr again =>
      obtain ⟨s', round, rest⟩ := again
      cases stays.unique ⟨n, round⟩
      exact ih rest

/-! ## Walks through siblings -/

def walk (visit : N → List N → σ → Looping (List N × σ)) (first : List N) (s : σ) : Looping σ :=
  loop (fun at' : List N × σ =>
    match at'.1 with
    | [] => pure (.inr at'.2)
    | node :: next => .inl <$> visit node next at'.2) (first, s)

section Walks

variable {visit : N → List N → σ → Looping (List N × σ)} {node : N} {next : List N} {s t : σ}

theorem returns_walk_nil : (walk visit [] s).Returns t ↔ t = s := by
  unfold walk
  rw [returns_loop]
  simp

theorem returns_walk_cons :
    (walk visit (node :: next) s).Returns t ↔
      ∃ first s', (visit node next s).Returns (first, s') ∧ (walk visit first s').Returns t := by
  unfold walk
  rw [returns_loop]
  constructor
  · rintro (left | ⟨⟨first, s'⟩, round, rest⟩)
    · obtain ⟨_, _, never⟩ := returns_map.mp left
      cases never
    · obtain ⟨_, visited, same⟩ := returns_map.mp round
      cases same
      exact ⟨first, s', visited, rest⟩
  · rintro ⟨first, s', visited, rest⟩
    exact .inr ⟨(first, s'), returns_map.mpr ⟨_, visited, rfl⟩, rest⟩

theorem not_returns_walk (stays : (visit node next s).Returns (node :: next, s)) :
    ¬ (walk visit (node :: next) s).Returns t := by
  apply not_returns_loop
  exact returns_map.mpr ⟨_, stays, rfl⟩

theorem returns_walk_iff {passes : N → Prop} {act}
    (advances : ∀ node next s at', passes node →
      ((visit node next s).Returns at' ↔ at' = (next, act s node)))
    (ends : ∀ node next s, ¬ passes node →
      (visit node next s).Returns (node :: next, s) ∨ ∀ at', ¬ (visit node next s).Returns at')
    (nodes : List N) (s t : σ) :
    (walk visit nodes s).Returns t ↔ (∀ node ∈ nodes, passes node) ∧ t = nodes.foldl act s := by
  induction nodes generalizing s with
  | nil => simp [returns_walk_nil]
  | cons node next ih =>
    rw [List.forall_mem_cons, List.foldl_cons]
    by_cases past : passes node
    · rw [returns_walk_cons]
      simp only [advances node next s _ past, Prod.mk.injEq]
      rw [and_iff_right past, ← ih]
      constructor
      · rintro ⟨_, _, ⟨rfl, rfl⟩, rest⟩
        exact rest
      · intro rest
        exact ⟨next, act s node, ⟨rfl, rfl⟩, rest⟩
    · constructor
      · intro returned
        cases ends node next s past with
        | inl stays => exact absurd returned (not_returns_walk stays)
        | inr never =>
          obtain ⟨first, s', visited, -⟩ := returns_walk_cons.mp returned
          exact absurd visited (never (first, s'))
      · intro passed
        exact absurd passed.1.1 past

end Walks

end Looping

end SwssCommon
