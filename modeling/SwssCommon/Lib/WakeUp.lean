import Mathlib.Tactic.Positivity
import Mathlib.Tactic.Ring

/-! # Counted wake-ups

Producers leave work and post messages; a consumer counts the messages it has read and serves some
work for each. A message is on its way, counted, or granted to a service that has not run: in all
three places it is a token. `Covers per t owed work` says that the tokens outstanding and those owed
by producers suffice for the work if each serves `per` pieces.
-/

namespace SwssCommon

structure Tokens where
  /-- Messages posted and not read yet. -/
  unread : Nat
  /-- Messages read and not granted yet. -/
  ready : Int
  /-- A service has been granted and has not run yet. -/
  due : Bool

namespace Tokens

variable {t : Tokens} {n per owed work less : Nat}

def outstanding (t : Tokens) : Int :=
  t.unread + t.ready + t.due.toNat

def post (t : Tokens) (n : Nat) : Tokens :=
  { t with unread := t.unread + n }

def receive (t : Tokens) (n : Nat) : Tokens :=
  { t with unread := t.unread - n, ready := t.ready + n }

def grant (t : Tokens) : Tokens :=
  { t with ready := t.ready - 1, due := true }

def spend (t : Tokens) : Tokens :=
  { t with due := false }

theorem outstanding_post (t : Tokens) (n : Nat) :
    (t.post n).outstanding = t.outstanding + n := by
  simp only [outstanding, post, Nat.cast_add]
  ring

theorem outstanding_receive (inbox : n ≤ t.unread) :
    (t.receive n).outstanding = t.outstanding := by
  simp only [outstanding, receive]
  omega

theorem outstanding_grant (idle : t.due = false) : t.grant.outstanding = t.outstanding := by
  simp only [outstanding, grant, idle, Bool.toNat_true, Bool.toNat_false]
  omega

theorem outstanding_spend (due : t.due) : t.spend.outstanding = t.outstanding - 1 := by
  simp only [outstanding, spend, due, Bool.toNat_true, Bool.toNat_false]
  omega

structure Covers (per : Nat) (t : Tokens) (owed work : Nat) : Prop where
  counted : 0 ≤ t.ready
  enough : (work : Int) ≤ per * (t.outstanding + owed)

namespace Covers

theorem of_le (h : t.Covers per owed work) (fewer : less ≤ work) : t.Covers per owed less :=
  ⟨h.counted, le_trans (by exact_mod_cast fewer) h.enough⟩

theorem post (h : t.Covers per owed work) (n : Nat) :
    (t.post n).Covers per owed (work + per * n) := by
  refine ⟨h.counted, ?_⟩
  have enough := h.enough
  rw [outstanding_post]
  calc (work : Int) + per * n ≤ per * (t.outstanding + owed) + per * n := by omega
    _ = per * (t.outstanding + n + owed) := by ring

theorem receive (h : t.Covers per owed work) (inbox : n ≤ t.unread) :
    (t.receive n).Covers per owed work := by
  refine ⟨?_, ?_⟩
  · have counted := h.counted
    simp only [Tokens.receive]
    omega
  · rw [outstanding_receive inbox]
    exact h.enough

theorem grant (h : t.Covers per owed work) (ready : 0 < t.ready) (idle : t.due = false) :
    t.grant.Covers per owed work := by
  refine ⟨?_, ?_⟩
  · simp only [Tokens.grant]
    omega
  · rw [outstanding_grant idle]
    exact h.enough

theorem spend (h : t.Covers per owed work) (due : t.due) :
    t.spend.Covers per owed (work - per) := by
  refine ⟨h.counted, ?_⟩
  have enough := h.enough
  have counted : 0 ≤ t.spend.outstanding := by
    have ready := h.counted
    simp only [outstanding, Tokens.spend]
    omega
  have rest : (0 : Int) ≤ per * (t.spend.outstanding + owed) := by positivity
  rw [outstanding_spend due] at rest ⊢
  have expanded : (per : Int) * (t.outstanding - 1 + owed) =
      per * (t.outstanding + owed) - per := by
    ring
  omega

theorem outstanding_pos (h : t.Covers per 0 work) (left : 0 < work) : 0 < t.outstanding := by
  have enough := h.enough
  by_contra none
  have spent : (per : Int) * (t.outstanding + (0 : Nat)) ≤ 0 :=
    mul_nonpos_of_nonneg_of_nonpos (Int.natCast_nonneg per) (by simpa using none)
  omega

end Covers

end Tokens

end SwssCommon
