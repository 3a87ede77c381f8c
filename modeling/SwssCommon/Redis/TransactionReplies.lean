import SwssCommon.Redis.Transaction

/-! # The replies of a transaction as objects

`exec` frees all of the array or keeps its elements, `dequeueReply` gives them to the caller one by
one, and the rest is freed later. So every object is freed or handed out once.
-/

namespace SwssCommon

open Throwing List Ledger.Owned DBConnector RedisTransactioner

namespace TransactionReplies

theorem map_object_number (first : Nat) (rs : List RedisReply) :
    (number first rs).map Pointer.object = range' first rs.length := by
  induction rs generalizing first with
  | nil => rfl
  | cons r rs ih =>
    rw [number, map_cons, ih, length_cons, range'_succ]

section Accounting

variable {σ κ α : Type} {peer : TransactionPeer σ κ} {s : RedisTransactioner σ} {extra : List Nat}

/-- The objects that nobody has freed are these, those handed out, and those to be. -/
def Holding (extra : List Nat) (s : RedisTransactioner σ) : Prop :=
  s.replies.Owned (extra ++ (s.handedOut.map Pointer.object ++ s.results.map Pointer.object))

def Accounted (s : RedisTransactioner σ) : Prop :=
  Holding [] s

variable {r : Allocated}

theorem Holding.free (holding : Holding (r.objects ++ extra) s) :
    Holding extra (free (some r) s) := by
  unfold Holding at holding
  rw [append_assoc] at holding
  exact release holding

theorem redisGetReply_holding (accounted : Accounted s) (req : TransactionRequest κ) :
    Ends (redisGetReply peer req) s (fun r => Holding r.objects) (fun _ => Accounted) := by
  unfold Ends redisGetReply
  cases answered : peer.answer req s.server with
  | mk answer server =>
    cases answer with
    | none => exact accounted
    | some r =>
      have more := create accounted (r :: elements r)
      have objects : (allocation s r).objects =
          range' s.replies.next (r :: elements r).length := by
        simp [allocation, Allocated.objects, map_object_number, range'_succ]
      apply perm more
      rw [← objects]
      exact perm_append_comm

theorem construct_holding (accounted : Accounted s) (req : TransactionRequest κ) :
    Ends (construct peer req) s (fun r => Holding r.objects) (fun _ => Accounted) := by
  apply (redisGetReply_holding accounted req).seq
  intro r s' holding
  cases RedisReply.guard r.self.reply.checkReply (peer.toPrintableString req) with
  | ok _ => exact Ends.pure holding
  | error e =>
    apply Holding.free
    simpa using holding

theorem free_none : free none s = s := by
  simp [free, Ledger.release]

theorem Holding.freed (holding : Holding r.objects s) :
    Accounted (RedisTransactioner.free (some r) s) :=
  Holding.free (by simpa using holding)

theorem Holding.lift (holding : Holding r.objects s) (check : Except SystemError Unit) :
    Ends (lift check) s (fun _ => Holding r.objects)
      (fun _ s' => Accounted (RedisTransactioner.free (some r) s')) := by
  cases check with
  | ok _ => exact Ends.pure holding
  | error e => exact Ends.throw holding.freed

theorem Holding.clear (holding : Holding extra s) :
    Ends clearResults s (fun _ s' => Holding extra s' ∧ s'.results = []) (fun _ _ => False) := by
  refine ⟨?_, rfl⟩
  apply release
  apply perm holding
  rw [map_nil, append_nil, ← append_assoc]
  exact perm_append_comm

theorem Holding.checkTypes (holding : Holding extra s) (element : List Pointer) :
    Ends (checkTypes element) s (fun _ s' => Holding extra s' ∧ s'.results = s.results)
      (fun _ s' => Holding extra s') := by
  induction element generalizing s with
  | nil => exact Ends.pure ⟨holding, rfl⟩
  | cons p rest ih =>
    apply Ends.bind_get
    apply Ends.bind_modify
    split
    · exact Ends.throw holding
    · exact ih (s := { s with expectedResults := s.expectedResults.tail }) holding

theorem Holding.keep (holding : Holding r.objects s) (none : s.results = []) :
    Accounted { s with
      results := s.results ++ r.element
      replies := s.replies.release [r.self.object] } := by
  apply release
  apply perm holding
  simp only [none, map_nil, append_nil, nil_append, cons_append]
  exact perm_append_comm.cons _

variable (peer) in
theorem multi_accounted : Keeps Accounted (multi peer) := by
  intro s accounted
  apply (construct_holding (s := { s with expectedResults := [] }) accounted .MULTI).seq
  intro r s' holding
  apply block_ends
  apply (holding.lift _).seq
  intro _ s' holding
  apply (holding.lift _).seq
  intro _ s' holding
  exact Ends.pure holding.freed

variable (peer) in
theorem enqueue_accounted (c : κ) (expectedType : Int) :
    Keeps Accounted (enqueue peer c expectedType) := by
  intro s accounted
  apply (construct_holding accounted (.command c)).seq
  intro r s' holding
  apply block_ends
  apply (holding.lift _).seq
  intro _ s' holding
  apply (holding.lift _).seq
  intro _ s' holding
  apply Ends.bind_modify
  exact Ends.pure (Holding.freed (s := { s' with expectedResults := _ }) holding)

variable (peer) in
theorem exec_accounted : Keeps Accounted (exec peer) := by
  intro s accounted
  apply (construct_holding accounted .EXEC).seq
  intro r s' holding
  apply block_ends
  split
  · apply Ends.bind_get
    split
    · exact Ends.throw holding.freed
    · apply Ends.bind
      apply holding.clear.mono _ fun _ _ never => never.elim
      rintro _ s' ⟨holding, cleared⟩
      apply Ends.bind
      apply (holding.checkTypes r.element).mono _ fun _ _ still => still.freed
      rintro _ s' ⟨holding, same⟩
      apply Ends.bind_modify
      apply Ends.bind_modify
      apply Ends.pure
      rw [free_none]
      exact holding.keep (same.trans cleared)
  · exact Ends.pure holding.freed

theorem dequeueReply_accounted : Keeps Accounted (dequeueReply : M σ (Option Pointer)) := by
  intro s accounted
  cases queued : s.results with
  | nil => exact Ends.returned (dequeueReply_nil queued) accounted
  | cons p results =>
    apply Ends.returned (dequeueReply_cons queued)
    unfold Accounted Holding at accounted ⊢
    rw [queued] at accounted
    simpa using accounted

theorem destroy_settles (accounted : Accounted s) :
    Ends destroy s (fun _ s' => s'.replies.Owned (s'.handedOut.map Pointer.object))
      (fun _ _ => False) := by
  apply (Holding.clear accounted).mono _ fun _ _ never => never
  rintro _ s' ⟨accounted, empty⟩
  unfold Holding at accounted
  rw [empty] at accounted
  simpa using accounted

end Accounting

end TransactionReplies

end SwssCommon
