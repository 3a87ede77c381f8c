import SwssCommon.QueueTable.WakeUp
import SwssCommon.StateTable.WakeUp

/-! # One wake-up for every piece of work

When work arrives one piece at a time, as many wake-ups are outstanding as there are pieces on the
server and in the buffer of the consumer.
-/

namespace SwssCommon

open Bytes Redis Script ConsumerStateTable StateTable

/-- The wake-ups outstanding: messages published and not read, messages counted, and the
    pop that is due. -/
def System.wakeUps {ρ : Type} (sys : System ρ) : Int :=
  sys.unread + sys.select.queueLength + if sys.isDue then 1 else 0

theorem System.outstanding_tokens {ρ} (sys : System ρ) :
    sys.tokens.outstanding = sys.wakeUps := by
  simp only [Tokens.outstanding, System.tokens, wakeUps]
  cases sys.isDue <;> simp

/-- Once the consumer is built, there is a wake-up for every key of the key set and every entry of
    the buffer. -/
def StateTable.Covered (hiredis : Hiredis) (c : ConsumerStateTable) (dbId : Nat)
    (mode : Consumer.Mode) : Prop :=
  ∀ (s : Server) (st : StateStore) (events : List (Consumer.Event SingleKeyCall))
    (sys : System Unit),
    Ready c.toTableBase s.keyspace st →
    Run (Consumer.Step hiredis (c.consumer dbId) mode (SingleKey c.toTableBase dbId))
      (.construct (c.consumer dbId) s ()) events sys →
    sys.Built →
    ∃ members, sys.server.keyspace.setAt c.getKeySetName = some members ∧
      (members.card : Int) + sys.buffer.length ≤ sys.wakeUps

/-- The same for the operations on a queue, three elements each. -/
def QueueTable.Covered (hiredis : Hiredis) (json : JsonArray) (c : ConsumerTable) (dbId : Nat)
    (mode : Consumer.Mode) : Prop :=
  ∀ (s : Server) (n : Nat) (events : List (Consumer.Event QueueCall)) (sys : System Unit),
    QueueSize json c.toTableBase s n →
    Run (Consumer.Step hiredis (c.consumer json dbId) mode (Enqueues json c.toTableBase dbId))
      (.construct (c.consumer json dbId) s ()) events sys →
    sys.Built →
    ∃ elements, sys.server.keyspace.listAt c.getKeyValueOpQueueTableName = some elements ∧
      ((elements.length / 3 : Nat) : Int) + sys.buffer.length ≤ sys.wakeUps

namespace Consumer

private theorem Awake.bound {c mode Backlog}
    {channel} {sys : System Unit}
    (awake : Awake c mode Backlog channel 1 (fun _ => 0) sys) (built : sys.Built) :
    ∃ n, Backlog sys.server n ∧ (n : Int) + sys.buffer.length ≤ sys.wakeUps := by
  obtain ⟨n, backlog, -, -, covers⟩ := awake.covers built
  have enough := covers.enough
  rw [System.outstanding_tokens] at enough
  exact ⟨n, backlog, by push_cast at enough; omega⟩

theorem no_lost_wakeup :
    (∀ {hiredis : Hiredis} {c : ConsumerStateTable} {dbId : Nat} (mode : Mode),
      c.Reads hiredis dbId → 1 ≤ c.POP_BATCH_SIZE → Covered hiredis c dbId mode) ∧
    (∀ {hiredis : Hiredis} {json : JsonArray} {c : ConsumerTable} {dbId : Nat} (mode : Mode),
      c.Reads hiredis dbId → 1 ≤ c.POP_BATCH_SIZE →
        QueueTable.Covered hiredis json c dbId mode) := by
  refine ⟨?_, ?_⟩
  · intro hiredis c dbId mode reads batch s st events sys ready run built
    have awake := run.invariant (I := fun _ => Awake (c.consumer dbId) mode
      (KeySetSize c.toTableBase) (c.getChannelName dbId) 1 fun _ => 0)
      (awake_construct ⟨st, ready, rfl⟩) fun awake taken =>
        awake.step (serves reads) le_rfl batch (fun _ => rfl)
          (fun _ _ _ _ produced => SingleKey.posts produced) taken
    obtain ⟨n, ⟨st', ready', rfl⟩, bound⟩ := awake.bound built
    exact ⟨st'.dirty, ready'.shown.keySet, bound⟩
  · intro hiredis json c dbId mode reads batch s n events sys size run built
    have awake := run.invariant (I := fun _ => Awake (c.consumer json dbId) mode
      (QueueTable.QueueSize json c.toTableBase) (c.getChannelName dbId) 1 fun _ => 0)
      (awake_construct size) fun awake taken =>
        awake.step (ConsumerTable.serves reads batch) le_rfl batch (fun _ => rfl)
          (fun _ _ _ _ produced => QueueTable.Enqueues.posts reads.nulFree produced) taken
    obtain ⟨m, ⟨entries, rfl, queue, -⟩, bound⟩ := awake.bound built
    refine ⟨_, queue, ?_⟩
    have length : (entries.flatMap QueueTable.Entry.words).reverse.length = entries.length * 3 := by
      simp [QueueTable.Entry.words]
    rw [length, Nat.mul_div_cancel _ (by decide)]
    exact bound

section Ports

private def ports : TableBase := ⟨ascii "PORT", .colon⟩

/-- A key set right after the consumer was built, and one put on a queue right after its consumer
    was. -/
theorem no_lost_wakeup_set :
    let c : ConsumerStateTable := ⟨ports, 1⟩
    let q : ConsumerTable := ⟨ports, 2, true⟩
    let p : ProducerStateTable := ⟨ports, 0, false, false⟩
    let r : ProducerTable := ⟨ports, 0⟩
    let json : JsonArray := .only [] (ascii "[]") (by decide) (by decide)
    (∃ sys, Run (Step .blanks (c.consumer 0) .pops (SingleKey ports 0))
        (.construct (c.consumer 0) ⟨∅, []⟩ ())
        ([.construct, .construct, .construct, .construct, .construct] ++
          [.produce (.set p (ascii "Ethernet0") [])]) sys ∧
      ∃ members, sys.server.keyspace.setAt ports.getKeySetName = some members ∧
        (members.card : Int) + sys.buffer.length ≤ sys.wakeUps) ∧
    ∃ sys, Run (Step .blanks (q.consumer json 0) .pop (QueueTable.Enqueues json ports 0))
        (.construct (q.consumer json 0) ⟨∅, []⟩ ())
        [.construct, .construct, .construct, .construct, .construct, .construct,
          .produce (.set r (ascii "Ethernet0") [] SET_COMMAND)] sys ∧
      ∃ elements, sys.server.keyspace.listAt ports.getKeyValueOpQueueTableName = some elements ∧
        ((elements.length / 3 : Nat) : Int) + sys.buffer.length ≤ sys.wakeUps := by
  intro c q p r json
  constructor
  · have reads : ConsumerStateTable.Reads .blanks ⟨ports, 1⟩ 0 := ⟨by decide, by decide, by decide⟩
    have produced : SingleKey ports 0 ⟨∅, []⟩ () (.set p (ascii "Ethernet0") []) _ () :=
      .set rfl rfl rfl
    have run : Run (Step .blanks (c.consumer 0) .pops (SingleKey ports 0))
        (.construct (c.consumer 0) ⟨∅, []⟩ ()) _ _ :=
      (constructs reads.watch reads.count reads.channel rfl).append (.single (.produce produced))
    exact ⟨_, run, no_lost_wakeup.1 .pops reads le_rfl _ _ _ _ (ready_empty ports) run
      (by simp [System.Built])⟩
  · have reads : ConsumerTable.Reads .blanks ⟨ports, 2, true⟩ 0 :=
      ⟨by decide, by decide, by decide⟩
    have produced : QueueTable.Enqueues json ports 0 ⟨∅, []⟩ ()
        (.set r (ascii "Ethernet0") [] SET_COMMAND) _ () := .set rfl rfl rfl
    have replies : [ascii "LLEN " ++ q.getKeyValueOpQueueTableName,
        ascii "LLEN " ++ q.getKeyValueOpQueueTableName].mapM
          (fun text => integerReply ⟨∅, []⟩ (Hiredis.blanks.words text)) = some [0, 0] := by
      rw [List.mapM_cons, List.mapM_cons, reads.count]
      rfl
    have run : Run (Step .blanks (q.consumer json 0) .pop (QueueTable.Enqueues json ports 0))
        (.construct (q.consumer json 0) ⟨∅, []⟩ ()) _ _ :=
      .cons (.construct (.watch rfl rfl reads.watch)) (.cons (.construct (.multi rfl rfl))
        (.cons (.construct (.enqueue rfl rfl))
        (.cons (.construct (.subscribe rfl rfl reads.channel))
        (.cons (.construct (.enqueue rfl rfl))
        (.cons (.construct (.exec rfl rfl (by rintro k v ⟨⟩; rfl) replies))
        (.single (.produce produced)))))))
    exact ⟨_, run, no_lost_wakeup.2 .pop reads (by decide) _ _ _ _ ⟨[], rfl, rfl, by simp⟩ run
      (by simp [System.Built])⟩

private theorem set_alone (t : TableBase) :
    let p : ProducerStateTable := ⟨t, 0, false, false⟩
    ∃ st, Ready t (p.set (ascii "Ethernet0") [] ⟨∅, []⟩).2.keyspace st ∧ st.dirty.card = 1 ∧
      (p.set (ascii "Ethernet0") [] ⟨∅, []⟩).2.published = [(t.getChannelName 0, ascii "G")] := by
  intro p
  obtain ⟨st, ready, dirty, published⟩ := ProducerStateTable.set_adds (p := p) (s := ⟨∅, []⟩)
    (ascii "Ethernet0") [] (ready_empty t)
  have one : st.dirty.card = 1 := by
    rw [dirty]
    decide
  refine ⟨st, ready, one, ?_⟩
  rfl

/-- A batch of no keys spends the wake-up and takes nothing; and hiredis loses a blank in front of
    the table name, so that the consumer counts and subscribes elsewhere. -/
theorem lost_wakeup :
    ¬ Covered .blanks ⟨ports, 0⟩ 0 .pops ∧
      ¬ Covered .blanks ⟨⟨ascii " PORT", .colon⟩, 1⟩ 0 .pops := by
  refine ⟨fun covered => ?_, fun covered => ?_⟩
  · let c : ConsumerStateTable := ⟨ports, 0⟩
    have reads : ConsumerStateTable.Reads .blanks ⟨ports, 0⟩ 0 := ⟨by decide, by decide, by decide⟩
    let p : ProducerStateTable := ⟨ports, 0, false, false⟩
    have produced : SingleKey ports 0 ⟨∅, []⟩ () (.set p (ascii "Ethernet0") []) _ () :=
      .set rfl rfl rfl
    obtain ⟨st, ready, one, published⟩ := set_alone ports
    generalize (p.set (ascii "Ethernet0") [] ⟨∅, []⟩).2 = s₁ at produced ready published
    obtain ⟨vkco, s₂, ran, -, quiet, st', ready', less⟩ :=
      pops_takes (c := c) .listed reads.nulFree ready
    have sent : s₁.sent (ports.getChannelName 0) = 1 := by
      rw [Server.sent, published]
      decide
    have popped : (c.consumer 0).Pops s₁ ⟨vkco, false, s₂⟩ := ⟨.listed, by rw [ran]⟩
    have run := wakes_once _ reads produced sent popped
    obtain ⟨members, keySet, bound⟩ := covered _ _ _ _ (ready_empty ports) run
      (by simp [System.Built])
    obtain rfl := Option.some.inj (keySet.symm.trans ready'.shown.keySet)
    have again : s₂.sent (ports.getChannelName 0) = 1 := by
      rw [Server.sent, quiet]
      exact sent
    simp only [System.wakeUps, System.unread, System.isDue, less, one] at bound
    rw [again] at bound
    simp [c] at bound
  · let t : TableBase := ⟨ascii " PORT", .colon⟩
    let c : ConsumerStateTable := ⟨t, 1⟩
    let p : ProducerStateTable := ⟨t, 0, false, false⟩
    have watch : Hiredis.blanks.words (ascii "WATCH " ++ t.getKeySetName) =
      [ascii "WATCH", ports.getKeySetName] := by decide
    have count : Hiredis.blanks.words (ascii "SCARD " ++ t.getKeySetName) =
      [ascii "SCARD", ports.getKeySetName] := by decide
    have channel : Hiredis.blanks.words (ascii "SUBSCRIBE " ++ t.getChannelName 0) =
      [ascii "SUBSCRIBE", ports.getChannelName 0] := by decide
    have produced : SingleKey t 0 ⟨∅, []⟩ () (.set p (ascii "Ethernet0") []) _ () :=
      .set rfl rfl rfl
    obtain ⟨st, ready, one, published⟩ := set_alone t
    generalize (p.set (ascii "Ethernet0") [] ⟨∅, []⟩).2 = s₁ at produced ready published
    have run : Run (Step .blanks (c.consumer 0) .pops (SingleKey t 0))
        (.construct (c.consumer 0) ⟨∅, []⟩ ()) _ _ :=
      (constructs watch count channel rfl).append (.single (.produce produced))
    obtain ⟨members, keySet, bound⟩ := covered _ _ _ _ (ready_empty t) run (by simp [System.Built])
    obtain rfl := Option.some.inj (keySet.symm.trans ready.shown.keySet)
    have unheard : s₁.sent (ports.getChannelName 0) = 0 := by
      rw [Server.sent, published]
      decide
    simp only [System.wakeUps, System.unread, System.isDue, one, unheard] at bound
    simp at bound

end Ports

end Consumer

end SwssCommon
