import SwssCommon.Consumer.Awake
import SwssCommon.StateTable.KeySet

/-! # Wake-ups for state tables

A script publishes once, however many keys it adds. If it adds one the message pays for it. A script
that adds more, a view switch or a pipeline that publishes once is paid for only as far as the
consumer's batches reach.
-/

namespace SwssCommon

open Bytes Redis Script List ConsumerStateTable ProducerStateTable Consumer

/-! ## The consumer serves the key set -/

def KeySetSize (t : TableBase) (s : Server) (n : Nat) : Prop :=
  ∃ st, Ready t s.keyspace st ∧ st.dirty.card = n

/-- The commands of the constructor are read as they are written. -/
structure ConsumerStateTable.Reads (hiredis : Hiredis) (c : ConsumerStateTable) (dbId : Nat) :
    Prop where
  watch : hiredis.words (ascii "WATCH " ++ c.getKeySetName) = [ascii "WATCH", c.getKeySetName]
  count : hiredis.words (ascii "SCARD " ++ c.getKeySetName) = [ascii "SCARD", c.getKeySetName]
  channel : hiredis.words (ascii "SUBSCRIBE " ++ c.getChannelName dbId) =
    [ascii "SUBSCRIBE", c.getChannelName dbId]

namespace ConsumerStateTable

variable {hiredis : Hiredis} {c : ConsumerStateTable} {dbId : Nat}

theorem Reads.nulFree (reads : c.Reads hiredis dbId) : 0 ∉ c.tableName := by
  intro nul
  have plain := hiredis.nulFree _ c.getKeySetName (by rw [reads.count]; simp)
  exact plain (mem_append_left _ nul)

theorem serves (reads : c.Reads hiredis dbId) :
    (c.consumer dbId).Serves hiredis (KeySetSize c.toTableBase) (c.getChannelName dbId)
      c.POP_BATCH_SIZE where
  subscribes := ⟨ascii "SUBSCRIBE " ++ c.getChannelName dbId, by simp [consumer, program]⟩
  listensOn text name member read := by
    simp only [consumer, program, mem_cons, not_mem_nil, or_false, reduceCtorEq,
      false_or, Instruction.subscribe.injEq] at member
    rw [member, reads.channel] at read
    simpa using read.symm
  counts {s n first more} backlog replies := by
    obtain ⟨st, ready, rfl⟩ := backlog
    have commands : queued (c.consumer dbId).program = [ascii "SCARD " ++ c.getKeySetName] := rfl
    have count : integerReply s (hiredis.words (ascii "SCARD " ++ c.getKeySetName)) =
        some (st.dirty.card : Int) := by
      rw [reads.count, integerReply, ready.shown.keySet]
      rfl
    rw [commands, mapM_cons, count] at replies
    have same : (st.dirty.card : Int) = first ∧ [] = more := by simpa using replies
    exact same.1.symm
  pops {s n out} backlog popped := by
    obtain ⟨st, ready, rfl⟩ := backlog
    obtain ⟨choice, rfl⟩ := popped
    obtain ⟨vkco, s', ran, length, quiet, st', ready', less⟩ :=
      pops_takes choice reads.nulFree ready
    rw [ran]
    exact ⟨⟨st', ready', less⟩, by simp only [Server.sent, quiet], length⟩

theorem constructs {ρ π mode producers}
    {Produce : Server → ρ → π → Server → ρ → Prop} {s watched counted channel}
    {members}
    (watch : hiredis.words (ascii "WATCH " ++ c.getKeySetName) = [ascii "WATCH", watched])
    (count : hiredis.words (ascii "SCARD " ++ c.getKeySetName) = [ascii "SCARD", counted])
    (subscribe : hiredis.words (ascii "SUBSCRIBE " ++ c.getChannelName dbId) =
      [ascii "SUBSCRIBE", channel])
    (keySet : s.keyspace.setAt counted = some members) :
    Run (Step hiredis (c.consumer dbId) mode Produce)
      (.construct (c.consumer dbId) s producers)
      [.construct, .construct, .construct, .construct, .construct]
      ⟨s, producers, some ⟨channel, s.sent channel⟩, ⟨members.card⟩, [], .waiting⟩ := by
  have replies : [ascii "SCARD " ++ c.getKeySetName].mapM
      (fun text => integerReply s (hiredis.words text)) = some [(members.card : Int)] := by
    rw [mapM_cons, count, integerReply, keySet]
    rfl
  refine .cons (.construct (.watch rfl rfl watch)) (.cons (.construct (.multi rfl rfl))
    (.cons (.construct (.enqueue rfl rfl)) (.cons (.construct (.subscribe rfl rfl subscribe))
    (.single (.construct (.exec rfl rfl ?_ replies))))))
  rintro k v ⟨⟩
  rfl

theorem wakes_once {ρ π producers producers' call}
    {Produce : Server → ρ → π → Server → ρ → Prop} {s₁} (out : Popped)
    (reads : c.Reads hiredis dbId) (produced : Produce ⟨∅, []⟩ producers call s₁ producers')
    (sent : s₁.sent (c.getChannelName dbId) = 1) (popped : (c.consumer dbId).Pops s₁ out) :
    Run (Step hiredis (c.consumer dbId) .pops Produce)
      (.construct (c.consumer dbId) ⟨∅, []⟩ producers)
      ([.construct, .construct, .construct, .construct, .construct] ++
        [.produce call, .read (0 + 1), .object, .pop])
      ⟨out.server, producers', some ⟨c.getChannelName dbId, 1⟩, ⟨0⟩, [], .waiting⟩ := by
  refine (constructs reads.watch reads.count reads.channel rfl).append ?_
  refine .cons (.produce produced) (.cons (.read ?_ rfl ?_) (.cons (.object rfl rfl)
    (.single (.pops rfl rfl popped))))
  · simp [System.Built]
  · simp only [System.unread, sent]
    exact le_rfl

end ConsumerStateTable

namespace StateTable

variable {t : TableBase} {dbId : Nat} {s s' : Server} {p : ProducerStateTable}

theorem sent_announcement {added} (here : p.toTableBase = t) (same : p.dbId = dbId)
    (published : s'.published = s.published ++ p.announcement added) :
    s'.sent (t.getChannelName dbId) =
      s.sent (t.getChannelName dbId) + if p.publishes ∧ 0 < added then 1 else 0 := by
  subst here same
  rw [Server.sent, published, countP_append, ← Server.sent]
  by_cases talks : p.publishes ∧ 0 < added
  · rw [announcement, if_pos talks, if_pos talks]
    simp
  · rw [announcement, if_neg talks, if_neg talks]
    simp

/-! ## One key at a time -/

inductive SingleKeyCall where
  | set (p : ProducerStateTable) (key : Bytes) (values : List FieldValueTuple)
  | del (p : ProducerStateTable) (key : Bytes)

inductive SingleKey (t : TableBase) (dbId : Nat) :
    Server → Unit → SingleKeyCall → Server → Unit → Prop where
  | set {s : Server} {p : ProducerStateTable} {key : Bytes} {values : List FieldValueTuple} :
      p.toTableBase = t → p.dbId = dbId → p.publishes = true →
      SingleKey t dbId s () (.set p key values) (p.set key values s).2 ()
  | del {s : Server} {p : ProducerStateTable} {key : Bytes} :
      p.toTableBase = t → p.dbId = dbId → p.publishes = true →
      SingleKey t dbId s () (.del p key) (p.del key s).2 ()

theorem SingleKey.posts {mode sys call}
    {server} (produced : SingleKey t dbId sys.server sys.producers call server ()) :
    Posts mode (KeySetSize t) (t.getChannelName dbId) 1 (fun _ => 0) sys server () := by
  -- both calls add their key, publishing if it is new
  obtain ⟨p, key, here, same, publishes, adds⟩ : ∃ (p : ProducerStateTable) (key : Bytes),
      p.toTableBase = t ∧ p.dbId = dbId ∧ p.publishes ∧
        ∀ st, Ready p.toTableBase sys.server.keyspace st → p.Adds sys.server st [key] server := by
    cases produced with
    | @set p key values here same publishes =>
      exact ⟨p, key, here, same, publishes, fun st => set_adds key values⟩
    | @del p key here same publishes =>
      exact ⟨p, key, here, same, publishes, fun st => del_adds key⟩
  rintro n ⟨st, ready, rfl⟩ -
  obtain ⟨st', ready', dirty, published⟩ := adds st (here ▸ ready)
  have sent := sent_announcement here same published
  refine ⟨by omega, st'.dirty.card, ⟨st', here ▸ ready', rfl⟩, fun _ covers => ?_⟩
  have grown : st'.dirty.card ≤ st.dirty.card + 1 := by
    rw [dirty]
    exact (Finset.card_union_le _ _).trans (by simp)
  refine (covers.post (server.sent (t.getChannelName dbId) -
    sys.server.sent (t.getChannelName dbId))).of_le ?_
  rw [sent]
  simp only [publishes, true_and]
  split
  · omega
  · omega

/-! ## Many keys at a time -/

inductive Command where
  | set (key : Bytes) (values : List FieldValueTuple)
  | del (key : Bytes)
  | batchedSet (values : List KeyOpFieldsValuesTuple)
  | batchedDel (keys : List Bytes)
  | clear
  | applyView (diff : ProducerStateTable.ViewDiff)

namespace Command

def script (p : ProducerStateTable) : Command → Script Unit
  | .set key values => p.set key values
  | .del key => p.del key
  | .batchedSet values => p.batchedSet values
  | .batchedDel names => p.batchedDel names
  | .clear => p.clear
  | .applyView diff => p.applyView diff

def keys : Command → List Bytes
  | .set key _ => [key]
  | .del key => [key]
  | .batchedSet values => values.map (·.kfvKey)
  | .batchedDel keys => keys
  | .clear => []
  | .applyView diff => diff.keysToSet

def keySet (members : Finset Bytes) : Command → Finset Bytes
  | .clear => ∅
  | command => members ∪ command.keys.toFinset

def messages (p : ProducerStateTable) (members : Finset Bytes) : Command → Nat
  | .clear => 0
  | .applyView _ => 1
  | command => if p.publishes ∧ ¬ command.keys.toFinset ⊆ members then 1 else 0

private theorem grown_iff (members more : Finset Bytes) :
    0 < (members ∪ more).card - members.card ↔ ¬ more ⊆ members := by
  rw [Nat.sub_pos_iff_lt, ← not_iff_not, not_not, not_lt]
  constructor
  · intro small
    have same := Finset.eq_of_subset_of_card_le Finset.subset_union_left small
    exact Finset.union_eq_left.mp same.symm
  · intro inside
    rw [Finset.union_eq_left.mpr inside]

private theorem runs_of_adds (command : Command) {st} (here : p.toTableBase = t)
    (same : p.dbId = dbId) (adds : p.Adds s st command.keys s') :
    ∃ st', Ready t s'.keyspace st' ∧ st'.dirty = st.dirty ∪ command.keys.toFinset ∧
      s'.sent (t.getChannelName dbId) = s.sent (t.getChannelName dbId) +
        if p.publishes ∧ ¬ command.keys.toFinset ⊆ st.dirty then 1 else 0 := by
  obtain ⟨st', ready, dirty, published⟩ := adds
  have sent := sent_announcement here same published
  simp only [dirty, grown_iff] at sent
  exact ⟨st', here ▸ ready, dirty, sent⟩

theorem runs (command : Command) {st} (here : p.toTableBase = t)
    (same : p.dbId = dbId) (ready : Ready t s.keyspace st) :
    ∃ st', Ready t (command.script p s).2.keyspace st' ∧ st'.dirty = command.keySet st.dirty ∧
      (command.script p s).2.sent (t.getChannelName dbId) =
        s.sent (t.getChannelName dbId) + command.messages p st.dirty := by
  have ready' : Ready p.toTableBase s.keyspace st := here ▸ ready
  cases command with
  | set key values =>
    exact runs_of_adds (.set key values) here same (set_adds key values ready')
  | del key =>
    exact runs_of_adds (.del key) here same (del_adds key ready')
  | batchedSet values =>
    exact runs_of_adds (.batchedSet values) here same (batchedSet_adds values ready')
  | batchedDel keys =>
    exact runs_of_adds (.batchedDel keys) here same (batchedDel_adds keys ready')
  | clear =>
    obtain ⟨st', after, empty, quiet⟩ := clear_empties ready'
    exact ⟨st', here ▸ after, empty, congrArg (countP _) quiet⟩
  | applyView diff =>
    obtain ⟨st', after, dirty, published⟩ := (applyView_adds diff ready').finalState
    refine ⟨st', here ▸ after, dirty, ?_⟩
    subst here same
    change countP _ (p.applyView diff s).2.published = _
    rw [published]
    simp [Server.sent, messages]

end Command

/-- `RedisPipeline::publish`: one message on every channel of the pipeline. -/
def publishAll (channels : List Bytes) : Script Unit :=
  foldEach channels () fun channel _ => publish channel (ascii "G")

theorem publishAll_ensures (channels : List Bytes) :
    Ensures (publishAll channels) s fun _ s' => s'.keyspace = s.keyspace ∧
      ∀ channel, s'.sent channel = s.sent channel + channels.count channel := by
  refine foldEach_ensures (fun seen _ s' => s'.keyspace = s.keyspace ∧
    ∀ channel, s'.sent channel = s.sent channel + seen.count channel) ⟨rfl, by simp⟩ ?_
  rintro seen name rest ⟨⟩ s' - ⟨kept, counted⟩
  refine publish_ensures ⟨kept, fun channel => ?_⟩
  have before := counted channel
  simp only [Server.sent, countP_append, count_append] at before ⊢
  rw [before, Nat.add_assoc, count_singleton]
  simp

inductive Action where
  | command (pipe : Nat) (p : ProducerStateTable) (command : Command)
  | flush (pipe : Nat) (channels : List Bytes)

/-- The pipelines that owe a message after a command of `p` went through `pipe`. -/
def owing (p : ProducerStateTable) (pipe : Nat) (unflushed : Finset Nat) : Finset Nat :=
  if p.publishes then unflushed else insert pipe unflushed

/-- Where the scripts do not publish by themselves, the call is in progress until the pipeline is
    flushed. -/
inductive Piped (t : TableBase) (dbId : Nat) :
    Server → Finset Nat → Action → Server → Finset Nat → Prop where
  | command {s : Server} {unflushed : Finset Nat} {pipe : Nat} {p : ProducerStateTable}
      {command : Command} :
      p.toTableBase = t → p.dbId = dbId →
      Piped t dbId s unflushed (.command pipe p command) (command.script p s).2
        (owing p pipe unflushed)
  | flush {s : Server} {unflushed : Finset Nat} {pipe : Nat} {channels : List Bytes} :
      (pipe ∈ unflushed → t.getChannelName dbId ∈ channels) →
      Piped t dbId s unflushed (.flush pipe channels) (publishAll channels s).2
        (unflushed.erase pipe)

/-- A script whose keys the batches of all tokens to come can take. -/
def Fits (t : TableBase) (batch : Nat) (sys : System (Finset Nat)) :
    Event Action → Prop
  | .produce (.command pipe p command) =>
    sys.Built → ∀ members, sys.server.keyspace.setAt t.getKeySetName = some members →
      ((command.keySet members).card : Int) ≤ batch *
        (sys.tokens.outstanding + command.messages p members + (owing p pipe sys.producers).card)
  | _ => True

theorem Piped.posts {sys action server}
    {unflushed batch}
    (produced : Piped t dbId sys.server sys.producers action server unflushed)
    (fits : Fits t batch sys (.produce action)) :
    Posts .pops (KeySetSize t) (t.getChannelName dbId) batch Finset.card sys server
      unflushed := by
  obtain ⟨s, pipelines, subscription, select, buffer, phase⟩ := sys
  rintro n ⟨st, ready, rfl⟩ bare
  cases produced with
  | @command pipe p command here same =>
    obtain ⟨st', ready', dirty, sent⟩ := command.runs here same ready
    refine ⟨by simp only [sent]; omega, _, ⟨st', ready', rfl⟩, fun built covers => ?_⟩
    refine ⟨covers.counted, ?_⟩
    have empty : buffer = [] := bare rfl
    have enough := fits built st.dirty ready.shown.keySet
    simp only [sent, Nat.add_sub_cancel_left, Tokens.outstanding_post, dirty, empty,
      length_nil, Nat.add_zero]
    simpa only [empty] using enough
  | @flush pipe channels registered =>
    obtain ⟨kept, sent⟩ := (publishAll_ensures channels (s := s)).finalState
    refine ⟨by simp only [sent]; omega, _, ⟨st, by rwa [kept], rfl⟩, fun built covers => ?_⟩
    refine ⟨covers.counted, covers.enough.trans ?_⟩
    simp only [sent, Tokens.outstanding_post]
    apply mul_le_mul_of_nonneg_left _ (Int.natCast_nonneg batch)
    -- what the pipeline owed it has now published
    have paid : pipelines.card ≤ (pipelines.erase pipe).card +
        channels.count (t.getChannelName dbId) := by
      by_cases owes : pipe ∈ pipelines
      · have published := count_pos_iff.mpr (registered owes)
        have dropped := Finset.card_erase_add_one owes
        omega
      · rw [Finset.erase_eq_of_notMem owes]
        omega
    omega

/-- Keys left over have a wake-up outstanding, unless a producer is still at work. -/
def Answered (t : TableBase) (sys : System (Finset Nat)) : Prop :=
  sys.Built → sys.producers = ∅ →
    ∀ members, sys.server.keyspace.setAt t.getKeySetName = some members → members.Nonempty →
      0 < sys.unread ∨ 0 < sys.select.queueLength ∨ sys.phase = .due

/-- As long as every script fits, keys left over have a wake-up outstanding. -/
theorem batches_answered {hiredis : Hiredis} {c : ConsumerStateTable} {dbId : Nat} {s : Server}
    {st : StateStore} {events : List (Event Action)} {sys : System (Finset Nat)}
    (reads : c.Reads hiredis dbId) (batch : 1 ≤ c.POP_BATCH_SIZE)
    (start : Ready c.toTableBase s.keyspace st)
    (run : Run (fun sys event sys' =>
      Consumer.Step hiredis (c.consumer dbId) .pops (Piped c.toTableBase dbId) sys event sys' ∧
        Fits c.toTableBase c.POP_BATCH_SIZE sys event)
      (.construct (c.consumer dbId) s ∅) events sys) :
    Answered c.toTableBase sys := by
  have awake := run.invariant (I := fun _ => Awake (c.consumer dbId) .pops
    (KeySetSize c.toTableBase) (c.getChannelName dbId) c.POP_BATCH_SIZE Finset.card)
    (awake_construct ⟨st, start, rfl⟩) fun awake ⟨taken, fits⟩ =>
      awake.step (serves reads) batch le_rfl (by simp)
        (fun call server producers event produced => Piped.posts produced (event ▸ fits)) taken
  intro built idle members keySet left
  obtain ⟨n, ⟨st', ready, rfl⟩, bare, -, covers⟩ := awake.covers built
  rw [idle, Finset.card_empty, bare rfl, length_nil, Nat.add_zero] at covers
  obtain rfl := Option.some.inj (keySet.symm.trans ready.shown.keySet)
  have woken := covers.outstanding_pos (Finset.card_pos.mpr left)
  have counted := covers.counted
  simp only [Tokens.outstanding, System.tokens] at woken counted
  cases phase : sys.phase with
  | constructing construction => exact absurd phase (built construction)
  | waiting =>
    simp only [System.isDue, phase, Bool.toNat_false] at woken
    omega
  | due => exact .inr (.inr rfl)

section TwoKeys

private def portTable : TableBase := ⟨ascii "PORT_TABLE", .colon⟩

private def portProducer : ProducerStateTable := ⟨portTable, 0, false, false⟩

private def twoPorts : List KeyOpFieldsValuesTuple :=
  [⟨ascii "Ethernet0", SET_COMMAND, []⟩, ⟨ascii "Ethernet4", SET_COMMAND, []⟩]

/-- With room for both keys in a batch the message suffices. -/
theorem batches_answered_two_keys :
    let c : ConsumerStateTable := ⟨portTable, 2⟩
    let events : List (Consumer.Event Action) :=
      [.construct, .construct, .construct, .construct, .construct] ++
        [.produce (.command 0 portProducer (.batchedSet twoPorts))]
    ∃ sys, Run (Consumer.Step .blanks (c.consumer 0) .pops (Piped portTable 0))
        (.construct (c.consumer 0) ⟨∅, []⟩ ∅) events sys ∧
      Answered portTable sys := by
  intro c events
  have reads : ConsumerStateTable.Reads .blanks ⟨portTable, 2⟩ 0 :=
    ⟨by decide, by decide, by decide⟩
  have built : Run (Consumer.Step .blanks (c.consumer 0) .pops (Piped portTable 0))
      (.construct (c.consumer 0) ⟨∅, []⟩ ∅) _ _ :=
    constructs reads.watch reads.count reads.channel rfl
  have fitting : Run (fun sys event sys' =>
      Consumer.Step .blanks (c.consumer 0) .pops (Piped portTable 0) sys event sys' ∧
        Fits portTable 2 sys event) _ _ _ :=
    built.mono fun member taken => ⟨taken, by simp_all [Fits]⟩
  have run := fitting.snoc (l := .produce (.command 0 portProducer (.batchedSet twoPorts)))
    ⟨.produce (.command rfl rfl), by
      rintro - members ⟨⟩
      decide⟩
  exact ⟨_, run.mono fun _ taken => taken.1,
    batches_answered reads (by decide) (ready_empty portTable) run⟩

/-- Popped one at a time, one of the two keys stays behind: the script has published once. -/
theorem batch_unanswered :
    let c : ConsumerStateTable := ⟨portTable, 1⟩
    ∃ events sys, Run (Consumer.Step .blanks (c.consumer 0) .pops (Piped portTable 0))
        (.construct (c.consumer 0) ⟨∅, []⟩ ∅) events sys ∧
      ¬ Answered portTable sys := by
  intro c
  have reads : ConsumerStateTable.Reads .blanks ⟨portTable, 1⟩ 0 :=
    ⟨by decide, by decide, by decide⟩
  let command : Command := .batchedSet twoPorts
  obtain ⟨st, ready, two, sent⟩ := command.runs (p := portProducer) (s := ⟨∅, []⟩) rfl
    (rfl : portProducer.dbId = 0) (ready_empty portTable)
  have produced : Piped portTable 0 ⟨∅, []⟩ ∅ (.command 0 portProducer command)
      (command.script portProducer ⟨∅, []⟩).2 ∅ := .command rfl rfl
  generalize (command.script portProducer ⟨∅, []⟩).2 = s₁ at ready sent produced
  have once : s₁.sent (portTable.getChannelName 0) = 1 := sent.trans (by decide)
  obtain ⟨vkco, s₂, ran, -, quiet, st', ready', less⟩ :=
    pops_takes (c := c) .listed reads.nulFree ready
  have popped : (c.consumer 0).Pops s₁ ⟨vkco, false, s₂⟩ := ⟨.listed, by rw [ran]⟩
  refine ⟨_, _, wakes_once _ reads produced once popped, fun answered => ?_⟩
  have left : st'.dirty.Nonempty := by
    rw [← Finset.card_pos, less, two]
    decide
  have again : s₂.sent (portTable.getChannelName 0) = 1 := by rw [Server.sent, quiet]; exact once
  rcases answered (by simp [System.Built]) rfl st'.dirty ready'.shown.keySet left with
    unread | counted | due
  · simp only [System.unread] at unread
    exact absurd (again ▸ unread : 0 < 1 - 1) (lt_irrefl 0)
  · exact absurd counted (lt_irrefl 0)
  · cases due

end TwoKeys

end StateTable

end SwssCommon
