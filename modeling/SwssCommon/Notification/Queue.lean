import SwssCommon.Lib.Bytes
import SwssCommon.Lib.OrderedMap
import SwssCommon.Lib.Recency

/-! # Queues of notifications

One queue is first in, first out. The other holds every payload once, and pushing it again moves it
to the tail: a linked list with an index from payloads to nodes, and four counters.
-/

namespace SwssCommon

open Touch Std.ExtTreeMap UInt64

structure NotificationQueueBase (Q : Type) where
  push : Q → Bytes → Q
  front : Q → Option Bytes
  pop : Q → Q
  empty : Q → Bool
  size : Q → Nat

/-- `FifoNotificationQueue`. -/
def FifoNotificationQueue : NotificationQueueBase (List Bytes) where
  push q msg := q ++ [msg]
  front := List.head?
  pop := List.tail
  empty := List.isEmpty
  size := List.length

structure ListNode where
  address : Nat
  payload : Bytes
  deriving DecidableEq

/-- The depth and its maximum count nodes in memory. The other two counters only grow,
    and wrap. -/
structure LruDedupNotificationQueue where
  dq : List ListNode
  idx : Std.ExtTreeMap Bytes Nat compare
  pushed : UInt64
  dedupHits : UInt64
  highWatermark : Nat
  currentDepth : Nat
  /-- Where the next node will be. -/
  fresh : Nat

namespace LruDedupNotificationQueue

def start : LruDedupNotificationQueue where
  dq := []
  idx := ∅
  pushed := 0
  dedupHits := 0
  highWatermark := 0
  currentDepth := 0
  fresh := 0

/-- `push_back`, an entry in the index, and the counters. -/
def insertBack (q : LruDedupNotificationQueue) (msg : Bytes) (wasDedupHit : Bool) :
    LruDedupNotificationQueue :=
  let cur := if wasDedupHit then q.currentDepth else q.currentDepth + 1
  { dq := q.dq ++ [⟨q.fresh, msg⟩]
    idx := q.idx.insert msg q.fresh
    pushed := q.pushed + 1
    dedupHits := if wasDedupHit then q.dedupHits + 1 else q.dedupHits
    highWatermark := if cur > q.highWatermark then cur else q.highWatermark
    currentDepth := cur
    fresh := q.fresh + 1 }

def push (q : LruDedupNotificationQueue) (msg : Bytes) : LruDedupNotificationQueue :=
  match q.idx[msg]? with
  | some it => insertBack { q with
      dq := q.dq.filter (·.address ≠ it)
      idx := q.idx.erase msg } msg true
  | none => insertBack q msg false

def front (q : LruDedupNotificationQueue) : Option Bytes :=
  q.dq.head?.map (·.payload)

def pop (q : LruDedupNotificationQueue) : LruDedupNotificationQueue :=
  match q.dq with
  | [] => q
  | node :: dq => { q with
      dq := dq
      idx := if node.payload ∈ q.idx then q.idx.erase node.payload else q.idx
      currentDepth := q.currentDepth - 1 }

def empty (q : LruDedupNotificationQueue) : Bool :=
  q.dq.isEmpty

def size (q : LruDedupNotificationQueue) : Nat :=
  q.dq.length

def content (q : LruDedupNotificationQueue) : List Bytes :=
  q.dq.map (·.payload)

inductive Call where
  | push (msg : Bytes)
  | pop

/-- A queue and what has happened to payloads. Nothing happens to any if the queue
    that is popped is empty. -/
def call (state : LruDedupNotificationQueue × List (Touch Bytes)) :
    Call → LruDedupNotificationQueue × List (Touch Bytes)
  | .push msg => (state.1.push msg, state.2 ++ [put msg])
  | .pop => (state.1.pop, state.2 ++ (state.1.front.map take).toList)

def run (calls : List Call) : LruDedupNotificationQueue × List (Touch Bytes) :=
  calls.foldl call (start, [])

theorem run_append (calls : List Call) (last : Call) :
    run (calls ++ [last]) = call (run calls) last := by
  simp [run]

/-! ## The representation -/

/-- The list holds what is there by its latest push, at pairwise different addresses, and
    the index has an entry for each node and no other. -/
structure Represents (q : LruDedupNotificationQueue) (events : List (Touch Bytes)) : Prop where
  content : q.content = live events
  addresses : (q.dq.map (·.address)).Nodup
  allocated : ∀ node ∈ q.dq, node.address < q.fresh
  index : ∀ msg address, q.idx[msg]? = some address ↔ ⟨address, msg⟩ ∈ q.dq

namespace Represents

variable {q : LruDedupNotificationQueue} {events : List (Touch Bytes)}

theorem nodup (represents : Represents q events) : q.content.Nodup :=
  represents.content ▸ live_nodup events

variable {msg : Bytes}

theorem address_eq_iff (represents : Represents q events) {it} (found : q.idx[msg]? = some it)
    {node} (member : node ∈ q.dq) : node.address = it ↔ node.payload = msg := by
  have pointed : ⟨it, msg⟩ ∈ q.dq := (represents.index msg it).mp found
  constructor
  · intro same
    have equal := List.inj_on_of_nodup_map represents.addresses member pointed same
    rw [equal]
  · intro same
    have entry := (represents.index node.payload node.address).mpr member
    rw [same, found] at entry
    exact (Option.some.inj entry).symm

theorem erased (represents : Represents q events) {it} (found : q.idx[msg]? = some it) :
    (q.dq.filter (·.address ≠ it)) = q.dq.filter (·.payload ≠ msg) := by
  apply List.filter_congr
  intro node member
  simp [represents.address_eq_iff found member]

theorem map_filter_payload (nodes : List ListNode) (msg : Bytes) :
    (nodes.filter (·.payload ≠ msg)).map (·.payload) =
      (nodes.map (·.payload)).filter (· ≠ msg) := by
  rw [List.filter_map]
  rfl

theorem insertBack (represents : Represents q events) (gone : msg ∉ q.content)
    (hit : Bool) : Represents (q.insertBack msg hit) (events ++ [put msg]) where
  content := by
    rw [live_append_put, ← represents.content]
    have others : q.content.filter (· ≠ msg) = q.content :=
      List.filter_eq_self.mpr fun payload member => by
        simpa using fun same : payload = msg => gone (same ▸ member)
    rw [others]
    simp [LruDedupNotificationQueue.content, LruDedupNotificationQueue.insertBack]
  addresses := by
    simp only [LruDedupNotificationQueue.insertBack, List.map_append]
    apply List.Nodup.append represents.addresses (List.nodup_singleton _)
    rw [List.disjoint_singleton]
    intro member
    obtain ⟨node, inside, same⟩ := List.mem_map.mp member
    exact Nat.lt_irrefl _ (same ▸ represents.allocated node inside)
  allocated := by
    intro node member
    rcases List.mem_append.mp member with before | last
    · exact Nat.lt_succ_of_lt (represents.allocated node before)
    · obtain rfl := List.mem_singleton.mp last
      exact Nat.lt_succ_self _
  index := by
    intro other address
    simp only [LruDedupNotificationQueue.insertBack, getElem?_insert,
      Std.LawfulEqCmp.compare_eq_iff_eq]
    split
    · rename_i same
      subst same
      have absent : ⟨address, msg⟩ ∉ q.dq := fun member => gone (List.mem_map_of_mem member)
      simp [absent, eq_comm]
    · rename_i different
      rw [represents.index other address]
      simp [Ne.symm different]

theorem without (represents : Represents q events) (msg : Bytes) :
    Represents { q with
      dq := q.dq.filter (·.payload ≠ msg)
      idx := q.idx.erase msg } (events ++ [take msg]) where
  content := by
    rw [live_append_take, ← represents.content]
    exact map_filter_payload q.dq msg
  addresses := represents.addresses.sublist (List.filter_sublist.map _)
  allocated := fun node member => represents.allocated node (List.mem_of_mem_filter member)
  index := by
    intro other address
    simp only [getElem?_erase, Std.LawfulEqCmp.compare_eq_iff_eq]
    split
    · rename_i same
      simp [same]
    · rename_i different
      rw [represents.index other address]
      simp [Ne.symm different]

theorem of_live_eq (represents : Represents q events) {events'}
    (same : live events = live events') : Represents q events' :=
  ⟨represents.content.trans same, represents.addresses, represents.allocated, represents.index⟩

theorem found_of_mem (represents : Represents q events) (member : msg ∈ q.content) :
    ∃ it, q.idx[msg]? = some it := by
  obtain ⟨node, inside, rfl⟩ := List.mem_map.mp member
  exact ⟨node.address, (represents.index _ _).mpr inside⟩

theorem push (represents : Represents q events) (msg : Bytes) :
    Represents (q.push msg) (events ++ [put msg]) := by
  unfold LruDedupNotificationQueue.push
  split
  · rename_i it found
    rw [represents.erased found]
    have gone : msg ∉ (q.dq.filter (·.payload ≠ msg)).map (·.payload) := by
      simp
    apply ((represents.without msg).insertBack gone true).of_live_eq
    simp only [live_append_put, live_append_take, List.filter_filter, Bool.and_self]
  · rename_i absent
    apply represents.insertBack _ false
    intro member
    obtain ⟨it, found⟩ := represents.found_of_mem member
    rw [absent] at found
    cases found

theorem pop (represents : Represents q events) :
    Represents q.pop (events ++ (q.front.map take).toList) := by
  unfold LruDedupNotificationQueue.pop front
  cases nodes : q.dq with
  | nil => simpa using represents
  | cons node rest =>
    have distinct := represents.nodup
    rw [LruDedupNotificationQueue.content, nodes, List.map_cons, List.nodup_cons] at distinct
    have others : q.dq.filter (·.payload ≠ node.payload) = rest := by
      rw [nodes, List.filter_cons_of_neg (by simp), List.filter_eq_self]
      intro other member
      simpa using fun same : other.payload = node.payload =>
        distinct.1 (same ▸ List.mem_map_of_mem member)
    have indexed : node.payload ∈ q.idx := by
      rw [mem_iff_isSome_getElem?]
      have inside : ⟨node.address, node.payload⟩ ∈ q.dq := nodes ▸ List.mem_cons_self
      rw [(represents.index node.payload node.address).mpr inside]
      rfl
    have popped := represents.without node.payload
    rw [others] at popped
    simp only [if_pos indexed]
    exact ⟨popped.content, popped.addresses, popped.allocated, popped.index⟩

end Represents

/-! ## The counters -/

def takes (events : List (Touch Bytes)) : Nat :=
  events.countP fun | take _ => true | put _ => false

/-- The depth is the length of the list, and every push that was no hit added a node that
    is still there or was taken. -/
structure Counts (q : LruDedupNotificationQueue) (events : List (Touch Bytes)) : Prop where
  depth : q.currentDepth = q.size
  balance : q.pushed = q.dedupHits + ofNat q.size + ofNat (takes events)

namespace Counts

variable {q : LruDedupNotificationQueue} {events : List (Touch Bytes)}

theorem size_push_of_found (represents : Represents q events) {msg it}
    (found : q.idx[msg]? = some it) :
    (q.dq.filter (·.address ≠ it) ++ [(⟨q.fresh, msg⟩ : ListNode)]).length = q.size := by
  have member : msg ∈ q.content := List.mem_map_of_mem ((represents.index msg it).mp found)
  have lengths := congrArg List.length (represents.nodup.erase_eq_filter msg)
  rw [List.length_erase_of_mem member] at lengths
  have positive := List.length_pos_of_mem member
  rw [represents.erased found, List.length_append, List.length_singleton, size]
  have mapped := congrArg List.length (Represents.map_filter_payload q.dq msg)
  simp only [content, List.length_map] at lengths mapped positive
  have same : (q.dq.map (·.payload)).filter (· ≠ msg) =
      (q.dq.map (·.payload)).filter (· != msg) := by
    apply List.filter_congr
    intro payload _
    by_cases equal : payload = msg <;> simp [equal]
  rw [mapped, same]
  omega

theorem push (counts : Counts q events) (represents : Represents q events) (msg : Bytes) :
    Counts (q.push msg) (events ++ [put msg]) := by
  have taken : takes (events ++ [put msg]) = takes events := by simp [takes]
  unfold LruDedupNotificationQueue.push
  split
  · rename_i it found
    have size := size_push_of_found represents found
    refine ⟨counts.depth.trans size.symm, ?_⟩
    change q.pushed + 1 = q.dedupHits + 1 + ofNat
      (q.dq.filter (·.address ≠ it) ++ [(⟨q.fresh, msg⟩ : ListNode)]).length + _
    rw [size, taken, counts.balance]
    ac_rfl
  · have size : (q.insertBack msg false).size = q.size + 1 := by
      simp [LruDedupNotificationQueue.size, insertBack]
    refine ⟨?_, ?_⟩
    · rw [size, ← counts.depth]
      rfl
    · change q.pushed + 1 = q.dedupHits + ofNat (insertBack q msg false).size + _
      rw [size, taken, counts.balance, ofNat_add]
      ac_rfl

theorem pop (counts : Counts q events) : Counts q.pop (events ++ (q.front.map take).toList) := by
  have depth := counts.depth
  have balance := counts.balance
  unfold LruDedupNotificationQueue.pop front
  unfold size at depth balance
  cases nodes : q.dq with
  | nil => simpa using counts
  | cons node rest =>
    rw [nodes, List.length_cons] at depth balance
    refine ⟨?_, ?_⟩
    · simp [size, depth]
    · have taken : takes (events ++ [take node.payload]) = takes events + 1 := by simp [takes]
      simp only [List.head?_cons, Option.map_some, Option.toList_some, size, taken]
      rw [balance, ofNat_add, ofNat_add]
      ac_rfl

end Counts

/-! ## Whole histories -/

def sizes (calls : List Call) : Set Nat :=
  { n | ∃ before, before <+: calls ∧ n = (run before).1.size }

theorem sizes_append (calls : List Call) (last : Call) :
    sizes (calls ++ [last]) = insert (run (calls ++ [last])).1.size (sizes calls) := by
  ext n
  constructor
  · rintro ⟨before, initial, rfl⟩
    rcases List.prefix_concat_iff.mp initial with rfl | earlier
    · exact .inl rfl
    · exact .inr ⟨before, earlier, rfl⟩
  · rintro (rfl | ⟨before, initial, rfl⟩)
    · exact ⟨_, List.prefix_refl _, rfl⟩
    · exact ⟨before, initial.trans (List.prefix_append _ _), rfl⟩

theorem insertBack_highWatermark (q : LruDedupNotificationQueue) (msg : Bytes) (hit : Bool) :
    (q.insertBack msg hit).highWatermark =
      max (q.insertBack msg hit).currentDepth q.highWatermark := by
  simp only [insertBack]
  generalize (if hit then q.currentDepth else q.currentDepth + 1) = cur
  split <;> omega

theorem push_highWatermark (q : LruDedupNotificationQueue) (msg : Bytes) :
    (q.push msg).highWatermark = max (q.push msg).currentDepth q.highWatermark := by
  unfold push
  split
  · exact insertBack_highWatermark _ msg true
  · exact insertBack_highWatermark q msg false

theorem pop_highWatermark (q : LruDedupNotificationQueue) :
    q.pop.highWatermark = q.highWatermark := by
  unfold pop
  split <;> rfl

theorem pop_size_le (q : LruDedupNotificationQueue) : q.pop.size ≤ q.size := by
  unfold pop size
  split
  · exact le_rfl
  · rename_i node rest nodes
    simp [nodes]

theorem run_invariant (calls : List Call) :
    Represents (run calls).1 (run calls).2 ∧ Counts (run calls).1 (run calls).2 ∧
      IsGreatest (sizes calls) (run calls).1.highWatermark := by
  induction calls using List.reverseRecOn with
  | nil =>
    refine ⟨⟨rfl, List.nodup_nil, by simp [run, start], by simp [run, start]⟩, ⟨rfl, rfl⟩, ?_⟩
    constructor
    · exact ⟨[], List.prefix_refl _, rfl⟩
    · rintro n ⟨before, initial, rfl⟩
      obtain rfl := List.prefix_nil.mp initial
      exact le_rfl
  | append_singleton calls last ih =>
    obtain ⟨represents, counts, greatest⟩ := ih
    rw [sizes_append, run_append]
    cases last with
    | push msg =>
      have counted := counts.push represents msg
      refine ⟨represents.push msg, counted, ?_⟩
      change IsGreatest _ ((run calls).1.push msg).highWatermark
      rw [push_highWatermark, counted.depth]
      exact greatest.insert _
    | pop =>
      refine ⟨represents.pop, counts.pop, ?_⟩
      change IsGreatest (insert (run calls).1.pop.size _) (run calls).1.pop.highWatermark
      have noMore : (run calls).1.pop.size ≤ (run calls).1.highWatermark :=
        (pop_size_le _).trans (greatest.2 ⟨calls, List.prefix_refl _, rfl⟩)
      rw [pop_highWatermark, ← max_eq_right noMore]
      exact greatest.insert _

/-- After any calls the queue has the payloads pushed since they were last popped, by their latest
    push, an index entry at each node and at nothing else, and counters that add up. -/
theorem queue_refines (calls : List Call) :
    let q := (run calls).1
    let events := (run calls).2
    q.content = live events ∧
      (q.content.Nodup ∧ (q.dq.map (·.address)).Nodup ∧
        ∀ msg address, q.idx[msg]? = some address ↔ ⟨address, msg⟩ ∈ q.dq) ∧
      (∀ msg, q.front = some msg → ∃ earlier later, events = earlier ++ put msg :: later ∧
        msg ∉ later.map of ∧ live later = q.content.tail) ∧
      (q.size = q.currentDepth ∧ ofNat q.currentDepth =
        q.pushed - q.dedupHits - ofNat (takes events)) ∧
      IsGreatest (sizes calls) q.highWatermark := by
  intro q events
  obtain ⟨represents, counts, greatest⟩ := run_invariant calls
  refine ⟨represents.content, ⟨represents.nodup, represents.addresses, represents.index⟩, ?_,
    ⟨counts.depth.symm, ?_⟩, greatest⟩
  · intro msg first
    have cons : q.content = msg :: q.content.tail := by
      unfold front at first
      unfold content
      cases nodes : q.dq with
      | nil => simp [nodes] at first
      | cons node rest =>
        obtain rfl : node.payload = msg := by simpa [nodes] using first
        rfl
    exact oldest_of_live (represents.content ▸ cons)
  · have shuffled : q.pushed = ofNat q.size + ofNat (takes events) + q.dedupHits := by
      rw [counts.balance]
      ac_rfl
    rw [counts.depth, shuffled, UInt64.add_sub_cancel, UInt64.add_sub_cancel]

end LruDedupNotificationQueue

end SwssCommon
