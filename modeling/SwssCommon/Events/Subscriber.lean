import Std.Data.ExtTreeMap.Lemmas
import SwssCommon.Lib.Bytes
import SwssCommon.Lib.Run
import SwssCommon.Lib.SerialNumbers

/-! # Events

A publisher numbers its events and the control message with which it retires. A subscriber reads
such messages, first from a list that a cache kept and then from its socket, and tells from the last
number of every publisher what it has missed and what it has read before.
-/

namespace SwssCommon.Events

open Bytes List

/-! ## Messages -/

/-- A `map<string, string>` with the keys below. -/
abbrev InternalEvent := Std.ExtTreeMap Bytes Bytes

def EVENT_STR_DATA : Bytes := ascii "d"

def EVENT_RUNTIME_ID : Bytes := ascii "r"

def EVENT_SEQUENCE : Bytes := ascii "s"

def EVENT_EPOCH : Bytes := ascii "t"

/-- What `operator[]` gives: a key that is missing is added with an empty string. -/
def InternalEvent.get (m : InternalEvent) (k : Bytes) : Bytes :=
  (m[k]?).getD []

abbrev Sequence := BitVec 32

def SEQUENCE_MAX : Sequence := BitVec.allOnes 32

def strToSeq (s : Bytes) : Sequence :=
  extractUnsigned 32 s

def seqToStr (seq : Sequence) : Bytes :=
  decimal seq.toNat

theorem strToSeq_seqToStr (seq : Sequence) : strToSeq (seqToStr seq) = seq :=
  extractUnsigned_decimal seq

def EVENT_STR_CTRL_PREFIX : Bytes := ascii "CONTROL_"

def EVENT_STR_CTRL_DEINIT : Bytes := EVENT_STR_CTRL_PREFIX ++ ascii "DEINIT"

def isControl (data : Bytes) : Bool :=
  data.take EVENT_STR_CTRL_PREFIX.length = EVENT_STR_CTRL_PREFIX

/-! ## Publishers -/

structure Publication where
  data : Bytes
  epoch : Nat

structure EventPublisher where
  runtimeId : Bytes
  sequence : Sequence

namespace EventPublisher

def message (runtimeId : Bytes) (e : Publication) (sequence : Sequence) : InternalEvent :=
  (((((∅ : InternalEvent).insert EVENT_STR_DATA e.data).insert EVENT_RUNTIME_ID runtimeId).insert
    EVENT_SEQUENCE (seqToStr sequence)).insert EVENT_EPOCH (decimal e.epoch))

/-- The number is taken before the message is sent, whether or not that succeeds. -/
def sendEvt (p : EventPublisher) (e : Publication) : InternalEvent × EventPublisher :=
  (message p.runtimeId e (p.sequence + 1), { p with sequence := p.sequence + 1 })

/-- The messages of one call of `sendEvt` after the other. -/
def sendAll (p : EventPublisher) : List Publication → List InternalEvent
  | [] => []
  | e :: rest => (p.sendEvt e).1 :: (p.sendEvt e).2.sendAll rest

theorem sendAll_getElem? (runtimeId : Bytes) (k : Nat) (sent : List Publication) (n : Nat) :
    (sendAll ⟨runtimeId, BitVec.ofNat 32 k⟩ sent)[n]? =
      sent[n]?.map fun e => message runtimeId e (BitVec.ofNat 32 (k + n + 1)) := by
  induction sent generalizing k n with
  | nil => rfl
  | cons e rest ih =>
    have next : BitVec.ofNat 32 k + 1 = BitVec.ofNat 32 (k + 1) := (BitVec.ofNat_add k 1).symm
    rw [sendAll, sendEvt, next]
    cases n with
    | zero => rfl
    | succ n =>
      have number : k + 1 + n + 1 = k + (n + 1) + 1 := by omega
      rw [getElem?_cons_succ, getElem?_cons_succ, ih, number]

section Message

variable (runtimeId : Bytes) (e : Publication) (sequence : Sequence)

@[simp]
theorem message_data : (message runtimeId e sequence).get EVENT_STR_DATA = e.data := by
  rfl

@[simp]
theorem message_runtimeId : (message runtimeId e sequence).get EVENT_RUNTIME_ID = runtimeId := by
  rfl

@[simp]
theorem message_sequence :
    (message runtimeId e sequence).get EVENT_SEQUENCE = seqToStr sequence := by
  rfl

@[simp]
theorem message_epoch : (message runtimeId e sequence).get EVENT_EPOCH = decimal e.epoch := by
  rfl

end Message

end EventPublisher

/-- All that one publisher sends. An event is the text of a JSON object, and nothing is
    sent after the control message. -/
structure Lifetime where
  runtimeId : Bytes
  events : List Publication
  /-- The time of `remove_runtime_id`. -/
  removed : Option Nat
  notControl : ∀ e ∈ events, isControl e.data = false

namespace Lifetime

def publications (life : Lifetime) : List Publication :=
  life.events ++ (life.removed.map (⟨EVENT_STR_CTRL_DEINIT, ·⟩)).toList

def messages (life : Lifetime) : List InternalEvent :=
  EventPublisher.sendAll ⟨life.runtimeId, 0⟩ life.publications

/-- Message `n` is the control message. -/
def IsDeinit (life : Lifetime) (n : Nat) : Prop :=
  life.removed.isSome ∧ n = life.events.length

instance (life : Lifetime) (n : Nat) : Decidable (life.IsDeinit n) :=
  inferInstanceAs (Decidable (_ ∧ _))

theorem messages_getElem? (life : Lifetime) (n : Nat) :
    life.messages[n]? = life.publications[n]?.map fun e =>
      EventPublisher.message life.runtimeId e (BitVec.ofNat 32 (n + 1)) := by
  have sent := EventPublisher.sendAll_getElem? life.runtimeId 0 life.publications n
  rwa [Nat.zero_add] at sent

theorem publications_getElem? (life : Lifetime) {n e}
    (sent : life.publications[n]? = some e) :
    (life.events[n]? = some e ∧ isControl e.data = false ∧ ¬ life.IsDeinit n) ∨
      (life.events[n]? = none ∧ e.data = EVENT_STR_CTRL_DEINIT ∧ life.IsDeinit n) := by
  unfold publications at sent
  by_cases event : n < life.events.length
  · rw [getElem?_append_left event] at sent
    refine .inl ⟨sent, life.notControl e (mem_of_getElem? sent), fun deinit => ?_⟩
    exact absurd deinit.2 (Nat.ne_of_lt event)
  · rw [getElem?_append_right (Nat.not_lt.mp event)] at sent
    cases removed : life.removed with
    | none => simp [removed] at sent
    | some epoch =>
      have here : n - life.events.length = 0 := by
        by_contra later
        rw [removed, getElem?_eq_none (by simp; omega)] at sent
        exact nomatch sent
      rw [removed, here] at sent
      obtain rfl := Option.some.inj sent
      refine .inr ⟨getElem?_eq_none (Nat.not_lt.mp event), rfl, ?_⟩
      exact ⟨by rw [removed]; rfl, by omega⟩

theorem le_of_isDeinit (life : Lifetime) {n d m}
    (sent : life.messages[n]? = some m) (deinit : life.IsDeinit d) : n ≤ d := by
  rw [messages_getElem?, Option.map_eq_some_iff] at sent
  obtain ⟨e, sent, -⟩ := sent
  rw [deinit.2]
  rcases life.publications_getElem? sent with ⟨event, -⟩ | ⟨-, -, last⟩
  · exact le_of_lt (List.getElem?_eq_some_iff.mp event).1
  · exact le_of_eq last.2

end Lifetime

/-! ## The subscriber -/

def MAX_PUBLISHERS_COUNT : Nat := 1000

def ERR_MESSAGE_INVALID : Int := -2

/-- When a publisher was last heard of, and the number it used. -/
structure EvtInfo where
  epochSecs : Int
  seq : Sequence

abbrev TrackInfo := Std.ExtTreeMap Bytes EvtInfo

/-- The cache serves serialized events, of type `ε` here. -/
structure EventSubscriber (ε : Type) where
  cacheRead : Bool
  fromCache : List ε
  track : TrackInfo

/-- Publishers are dropped by the second they were last heard of, the earliest first. -/
def pruneTrack (track : TrackInfo) : TrackInfo :=
  let lst : Std.ExtTreeMap Int (List Bytes) := track.toList.foldl
    (fun lst e => lst.insert e.2.epochSecs ((lst[e.2.epochSecs]?).getD [] ++ [e.1])) ∅
  lst.toList.foldl (fun track itc =>
    if track.size > MAX_PUBLISHERS_COUNT then itc.2.foldl (fun track r => track.erase r) track
    else track) track

structure Event where
  eventStr : Bytes
  publishEpoch : Int
  deriving DecidableEq

/-- How a round of the loop of `event_receive` ends. -/
inductive Loop where
  | next (missedCnt : BitVec 32)
  | done (event : Event) (missedCnt : BitVec 32)

namespace EventSubscriber

variable {ε : Type}

/-- How many messages of a publisher are missing between the one it sent last and this
    one, as a word. -/
def thisMissedCnt (seq : Sequence) : Option EvtInfo → BitVec 32
  | some last => if seq ≠ 0 then seq - last.seq - 1 else SEQUENCE_MAX - last.seq
  | none => 0

/-- A round of the loop once a message has been read at time `now`. -/
def handle (sub : EventSubscriber ε) (now : Int) (missedCnt : BitVec 32) (m : InternalEvent) :
    EventSubscriber ε × Loop :=
  let runtimeId := m.get EVENT_RUNTIME_ID
  let seq := strToSeq (m.get EVENT_SEQUENCE)
  let itc := sub.track[runtimeId]?
  let thisMissed := thisMissedCnt seq itc
  let track :=
    if itc.isNone ∧ sub.track.size > MAX_PUBLISHERS_COUNT + 10 then pruneTrack sub.track
    else sub.track
  -- the word is read as a signed one
  if thisMissed.toInt < 0 then ({ sub with track }, .next missedCnt)
  else
    let missedCnt := missedCnt + thisMissed
    let data := m.get EVENT_STR_DATA
    if isControl data = false then
      ({ sub with track := track.insert runtimeId ⟨now, seq⟩ },
        .done ⟨data, extractSigned 64 (m.get EVENT_EPOCH)⟩ missedCnt)
    else if data = EVENT_STR_CTRL_DEINIT ∧ itc.isSome then
      ({ sub with track := track.erase runtimeId }, .next missedCnt)
    else ({ sub with track }, .next missedCnt)

theorem thisMissedCnt_some (seq : Sequence) (last : EvtInfo) :
    thisMissedCnt seq (some last) = seq - last.seq - 1 := by
  by_cases rollover : seq = 0
  · subst rollover
    exact (Serial.zero_sub last.seq).symm
  · exact if_pos rollover

theorem handle_message {sub : EventSubscriber ε} (few : sub.track.size ≤ MAX_PUBLISHERS_COUNT + 10)
    (now : Int) (missedCnt : BitVec 32) (r : Bytes) (e : Publication) (seq : Sequence) :
    sub.handle now missedCnt (EventPublisher.message r e seq) =
      let thisMissed := thisMissedCnt seq sub.track[r]?
      if thisMissed.toInt < 0 then (sub, .next missedCnt)
      else if isControl e.data = false then
        ({ sub with track := sub.track.insert r ⟨now, seq⟩ },
          .done ⟨e.data, min (2 ^ 63 - 1) e.epoch⟩ (missedCnt + thisMissed))
      else if e.data = EVENT_STR_CTRL_DEINIT ∧ sub.track[r]?.isSome then
        ({ sub with track := sub.track.erase r }, .next (missedCnt + thisMissed))
      else (sub, .next (missedCnt + thisMissed)) := by
  simp only [handle, EventPublisher.message_runtimeId, EventPublisher.message_sequence,
    EventPublisher.message_data, EventPublisher.message_epoch, strToSeq_seqToStr,
    extractSigned_decimal, if_neg fun many : _ ∧ _ => Nat.not_lt.mpr few many.2]

theorem handle_cache (sub : EventSubscriber ε) (now : Int) (missedCnt : BitVec 32)
    (m : InternalEvent) :
    (sub.handle now missedCnt m).1.cacheRead = sub.cacheRead ∧
      (sub.handle now missedCnt m).1.fromCache = sub.fromCache := by
  simp only [handle]
  split_ifs <;> exact ⟨rfl, rfl⟩

/-- What `cache_read` has given is served next, and an empty list is the last one. -/
def readCache (sub : EventSubscriber ε) (lst : List ε) : EventSubscriber ε :=
  { sub with fromCache := lst, cacheRead := !lst.isEmpty }

end EventSubscriber

/-- A subscriber, and the count of the call of `event_receive` that is under way. -/
structure System (ε : Type) where
  subscriber : EventSubscriber ε
  call : Option (BitVec 32)

inductive Source where
  | cache
  | socket
  deriving DecidableEq

inductive Label (ε : Type) where
  | called
  | cacheRead (lst : List ε)
  /-- A message is read and handled, and the call returns if it is a new event. -/
  | read (source : Source) (e : ε) (loop : Loop)
  /-- The call returns without an event. -/
  | failed (rc : Int) (missedCnt : BitVec 32)

def Loop.call : Loop → Option (BitVec 32)
  | .next missedCnt => some missedCnt
  | .done _ _ => none

/-- The socket is read when the cache has nothing more to give. -/
inductive Step {ε : Type} (deserialize : ε → Option InternalEvent) :
    System ε → Label ε → System ε → Prop where
  | call {sys} (idle : sys.call = none) :
      Step deserialize sys .called { sys with call := some 0 }
  | readCache {sys missedCnt lst} (busy : sys.call = some missedCnt)
      (more : sys.subscriber.cacheRead = true) (empty : sys.subscriber.fromCache = []) :
      Step deserialize sys (.cacheRead lst) { sys with subscriber := sys.subscriber.readCache lst }
  | cached {sys missedCnt e rest m now sub loop} (busy : sys.call = some missedCnt)
      (front : sys.subscriber.fromCache = e :: rest) (read : deserialize e = some m)
      (handled : { sys.subscriber with fromCache := rest }.handle now missedCnt m = (sub, loop)) :
      Step deserialize sys (.read .cache e loop) ⟨sub, loop.call⟩
  | invalid {sys missedCnt e rest} (busy : sys.call = some missedCnt)
      (front : sys.subscriber.fromCache = e :: rest) (read : deserialize e = none) :
      Step deserialize sys (.failed ERR_MESSAGE_INVALID missedCnt)
        ⟨{ sys.subscriber with fromCache := rest }, none⟩
  | received {sys missedCnt e m now sub loop} (busy : sys.call = some missedCnt)
      (noMore : sys.subscriber.cacheRead = false) (empty : sys.subscriber.fromCache = [])
      (read : deserialize e = some m)
      (handled : sys.subscriber.handle now missedCnt m = (sub, loop)) :
      Step deserialize sys (.read .socket e loop) ⟨sub, loop.call⟩
  | failed {sys missedCnt rc} (busy : sys.call = some missedCnt)
      (noMore : sys.subscriber.cacheRead = false) (empty : sys.subscriber.fromCache = [])
      (bad : rc ≠ 0) :
      Step deserialize sys (.failed rc missedCnt) { sys with call := none }

inductive Outcome {ε : Type} (deserialize : ε → Option InternalEvent) (sys sys' : System ε) :
    Label ε → Prop where
  | called (idle : sys.call = none) (busy : sys'.call = some 0)
      (same : sys'.subscriber.track = sys.subscriber.track) :
      Outcome deserialize sys sys' .called
  | cacheRead {lst} (still : sys'.call = sys.call)
      (same : sys'.subscriber.track = sys.subscriber.track) :
      Outcome deserialize sys sys' (.cacheRead lst)
  | read {source e m now missedCnt sub loop} (busy : sys.call = some missedCnt)
      (read : deserialize e = some m) (same : sub.track = sys.subscriber.track)
      (handled : EventSubscriber.handle sub now missedCnt m = (sys'.subscriber, loop))
      (after : sys'.call = loop.call) :
      Outcome deserialize sys sys' (.read source e loop)
  | failed {rc missedCnt} (busy : sys.call = some missedCnt) (idle : sys'.call = none)
      (same : sys'.subscriber.track = sys.subscriber.track) :
      Outcome deserialize sys sys' (.failed rc missedCnt)

theorem Step.outcome {ε deserialize sys sys'}
    {l : Label ε} (step : Step deserialize sys l sys') : Outcome deserialize sys sys' l := by
  cases step with
  | call idle => exact .called idle rfl rfl
  | readCache busy more empty => exact .cacheRead rfl rfl
  | cached busy front read handled =>
    refine .read busy read ?_ handled rfl
    rfl
  | invalid busy front read => exact .failed busy rfl rfl
  | received busy noMore empty read handled => exact .read busy read rfl handled rfl
  | failed busy noMore empty bad => exact .failed busy rfl rfl

/-- Whether there is a cache to read is settled when the subscriber is initialized. -/
def start (ε : Type) (cacheRead : Bool) : System ε :=
  ⟨⟨cacheRead, [], ∅⟩, none⟩

end SwssCommon.Events
