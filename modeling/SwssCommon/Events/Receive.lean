import SwssCommon.Events.Accounting
import SwssCommon.Lib.JsonValue

/-! # Events at the boundary

One function copies the text of an event into a buffer, the other takes the JSON object apart. Both
receive an event first. If it does not fit or cannot be parsed the call fails, and the event is
neither kept nor counted as missed.
-/

namespace SwssCommon.Events

open Bytes Serial List Option Prod

/-! ## The source -/

inductive Op where
  /-- `event_receive_op_C_t`: whether there is no buffer, its size, and the count that the
      structure happens to hold. -/
  | buffer (null : Bool) (eventSz missedCnt : BitVec 32)
  /-- `event_receive_op_t`. -/
  | keyed
  deriving DecidableEq

inductive Payload where
  | text (eventStr : Bytes)
  | params (key : Bytes) (params : List (Bytes × Bytes))

section Conversion

variable (parse : Bytes → Except JsonValue.Exception JsonValue)

/-- The loop over the parameters stops at one that is not a string. -/
def stringParams : List (Bytes × JsonValue) → Option (List (Bytes × Bytes))
  | [] => some []
  | (name, .string value) :: rest => (stringParams rest).map ((name, value) :: ·)
  | _ :: _ => none

/-- `convert_from_json`, with `none` where it returns -1. -/
def convertFromJson (jsonStr : Bytes) : Except JsonValue.Exception (Option Payload) := do
  let data ← parse jsonStr
  match data.items with
  | [(key, paramsData)] =>
    let key ← key
    match paramsData with
    | .object members => pure ((stringParams members).map (.params key))
    | _ => pure none
  | _ => pure none

def Op.refused : Op → Bool
  | .buffer null eventSz _ => null || eventSz = 0
  | .keyed => false

/-- What becomes of an event that was received: `none` if the call returns -1. -/
def Op.finish (op : Op) (eventStr : Bytes) : Except JsonValue.Exception (Option Payload) :=
  match op with
  | .buffer _ eventSz _ =>
    if eventStr.length < eventSz.toNat then .ok (some (.text (cStr eventStr))) else .ok none
  | .keyed => convertFromJson parse eventStr

def Op.hands (op : Op) (eventStr : Bytes) : Bool :=
  match op.finish parse eventStr with
  | .ok (some _) => true
  | _ => false

end Conversion

/-- A subscriber, and the structure of the call that is under way. -/
structure Api (ε : Type) where
  system : System ε
  op : Option Op

inductive ApiLabel (ε : Type) where
  | refused (op : Op)
  /-- A step of the receive inside a call. -/
  | inner (op : Op) (l : Label ε)

/-- A call is refused, or it receives until the receive inside it returns. -/
inductive ApiStep {ε : Type} (deserialize : ε → Option InternalEvent) :
    Api ε → ApiLabel ε → Api ε → Prop where
  | refuse {api op} (idle : api.op = none) (refused : op.refused = true) :
      ApiStep deserialize api (.refused op) api
  | call {api op sys} (idle : api.op = none) (fine : op.refused = false)
      (step : Step deserialize api.system .called sys) :
      ApiStep deserialize api (.inner op .called) ⟨sys, some op⟩
  | go {api op l sys} (busy : api.op = some op) (step : Step deserialize api.system l sys) :
      ApiStep deserialize api (.inner op l) ⟨sys, sys.call.map fun _ => op⟩

def apiStart (ε : Type) (cacheRead : Bool) : Api ε :=
  ⟨start ε cacheRead, none⟩

/-! ## What the caller gets to know -/

def innerLabels {ε : Type} (ls : List (ApiLabel ε)) : List (Label ε) :=
  ls.filterMap fun
    | .inner _ l => some l
    | .refused _ => none

/-- An event that was received, with the structure it was received into. -/
def ApiLabel.received {ε : Type} : ApiLabel (Option ε) → Option (Op × Event)
  | .inner op (.read _ (some _) (.done event _)) => some (op, event)
  | _ => none

/-- The message that is read, with the structure of the call. -/
def ApiLabel.takes : ApiLabel (Option (Unit × Nat)) → Option (Op × Nat)
  | .inner op (.read _ (some item) _) => some (op, item.2)
  | _ => none

def ApiLabel.stale {ε : Type} : ApiLabel ε → Nat
  | .refused (.buffer _ _ missedCnt) => missedCnt.toNat
  | _ => 0

variable (parse : Bytes → Except JsonValue.Exception JsonValue)

def handed {ε : Type} (ls : List (ApiLabel (Option ε))) : Nat :=
  (ls.filterMap ApiLabel.received).countP fun r => r.1.hands parse r.2.eventStr

def dropped {ε : Type} (ls : List (ApiLabel (Option ε))) : Nat :=
  (ls.filterMap ApiLabel.received).countP fun r => !r.1.hands parse r.2.eventStr

/-- The sum of `missed_cnt` after all calls. -/
def missedSum {ε : Type} (ls : List (ApiLabel ε)) : Nat :=
  total (innerLabels ls) + (ls.map ApiLabel.stale).sum

theorem card_unit_le : Fintype.card Unit ≤ MAX_PUBLISHERS_COUNT := by decide

def Lifetime.only (life : Lifetime) : Publishers Unit where
  life _ := life
  distinct := Function.injective_of_subsingleton _
  few := card_unit_le

def consumed (ls : List (ApiLabel (Option (Unit × Nat)))) : List Nat :=
  (items (innerLabels ls)).map snd

/-- How many events there are from the first to the last message that was read. -/
def spanned (life : Lifetime) (read : List Nat) : Nat :=
  match read.head?, read.getLast? with
  | some first, some last =>
    ((Finset.Icc first last).filter (· < life.events.length)).card
  | _, _ => 0

def Conserved (life : Lifetime) (ls : List (ApiLabel (Option (Unit × Nat)))) : Prop :=
  handed parse ls + missedSum ls = spanned life (consumed ls)

/-- A step reads no message half the numbers after the last one and no event that the structure
    cannot take, and it refuses none that holds some count. -/
structure Clean (life : Lifetime) (before : List (ApiLabel (Option (Unit × Nat))))
    (l : ApiLabel (Option (Unit × Nat))) : Prop where
  near : ∀ n ∈ consumed [l], ∀ last ∈ (consumed before).getLast?, n - last ≤ 2 ^ 31
  fits : ∀ r ∈ l.takes, ∀ e ∈ life.events[r.2]?, r.1.hands parse e.data = true
  zeroed : l.stale = 0

/-! ## The receive inside the calls -/

section Inner

variable {ε : Type} {deserialize : ε → Option InternalEvent} {ls : List (ApiLabel ε)} {api : Api ε}

@[simp]
theorem innerLabels_append (ls ks : List (ApiLabel ε)) :
    innerLabels (ls ++ ks) = innerLabels ls ++ innerLabels ks :=
  filterMap_append

theorem run_inner {cacheRead}
    (run : Run (ApiStep deserialize) (apiStart ε cacheRead) ls api) :
    Run (Step deserialize) (start ε cacheRead) (innerLabels ls) api.system := by
  induction run with
  | refl => exact .refl _
  | snoc _ taken ih =>
    rw [innerLabels_append]
    cases taken with
    | refuse =>
      rw [show innerLabels [.refused _] = ([] : List (Label ε)) from rfl, append_nil]
      exact ih
    | call _ _ step | go _ step => exact ih.snoc step

theorem idle_iff {cacheRead}
    (run : Run (ApiStep deserialize) (apiStart ε cacheRead) ls api) :
    api.op = none ↔ api.system.call = none := by
  induction run with
  | refl => exact ⟨fun _ => rfl, fun _ => rfl⟩
  | snoc _ taken ih =>
    cases taken with
    | refuse => exact ih
    | call _ _ step =>
      cases step with
      | call => simp
    | go _ _ => simp

end Inner

theorem length_received (ls : List (ApiLabel (Option (Unit × Nat)))) :
    (ls.filterMap ApiLabel.received).length = (returned (innerLabels ls)).length := by
  induction ls with
  | nil => rfl
  | cons l ls ih =>
    cases l with
    | refused op => exact ih
    | inner op l =>
      cases l with
      | called | cacheRead | failed => exact ih
      | read source e round =>
        cases e with
        | none => exact ih
        | some item =>
          cases round with
          | next => exact ih
          | done event missedCnt => exact congrArg (· + 1) ih

theorem handed_add_dropped (ls : List (ApiLabel (Option (Unit × Nat)))) :
    handed parse ls + dropped parse ls = (returned (innerLabels ls)).length := by
  rw [← length_received, length_eq_countP_add_countP
    (fun r => r.1.hands parse r.2.eventStr)]
  simp [handed, dropped]

/-! ## One publisher, in order -/

section Stream

variable {life : Lifetime} {read : List (Unit × Nat)}

def Increasing (read : List (Unit × Nat)) : Prop :=
  (read.map snd).Pairwise (· < ·)

variable {n : Nat}

theorem Increasing.of_snoc (up : Increasing (read ++ [((), n)])) :
    Increasing read ∧ ∀ k ∈ numbers read (), k < n := by
  rw [Increasing, map_append, pairwise_append] at up
  refine ⟨up.1, fun k seen => ?_⟩
  exact up.2.2 k (mem_map.mpr ⟨((), k), mem_numbers.mp seen, rfl⟩) n (by simp)

theorem Increasing.of_append {ls ks}
    (up : Increasing (items (ls ++ ks))) : Increasing (items ls) := by
  rw [Increasing, items_append, map_append] at up
  exact (pairwise_append.mp up).1

theorem Increasing.firsts_eq (up : Increasing read) : firsts read = read := by
  have distinct : read.Nodup := List.Nodup.of_map snd (up.imp fun less => Nat.ne_of_lt less)
  rw [firsts, (nodup_reverse.mpr distinct).dedup, reverse_reverse]

theorem Increasing.sup_eq {last} (up : Increasing read)
    (latest : (read.map snd).getLast? = some last) : (numbers read ()).sup id = last := by
  induction read using reverseRecOn with
  | nil => exact nomatch latest
  | append_singleton read item _ =>
    obtain ⟨⟨⟩, n⟩ := item
    rw [map_append, map_singleton, getLast?_concat, some_inj] at latest
    subst latest
    have below : (numbers read ()).sup id ≤ n :=
      Finset.sup_le fun k seen => le_of_lt (up.of_snoc.2 k seen)
    rw [Tracks.numbers_snoc_self, Finset.sup_insert]
    exact sup_eq_left.mpr below

theorem numbers_eq_empty : numbers read () = ∅ ↔ read.map snd = [] := by
  rw [Finset.eq_empty_iff_forall_notMem, map_eq_nil_iff, eq_nil_iff_forall_not_mem]
  exact ⟨fun none item member => none item.2 (mem_numbers.mpr member),
    fun none n seen => none ((), n) (mem_numbers.mp seen)⟩

theorem Increasing.gap_eq (up : Increasing read) (n : Nat) :
    gap (numbers read ()) n = (read.map snd).getLast?.elim 0 (n - Nat.succ ·) := by
  cases latest : (read.map snd).getLast? with
  | none =>
    rw [gap, if_pos (numbers_eq_empty.mpr (getLast?_eq_none_iff.mp latest))]
    rfl
  | some last =>
    have some : numbers read () ≠ ∅ := by
      rw [Ne, numbers_eq_empty]
      intro empty
      rw [empty] at latest
      cases latest
    rw [gap, if_neg some, up.sup_eq latest]
    rfl

theorem spanned_of {read first last} (head : read.head? = some first)
    (latest : read.getLast? = some last) :
    spanned life read = min (last + 1) life.events.length - first := by
  have interval : (Finset.Icc first last).filter (· < life.events.length) =
      Finset.Ico first (min (last + 1) life.events.length) := by
    ext n
    simp only [Finset.mem_filter, Finset.mem_Icc, Finset.mem_Ico]
    omega
  simp only [spanned, head, latest]
  rw [interval, Nat.card_Ico]

theorem event_isSome (life : Lifetime) (n : Nat) :
    (life.only.event ((), n)).isSome = decide (n < life.events.length) := by
  rw [Publishers.event, isSome_map, Bool.eq_iff_iff, decide_eq_true_eq, isSome_getElem?]
  rfl

theorem length_tagged_singleton (n : Nat) :
    ([((), n)].filterMap life.only.tagged).length = if n < life.events.length then 1 else 0 := by
  have isEvent := event_isSome life n
  cases event : life.only.event ((), n) with
  | none | some e => simp_all [Publishers.tagged]

theorem spanned_eq (up : Increasing read) (orderly : Orderly life.only read)
    (sent : ∀ item ∈ read, item.2 ≤ life.events.length) :
    spanned life (read.map snd) = (read.filterMap life.only.tagged).length + lost read := by
  induction read using reverseRecOn with
  | nil => rw [lost_nil]; rfl
  | append_singleton read item ih =>
    obtain ⟨⟨⟩, n⟩ := item
    obtain ⟨upBefore, ahead⟩ := up.of_snoc
    obtain ⟨before, order⟩ := orderly.of_snoc
    have earlier := ih upBefore before fun item member =>
      sent item (mem_append_left _ member)
    have bound : n ≤ life.events.length := sent ((), n) (by simp)
    have latest : ((read ++ [((), n)]).map snd).getLast? = some n := by simp
    rw [lost_snoc order, upBefore.gap_eq, filterMap_append, length_append, length_tagged_singleton]
    cases head : (read.map snd).head? with
    | none =>
      obtain rfl := map_eq_nil_iff.mp (head?_eq_none_iff.mp head)
      rw [spanned_of rfl latest, lost_nil]
      simp only [map_nil, getLast?_nil, filterMap_nil, length_nil, elim_none]
      split <;> omega
    | some first =>
      have begins : ((read ++ [((), n)]).map snd).head? = some first := by
        rw [map_append, head?_append, head]
        rfl
      cases newest : (read.map snd).getLast? with
      | none => rw [getLast?_eq_none_iff.mp newest] at head; exact nomatch head
      | some last =>
        have inside : first ∈ numbers read () := by
          obtain ⟨item, member, rfl⟩ := mem_map.mp (mem_of_head? head)
          exact mem_numbers.mpr member
        have below : first ≤ last := upBefore.sup_eq newest ▸ le_sup_of_mem inside
        have next : last < n := by
          obtain ⟨item, member, rfl⟩ := mem_map.mp (mem_of_getLast? newest)
          exact ahead item.2 (mem_numbers.mpr member)
        rw [spanned_of head newest] at earlier
        rw [spanned_of begins latest, elim_some]
        by_cases event : n < life.events.length
        · rw [if_pos event]
          omega
        · rw [if_neg event]
          omega

theorem le_of_sent {m} (sent : life.only.deserialize (some ((), n)) = some m) :
    n ≤ life.events.length ∧ (life.only.event ((), n) = none → life.IsDeinit n) := by
  obtain ⟨e, -, ⟨event, -, -⟩ | ⟨-, -, deinit⟩⟩ := life.only.deserialize_some sent
  · have inside := event_isSome life n
    rw [event, eq_comm, isSome_some, decide_eq_true_eq] at inside
    exact ⟨le_of_lt inside, fun none => nomatch event.symm.trans none⟩
  · exact ⟨le_of_eq deinit.2, fun _ => deinit⟩

theorem count_ahead (ahead : ∀ k ∈ numbers read (), k < n)
    (order : InOrder life.only read ((), n)) :
    (BitVec.ofNat 32 (gap (numbers read ()) n)).toNat = gap (numbers read ()) n ∧
      Tracks.loop life.only read ((), n) 0 =
        match life.only.event ((), n) with
        | some event => .done event (BitVec.ofNat 32 (gap (numbers read ()) n))
        | none => .next (BitVec.ofNat 32 (gap (numbers read ()) n)) := by
  have new : ((), n) ∉ read := fun member =>
    absurd (ahead n (mem_numbers.mpr member)) (Nat.lt_irrefl n)
  rcases order with ⟨-, near⟩ | ⟨seen, -⟩
  · dsimp only at near
    refine ⟨Nat.mod_eq_of_lt (by omega), ?_⟩
    unfold Tracks.loop
    rw [if_neg new]
    cases life.only.event ((), n) with
    | none | some event => simp only [BitVec.ofNat_eq_ofNat, BitVec.zero_add]
  · exact absurd (mem_numbers.mp seen) new

/-- All that is lost has been reported, or will be when the control message is all the call has
    left to read. -/
structure Settled (life : Lifetime) (ls : List (Label (Option (Unit × Nat))))
    (sys : System (Option (Unit × Nat))) : Prop where
  sent : ∀ item ∈ items ls, item.2 ≤ life.events.length
  idle : sys.call = none → total ls = lost (items ls)
  busy : ∀ missedCnt, sys.call = some missedCnt →
    total ls + missedCnt.toNat = lost (items ls) ∧ (missedCnt = 0 ∨ Retired life.only (items ls) ())

namespace Settled

variable {ls : List (Label (Option (Unit × Nat)))} {l : Label (Option (Unit × Nat))}
  {sys sys' : System (Option (Unit × Nat))}

theorem step (h : Settled life ls sys) (follows : Follows life.only ls sys)
    (up : Increasing (items (ls ++ [l]))) (orderly : Orderly life.only (items (ls ++ [l])))
    (step : Step life.only.deserialize sys l sys') : Settled life (ls ++ [l]) sys' := by
  cases step.outcome with
  | called idle busy _ =>
    refine ⟨by simpa using h.sent, fun idle => absurd (busy.symm.trans idle) (some_ne_none _), ?_⟩
    intro missedCnt call
    obtain rfl := some.inj (busy.symm.trans call)
    exact ⟨by simpa using h.idle idle, .inl rfl⟩
  | cacheRead still _ =>
    refine ⟨by simpa using h.sent, fun idle => ?_, fun missedCnt call => ?_⟩
    · simpa using h.idle (still.symm.trans idle)
    · simpa using h.busy missedCnt (still.symm.trans call)
  | failed busy idle _ =>
    refine ⟨by simpa using h.sent, fun _ => ?_, fun _ call => ?_⟩
    · simpa using (h.busy _ busy).1
    · cases idle.symm.trans call
  | @read source e m now missedCnt sub round busy read same handled after =>
    obtain ⟨⟨⟩, n, rfl, read⟩ := life.only.deserialize_item read
    have items_eq (round : Loop) :
        items (ls ++ [.read source (some ((), n)) round]) = items ls ++ [((), n)] := by
      simp
    obtain ⟨kind, -⟩ := follows.handled orderly read same handled
    rw [items_eq] at up orderly
    obtain ⟨-, ahead⟩ := up.of_snoc
    have order := orderly.of_snoc.2
    obtain ⟨bound, last⟩ := le_of_sent read
    have sent (round : Loop) : ∀ item ∈ items (ls ++ [.read source (some ((), n)) round]),
        item.2 ≤ life.events.length := by
      rw [items_eq]
      exact forall_mem_append.mpr ⟨h.sent, by simpa using bound⟩
    -- nothing comes after the control message, so the call has not found anything before
    obtain ⟨reported, fresh⟩ := h.busy _ busy
    obtain rfl := fresh.resolve_right (Tracks.active_of_ahead read ahead)
    obtain ⟨count, shown⟩ := count_ahead ahead order
    rw [shown] at kind
    cases found : life.only.event ((), n) with
    | some event =>
      rw [found] at kind
      subst kind
      refine ⟨sent _, fun _ => ?_, fun _ call => ?_⟩
      · rw [items_eq, lost_snoc order, total_append, total_done, count, ← reported]
        rfl
      · cases after.symm.trans call
    | none =>
      rw [found] at kind
      subst kind
      refine ⟨sent _, fun idle => absurd (after.symm.trans idle) (some_ne_none _),
        fun missedCnt call => ?_⟩
      obtain rfl := some.inj (after.symm.trans call)
      rw [items_eq, lost_snoc order, total_append, count, ← reported]
      refine ⟨rfl, .inr ⟨n, ?_, last found⟩⟩
      rw [Tracks.numbers_snoc_self]
      exact Finset.mem_insert_self _ _

theorem run {cacheRead} (run : Run (Step life.only.deserialize) (start _ cacheRead) ls sys)
    (up : Increasing (items ls)) (orderly : Orderly life.only (items ls)) :
    Follows life.only ls sys ∧ Settled life ls sys := by
  refine Run.invariant (I := fun ls sys => Increasing (items ls) → Orderly life.only (items ls) →
    Follows life.only ls sys ∧ Settled life ls sys) ?_ ?_ run up orderly
  · refine fun _ _ => ⟨.initially life.only cacheRead, ?_, ?_, nofun⟩
    · exact fun _ none => nomatch none
    · exact fun _ => lost_nil.symm
  · intro ls sys l sys' ih step up orderly
    obtain ⟨follows, settled⟩ := ih (up.of_append) orderly.of_append
    exact ⟨follows.step orderly step, settled.step follows up orderly step⟩

end Settled

end Stream

/-! ## What is handed over -/

section Conservation

variable {parse} {life : Lifetime} {ls : List (ApiLabel (Option (Unit × Nat)))}
  {api : Api (Option (Unit × Nat))} {cacheRead : Bool}

theorem items_single (l : ApiLabel (Option (Unit × Nat))) :
    items (innerLabels [l]) = [] ∨ ∃ item, items (innerLabels [l]) = [item] := by
  cases l with
  | refused op => exact .inl rfl
  | inner op l =>
    cases l with
    | called | cacheRead | failed => exact .inl rfl
    | read source e round =>
      cases e with
      | none => exact .inl rfl
      | some item => exact .inr ⟨item, rfl⟩

theorem orderly_of_near (up : (consumed ls).Pairwise (· < ·))
    (near : ∀ before l after, ls = before ++ l :: after →
      ∀ n ∈ consumed [l], ∀ last ∈ (consumed before).getLast?, n - last ≤ 2 ^ 31) :
    Orderly life.only (items (innerLabels ls)) := by
  induction ls using reverseRecOn with
  | nil => exact fun earlier item none => absurd none (by simp [innerLabels])
  | append_singleton ls l ih =>
    have up : Increasing (items (innerLabels (ls ++ [l]))) := up
    rw [innerLabels_append] at up ⊢
    have before := ih up.of_append fun before l' after split =>
      near before l' (after ++ [l]) (by rw [split]; simp)
    rw [items_append] at up ⊢
    rcases items_single l with nothing | ⟨⟨⟨⟩, n⟩, one⟩
    · rw [nothing, append_nil]
      exact before
    · rw [one] at up ⊢
      obtain ⟨upBefore, ahead⟩ := up.of_snoc
      refine before.snoc (.inl ⟨ahead, ?_⟩)
      rw [upBefore.gap_eq]
      cases latest : ((items (innerLabels ls)).map snd).getLast? with
      | none => exact Nat.two_pow_pos 31
      | some last =>
        have inside : n ∈ consumed [l] := by rw [consumed, one]; simp
        have close := near ls l [] rfl n inside last latest
        rw [elim_some]
        omega

theorem handed_dropped_total (parse : Bytes → Except JsonValue.Exception JsonValue)
    (run : Run (ApiStep life.only.deserialize) (apiStart _ cacheRead) ls api)
    (up : (consumed ls).Pairwise (· < ·)) (orderly : Orderly life.only (items (innerLabels ls)))
    (idle : api.op = none) :
    handed parse ls + dropped parse ls + total (innerLabels ls) = spanned life (consumed ls) := by
  obtain ⟨follows, settled⟩ := Settled.run (run_inner run) up orderly
  rw [handed_add_dropped, follows.returned, Increasing.firsts_eq up,
    settled.idle ((idle_iff run).mp idle)]
  exact (spanned_eq up orderly settled.sent).symm

theorem takes_of_received {l r}
    (follows : Follows life.only (innerLabels ls) api.system) (member : l ∈ ls)
    (received : l.received = some r) :
    ∃ n e, l.takes = some (r.1, n) ∧ life.events[n]? = some e ∧ r.2.eventStr = e.data := by
  unfold ApiLabel.received at received
  split at received
  · rename_i op source item event missedCnt
    obtain rfl := some.inj received
    have inner : .read source (some item) (.done event missedCnt) ∈ innerLabels ls :=
      mem_filterMap.mpr ⟨_, member, rfl⟩
    have given : (item, event) ∈ returned (innerLabels ls) := mem_filterMap.mpr ⟨_, inner, rfl⟩
    rw [follows.returned, mem_filterMap] at given
    obtain ⟨_, -, tagged⟩ := given
    obtain ⟨_, found, same⟩ := map_eq_some_iff.mp tagged
    cases same
    obtain ⟨e, sent, rfl⟩ := map_eq_some_iff.mp found
    exact ⟨item.2, e, rfl, sent, rfl⟩
  · exact nomatch received

theorem dropped_eq_zero (follows : Follows life.only (innerLabels ls) api.system)
    (fits : ∀ l ∈ ls, ∀ r ∈ l.takes, ∀ e ∈ life.events[r.2]?, r.1.hands parse e.data) :
    dropped parse ls = 0 := by
  refine countP_eq_zero.mpr fun r member => ?_
  obtain ⟨l, inside, received⟩ := mem_filterMap.mp member
  obtain ⟨n, e, takes, sent, data⟩ := takes_of_received follows inside received
  rw [data, fits l inside _ takes e sent]
  decide

def Calls (life : Lifetime) (ls : List (ApiLabel (Option (Unit × Nat)))) : Prop :=
  ∃ sys, Run (ApiStep life.only.deserialize) (apiStart _ false) ls ⟨sys, none⟩ ∧
    Orderly life.only (items (innerLabels ls)) ∧
    sys.subscriber.cacheRead = false ∧ sys.subscriber.fromCache = []

namespace Calls

theorem nil (life : Lifetime) : Calls life [] :=
  ⟨_, .refl _, fun earlier item none => absurd none (by simp [innerLabels]), rfl, rfl⟩

theorem event (calls : Calls life ls) (op : Op) (n : Nat) {k e}
    (fine : op.refused = false) (sent : life.events[n]? = some e)
    (ahead : ∀ m ∈ numbers (items (innerLabels ls)) (), m < n)
    (shown : gap (numbers (items (innerLabels ls)) ()) n = k) (near : k < 2 ^ 31) :
    Calls life (ls ++ [.inner op .called, .inner op (.read .socket (some ((), n))
      (.done ⟨e.data, min (2 ^ 63 - 1) e.epoch⟩ (BitVec.ofNat 32 k)))]) := by
  obtain ⟨sys, run, orderly, noMore, empty⟩ := calls
  have order : InOrder life.only (items (innerLabels ls)) ((), n) :=
    .inl ⟨ahead, by rw [shown]; exact near⟩
  have inside : life.publications[n]? = some e := by
    rw [Lifetime.publications, List.getElem?_append_left (List.getElem?_eq_some_iff.mp sent).1]
    exact sent
  have message : life.only.deserialize (some ((), n)) =
      some (EventPublisher.message life.runtimeId e (BitVec.ofNat 32 (n + 1))) := by
    change life.messages[n]? = _
    rw [Lifetime.messages_getElem?, inside]
    rfl
  have event : life.only.event ((), n) = some ⟨e.data, min (2 ^ 63 - 1) e.epoch⟩ := by
    change life.events[n]?.map _ = _
    rw [sent]
    rfl
  have idle : sys.call = none := (idle_iff run).mp rfl
  have follows := Follows.run (run_inner run) orderly
  obtain ⟨track, handled, -⟩ := follows.tracks.handle order message 0 0
  rw [(count_ahead ahead order).2, event, shown] at handled
  have called := run.snoc (.call rfl fine (.call idle))
  have done := called.snoc (.go rfl (.received rfl noMore empty message handled))
  rw [append_assoc] at done
  refine ⟨_, done, ?_, noMore, empty⟩
  rw [innerLabels_append, items_append]
  exact orderly.snoc order

end Calls

/-- If every step is clean, the events handed over and the counts account for every event from
    the first to the last that was read. -/
theorem receive_conserves (run : Run (ApiStep life.only.deserialize) (apiStart _ cacheRead) ls api)
    (inOrder : (consumed ls).Pairwise (· < ·))
    (clean : ∀ before l after, ls = before ++ l :: after → Clean parse life before l)
    (idle : api.op = none) : Conserved parse life ls := by
  have each : ∀ l ∈ ls, ∃ before, Clean parse life before l := by
    intro l member
    obtain ⟨before, after, split⟩ := append_of_mem member
    exact ⟨before, clean before l after split⟩
  have orderly : Orderly life.only (items (innerLabels ls)) :=
    orderly_of_near inOrder fun before l after split => (clean before l after split).near
  have account := handed_dropped_total parse run inOrder orderly idle
  have nothing : dropped parse ls = 0 := by
    refine dropped_eq_zero (Follows.run (run_inner run) orderly) fun l member => ?_
    obtain ⟨_, clean⟩ := each l member
    exact clean.fits
  have zero : (ls.map ApiLabel.stale).sum = 0 := by
    refine sum_eq_zero fun k member => ?_
    obtain ⟨l, inside, rfl⟩ := mem_map.mp member
    obtain ⟨_, clean⟩ := each l inside
    exact clean.zeroed
  rw [Conserved, missedSum, zero, ← account, nothing]
  rfl

private def threeEvents : Lifetime where
  runtimeId := ascii "r"
  events := replicate 3 ⟨ascii "\x7b\x7d", 0⟩
  removed := none
  notControl := by decide

private def unparsable : Bytes → Except JsonValue.Exception JsonValue :=
  fun _ => .error (ascii "[json.exception.parse_error.101]")

/-- A call into a buffer, which receives this event and a count. -/
private def receives (eventSz : BitVec 32) (n : Nat) (missedCnt : BitVec 32) :
    List (ApiLabel (Option (Unit × Nat))) :=
  [.inner (.buffer false eventSz 0) .called,
    .inner (.buffer false eventSz 0) (.read .socket (some ((), n))
      (.done ⟨ascii "\x7b\x7d", 0⟩ missedCnt))]

/-- The buffers are large enough, and the event that is lost is counted. -/
theorem receive_conserves_one_lost :
    ∃ ls api, Run (ApiStep threeEvents.only.deserialize) (apiStart _ false) ls api ∧
      api.op = none ∧ consumed ls = [0, 2] ∧ missedSum ls = 1 ∧
      Conserved unparsable threeEvents ls := by
  have first : Calls threeEvents (receives 8 0 0) :=
    (Calls.nil threeEvents).event (.buffer false 8 0) 0 rfl rfl (by decide) rfl (by decide)
  have second : Calls threeEvents (receives 8 0 0 ++ receives 8 2 1) :=
    first.event (.buffer false 8 0) 2 rfl rfl (by decide) rfl (by decide)
  obtain ⟨sys, run, -⟩ := second
  refine ⟨_, _, run, rfl, rfl, by decide, ?_⟩
  refine receive_conserves run (by decide) (fun before l after split => ?_) rfl
  rcases before with _ | ⟨_, _ | ⟨_, _ | ⟨_, _ | ⟨_, rest⟩⟩⟩⟩
  on_goal 5 => exact absurd (congrArg length split) (by simp [receives])
  all_goals
    cases split
    exact ⟨by decide, by decide, rfl⟩

/-- The first event does not fit. It is gone, and the next call reports nothing missed. -/
theorem receive_drops_silently :
    ∃ ls api, Run (ApiStep threeEvents.only.deserialize) (apiStart _ false) ls api ∧
      (consumed ls).Pairwise (· < ·) ∧ api.op = none ∧ consumed ls = [0, 1] ∧
      handed unparsable ls = 1 ∧ missedSum ls = 0 ∧ ¬ Conserved unparsable threeEvents ls := by
  have first : Calls threeEvents (receives 2 0 0) :=
    (Calls.nil threeEvents).event (.buffer false 2 0) 0 rfl rfl (by decide) rfl (by decide)
  have second : Calls threeEvents (receives 2 0 0 ++ receives 8 1 0) :=
    first.event (.buffer false 8 0) 1 rfl rfl (by decide) rfl (by decide)
  obtain ⟨sys, run, -⟩ := second
  refine ⟨_, _, run, by decide, rfl, rfl, by decide, by decide, ?_⟩
  unfold Conserved
  decide

end Conservation

end SwssCommon.Events
