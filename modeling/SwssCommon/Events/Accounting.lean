import SwssCommon.Events.Subscriber

/-! # Missed and repeated events

Messages of many publishers arrive interleaved; some are lost, and some are read again. As long as
none comes from too far ahead or behind, the numbers a subscriber keeps tell what was lost and what
is new.
-/

namespace SwssCommon.Events

open Bytes Serial List Function EventSubscriber

variable {ι : Type} [Fintype ι]

/-- Publishers with different runtime ids, as many as a subscriber is made for at most. -/
structure Publishers (ι : Type) [Fintype ι] where
  life : ι → Lifetime
  distinct : Function.Injective fun i => (life i).runtimeId
  few : Fintype.card ι ≤ MAX_PUBLISHERS_COUNT

namespace Publishers

/-- What arrives is message `n` of publisher `i`, or something that cannot be read. -/
def deserialize (pubs : Publishers ι) : Option (ι × Nat) → Option InternalEvent
  | some (i, n) => (pubs.life i).messages[n]?
  | none => none

/-- What a subscriber returns for a message, unless that is a control message. -/
def event (pubs : Publishers ι) (item : ι × Nat) : Option Event :=
  (pubs.life item.1).events[item.2]?.map fun e => ⟨e.data, min (2 ^ 63 - 1) e.epoch⟩

theorem deserialize_item (pubs : Publishers ι) {e m}
    (read : pubs.deserialize e = some m) :
    ∃ i n, e = some (i, n) ∧ pubs.deserialize (some (i, n)) = some m := by
  cases e with
  | none => exact nomatch read
  | some item => exact ⟨item.1, item.2, rfl, read⟩

theorem deserialize_some (pubs : Publishers ι) {i n m}
    (read : pubs.deserialize (some (i, n)) = some m) :
    ∃ e, m = EventPublisher.message (pubs.life i).runtimeId e (BitVec.ofNat 32 (n + 1)) ∧
      ((pubs.event (i, n) = some ⟨e.data, min (2 ^ 63 - 1) e.epoch⟩ ∧ isControl e.data = false ∧
          ¬ (pubs.life i).IsDeinit n) ∨
        (pubs.event (i, n) = none ∧ e.data = EVENT_STR_CTRL_DEINIT ∧
          (pubs.life i).IsDeinit n)) := by
  rw [deserialize, Lifetime.messages_getElem?, Option.map_eq_some_iff] at read
  obtain ⟨e, sent, rfl⟩ := read
  refine ⟨e, rfl, ?_⟩
  unfold event
  rcases (pubs.life i).publications_getElem? sent with ⟨found, event⟩ | ⟨none, deinit⟩
  · exact .inl ⟨by rw [found]; rfl, event⟩
  · exact .inr ⟨by rw [none]; rfl, deinit⟩

end Publishers

variable [DecidableEq ι]

/-! ## What has happened -/

def items (ls : List (Label (Option (ι × Nat)))) : List (ι × Nat) :=
  ls.filterMap fun
    | .read _ e _ => e
    | _ => none

section Items

variable (ls ks : List (Label (Option (ι × Nat)))) (source : Source) (round : Loop)

omit [Fintype ι] [DecidableEq ι]

@[simp]
theorem items_read (e : Option (ι × Nat)) :
    items (.read source e round :: ls) = e.toList ++ items ls := by
  cases e <;> rfl

@[simp]
theorem items_nil : items ([] : List (Label (Option (ι × Nat)))) = [] := rfl

@[simp]
theorem items_called : items (.called :: ls) = items ls := rfl

@[simp]
theorem items_cacheRead (lst : List (Option (ι × Nat))) :
    items (.cacheRead lst :: ls) = items ls := rfl

@[simp]
theorem items_failed (rc : Int) (missedCnt : BitVec 32) :
    items (.failed rc missedCnt :: ls) = items ls := rfl

@[simp]
theorem items_append : items (ls ++ ks) = items ls ++ items ks := filterMap_append

end Items

/-- The events that have been returned, and the messages they were in. -/
def returned (ls : List (Label (Option (ι × Nat)))) : List ((ι × Nat) × Event) :=
  ls.filterMap fun
    | .read _ (some item) (.done event _) => some (item, event)
    | _ => none

def reported {ε : Type} (ls : List (Label ε)) : List (BitVec 32) :=
  ls.filterMap fun
    | .read _ _ (.done _ missedCnt) => some missedCnt
    | .failed _ missedCnt => some missedCnt
    | _ => none

def firsts {α : Type} [DecidableEq α] (l : List α) : List α :=
  l.reverse.dedup.reverse

variable {α : Type}

theorem firsts_snoc [DecidableEq α] (l : List α) (a : α) :
    firsts (l ++ [a]) = firsts l ++ if a ∈ l then [] else [a] := by
  unfold firsts
  rw [reverse_append, reverse_singleton, singleton_append]
  by_cases seen : a ∈ l
  · rw [dedup_cons_of_mem (mem_reverse.mpr seen), if_pos seen, append_nil]
  · rw [dedup_cons_of_notMem (mt mem_reverse.mp seen), if_neg seen, reverse_cons]

theorem mem_firsts [DecidableEq α] {l} {a : α} : a ∈ firsts l ↔ a ∈ l := by
  simp [firsts]

theorem nodup_firsts [DecidableEq α] (l : List α) : (firsts l).Nodup :=
  nodup_reverse.mpr (nodup_dedup _)

def numbers (read : List (ι × Nat)) (i : ι) : Finset Nat :=
  ((read.filter (·.1 = i)).map (·.2)).toFinset

omit [Fintype ι] in
theorem mem_numbers {read} {i : ι} {n} :
    n ∈ numbers read i ↔ (i, n) ∈ read := by
  simp [numbers]

omit [Fintype ι] in
theorem numbers_snoc (read : List (ι × Nat)) (i : ι) (n : Nat) :
    numbers (read ++ [(i, n)]) = update (numbers read) i (insert n (numbers read i)) := by
  funext j
  ext k
  by_cases same : j = i
  · subst same
    simp [mem_numbers, or_comm]
  · simp [mem_numbers, same]

/-- The messages that lie between others of their publisher and have not been read. -/
def lost (read : List (ι × Nat)) : Nat :=
  ∑ i, (missing (numbers read i)).card

theorem lost_nil : lost ([] : List (ι × Nat)) = 0 := by
  simp [lost, numbers, missing]

/-- A message comes in order, after fewer than half the numbers have been lost, or again, with fewer
    than that in between, and no event once the control message has been read. -/
def InOrder (pubs : Publishers ι) (earlier : List (ι × Nat)) (item : ι × Nat) : Prop :=
  let seen := numbers earlier item.1
  ((∀ n ∈ seen, n < item.2) ∧ gap seen item.2 < 2 ^ 31) ∨
    (item.2 ∈ seen ∧ seen.sup id - item.2 < 2 ^ 31 ∧
      ∀ n ∈ seen, (pubs.life item.1).IsDeinit n → item.2 = n)

def Orderly (pubs : Publishers ι) (read : List (ι × Nat)) : Prop :=
  ∀ earlier item, earlier ++ [item] <+: read → InOrder pubs earlier item

variable {pubs : Publishers ι}

theorem Orderly.of_append {ls ks}
    (orderly : Orderly pubs (items (ls ++ ks))) : Orderly pubs (items ls) := by
  rw [items_append] at orderly
  exact fun earlier item before => orderly earlier item (before.trans (prefix_append _ _))

variable {item : ι × Nat}

theorem Orderly.of_snoc {read} (orderly : Orderly pubs (read ++ [item])) :
    Orderly pubs read ∧ InOrder pubs read item :=
  ⟨fun earlier other before => orderly earlier other (before.trans (prefix_append _ _)),
    orderly read item (prefix_refl _)⟩

theorem Orderly.of_read {ls source round}
    (orderly : Orderly pubs (items (ls ++ [.read source (some item) round]))) :
    InOrder pubs (items ls) item := by
  rw [items_append] at orderly
  exact orderly.of_snoc.2

theorem Orderly.snoc {read} (orderly : Orderly pubs read)
    (order : InOrder pubs read item) : Orderly pubs (read ++ [item]) := by
  intro earlier other before
  rcases prefix_concat_iff.mp before with whole | inside
  · obtain ⟨rfl, same⟩ := append_inj' whole rfl
    obtain rfl := singleton_injective same
    exact order
  · exact orderly earlier other inside

theorem Orderly.firsts {read} (orderly : Orderly pubs read) :
    (firsts read).Pairwise fun a b => a.1 = b.1 → a.2 < b.2 := by
  induction read using reverseRecOn with
  | nil => exact .nil
  | append_singleton read item ih =>
    obtain ⟨before, order⟩ := orderly.of_snoc
    rw [firsts_snoc]
    split
    · rw [append_nil]
      exact ih before
    · rename_i new
      refine pairwise_append.mpr ⟨ih before, pairwise_singleton _ _, ?_⟩
      intro earlier member last same publisher
      obtain rfl := mem_singleton.mp same
      have seen : earlier.2 ∈ numbers read last.1 := by
        rw [mem_numbers, ← publisher]
        exact mem_firsts.mp member
      rcases order with ⟨ahead, -⟩ | ⟨again, -⟩
      · exact ahead _ seen
      · exact absurd (mem_numbers.mp again) new

theorem lost_snoc {read i n} (order : InOrder pubs read (i, n)) :
    lost (read ++ [(i, n)]) = lost read + gap (numbers read i) n := by
  have more : (missing (insert n (numbers read i))).card =
      (missing (numbers read i)).card + gap (numbers read i) n := by
    apply card_missing_insert
    rcases order with ⟨ahead, -⟩ | ⟨seen, -⟩
    · by_cases none : numbers read i = ∅
      · exact .inr (.inr none)
      · exact .inr (.inl (ahead _ (sup_mem none)))
    · exact .inl seen
  unfold lost
  rw [← Finset.add_sum_erase _ _ (Finset.mem_univ i), ← Finset.add_sum_erase _ _
    (Finset.mem_univ i), numbers_snoc, update_self]
  have others : ∑ j ∈ Finset.univ.erase i,
      (missing (update (numbers read) i (insert n (numbers read i)) j)).card =
        ∑ j ∈ Finset.univ.erase i, (missing (numbers read j)).card := by
    refine Finset.sum_congr rfl fun j other => ?_
    rw [update_of_ne (Finset.ne_of_mem_erase other)]
  omega

/-! ## What the subscriber remembers -/

section Tracks

variable {pubs : Publishers ι} {read : List (ι × Nat)} {track : TrackInfo} {i : ι} {n : Nat}

def Retired (pubs : Publishers ι) (read : List (ι × Nat)) (i : ι) : Prop :=
  ∃ n ∈ numbers read i, (pubs.life i).IsDeinit n

/-- A publisher that was heard of is known by its newest number until it retires. -/
structure Tracks (pubs : Publishers ι) (read : List (ι × Nat)) (track : TrackInfo) : Prop where
  unknown : ∀ i, numbers read i = ∅ ∨ Retired pubs read i → track[(pubs.life i).runtimeId]? = none
  newest : ∀ i, numbers read i ≠ ∅ → ¬ Retired pubs read i →
    ∃ info, track[(pubs.life i).runtimeId]? = some info ∧
      info.seq = BitVec.ofNat 32 ((numbers read i).sup id + 1)
  known : ∀ r ∈ track, ∃ i, (pubs.life i).runtimeId = r

namespace Tracks

theorem initially (pubs : Publishers ι) : Tracks pubs [] ∅ where
  unknown _ _ := Std.ExtTreeMap.getElem?_empty
  newest _ some := absurd rfl some
  known _ member := absurd member Std.ExtTreeMap.not_mem_empty

theorem size_le (h : Tracks pubs read track) : track.size ≤ MAX_PUBLISHERS_COUNT := by
  have within : track.keys.toFinset ⊆ Finset.univ.image fun i => (pubs.life i).runtimeId := by
    intro r member
    rw [mem_toFinset, Std.ExtTreeMap.mem_keys] at member
    obtain ⟨i, rfl⟩ := h.known r member
    exact Finset.mem_image_of_mem _ (Finset.mem_univ i)
  calc track.size = track.keys.toFinset.card := by
        rw [toFinset_card_of_nodup Std.ExtTreeMap.nodup_keys, Std.ExtTreeMap.length_keys]
    _ ≤ (Finset.univ.image fun i => (pubs.life i).runtimeId).card := Finset.card_le_card within
    _ ≤ Fintype.card ι := Finset.card_image_le
    _ ≤ MAX_PUBLISHERS_COUNT := pubs.few

omit [Fintype ι] in
theorem numbers_snoc_self (read : List (ι × Nat)) (i : ι) (n : Nat) :
    numbers (read ++ [(i, n)]) i = insert n (numbers read i) := by
  rw [numbers_snoc, update_self]

omit [Fintype ι] in
theorem numbers_snoc_of_ne {j} (other : j ≠ i) (read : List (ι × Nat)) (n : Nat) :
    numbers (read ++ [(i, n)]) j = numbers read j := by
  rw [numbers_snoc, update_of_ne other]

theorem snoc {track' : TrackInfo} (h : Tracks pubs read track)
    (others : ∀ r, r ≠ (pubs.life i).runtimeId → track'[r]? = track[r]?)
    (unknown : Retired pubs (read ++ [(i, n)]) i → track'[(pubs.life i).runtimeId]? = none)
    (newest : ¬ Retired pubs (read ++ [(i, n)]) i →
      ∃ info, track'[(pubs.life i).runtimeId]? = some info ∧
        info.seq = BitVec.ofNat 32 ((insert n (numbers read i)).sup id + 1)) :
    Tracks pubs (read ++ [(i, n)]) track' where
  unknown j gone := by
    by_cases same : j = i
    · subst same
      rw [numbers_snoc_self] at gone
      exact unknown (gone.resolve_left (Finset.insert_ne_empty _ _))
    · rw [Retired, numbers_snoc_of_ne same] at gone
      rw [others _ (pubs.distinct.ne same)]
      exact h.unknown j gone
  newest j some active := by
    by_cases same : j = i
    · subst same
      rw [numbers_snoc_self]
      exact newest active
    · rw [Retired, numbers_snoc_of_ne same] at active
      rw [numbers_snoc_of_ne same] at some ⊢
      rw [others _ (pubs.distinct.ne same)]
      exact h.newest j some active
  known r member := by
    by_cases same : r = (pubs.life i).runtimeId
    · exact ⟨i, same.symm⟩
    · refine h.known r (Std.ExtTreeMap.mem_iff_isSome_getElem?.mpr ?_)
      rw [← others r same]
      exact Std.ExtTreeMap.mem_iff_isSome_getElem?.mp member

variable {m : InternalEvent}

theorem active_of_ahead (sent : (pubs.life i).messages[n]? = some m)
    (ahead : ∀ k ∈ numbers read i, k < n) : ¬ Retired pubs read i := by
  intro ⟨d, seen, deinit⟩
  have last := (pubs.life i).le_of_isDeinit sent deinit
  exact absurd (ahead d seen) (Nat.not_lt.mpr last)

theorem thisMissedCnt_ahead (h : Tracks pubs read track)
    (sent : (pubs.life i).messages[n]? = some m) (ahead : ∀ k ∈ numbers read i, k < n) :
    thisMissedCnt (BitVec.ofNat 32 (n + 1)) track[(pubs.life i).runtimeId]? =
      BitVec.ofNat 32 (gap (numbers read i) n) := by
  by_cases first : numbers read i = ∅
  · rw [h.unknown i (.inl first), gap, if_pos first]
    rfl
  · obtain ⟨info, found, last⟩ := h.newest i first (active_of_ahead sent ahead)
    have newest := ahead _ (sup_mem first)
    have number : n + 1 = (numbers read i).sup id + 1 + 1 + (n - (numbers read i).sup id - 1) := by
      omega
    rw [found, thisMissedCnt_some, last, gap, if_neg first, number]
    exact sub_of_ahead _ _

theorem thisMissedCnt_again (h : Tracks pubs read track) (seen : n ∈ numbers read i)
    (active : ¬ Retired pubs read i) :
    thisMissedCnt (BitVec.ofNat 32 (n + 1)) track[(pubs.life i).runtimeId]? =
      ~~~BitVec.ofNat 32 ((numbers read i).sup id - n) := by
  obtain ⟨info, found, last⟩ := h.newest i (Finset.ne_empty_of_mem seen) active
  have newest := le_sup_of_mem seen
  have number : (numbers read i).sup id + 1 = n + 1 + ((numbers read i).sup id - n) := by omega
  rw [found, thisMissedCnt_some, last, number]
  exact sub_of_behind _ _

theorem insert_event (h : Tracks pubs read track) (sent : (pubs.life i).messages[n]? = some m)
    (event : ¬ (pubs.life i).IsDeinit n) (ahead : ∀ k ∈ numbers read i, k < n) (now : Int) :
    Tracks pubs (read ++ [(i, n)])
      (track.insert (pubs.life i).runtimeId ⟨now, BitVec.ofNat 32 (n + 1)⟩) := by
  refine h.snoc (fun r other => ?_) (fun retired => ?_) fun _ => ?_
  · rw [Std.ExtTreeMap.getElem?_insert, if_neg]
    exact fun same => other (Std.LawfulEqCmp.eq_of_compare same).symm
  · obtain ⟨d, seen, deinit⟩ := retired
    rw [numbers_snoc_self, Finset.mem_insert] at seen
    rcases seen with rfl | earlier
    · exact absurd deinit event
    · exact absurd ⟨d, earlier, deinit⟩ (active_of_ahead sent ahead)
  · refine ⟨_, Std.ExtTreeMap.getElem?_insert_self, ?_⟩
    have below : (numbers read i).sup id ≤ n := Finset.sup_le fun k seen => le_of_lt (ahead k seen)
    rw [Finset.sup_insert]
    exact congrArg (fun k => BitVec.ofNat 32 (k + 1)) (sup_eq_left.mpr below).symm

theorem retire {track'} (h : Tracks pubs read track) (deinit : (pubs.life i).IsDeinit n)
    (others : ∀ r, r ≠ (pubs.life i).runtimeId → track'[r]? = track[r]?)
    (gone : track'[(pubs.life i).runtimeId]? = none) :
    Tracks pubs (read ++ [(i, n)]) track' := by
  have retired : Retired pubs (read ++ [(i, n)]) i :=
    ⟨n, by rw [numbers_snoc_self]; exact Finset.mem_insert_self _ _, deinit⟩
  exact h.snoc others (fun _ => gone) fun active => absurd retired active

theorem again (h : Tracks pubs read track) (seen : n ∈ numbers read i) :
    Tracks pubs (read ++ [(i, n)]) track := by
  have same : numbers (read ++ [(i, n)]) = numbers read := by
    rw [numbers_snoc, Finset.insert_eq_of_mem seen, update_eq_self]
  constructor
  · intro j
    rw [Retired, same]
    exact h.unknown j
  · intro j
    rw [Retired, same]
    exact h.newest j
  · exact h.known

variable {ε : Type} {sub : EventSubscriber ε}

/-- What a subscriber should make of a message: new events are returned, and what a
    message shows to be lost is counted. -/
def loop (pubs : Publishers ι) (earlier : List (ι × Nat)) (item : ι × Nat)
    (missedCnt : BitVec 32) : Loop :=
  let missedCnt := missedCnt + BitVec.ofNat 32 (gap (numbers earlier item.1) item.2)
  match if item ∈ earlier then none else pubs.event item with
  | some event => .done event missedCnt
  | none => .next missedCnt

theorem loop_cases (pubs : Publishers ι) (earlier : List (ι × Nat)) (item : ι × Nat)
    (missedCnt : BitVec 32) :
    (∃ event, loop pubs earlier item missedCnt =
      .done event (missedCnt + BitVec.ofNat 32 (gap (numbers earlier item.1) item.2))) ∨
      loop pubs earlier item missedCnt =
        .next (missedCnt + BitVec.ofNat 32 (gap (numbers earlier item.1) item.2)) := by
  unfold loop
  cases (if item ∈ earlier then none else pubs.event item) with
  | none => exact .inr rfl
  | some event => exact .inl ⟨event, rfl⟩

theorem handle (h : Tracks pubs read sub.track) (order : InOrder pubs read (i, n))
    (sent : pubs.deserialize (some (i, n)) = some m) (now : Int) (missedCnt : BitVec 32) :
    ∃ track, sub.handle now missedCnt m = ({ sub with track }, loop pubs read (i, n) missedCnt) ∧
      Tracks pubs (read ++ [(i, n)]) track := by
  have few : sub.track.size ≤ MAX_PUBLISHERS_COUNT + 10 := h.size_le.trans (Nat.le_add_right _ _)
  obtain ⟨e, rfl, kind⟩ := pubs.deserialize_some sent
  rw [handle_message few]
  rcases order with ⟨ahead, near⟩ | ⟨seen, near, alone⟩
  · have new : (i, n) ∉ read := fun member =>
      absurd (ahead n (mem_numbers.mpr member)) (Nat.lt_irrefl n)
    have forward : ¬ (BitVec.ofNat 32 (gap (numbers read i) n)).toInt < 0 :=
      toInt_of_ahead (by simp only at near; omega)
    rw [h.thisMissedCnt_ahead sent ahead]
    simp only [if_neg forward, loop, if_neg new]
    rcases kind with ⟨event, notControl, notDeinit⟩ | ⟨event, data, deinit⟩
    · rw [event, if_pos notControl]
      exact ⟨_, rfl, h.insert_event sent notDeinit ahead now⟩
    · rw [event, data, if_neg (by decide)]
      cases known : sub.track[(pubs.life i).runtimeId]? with
      | none => exact ⟨sub.track, by simp, h.retire deinit (fun _ _ => rfl) known⟩
      | some info =>
        refine ⟨sub.track.erase (pubs.life i).runtimeId, by simp, h.retire deinit ?_ ?_⟩
        · intro r other
          rw [Std.ExtTreeMap.getElem?_erase, if_neg]
          exact fun same => other (Std.LawfulEqCmp.eq_of_compare same).symm
        · exact Std.ExtTreeMap.getElem?_erase_self
  · have old : (i, n) ∈ read := mem_numbers.mp seen
    have newest := le_sup_of_mem seen
    have nothing : gap (numbers read i) n = 0 := by
      rw [gap, if_neg (Finset.ne_empty_of_mem seen)]
      exact Nat.sub_eq_zero_of_le (by simp only at newest; omega)
    refine ⟨sub.track, ?_, h.again seen⟩
    simp only [loop, if_pos old, nothing, BitVec.add_zero]
    by_cases retired : Retired pubs read i
    · -- the control message is all that is repeated after it
      have unknown := h.unknown i (.inr retired)
      obtain ⟨d, gone, deinit⟩ := retired
      obtain rfl : n = d := alone d gone deinit
      rcases kind with ⟨_, _, notDeinit⟩ | ⟨_, data, _⟩
      · exact absurd deinit notDeinit
      · have control : ¬ isControl EVENT_STR_CTRL_DEINIT = false := by decide
        simp [unknown, data, control, thisMissedCnt]
    · have backward : (~~~BitVec.ofNat 32 ((numbers read i).sup id - n)).toInt < 0 :=
        toInt_of_behind (by simp only at near; omega)
      rw [h.thisMissedCnt_again seen retired, if_pos backward]

end Tracks

end Tracks

/-! ## Along a run -/

section Run

variable {pubs : Publishers ι} {ls : List (Label (Option (ι × Nat)))}
  {l : Label (Option (ι × Nat))} {sys sys' : System (Option (ι × Nat))}

def Publishers.tagged (pubs : Publishers ι) (item : ι × Nat) : Option ((ι × Nat) × Event) :=
  (pubs.event item).map (item, ·)

/-- The subscriber keeps up: it knows the newest numbers, and it has returned the events
    it has read, each for its first message. -/
structure Follows (pubs : Publishers ι) (ls : List (Label (Option (ι × Nat))))
    (sys : System (Option (ι × Nat))) : Prop where
  tracks : Tracks pubs (items ls) sys.subscriber.track
  returned : returned ls = (firsts (items ls)).filterMap pubs.tagged

namespace Follows

theorem initially (pubs : Publishers ι) (cacheRead : Bool) :
    Follows pubs [] (start _ cacheRead) where
  tracks := .initially pubs
  returned := rfl

theorem handled (h : Follows pubs ls sys) {source i n m}
    {now missedCnt} {sub : EventSubscriber (Option (ι × Nat))} {round}
    (orderly : Orderly pubs (items (ls ++ [.read source (some (i, n)) round])))
    (read : pubs.deserialize (some (i, n)) = some m)
    (same : sub.track = sys.subscriber.track)
    (handled : sub.handle now missedCnt m = (sys'.subscriber, round)) :
    round = Tracks.loop pubs (items ls) (i, n) missedCnt ∧
      Tracks pubs (items ls ++ [(i, n)]) sys'.subscriber.track := by
  have order := orderly.of_read
  have tracks : Tracks pubs (items ls) sub.track := same ▸ h.tracks
  obtain ⟨track, spec, after⟩ := tracks.handle order read now missedCnt
  rw [handled] at spec
  obtain ⟨rest, rfl⟩ := Prod.mk.inj spec
  exact ⟨rfl, by rw [rest]; exact after⟩

theorem step (h : Follows pubs ls sys) (orderly : Orderly pubs (items (ls ++ [l])))
    (step : Step pubs.deserialize sys l sys') : Follows pubs (ls ++ [l]) sys' := by
  cases step.outcome with
  | called _ _ same | cacheRead _ same | failed _ _ same =>
    refine ⟨?_, ?_⟩
    · simpa [same] using h.tracks
    · simpa [Events.returned] using h.returned
  | @read source e m now missedCnt sub round busy read same handled after =>
    obtain ⟨i, n, rfl, read⟩ := pubs.deserialize_item read
    obtain ⟨rfl, tracks⟩ := h.handled orderly read same handled
    have read : items (ls ++ [.read source (some (i, n))
        (Tracks.loop pubs (items ls) (i, n) missedCnt)]) = items ls ++ [(i, n)] := by
      simp
    refine ⟨read ▸ tracks, ?_⟩
    rw [read, firsts_snoc, filterMap_append, ← h.returned, Events.returned, filterMap_append]
    congr 1
    by_cases seen : (i, n) ∈ items ls
    · simp [Tracks.loop, seen]
    · cases event : pubs.event (i, n) with
      | none => simp [Tracks.loop, event, Publishers.tagged]
      | some event => simp [Tracks.loop, seen, event, Publishers.tagged]

theorem run {cacheRead} (run : Run (Step pubs.deserialize) (start _ cacheRead) ls sys)
    (orderly : Orderly pubs (items ls)) : Follows pubs ls sys := by
  refine Run.invariant (I := fun ls sys => Orderly pubs (items ls) → Follows pubs ls sys)
    (fun _ => initially pubs cacheRead) ?_ run orderly
  intro ls sys l sys' ih step orderly
  exact (ih (orderly.of_append)).step orderly step

theorem ordered (h : Follows pubs ls sys) (orderly : Orderly pubs (items ls)) :
    (Events.returned ls).Pairwise fun a b => a.1.1 = b.1.1 → a.1.2 < b.1.2 := by
  rw [h.returned, pairwise_filterMap]
  refine orderly.firsts.imp ?_
  intro a b inOrder a' tagged b' tagged'
  obtain ⟨_, _, rfl⟩ := Option.map_eq_some_iff.mp tagged
  obtain ⟨_, _, rfl⟩ := Option.map_eq_some_iff.mp tagged'
  exact inOrder

end Follows

/-! ## The count -/

def total {ε : Type} (ls : List (Label ε)) : Nat :=
  ((reported ls).map BitVec.toNat).sum

section Total

variable {ε : Type} (ls ks : List (Label ε)) (source : Source) (e : ε) (missedCnt : BitVec 32)

@[simp]
theorem total_done (event : Event) :
    total (.read source e (.done event missedCnt) :: ls) = missedCnt.toNat + total ls := rfl

@[simp]
theorem total_nil : total ([] : List (Label ε)) = 0 := rfl

@[simp]
theorem total_called : total (.called :: ls) = total ls := rfl

@[simp]
theorem total_cacheRead (lst : List ε) : total (.cacheRead lst :: ls) = total ls := rfl

@[simp]
theorem total_failed (rc : Int) :
    total (.failed rc missedCnt :: ls) = missedCnt.toNat + total ls := rfl

@[simp]
theorem total_next : total (.read source e (.next missedCnt) :: ls) = total ls := rfl

@[simp]
theorem total_append : total (ls ++ ks) = total ls + total ks := by
  simp [total, reported]

end Total

/-- No call finds as many messages lost as its count has values. -/
def FitsWord (ls : List (Label (Option (ι × Nat)))) : Prop :=
  ∀ before during after, ls = before ++ .called :: during ++ after → .called ∉ during →
    lost (items (before ++ during)) < lost (items before) + 2 ^ 32

theorem FitsWord.of_append {ks} (fits : FitsWord (ls ++ ks)) :
    FitsWord ls := by
  intro before during after split
  exact fits before during (after ++ ks) (by rw [split, append_assoc])

/-- What the call under way has found lost since it began, and calls before it have
    reported the rest. -/
def Finding (ls : List (Label (Option (ι × Nat)))) (found : Nat) : Prop :=
  ∃ before during, ls = before ++ .called :: during ∧ .called ∉ during ∧
    total ls = lost (items before) ∧ lost (items ls) = lost (items before) + found

namespace Finding

variable {found k : Nat}

theorem called (reported : total ls = lost (items ls)) : Finding (ls ++ [.called]) 0 := by
  refine ⟨ls, [], rfl, not_mem_nil, ?_, ?_⟩
  · simpa using reported
  · simp

theorem snoc (finding : Finding ls found) (inside : l ≠ .called)
    (silent : total (ls ++ [l]) = total ls)
    (shown : lost (items (ls ++ [l])) = lost (items ls) + k) :
    Finding (ls ++ [l]) (found + k) := by
  obtain ⟨before, during, split, quiet, reported, lost⟩ := finding
  refine ⟨before, during ++ [l], by rw [split]; simp, ?_, silent.trans reported, ?_⟩
  · simp [quiet, inside.symm]
  · rw [shown, lost, Nat.add_assoc]

theorem lt (finding : Finding ls found) (fits : FitsWord (ls ++ [l])) (inside : l ≠ .called)
    (shown : lost (items (ls ++ [l])) = lost (items ls) + k) : found + k < 2 ^ 32 := by
  obtain ⟨before, during, split, quiet, reported, lost⟩ := finding
  have bound := fits before (during ++ [l]) [] (by rw [split]; simp) (by simp [quiet, inside.symm])
  have same : items (before ++ (during ++ [l])) = items (ls ++ [l]) := by
    rw [split]
    simp
  rw [same] at bound
  omega

theorem total_eq (finding : Finding ls found) (fits : FitsWord (ls ++ [l])) (inside : l ≠ .called)
    (shown : lost (items (ls ++ [l])) = lost (items ls) + k)
    (reports : total (ls ++ [l]) = total ls + (BitVec.ofNat 32 (found + k)).toNat) :
    total (ls ++ [l]) = lost (items (ls ++ [l])) := by
  have small := finding.lt fits inside shown
  obtain ⟨before, during, split, quiet, reported, lost⟩ := finding
  rw [reports, BitVec.toNat_ofNat, Nat.mod_eq_of_lt small, shown, lost, reported, Nat.add_assoc]

end Finding

/-- All that is lost has been reported, but for what the call under way has found. -/
structure Counted (ls : List (Label (Option (ι × Nat)))) (sys : System (Option (ι × Nat))) :
    Prop where
  idle : sys.call = none → total ls = lost (items ls)
  busy : ∀ missedCnt, sys.call = some missedCnt →
    ∃ found, missedCnt = BitVec.ofNat 32 found ∧ Finding ls found

namespace Counted

theorem initially (cacheRead : Bool) : Counted [] (start (Option (ι × Nat)) cacheRead) where
  idle _ := lost_nil.symm
  busy _ call := nomatch call

theorem step (h : Counted ls sys) (follows : Follows pubs ls sys)
    (orderly : Orderly pubs (items (ls ++ [l]))) (fits : FitsWord (ls ++ [l]))
    (step : Step pubs.deserialize sys l sys') : Counted (ls ++ [l]) sys' := by
  cases step.outcome with
  | called idle busy _ =>
    refine ⟨fun idle => (nomatch busy.symm.trans idle), fun missedCnt call => ?_⟩
    obtain rfl := Option.some.inj (busy.symm.trans call)
    exact ⟨0, rfl, .called (h.idle idle)⟩
  | cacheRead still _ =>
    refine ⟨fun idle => ?_, fun missedCnt call => ?_⟩
    · simpa using h.idle (still.symm.trans idle)
    · obtain ⟨found, rfl, finding⟩ := h.busy missedCnt (still.symm.trans call)
      refine ⟨found + 0, rfl, finding.snoc nofun ?_ ?_⟩
      · simp
      · simp
  | failed busy idle _ =>
    refine ⟨fun _ => ?_, fun missedCnt call => (nomatch idle.symm.trans call)⟩
    obtain ⟨found, rfl, finding⟩ := h.busy _ busy
    refine finding.total_eq (k := 0) fits nofun ?_ ?_
    · simp
    · simp
  | @read source e m now missedCnt sub round busy read same handled after =>
    obtain ⟨i, n, rfl, read⟩ := pubs.deserialize_item read
    have order := orderly.of_read
    have shown : lost (items (ls ++ [.read source (some (i, n)) round])) =
        lost (items ls) + gap (numbers (items ls) i) n := by
      rw [← lost_snoc order]
      simp
    obtain ⟨found, rfl, finding⟩ := h.busy _ busy
    obtain ⟨kind, -⟩ := follows.handled orderly read same handled
    rcases Tracks.loop_cases pubs (items ls) (i, n) (BitVec.ofNat 32 found) with
      ⟨event, done⟩ | next
    · rw [kind, done] at after
      rw [kind, done] at fits shown ⊢
      refine ⟨fun _ => ?_, fun missedCnt call => (nomatch after.symm.trans call)⟩
      refine finding.total_eq fits nofun shown ?_
      simp
    · rw [kind, next] at after
      rw [kind, next] at shown ⊢
      refine ⟨fun idle => (nomatch after.symm.trans idle), fun missedCnt call => ?_⟩
      obtain rfl := Option.some.inj (after.symm.trans call)
      refine ⟨_, (BitVec.ofNat_add _ _).symm, finding.snoc nofun ?_ shown⟩
      simp

theorem run {cacheRead} (run : Run (Step pubs.deserialize) (start _ cacheRead) ls sys)
    (orderly : Orderly pubs (items ls)) (fits : FitsWord ls) : Counted ls sys := by
  refine (Run.invariant (I := fun ls sys => Orderly pubs (items ls) →
    Follows pubs ls sys ∧ (FitsWord ls → Counted ls sys)) ?_ ?_ run orderly).2 fits
  · exact fun _ => ⟨.initially pubs cacheRead, fun _ => initially cacheRead⟩
  · intro ls sys l sys' ih step orderly
    obtain ⟨follows, counted⟩ := ih orderly.of_append
    exact ⟨follows.step orderly step, fun fits =>
      (counted fits.of_append).step follows orderly fits step⟩

end Counted

theorem Orderly.lost_le {read rest} (orderly : Orderly pubs (read ++ rest)) :
    lost read ≤ lost (read ++ rest) := by
  induction rest using reverseRecOn with
  | nil => rw [append_nil]
  | append_singleton rest item ih =>
    rw [← append_assoc] at orderly ⊢
    obtain ⟨before, order⟩ := orderly.of_snoc
    rw [lost_snoc order]
    exact (ih before).trans (Nat.le_add_right _ _)

theorem FitsWord.of_lost_lt (orderly : Orderly pubs (items ls)) (few : lost (items ls) < 2 ^ 32) :
    FitsWord ls := by
  intro before during after split _
  have read : items ls = items (before ++ during) ++ items after := by
    rw [split]
    simp
  rw [read] at orderly few
  have := orderly.lost_le
  omega

/-- Over any calls the events are returned that are read, each once and in the order they were sent,
    and the counts add up to what is lost, provided that no call finds more than its count can hold.
    -/
theorem missed_accounting {cacheRead : Bool}
    (run : Run (Step pubs.deserialize) (start _ cacheRead) ls sys)
    (orderly : Orderly pubs (items ls)) :
    returned ls = (firsts (items ls)).filterMap pubs.tagged ∧
      ((returned ls).Pairwise fun a b => a.1.1 = b.1.1 → a.1.2 < b.1.2) ∧
      (sys.call = none → FitsWord ls → total ls = lost (items ls)) := by
  have follows := Follows.run run orderly
  refine ⟨follows.returned, follows.ordered orderly, fun idle fits => ?_⟩
  exact (Counted.run run orderly fits).idle idle

/-! ## Streams that can be read -/

/-- A subscriber without a cache has taken these steps, and its call is as given. -/
def Session (pubs : Publishers ι) (ls : List (Label (Option (ι × Nat))))
    (call : Option (BitVec 32)) : Prop :=
  ∃ sys, Run (Step pubs.deserialize) (start _ false) ls sys ∧ Orderly pubs (items ls) ∧
    sys.call = call ∧ sys.subscriber.cacheRead = false ∧ sys.subscriber.fromCache = []

namespace Session

variable {missedCnt : BitVec 32}

theorem nil (pubs : Publishers ι) : Session pubs [] none :=
  ⟨_, .refl _, fun earlier item none => absurd none (by simp), rfl, rfl, rfl⟩

theorem called (session : Session pubs ls none) : Session pubs (ls ++ [.called]) (some 0) := by
  obtain ⟨sys, run, orderly, idle, noMore, empty⟩ := session
  exact ⟨_, run.snoc (.call idle), by simpa using orderly, rfl, noMore, empty⟩

theorem failed (session : Session pubs ls (some missedCnt)) {rc} (bad : rc ≠ 0) :
    Session pubs (ls ++ [.failed rc missedCnt]) none := by
  obtain ⟨sys, run, orderly, busy, noMore, empty⟩ := session
  exact ⟨_, run.snoc (.failed busy noMore empty bad), by simpa using orderly, rfl, noMore,
    empty⟩

theorem read (session : Session pubs ls (some missedCnt)) (item : ι × Nat)
    (sent : item.2 < (pubs.life item.1).publications.length)
    (order : InOrder pubs (items ls) item) :
    Session pubs (ls ++ [.read .socket (some item) (Tracks.loop pubs (items ls) item missedCnt)])
      (Tracks.loop pubs (items ls) item missedCnt).call := by
  obtain ⟨sys, run, orderly, busy, noMore, empty⟩ := session
  have message : pubs.deserialize (some item) = some (EventPublisher.message
      (pubs.life item.1).runtimeId (pubs.life item.1).publications[item.2]
      (BitVec.ofNat 32 (item.2 + 1))) := by
    rw [Publishers.deserialize, Lifetime.messages_getElem?, getElem?_eq_getElem sent]
    rfl
  obtain ⟨track, handled, -⟩ := (Follows.run run orderly).tracks.handle order message 0 missedCnt
  refine ⟨_, run.snoc (.received busy noMore empty message handled), ?_, rfl, noMore, empty⟩
  simpa using orderly.snoc order

theorem event (session : Session pubs ls (some missedCnt)) {i n k e}
    (sent : (pubs.life i).events[n]? = some e) (ahead : ∀ m ∈ numbers (items ls) i, m < n)
    (shown : gap (numbers (items ls) i) n = k) (near : k < 2 ^ 31) :
    Session pubs (ls ++ [.read .socket (some (i, n))
      (.done ⟨e.data, min (2 ^ 63 - 1) e.epoch⟩ (missedCnt + BitVec.ofNat 32 k))]) none := by
  have new : (i, n) ∉ items ls := fun member =>
    absurd (ahead n (mem_numbers.mpr member)) (Nat.lt_irrefl n)
  have inside : n < (pubs.life i).publications.length := by
    have := (List.getElem?_eq_some_iff.mp sent).1
    simp only [Lifetime.publications, List.length_append]
    omega
  have done : Tracks.loop pubs (items ls) (i, n) missedCnt =
      .done ⟨e.data, min (2 ^ 63 - 1) e.epoch⟩ (missedCnt + BitVec.ofNat 32 k) := by
    simp only [Tracks.loop, if_neg new, Publishers.event, sent, Option.map_some, shown]
  have after := session.read (i, n) inside (.inl ⟨ahead, by rw [shown]; exact near⟩)
  rwa [done] at after

theorem deinit (session : Session pubs ls (some missedCnt)) {i n k}
    (last : (pubs.life i).IsDeinit n) (ahead : ∀ m ∈ numbers (items ls) i, m < n)
    (shown : gap (numbers (items ls) i) n = k) (near : k < 2 ^ 31) :
    Session pubs (ls ++ [.read .socket (some (i, n)) (.next (missedCnt + BitVec.ofNat 32 k))])
      (some (missedCnt + BitVec.ofNat 32 k)) := by
  have inside : n < (pubs.life i).publications.length := by
    obtain ⟨epoch, removed⟩ := Option.isSome_iff_exists.mp last.1
    simp [Lifetime.publications, removed, last.2]
  have none : (pubs.life i).events[n]? = none := getElem?_eq_none (le_of_eq last.2.symm)
  have next : Tracks.loop pubs (items ls) (i, n) missedCnt =
      .next (missedCnt + BitVec.ofNat 32 k) := by
    simp [Tracks.loop, Publishers.event, none, shown]
  have after := session.read (i, n) inside (.inl ⟨ahead, by rw [shown]; exact near⟩)
  rwa [next] at after

end Session

/-! ## Three publishers that lose much -/

/-- As many events each as there are numbers ahead, and a control message behind them. -/
private def talkative (published : Nat) : Publishers (Fin 3) where
  life i := ⟨[65 + UInt8.ofNat i], replicate published ⟨ascii "\x7b\x7d", 0⟩, some 0, by
    intro e member
    rw [eq_of_mem_replicate member]
    decide⟩
  distinct := by
    change Function.Injective fun i : Fin 3 => [65 + UInt8.ofNat i]
    decide
  few := by decide

/-- An event is lost between two that are read. -/
theorem missed_accounting_one_lost :
    ∃ ls sys, Run (Step (talkative 3).deserialize) (start _ false) ls sys ∧
      items ls = [(0, 0), (0, 2)] ∧ total ls = 1 ∧
      (returned ls).map Prod.fst = [(0, 0), (0, 2)] := by
  have first := (Session.nil (talkative 3)).called.event (i := 0) (n := 0) (k := 0) rfl
    (by decide) (by decide) (by decide)
  have second := first.called.event (i := 0) (n := 2) (k := 1) rfl (by decide) (by decide)
    (by decide)
  obtain ⟨sys, run, orderly, idle, -⟩ := second
  obtain ⟨returned, -, counts⟩ := missed_accounting run orderly
  have few : lost [((0 : Fin 3), 0), (0, 2)] = 1 := by decide
  refine ⟨_, sys, run, rfl, ?_, ?_⟩
  · exact (counts idle (.of_lost_lt orderly (few.trans_lt (by decide)))).trans few
  · rw [returned]
    rfl

private theorem talkative_event {published n} (i : Fin 3) (inside : n < published) :
    ((talkative published).life i).events[n]? = some ⟨ascii "\x7b\x7d", 0⟩ :=
  getElem?_replicate_of_lt inside

private theorem talkative_deinit (published : Nat) (i : Fin 3) :
    ((talkative published).life i).IsDeinit published :=
  ⟨rfl, length_replicate.symm⟩

/-- Each publisher loses all events but the first. One call reads their control messages, and its
    count wraps around. -/
theorem missed_accounting_wraps :
    ∃ ls sys, Run (Step (talkative (2 ^ 31)).deserialize) (start _ false) ls sys ∧
      Orderly (talkative (2 ^ 31)) (items ls) ∧ sys.call = none ∧
      lost (items ls) = 3 * (2 ^ 31 - 1) ∧ total ls = 2 ^ 31 - 3 := by
  have inside : 0 < 2 ^ 31 := by decide
  have timeout : (11 : Int) ≠ 0 := by decide
  have first := (Session.nil (talkative (2 ^ 31))).called.event (k := 0)
    (talkative_event 0 inside) (by decide) (by decide) (by decide)
  have second := first.called.event (k := 0) (talkative_event 1 inside) (by decide) (by decide)
    (by decide)
  have third := second.called.event (k := 0) (talkative_event 2 inside) (by decide) (by decide)
    (by decide)
  have fourth := third.called.deinit (k := 2 ^ 31 - 1) (talkative_deinit _ 0) (by decide)
    (by decide) (by decide)
  have fifth := fourth.deinit (k := 2 ^ 31 - 1) (talkative_deinit _ 1) (by decide) (by decide)
    (by decide)
  have sixth := fifth.deinit (k := 2 ^ 31 - 1) (talkative_deinit _ 2) (by decide) (by decide)
    (by decide)
  obtain ⟨sys, run, orderly, idle, -⟩ := sixth.failed timeout
  refine ⟨_, sys, run, orderly, idle, ?_, by decide⟩
  have each (i : Fin 3) :
      numbers [(0, 0), (1, 0), (2, 0), (0, 2 ^ 31), (1, 2 ^ 31), (2, 2 ^ 31)] i =
        insert (2 ^ 31) {0} := by
    revert i
    decide
  have gone : (missing (insert (2 ^ 31) {0})).card = 2 ^ 31 - 1 := by
    rw [card_missing_insert (.inr (.inl (by decide))), missing_singleton]
    decide
  calc lost _ = ∑ i : Fin 3, (missing (insert (2 ^ 31) {0})).card :=
        Finset.sum_congr rfl fun i _ => by rw [← each i]; rfl
    _ = 3 * (2 ^ 31 - 1) := by rw [gone]; rfl

end Run

end SwssCommon.Events
