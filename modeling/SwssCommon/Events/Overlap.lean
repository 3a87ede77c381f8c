import SwssCommon.Events.Accounting

/-! # Events are returned at most once

The cache goes on for a while after a subscriber has opened its socket, so that what the cache gives
in the end comes again. The subscriber should recognise it by its numbers, but a control message
makes it forget those of a publisher.
-/

namespace SwssCommon.Events

open Bytes Serial List

variable {ι : Type} [DecidableEq ι]

/-! ## First the cache, then the socket -/

def itemsFrom (source : Source) (ls : List (Label (Option (ι × Nat)))) : List (ι × Nat) :=
  ls.filterMap fun
    | .read source' e _ => if source' = source then e else none
    | _ => none

section ItemsFrom

variable (ls ks : List (Label (Option (ι × Nat)))) (source : Source)

omit [DecidableEq ι]

@[simp]
theorem itemsFrom_read (e : Option (ι × Nat)) (round : Loop) :
    itemsFrom source (.read source e round :: ls) = e.toList ++ itemsFrom source ls := by
  cases e <;> simp [itemsFrom]

@[simp]
theorem itemsFrom_read_of_ne {source'} (other : source' ≠ source) (e : Option (ι × Nat))
    (round : Loop) : itemsFrom source (.read source' e round :: ls) = itemsFrom source ls := by
  simp [itemsFrom, other]

@[simp]
theorem itemsFrom_nil : itemsFrom source ([] : List (Label (Option (ι × Nat)))) = [] := rfl

@[simp]
theorem itemsFrom_called : itemsFrom source (.called :: ls) = itemsFrom source ls := rfl

@[simp]
theorem itemsFrom_cacheRead (lst : List (Option (ι × Nat))) :
    itemsFrom source (.cacheRead lst :: ls) = itemsFrom source ls := rfl

@[simp]
theorem itemsFrom_failed (rc : Int) (missedCnt : BitVec 32) :
    itemsFrom source (.failed rc missedCnt :: ls) = itemsFrom source ls := rfl

@[simp]
theorem itemsFrom_append :
    itemsFrom source (ls ++ ks) = itemsFrom source ls ++ itemsFrom source ks :=
  filterMap_append

end ItemsFrom

/-- The numbers of a publisher, in the order in which they were read. -/
def row (read : List (ι × Nat)) (i : ι) : List Nat :=
  (read.filter (·.1 = i)).map (·.2)

section CacheFirst

variable {deserialize : Option (ι × Nat) → Option InternalEvent}
  {ls : List (Label (Option (ι × Nat)))} {l : Label (Option (ι × Nat))}
  {sys sys' : System (Option (ι × Nat))}

/-- Nothing is read from the cache once something has been read from the socket. -/
structure CacheFirst (ls : List (Label (Option (ι × Nat)))) (sys : System (Option (ι × Nat))) :
    Prop where
  split : items ls = itemsFrom .cache ls ++ itemsFrom .socket ls
  finished : itemsFrom .socket ls ≠ [] →
    sys.subscriber.cacheRead = false ∧ sys.subscriber.fromCache = []

namespace CacheFirst

omit [DecidableEq ι] in
theorem step (h : CacheFirst ls sys) (step : Step deserialize sys l sys') :
    CacheFirst (ls ++ [l]) sys' := by
  cases step with
  | call idle =>
    refine ⟨by simpa using h.split, fun some => h.finished ?_⟩
    simpa using some
  | readCache busy more empty =>
    refine ⟨by simpa using h.split, fun some => ?_⟩
    have finished := h.finished (by simpa using some)
    exact absurd more (by simp [finished.1])
  | @cached missedCnt e rest m now sub round busy front read handled =>
    have unread : itemsFrom .socket ls = [] := by
      by_contra some
      exact absurd ((h.finished some).2.symm.trans front) (by simp)
    refine ⟨?_, fun some => absurd ?_ some⟩
    · simp [h.split, unread]
    · simp [unread]
  | invalid busy front read =>
    refine ⟨by simpa using h.split, fun some => ?_⟩
    have finished := h.finished (by simpa using some)
    exact absurd (finished.2.symm.trans front) (by simp)
  | @received missedCnt e m now sub round busy noMore empty read handled =>
    have kept := sys.subscriber.handle_cache now missedCnt m
    rw [handled] at kept
    refine ⟨?_, fun _ => ⟨kept.1.trans noMore, kept.2.trans empty⟩⟩
    simp [h.split]
  | failed busy noMore empty bad =>
    exact ⟨by simpa using h.split, fun _ => ⟨noMore, empty⟩⟩

omit [DecidableEq ι] in
theorem run {cacheRead} (run : Run (Step deserialize) (start _ cacheRead) ls sys) :
    CacheFirst ls sys :=
  Run.invariant ⟨rfl, fun some => absurd rfl some⟩ (fun h step => h.step step) run

end CacheFirst

end CacheFirst

/-! ## What is recognised -/

section Once

variable [Fintype ι] {pubs : Publishers ι} {ls : List (Label (Option (ι × Nat)))}
  {sys : System (Option (ι × Nat))}

/-- Of each publisher the cache serves some messages in a row. The socket takes them up
    again among these or right behind them. -/
def Overlapping (ls : List (Label (Option (ι × Nat)))) : Prop :=
  ∀ i, ∃ first cached resumed received, row (itemsFrom .cache ls) i = range' first cached ∧
    row (itemsFrom .socket ls) i = range' resumed received ∧
    first ≤ resumed ∧ resumed ≤ first + cached

/-- The socket does not start over too far behind. It gives no event of a publisher whose
    control message was in the cache. -/
structure Recognisable (pubs : Publishers ι) (ls : List (Label (Option (ι × Nat)))) : Prop where
  near : ∀ i, ∀ c ∈ row (itemsFrom .cache ls) i, ∀ n ∈ row (itemsFrom .socket ls) i, c - n < 2 ^ 31
  retired : ∀ i, ∀ d ∈ row (itemsFrom .cache ls) i, (pubs.life i).IsDeinit d →
    ∀ n ∈ row (itemsFrom .socket ls) i, n = d

omit [Fintype ι] in
theorem row_append (read more : List (ι × Nat)) (i : ι) :
    row (read ++ more) i = row read i ++ row more i := by
  simp [row]

omit [Fintype ι] in
theorem row_prefix {read more} (before : read <+: more) (i : ι) :
    row read i <+: row more i :=
  (before.filter _).map _

theorem Overlapping.orderly (overlapping : Overlapping ls) (recognisable : Recognisable pubs ls)
    (split : items ls = itemsFrom .cache ls ++ itemsFrom .socket ls) :
    Orderly pubs (items ls) := by
  rintro earlier ⟨i, n⟩ before
  obtain ⟨first, cached, resumed, received, cache, socket, start, meets⟩ := overlapping i
  have rows : row earlier i ++ [n] <+:
      range' first cached ++ range' resumed received := by
    have prefixes := row_prefix before i
    rw [split, row_append, row_append, cache, socket] at prefixes
    simpa [row] using prefixes
  rcases next_or_again rows start meets with ⟨ahead, none⟩ | ⟨again, fromSocket, fromCache⟩
  · refine .inl ⟨fun k seen => ahead k (mem_toFinset.mp seen), ?_⟩
    exact lt_of_eq_of_lt none (by decide)
  · have seen : n ∈ numbers earlier i := mem_toFinset.mpr again
    rw [← socket] at fromSocket
    rw [← cache] at fromCache
    refine .inr ⟨seen, ?_, fun d member deinit => ?_⟩
    · have newest := sup_mem (Finset.ne_empty_of_mem seen)
      exact recognisable.near i _ (fromCache _ (mem_toFinset.mp newest)) n fromSocket
    · exact recognisable.retired i d (fromCache d (mem_toFinset.mp member)) deinit n fromSocket

/-- Over any sequence of calls, no event is returned twice. -/
theorem at_most_once {cacheRead : Bool}
    (run : Run (Step pubs.deserialize) (start _ cacheRead) ls sys) (overlapping : Overlapping ls)
    (recognisable : Recognisable pubs ls) : ((returned ls).map Prod.fst).Nodup := by
  have orderly := overlapping.orderly recognisable (CacheFirst.run run).split
  rw [(Follows.run run orderly).returned, map_filterMap]
  refine (nodup_firsts (items ls)).filterMap ?_
  intro a b item fromA fromB
  simp only [Publishers.tagged, Option.map_map, Option.mem_def,
    Option.map_eq_some_iff] at fromA fromB
  obtain ⟨_, _, rfl⟩ := fromA
  obtain ⟨_, _, same⟩ := fromB
  exact same.symm

end Once

/-! ## A publisher of one event -/

section Replayed

private def shortLived : Publishers Unit where
  life _ := ⟨ascii "A", [⟨ascii "\x7b\x7d", 0⟩], some 0, by decide⟩
  distinct := Function.injective_of_subsingleton _
  few := by decide

private def sent (n : Nat) : Option (Unit × Nat) := some ((), n)

private def known : TrackInfo := (∅ : TrackInfo).insert (ascii "A") ⟨0, 1⟩

private def served (cacheRead : Bool) (fromCache : List (Option (Unit × Nat))) (track : TrackInfo)
    (call : Option (BitVec 32)) : System (Option (Unit × Nat)) :=
  ⟨⟨cacheRead, fromCache, track⟩, call⟩

private def theEvent : Event := ⟨ascii "\x7b\x7d", 0⟩

private theorem event_cached (rest : List (Option (Unit × Nat))) :
    Run (Step shortLived.deserialize) (start _ true)
      [.called, .cacheRead (sent 0 :: rest), .read .cache (sent 0) (.done theEvent 0)]
      (served true rest known none) :=
  .cons (.call rfl) (.cons (.readCache rfl rfl rfl) (.single (.cached rfl rfl rfl rfl)))

/-- The event comes from the cache and again from the socket, and then the publisher
    retires. -/
theorem at_most_once_repeated :
    ∃ ls sys, Run (Step shortLived.deserialize) (start _ true) ls sys ∧
      itemsFrom .cache ls = [((), 0)] ∧ itemsFrom .socket ls = [((), 0), ((), 1)] ∧
      ((returned ls).map Prod.fst).Nodup := by
  have finished : Step shortLived.deserialize (served true [] known (some 0)) (.cacheRead [])
    (served false [] known (some 0)) := .readCache rfl rfl rfl
  have again : Step shortLived.deserialize (served false [] known (some 0))
    (.read .socket (sent 0) (.next 0)) (served false [] known (some 0)) :=
    .received rfl rfl rfl rfl (show EventSubscriber.handle _ 0 0 _ = _ from rfl)
  have retired : Step shortLived.deserialize (served false [] known (some 0))
    (.read .socket (sent 1) (.next 0)) (served false [] ∅ (some 0)) :=
    .received rfl rfl rfl rfl (show EventSubscriber.handle _ 0 0 _ = _ from rfl)
  have run := (event_cached []).append
    (.cons (.call rfl) (.cons finished (.cons again (.single retired))))
  refine ⟨_, _, run, rfl, rfl, at_most_once run (fun _ => ?_) ⟨?_, ?_⟩⟩
  · exact ⟨0, 1, 0, 2, rfl, rfl, by decide, by decide⟩
  · decide
  · decide

/-- The cache has the event and the control message, and the socket gives the event
    again: it is returned twice. -/
theorem at_most_once_retired :
    ∃ ls sys, Run (Step shortLived.deserialize) (start _ true) ls sys ∧ Overlapping ls ∧
      itemsFrom .cache ls = [((), 0), ((), 1)] ∧ itemsFrom .socket ls = [((), 0)] ∧
      (returned ls).map Prod.fst = [((), 0), ((), 0)] := by
  have retired : Step shortLived.deserialize (served true [sent 1] known (some 0))
    (.read .cache (sent 1) (.next 0)) (served true [] ∅ (some 0)) :=
    .cached rfl rfl rfl (show EventSubscriber.handle _ 0 0 _ = _ from rfl)
  have finished : Step shortLived.deserialize (served true [] ∅ (some 0)) (.cacheRead [])
    (served false [] ∅ (some 0)) := .readCache rfl rfl rfl
  have again : Step shortLived.deserialize (served false [] ∅ (some 0))
    (.read .socket (sent 0) (.done theEvent 0)) (served false [] known none) :=
    .received rfl rfl rfl rfl rfl
  have run := (event_cached [sent 1]).append
    (.cons (.call rfl) (.cons retired (.cons finished (.single again))))
  refine ⟨_, _, run, fun _ => ?_, rfl, rfl, rfl⟩
  exact ⟨0, 2, 0, 1, rfl, rfl, by decide, by decide⟩

end Replayed

end SwssCommon.Events
