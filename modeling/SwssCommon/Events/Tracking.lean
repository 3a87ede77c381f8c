import SwssCommon.Events.Subscriber
import SwssCommon.Lib.OrderedMap

/-! # How many publishers a subscriber remembers

When a new publisher turns up and there are too many already, the table is first cut down by whole
seconds, those not heard of for longest first.
-/

namespace SwssCommon.Events

open Std.ExtTreeMap

/-- What is left of a table: few enough entries, none changed, and every one of them of a later
    second than all that have gone. -/
structure Pruned (track left : TrackInfo) : Prop where
  few : left.size ≤ MAX_PUBLISHERS_COUNT
  kept : ∀ (r : Bytes) e, left[r]? = some e → track[r]? = some e
  oldest : ∀ (r : Bytes) e (r' : Bytes) e',
    track[r]? = some e → left[r]? = none → left[r']? = some e' →
    e.epochSecs < e'.epochSecs
  within : track.size ≤ MAX_PUBLISHERS_COUNT → left = track

/-- One second of the loop of `prune_track`. -/
def pruneSecond (track : TrackInfo) (itc : Int × List Bytes) : TrackInfo :=
  if track.size > MAX_PUBLISHERS_COUNT then itc.2.foldl (fun track r => track.erase r) track
  else track

theorem foldl_pruneSecond_of_few {track} (few : track.size ≤ MAX_PUBLISHERS_COUNT)
    (seconds : List (Int × List Bytes)) : seconds.foldl pruneSecond track = track := by
  induction seconds with
  | nil => rfl
  | cons itc seconds ih => rw [List.foldl_cons, pruneSecond, if_neg (Nat.not_lt.mpr few), ih]

/-- The seconds stand in order, every entry of the table is in the list of its second, and no
    list names an entry of another one. -/
structure Sorted (seconds : List (Int × List Bytes)) (track : TrackInfo) : Prop where
  ordered : seconds.Pairwise fun a b => a.1 < b.1
  listed : ∀ (r : Bytes) e, track[r]? = some e → ∃ itc ∈ seconds, itc.1 = e.epochSecs ∧ r ∈ itc.2
  own : ∀ itc ∈ seconds, ∀ r ∈ itc.2, ∀ e, track[r]? = some e → e.epochSecs = itc.1

theorem Sorted.rest {itc : Int × List Bytes} {seconds : List (Int × List Bytes)}
    {track left : TrackInfo} (sorted : Sorted (itc :: seconds) track)
    (erased : ∀ r, left[r]? = if r ∈ itc.2 then none else track[r]?) : Sorted seconds left where
  ordered := sorted.ordered.of_cons
  listed r e found := by
    rw [erased] at found
    split at found
    · cases found
    · next other =>
      obtain ⟨itc', member, own, listed⟩ := sorted.listed r e found
      rcases List.mem_cons.mp member with rfl | later
      · exact absurd listed other
      · exact ⟨itc', later, own, listed⟩
  own itc' member r listed e found := by
    rw [erased] at found
    split at found
    · cases found
    · exact sorted.own itc' (.tail _ member) r listed e found

theorem pruned_of_few {track} (few : track.size ≤ MAX_PUBLISHERS_COUNT) :
    Pruned track track := by
  refine ⟨few, fun _ _ found => found, fun r e r' e' found gone => ?_, fun _ => rfl⟩
  rw [found] at gone
  cases gone

theorem pruned_foldl {seconds track}
    (sorted : Sorted seconds track) : Pruned track (seconds.foldl pruneSecond track) := by
  induction seconds generalizing track with
  | nil =>
    have empty : track = ∅ := ext_getElem? fun r => by
      cases found : track[r]? with
      | none => rw [getElem?_empty]
      | some e => simpa using sorted.listed r e found
    exact pruned_of_few (by rw [empty, size_empty]; exact Nat.zero_le _)
  | cons itc seconds ih =>
    by_cases few : track.size ≤ MAX_PUBLISHERS_COUNT
    · rw [foldl_pruneSecond_of_few few]
      exact pruned_of_few few
    · have erased := OrderedMap.getElem?_foldl_erase itc.2 track
      rw [List.foldl_cons, pruneSecond, if_pos (Nat.not_le.mp few)]
      generalize itc.2.foldl (fun track r => track.erase r) track = left at erased
      have rest := sorted.rest erased
      have pruned := ih rest
      have kept (r : Bytes) (e) (found : left[r]? = some e) : track[r]? = some e := by
        rw [erased] at found
        split at found
        · cases found
        · exact found
      refine ⟨pruned.few, fun r e found => kept r e (pruned.kept r e found), ?_, (absurd · few)⟩
      intro r e r' e' found gone survives
      by_cases now : r ∈ itc.2
      · obtain ⟨itc', later, own, -⟩ := rest.listed r' e' (pruned.kept r' e' survives)
        rw [sorted.own itc (.head _) r now e found, ← own]
        exact List.rel_of_pairwise_cons sorted.ordered later
      · exact pruned.oldest r e r' e' (by rw [erased, if_neg now, found]) gone survives

/-! ## The seconds of a table -/

/-- The map `lst` of `prune_track`. -/
def seconds (entries : List (Bytes × EvtInfo)) : Std.ExtTreeMap Int (List Bytes) :=
  entries.foldl
    (fun lst e => lst.insert e.2.epochSecs ((lst[e.2.epochSecs]?).getD [] ++ [e.1])) ∅

theorem seconds_getD (entries : List (Bytes × EvtInfo)) (secs : Int) :
    ((seconds entries)[secs]?).getD [] =
      (entries.filter fun e => e.2.epochSecs = secs).map (·.1) := by
  unfold seconds
  induction entries using List.reverseRecOn with
  | nil => rfl
  | append_singleton entries e ih =>
    rw [List.foldl_concat, getElem?_insert, List.filter_append, List.map_append, ← ih]
    simp only [Std.LawfulEqCmp.compare_eq_iff_eq]
    by_cases same : e.2.epochSecs = secs <;> simp [same]

theorem mem_seconds {track : TrackInfo} {secs} {r : Bytes} :
    r ∈ ((seconds track.toList)[secs]?).getD [] ↔
      ∃ e, track[r]? = some e ∧ e.epochSecs = secs := by
  rw [seconds_getD]
  simp [mem_toList_iff_getElem?_eq_some]

theorem sorted_seconds (track : TrackInfo) : Sorted (seconds track.toList).toList track where
  ordered := ordered_keys_toList.imp fun before => compare_lt_iff_lt.mp before
  listed r e found := by
    have member := mem_seconds.mpr ⟨e, found, rfl⟩
    cases second : (seconds track.toList)[e.epochSecs]? with
    | none => simp [second] at member
    | some ids =>
      rw [second] at member
      exact ⟨(e.epochSecs, ids), mem_toList_iff_getElem?_eq_some.mpr second, rfl, member⟩
  own itc member r listed e found := by
    rw [mem_toList_iff_getElem?_eq_some] at member
    have here : r ∈ ((seconds track.toList)[itc.1]?).getD [] := by rwa [member]
    obtain ⟨e', found', own⟩ := mem_seconds.mp here
    rw [found, Option.some.injEq] at found'
    rw [found', own]

theorem pruned_pruneTrack (track : TrackInfo) : Pruned track (pruneTrack track) :=
  pruned_foldl (sorted_seconds track)

/-! ## Runs -/

section Runs

variable {ε : Type}

theorem room {track : TrackInfo} (bounded : track.size ≤ MAX_PUBLISHERS_COUNT + 11) (r : Bytes) :
    let left :=
      if track[r]?.isNone ∧ track.size > MAX_PUBLISHERS_COUNT + 10 then pruneTrack track else track
    left.size ≤ MAX_PUBLISHERS_COUNT + 11 ∧ (r ∉ left → left.size ≤ MAX_PUBLISHERS_COUNT + 10) := by
  intro left
  simp only [left]
  split_ifs with full
  · have few := (pruned_pruneTrack track).few
    omega
  · refine ⟨bounded, fun unknown => Nat.not_lt.mp fun many => full ⟨?_, many⟩⟩
    rw [getElem?_eq_none unknown]
    rfl

theorem handle_size {sub : EventSubscriber ε} (bounded : sub.track.size ≤ MAX_PUBLISHERS_COUNT + 11)
    (now : Int) (missedCnt : BitVec 32) (m : InternalEvent) :
    (sub.handle now missedCnt m).1.track.size ≤ MAX_PUBLISHERS_COUNT + 11 := by
  obtain ⟨bounded, room⟩ := room bounded (m.get EVENT_RUNTIME_ID)
  simp only [EventSubscriber.handle]
  generalize (if sub.track[m.get EVENT_RUNTIME_ID]?.isNone ∧
    sub.track.size > MAX_PUBLISHERS_COUNT + 10 then pruneTrack sub.track else sub.track) = left
    at bounded room ⊢
  split_ifs
  · exact bounded
  · rw [size_insert]
    split_ifs with known
    · exact bounded
    · exact Nat.succ_le_succ (room known)
  · exact size_erase_le.trans bounded
  · exact bounded

end Runs

/-- The table is cut down as it should be, and after every run it is at most eleven over the
    limit. -/
theorem publishers_bounded :
    (∀ track, Pruned track (pruneTrack track)) ∧
      ∀ {ε : Type} (deserialize : ε → Option InternalEvent) (cacheRead : Bool) ls sys,
        Run (Step deserialize) (start ε cacheRead) ls sys →
          sys.subscriber.track.size ≤ MAX_PUBLISHERS_COUNT + 11 := by
  refine ⟨pruned_pruneTrack, fun deserialize cacheRead ls sys run => ?_⟩
  refine run.invariant (I := fun _ sys => sys.subscriber.track.size ≤ MAX_PUBLISHERS_COUNT + 11)
    (Nat.zero_le _) fun bounded step => ?_
  cases step.outcome with
  | called _ _ same | cacheRead _ same | failed _ _ same => rwa [same]
  | @read _ _ m now missedCnt _ _ _ _ same handled _ =>
    rw [← same] at bounded
    simpa only [handled] using handle_size bounded now missedCnt m

end SwssCommon.Events
