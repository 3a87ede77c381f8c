import SwssCommon.ConfigDb.Connector
import SwssCommon.Lib.Dict

/-! # Typed configuration data

In Python a field is a string or a list of strings. In the database a list is one string with commas
under a name that ends in `@`, and an entry without fields has one that holds its place. Python
strings stand for their UTF-8 bytes.
-/

namespace SwssCommon

open Bytes Redis Throwing List Dict

namespace TypedConfig

inductive Typed where
  | text (s : Bytes)
  | list (l : List Bytes)
  deriving DecidableEq

abbrev TypedData := Dict Bytes Typed

inductive PyKey where
  | text (key : Bytes)
  | tuple (keys : List Bytes)
  deriving DecidableEq

def NULL : Bytes := ascii "NULL"

def comma : UInt8 := 44

/-- `@`. -/
def mark : UInt8 := 64

/-- What `raw_to_typed` sets for a field. -/
def typedItem : Bytes × Bytes → Option (Bytes × Typed)
  | (key, value) =>
    if key = NULL then none
    else if key.getLast? = some mark then some (key.dropLast, .list (value.splitOn comma))
    else some (key, .text value)

/-- `raw_to_typed`, of fields in the order in which they are visited. -/
def rawToTyped (rawData : List (Bytes × Bytes)) : TypedData :=
  .ofItems (rawData.filterMap typedItem)

/-- What `typed_to_raw` sets for a field. -/
def rawItem : Bytes × Typed → Bytes × Bytes
  | (key, .list value) => (key ++ [mark], [comma].intercalate value)
  | (key, .text value) => (key, value)

/-- `typed_to_raw`, with `none` for `None`. -/
def typedToRaw : Option TypedData → Dict Bytes Bytes
  | none => .empty
  | some typedData =>
    if typedData.items = [] then .ofItems [(NULL, NULL)]
    else .ofItems (typedData.items.map rawItem)

def serializeKey (separator : Bytes) : PyKey → Bytes
  | .tuple keys => separator.intercalate keys
  | .text key => key

section Calls

variable (server : RedisServer) (separator table : Bytes) (key : PyKey)

def setEntry (data : Option TypedData) : DBConnector.M Unit :=
  ConfigDBConnector.setEntry server separator table (serializeKey separator key)
    (Hash.ofFields (typedToRaw data).items)

def getEntry : DBConnector.M TypedData := do
  let rawData ← ConfigDBConnector.getEntry server separator table (serializeKey separator key)
  pure (rawToTyped rawData.toList)

end Calls

/-! ## One field -/

section Fields

variable {d : TypedData} {l : List (Bytes × Bytes)} {k n : Bytes}

theorem getLast?_marked (k : Bytes) : (k ++ [mark]).getLast? = some mark := getLast?_concat

theorem marked_ne_NULL (k : Bytes) : k ++ [mark] ≠ NULL := by
  intro same
  have last := getLast?_marked k
  rw [same] at last
  exact absurd last (by decide)

theorem typedItem_marked (k v : Bytes) :
    typedItem (k ++ [mark], v) = some (k, .list (v.splitOn comma)) := by
  rw [typedItem, if_neg (marked_ne_NULL k), if_pos (getLast?_marked k), dropLast_concat]

theorem typedItem_plain (notNull : k ≠ NULL) (plain : k.getLast? ≠ some mark) (v : Bytes) :
    typedItem (k, v) = some (k, .text v) := by
  rw [typedItem, if_neg notNull, if_neg plain]

theorem eq_marked (marked : n.getLast? = some mark) : ∃ k, n = k ++ [mark] :=
  ⟨n.dropLast, (dropLast_append_getLast? _ marked).symm⟩

/-- What raw fields make of a key: a list if there is a field with the mark. -/
def typedOf (raw : Bytes → Option Bytes) (k : Bytes) : Option Typed :=
  ((raw (k ++ [mark])).map fun v => .list (v.splitOn comma)).or
    (if k = NULL ∨ k.getLast? = some mark then none else (raw k).map .text)

section TypedOf

variable {raw raw' : Bytes → Option Bytes}

theorem typedOf_congr (marked : raw (k ++ [mark]) = raw' (k ++ [mark]))
    (plain : k ≠ NULL → k.getLast? ≠ some mark → raw k = raw' k) :
    typedOf raw k = typedOf raw' k := by
  unfold typedOf
  rw [marked]
  by_cases skipped : k = NULL ∨ k.getLast? = some mark
  · rw [if_pos skipped, if_pos skipped]
  · rw [if_neg skipped, if_neg skipped, plain (fun null => skipped (.inl null))
      fun last => skipped (.inr last)]

theorem typedOf_marked {v} (found : raw (k ++ [mark]) = some v) :
    typedOf raw k = some (.list (v.splitOn comma)) := by
  rw [typedOf, found]
  rfl

theorem typedOf_plain (none : raw (k ++ [mark]) = none) (notNull : k ≠ NULL)
    (plain : k.getLast? ≠ some mark) : typedOf raw k = (raw k).map .text := by
  rw [typedOf, none, if_neg (not_or.mpr ⟨notNull, plain⟩)]
  rfl

theorem typedOf_none (marked : raw (k ++ [mark]) = none)
    (plain : k ≠ NULL → k.getLast? ≠ some mark → raw k = none) : typedOf raw k = none := by
  by_cases skipped : k = NULL ∨ k.getLast? = some mark
  · rw [typedOf, marked, if_pos skipped]
    rfl
  · rw [typedOf_plain marked (fun null => skipped (.inl null)) fun last => skipped (.inr last),
      plain (fun null => skipped (.inl null)) fun last => skipped (.inr last)]
    rfl

end TypedOf

/-- The fields have different names, and a field without the mark comes before the one with. -/
def Ordered (l : List (Bytes × Bytes)) : Prop :=
  l.Pairwise fun a b => a.1 ≠ b.1 ∧ a.1 ≠ b.1 ++ [mark]

theorem lookup_snoc (l : List (Bytes × Bytes)) (n v k : Bytes) :
    (l ++ [(n, v)]).lookup k = (l.lookup k).or (if k = n then some v else none) := by
  rw [lookup_append]
  by_cases here : k = n
  · rw [if_pos here, here, lookup_cons_self]
  · have other : (k == n) = false := by simpa using here
    rw [if_neg here, lookup_cons, other]
    rfl

theorem lookup_snoc_of_ne {j} (other : j ≠ n) (v : Bytes) :
    (l ++ [(n, v)]).lookup j = l.lookup j := by
  rw [lookup_snoc, if_neg other, Option.or_none]

theorem rawToTyped_snoc (l : List (Bytes × Bytes)) (e : Bytes × Bytes) :
    rawToTyped (l ++ [e]) =
      (typedItem e).elim (rawToTyped l) fun item => (rawToTyped l).set item.1 item.2 := by
  rw [rawToTyped, filterMap_append]
  cases item : typedItem e with
  | none =>
    rw [filterMap_cons_none item, filterMap_nil, append_nil]
    rfl
  | some item' =>
    rw [filterMap_cons_some item, filterMap_nil, ofItems_snoc]
    rfl

theorem get?_rawToTyped (ordered : Ordered l) (k : Bytes) :
    (rawToTyped l).get? k = typedOf (l.lookup ·) k := by
  induction l using reverseRecOn with
  | nil => simp [rawToTyped, typedOf, ofItems, get?_empty]
  | append_singleton l e ih =>
    obtain ⟨n, v⟩ := e
    obtain ⟨before, -, last⟩ := pairwise_append.mp ordered
    have new (j : Bytes) (same : j = n ∨ j = n ++ [mark]) : l.lookup j = none := by
      rw [lookup_eq_none_iff]
      intro e member
      have apart := last e member (n, v) (by simp)
      rcases same with rfl | rfl
      · simpa using Ne.symm apart.1
      · simpa using Ne.symm apart.2
    rw [rawToTyped_snoc]
    by_cases isNull : n = NULL
    · rw [typedItem, if_pos isNull, Option.elim_none, ih before]
      refine typedOf_congr ?_ fun notNull _ => ?_
      · exact (lookup_snoc_of_ne (isNull ▸ marked_ne_NULL k) v).symm
      · exact (lookup_snoc_of_ne (isNull ▸ notNull) v).symm
    · by_cases marked : n.getLast? = some mark
      · obtain ⟨j, rfl⟩ := eq_marked marked
        rw [typedItem_marked, Option.elim_some, get?_set]
        by_cases here : k = j
        · subst here
          rw [if_pos rfl]
          refine (typedOf_marked ?_).symm
          rw [lookup_snoc, new _ (.inl rfl), if_pos rfl, Option.none_or]
        · rw [if_neg here, ih before]
          refine typedOf_congr ?_ fun _ plain => ?_
          · refine (lookup_snoc_of_ne (fun same => here ?_) v).symm
            exact append_cancel_right same
          · refine (lookup_snoc_of_ne (fun same => plain ?_) v).symm
            exact same ▸ marked
      · rw [typedItem_plain isNull marked, Option.elim_some, get?_set]
        by_cases here : k = n
        · subst here
          have absent : (l ++ [(k, v)]).lookup (k ++ [mark]) = none := by
            rw [lookup_snoc_of_ne (by simp), new _ (.inr rfl)]
          rw [if_pos rfl, typedOf_plain absent isNull marked, lookup_snoc, new _ (.inl rfl),
            if_pos rfl]
          rfl
        · rw [if_neg here, ih before]
          refine typedOf_congr ?_ fun _ _ => (lookup_snoc_of_ne here v).symm
          refine (lookup_snoc_of_ne (fun same => marked ?_) v).symm
          rw [← same]
          exact getLast?_marked k

end Fields

/-! ## What is written -/

def Typed.CommaFree : Typed → Prop
  | .text _ => True
  | .list l => ∀ s ∈ l, comma ∉ s

def Typed.NulFree : Typed → Prop
  | .text s => (0 : UInt8) ∉ s
  | .list l => ∀ s ∈ l, (0 : UInt8) ∉ s

instance : DecidablePred Typed.CommaFree
  | .text _ => inferInstanceAs (Decidable True)
  | .list l => inferInstanceAs (Decidable (∀ s ∈ l, comma ∉ s))

instance : DecidablePred Typed.NulFree
  | .text s => inferInstanceAs (Decidable ((0 : UInt8) ∉ s))
  | .list l => inferInstanceAs (Decidable (∀ s ∈ l, (0 : UInt8) ∉ s))

/-- Field names that are not taken for something else, and lists without commas. -/
structure Storable (d : TypedData) : Prop where
  names : ∀ k t, d.get? k = some t → k ≠ NULL ∧ k.getLast? ≠ some mark
  commaFree : ∀ k t, d.get? k = some t → t.CommaFree

def NoEmptyList (d : TypedData) : Prop :=
  ∀ k, d.get? k ≠ some (.list [])

def joinedList : Typed → Option Bytes
  | .list value => some ([comma].intercalate value)
  | .text _ => none

def plainText : Typed → Option Bytes
  | .list _ => none
  | .text value => some value

def rawOf (d : TypedData) (n : Bytes) : Option Bytes :=
  if n.getLast? = some mark then (d.get? n.dropLast).bind joinedList
  else (d.get? n).bind plainText

section Written

variable {d : TypedData} {k n v : Bytes}

theorem rawOf_marked (d : TypedData) (k : Bytes) :
    rawOf d (k ++ [mark]) = (d.get? k).bind joinedList := by
  rw [rawOf, if_pos (getLast?_marked k), dropLast_concat]

theorem rawOf_plain (plain : k.getLast? ≠ some mark) :
    rawOf d k = (d.get? k).bind plainText :=
  if_neg plain

theorem rawItem_of_rawOf (written : rawOf d n = some v) :
    ∃ item ∈ d.items, rawItem item = (n, v) := by
  by_cases marked : n.getLast? = some mark
  · obtain ⟨k, rfl⟩ := eq_marked marked
    rw [rawOf_marked, Option.bind_eq_some_iff] at written
    obtain ⟨t, found, joined⟩ := written
    cases t with
    | text value => exact nomatch joined
    | list value =>
      obtain rfl := Option.some.inj joined
      exact ⟨(k, .list value), get?_eq_some_iff.mp found, rfl⟩
  · rw [rawOf_plain marked, Option.bind_eq_some_iff] at written
    obtain ⟨t, found, plain⟩ := written
    cases t with
    | list value => exact nomatch plain
    | text value =>
      obtain rfl := Option.some.inj plain
      exact ⟨(n, .text value), get?_eq_some_iff.mp found, rfl⟩

theorem mem_rawItems (storable : Storable d) :
    (n, v) ∈ d.items.map rawItem ↔ rawOf d n = some v := by
  rw [mem_map]
  constructor
  · rintro ⟨⟨k, t⟩, member, same⟩
    have found := get?_eq_some_iff.mpr member
    cases t with
    | text value =>
      obtain ⟨rfl, rfl⟩ := Prod.mk.inj same
      rw [rawOf_plain (storable.names k _ found).2, found]
      rfl
    | list value =>
      obtain ⟨rfl, rfl⟩ := Prod.mk.inj same
      rw [rawOf_marked, found]
      rfl
  · exact rawItem_of_rawOf

theorem rawOf_eq_none_of_marked (storable : Storable d) (written : rawOf d (k ++ [mark]) = some v) :
    rawOf d k = none := by
  rw [rawOf_marked, Option.bind_eq_some_iff] at written
  obtain ⟨t, found, joined⟩ := written
  rw [rawOf_plain (storable.names k _ found).2, found]
  cases t with
  | text value => exact nomatch joined
  | list value => rfl

theorem nodup_rawItems (storable : Storable d) : ((d.items.map rawItem).map Prod.fst).Nodup := by
  rw [map_map]
  refine List.Nodup.map_on ?_ (List.Nodup.of_map _ d.nodup)
  rintro ⟨k, t⟩ member ⟨k', t'⟩ member' same
  have keys : k = k' := by
    have plain := (storable.names k t (get?_eq_some_iff.mpr member)).2
    have plain' := (storable.names k' t' (get?_eq_some_iff.mpr member')).2
    cases t with
    | text value =>
      cases t' with
      | text value' => exact same
      | list value' => exact absurd (congrArg getLast? same) (by
          simpa [rawItem] using plain)
    | list value =>
      cases t' with
      | text value' => exact absurd (congrArg getLast? same).symm (by
          simpa [rawItem] using plain')
      | list value' => exact append_cancel_right same
  subst keys
  have found := get?_eq_some_iff.mpr member
  rw [get?_eq_some_iff.mpr member', Option.some_inj] at found
  rw [found]

theorem items_typedToRaw (storable : Storable d) (filled : d.items ≠ []) :
    (typedToRaw (some d)).items = d.items.map rawItem := by
  rw [typedToRaw, if_neg filled]
  exact items_ofItems (nodup_rawItems storable)

theorem items_typedToRaw_empty (empty : d.items = []) :
    (typedToRaw (some d)).items = [(NULL, NULL)] := by
  rw [typedToRaw, if_pos empty]
  rfl

theorem ordered_typedToRaw (storable : Storable d) : Ordered (typedToRaw (some d)).items := by
  by_cases empty : d.items = []
  · rw [items_typedToRaw_empty empty]
    exact pairwise_singleton _ _
  · rw [items_typedToRaw storable empty]
    have distinct : (d.items.map rawItem).Pairwise fun a b => a.1 ≠ b.1 :=
      pairwise_map.mp (nodup_rawItems storable)
    refine distinct.imp_of_mem fun {a b} member member' apart => ⟨apart, fun same => ?_⟩
    have written : rawOf d (b.1 ++ [mark]) = some a.2 := by
      rw [← same]
      exact (mem_rawItems storable).mp member
    have written' := (mem_rawItems storable).mp member'
    rw [rawOf_eq_none_of_marked storable written] at written'
    exact nomatch written'

theorem lookup_typedToRaw (storable : Storable d) (notNull : n ≠ NULL) :
    (typedToRaw (some d)).items.lookup n = rawOf d n := by
  by_cases empty : d.items = []
  · have missing (k : Bytes) : d.get? k = none := by rw [get?, empty]; rfl
    rw [items_typedToRaw_empty empty, rawOf, missing, missing]
    simp [notNull]
  · rw [items_typedToRaw storable empty]
    exact OrderedMap.lookup_of_entries fun _ => mem_rawItems storable

def afterSplit : Typed → Typed
  | .list value => .list (([comma].intercalate value).splitOn comma)
  | .text value => .text value

theorem typedOf_rawOf (storable : Storable d) (k : Bytes) :
    typedOf (rawOf d) k = (d.get? k).map afterSplit := by
  cases found : d.get? k with
  | none =>
    refine typedOf_none ?_ fun _ plain => ?_
    · rw [rawOf_marked, found]
      rfl
    · rw [rawOf_plain plain, found]
      rfl
  | some t =>
    obtain ⟨notNull, plain⟩ := storable.names k t found
    cases t with
    | list value =>
      have marked : rawOf d (k ++ [mark]) = some ([comma].intercalate value) := by
        rw [rawOf_marked, found]
        rfl
      exact typedOf_marked marked
    | text value =>
      have marked : rawOf d (k ++ [mark]) = none := by rw [rawOf_marked, found]; rfl
      rw [typedOf_plain marked notNull plain, rawOf_plain plain, found]
      rfl

theorem map_afterSplit (storable : Storable d) (noEmpty : NoEmptyList d) (k : Bytes) :
    (d.get? k).map afterSplit = d.get? k := by
  cases found : d.get? k with
  | none => rfl
  | some t =>
    cases t with
    | text value => rfl
    | list value =>
      have nonempty : value ≠ [] := fun empty => noEmpty k (empty ▸ found)
      rw [Option.map_some, afterSplit,
        splitOn_intercalate comma (storable.commaFree k _ found) nonempty]

theorem typedOf_ne_empty (raw : Bytes → Option Bytes) (k : Bytes) :
    typedOf raw k ≠ some (.list []) := by
  intro empty
  cases marked : raw (k ++ [mark]) with
  | some v =>
    rw [typedOf_marked marked] at empty
    exact splitOn_ne_nil comma v (Typed.list.inj (Option.some.inj empty))
  | none =>
    rw [typedOf, marked] at empty
    split at empty
    · exact nomatch empty
    · obtain ⟨_, _, wrong⟩ := Option.map_eq_some_iff.mp empty
      exact nomatch wrong

theorem same_iff_noEmptyList (storable : Storable d) :
    (rawToTyped (typedToRaw (some d)).items).Same d ↔ NoEmptyList d := by
  have read (k : Bytes) :
      (rawToTyped (typedToRaw (some d)).items).get? k = typedOf (rawOf d) k := by
    rw [get?_rawToTyped (ordered_typedToRaw storable)]
    exact typedOf_congr (lookup_typedToRaw storable (marked_ne_NULL k)) fun notNull _ =>
      lookup_typedToRaw storable notNull
  constructor
  · intro same k empty
    exact typedOf_ne_empty (rawOf d) k (by rw [← read, same k, empty])
  · intro noEmpty k
    rw [read, typedOf_rawOf storable, map_afterSplit storable noEmpty]

end Written

end TypedConfig

end SwssCommon
