import SwssCommon.ConfigDb.SetEntry
import SwssCommon.ConfigDb.Typed

/-! # Typed entries in the database

An entry without empty lists is read as it was set, if its strings have no NUL, where reading ends,
and neither have the names of the fields it had before, which would not be deleted.
-/

namespace SwssCommon.TypedConfig

open Bytes Redis Throwing List Std.ExtTreeMap OrderedMap Hash DBConnector

/-! ## Through the database -/

section Database

open SetEntry ConfigDBConnector

variable (server : RedisServer) {separator table key : Bytes} {ks : Keyspace} {h data : Hash}

theorem hdels_eq (found : ks.hashAt (cStr key) = some h) (fields : List Bytes) :
    ∃ ks', fields.forM (hdel server key) ks = .ok () ks' ∧
      ks'.hashAt (cStr key) = some (Replacing.eraseAll (listing server) h fields) := by
  induction fields generalizing ks h with
  | nil => exact ⟨ks, rfl, found⟩
  | cons field fields ih =>
    obtain ⟨ks', deleted, after⟩ := ih (ks.hashAt_write_ofHash (cStr key) (h.erase (cStr field)))
    refine ⟨ks', ?_, after⟩
    change (hdel server key field >>= fun _ =>
      fields.forM (hdel server key)) ks = _
    rw [bind_ok (hdel_eq found field)]
    exact deleted

theorem getElem?_eraseAll (h : Hash) (fields : List Bytes) (f : Bytes) :
    (Replacing.eraseAll (listing server) h fields)[f]? =
      if f ∈ fields.map cStr then none else h[f]? := by
  induction fields generalizing h with
  | nil => rfl
  | cons g fields ih =>
    change (Replacing.eraseAll (listing server) (h.erase (cStr g)) fields)[f]? = _
    rw [ih, getElem?_erase]
    by_cases here : cStr g = f
    · simp [here]
    · simp [here, Ne.symm here]

theorem mem_extraFields_map (h data : Hash) (f : Bytes) :
    f ∈ (extraFields (readFields server h) data).map cStr ↔
      (∃ g ∈ h, cStr g = f) ∧ f ∉ data := by
  rw [mem_map]
  constructor
  · rintro ⟨_, member, rfl⟩
    obtain ⟨⟨g, known, short⟩, outside⟩ := (listing server).mem_gone.mp member
    have short : cStr g = _ := short
    rw [← short, cStr_cStr, short]
    exact ⟨⟨g, known, short⟩, outside⟩
  · rintro ⟨⟨g, known, rfl⟩, outside⟩
    exact ⟨cStr g, (listing server).mem_gone.mpr ⟨⟨g, known, rfl⟩, outside⟩, cStr_cStr g⟩

theorem setEntry_eq (filled : data ≠ ∅)
    (stored : ks.hashAt (cStr (hashName separator table key)) = some h) :
    ∃ ks' h', ConfigDBConnector.setEntry server separator table key data ks = .ok () ks' ∧
      ks'.hashAt (cStr (hashName separator table key)) = some h' ∧
      ∀ f : Bytes, h'[f]? = data[f]?.or (if 0 ∈ f then h[f]? else none) := by
  have some : data.toList ≠ [] := by
    intro none
    apply filled
    rw [← ofFields_toList data, none]
    rfl
  have read : ConfigDBConnector.getEntry server separator table key ks =
      .ok (readFields server h) ks := hgetallMap_eq stored
  have written : hmset server (hashName separator table key) data.toList ks = _ :=
    hmset_eq some stored
  obtain ⟨ks', deleted, after⟩ := hdels_eq server
    (ks.hashAt_write_ofHash (cStr (hashName separator table key)) (h * ofFields data.toList))
    (extraFields (readFields server h) data)
  refine ⟨ks', _, ?_, after, fun f => ?_⟩
  · unfold ConfigDBConnector.setEntry
    rw [if_neg (by simpa using filled), bind_ok read, bind_ok written]
    exact deleted
  · rw [getElem?_eraseAll, ofFields_toList, getElem?_mul]
    have gone := mem_extraFields_map server h data f
    cases assigned : data[f]? with
    | some w =>
      have inside : f ∈ data := mem_iff_getElem?_ne_none.mpr (by simp [assigned])
      rw [if_neg fun deleted => (gone.mp deleted).2 inside]
      rfl
    | none =>
      have outside : f ∉ data := fun inside =>
        mem_iff_getElem?_ne_none.mp inside assigned
      rw [Option.none_or, Option.none_or]
      by_cases nul : 0 ∈ f
      · rw [if_pos nul, if_neg]
        intro deleted
        obtain ⟨⟨g, -, rfl⟩, -⟩ := gone.mp deleted
        exact nul_notMem_cStr g nul
      · rw [if_neg nul]
        cases old : h[f]? with
        | none => exact ite_self _
        | some w =>
          have known : f ∈ h := mem_iff_getElem?_ne_none.mpr (by simp [old])
          rw [if_pos (gone.mpr ⟨⟨f, known, cStr_of_nulFree nul⟩, outside⟩)]

theorem readFields_some {n w} (found : (readFields server h)[n]? = some w) :
    ∃ f v, h[f]? = some v ∧ cStr f = n ∧ cStr v = w := by
  rw [readFields, getElem?_insertNew] at found
  obtain ⟨before, after, split, -⟩ := lookup_eq_some_iff.mp found
  have member : (n, w) ∈ (server.fields h).map fun fv => (cStr fv.1, cStr fv.2) := by
    rw [split]
    simp
  obtain ⟨⟨f, v⟩, listed, same⟩ := mem_map.mp member
  obtain ⟨rfl, rfl⟩ := Prod.mk.inj same
  exact ⟨f, v, server.mem_fields.mp listed, rfl, rfl⟩

theorem readFields_ne_none {f v} (found : h[f]? = some v) :
    (readFields server h)[cStr f]? ≠ none := by
  refine mem_iff_getElem?_ne_none.mp ((mem_readFields server).mpr ⟨f, ?_, rfl⟩)
  exact mem_iff_getElem?_ne_none.mpr (by simp [found])

theorem compare_marked (k : Bytes) : compare (k ++ [mark]) k = .gt := by
  induction k with
  | nil => rfl
  | cons c k ih => simp [ih]

theorem ordered_toList (h : Hash) : Ordered h.toList := by
  refine ordered_keys_toList.imp fun {a b} before => ⟨fun same => ?_, fun same => ?_⟩
  · simp [same] at before
  · rw [same, compare_marked] at before
    exact nomatch before

theorem get?_rawToTyped_toList (h : Hash) (k : Bytes) :
    (rawToTyped h.toList).get? k = typedOf (h[·]?) k := by
  rw [get?_rawToTyped (ordered_toList h)]
  exact typedOf_congr (lookup_toList h _) fun _ _ => lookup_toList h _

end Database

/-! ## Every entry -/

section Entries

open SetEntry ConfigDBConnector

variable {d : TypedData} {k n v : Bytes} {h : Hash}

def NulFree (d : TypedData) : Prop :=
  ∀ k t, d.get? k = some t → (0 : UInt8) ∉ k ∧ t.NulFree

/-- A field that is left over and read under this name goes unnoticed. -/
def Harmless (d : TypedData) (n v : Bytes) : Prop :=
  n = NULL ∨ (∃ value, d.get? n = some (.list value)) ∨ rawOf d n = some v

/-- Fields whose names have a NUL are not deleted, and are read under shorter names. -/
def Clear (d : TypedData) (h : Hash) : Prop :=
  ∀ f v : Bytes, h[f]? = some v → (0 : UInt8) ∈ f → Harmless d (cStr f) (cStr v)

theorem mem_intercalate {l : List Bytes} {s c} (part : s ∈ l) (member : c ∈ s) :
    c ∈ [comma].intercalate l := by
  induction l with
  | nil => exact absurd part not_mem_nil
  | cons s' l ih =>
    cases l with
    | nil =>
      obtain rfl := mem_singleton.mp part
      simpa [intercalate] using member
    | cons s'' l =>
      rw [intercalate_cons_cons]
      rcases mem_cons.mp part with rfl | later
      · exact mem_append_left _ (mem_append_left _ member)
      · exact mem_append_right _ (ih later)

theorem notMem_intercalate {l : List Bytes} (free : ∀ s ∈ l, 0 ∉ s) :
    0 ∉ [comma].intercalate l := by
  induction l with
  | nil => exact not_mem_nil
  | cons s l ih =>
    have rest := ih fun s member => free s (mem_cons_of_mem _ member)
    have first := free s mem_cons_self
    cases l with
    | nil => simpa [intercalate] using first
    | cons s' l =>
      rw [intercalate_cons_cons]
      simp only [mem_append, not_or]
      exact ⟨⟨first, by decide⟩, rest⟩

theorem rawOf_nulFree (nulFree : NulFree d) (written : rawOf d n = some v) :
    0 ∉ n ∧ 0 ∉ v := by
  obtain ⟨⟨k, t⟩, member, same⟩ := rawItem_of_rawOf written
  obtain ⟨name, free⟩ := nulFree k t (Dict.get?_eq_some_iff.mpr member)
  cases t with
  | text value =>
    obtain ⟨rfl, rfl⟩ := Prod.mk.inj same
    exact ⟨name, free⟩
  | list value =>
    obtain ⟨rfl, rfl⟩ := Prod.mk.inj same
    refine ⟨?_, notMem_intercalate free⟩
    simp only [mem_append, not_or]
    exact ⟨name, by decide⟩

def written (d : TypedData) : Hash :=
  ofFields (typedToRaw (some d)).items

theorem getElem?_ofFields (fields : Dict Bytes Bytes) (n : Bytes) :
    (ofFields fields.items)[n]? = fields.get? n := by
  cases found : fields.get? n with
  | none =>
    have absent : n ∉ ofFields fields.items := by
      rw [mem_ofFields]
      exact Dict.get?_eq_none_iff.mp found
    exact getElem?_eq_none absent
  | some v =>
    refine getElem?_ofList_of_mem (by simp) ?_ (Dict.get?_eq_some_iff.mp found)
    exact (pairwise_map.mp fields.nodup).imp fun apart => by simpa using apart

theorem getElem?_written (storable : Storable d) (notNull : n ≠ NULL) :
    (written d)[n]? = rawOf d n := by
  rw [written, getElem?_ofFields, ← lookup_typedToRaw storable notNull]
  exact (lookup_of_entries fun _ => Dict.get?_eq_some_iff.symm).symm

theorem written_ne_empty (storable : Storable d) : written d ≠ ∅ := by
  intro empty
  have none : (typedToRaw (some d)).items = [] := (ofFields_eq_one_iff _).mp empty
  by_cases bare : d.items = []
  · rw [items_typedToRaw_empty bare] at none
    exact nomatch none
  · rw [items_typedToRaw storable bare, map_eq_nil_iff] at none
    exact bare none

theorem read_written (server : RedisServer) (storable : Storable d) (nulFree : NulFree d)
    (clear : Clear d h) {h'}
    (stored : ∀ f : Bytes, h'[f]? = (written d)[f]?.or (if 0 ∈ f then h[f]? else none))
    (notNull : n ≠ NULL) (notList : ∀ value, d.get? n ≠ some (.list value)) :
    (readFields server h')[n]? = rawOf d n := by
  cases found : (readFields server h')[n]? with
  | none =>
    cases expected : rawOf d n with
    | none => rfl
    | some v =>
      have own : h'[n]? = some v := by
        rw [stored, getElem?_written storable notNull, expected]
        rfl
      have here := readFields_ne_none server own
      rw [cStr_of_nulFree (rawOf_nulFree nulFree expected).1] at here
      exact absurd found here
  | some w =>
    obtain ⟨f, v, inside, rfl, rfl⟩ := readFields_some server found
    rw [stored, Option.or_eq_some_iff] at inside
    rcases inside with own | ⟨-, left⟩
    · have plain : f ≠ NULL := by
        rintro rfl
        exact notNull (by decide)
      rw [getElem?_written storable plain] at own
      obtain ⟨name, value⟩ := rawOf_nulFree nulFree own
      rw [cStr_of_nulFree name, cStr_of_nulFree value, own]
    · by_cases nul : 0 ∈ f
      · rw [if_pos nul] at left
        rcases clear f v left nul with null | ⟨value, list⟩ | same
        · exact absurd null notNull
        · exact absurd list (notList value)
        · exact same.symm
      · rw [if_neg nul] at left
        exact nomatch left

theorem typedOf_read (server : RedisServer) (storable : Storable d) (nulFree : NulFree d)
    (clear : Clear d h) {h'}
    (stored : ∀ f : Bytes, h'[f]? = (written d)[f]?.or (if 0 ∈ f then h[f]? else none))
    (k : Bytes) : typedOf ((readFields server h')[·]?) k = typedOf (rawOf d) k := by
  have marked : (readFields server h')[k ++ [mark]]? = rawOf d (k ++ [mark]) :=
    read_written server storable nulFree clear stored (marked_ne_NULL k) fun value list =>
      (storable.names _ _ list).2 (getLast?_marked k)
  cases list : rawOf d (k ++ [mark]) with
  | some v =>
    rw [typedOf_marked (marked.trans list), typedOf_marked list]
  | none =>
    refine typedOf_congr marked fun notNull _ => ?_
    refine read_written server storable nulFree clear stored notNull fun value found => ?_
    rw [rawOf_marked, found] at list
    exact nomatch list

theorem typedOf_nulFree {raw t}
    (free : ∀ n v, raw n = some v → 0 ∉ n ∧ 0 ∉ v)
    (found : typedOf raw k = some t) : 0 ∉ k ∧ t.NulFree := by
  cases marked : raw (k ++ [mark]) with
  | some v =>
    rw [typedOf_marked marked] at found
    obtain rfl := Option.some.inj found
    obtain ⟨name, value⟩ := free _ v marked
    refine ⟨fun nul => name (mem_append_left _ nul), fun s part nul => value ?_⟩
    have whole : [comma].intercalate (v.splitOn comma) = v := intercalate_splitOn comma
    rw [← whole]
    exact mem_intercalate part nul
  | none =>
    by_cases skipped : k = NULL ∨ k.getLast? = some mark
    · rw [typedOf, marked, if_pos skipped] at found
      cases found
    · rw [typedOf, marked, if_neg skipped] at found
      obtain ⟨v, own, rfl⟩ := Option.map_eq_some_iff.mp found
      exact free k v own

def listsFirst (f : Bytes) : RedisServer where
  __ := RedisServer.sorted
  fields h :=
    match h[f]? with
    | some v => (f, v) :: (h.erase f).toList
    | none => h.toList
  fields_perm h := by
    cases found : h[f]? with
    | none => exact .refl _
    | some v =>
      have nodup (h : Hash) : h.toList.Nodup :=
        distinct_keys_toList.imp fun apart same => apart (by simp [same])
      refine (perm_ext_iff_of_nodup ?_ (nodup h)).mpr fun e => ?_
      · refine nodup_cons.mpr ⟨?_, nodup _⟩
        rw [mem_toList_iff_getElem?_eq_some]
        simp
      · obtain ⟨g, w⟩ := e
        rw [mem_cons, mem_toList_iff_getElem?_eq_some,
          mem_toList_iff_getElem?_eq_some, getElem?_erase]
        by_cases here : g = f
        · subst here
          simp [found, eq_comm]
        · simp [here, Ne.symm here]

theorem readFields_listsFirst {f} (found : h[f]? = some v) :
    (readFields (listsFirst f) h)[cStr f]? = some (cStr v) := by
  rw [readFields, getElem?_insertNew, listsFirst]
  simp only [found]
  exact lookup_cons_self

theorem harmless_of_read {raw} (same : ∀ k, typedOf raw k = d.get? k)
    {w} (found : raw n = some w) : Harmless d n w := by
  by_cases isNull : n = NULL
  · exact .inl isNull
  · by_cases marked : n.getLast? = some mark
    · obtain ⟨k, rfl⟩ := eq_marked marked
      refine .inr (.inr ?_)
      rw [rawOf_marked, ← same, typedOf_marked found]
      exact congrArg some (intercalate_splitOn comma)
    · cases list : raw (n ++ [mark]) with
      | some v => exact .inr (.inl ⟨_, (same n).symm.trans (typedOf_marked list)⟩)
      | none =>
        refine .inr (.inr ?_)
        rw [rawOf_plain marked, ← same, typedOf_plain list isNull marked, found]
        rfl

variable (separator table : Bytes) (key : PyKey) (ks : Keyspace)

theorem setEntry_some (server : RedisServer) (d : TypedData) :
    setEntry server separator table key (some d) =
      ConfigDBConnector.setEntry server separator table (serializeKey separator key) (written d) :=
  rfl

theorem getEntry_eq (server : RedisServer)
    (stored : ks.hashAt (cStr (hashName separator table (serializeKey separator key))) = some h) :
    getEntry server separator table key ks =
      .ok (rawToTyped (readFields server h).toList) ks := by
  have read : ConfigDBConnector.getEntry server separator table (serializeKey separator key) ks =
      .ok (readFields server h) ks := hgetallMap_eq stored
  unfold getEntry
  rw [bind_ok read]
  rfl

theorem written_nul (storable : Storable d) (nulFree : NulFree d) {f : Bytes}
    (nul : 0 ∈ f) : (written d)[f]? = none := by
  have notNull : f ≠ NULL := by
    rintro rfl
    exact absurd nul (by decide)
  rw [getElem?_written storable notNull]
  cases own : rawOf d f with
  | none => rfl
  | some v => exact absurd nul (rawOf_nulFree nulFree own).1

theorem typedOf_readFields_nulFree (server : RedisServer) {t}
    (found : typedOf ((readFields server h)[·]?) k = some t) : 0 ∉ k ∧ t.NulFree := by
  refine typedOf_nulFree (fun n v read => ?_) found
  obtain ⟨f, w, -, rfl, rfl⟩ := readFields_some server read
  exact ⟨nul_notMem_cStr f, nul_notMem_cStr w⟩

theorem set_get_eq (server : RedisServer) (storable : Storable d)
    (stored : ks.hashAt (cStr (hashName separator table (serializeKey separator key))) = some h) :
    ∃ h',
      (∀ f : Bytes, h'[f]? = (written d)[f]?.or (if 0 ∈ f then h[f]? else none)) ∧
      ((∃ ks' d', setEntry server separator table key (some d) ks = .ok () ks' ∧
          getEntry server separator table key ks' = .ok d' ks' ∧ d'.Same d) ↔
        ∀ k, typedOf ((readFields server h')[·]?) k = d.get? k) := by
  obtain ⟨ks', h', set, after, fields⟩ := setEntry_eq server (written_ne_empty storable) stored
  have get := getEntry_eq separator table key ks' server after
  refine ⟨h', fields, ?_⟩
  constructor
  · rintro ⟨ks'', d', set', get', same⟩ k
    rw [setEntry_some, set] at set'
    cases set'
    rw [get] at get'
    cases get'
    exact (get?_rawToTyped_toList _ k).symm.trans (same k)
  · intro same
    exact ⟨ks', _, set, get, fun k => (get?_rawToTyped_toList _ k).trans (same k)⟩

theorem setEntry_wrongType (server : RedisServer) (storable : Storable d)
    (other : ks.hashAt (cStr (hashName separator table (serializeKey separator key))) = none)
    (ks' : Keyspace) : setEntry server separator table key (some d) ks ≠ .ok () ks' := by
  have failed : ConfigDBConnector.getEntry server separator table (serializeKey separator key) ks =
      _ := hgetallMap_wrongType other
  rw [setEntry_some, ConfigDBConnector.setEntry,
    if_neg (by simpa using written_ne_empty storable), bind_error failed]
  exact nofun

/-- What is set is read again exactly if no list is empty, no string has a NUL and what the entry
    held before is out of the way. -/
theorem set_get_iff (storable : Storable d) :
    (∀ server, ∃ ks' d', setEntry server separator table key (some d) ks = .ok () ks' ∧
      getEntry server separator table key ks' = .ok d' ks' ∧ d'.Same d) ↔
    NoEmptyList d ∧ NulFree d ∧
      ∃ h, ks.hashAt (cStr (hashName separator table (serializeKey separator key))) = some h ∧
        Clear d h := by
  cases stored : ks.hashAt (cStr (hashName separator table (serializeKey separator key))) with
  | none =>
    refine iff_of_false (fun all => ?_) fun ⟨_, _, h, wrong, _⟩ => (nomatch wrong)
    obtain ⟨ks', d', set, -⟩ := all .sorted
    exact setEntry_wrongType separator table key ks .sorted storable stored ks' set
  | some h =>
    constructor
    · intro all
      have each (server : RedisServer) : ∃ h',
          (∀ f : Bytes, h'[f]? = (written d)[f]?.or (if 0 ∈ f then h[f]? else none)) ∧
            ∀ k, typedOf ((readFields server h')[·]?) k = d.get? k := by
        obtain ⟨h', fields, reads⟩ := set_get_eq separator table key ks server storable stored
        exact ⟨h', fields, reads.mp (all server)⟩
      obtain ⟨h', -, same⟩ := each .sorted
      have nulFree : NulFree d := fun k t found =>
        typedOf_readFields_nulFree .sorted ((same k).trans found)
      refine ⟨fun k empty => ?_, nulFree, h, rfl, fun f v left nul => ?_⟩
      · exact typedOf_ne_empty _ k ((same k).trans empty)
      · obtain ⟨h', fields, same⟩ := each (listsFirst f)
        have there : h'[f]? = some v := by
          rw [fields, written_nul storable nulFree nul, if_pos nul, left]
          rfl
        exact harmless_of_read same (readFields_listsFirst there)
    · rintro ⟨noEmpty, nulFree, h', same, clear⟩ server
      obtain rfl := Option.some.inj same
      obtain ⟨h', fields, reads⟩ := set_get_eq separator table key ks server storable stored
      refine reads.mpr fun k => ?_
      rw [typedOf_read server storable nulFree clear fields, typedOf_rawOf storable,
        map_afterSplit storable noEmpty]

/-- The conversions undo each other exactly if no list is empty, and in the database no NUL is in
    the way. -/
theorem typed_round_trip_iff (storable : Storable d) :
    ((rawToTyped (typedToRaw (some d)).items).Same d ↔ NoEmptyList d) ∧
    ((∀ server, ∃ ks' d', setEntry server separator table key (some d) ks = .ok () ks' ∧
      getEntry server separator table key ks' = .ok d' ks' ∧ d'.Same d) ↔
    NoEmptyList d ∧ NulFree d ∧
      ∃ h, ks.hashAt (cStr (hashName separator table (serializeKey separator key))) = some h ∧
        Clear d h) :=
  ⟨same_iff_noEmptyList storable, set_get_iff separator table key ks storable⟩

private def address : TypedData :=
  .ofItems [(ascii "family", .text (ascii "IPv4")), (ascii "ports", .list [ascii "1", ascii "2"])]

theorem typed_round_trip_address :
    (rawToTyped (typedToRaw (some address)).items).Same address ∧
      ∃ ks' d', setEntry .sorted (ascii "|") (ascii "INTERFACE")
          (.tuple [ascii "Ethernet0", ascii "10.0.0.1/31"]) (some address) ∅ = .ok () ks' ∧
        getEntry .sorted (ascii "|") (ascii "INTERFACE")
          (.tuple [ascii "Ethernet0", ascii "10.0.0.1/31"]) ks' = .ok d' ks' ∧ d'.Same address := by
  have storable : Storable address := ⟨Dict.forall_get? (by decide), Dict.forall_get? (by decide)⟩
  have noEmpty : NoEmptyList address := fun k found =>
    Dict.forall_get? (P := fun _ t => t ≠ .list []) (by decide) k _ found rfl
  have nulFree : NulFree address := Dict.forall_get? (by decide)
  obtain ⟨same, calls⟩ := typed_round_trip_iff (ascii "|") (ascii "INTERFACE")
    (.tuple [ascii "Ethernet0", ascii "10.0.0.1/31"]) ∅ storable
  refine ⟨same.mpr noEmpty, calls.mpr ⟨noEmpty, nulFree, ∅, rfl, fun f v found => ?_⟩ .sorted⟩
  rw [getElem?_empty] at found
  exact nomatch found

/-- An empty list comes back with an empty string in it. -/
theorem typed_round_trip_empty_list :
    let d : TypedData := .ofItems [(ascii "ports", .list [])]
    Storable d ∧ (rawToTyped (typedToRaw (some d)).items).get? (ascii "ports") = some (.list [[]]) ∧
      ¬ (rawToTyped (typedToRaw (some d)).items).Same d := by
  have back : (rawToTyped (typedToRaw (some (.ofItems [(ascii "ports", .list [])]))).items).get?
      (ascii "ports") = some (.list [[]]) := by
    decide
  refine ⟨⟨Dict.forall_get? (by decide), Dict.forall_get? (by decide)⟩, back, fun same => ?_⟩
  have kept := same (ascii "ports")
  rw [back] at kept
  exact absurd kept (by decide)

end Entries

end SwssCommon.TypedConfig
