import SwssCommon.Consumer.Pops
import SwssCommon.Defaults.Provider
import SwssCommon.Subscriber.Convergence

/-! # Entries with their default values

`DecoratorSubscriberStateTable` appends to every set entry the defaults it lacks, in `pops`. `pop`
takes entries from `m_buffer`, which `pops` fills, but which the base class has filled before with
the table as it was.
-/

namespace SwssCommon

open Bytes Redis Looping Throwing List Std.ExtTreeMap OrderedMap Prod SubscriberStateTable

namespace DefaultValueProvider

def defaultsFor (provider : DefaultValueProvider) (table key : Bytes) :
    Except Undefined FieldDefaultValueMapping :=
  match provider[table]? with
  | none => pure ∅
  | some info => snd <$> info.foundFieldMappingByKey key

def addMissing (existedValues target : Hash) (entry : Bytes × Bytes) : Hash :=
  if entry.1 ∈ existedValues then target else target.insertIfNew entry.1 entry.2

def missing (defaults : FieldDefaultValueMapping) (fvs : List (Bytes × Bytes)) : Hash :=
  defaults.toList.foldl (addMissing (insertNew ∅ fvs)) ∅

theorem mem_insertNew_fields {fvs field} :
    field ∈ insertNew (∅ : Hash) fvs ↔ field ∈ fvs.map fst := by
  rw [mem_iff_getElem?_ne_none, getElem?_insertNew]
  simp

theorem getElem?_addMissing (existedValues target : Hash) (field value : Bytes) :
    (addMissing existedValues target (field, value))[field]? =
      if field ∈ existedValues then target[field]? else target[field]?.or (some value) := by
  unfold addMissing
  split
  · rfl
  · rw [getElem?_insertIfNew]
    cases before : target[field]? with
    | none | some old => simp [mem_iff_isSome_getElem?, before]

theorem getElem?_addMissing_of_ne (existedValues target : Hash) {field other}
    (value : Bytes) (different : other ≠ field) :
    (addMissing existedValues target (other, value))[field]? = target[field]? := by
  unfold addMissing
  split
  · rfl
  · simp [getElem?_insertIfNew, different]

theorem getElem?_missing (defaults : FieldDefaultValueMapping) (fvs : List (Bytes × Bytes))
    (field : Bytes) :
    (missing defaults fvs)[field]? =
      if field ∈ fvs.map fst then none else defaults[field]? := by
  have folded : (missing defaults fvs)[field]? = _ :=
    foldl_toList_at (fun target => target[field]?)
      (fun value before => if field ∈ insertNew (∅ : Hash) fvs then before
        else before.or (some value))
      (fun target _ value => getElem?_addMissing_of_ne _ target value)
      (fun target value => getElem?_addMissing _ target field value) defaults ∅
  rw [folded]
  simp only [mem_insertNew_fields]
  cases defaults[field]? <;> simp

theorem foundFieldMappingByKey_fst {info : TableInfo} {key found}
    {mapping}
    (looked : info.foundFieldMappingByKey key = .ok (found, mapping)) : found := by
  unfold TableInfo.foundFieldMappingByKey at looked
  cases info with
  | dict m =>
    simp only at looked
    cases search : m[key]? with
    | none => simp [search, dereference] at looked
    | some defaults =>
      rw [search] at looked
      cases looked
      rfl
  | singleList m =>
    cases looked
    rfl
  | multipleList m =>
    simp only at looked
    cases search : m[key.count 124 + 1]? with
    | none => simp [search, dereference] at looked
    | some defaults =>
      rw [search] at looked
      cases looked
      rfl

theorem appendDefaultValues_eq (provider : DefaultValueProvider) (table key : Bytes)
    (fvs : List (Bytes × Bytes)) :
    provider.appendDefaultValues table key fvs =
      (fun defaults => fvs ++ (missing defaults fvs).toList) <$>
        provider.defaultsFor table key := by
  unfold appendDefaultValues internalAppendDefaultValues defaultsFor
  cases provider[table]? with
  | none => rfl
  | some info =>
    unfold TableInfo.appendDefaultValues
    simp only
    cases looked : info.foundFieldMappingByKey key with
    | error u => rfl
    | ok result =>
      obtain ⟨found, mapping⟩ := result
      rw [foundFieldMappingByKey_fst looked]
      rfl

end DefaultValueProvider

structure DecoratorSubscriberStateTable extends SubscriberStateTable where
  defaultValueProvider : DefaultValueProvider

namespace DecoratorSubscriberStateTable

inductive Fault where
  | table (e : Table.TableError)
  | undefined (u : Undefined)

variable (t : DecoratorSubscriberStateTable)

def appendDefaultValue (kco : KeyOpFieldsValuesTuple) : Except Fault KeyOpFieldsValuesTuple :=
  if kco.kfvOp ≠ SET_COMMAND then pure kco
  else
    match t.defaultValueProvider.appendDefaultValues t.tableName kco.kfvKey kco.kfvFieldsValues with
    | .ok fvs => pure { kco with kfvFieldsValues := fvs }
    | .error u => throw (.undefined u)

abbrev Buffers := SubscriberStateTable.Buffers

/-- `pops` of the base class, and what it leaves. -/
def basePops (database : Nat → Keyspace) (held : Buffers) :
    Except Fault (List KeyOpFieldsValuesTuple × Buffers) :=
  match t.toSubscriberStateTable.popsInto database ⟨[], held⟩ with
  | .ok _ s => .ok (s.vkco, s.consumer)
  | .error e _ => .error (.table e)

def pops (database : Nat → Keyspace) (held : Buffers) :
    Except Fault (List KeyOpFieldsValuesTuple × Buffers) := do
  let (vkco, held) ← t.basePops database held
  let vkco ← vkco.mapM t.appendDefaultValue
  pure (vkco, held)

/-- `pop`, which gives an entry or none. `pops` puts its entries into the buffer, which is empty
    then. -/
def pop (database : Nat → Keyspace) (held : Buffers) :
    Except Fault (List KeyOpFieldsValuesTuple × Buffers) := do
  let filled ←
    if held.buffer = [] then do
      let (vkco, held) ← t.pops database held
      pure { held with buffer := vkco }
    else pure held
  match filled.buffer with
  | [] => pure ([], filled)
  | kco :: rest => pure ([kco], { filled with buffer := rest })

section Calls

variable (call : Buffers → Except Fault (List KeyOpFieldsValuesTuple × Buffers))

def round (s : Buffers × List KeyOpFieldsValuesTuple) :
    Looping ((Buffers × List KeyOpFieldsValuesTuple) ⊕
      (List KeyOpFieldsValuesTuple × Option Fault)) :=
  match call s.1 with
  | .error fault => pure (.inr (s.2, some fault))
  | .ok (kcos, held) =>
    if kcos = [] then pure (.inr (s.2, none)) else pure (.inl (held, s.2 ++ kcos))

/-- A call is made until it gives nothing. What all calls gave, and the fault that ended the
    last one. -/
def untilEmpty (held : Buffers) : Looping (List KeyOpFieldsValuesTuple × Option Fault) :=
  loop (round call) (held, [])

end Calls

/-! ## Decorated entries -/

/-- An entry that is set has all fields for which there is a default. -/
def Carries (kco : KeyOpFieldsValuesTuple) : Prop :=
  kco.kfvOp = SET_COMMAND →
    ∃ defaults, t.defaultValueProvider.defaultsFor t.tableName kco.kfvKey = .ok defaults ∧
      ∀ field ∈ defaults, field ∈ kco.kfvFieldsValues.map fst

/-- The entry with the defaults of the fields it lacks behind its own, if it is set. -/
def Decorates (kco kco' : KeyOpFieldsValuesTuple) : Prop :=
  if kco.kfvOp = SET_COMMAND then
    ∃ defaults, t.defaultValueProvider.defaultsFor t.tableName kco.kfvKey = .ok defaults ∧
      ∃ added : Hash, kco' = { kco with kfvFieldsValues := kco.kfvFieldsValues ++ added.toList } ∧
        ∀ field, added[field]? = if field ∈ kco.kfvFieldsValues.map fst then none
          else defaults[field]?
  else kco' = kco

open DefaultValueProvider

variable {t} {kco kco' : KeyOpFieldsValuesTuple}

theorem missing_eq_empty_iff {defaults fvs} :
    missing defaults fvs = ∅ ↔ ∀ field ∈ defaults, field ∈ fvs.map fst := by
  constructor
  · intro none field there
    by_contra absent
    have entry := getElem?_missing defaults fvs field
    rw [none, if_neg absent] at entry
    exact mem_iff_getElem?_ne_none.mp there entry.symm
  · intro present
    ext field : 1
    rw [getElem?_missing]
    split
    · rfl
    · rename_i absent
      exact getElem?_eq_none fun there => absent (present field there)

theorem decorates_of_append (appended : t.appendDefaultValue kco = .ok kco') :
    t.Decorates kco kco' := by
  unfold appendDefaultValue at appended
  unfold Decorates
  split at appended
  · rename_i other
    rw [if_neg other]
    exact (Except.ok.inj appended).symm
  · rename_i set
    rw [if_pos (not_not.mp set)]
    rw [appendDefaultValues_eq] at appended
    cases looked : t.defaultValueProvider.defaultsFor t.tableName kco.kfvKey with
    | error u =>
      rw [looked] at appended
      cases appended
    | ok defaults =>
      rw [looked] at appended
      exact ⟨defaults, rfl, _, (Except.ok.inj appended).symm, getElem?_missing defaults _⟩

theorem Decorates.carries (decorates : t.Decorates kco kco') : t.Carries kco' := by
  unfold Decorates at decorates
  split at decorates
  · obtain ⟨defaults, looked, added, rfl, missing⟩ := decorates
    refine fun _ => ⟨defaults, looked, fun field there => ?_⟩
    rw [map_append, mem_append]
    by_cases present : field ∈ kco.kfvFieldsValues.map fst
    · exact .inl present
    · right
      rw [map_fst_toList_eq_keys, Std.ExtTreeMap.mem_keys,
        mem_iff_getElem?_ne_none, missing, if_neg present]
      exact mem_iff_getElem?_ne_none.mp there
  · rename_i other
    subst decorates
    exact fun set => absurd set other

theorem append_eq_self_iff : t.appendDefaultValue kco = .ok kco ↔ t.Carries kco := by
  constructor
  · exact fun same => (decorates_of_append same).carries
  · intro carries
    unfold appendDefaultValue
    split
    · rfl
    · rename_i set
      obtain ⟨defaults, looked, present⟩ := carries (not_not.mp set)
      have same : kco.kfvFieldsValues ++ (missing defaults kco.kfvFieldsValues).toList =
          kco.kfvFieldsValues := by
        rw [toList_eq_nil_iff.mpr (missing_eq_empty_iff.mpr present), append_nil]
      rw [appendDefaultValues_eq, looked]
      change Except.ok { kco with kfvFieldsValues :=
        kco.kfvFieldsValues ++ (missing defaults kco.kfvFieldsValues).toList } = _
      rw [same]

variable {l : List KeyOpFieldsValuesTuple}

theorem mapM_eq_self_iff : l.mapM t.appendDefaultValue = .ok l ↔ ∀ kco ∈ l, t.Carries kco := by
  induction l with
  | nil => simp [pure, Except.pure]
  | cons kco l ih =>
    rw [Throwing.mapM_cons_ok, forall_mem_cons, ← ih, ← append_eq_self_iff]
    constructor
    · rintro ⟨kco', l', first, rest, same⟩
      obtain ⟨rfl, rfl⟩ := cons.inj same
      exact ⟨first, rest⟩
    · rintro ⟨first, rest⟩
      exact ⟨kco, l, first, rest, rfl⟩

theorem decorates_of_mapM {l'} (decorated : l.mapM t.appendDefaultValue = .ok l') :
    Forall₂ t.Decorates l l' := by
  induction l generalizing l' with
  | nil =>
    cases decorated
    exact .nil
  | cons kco l ih =>
    obtain ⟨kco', rest, first, later, rfl⟩ := Throwing.mapM_cons_ok.mp decorated
    exact .cons (decorates_of_append first) (ih later)

theorem carries_of_forall₂ {l'} (decorated : Forall₂ t.Decorates l l') :
    ∀ kco' ∈ l', t.Carries kco' := by
  induction decorated with
  | nil => simp
  | cons first _ ih => exact forall_mem_cons.mpr ⟨first.carries, ih⟩

variable {front : List KeyOpFieldsValuesTuple}

theorem ne_nil_of_mapM (decorated : (kco :: l).mapM t.appendDefaultValue = .ok front) :
    front ≠ [] := by
  obtain ⟨kco', rest, -, -, rfl⟩ := Throwing.mapM_cons_ok.mp decorated
  exact cons_ne_nil kco' rest

/-! ## Calls until nothing is left -/

section Rounds

variable {call : Buffers → Except Fault (List KeyOpFieldsValuesTuple × Buffers)}
  {held held' : Buffers} {got kcos : List KeyOpFieldsValuesTuple} {fault : Fault}
  {obtained : List KeyOpFieldsValuesTuple × Option Fault}

theorem returns_of_error (failed : call held = .error fault) :
    (loop (round call) (held, got)).Returns (got, some fault) := by
  rw [returns_loop]
  left
  simp [round, failed]

theorem returns_of_nothing (gave : call held = .ok ([], held')) :
    (loop (round call) (held, got)).Returns (got, none) := by
  rw [returns_loop]
  left
  simp [round, gave]

theorem returns_of_more (gave : call held = .ok (kcos, held')) (some : kcos ≠ [])
    (rest : (loop (round call) (held', got ++ kcos)).Returns obtained) :
    (loop (round call) (held, got)).Returns obtained := by
  rw [returns_loop]
  right
  exact ⟨(held', got ++ kcos), by simp [round, gave, some], rest⟩

end Rounds

variable (t) in
def eventEntries (database : Nat → Keyspace) :
    List Reply → Nat → Except Table.TableError (List KeyOpFieldsValuesTuple)
  | [], _ => .ok []
  | event :: rest, i =>
    match t.popEvent (database i) event with
    | .error e => .error e
    | .ok kco => (kco.toList ++ ·) <$> eventEntries database rest (i + 1)

theorem popsRounds_ends (database : Nat → Keyspace) (events : List Reply) (i : Nat)
    (s : Handed Buffers) :
    Ends (t.toSubscriberStateTable.popsRounds database events i) s
      (fun _ s' => s'.consumer.buffer = s.consumer.buffer ∧
        ∃ kcos, t.eventEntries database events i = .ok kcos ∧ s'.vkco = s.vkco ++ kcos)
      (fun e _ => t.eventEntries database events i = .error e) := by
  induction events generalizing i s with
  | nil => exact Ends.pure ⟨rfl, [], rfl, by simp⟩
  | cons event rest ih =>
    apply Ends.bind_modify
    unfold eventEntries
    cases became : t.popEvent (database i) event with
    | error e => exact Ends.throw rfl
    | ok kco =>
      refine (ih (i + 1) _).mono ?_ ?_
      · rintro _ s' ⟨buffer, kcos, more, vkco⟩
        refine ⟨buffer, kco.toList ++ kcos, ?_, ?_⟩
        · rw [more]
          rfl
        · rw [vkco, append_assoc]
      · intro e s' failed
        rw [failed]
        rfl

theorem basePops_of_filled {database held} (filled : held.buffer ≠ []) :
    t.basePops database held = .ok (held.buffer, { held with buffer := [] }) := by
  have popped : t.toSubscriberStateTable.popsInto database ⟨[], held⟩ =
      .ok () ⟨held.buffer, { held with buffer := [] }⟩ := by
    change (if held.buffer ≠ [] then _ else _ : EStateM _ _ _) _ = _
    rw [if_pos filled]
    rfl
  unfold basePops
  rw [popped]

variable (t) in
def decoratedEvents (database : Nat → Keyspace) (events : List Reply) :
    Except Fault (List KeyOpFieldsValuesTuple) :=
  match t.eventEntries database events 0 with
  | .error e => .error (.table e)
  | .ok kcos => kcos.mapM t.appendDefaultValue

variable (t) in
theorem pops_events (database : Nat → Keyspace) (events : List Reply) :
    t.pops database ⟨[], events⟩ = (·, ⟨[], []⟩) <$> t.decoratedEvents database events := by
  have ends := t.popsRounds_ends database events 0 ⟨[], ⟨[], events⟩⟩
  have called : t.toSubscriberStateTable.popsInto database ⟨[], ⟨[], events⟩⟩ =
      (do
        t.toSubscriberStateTable.popsRounds database events 0
        modify fun s => { s with consumer.keyspaceEventBuffer := [] } :
        EStateM Table.TableError (Handed Buffers) Unit) ⟨[], ⟨[], events⟩⟩ := rfl
  unfold pops basePops decoratedEvents
  rw [called]
  cases ran : t.toSubscriberStateTable.popsRounds database events 0 ⟨[], ⟨[], events⟩⟩ with
  | error e s =>
    rw [bind_error ran, ends.of_thrown ran]
    rfl
  | ok _ s =>
    obtain ⟨buffer, kcos, became, vkco⟩ := ends.of_returned ran
    obtain ⟨vkco', ⟨buffer', events'⟩⟩ := s
    cases buffer
    cases vkco
    rw [bind_ok ran, became]
    cases kcos.mapM t.appendDefaultValue <;> rfl

/-- What was given before, and then the entries of the events. -/
def andThen (front : List KeyOpFieldsValuesTuple) :
    Except Fault (List KeyOpFieldsValuesTuple) → List KeyOpFieldsValuesTuple × Option Fault
  | .error fault => (front, some fault)
  | .ok kcos => (front ++ kcos, none)

theorem prefix_andThen (front : List KeyOpFieldsValuesTuple)
    (events : Except Fault (List KeyOpFieldsValuesTuple)) : front <+: (andThen front events).1 := by
  cases events with
  | error fault => exact prefix_refl front
  | ok kcos => exact prefix_append front kcos

theorem andThen_inj {front'}
    {events}
    (same : andThen front events = andThen front' events) : front = front' := by
  cases events with
  | error fault => exact congrArg fst same
  | ok kcos => exact append_cancel_right (congrArg fst same)

variable (t) in
/-- The entries of the events as the base class makes them, if it makes all of them. -/
def plainEvents (database : Nat → Keyspace) (events : List Reply) : List KeyOpFieldsValuesTuple :=
  (t.eventEntries database events 0).toOption.getD []

theorem andThen_decorates (inFront : Forall₂ t.Decorates l front) (database : Nat → Keyspace)
    (events : List Reply) :
    ∃ raw, raw <+: t.plainEvents database events ∧ Forall₂ t.Decorates (l ++ raw)
      (andThen front (t.decoratedEvents database events)).1 := by
  unfold plainEvents decoratedEvents
  cases t.eventEntries database events 0 with
  | error e => exact ⟨[], prefix_refl _, by simpa [andThen] using inFront⟩
  | ok raw =>
    simp only
    cases decorated : raw.mapM t.appendDefaultValue with
    | error fault => exact ⟨[], nil_prefix, by simpa [andThen] using inFront⟩
    | ok kcos => exact ⟨raw, prefix_refl _, rel_append inFront (decorates_of_mapM decorated)⟩

section Draining

variable (t) (database : Nat → Keyspace) (events : List Reply) (got : List KeyOpFieldsValuesTuple)

theorem pops_nothing : t.pops database ⟨[], []⟩ = .ok ([], ⟨[], []⟩) := t.pops_events database []

theorem pops_events_returns :
    (loop (round (t.pops database)) (⟨[], events⟩, got)).Returns
      (andThen got (t.decoratedEvents database events)) := by
  have call := t.pops_events database events
  cases became : t.decoratedEvents database events with
  | error fault =>
    rw [became] at call
    exact returns_of_error call
  | ok kcos =>
    rw [became] at call
    cases kcos with
    | nil =>
      rw [andThen, append_nil]
      exact returns_of_nothing call
    | cons kco kcos =>
      exact returns_of_more call (cons_ne_nil _ _) (returns_of_nothing (t.pops_nothing database))

theorem pops_returns {front held}
    (decorated : held.buffer.mapM t.appendDefaultValue = .ok front) :
    (untilEmpty (t.pops database) held).Returns
      (andThen front (t.decoratedEvents database held.keyspaceEventBuffer)) := by
  obtain ⟨buffer, events⟩ := held
  cases buffer with
  | nil =>
    cases decorated
    exact t.pops_events_returns database events []
  | cons kco buffer =>
    have call : t.pops database ⟨kco :: buffer, events⟩ = .ok (front, ⟨[], events⟩) := by
      change (do pure (← (kco :: buffer).mapM t.appendDefaultValue, (⟨[], events⟩ : Buffers))) = _
      rw [decorated]
      rfl
    exact returns_of_more call (ne_nil_of_mapM decorated)
      (t.pops_events_returns database events front)

theorem pops_returns_error {fault held}
    (failed : held.buffer.mapM t.appendDefaultValue = .error fault) :
    (untilEmpty (t.pops database) held).Returns ([], some fault) := by
  apply returns_of_error
  have filled : held.buffer ≠ [] := by
    intro empty
    rw [empty] at failed
    cases failed
  unfold pops
  rw [basePops_of_filled filled]
  change (do pure (← held.buffer.mapM t.appendDefaultValue, _)) = _
  rw [failed]
  rfl

theorem pop_buffer_returns {obtained}
    (buffer : List KeyOpFieldsValuesTuple)
    (rest : (loop (round (t.pop database)) (⟨[], events⟩, got ++ buffer)).Returns obtained) :
    (loop (round (t.pop database)) (⟨buffer, events⟩, got)).Returns obtained := by
  induction buffer generalizing got with
  | nil => simpa using rest
  | cons kco buffer ih =>
    have call : t.pop database ⟨kco :: buffer, events⟩ = .ok ([kco], ⟨buffer, events⟩) := rfl
    apply returns_of_more call (cons_ne_nil _ _)
    apply ih
    simpa using rest

theorem pop_events_returns :
    (loop (round (t.pop database)) (⟨[], events⟩, got)).Returns
      (andThen got (t.decoratedEvents database events)) := by
  have call := t.pops_events database events
  have popped : t.pop database ⟨[], events⟩ = (do
      let (vkco, held) ← t.pops database ⟨[], events⟩
      match vkco with
      | [] => pure ([], { held with buffer := [] })
      | kco :: rest => pure ([kco], { held with buffer := rest })) := by
    unfold pop
    cases t.pops database ⟨[], events⟩ with
    | error fault => rfl
    | ok result =>
      obtain ⟨vkco, held⟩ := result
      cases vkco <;> rfl
  rw [call] at popped
  cases became : t.decoratedEvents database events with
  | error fault =>
    rw [became] at popped
    exact returns_of_error popped
  | ok kcos =>
    rw [became] at popped
    cases kcos with
    | nil =>
      rw [andThen, append_nil]
      exact returns_of_nothing popped
    | cons kco kcos =>
      apply returns_of_more popped (cons_ne_nil _ _)
      apply pop_buffer_returns
      have nothing : t.pop database ⟨[], []⟩ = .ok ([], ⟨[], []⟩) := by
        rfl
      rw [append_assoc]
      exact returns_of_nothing nothing

theorem pop_returns (held : Buffers) :
    (untilEmpty (t.pop database) held).Returns
      (andThen held.buffer (t.decoratedEvents database held.keyspaceEventBuffer)) :=
  t.pop_buffer_returns database held.keyspaceEventBuffer [] held.buffer
    (t.pop_events_returns database held.keyspaceEventBuffer held.buffer)

end Draining

/-- `pop` and `pops` give the same exactly if the entries in the buffer have their defaults, and
    then all entries that are set have them. What `pops` gives are the entries of the base class
    with the default value of each field that was missing. -/
theorem pop_same_iff (t : DecoratorSubscriberStateTable) (database : Nat → Keyspace)
    (held : Buffers) :
    ((∃ obtained, (untilEmpty (t.pop database) held).Returns obtained ∧
      (untilEmpty (t.pops database) held).Returns obtained) ↔ ∀ kco ∈ held.buffer, t.Carries kco) ∧
    ((∀ kco ∈ held.buffer, t.Carries kco) → ∀ obtained,
      (untilEmpty (t.pop database) held).Returns obtained → ∀ kco ∈ obtained.1, t.Carries kco) ∧
    ∀ obtained, (untilEmpty (t.pops database) held).Returns obtained →
      ∃ raw, raw <+: held.buffer ++ t.plainEvents database held.keyspaceEventBuffer ∧
        Forall₂ t.Decorates raw obtained.1 := by
  have popped := t.pop_returns database held
  refine ⟨⟨?_, ?_⟩, ?_, ?_⟩
  · rintro ⟨obtained, byPop, byPops⟩
    cases byPop.unique popped
    rw [← mapM_eq_self_iff]
    cases decorated : held.buffer.mapM t.appendDefaultValue with
    | error fault =>
      have same := byPops.unique (t.pops_returns_error database decorated)
      have before := prefix_andThen held.buffer
        (t.decoratedEvents database held.keyspaceEventBuffer)
      rw [same, prefix_nil] at before
      rw [before] at decorated
      cases decorated
    | ok front =>
      have same := byPops.unique (t.pops_returns database decorated)
      rw [andThen_inj same]
  · intro carried
    exact ⟨_, popped, t.pops_returns database (mapM_eq_self_iff.mpr carried)⟩
  · intro carried obtained returned
    cases returned.unique popped
    obtain ⟨raw, -, decorated⟩ := andThen_decorates
      (decorates_of_mapM (mapM_eq_self_iff.mpr carried)) database held.keyspaceEventBuffer
    exact carries_of_forall₂ decorated
  · intro obtained returned
    cases decorated : held.buffer.mapM t.appendDefaultValue with
    | error fault =>
      cases returned.unique (t.pops_returns_error database decorated)
      exact ⟨[], nil_prefix, .nil⟩
    | ok front =>
      cases returned.unique (t.pops_returns database decorated)
      obtain ⟨raw, within, all⟩ := andThen_decorates (decorates_of_mapM decorated) database
        held.keyspaceEventBuffer
      exact ⟨_, (prefix_append_right_inj held.buffer).mpr within, all⟩

private def zones : DecoratorSubscriberStateTable where
  toSubscriberStateTable := ⟨⟨ascii "VLAN", .vbar⟩, 4, .sorted⟩
  defaultValueProvider := (∅ : DefaultValueProvider).insert (ascii "VLAN")
    (.singleList (Hash.ofFields [(ascii "nat_zone", ascii "0")]))

private def zonesWith : Keyspace :=
  (∅ : Keyspace).write (zones.mainName (ascii "a"))
    (Value.ofHash (Hash.ofFields [(ascii "mtu", ascii "9100")]))

/-- After its construction the object gives an entry without its default to `pop`, and with it to
    `pops`. -/
theorem pop_undecorated :
    ∃ ls sys, Run (zones.toSubscriberStateTable.Step .blanks) (start zonesWith)
        ls sys ∧ sys.phase = .idle ∧
      (untilEmpty (zones.pop fun _ => sys.database)
        ⟨sys.buffer, sys.keyspaceEventBuffer⟩).Returns
          ([⟨ascii "a", SET_COMMAND, [(ascii "mtu", ascii "9100")]⟩], none) ∧
      (untilEmpty (zones.pops fun _ => sys.database)
        ⟨sys.buffer, sys.keyspaceEventBuffer⟩).Returns
          ([⟨ascii "a", SET_COMMAND,
            [(ascii "mtu", ascii "9100"), (ascii "nat_zone", ascii "0")]⟩], none) := by
  have words : Hiredis.blanks.words zones.psubscribeText =
      [ascii "PSUBSCRIBE", zones.keyspace] := by
    decide
  have unbuilt : Run (zones.toSubscriberStateTable.Step .blanks)
    (start zonesWith) [] (start zonesWith) := .refl _
  have listed := (unbuilt.snoc (.psubscribe rfl words)).snoc
    (.getKeys rfl (show _ = some [ascii "a"] from rfl))
  have built := (listed.snoc (.get rfl rfl)).snoc (.built rfl)
  refine ⟨_, _, built, rfl, ⟨3, ?_⟩, ⟨3, ?_⟩⟩
  · rfl
  · rfl

end DecoratorSubscriberStateTable

end SwssCommon
