import SwssCommon.Lib.ChangeFeed
import SwssCommon.Subscriber.StateTable

/-! # Replaying the popped entries gives the table

What the subscriber has popped or holds of a key, followed by the events it has still to take, leads
to the entry in the database; from the entry to itself, while the constructor has not read it.
-/

namespace SwssCommon.SubscriberStateTable

open Bytes Redis ChangeFeed List Function Option Hash Table

variable {t : SubscriberStateTable}

/-! ## Tidy tables -/

structure Suitable (t : SubscriberStateTable) (hiredis : Hiredis) : Prop where
  plain : Glob.Plain t.tableName
  separatorFree : t.separator.byte ∉ t.tableName
  oneWord : hiredis.words t.psubscribeText = [ascii "PSUBSCRIBE", t.keyspace]

variable {hiredis : Hiredis}

theorem Suitable.nulFree (suitable : t.Suitable hiredis) : 0 ∉ t.tableName := by
  intro member
  have free := hiredis.nulFree t.psubscribeText t.keyspace (by simp [suitable.oneWord])
  exact free (by simp [keyspace, member])

/-- Keys that `Table` and events name alike. -/
def Legible (k : Bytes) : Prop :=
  k ≠ [] ∧ (0 : UInt8) ∉ k

structure Entries (t : TableBase) (ks : Keyspace) (main : Bytes → Hash) : Prop where
  hashes : ∀ k, ks.hashAt (t.mainName k) = some (main k)
  legible : ∀ k, main k ≠ ∅ → Legible k
  readable : ∀ k f v, (main k)[f]? = some v → Readable f

variable {k : Bytes}

theorem Entries.executed {ks ks' : Keyspace} {main : Bytes → Hash} {base : TableBase}
    (h : Entries base ks main) {command : Command} {events : List Bytes} {new : Hash}
    (executed : Executes ks command ks' events) (name : command.name = base.mainName k)
    (legible : Legible k) (readable : ∀ f ∈ command.creates, Readable f)
    (stored : ks'.hashAt (base.mainName k) = some new)
    (fields : ∀ f v, new[f]? = some v → (main k)[f]? = some v ∨ f ∈ command.creates) :
    Entries base ks' (update main k new) where
  hashes j := by
    by_cases here : j = k
    · rw [here, update_self, stored]
    · rw [update_of_ne here, ← h.hashes j]
      exact executed.elsewhere fun clash =>
        here (base.mainName_injective (name.symm.trans clash)).symm
  legible j present := by
    by_cases here : j = k
    · exact here ▸ legible
    · rw [update_of_ne here] at present
      exact h.legible j present
  readable j f v assigned := by
    by_cases here : j = k
    · rw [here, update_self] at assigned
      rcases fields f v assigned with old | created
      · exact h.readable k f v old
      · exact readable f created
    · rw [update_of_ne here] at assigned
      exact h.readable j f v assigned

def Keeps (t : TableBase) (command : Command) : Prop :=
  ∀ k, command.name = t.mainName k → Legible k ∧ ∀ f ∈ command.creates, Readable f

/-! ## Events -/

theorem afterFirst_append {c} {a b : Bytes} (free : c ∉ a) :
    afterFirst c (a ++ c :: b) = some b := by
  have found : (a ++ c :: b).findIdx? (· = c) = some a.length := by
    rw [findIdx?_append, findIdx?_eq_none_iff.mpr]
    · simp [findIdx?_cons]
    · intro d member
      simpa using fun same : d = c => free (same ▸ member)
  simp [afterFirst, found]

def entryMessage (t : SubscriberStateTable) (k event : Bytes) : Reply :=
  .array [ascii "pmessage", t.keyspace, keyspaceChannel t.dbId (t.mainName k), event]

theorem keyspace_eq : t.keyspace =
    keyspaceChannel t.dbId (t.tableName ++ t.getTableNameSeparator) ++ [Glob.star] := by
  simp only [keyspace, keyspaceChannel, append_assoc]
  rfl

section

variable (plain : Glob.Plain t.tableName)
include plain

private theorem channel_plain :
    Glob.Plain (keyspaceChannel t.dbId (t.tableName ++ t.getTableNameSeparator)) :=
  plain_keyspaceChannel (TableBase.plain_separated plain)

theorem globMatch_keyspace (name : Bytes) :
    Glob.globMatch t.keyspace (keyspaceChannel t.dbId name) ↔ ∃ k, name = t.mainName k := by
  rw [keyspace_eq, Glob.globMatch_plain_star (channel_plain plain)]
  simp only [keyspaceChannel, prefix_append_right_inj]
  exact exists_congr fun k => eq_comm

theorem pmessages_entry (k event : Bytes) :
    pmessages [t.keyspace] t.dbId (t.mainName k) event = [t.entryMessage k event] := by
  have matching := (globMatch_keyspace plain (t.mainName k)).mpr ⟨k, rfl⟩
  simp [pmessages, matching, entryMessage]

theorem pmessages_foreign {name} (foreign : ∀ k, name ≠ t.mainName k) (event : Bytes) :
    pmessages [t.keyspace] t.dbId name event = [] := by
  have unmatched : Glob.globMatch t.keyspace (keyspaceChannel t.dbId name) = false := by
    rw [← Bool.not_eq_true, globMatch_keyspace plain]
    exact fun ⟨k, same⟩ => foreign k same
  simp [pmessages, unmatched]

end

theorem readEvent_entryMessage (suitable : t.Suitable hiredis) {event}
    (key : 0 ∉ k) (data : 0 ∉ event) :
    t.readEvent (t.entryMessage k event) = some (k, event) := by
  have pattern : cStr t.keyspace = t.keyspace := by
    apply cStr_of_nulFree
    exact hiredis.nulFree t.psubscribeText t.keyspace (by simp [suitable.oneWord])
  have channel : cStr (keyspaceChannel t.dbId (t.mainName k)) =
      keyspaceChannel t.dbId (t.mainName k) := by
    rw [cStr_keyspaceChannel, cStr_of_nulFree (t.nul_notMem_mainName suitable.nulFree key)]
  have entry : afterFirst 58 (keyspaceChannel t.dbId (t.mainName k)) = some (t.mainName k) := by
    rw [keyspaceChannel_eq, afterFirst_append (notMem_channelOpening (by decide) (by decide))]
  have inTable : afterFirst t.separator.byte (t.mainName k) = some k := by
    rw [show t.mainName k = t.tableName ++ t.separator.byte :: k by
      simp [TableBase.mainName, TableBase.getTableNameSeparator]]
    exact afterFirst_append suitable.separatorFree
  have kind : cStr (ascii "pmessage") ≠ [] := by decide
  simp [readEvent, entryMessage, RedisMessage.ofReply, kind, pattern, channel, entry, inTable,
    cStr_of_nulFree data]

/-! ## Commands -/

def notice (event : Bytes) : Change :=
  if event = ascii "del" then .remove else .refresh

theorem executes_announced {ks ks' command events}
    (executed : Executes ks command ks' events) {h}
    (entry : ks.hashAt command.name = some h) :
    ∃ h', ks'.hashAt command.name = some h' ∧ Announced ∅ h h' (events.map notice) ∧
      (∀ f v, h'[f]? = some v → h[f]? = some v ∨ f ∈ command.creates) ∧
      ∀ event ∈ events, 0 ∉ event := by
  cases executed with
  | @hset name fields h₀ found some =>
    obtain rfl := Option.some.inj (entry.symm.trans found)
    refine ⟨_, ks.hashAt_write_ofHash _ _, .changed ?_, fun f v assigned => ?_, by decide⟩
    · intro empty
      apply some
      rw [← ofFields_eq_one_iff]
      ext f : 1
      have product : (h * ofFields fields)[f]? = none := by rw [empty]; simp
      rw [getElem?_mul, or_eq_none_iff] at product
      rw [product.1]
      simp
    · rw [getElem?_mul, or_eq_some_iff] at assigned
      rcases assigned with new | ⟨_, old⟩
      · have listed : f ∈ ofFields fields := by
          rw [Std.ExtTreeMap.mem_iff_isSome_getElem?, new]
          rfl
        exact .inr (by simpa [ofFields, Command.creates] using listed)
      · exact .inl old
  | @hdel name fields h₀ found kept =>
    obtain rfl := some.inj (entry.symm.trans found)
    refine ⟨_, ks.hashAt_write_ofHash _ _, ?_,
      fun f v left => .inl (getElem?_without left), by decide⟩
    by_cases empty : h.without fields = ∅
    · rw [empty, kept empty]
      exact .repeated
    · exact .changed empty
  | @hdelLast name fields h₀ found some none =>
    exact ⟨∅, ks.hashAt_write_none _, .emptied, by simp, by decide⟩
  | @hdelNothing name fields h₀ found same =>
    exact ⟨h, entry, .unnoticed, fun f v old => .inl old, by simp⟩
  | @del name => exact ⟨∅, ks.hashAt_write_none _, .removed, by simp, by decide⟩
  | @delNothing name missing => exact ⟨h, entry, .unnoticed, fun f v old => .inl old, by simp⟩

/-! ## Replaying -/

theorem replay_append (table : Bytes → Hash) (kcos more : List KeyOpFieldsValuesTuple) :
    replay table (kcos ++ more) = replay (replay table kcos) more := by
  induction kcos generalizing table with
  | nil => rfl
  | cons kco kcos ih => exact ih _

theorem replay_set (table : Bytes → Hash) (key : Bytes) (h : Hash) :
    replay table [⟨key, SET_COMMAND, t.server.fields h⟩] = update table key h := by
  simp [replay, RedisServer.ofFields_fields]

theorem replay_del (table : Bytes → Hash) (key : Bytes) :
    replay table [⟨key, DEL_COMMAND, []⟩] = update table key ∅ := by
  have other : DEL_COMMAND ≠ SET_COMMAND := by decide
  simp [replay, other]

theorem popped_append (ls ks : List Event) : popped (ls ++ ks) = popped ls ++ popped ks := by
  induction ls with
  | nil => rfl
  | cons l ls ih => cases l <;> simp [popped, ih]

namespace System

def events (sys : System) : List Reply :=
  sys.keyspaceEventBuffer ++ sys.unread

/-- What the loop of `pops` has collected. -/
def collected (sys : System) : List KeyOpFieldsValuesTuple :=
  match sys.phase with
  | .popping _ vkco => vkco
  | _ => []

/-- The constructor has still to read the entry, should there be one. -/
def awaits (sys : System) (k : Bytes) : Prop :=
  match sys.phase with
  | .unsubscribed | .subscribed => True
  | .fetching keys => k ∈ keys
  | _ => False

instance (sys : System) (k : Bytes) : Decidable (sys.awaits k) := by
  unfold awaits
  split <;> infer_instance

end System

/-- All entries that have left the database, popped or not, oldest first. -/
def given (ls : List Event) (sys : System) : List KeyOpFieldsValuesTuple :=
  popped ls ++ sys.collected ++ sys.buffer

def seen (ls : List Event) (sys : System) : Bytes → Hash :=
  replay (fun _ => ∅) (given ls sys)

def changeOf (t : SubscriberStateTable) (k : Bytes) (event : Reply) : Option Change :=
  (t.readEvent event).bind fun e => if e.1 = k then some (notice e.2) else none

structure Tracks (t : SubscriberStateTable) (ls : List Event) (sys : System)
    (main : Bytes → Hash) : Prop where
  entries : Entries t.toTableBase sys.database main
  quiet : sys.phase = .unsubscribed → sys.patterns = [] ∧ sys.events = []
  listening : sys.phase ≠ .unsubscribed → sys.patterns = [t.keyspace]
  legible : ∀ event ∈ sys.events, ∃ k op, t.readEvent event = some (k, op) ∧ Legible k
  distinct : ∀ keys, sys.phase = .fetching keys → keys.Nodup ∧ ∀ k ∈ keys, Legible k
  alone : ∀ byPop vkco, sys.phase = .popping byPop vkco → sys.buffer = []
  unseen : ∀ k, sys.awaits k → seen ls sys k = ∅
  onTheWay : ∀ k, catchUp ∅ (main k) (if sys.awaits k then main k else seen ls sys k)
    (sys.events.filterMap (t.changeOf k)) = main k

theorem changes_entry (suitable : t.Suitable hiredis) {events : List Bytes} (key : 0 ∉ k)
    (data : ∀ event ∈ events, 0 ∉ event) (j : Bytes) :
    (events.map (t.entryMessage k)).filterMap (t.changeOf j) =
      if k = j then events.map notice else [] := by
  induction events with
  | nil => simp
  | cons event events ih =>
    have first := readEvent_entryMessage suitable key (data event (by simp))
    have rest := ih fun e member => data e (by simp [member])
    have change : t.changeOf j (t.entryMessage k event) =
        if k = j then some (notice event) else none := by
      simp [changeOf, first]
    rw [map_cons, filterMap_cons, change, rest]
    by_cases same : k = j <;> simp [same]

namespace Tracks

variable {hiredis : Hiredis} {ls ls' : List Event} {sys sys' : System} {main : Bytes → Hash}

theorem carry (h : Tracks t ls sys main) (entries : Entries t.toTableBase sys'.database main)
    (patterns : sys'.patterns = sys.patterns) (events : sys'.events = sys.events)
    (same : given ls' sys' = given ls sys) (awaits : ∀ k, sys'.awaits k ↔ sys.awaits k)
    (subscription : sys'.phase = .unsubscribed ↔ sys.phase = .unsubscribed)
    (distinct : ∀ keys, sys'.phase = .fetching keys → keys.Nodup ∧ ∀ k ∈ keys, Legible k)
    (alone : ∀ byPop vkco, sys'.phase = .popping byPop vkco → sys'.buffer = []) :
    Tracks t ls' sys' main where
  entries := entries
  quiet new := by
    rw [patterns, events]
    exact h.quiet (subscription.mp new)
  listening old := by
    rw [patterns]
    exact h.listening fun new => old (subscription.mpr new)
  legible := by
    rw [events]
    exact h.legible
  distinct := distinct
  alone := alone
  unseen k waiting := by
    rw [seen, same]
    exact h.unseen k ((awaits k).mp waiting)
  onTheWay k := by
    simp only [seen, same, events, awaits k]
    exact h.onTheWay k

variable {k : Bytes} {database : Keyspace}

theorem write_entry {new command messages}
    (h : Tracks t ls sys main)
    (entries : Entries t.toTableBase database (update main k new)) (legible : Legible k)
    (silent : sys.phase = .unsubscribed → messages = [])
    (read : ∀ message ∈ messages, ∃ op, t.readEvent message = some (k, op))
    (elsewhere : ∀ j, j ≠ k → messages.filterMap (t.changeOf j) = [])
    (announced : sys.phase ≠ .unsubscribed →
      Announced ∅ (main k) new (messages.filterMap (t.changeOf k))) :
    Tracks t (ls ++ [.wrote command])
      { sys with database := database, unread := sys.unread ++ messages }
      (update main k new) := by
  have events : { sys with database := database, unread := sys.unread ++ messages }.events =
      sys.events ++ messages := (append_assoc ..).symm
  have same : seen (ls ++ [.wrote command])
      { sys with database := database, unread := sys.unread ++ messages } = seen ls sys := by
    simp [seen, given, popped_append, popped, System.collected]
  refine ⟨entries, fun unsubscribed => ?_, h.listening, ?_, h.distinct, h.alone, ?_, fun j => ?_⟩
  · refine ⟨(h.quiet unsubscribed).1, ?_⟩
    rw [events, (h.quiet unsubscribed).2, silent unsubscribed]
    rfl
  · rw [events]
    intro message member
    rcases mem_append.mp member with earlier | sent
    · exact h.legible message earlier
    · obtain ⟨op, event⟩ := read message sent
      exact ⟨k, op, event, legible⟩
  · rw [same]
    exact h.unseen
  · have before := h.onTheWay j
    rw [events, filterMap_append, same]
    change catchUp _ _ (if sys.awaits j then _ else _) _ = _
    by_cases here : j = k
    · subst here
      rw [update_self]
      by_cases unsubscribed : sys.phase = .unsubscribed
      · have waiting : sys.awaits j := by simp [System.awaits, unsubscribed]
        simp [(h.quiet unsubscribed).2, silent unsubscribed, waiting]
      · apply (announced unsubscribed).catchUp_eq before
        by_cases waiting : sys.awaits j
        · simp [waiting]
        · simp [waiting]
    · rw [update_of_ne here, elsewhere j here, append_nil]
      exact before

theorem write (suitable : t.Suitable hiredis) (h : Tracks t ls sys main) {command}
    {events} (executed : Executes sys.database command database events)
    (keeps : Keeps t.toTableBase command) :
    ∃ main', Tracks t (ls ++ [.wrote command])
      { sys with
        database := database
        unread := sys.unread ++ events.flatMap (pmessages sys.patterns t.dbId command.name) }
      main' := by
  have silent : sys.phase = .unsubscribed →
      events.flatMap (pmessages sys.patterns t.dbId command.name) = [] := by
    intro unsubscribed
    simp [(h.quiet unsubscribed).1, pmessages]
  by_cases inTable : ∃ k, command.name = t.mainName k
  · obtain ⟨k, name⟩ := inTable
    obtain ⟨legible, readable⟩ := keeps k name
    have entry := h.entries.hashes k
    rw [← name] at entry
    obtain ⟨new, stored, announced, fields, data⟩ := executes_announced executed entry
    have entries := h.entries.executed executed name legible readable (name ▸ stored) fields
    refine ⟨update main k new, ?_⟩
    by_cases unsubscribed : sys.phase = .unsubscribed
    · rw [silent unsubscribed]
      exact h.write_entry entries legible (fun _ => rfl) (by simp) (by simp)
        (fun subscribed => absurd unsubscribed subscribed)
    · have messages : events.flatMap (pmessages sys.patterns t.dbId command.name) =
          events.map (t.entryMessage k) := by
        rw [h.listening unsubscribed, name, map_eq_flatMap]
        exact flatMap_congr fun event _ => pmessages_entry suitable.plain k event
      rw [messages]
      refine h.write_entry entries legible (fun new => absurd new unsubscribed) ?_ ?_ ?_
      · intro message member
        obtain ⟨event, listed, rfl⟩ := mem_map.mp member
        exact ⟨event, readEvent_entryMessage suitable legible.2 (data event listed)⟩
      · intro j other
        rw [changes_entry suitable legible.2 data, if_neg other.symm]
      · intro _
        rw [changes_entry suitable legible.2 data, if_pos rfl]
        exact announced
  · have foreign : ∀ k, command.name ≠ t.mainName k := fun k same => inTable ⟨k, same⟩
    have messages : events.flatMap (pmessages sys.patterns t.dbId command.name) = [] := by
      by_cases unsubscribed : sys.phase = .unsubscribed
      · exact silent unsubscribed
      · rw [h.listening unsubscribed, flatMap_eq_nil_iff]
        exact fun event _ => pmessages_foreign suitable.plain foreign event
    have hashes : ∀ k, database.hashAt (t.mainName k) = some (main k) := fun k =>
      (executed.elsewhere (foreign k)).trans (h.entries.hashes k)
    refine ⟨main, h.carry ⟨hashes, h.entries.legible, h.entries.readable⟩ rfl ?_ ?_ (fun _ => .rfl)
      .rfl h.distinct h.alone⟩
    · simp [System.events, messages]
    · simp [given, popped_append, popped, System.collected]

theorem psubscribe (suitable : t.Suitable hiredis) (h : Tracks t ls sys main) {first}
    {more} (new : sys.phase = .unsubscribed)
    (words : hiredis.words t.psubscribeText = ascii "PSUBSCRIBE" :: first :: more) :
    Tracks t (ls ++ [.constructed]) { sys with
      patterns := first :: more
      unread := more.mapIdx fun i p => .array [ascii "psubscribe", p, decimal (i + 2)]
      phase := .subscribed } main := by
  rw [suitable.oneWord] at words
  obtain ⟨rfl, rfl⟩ : t.keyspace = first ∧ [] = more := by simpa using words
  have quiet := (h.quiet new).2
  simp only [System.events, append_eq_nil_iff] at quiet
  have events : { sys with
      patterns := [t.keyspace]
      unread := ([] : List Bytes).mapIdx fun i p => .array [ascii "psubscribe", p, decimal (i + 2)]
      phase := .subscribed }.events = [] := by
    simp [System.events, quiet.1]
  refine ⟨h.entries, by simp, fun _ => rfl, by rw [events]; simp, by simp, by simp,
    fun k _ => ?_, fun k => ?_⟩
  · have before := h.unseen k (by simp [System.awaits, new])
    simpa [seen, given, popped_append, popped, System.collected, new] using before
  · rw [events]
    simp [System.awaits]

theorem getKeys (suitable : t.Suitable hiredis) (h : Tracks t ls sys main) {keys}
    (subscribed : sys.phase = .subscribed)
    (listed : getKeys t.server t.toTableBase sys.database = some keys) :
    Tracks t (ls ++ [.constructed]) { sys with phase := .fetching keys } main := by
  obtain ⟨keys', all, distinct, present⟩ := getKeys_spec suitable.plain suitable.nulFree
    h.entries.hashes fun k some => (h.entries.legible k some).2
  obtain rfl := some.inj (listed.symm.trans all)
  have unseen : ∀ k, seen (ls ++ [.constructed]) { sys with phase := .fetching keys } k = ∅ := by
    intro k
    have before := h.unseen k (by simp [System.awaits, subscribed])
    simpa [seen, given, popped_append, popped, System.collected, subscribed] using before
  refine ⟨h.entries, by simp, fun _ => h.listening (by simp [subscribed]), h.legible, ?_, by simp,
    fun k _ => unseen k, fun k => ?_⟩
  · rintro _ ⟨⟩
    exact ⟨distinct, fun k member => h.entries.legible k ((present k).mp member)⟩
  · have before := h.onTheWay k
    rw [if_pos (by simp [System.awaits, subscribed])] at before
    have start : (if { sys with phase := .fetching keys }.awaits k then main k
        else seen (ls ++ [.constructed]) { sys with phase := .fetching keys } k) = main k := by
      by_cases some : k ∈ keys
      · exact if_pos some
      · have missing : main k = ∅ := not_not.mp fun other => some ((present k).mpr other)
        exact (if_neg some).trans ((unseen k).trans missing.symm)
    rw [start]
    exact before

theorem seen_added {kcos value}
    (added : given ls' sys' = given ls sys ++ kcos)
    (entry : replay (seen ls sys) kcos = update (seen ls sys) k value) :
    seen ls' sys' = update (seen ls sys) k value := by
  rw [seen, added, replay_append]
  exact entry

theorem replay_get (suitable : t.Suitable hiredis) (h : Tracks t ls sys main) {key}
    {values} (legible : Legible key)
    (fetched : get t.server t.toTableBase sys.database key = .ok values) (table : Bytes → Hash) :
    replay table (values.map fun fvs => ⟨key, SET_COMMAND, fvs⟩).toList =
      update table key (follow ∅ (main key) (table key) .refresh) := by
  rw [get_eq suitable.nulFree legible.1 legible.2 (h.entries.hashes key)
    (h.entries.readable key)] at fetched
  cases fetched
  by_cases missing : main key = ∅
  · simp [missing, follow, replay]
  · simp [missing, follow, replay_set]

theorem get (suitable : t.Suitable hiredis) (h : Tracks t ls sys main) {key}
    {keys values}
    (fetching : sys.phase = .fetching (key :: keys))
    (fetched : get t.server t.toTableBase sys.database key = .ok values) :
    Tracks t (ls ++ [.constructed]) { sys with
      buffer := sys.buffer ++ (values.map fun fvs => ⟨key, SET_COMMAND, fvs⟩).toList
      phase := .fetching keys } main := by
  obtain ⟨distinct, legible⟩ := h.distinct _ fetching
  rw [nodup_cons] at distinct
  have awaited : ∀ j, sys.awaits j ↔ j = key ∨ j ∈ keys := by
    simp [System.awaits, fetching]
  have current : follow ∅ (main key) (seen ls sys key) .refresh = main key := by
    rw [h.unseen key ((awaited key).mpr (.inl rfl)), follow]
    split
    · next missing => exact missing.symm
    · rfl
  have after : seen (ls ++ [.constructed]) { sys with
      buffer := sys.buffer ++ (values.map fun fvs => ⟨key, SET_COMMAND, fvs⟩).toList
      phase := .fetching keys } = update (seen ls sys) key (main key) := by
    have entry := h.replay_get suitable (legible key (by simp)) fetched (seen ls sys)
    rw [current] at entry
    exact seen_added (by simp [given, popped_append, popped, System.collected, fetching]) entry
  refine ⟨h.entries, by simp, fun _ => h.listening (by simp [fetching]), h.legible, ?_, by simp,
    fun j later => ?_, fun j => ?_⟩
  · rintro _ ⟨⟩
    exact ⟨distinct.2, fun k member => legible k (by simp [member])⟩
  · have other : j ≠ key := fun same => distinct.1 (same ▸ later)
    rw [after, update_of_ne other]
    exact h.unseen j ((awaited j).mpr (.inr later))
  · have before := h.onTheWay j
    rw [after]
    by_cases here : j = key
    · subst here
      rw [if_pos ((awaited j).mpr (.inl rfl))] at before
      rw [update_self, ite_self]
      exact before
    · rw [update_of_ne here]
      simp only [awaited, here, false_or] at before
      exact before

theorem replay_popEvent (suitable : t.Suitable hiredis) (h : Tracks t ls sys main) {event}
    {kco op} (legible : Legible k)
    (read : t.readEvent event = some (k, op)) (became : t.popEvent sys.database event = .ok kco)
    (table : Bytes → Hash) :
    replay table kco.toList =
      update table k (follow ∅ (main k) (table k) (notice op)) := by
  rw [popEvent, read] at became
  by_cases gone : op = ascii "del"
  · simp only [gone] at became
    cases became
    simp [notice, gone, follow, replay_del]
  · simp only [gone] at became
    cases fetched : Table.get t.server t.toTableBase sys.database k with
    | error e =>
      rw [fetched] at became
      cases became
    | ok values =>
      rw [fetched] at became
      cases became
      rw [notice, if_neg gone]
      exact h.replay_get suitable legible fetched table

theorem popsEvent (suitable : t.Suitable hiredis) (h : Tracks t ls sys main) {byPop}
    {vkco event rest}
    {kco} (popping : sys.phase = .popping byPop vkco)
    (next : sys.keyspaceEventBuffer = event :: rest)
    (became : t.popEvent sys.database event = .ok kco) :
    Tracks t (ls ++ [.took]) { sys with
      keyspaceEventBuffer := rest
      phase := .popping byPop (vkco ++ kco.toList) } main := by
  have events : sys.events = event :: (rest ++ sys.unread) := by simp [System.events, next]
  obtain ⟨k, op, read, legible⟩ := h.legible event (by simp [events])
  have alone := h.alone _ _ popping
  have built : ∀ j, ¬ sys.awaits j := by simp [System.awaits, popping]
  have after : seen (ls ++ [.took]) { sys with
      keyspaceEventBuffer := rest
      phase := .popping byPop (vkco ++ kco.toList) } =
        update (seen ls sys) k (follow ∅ (main k) (seen ls sys k) (notice op)) :=
    seen_added (by simp [given, popped_append, popped, System.collected, popping, alone])
      (h.replay_popEvent suitable legible read became (seen ls sys))
  refine ⟨h.entries, by simp, fun _ => h.listening (by simp [popping]), ?_, by simp,
    fun _ _ _ => alone, fun j waiting => absurd waiting (by simp [System.awaits]), fun j => ?_⟩
  · intro later member
    refine h.legible later ?_
    rw [events]
    exact mem_cons_of_mem _ member
  · have before := h.onTheWay j
    rw [if_neg (built j), events, filterMap_cons] at before
    rw [after]
    by_cases here : k = j
    · subst here
      simp only [changeOf, read, bind_some] at before
      rw [update_self]
      exact before
    · simp only [changeOf, read, bind_some, here] at before
      rw [update_of_ne (Ne.symm here)]
      exact before

theorem step (suitable : t.Suitable hiredis) (h : Tracks t ls sys main) {l}
    (keeps : ∀ command, l = .wrote command → Keeps t.toTableBase command)
    (taken : t.Step hiredis sys l sys') : ∃ main', Tracks t (ls ++ [l]) sys' main' := by
  cases taken with
  | write executed => exact h.write suitable executed (keeps _ rfl)
  | psubscribe new words => exact ⟨_, h.psubscribe suitable new words⟩
  | getKeys subscribed listed => exact ⟨_, h.getKeys suitable subscribed listed⟩
  | get fetching fetched => exact ⟨_, h.get suitable fetching fetched⟩
  | built fetched =>
    refine ⟨main, h.carry h.entries rfl rfl ?_ ?_ ?_ ?_ ?_⟩ <;>
      simp [given, popped_append, popped, System.collected, System.awaits, fetched]
  | readData idle waiting =>
    refine ⟨main, h.carry h.entries rfl ?_ ?_ (fun _ => .rfl) .rfl h.distinct h.alone⟩
    · simp [System.events, waiting]
    · simp [given, popped_append, popped, System.collected]
  | popsBuffer idle filled =>
    refine ⟨main, h.carry h.entries rfl rfl ?_ (fun _ => .rfl) .rfl h.distinct ?_⟩ <;>
      simp [given, popped_append, popped, System.collected, idle]
  | popBuffer idle filled =>
    refine ⟨main, h.carry h.entries rfl rfl ?_ (fun _ => .rfl) .rfl h.distinct ?_⟩ <;>
      simp [given, popped_append, popped, System.collected, idle, filled]
  | popsStart idle empty =>
    refine ⟨main, h.carry h.entries rfl rfl ?_ ?_ ?_ ?_ ?_⟩ <;>
      simp [given, popped_append, popped, System.collected, System.awaits, idle, empty]
  | popsEvent popping next became => exact ⟨_, h.popsEvent suitable popping next became⟩
  | popsReturn popping done =>
    refine ⟨main, h.carry h.entries rfl rfl ?_ ?_ ?_ ?_ ?_⟩ <;>
      simp [given, popped_append, popped, System.collected, System.awaits, popping]
  | @popReturn vkco popping done =>
    have alone := h.alone _ _ popping
    refine ⟨main, h.carry h.entries rfl rfl ?_ ?_ ?_ ?_ ?_⟩
    · cases vkco <;> simp [given, popped_append, popped, System.collected, popping, alone]
    all_goals simp [System.awaits, popping]

theorem run (suitable : t.Suitable hiredis) (initially : Entries t.toTableBase database main)
    (keeps : ∀ command, .wrote command ∈ ls → Keeps t.toTableBase command)
    (taken : Run (t.Step hiredis) (start database) ls sys) : ∃ main', Tracks t ls sys main' := by
  have allowed : Run (fun s l s' => t.Step hiredis s l s' ∧
      ∀ command, l = .wrote command → Keeps t.toTableBase command) (start database) ls sys :=
    taken.mono fun member step => ⟨step, fun command wrote => keeps command (wrote ▸ member)⟩
  refine allowed.invariant (I := fun ls sys => ∃ main', Tracks t ls sys main') ?_ ?_
  · refine ⟨main, initially, fun _ => ⟨rfl, rfl⟩, fun old => absurd rfl old, ?_, ?_, ?_, ?_, ?_⟩ <;>
      simp [start, System.events, System.awaits, seen, given, popped, System.collected, replay]
  · rintro ls sys l sys' ⟨main', h⟩ ⟨step, keeps⟩
    exact h.step suitable keeps step

end Tracks

/-- Once every event has been taken and nothing is buffered, the entries popped so far
    make up the table. -/
theorem convergence_of_popped (t : SubscriberStateTable) (hiredis : Hiredis)
    (suitable : t.Suitable hiredis) {database : Keyspace} {main : Bytes → Hash}
    (initially : Entries t.toTableBase database main) {ls : List Event} {sys : System}
    (keeps : ∀ command, .wrote command ∈ ls → Keeps t.toTableBase command)
    (run : Run (t.Step hiredis) (start database) ls sys) (idle : sys.phase = .idle)
    (read : sys.unread = []) (consumed : sys.keyspaceEventBuffer = []) (empty : sys.buffer = []) :
    ∀ k, sys.database.hashAt (t.mainName k) = some (replay (fun _ => ∅) (popped ls) k) := by
  obtain ⟨main', h⟩ := Tracks.run suitable initially keeps run
  intro k
  have there := h.onTheWay k
  rw [if_neg (by simp [System.awaits, idle])] at there
  simp only [System.events, read, consumed, append_nil, filterMap_nil, catchUp_nil, seen,
    given, System.collected, idle, empty] at there
  rw [h.entries.hashes k, there]

private def vlans : SubscriberStateTable := ⟨⟨ascii "VLAN", .vbar⟩, 4, .sorted⟩

private def holding (t : SubscriberStateTable) (k v : Bytes) : Keyspace :=
  (∅ : Keyspace).write (t.mainName k) (Value.ofHash (∅ * ofFields [(ascii "f", v)]))

private def setField (t : SubscriberStateTable) (k v : Bytes) : Command :=
  .hset (t.mainName k) [(ascii "f", v)]

private theorem entries_empty (base : TableBase) : Entries base ∅ fun _ => ∅ where
  hashes k := by simp [Keyspace.hashAt, Value.hash?]
  legible k present := absurd rfl present
  readable k f v assigned := by simp at assigned

private theorem setField_keeps {v} (legible : Legible k) :
    Keeps t.toTableBase (setField t k v) := by
  intro j name
  obtain rfl := t.mainName_injective name
  refine ⟨legible, fun f member => ?_⟩
  obtain rfl : f = ascii "f" := by simpa [setField, Command.creates] using member
  exact ⟨by decide, by decide⟩

/-- A set between the subscription and the listing of the keys is seen twice, the second
    time as the set after it left the entry. -/
theorem convergence_of_popped_sets :
    vlans.Suitable .blanks ∧ ∃ ls sys, Run (vlans.Step .blanks) (start ∅) ls sys ∧
      sys.phase = .idle ∧ (popped ls).length = 3 ∧
      ∀ k, sys.database.hashAt (vlans.mainName k) = some (replay (fun _ => ∅) (popped ls) k) := by
  have suitable : vlans.Suitable .blanks := ⟨by decide, by decide, by decide⟩
  have first : Executes ∅ (setField vlans (ascii "a") (ascii "v"))
      (holding vlans (ascii "a") (ascii "v")) [ascii "hset"] := .hset rfl (cons_ne_nil _ _)
  have second : Executes (holding vlans (ascii "a") (ascii "v"))
      (setField vlans (ascii "a") (ascii "w")) (holding vlans (ascii "a") (ascii "w"))
      [ascii "hset"] :=
    Executes.hset (h := ∅ * ofFields [(ascii "f", ascii "v")]) rfl
      (cons_ne_nil (ascii "f", ascii "w") [])
  have none : Run (vlans.Step .blanks) (start ∅) [] (start ∅) := .refl _
  have constructed : Run (vlans.Step .blanks) (start ∅) _
      ⟨holding vlans (ascii "a") (ascii "v"), [vlans.keyspace],
        [vlans.entryMessage (ascii "a") (ascii "hset")], [],
        [⟨ascii "a", SET_COMMAND, [(ascii "f", ascii "v")]⟩], .idle⟩ :=
    ((((none.snoc (.psubscribe rfl suitable.oneWord)).snoc (.write first)).snoc
      (.getKeys rfl (show _ = some [ascii "a"] from rfl))).snoc (.get rfl rfl)).snoc (.built rfl)
  have popping : Run (vlans.Step .blanks) (start ∅) _
      ⟨holding vlans (ascii "a") (ascii "w"), [vlans.keyspace], [],
        [vlans.entryMessage (ascii "a") (ascii "hset"),
          vlans.entryMessage (ascii "a") (ascii "hset")],
        [], .popping false []⟩ :=
    (((constructed.snoc (.popsBuffer rfl (by simp))).snoc (.write second)).snoc
      (.readData rfl (append_nil _).symm)).snoc (.popsStart rfl rfl)
  have steps := ((popping.snoc (.popsEvent rfl rfl rfl)).snoc (.popsEvent rfl rfl rfl)).snoc
    (.popsReturn rfl rfl)
  refine ⟨suitable, _, _, steps, rfl, rfl, convergence_of_popped vlans .blanks suitable
    (entries_empty _) (fun command wrote => ?_) steps rfl rfl rfl rfl⟩
  have legible : Legible (ascii "a") := ⟨by decide, by decide⟩
  obtain rfl | rfl : command = setField vlans (ascii "a") (ascii "v") ∨
      command = setField vlans (ascii "a") (ascii "w") := by simpa using wrote
  · exact setField_keeps legible
  · exact setField_keeps legible

/-- A table with a blank in its name: the subscription is to two other patterns. -/
private def blankName : SubscriberStateTable := ⟨⟨ascii "A B", .vbar⟩, 4, .sorted⟩

/-- The entry with the empty key is read under another name, and nothing is announced for a table
    with a blank in its name. -/
theorem convergence_misses :
    (vlans.Suitable .blanks ∧ ∃ sys, Run (vlans.Step .blanks) (start ∅)
      [.constructed, .constructed, .constructed, .wrote (setField vlans [] (ascii "v")), .read,
        .took, .took, .popped []] sys ∧
      sys.phase = .idle ∧ sys.unread = [] ∧ sys.keyspaceEventBuffer = [] ∧ sys.buffer = [] ∧
      sys.database.hashAt (vlans.mainName []) ≠ some (replay (fun _ => ∅) [] [])) ∧
    Glob.Plain blankName.tableName ∧ blankName.separator.byte ∉ blankName.tableName ∧
    ∃ sys, Run (blankName.Step .blanks) (start ∅)
      [.constructed, .constructed, .constructed,
        .wrote (setField blankName (ascii "k") (ascii "v")), .read, .took, .took, .popped []] sys ∧
      sys.phase = .idle ∧ sys.unread = [] ∧ sys.keyspaceEventBuffer = [] ∧ sys.buffer = [] ∧
      sys.database.hashAt (blankName.mainName (ascii "k")) ≠
        some (replay (fun _ => ∅) [] (ascii "k")) := by
  have suitable : vlans.Suitable .blanks := ⟨by decide, by decide, by decide⟩
  refine ⟨⟨suitable, ?_⟩, by decide, by decide, ?_⟩
  · have none : Run (vlans.Step .blanks) (start ∅) [] (start ∅) := .refl _
    have write : Executes ∅ (setField vlans [] (ascii "v")) (holding vlans [] (ascii "v"))
        [ascii "hset"] := .hset rfl (cons_ne_nil _ _)
    have popping : Run (vlans.Step .blanks) (start ∅) _ ⟨holding vlans [] (ascii "v"),
        [vlans.keyspace], [], [vlans.entryMessage [] (ascii "hset")], [], .popping false []⟩ :=
      (((((none.snoc (.psubscribe rfl suitable.oneWord)).snoc
        (.getKeys rfl (show _ = some [] from rfl))).snoc (.built rfl)).snoc (.write write)).snoc
        (.readData rfl (append_nil _).symm)).snoc (.popsStart rfl rfl)
    exact ⟨_, (popping.snoc (.popsEvent rfl rfl rfl)).snoc (.popsReturn rfl rfl), rfl, rfl, rfl,
      rfl, by decide⟩
  · have none : Run (blankName.Step .blanks) (start ∅) [] (start ∅) := .refl _
    have words : Hiredis.blanks.words blankName.psubscribeText =
        [ascii "PSUBSCRIBE", ascii "__keyspace@4__:A", ascii "B|*"] := by decide
    have write : Executes ∅ (setField blankName (ascii "k") (ascii "v"))
        (holding blankName (ascii "k") (ascii "v")) [ascii "hset"] :=
      .hset rfl (cons_ne_nil _ _)
    have popping : Run (blankName.Step .blanks) (start ∅) _
        ⟨holding blankName (ascii "k") (ascii "v"), [ascii "__keyspace@4__:A", ascii "B|*"], [],
          [.array [ascii "psubscribe", ascii "B|*", ascii "2"]], [], .popping false []⟩ :=
      (((((none.snoc (.psubscribe rfl words)).snoc
        (.getKeys rfl (show _ = some [] from rfl))).snoc (.built rfl)).snoc (.write write)).snoc
        (.readData rfl (append_nil _).symm)).snoc (.popsStart rfl rfl)
    exact ⟨_, (popping.snoc (.popsEvent rfl rfl rfl)).snoc (.popsReturn rfl rfl), rfl, rfl, rfl,
      rfl, by decide⟩

end SwssCommon.SubscriberStateTable
