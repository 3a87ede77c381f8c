import SwssCommon.Redis.Keyspace
import SwssCommon.Lib.Glob

/-! # Keyspace notifications

The server announces the commands it executes on a channel named after the key.
-/

namespace SwssCommon.Redis

open Bytes

/-- Commands that write hashes, each to the key of its first argument. -/
inductive Command where
  | hset (name : Bytes) (fields : List (Bytes × Bytes))
  | hdel (name : Bytes) (fields : List Bytes)
  | del (name : Bytes)

def Command.name : Command → Bytes
  | .hset name _ | .hdel name _ | .del name => name

def Command.creates : Command → List Bytes
  | .hset _ fields => fields.map Prod.fst
  | _ => []

def Hash.without (h : Hash) (fields : List Bytes) : Hash :=
  fields.foldl (fun h f => h.erase f) h

theorem Hash.getElem?_without {h : Hash} {fields} {f v : Bytes}
    (found : (h.without fields)[f]? = some v) : h[f]? = some v := by
  induction fields generalizing h with
  | nil => exact found
  | cons g fields ih =>
    have before := ih (h := h.erase g) found
    rw [Std.ExtTreeMap.getElem?_erase] at before
    split at before
    · cases before
    · exact before

/-- What a command leaves and the events it is announced with. Commands that change
    nothing may go without. -/
inductive Executes (ks : Keyspace) : Command → Keyspace → List Bytes → Prop where
  | hset {name : Bytes} {fields : List (Bytes × Bytes)} {h : Hash} :
      ks.hashAt name = some h → fields ≠ [] →
      Executes ks (.hset name fields) (ks.write name (Value.ofHash (h * Hash.ofFields fields)))
        [ascii "hset"]
  | hdel {name : Bytes} {fields : List Bytes} {h : Hash} :
      ks.hashAt name = some h → (h.without fields = ∅ → h = ∅) →
      Executes ks (.hdel name fields) (ks.write name (Value.ofHash (h.without fields)))
        [ascii "hdel"]
  | hdelLast {name : Bytes} {fields : List Bytes} {h : Hash} :
      ks.hashAt name = some h → h ≠ ∅ → h.without fields = ∅ →
      Executes ks (.hdel name fields) (ks.write name none) [ascii "hdel", ascii "del"]
  | hdelNothing {name : Bytes} {fields : List Bytes} {h : Hash} :
      ks.hashAt name = some h → h.without fields = h → Executes ks (.hdel name fields) ks []
  | del {name : Bytes} : Executes ks (.del name) (ks.write name none) [ascii "del"]
  | delNothing {name : Bytes} : name ∉ ks → Executes ks (.del name) ks []

variable {ks ks' : Keyspace} {command : Command} {events : List Bytes} {name : Bytes}

theorem Executes.untouched
    (executed : Executes ks command ks' events) (other : command.name ≠ name) :
    ks'[name]? = ks[name]? := by
  cases executed with
  | hset | hdel | hdelLast | del => exact Keyspace.getElem?_write_of_ne other ks _
  | hdelNothing | delNothing => rfl

theorem Executes.elsewhere
    (executed : Executes ks command ks' events) (other : command.name ≠ name) :
    ks'.hashAt name = ks.hashAt name :=
  congrArg Value.hash? (executed.untouched other)

theorem Executes.missing (executed : Executes ks command ks' events)
    (empty : ks.hashAt name = some ∅) (other : ∀ fields, command ≠ .hset name fields) :
    ks'.hashAt name = some ∅ := by
  by_cases here : command.name = name
  · subst here
    cases executed with
    | hset => exact absurd rfl (other _)
    | @hdel name fields h found =>
      obtain rfl := Option.some.inj (empty.symm.trans found)
      have none : Hash.without ∅ fields = ∅ := by
        ext f v
        constructor
        · intro left
          exact Hash.getElem?_without left
        · intro left
          simp at left
      rw [none]
      exact ks.hashAt_write_none name
    | hdelLast | del => exact ks.hashAt_write_none _
    | hdelNothing | delNothing => exact empty
  · rw [executed.elsewhere here]
    exact empty

theorem Executes.hash (executed : Executes ks command ks' events) (hash : ks.hashAt name ≠ none) :
    ks'.hashAt name ≠ none := by
  by_cases here : command.name = name
  · subst here
    cases executed with
    | hset | hdel => exact ne_of_eq_of_ne (ks.hashAt_write_ofHash _ _) (Option.some_ne_none _)
    | hdelLast | del => exact ne_of_eq_of_ne (ks.hashAt_write_none _) (Option.some_ne_none _)
    | hdelNothing | delNothing => exact hash
  · rw [executed.elsewhere here]
    exact hash

theorem Executes.nulFree (executed : Executes ks command ks' events) :
    ∀ event ∈ events, 0 ∉ event := by
  cases executed with
  | hset | hdel | hdelLast | hdelNothing | del | delNothing => decide

theorem Executes.refreshes (executed : Executes ks command ks' events) :
    ks' = ks ∨ ks'.hashAt command.name = some ∅ ∨
      ∃ event ∈ events, event ≠ ascii "del" ∧ 0 ∉ event := by
  cases executed with
  | hset => exact .inr (.inr ⟨ascii "hset", by simp, by decide, by decide⟩)
  | hdel => exact .inr (.inr ⟨ascii "hdel", by simp, by decide, by decide⟩)
  | hdelLast | del => exact .inr (.inl (ks.hashAt_write_none _))
  | hdelNothing | delNothing => exact .inl rfl

theorem Executes.announces
    (executed : Executes ks command ks' events) (present : command.name ∈ ks) :
    command.name ∈ ks' ∨ ascii "del" ∈ events := by
  have written : ∀ (name : Bytes) (h : Hash), h ≠ 1 → name ∈ ks.write name (Value.ofHash h) :=
    fun name h filled => (Keyspace.mem_iff_of_hashAt (ks.hashAt_write_ofHash name h)).mpr filled
  cases executed with
  | hset found filled => exact .inl (written _ _ (Hash.mul_ofFields_ne_one filled _))
  | hdel found kept =>
    refine .inl (written _ _ fun empty => ?_)
    exact (Keyspace.mem_iff_of_hashAt found).mp present (kept empty)
  | hdelLast | del => exact .inr (by simp)
  | hdelNothing | delNothing => exact .inl present

inductive Reply where
  | nil
  | array (elements : List Bytes)
  | other
  deriving DecidableEq

def keyspaceChannel (dbId : Nat) (name : Bytes) : Bytes :=
  ascii "__keyspace@" ++ decimal dbId ++ ascii "__:" ++ name

section Channels

variable (dbId : Nat)

def channelOpening : Bytes :=
  ascii "__keyspace@" ++ decimal dbId ++ ascii "__"

theorem keyspaceChannel_eq (name : Bytes) :
    keyspaceChannel dbId name = channelOpening dbId ++ 58 :: name := by
  simp only [keyspaceChannel, channelOpening, List.append_assoc]
  rfl

variable {dbId}

theorem notMem_channelOpening {p} (notDigit : isDigit p = false)
    (other : p ∉ ascii "__keyspace@") : p ∉ channelOpening dbId := by
  intro member
  simp only [channelOpening, List.mem_append] at member
  rcases member with (start | inId) | stop
  · exact other start
  · simp [decimal_isDigit dbId p inId] at notDigit
  · exact other ((show ascii "__" ⊆ ascii "__keyspace@" by decide) stop)

theorem plain_channelOpening : Glob.Plain (channelOpening dbId) := by
  intro p member
  refine ⟨?_, ?_, ?_, ?_⟩ <;>
  · rintro rfl
    exact notMem_channelOpening (by decide) (by decide) member

theorem plain_keyspaceChannel {name} (plain : Glob.Plain name) :
    Glob.Plain (keyspaceChannel dbId name) := by
  rw [keyspaceChannel_eq]
  intro p member
  rcases List.mem_append.mp member with inOpening | rest
  · exact plain_channelOpening p inOpening
  · rcases List.mem_cons.mp rest with rfl | inName
    · decide
    · exact plain p inName

theorem cStr_keyspaceChannel (name : Bytes) :
    cStr (keyspaceChannel dbId name) = keyspaceChannel dbId (cStr name) := by
  rw [keyspaceChannel_eq, keyspaceChannel_eq]
  have free : 0 ∉ channelOpening dbId := notMem_channelOpening (by decide) (by decide)
  exact (List.takeWhile_append_of_pos fun c member => by
    simpa using fun isNul : c = 0 => free (isNul ▸ member)).trans rfl

end Channels

/-- What a connection subscribed to these patterns is sent for an event. -/
def pmessages (patterns : List Bytes) (dbId : Nat) (name event : Bytes) : List Reply :=
  (patterns.filter fun p => Glob.globMatch p (keyspaceChannel dbId name)).map fun p =>
    .array [ascii "pmessage", p, keyspaceChannel dbId name, event]

structure RedisMessage where
  type : Bytes
  pattern : Bytes
  channel : Bytes
  data : Bytes
  deriving DecidableEq

/-- The parts of a message as C strings, all empty if the reply is not one. -/
def RedisMessage.ofReply : Reply → RedisMessage
  | .array [type, pattern, channel, data] => ⟨cStr type, cStr pattern, cStr channel, cStr data⟩
  | _ => ⟨[], [], [], []⟩

end SwssCommon.Redis
