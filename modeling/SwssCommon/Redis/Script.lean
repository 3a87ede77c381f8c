import SwssCommon.Lib.Glob
import SwssCommon.Redis.Keyspace

/-! # Atomic server-side scripts

A script is a state transformer over the server. A command that fails raises, and what the script
wrote before stays written. `Ensures x s Q` is total correctness from one start state; only its
rules unfold the transformer.
-/

namespace SwssCommon.Redis

open List Keyspace Value

/-- The keyspace, and every `PUBLISH` so far as (channel, message), oldest first. -/
structure Server where
  keyspace : Keyspace
  published : List (Bytes × Bytes)

namespace Server

def write (s : Server) (k : Bytes) (v : Option Value) : Server :=
  { s with keyspace := s.keyspace.write k v }

@[simp]
theorem write_keyspace (s : Server) (k : Bytes) (v : Option Value) :
    (s.write k v).keyspace = s.keyspace.write k v := rfl

end Server

inductive ScriptError where
  /-- A command met a value of another type. -/
  | wrongType
  /-- An argument was `nil`. -/
  | nilArgument
  /-- Arithmetic on something that is no numeral. -/
  | notANumber
  /-- A value that does not decode. -/
  | undecodable
  | raised (message : Bytes)
  deriving DecidableEq

def Script (α : Type) : Type :=
  Server → Except ScriptError α × Server

namespace Script

variable {α β : Type} {s : Server}

instance : Monad Script where
  pure a := fun s => (.ok a, s)
  bind x f := fun s => match x s with
    | (.ok a, s) => f a s
    | (.error e, s) => (.error e, s)

def raise (e : ScriptError) : Script α :=
  fun s => (.error e, s)

variable {x : Script α}

theorem pure_bind (a : α) (f : α → Script β) : ((Pure.pure a : Script α) >>= f) = f a := rfl

theorem bind_of_ok {s' a} (ran : x s = (.ok a, s')) (f : α → Script β) :
    (x >>= f) s = f a s' := by
  change (match x s with | (.ok a, s) => f a s | (.error e, s) => (.error e, s)) = _
  rw [ran]

theorem bind_of_error {s' e} (ran : x s = (.error e, s'))
    (f : α → Script β) : (x >>= f) s = (.error e, s') := by
  change (match x s with | (.ok a, s) => f a s | (.error e, s) => (.error e, s)) = _
  rw [ran]

theorem bind_eq_ok {f s'} {b : β} (ran : (x >>= f) s = (.ok b, s')) :
    ∃ a s₁, x s = (.ok a, s₁) ∧ f a s₁ = (.ok b, s') := by
  cases first : x s with
  | mk outcome s₁ =>
    cases outcome with
    | ok a => exact ⟨a, s₁, rfl, (bind_of_ok first f).symm.trans ran⟩
    | error e => cases (bind_of_error first f).symm.trans ran

/-- Run to completion from `s`, with a result and an end state satisfying `Q`. -/
def Ensures (x : Script α) (s : Server) (Q : α → Server → Prop) : Prop :=
  ∃ a s', x s = (.ok a, s') ∧ Q a s'

namespace Ensures

theorem pure {a} {Q : α → Server → Prop} (post : Q a s) :
    Ensures (Pure.pure a) s Q :=
  ⟨a, s, rfl, post⟩

variable {x : Script α}

theorem bind {f} {Q : β → Server → Prop}
    (first : Ensures x s fun a s' => Ensures (f a) s' Q) : Ensures (x >>= f) s Q := by
  obtain ⟨a, s', ran, b, s'', ran', post⟩ := first
  exact ⟨b, s'', (bind_of_ok ran f).trans ran', post⟩

theorem mono {Q R} (weaker : ∀ a s', Q a s' → R a s') (h : Ensures x s Q) :
    Ensures x s R := by
  obtain ⟨a, s', ran, post⟩ := h
  exact ⟨a, s', ran, weaker a s' post⟩

theorem finalState {Q} (h : Ensures x s fun _ => Q) : Q (x s).2 := by
  obtain ⟨a, s', ran, post⟩ := h
  rw [ran]
  exact post

end Ensures

/-- However the script ends, it leaves `I` as it found it. -/
def Preserves (I : Server → Prop) (x : Script α) : Prop :=
  ∀ s, I s → I (x s).2

namespace Preserves

variable {I : Server → Prop}

theorem pure (a : α) : Preserves I (Pure.pure a) := fun _ holds => holds

theorem raise (e : ScriptError) : Preserves I (Script.raise (α := α) e) := fun _ holds => holds

theorem bind {x} {f : α → Script β} (first : Preserves I x)
    (second : ∀ a, Preserves I (f a)) : Preserves I (x >>= f) := by
  intro s holds
  have between := first s holds
  change I (match x s with | (.ok a, s) => f a s | (.error e, s) => (.error e, s)).2
  match ran : x s with
  | (.ok a, s') => exact second a s' (by simpa only [ran] using between)
  | (.error e, s') => simpa only [ran] using between

end Preserves

/-- Whichever way the script ends, how it ends satisfies `Q`. -/
def Ends (x : Script α) (s : Server) (Q : Except ScriptError α → Server → Prop) : Prop :=
  Q (x s).1 (x s).2

namespace Ends

variable {Q : Except ScriptError α → Server → Prop}

theorem pure {a} (post : Q (.ok a) s) : Ends (Pure.pure a) s Q := post

theorem raise {e} (post : Q (.error e) s) : Ends (Script.raise e) s Q := post

theorem bind {x} {f : β → Script α}
    (first : Ends x s fun r s' => match r with
      | .ok b => Ends (f b) s' Q
      | .error e => Q (.error e) s') : Ends (x >>= f) s Q := by
  change Q (match x s with | (.ok b, s) => f b s | (.error e, s) => (.error e, s)).1
    (match x s with | (.ok b, s) => f b s | (.error e, s) => (.error e, s)).2
  unfold Ends at first
  match ran : x s with
  | (.ok b, s') | (.error e, s') => simpa only [ran] using first

theorem after {x} {f : β → Script α}
    (first : Ensures x s fun b s' => Ends (f b) s' Q) : Ends (x >>= f) s Q := by
  obtain ⟨b, s', ran, rest⟩ := first
  refine bind ?_
  simp only [Ends, ran]
  exact rest

end Ends

variable {I : Server → Prop}

theorem Preserves.ends_bind {x} {f : β → Script α}
    {Q} (h : Preserves I x) (holds : I s)
    (rest : ∀ b s', I s' → Ends (f b) s' Q) (failed : ∀ e s', I s' → Q (.error e) s') :
    Ends (x >>= f) s Q := by
  have kept := h s holds
  refine .bind ?_
  unfold Ends
  match ran : x s with
  | (.ok b, s') => exact rest b s' (by simpa only [ran] using kept)
  | (.error e, s') => exact failed e s' (by simpa only [ran] using kept)

def Stops (x : Script α) (s : Server) : Prop :=
  ∃ e, x s = (.error e, s)

namespace Stops

variable {x : Script α}

theorem bind (stops : Stops x s) (f : α → Script β) : Stops (x >>= f) s := by
  obtain ⟨e, ran⟩ := stops
  exact ⟨e, bind_of_error ran f⟩

theorem unchanged (stops : Stops x s) : (x s).2 = s := by
  obtain ⟨e, ran⟩ := stops
  rw [ran]

end Stops

/-! ## Loops -/

/-- `for i = first, first + count - 1 do ... end`, threading a local variable. -/
def foldRange (first : Nat) : Nat → α → (Nat → α → Script α) → Script α
  | 0, a, _ => Pure.pure a
  | count + 1, a, body => body first a >>= fun a => foldRange (first + 1) count a body

theorem foldRange_ensures {first count a body}
    (I : Nat → α → Server → Prop) (start : I first a s)
    (step : ∀ i a s, first ≤ i → i < first + count → I i a s → Ensures (body i a) s (I (i + 1))) :
    Ensures (foldRange first count a body) s (I (first + count)) := by
  induction count generalizing first a s with
  | zero => exact .pure start
  | succ count ih =>
    apply Ensures.bind
    apply (step first a s le_rfl (by omega) start).mono
    intro b s' after
    rw [show first + (count + 1) = first + 1 + count by omega]
    exact ih after (fun i a s low high => step i a s (by omega) (by omega))

def foldEach : List β → α → (β → α → Script α) → Script α
  | [], a, _ => Pure.pure a
  | x :: xs, a, body => body x a >>= fun a => foldEach xs a body

theorem foldEach_ensures {xs a body}
    (I : List β → α → Server → Prop) (start : I [] a s)
    (step : ∀ seen x rest a s, xs = seen ++ x :: rest → I seen a s →
      Ensures (body x a) s (I (seen ++ [x]))) :
    Ensures (foldEach xs a body) s (I xs) := by
  induction xs generalizing I a s with
  | nil => exact .pure start
  | cons x xs ih =>
    apply Ensures.bind
    apply (step [] x xs a s rfl start).mono
    intro b s' after
    refine ih (fun seen => I (x :: seen)) after ?_
    intro seen y rest c s'' split holds
    exact step (x :: seen) y rest c s'' (by simp [split]) holds

theorem foldEach_preserves {body} (step : ∀ x a, Preserves I (body x a))
    (xs : List β) (a : α) : Preserves I (foldEach xs a body) := by
  induction xs generalizing a with
  | nil => exact .pure a
  | cons x xs ih => exact (step x a).bind ih

/-! ## Arguments -/

/-- `KEYS[i]` and `ARGV[i]`: counted from one, `nil` outside. -/
def argument (args : List Bytes) (i : Nat) : Script Bytes :=
  match i with
  | 0 => raise .nilArgument
  | i + 1 => match args[i]? with
    | some a => Pure.pure a
    | none => raise .nilArgument

/-- `tonumber` of a counting argument. -/
def toNumber (a : Bytes) : Script Nat :=
  match Bytes.parseDecimal a with
  | some n => Pure.pure n
  | none => raise .notANumber

theorem toNumber_decimal (n : Nat) : toNumber (Bytes.decimal n) = Pure.pure n := by
  simp only [toNumber, Bytes.parseDecimal_decimal]

theorem argument_ensures {args i j a Q}
    (position : i = j + 1) (found : args[j]? = some a) (post : Q a s) :
    Ensures (argument args i) s Q := by
  simp only [position, argument, found]
  exact .pure post

theorem Ensures.argument {args i j a f}
    {Q : α → Server → Prop} (position : i = j + 1) (found : args[j]? = some a)
    (rest : Ensures (f a) s Q) : Ensures (Script.argument args i >>= f) s Q :=
  .bind (argument_ensures position found rest)

variable {n : Nat}

theorem toNumber_ensures {Q} (post : Q n s) :
    Ensures (toNumber (Bytes.decimal n)) s Q := by
  rw [toNumber_decimal]
  exact .pure post

theorem argument_preserves (args : List Bytes) (i : Nat) : Preserves I (argument args i) := by
  unfold argument
  split
  · exact .raise _
  · split
    · exact .pure _
    · exact .raise _

theorem toNumber_preserves (a : Bytes) : Preserves I (toNumber a) := by
  unfold toNumber
  split
  · exact .pure _
  · exact .raise _

/-! ## Invocation -/

/-- `EVALSHA sha numkeys key ... arg ...`: the count splits the words. -/
def evalsha (script : List Bytes → List Bytes → Script α) : List Bytes → Script α
  | [] => raise .nilArgument
  | numkeys :: words => do
    let n ← toNumber numkeys
    script (words.take n) (words.drop n)

variable {script : List Bytes → List Bytes → Script α}

theorem evalsha_eq (keys argv : List Bytes) (count : keys.length = n) :
    evalsha script (Bytes.decimal n :: (keys ++ argv)) = script keys argv := by
  simp only [evalsha, toNumber_decimal, pure_bind, ← count, take_left, drop_left]

theorem evalsha_ensures (keys argv : List Bytes) {Q} (count : keys.length = n)
    (post : Ensures (script keys argv) s Q) :
    Ensures (evalsha script (Bytes.decimal n :: (keys ++ argv))) s Q :=
  (evalsha_eq keys argv count).symm ▸ post

theorem evalsha_stops (keys argv : List Bytes) (count : keys.length = n)
    (stops : Stops (script keys argv) s) :
    Stops (evalsha script (Bytes.decimal n :: (keys ++ argv))) s :=
  (evalsha_eq keys argv count).symm ▸ stops

theorem evalsha_preserves
    (kept : ∀ KEYS ARGV, Preserves I (script KEYS ARGV)) (words : List Bytes) :
    Preserves I (evalsha script words) := by
  cases words with
  | nil => exact .raise _
  | cons numkeys words => exact (toNumber_preserves numkeys).bind fun n => kept _ _

/-! ## Commands -/

/-- The replies `SPOP key count` may give on a set: `count` distinct members, or
    all of them if there are fewer, in any order. -/
structure IsSpopReply (members : Finset Bytes) (count : Nat) (chosen : List Bytes) : Prop where
  nodup : chosen.Nodup
  subset : ∀ m ∈ chosen, m ∈ members
  length : chosen.length = min count members.card

structure SpopChoice where
  pick : Finset Bytes → Nat → List Bytes
  reply : ∀ members count, IsSpopReply members count (pick members count)

noncomputable def SpopChoice.listed : SpopChoice where
  pick members count := members.toList.take count
  reply members count := {
    nodup := members.nodup_toList.sublist (take_sublist _ _)
    subset := fun _ member => Finset.mem_toList.mp (mem_of_mem_take member)
    length := by simp }

private def onValue (read : Option Value → Option β) (k : Bytes)
    (act : β → Server → α × Server) : Script α :=
  fun s => match read s.keyspace[k]? with
    | some v => let (a, s) := act v s; (.ok a, s)
    | none => (.error .wrongType, s)

def sadd (k m : Bytes) : Script Nat :=
  onValue set? k fun members s =>
    (if m ∈ members then 0 else 1, s.write k (ofSet (insert m members)))

def srem (k m : Bytes) : Script Nat :=
  onValue set? k fun members s =>
    (if m ∈ members then 1 else 0, s.write k (ofSet (members.erase m)))

/-- `SPOP key count`, with the server's choice of members. -/
def spop (choice : SpopChoice) (k : Bytes) (count : Nat) : Script (List Bytes) :=
  onValue set? k fun members s =>
    (choice.pick members count, s.write k (ofSet (members \ (choice.pick members count).toFinset)))

def hset (k f v : Bytes) : Script Nat :=
  onValue hash? k fun h s =>
    (if f ∈ h then 0 else 1, s.write k (ofHash (h.insert f v)))

/-- `HSET` of several fields, with the number of new ones. -/
def hsetFields (k : Bytes) (fields : List (Bytes × Bytes)) : Script Nat :=
  onValue hash? k fun h s =>
    ((h * Hash.ofFields fields).size - h.size, s.write k (ofHash (h * Hash.ofFields fields)))

def hgetall (k : Bytes) : Script (List (Bytes × Bytes)) :=
  onValue hash? k fun h s => (h.toList, s)

/-- A field that is missing is `false` in the script, which equals no string. -/
def hget (k f : Bytes) : Script (Option Bytes) :=
  onValue hash? k fun h s => (h[f]?, s)

def del (k : Bytes) : Script Nat :=
  fun s => (.ok (if k ∈ s.keyspace then 1 else 0), s.write k none)

def keys (pattern : Bytes) : Script (List Bytes) :=
  fun s => (.ok (s.keyspace.keys.filter (Glob.globMatch pattern)), s)

def publish (channel message : Bytes) : Script Unit :=
  fun s => (.ok (), { s with published := s.published ++ [(channel, message)] })

/-- `LPUSH` of several elements puts them in front one after the other. -/
def lpush (k : Bytes) (elements : List Bytes) : Script Unit :=
  onValue list? k fun l s => ((), s.write k (ofList (elements.reverse ++ l)))

/-- The elements at positions `start .. stop`, negative ones counted from the end. -/
def slice (l : List Bytes) (start stop : Int) : List Bytes :=
  let fromEnd (i : Int) : Int := if i < 0 then l.length + i else i
  let first := max (fromEnd start) 0
  let last := fromEnd stop
  (l.take (last + 1).toNat).drop first.toNat

theorem slice_last (l : List Bytes) (some : 0 < n) :
    slice l (-(n : Int)) (-1) = l.drop (l.length - n) := by
  have start : (max ((l.length : Int) + -(n : Int)) 0).toNat = l.length - n := by omega
  have stop : ((l.length : Int) + -1 + 1).toNat = l.length := by omega
  simp only [slice, show -(n : Int) < 0 by omega, show (-1 : Int) < 0 by omega, if_true, start,
    stop, take_length]

theorem slice_butLast (l : List Bytes) (n : Nat) :
    slice l 0 (-(n : Int) - 1) = l.take (l.length - n) := by
  have stop : ((l.length : Int) + (-(n : Int) - 1) + 1).toNat = l.length - n := by omega
  simp only [slice, show -(n : Int) - 1 < 0 by omega, show ¬ (0 : Int) < 0 by omega, if_true,
    if_false, stop, max_self, Int.toNat_zero, drop_zero]

def lrange (k : Bytes) (start stop : Int) : Script (List Bytes) :=
  onValue list? k fun l s => (slice l start stop, s)

def ltrim (k : Bytes) (start stop : Int) : Script Unit :=
  onValue list? k fun l s => ((), s.write k (ofList (slice l start stop)))

section Rules

variable {k m f v : Bytes}

private theorem onValue_ensures {read}
    {act} {b : β} {Q : α → Server → Prop}
    (found : read s.keyspace[k]? = some b) (post : Q (act b s).1 (act b s).2) :
    Ensures (onValue read k act) s Q := by
  refine ⟨(act b s).1, (act b s).2, ?_, post⟩
  simp only [onValue, found]

private theorem onValue_stops {read} {act : β → Server → α × Server}
    (other : read s.keyspace[k]? = none) : Stops (onValue read k act) s := by
  refine ⟨.wrongType, ?_⟩
  simp only [onValue, other]

variable {Q : Nat → Server → Prop} {members : Finset Bytes}

theorem sadd_ensures (found : s.keyspace.setAt k = some members)
    (post : Q (if m ∈ members then 0 else 1) (s.write k (ofSet (insert m members)))) :
    Ensures (sadd k m) s Q :=
  onValue_ensures found post

theorem sadd_stops (other : s.keyspace.setAt k = none) : Stops (sadd k m) s := onValue_stops other

theorem srem_ensures (found : s.keyspace.setAt k = some members)
    (post : Q (if m ∈ members then 1 else 0) (s.write k (ofSet (members.erase m)))) :
    Ensures (srem k m) s Q :=
  onValue_ensures found post

theorem spop_ensures {choice count Q}
    (found : s.keyspace.setAt k = some members) (post : Q (choice.pick members count)
      (s.write k (ofSet (members \ (choice.pick members count).toFinset)))) :
    Ensures (spop choice k count) s Q :=
  onValue_ensures found post

variable {h : Hash}

theorem hset_ensures (found : s.keyspace.hashAt k = some h)
    (post : Q (if f ∈ h then 0 else 1) (s.write k (ofHash (h.insert f v)))) :
    Ensures (hset k f v) s Q :=
  onValue_ensures found post

theorem hset_stops (other : s.keyspace.hashAt k = none) : Stops (hset k f v) s :=
  onValue_stops other

theorem hsetFields_ensures {fields} (found : s.keyspace.hashAt k = some h)
    (post : ∀ n, Q n (s.write k (ofHash (h * Hash.ofFields fields)))) :
    Ensures (hsetFields k fields) s Q :=
  onValue_ensures found (post _)

theorem hgetall_ensures {Q}
    (found : s.keyspace.hashAt k = some h) (post : Q h.toList s) : Ensures (hgetall k) s Q :=
  onValue_ensures found post

theorem hget_ensures {Q} (found : s.keyspace.hashAt k = some h)
    (post : Q h[f]? s) : Ensures (hget k f) s Q :=
  onValue_ensures found post

theorem del_ensures (post : ∀ n, Q n (s.write k none)) : Ensures (del k) s Q := ⟨_, _, rfl, post _⟩

theorem keys_ensures {pattern Q}
    (post : Q (s.keyspace.keys.filter (Glob.globMatch pattern)) s) : Ensures (keys pattern) s Q :=
  ⟨_, _, rfl, post⟩

theorem publish_ensures {channel message Q}
    (post : Q () { s with published := s.published ++ [(channel, message)] }) :
    Ensures (publish channel message) s Q :=
  ⟨_, _, rfl, post⟩

variable {l : List Bytes}

theorem lpush_ensures {elements Q}
    (found : s.keyspace.listAt k = some l)
    (post : Q () (s.write k (ofList (elements.reverse ++ l)))) :
    Ensures (lpush k elements) s Q :=
  onValue_ensures found post

theorem lrange_ensures {start stop Q}
    (found : s.keyspace.listAt k = some l) (post : Q (slice l start stop) s) :
    Ensures (lrange k start stop) s Q :=
  onValue_ensures found post

theorem lrange_wrongType {start stop} (noList : s.keyspace.listAt k = none) :
    lrange k start stop s = (.error .wrongType, s) := by
  simp only [lrange, onValue, show list? s.keyspace[k]? = none from noList]

theorem ltrim_ensures {start stop Q}
    (found : s.keyspace.listAt k = some l)
    (post : Q () (s.write k (ofList (slice l start stop)))) :
    Ensures (ltrim k start stop) s Q :=
  onValue_ensures found post

theorem saddLoop_ensures {elements : List Bytes} {first body}
    (found : s.keyspace.setAt k = some members) (round : ∀ i m s' Q, elements[i]? = some m →
      Ensures (sadd k m) s' (fun _ => Q ()) → Ensures (body (first + i) ()) s' Q) :
    Ensures (foldRange first elements.length () body) s fun _ s' =>
      s' = s.write k (ofSet (members ∪ elements.toFinset)) := by
  refine Ensures.mono ?_ (foldRange_ensures (fun n _ s' =>
    s' = s.write k (ofSet (members ∪ (elements.take (n - first)).toFinset))) ?_ ?_)
  · rintro _ s' rfl
    simp
  · simp [Server.write, ← getElem?_of_setAt found, write_getElem?]
  · rintro n ⟨⟩ s' above inside rfl
    obtain ⟨i, rfl⟩ := Nat.exists_eq_add_of_le above
    have element := getElem?_eq_getElem (show i < elements.length by omega)
    apply round i elements[i] _ _ element
    apply sadd_ensures (by
      simp only [setAt, Server.write, getElem?_write_self]
      exact set?_ofSet _)
    rw [show first + i + 1 - first = i + 1 by omega]
    simp only [Server.write, write_write, Nat.add_sub_cancel_left, take_add_one,
      element, Option.toList_some, toFinset_append, toFinset_cons, toFinset_nil,
      Finset.union_insert, Finset.union_empty]

theorem hsetLoop_ensures {fields first}
    {body} (found : s.keyspace.hashAt k = some h)
    (round : ∀ i p s' Q, fields[i]? = some p →
      Ensures (hset k p.1 p.2) s' (fun _ => Q ()) → Ensures (body (first + i) ()) s' Q) :
    Ensures (foldRange first fields.length () body) s fun _ s' =>
      s' = s.write k (ofHash (h * Hash.ofFields fields)) := by
  refine Ensures.mono ?_ (foldRange_ensures (fun n _ s' =>
    s' = s.write k (ofHash (h * Hash.ofFields (fields.take (n - first))))) ?_ ?_)
  · rintro _ s' rfl
    simp
  · simp [Server.write, Hash.ofFields_nil, ← getElem?_of_hashAt found, write_getElem?]
  · rintro n ⟨⟩ s' above inside rfl
    obtain ⟨i, rfl⟩ := Nat.exists_eq_add_of_le above
    have element := getElem?_eq_getElem (show i < fields.length by omega)
    apply round i fields[i] _ _ element
    rw [show first + i + 1 - first = i + 1 by omega, Nat.add_sub_cancel_left,
      Hash.mul_ofFields_take element]
    apply hset_ensures (by
      simp only [hashAt, Server.write, getElem?_write_self]
      exact hash?_ofHash _)
    simp only [Server.write, write_write]

theorem delLoop_ensures (names : List Bytes) :
    Ensures (foldEach names () fun name _ => do let _ ← del name) s fun _ s' =>
      s'.published = s.published ∧
        ∀ name, s'.keyspace[name]? = if name ∈ names then none else s.keyspace[name]? := by
  refine foldEach_ensures (fun seen _ s' => s'.published = s.published ∧
    ∀ name, s'.keyspace[name]? = if name ∈ seen then none else s.keyspace[name]?)
    ⟨rfl, by simp⟩ ?_
  rintro seen name rest ⟨⟩ s' - ⟨quiet, content⟩
  refine .bind (del_ensures fun _ => .pure ⟨quiet, fun other => ?_⟩)
  rw [Server.write_keyspace, getElem?_write]
  by_cases same : name = other
  · simp [same]
  · simp [same, Ne.symm same, content]

end Rules

section Frames

variable {I : Server → Prop} {k : Bytes}

private theorem onValue_preserves {read}
    {act : β → Server → α × Server} (kept : ∀ b s, I s → I (act b s).2) :
    Preserves I (onValue read k act) := by
  intro s holds
  unfold onValue
  split
  · exact kept _ s holds
  · exact holds

theorem hgetall_preserves : Preserves I (hgetall k) := onValue_preserves fun _ _ holds => holds

theorem keys_preserves (pattern : Bytes) : Preserves I (keys pattern) := fun _ holds => holds

variable (kept : ∀ s v, I s → I (s.write k v))
include kept

theorem srem_preserves (m : Bytes) : Preserves I (srem k m) := onValue_preserves fun _ s => kept s _

theorem spop_preserves (choice : SpopChoice) (count : Nat) : Preserves I (spop choice k count) :=
  onValue_preserves fun _ s => kept s _

theorem hset_preserves (f v : Bytes) : Preserves I (hset k f v) :=
  onValue_preserves fun _ s => kept s _

theorem del_preserves : Preserves I (del k) := fun s => kept s none

end Frames

end Script

end SwssCommon.Redis
