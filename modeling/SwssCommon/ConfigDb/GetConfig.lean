import SwssCommon.ConfigDb.Connector

/-! # Reading the whole configuration

The plain connector reads one hash after the other. The other one asks for the hashes of a batch of
names in a transaction and then goes through the names again, taking a reply for each that it has
asked for.
-/

namespace SwssCommon

open Bytes Redis Throwing List OrderedMap DBConnector ConfigDBPipeConnector ConfigDBConnector

variable {c : UInt8} {ks : Keyspace} {server : RedisServer}

/-! ## Names with a separator of one character -/

theorem splitKey_cons (x : UInt8) (rest : Bytes) :
    splitKey [c] (x :: rest) = if c = x then some ([], rest)
      else (splitKey [c] rest).map fun p => (x :: p.1, p.2) := by
  unfold splitKey
  rw [findFirst]
  by_cases here : c = x
  · simp [here]
  · cases findFirst [c] rest <;> simp [here]

variable {table : Bytes}

theorem splitKey_append (free : c ∉ table) (row : Bytes) :
    splitKey [c] (table ++ c :: row) = some (table, row) := by
  induction table with
  | nil => simp [splitKey_cons]
  | cons x table ih =>
    rw [mem_cons, not_or] at free
    rw [cons_append, splitKey_cons, if_neg free.1, ih free.2]
    rfl

theorem of_splitKey {key row} (split : splitKey [c] key = some (table, row)) :
    c ∉ table ∧ key = table ++ c :: row := by
  induction key generalizing table with
  | nil => simp [splitKey, findFirst] at split
  | cons x rest ih =>
    rw [splitKey_cons] at split
    by_cases here : c = x
    · rw [if_pos here] at split
      obtain ⟨rfl, rfl⟩ : [] = table ∧ rest = row := by simpa using split
      simp [here]
    · rw [if_neg here, Option.map_eq_some_iff] at split
      obtain ⟨⟨table', row'⟩, later, same⟩ := split
      obtain ⟨rfl, rfl⟩ : x :: table' = table ∧ row' = row := by simpa using same
      obtain ⟨free, rfl⟩ := ih later
      simp [here, free]

theorem splitKey_eq_none {key} (none : splitKey [c] key = none) {row : Bytes}
    (free : c ∉ table) : key ≠ table ++ c :: row := by
  rintro rfl
  rw [splitKey_append free] at none
  cases none

/-! ## What is collected from a list of names -/

namespace ConfigData

def entry (data : ConfigData) (table row : Bytes) : Option Hash :=
  data[table]?.bind (·[row]?)

theorem entry_update (data : ConfigData) (table row : Bytes) (f : Hash → Hash)
    (table' row' : Bytes) :
    (data.update table row f).entry table' row' =
      if table = table' ∧ row = row' then some (f ((data.entry table row).getD ∅))
      else data.entry table' row' := by
  unfold update entry
  by_cases sameTable : table = table'
  · subst sameTable
    by_cases sameRow : row = row'
    · subst sameRow
      cases data[table]? <;> simp
    · cases data[table]? <;> simp [Std.ExtTreeMap.getElem?_insert]
  · simp [Std.ExtTreeMap.getElem?_insert, sameTable]

def Full (data : ConfigData) : Prop :=
  ∀ (table : Bytes) rows, data[table]? = some rows → ∃ row, row ∈ rows

theorem full_update {data : ConfigData} (full : data.Full) (table row : Bytes) (f : Hash → Hash) :
    (data.update table row f).Full := by
  intro table' rows found
  unfold update at found
  rw [Std.ExtTreeMap.getElem?_insert] at found
  split at found
  · obtain rfl := Option.some.inj found
    exact ⟨row, by simp⟩
  · exact full table' rows found

theorem ext_entry {data data' : ConfigData} (full : data.Full) (full' : data'.Full)
    (same : ∀ table row, data.entry table row = data'.entry table row) : data = data' := by
  have known : ∀ {d d' : ConfigData}, d.Full →
      (∀ table row, d.entry table row = d'.entry table row) →
      ∀ (table : Bytes) rows, d[table]? = some rows → d'[table]? = some rows := by
    intro d d' full same table rows found
    obtain ⟨row, member⟩ := full table rows found
    obtain ⟨h, stored⟩ := Option.isSome_iff_exists.mp
      (Std.ExtTreeMap.mem_iff_isSome_getElem?.mp member)
    have here := same table
    unfold entry at here
    rw [found] at here
    cases found' : d'[table]? with
    | none =>
      have absurd := here row
      rw [found', Option.bind_some, stored] at absurd
      cases absurd
    | some rows' =>
      rw [found'] at here
      congr 1
      exact Std.ExtTreeMap.ext_getElem? fun row => (here row).symm
  apply Std.ExtTreeMap.ext_getElem?
  intro table
  cases found : data[table]? with
  | some rows => exact (known full same table rows found).symm
  | none =>
    cases found' : data'[table]? with
    | none => rfl
    | some rows =>
      have there := known full' (fun t r => (same t r).symm) table rows found'
      rw [found] at there
      cases there

end ConfigData

/-- Data that was collected from these names: the hashes of those with a separator. -/
structure Reflects (ks : Keyspace) (c : UInt8) (seen : List Bytes) (data : ConfigData) : Prop where
  full : data.Full
  entry : ∀ table row, data.entry table row =
    if c ∉ table ∧ table ++ c :: row ∈ seen then ks.hashAt (table ++ c :: row) else none

namespace Reflects

variable {seen : List Bytes} {data : ConfigData} {key : Bytes}

theorem start (ks : Keyspace) (c : UInt8) : Reflects ks c [] ∅ where
  full table rows found := by simp at found
  entry table row := by simp [ConfigData.entry]

theorem skip (reflects : Reflects ks c seen data) (none : splitKey [c] key = none) :
    Reflects ks c (seen ++ [key]) data where
  full := reflects.full
  entry table row := by
    rw [reflects.entry]
    by_cases free : c ∈ table
    · simp [free]
    · simp [(splitKey_eq_none none free).symm]

theorem update (reflects : Reflects ks c seen data) {table row : Bytes}
    (split : splitKey [c] key = some (table, row)) {h : Hash} (found : ks.hashAt key = some h)
    {f : Hash → Hash} (new : f ∅ = h) (again : f h = h) :
    Reflects ks c (seen ++ [key]) (data.update table row f) where
  full := ConfigData.full_update reflects.full table row f
  entry table' row' := by
    obtain ⟨free, rfl⟩ := of_splitKey split
    rw [ConfigData.entry_update, reflects.entry, reflects.entry]
    by_cases same : table = table' ∧ row = row'
    · obtain ⟨rfl, rfl⟩ := same
      by_cases earlier : table ++ c :: row ∈ seen
      · simp [free, earlier, found, again]
      · simp [free, earlier, found, new]
    · have other : c ∉ table' → table' ++ c :: row' ≠ table ++ c :: row := by
        intro free' equal
        have twice := splitKey_append free' row'
        rw [equal, splitKey_append free] at twice
        exact same (by simpa using twice)
      rw [if_neg same]
      by_cases free' : c ∈ table'
      · simp [free']
      · simp [other free']

theorem unique {seen' data'} (reflects : Reflects ks c seen data)
    (reflects' : Reflects ks c seen' data') (same : ∀ key, key ∈ seen ↔ key ∈ seen') :
    data = data' := by
  apply ConfigData.ext_entry reflects.full reflects'.full
  intro table row
  rw [reflects.entry, reflects'.entry]
  simp only [same]

end Reflects

structure PlainHashes (ks : Keyspace) : Prop where
  hash : ∀ k ∈ ks, ∃ h, ks.hashAt k = some h
  names : ∀ k ∈ ks, (0 : UInt8) ∉ k
  fields : ∀ (k : Bytes) h (f v : Bytes), ks.hashAt k = some h → h[f]? = some v →
    (0 : UInt8) ∉ f ∧ (0 : UInt8) ∉ v

namespace PlainHashes

variable {key : Bytes} {h : Hash}

variable (server) in
theorem fields_eq (plain : PlainHashes ks) (found : ks.hashAt key = some h) :
    (server.fields h).map (fun fv => (cStr fv.1, cStr fv.2)) = server.fields h := by
  rw [map_congr_left, map_id]
  rintro ⟨f, v⟩ member
  obtain ⟨field, value⟩ := plain.fields key h f v found (server.mem_fields.mp member)
  rw [cStr_of_nulFree field, cStr_of_nulFree value, id]

theorem names_eq (plain : PlainHashes ks) {keys : List Bytes} (known : ∀ k ∈ keys, k ∈ ks) :
    keys.map cStr = keys := by
  rw [map_congr_left, map_id]
  exact fun k member => cStr_of_nulFree (plain.names k (known k member))

end PlainHashes

theorem insertNew_fields {m h : Hash} (part : ∀ f : Bytes, m[f]? = none ∨ m[f]? = h[f]?) :
    insertNew m (server.fields h) = h := by
  ext f : 1
  rw [getElem?_insertNew, server.lookup_fields]
  cases part f with
  | inl absent => rw [absent, Option.none_or]
  | inr same => rw [same, Option.or_self]

/-! ## The plain connector -/

namespace ConfigDBConnector

variable {seen : List Bytes} {data : ConfigData} {key : Bytes}

theorem readKey_ends (plain : PlainHashes ks) (known : key ∈ ks)
    (reflects : Reflects ks c seen data) :
    Ends (readKey server [c] data key) ks
      (fun data ks' => ks' = ks ∧ Reflects ks c (seen ++ [key]) data) (fun _ _ => False) := by
  obtain ⟨h, found⟩ := plain.hash key known
  have name : cStr key = key := cStr_of_nulFree (plain.names key known)
  unfold readKey
  cases split : splitKey [c] key with
  | none => exact Ends.pure ⟨rfl, reflects.skip split⟩
  | some p =>
    apply Ends.bind
    apply Ends.returned (hgetallMap_eq (name.symm ▸ found))
    rw [plain.fields_eq server found, insertNew_fields (by simp)]
    have some : h.isEmpty = false := by
      have nonempty := (Keyspace.mem_iff_of_hashAt found).mp known
      simpa [Hash.one_eq_empty] using nonempty
    rw [some, if_neg Bool.false_ne_true]
    exact Ends.pure ⟨rfl, reflects.update split found rfl rfl⟩

theorem readKeys_ends (plain : PlainHashes ks) {keys} (known : ∀ key ∈ keys, key ∈ ks)
    (reflects : Reflects ks c seen data) :
    Ends (keys.foldlM (readKey server [c]) data) ks
      (fun data ks' => ks' = ks ∧ Reflects ks c (seen ++ keys) data) (fun _ _ => False) := by
  induction keys generalizing seen data with
  | nil => exact Ends.pure ⟨rfl, by simpa using reflects⟩
  | cons key keys ih =>
    apply (readKey_ends plain (known key mem_cons_self) reflects).andThen
    rintro data' _ ⟨rfl, after⟩
    have rest := ih (fun k member => known k (mem_cons_of_mem key member)) after
    simpa using rest

variable (c server) in
theorem getConfig_ends (plain : PlainHashes ks) :
    Ends (getConfig server [c]) ks
      (fun data ks' => ks' = ks ∧ Reflects ks c (server.names ks) data) (fun _ _ => False) := by
  have all : (server.names ks).filter (Glob.globMatch (cStr (ascii "*"))) = server.names ks :=
    filter_eq_self.mpr fun key _ => Glob.globMatch_star key
  have known : ∀ key ∈ server.names ks, key ∈ ks := fun key => server.mem_names.mp
  apply Ends.bind
  apply Ends.returned (keys_eq (ascii "*") ks)
  rw [all, plain.names_eq known]
  exact readKeys_ends plain known (Reflects.start ks c)

end ConfigDBConnector

/-! ## The connector with transactions -/

namespace ConfigDBPipeConnector

open RedisTransactioner

variable {seen keys : List Bytes} {data : ConfigData} {key : Bytes}
  {s : RedisTransactioner Connection}

def requested (c : UInt8) (keys : List Bytes) : List Bytes :=
  keys.filter fun key => (splitKey [c] key).isSome

def requests (c : UInt8) (keys : List Bytes) : List (RedisCommand × Int) :=
  (requested c keys).map fun key => (.HGETALL (cStr key), REDIS_REPLY_ARRAY)

theorem requests_cons (key : Bytes) (keys : List Bytes) :
    requests c (key :: keys) = requests c [key] ++ requests c keys := by
  unfold requests requested
  cases splitted : (splitKey [c] key).isSome <;> simp [splitted]

theorem requestKey_ends {commands} (opened : Open s ks commands) :
    Ends (requestKey server [c] key) s
      (fun _ s' => Open s' ks (commands ++ requests c [key])) (fun _ _ => False) := by
  unfold requestKey
  cases split : splitKey [c] key with
  | none => exact Ends.pure (by simpa [requests, requested, split] using opened)
  | some p =>
    apply (enqueue_queues opened _ _).mono _ fun _ _ never => never
    intro _ s' after
    simpa [requests, requested, split] using after

theorem requestKeys_ends {commands} (opened : Open s ks commands) :
    Ends (keys.forM (requestKey server [c])) s
      (fun _ s' => Open s' ks (commands ++ requests c keys)) (fun _ _ => False) := by
  induction keys generalizing s commands with
  | nil => exact Ends.pure (by simpa [requests, requested] using opened)
  | cons key keys ih =>
    apply (requestKey_ends opened).andThen
    intro _ s' after
    rw [requests_cons, ← append_assoc]
    exact ih after

def replyFor (server : RedisServer) (ks : Keyspace) (key : Bytes) : RedisReply :=
  .array ((server.fields ((ks.hashAt key).getD ∅)).flatMap fun fv => [.string fv.1, .string fv.2])

theorem executeAll_requests (plain : PlainHashes ks) (known : ∀ key ∈ keys, key ∈ ks) :
    Connection.executeAll server ks ((requests c keys).map Prod.fst) =
      ((requested c keys).map (replyFor server ks), ks) := by
  have listed : ∀ key ∈ requested c keys, key ∈ ks :=
    fun key member => known key (mem_of_mem_filter member)
  unfold requests
  generalize requested c keys = names at listed
  induction names with
  | nil => rfl
  | cons key rest ih =>
    have here := listed key mem_cons_self
    obtain ⟨h, found⟩ := plain.hash key here
    have executed : (RedisCommand.HGETALL (cStr key)).execute server ks =
        (replyFor server ks key, ks) := by
      rw [cStr_of_nulFree (plain.names key here)]
      unfold replyFor
      rw [found]
      exact onHash_some found
    have others := ih fun key member => listed key (mem_cons_of_mem _ member)
    simp only [map_cons, Connection.executeAll, executed]
    rw [others]

theorem collectKey_ends (plain : PlainHashes ks) (known : key ∈ ks) {results}
    (waiting : s.results.map Pointer.reply =
      (requested c [key]).map (replyFor server ks) ++ results)
    (reflects : Reflects ks c seen data) :
    Ends (collectKey [c] data key) s
      (fun data s' => s'.server = s.server ∧ s'.results.map Pointer.reply = results ∧
        Reflects ks c (seen ++ [key]) data) (fun _ _ => False) := by
  unfold collectKey
  cases split : splitKey [c] key with
  | none => exact Ends.pure ⟨rfl, by simpa [requested, split] using waiting, reflects.skip split⟩
  | some p =>
    obtain ⟨h, found⟩ := plain.hash key known
    have first : s.results.map Pointer.reply = replyFor server ks key :: results := by
      simpa [requested, split] using waiting
    obtain ⟨p, rest, queued, reply, replies⟩ := map_eq_cons_iff.mp first
    have pairs : pairs (elements (replyFor server ks key)) =
        server.fields h := by
      unfold replyFor
      rw [found]
      exact (pairs_flatMap _).trans (plain.fields_eq server found)
    apply Ends.bind
    apply Ends.returned (dequeueReply_cons queued)
    simp only [reply, pairs]
    exact Ends.pure ⟨rfl, replies, reflects.update split found (insertNew_fields (by simp))
      (insertNew_fields (by simp))⟩

theorem collectKeys_ends (plain : PlainHashes ks) (known : ∀ key ∈ keys, key ∈ ks)
    (waiting : s.results.map Pointer.reply = (requested c keys).map (replyFor server ks))
    (reflects : Reflects ks c seen data) :
    Ends (keys.foldlM (collectKey [c]) data) s
      (fun data s' => s'.server = s.server ∧ Reflects ks c (seen ++ keys) data)
      (fun _ _ => False) := by
  induction keys generalizing s seen data with
  | nil => exact Ends.pure ⟨rfl, by simpa using reflects⟩
  | cons key keys ih =>
    have split : requested c (key :: keys) = requested c [key] ++ requested c keys :=
      filter_append [key] keys
    rw [split, map_append] at waiting
    apply (collectKey_ends plain (known key mem_cons_self) waiting reflects).andThen
    rintro data' s' ⟨same, rest, after⟩
    have others := ih (fun k member => known k (mem_cons_of_mem key member)) rest after
    simpa [same] using others

theorem getBatch_ends (plain : PlainHashes ks) {reply}
    (known : ∀ key ∈ reply.keys, key ∈ ks) (small : reply.cursor < 2 ^ 31)
    (idle : s.server = ⟨ks, none⟩) (reflects : Reflects ks c seen data) :
    Ends (getBatch server [c] data reply) s
      (fun result s' => result.1 = reply.cursor ∧ s'.server = ⟨ks, none⟩ ∧
        Reflects ks c (seen ++ reply.keys) result.2) (fun _ _ => False) := by
  apply Ends.bind
  apply onClient_ends (scan_eq small s.server.db)
  rw [plain.names_eq known]
  apply (multi_opens (by rw [idle])).andThen
  intro _ s₁ opened
  apply (requestKeys_ends opened).andThen
  intro _ s₂ opened
  apply Ends.bind
  have db : s.server.db = ks := by rw [idle]
  simp only [db] at opened
  apply (exec_executes opened (executeAll_requests plain known)).mono
  · rintro _ s₃ ⟨_, executed, results⟩
    apply (collectKeys_ends plain known results reflects).andThen
    rintro data' s₄ ⟨same, after⟩
    exact Ends.pure ⟨rfl, same.trans executed, after⟩
  · rintro _ s₃ ⟨wrong, _⟩
    apply wrong
    simp [requests, replyFor, RedisReply.type]

variable (server) in
theorem getConfig_ends (plain : PlainHashes ks) {before last}
    (known : ∀ reply ∈ before ++ [last], ∀ key ∈ reply.keys, key ∈ ks) (ends : last.cursor = 0)
    (goes : ∀ reply ∈ before, 0 < reply.cursor ∧ reply.cursor < 2 ^ 31)
    (idle : s.server = ⟨ks, none⟩) (reflects : Reflects ks c seen data) :
    Ends (getConfig server [c] (before ++ [last]) data) s
      (fun data s' => s'.server = ⟨ks, none⟩ ∧
        Reflects ks c (seen ++ (before ++ [last]).flatMap ScanReply.keys) data)
      (fun _ _ => False) := by
  induction before generalizing s seen data with
  | nil =>
    have small : last.cursor < 2 ^ 31 := by omega
    apply (getBatch_ends plain (known last (by simp)) small idle reflects).andThen
    rintro ⟨cursor, data'⟩ s' ⟨rfl, still, after⟩
    simp only [ends]
    exact Ends.pure ⟨still, by simpa using after⟩
  | cons reply before ih =>
    obtain ⟨positive, small⟩ := goes reply mem_cons_self
    apply (getBatch_ends plain (known reply (by simp)) small idle reflects).andThen
    rintro ⟨cursor, data'⟩ s' ⟨rfl, still, after⟩
    have more : (reply.cursor : Int) ≠ 0 := by omega
    simp only [ne_eq, more]
    have rest := ih (fun r member => known r (mem_cons_of_mem reply member))
      (fun r member => goes r (mem_cons_of_mem reply member)) still after
    simpa using rest

end ConfigDBPipeConnector

/-- Both connectors read the same: a row for each name with a separator, which is the hash of
    the name. -/
theorem get_config_same (server server' : RedisServer) (c : UInt8) {ks : Keyspace}
    {replies : List ScanReply} (plain : PlainHashes ks) (scans : Scans ks (ascii "*") replies) :
    ∃ data s', getConfig server [c] ks = .ok data ks ∧
      getConfig server' [c] replies ∅ (fresh ks) = .ok data s' ∧
      s'.server.db = ks ∧ data.Full ∧ ∀ table row, data.entry table row =
        if c ∉ table ∧ table ++ c :: row ∈ ks then ks.hashAt (table ++ c :: row) else none := by
  have listed : ∀ key, key ∈ replies.flatMap ScanReply.keys ↔ key ∈ ks := by
    intro key
    rw [mem_flatMap, scans.keys key]
    exact and_iff_left (Glob.globMatch_star key)
  obtain ⟨before, last, rfl, ends, goes⟩ := scans.ends
  have read := getConfig_ends c server plain
  obtain ⟨data, ks', ran⟩ := read.returns
  obtain ⟨rfl, reflects⟩ := read.of_returned ran
  have piped := getConfig_ends server' plain
    (fun reply member key inside => (listed key).mp (mem_flatMap.mpr ⟨reply, member, inside⟩))
    ends goes (s := fresh ks') rfl (Reflects.start ks' c)
  obtain ⟨data', s', ran'⟩ := piped.returns
  obtain ⟨idle, reflects'⟩ := piped.of_returned ran'
  have same : data = data' := by
    apply reflects.unique reflects'
    intro key
    rw [nil_append, listed, server.mem_names]
  subst same
  refine ⟨data, s', ran, ran', by rw [idle], reflects.full, fun table row => ?_⟩
  simp only [reflects.entry, server.mem_names]

private def speed : Hash := Hash.ofFields [(ascii "speed", ascii "100")]

private def twoHashes : Keyspace :=
  ((∅ : Keyspace).write (ascii "PORT|e") (Value.ofHash speed)).write
    (ascii "x") (Value.ofHash speed)

/-- Two batches. One name comes twice. -/
theorem get_config_same_taken_up :
    ∃ data s', getConfig .sorted (ascii "|") twoHashes = .ok data twoHashes ∧
      getConfig .sorted (ascii "|") [⟨7, [ascii "PORT|e"]⟩, ⟨0, [ascii "x", ascii "PORT|e"]⟩] ∅
        (fresh twoHashes) = .ok data s' ∧
      data.entry (ascii "PORT") (ascii "e") = some speed := by
  have names : ∀ k, k ∈ twoHashes ↔ k ∈ [ascii "PORT|e", ascii "x"] := fun _ => mem_of_keys rfl
  have hashes : ∀ k ∈ twoHashes, twoHashes.hashAt k = some speed := forall_mem (by decide)
  have plain : PlainHashes twoHashes := by
    refine ⟨fun k member => ⟨speed, hashes k member⟩, forall_mem (by decide), ?_⟩
    intro k h f v found stored
    have member : k ∈ twoHashes :=
      (Keyspace.mem_iff_of_hashAt found).mpr fun none => by simp [none] at stored
    obtain rfl := Option.some.inj ((hashes k member).symm.trans found)
    exact forall_entries (P := fun f v => 0 ∉ f ∧ 0 ∉ v) (by decide) f v stored
  have scans : Scans twoHashes (ascii "*")
      [⟨7, [ascii "PORT|e"]⟩, ⟨0, [ascii "x", ascii "PORT|e"]⟩] := by
    refine ⟨⟨[⟨7, [ascii "PORT|e"]⟩], _, rfl, rfl, by simp⟩, fun k => ?_⟩
    have all : Glob.globMatch (ascii "*") k = true := Glob.globMatch_star k
    simp [names, all, or_comm]
  obtain ⟨data, s', read, piped, _, _, entry⟩ := get_config_same .sorted .sorted 124 plain scans
  exact ⟨data, s', read, piped, entry (ascii "PORT") (ascii "e")⟩

end SwssCommon
