import SwssCommon.Consumer.Machine

/-! # No wake-up is lost

The tokens of a consumer are the messages it has not read, those it has counted and the pop that is
due. The constructor starts with a token for every piece of work on the server, every producer step
posts enough of them, and every pop spends one and serves its worth.
-/

namespace SwssCommon

open Bytes Redis Script List

namespace System

variable {ρ : Type} {sys : System ρ} {channel : Bytes}

def Subscribed (channel : Bytes) (sys : System ρ) : Prop :=
  ∃ sub, sys.subscription = some sub ∧ sub.channel = channel ∧
    sub.received ≤ sys.server.sent channel

theorem tokens_read {sub held} (listens : sys.subscription = some sub) :
    tokens { sys with
      subscription := some { sub with received := sub.received + (held + 1) }
      select := sys.select.readData held } = sys.tokens.receive (held + 1) := by
  simp only [tokens, Tokens.receive, unread, listens, RedisSelect.readData, isDue,
    Tokens.mk.injEq, and_true]
  omega

theorem tokens_popped {server buffer}
    (subscribed : sys.Subscribed channel) (quiet : server.sent channel = sys.server.sent channel) :
    tokens { sys with server := server, buffer := buffer, phase := .waiting } =
      sys.tokens.spend := by
  obtain ⟨sub, listens, rfl, -⟩ := subscribed
  simp only [tokens, unread, listens, quiet, isDue, Tokens.spend]

theorem Subscribed.popped {server buffer}
    (subscribed : sys.Subscribed channel) (quiet : server.sent channel = sys.server.sent channel) :
    Subscribed channel { sys with server := server, buffer := buffer, phase := .waiting } := by
  obtain ⟨sub, listens, here, earlier⟩ := subscribed
  exact ⟨sub, listens, here, quiet ▸ earlier⟩

end System

namespace Consumer

variable {ρ π : Type} {hiredis : Hiredis} {c : Consumer} {mode : Mode} {channel : Bytes}
  {per batch : Nat} {owed : ρ → Nat} {Backlog : Server → Nat → Prop}
  {Produce : Server → ρ → π → Server → ρ → Prop} {sys sys' : System ρ}

/-- The constructor subscribes to the channel and counts the backlog, and a pop takes up to `batch`
    pieces off it. -/
structure Serves (hiredis : Hiredis) (c : Consumer) (Backlog : Server → Nat → Prop)
    (channel : Bytes) (batch : Nat) : Prop where
  subscribes : ∃ text, .subscribe text ∈ c.program
  listensOn : ∀ text name, .subscribe text ∈ c.program →
    hiredis.words text = [ascii "SUBSCRIBE", name] → name = channel
  counts : ∀ {s n first more}, Backlog s n →
    (queued c.program).mapM (integerReply s <| hiredis.words ·) = some (first :: more) →
    c.initialLength first = n
  pops : ∀ {s n out}, Backlog s n → c.Pops s out →
    Backlog out.server (n - batch) ∧ out.server.sent channel = s.sent channel ∧
      if out.threw then out.vkco = [] else out.vkco.length = min n batch

/-- The round is on its way until the object is built; then the tokens cover what is left on the
    server and in the buffer. -/
def Awake (c : Consumer) (mode : Mode) (Backlog : Server → Nat → Prop) (channel : Bytes)
    (per : Nat) (owed : ρ → Nat) (sys : System ρ) : Prop :=
  ∃ n, Backlog sys.server n ∧ (mode = .pops → sys.buffer = []) ∧
    match sys.phase with
    | .constructing construction =>
      sys.buffer = [] ∧ construction.done ++ construction.todo = c.program ∧
        ∀ text, .subscribe text ∈ construction.done → sys.Subscribed channel
    | _ =>
      sys.Subscribed channel ∧ sys.tokens.Covers per (owed sys.producers) (n + sys.buffer.length)

theorem awake_construct {s producers n} (backlog : Backlog s n) :
    Awake c mode Backlog channel per owed (.construct c s producers) :=
  ⟨n, backlog, fun _ => rfl, rfl, rfl, by simp⟩

theorem Awake.covers (h : Awake c mode Backlog channel per owed sys) (built : sys.Built) :
    ∃ n, Backlog sys.server n ∧ (mode = .pops → sys.buffer = []) ∧ sys.Subscribed channel ∧
      sys.tokens.Covers per (owed sys.producers) (n + sys.buffer.length) := by
  obtain ⟨n, backlog, bare, rest⟩ := h
  cases phase : sys.phase with
  | constructing construction => exact absurd phase (built construction)
  | waiting | due =>
    rw [phase] at rest
    exact ⟨n, backlog, bare, rest⟩

theorem Awake.of_covers {n} (backlog : Backlog sys.server n)
    (bare : mode = .pops → sys.buffer = []) (built : sys.Built)
    (subscribed : sys.Subscribed channel)
    (covers : sys.tokens.Covers per (owed sys.producers) (n + sys.buffer.length)) :
    Awake c mode Backlog channel per owed sys := by
  refine ⟨n, backlog, bare, ?_⟩
  cases phase : sys.phase with
  | constructing construction => exact absurd phase (built construction)
  | waiting | due => exact ⟨subscribed, covers⟩

/-! ## The constructor -/

private theorem round_step {construction : Construction} {instruction}
    {rest} (round : construction.done ++ construction.todo = c.program)
    (next : construction.todo = instruction :: rest) :
    construction.done ++ [instruction] ++ rest = c.program := by
  rw [← round, next, append_assoc]
  rfl

private theorem subscribed_step {construction : Construction} {instruction}
    (subscribed : ∀ text, .subscribe text ∈ construction.done → sys.Subscribed channel)
    (other : ∀ text, instruction ≠ .subscribe text) :
    ∀ text, .subscribe text ∈ construction.done ++ [instruction] → sys.Subscribed channel := by
  intro text member
  rcases mem_append.mp member with earlier | last
  · exact subscribed text earlier
  · exact absurd (mem_singleton.mp last).symm (other text)

theorem Awake.construct (serves : Serves hiredis c Backlog channel batch) (positive : 1 ≤ per)
    (h : Awake c mode Backlog channel per owed sys) (taken : Construct hiredis c sys sys') :
    Awake c mode Backlog channel per owed sys' := by
  obtain ⟨n, backlog, bare, rest⟩ := h
  cases taken with
  | watch phase next _ | multi phase next | enqueue phase next =>
    rw [phase] at rest
    obtain ⟨empty, round, subscribed⟩ := rest
    exact ⟨n, backlog, bare, empty, round_step round next, subscribed_step subscribed (by simp)⟩
  | @subscribe construction text name _ phase next reads =>
    rw [phase] at rest
    obtain ⟨empty, round, -⟩ := rest
    have member : .subscribe text ∈ c.program := by
      rw [← round, next]
      simp
    obtain rfl := serves.listensOn text name member reads
    exact ⟨n, backlog, bare, empty, round_step round next, fun _ _ => ⟨_, rfl, rfl, le_rfl⟩⟩
  | execFails phase _ =>
    rw [phase] at rest
    exact ⟨n, backlog, bare, rest.1, rfl, by simp⟩
  | @exec construction first more phase finished unchanged replies =>
    rw [phase] at rest
    obtain ⟨empty, round, subscribed⟩ := rest
    rw [finished, append_nil] at round
    rw [round] at replies subscribed
    obtain ⟨text, member⟩ := serves.subscribes
    refine .of_covers backlog bare (by simp [System.Built]) (subscribed text member) ?_
    -- the first reply counts the backlog, so that there is a token for every piece
    have counted := serves.counts backlog replies
    refine ⟨by simp [System.tokens, counted], ?_⟩
    simp only [Tokens.outstanding, System.tokens, empty]
    calc (n : Int) ≤ 1 * (n + (owed sys.producers : Int)) := by omega
      _ ≤ per * (n + (owed sys.producers : Int)) := by gcongr; exact_mod_cast positive
      _ ≤ _ := by gcongr; omega

/-! ## The built object -/

theorem Awake.read {sub held} (h : Awake c mode Backlog channel per owed sys)
    (built : sys.Built) (listens : sys.subscription = some sub) (inbox : held + 1 ≤ sys.unread) :
    Awake c mode Backlog channel per owed { sys with
      subscription := some { sub with received := sub.received + (held + 1) }
      select := sys.select.readData held } := by
  obtain ⟨n, backlog, bare, ⟨sub', listens', here, earlier⟩, covers⟩ := h.covers built
  obtain rfl := Option.some.inj (listens.symm.trans listens')
  have unread : sys.unread = sys.server.sent channel - sub.received := by
    simp only [System.unread, listens, here]
  refine .of_covers backlog bare built ⟨_, rfl, here, ?_⟩ ?_
  · simp only
    omega
  · rw [System.tokens_read listens]
    exact covers.receive inbox

theorem Awake.object (h : Awake c mode Backlog channel per owed sys) (idle : sys.phase = .waiting)
    (ready : sys.select.hasData) :
    Awake c mode Backlog channel per owed
      { sys with select := sys.select.updateAfterRead, phase := .due } := by
  obtain ⟨n, backlog, bare, subscribed, covers⟩ := h.covers (by simp [System.Built, idle])
  refine .of_covers backlog bare (by simp [System.Built]) subscribed ?_
  refine covers.grant ?_ (by simp [System.tokens, System.isDue, idle])
  simpa [System.tokens, RedisSelect.hasData] using ready

theorem Awake.pop (serves : Serves hiredis c Backlog channel batch) (small : per ≤ batch)
    (single : mode = .pop → per = 1) (h : Awake c mode Backlog channel per owed sys)
    (taken : Step hiredis c mode Produce sys .pop sys') :
    Awake c mode Backlog channel per owed sys' := by
  cases taken with
  | @pops out calls due popped =>
    obtain ⟨n, backlog, bare, subscribed, covers⟩ := h.covers (by simp [System.Built, due])
    obtain ⟨less, quiet, -⟩ := serves.pops backlog popped
    refine .of_covers less bare (by simp [System.Built]) (subscribed.popped quiet) ?_
    rw [System.tokens_popped subscribed quiet]
    refine (covers.spend (by simp [System.tokens, System.isDue, due])).of_le ?_
    simp only [bare calls, length_nil]
    omega
  | @popFront kco rest calls due front =>
    obtain ⟨n, backlog, bare, subscribed, covers⟩ := h.covers (by simp [System.Built, due])
    refine .of_covers backlog (by simp [calls]) (by simp [System.Built]) subscribed ?_
    have spent := covers.spend (by simp [System.tokens, System.isDue, due])
    rw [front, length_cons, single calls] at spent
    rw [single calls]
    exact spent.of_le (by simp only; omega)
  | @popFill out calls due empty popped =>
    obtain ⟨n, backlog, bare, subscribed, covers⟩ := h.covers (by simp [System.Built, due])
    obtain ⟨less, quiet, filled⟩ := serves.pops backlog popped
    refine .of_covers less (by simp [calls]) (by simp [System.Built])
      (subscribed.popped quiet) ?_
    rw [System.tokens_popped subscribed quiet]
    refine (covers.spend (by simp [System.tokens, System.isDue, due])).of_le ?_
    have one := single calls
    cases threw : out.threw with
    | true =>
      rw [threw, if_pos rfl] at filled
      simp only [if_true, filled, length_nil]
      omega
    | false =>
      rw [threw, if_neg (by simp)] at filled
      simp only [Bool.false_eq_true, if_false, length_tail]
      omega

/-! ## Runs -/

/-- A producer step that posts, or from now on owes, as many messages as the work it
    leaves needs. -/
def Posts (mode : Mode) (Backlog : Server → Nat → Prop) (channel : Bytes) (per : Nat)
    (owed : ρ → Nat) (sys : System ρ) (server : Server) (producers : ρ) : Prop :=
  ∀ n, Backlog sys.server n → (mode = .pops → sys.buffer = []) →
    sys.server.sent channel ≤ server.sent channel ∧ ∃ n', Backlog server n' ∧
      (sys.Built → sys.tokens.Covers per (owed sys.producers) (n + sys.buffer.length) →
        (sys.tokens.post (server.sent channel - sys.server.sent channel)).Covers per
          (owed producers) (n' + sys.buffer.length))

theorem Awake.produce {server producers}
    (h : Awake c mode Backlog channel per owed sys)
    (posts : Posts mode Backlog channel per owed sys server producers) :
    Awake c mode Backlog channel per owed
      { sys with server := server, producers := producers } := by
  obtain ⟨n, backlog, bare, rest⟩ := h
  obtain ⟨later, n', backlog', covers⟩ := posts n backlog bare
  have listens : sys.Subscribed channel →
      System.Subscribed channel { sys with server := server, producers := producers } := by
    rintro ⟨sub, listens, here, earlier⟩
    exact ⟨sub, listens, here, earlier.trans later⟩
  by_cases built : sys.Built
  · have awake : Awake c mode Backlog channel per owed sys := ⟨n, backlog, bare, rest⟩
    obtain ⟨m, backlog, bare, subscribed, covered⟩ := awake.covers built
    obtain ⟨-, m', backlog', covers⟩ := posts m backlog bare
    refine .of_covers backlog' bare built (listens subscribed) ?_
    obtain ⟨sub, listening, here, earlier⟩ := subscribed
    have tokens : System.tokens { sys with server := server, producers := producers } =
        sys.tokens.post (server.sent channel - sys.server.sent channel) := by
      simp only [System.tokens, Tokens.post, System.unread, listening, here, System.isDue,
        Tokens.mk.injEq, and_true]
      omega
    rw [tokens]
    exact covers built covered
  · obtain ⟨construction, phase⟩ : ∃ construction, sys.phase = .constructing construction := by
      simpa [System.Built] using built
    refine ⟨n', backlog', bare, ?_⟩
    simp only [phase] at rest ⊢
    obtain ⟨empty, round, subscribed⟩ := rest
    exact ⟨empty, round, fun text member => listens (subscribed text member)⟩

theorem Awake.step (serves : Serves hiredis c Backlog channel batch) (positive : 1 ≤ per)
    (small : per ≤ batch) (single : mode = .pop → per = 1) {event}
    (posts : ∀ call server producers, event = .produce call →
      Produce sys.server sys.producers call server producers →
        Posts mode Backlog channel per owed sys server producers)
    (h : Awake c mode Backlog channel per owed sys)
    (taken : Step hiredis c mode Produce sys event sys') :
    Awake c mode Backlog channel per owed sys' := by
  cases event with
  | produce call =>
    cases taken with
    | produce produced => exact h.produce (posts call _ _ rfl produced)
  | construct =>
    cases taken with
    | construct constructed => exact h.construct serves positive constructed
  | read messages =>
    cases taken with
    | read built listens inbox => exact h.read built listens inbox
  | object =>
    cases taken with
    | object idle ready => exact h.object idle ready
  | pop => exact h.pop serves small single taken

end Consumer

end SwssCommon
