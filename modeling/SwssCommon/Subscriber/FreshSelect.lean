import SwssCommon.Select.ReadySet
import SwssCommon.Subscriber.StateTable

/-! # A new select for every call

The C interface waits with a select of its own. All it knows of the table is whether there are
entries in `m_buffer` and something to read, not that events were read before. Popping returns what
is in `m_buffer` and leaves the events.
-/

namespace SwssCommon.SubscriberStateTable

namespace System

def hasData (d : System) : Bool :=
  d.buffer.length > 0 || d.keyspaceEventBuffer.length > 0

def hasCachedData (d : System) : Bool :=
  d.buffer.length + d.keyspaceEventBuffer.length > 1

def initializedWithData (d : System) : Bool :=
  d.buffer ≠ []

end System

namespace FreshSelect

open Bytes Redis List

variable (t : SubscriberStateTable) (hiredis : Hiredis) (pri : Int)

/-- The table as an object for a select, while the connection holds. -/
def selectable : Selectable System where
  readable d := d.unread ≠ []
  ReadData d d' := t.Step hiredis d .read d'
  ReadThrows _ _ := False
  hasData := System.hasData
  hasCachedData := System.hasCachedData
  initializedWithData := System.initializedWithData
  updateAfterRead d := d

def object : Select.Objects Unit System :=
  ⟨fun _ => pri, fun _ => selectable t hiredis⟩

structure Session where
  select : Select.System Unit System (.ordered Unit)
  /-- `selectOne` has reported data and the table has not been popped yet. -/
  due : Bool

namespace Session

def table (sys : Session) : System :=
  sys.select.data ()

def setTable (sys : Session) (d : System) : Session :=
  { sys with select := { sys.select with data := fun _ => d } }

def newSelect (sys : Session) : Select.System Unit System (.ordered Unit) :=
  (Select.start (.ordered Unit) sys.select.lastUsedTime sys.select.clock
    sys.select.data).addSelectable (object t hiredis pri) ()

end Session

inductive Call where
  /-- The constructor, a writer, or `pops`. -/
  | table (l : Event)
  | selectOne
  /-- A step of the select, with the number of entries in `m_buffer`. -/
  | selected (l : Select.Event Unit) (entries : Nat)

/-- A step of `pops`, not of `pop`: it returns all there is in `m_buffer`. -/
def ByPops : Event → System → Prop
  | .took, d => ∀ vkco, d.phase ≠ .popping true vkco
  | .popped _, d => d.buffer = []
  | _, _ => False

def isPopped : Event → Bool
  | .popped _ => true
  | _ => false

/-- Calls of `selectOne`, each followed by one of `pops` if it reports data. System calls
    do not fail. -/
inductive Step : Session → Call → Session → Prop where
  | construct {sys d} (step : t.Step hiredis sys.table .constructed d) :
      Step sys (.table .constructed) (sys.setTable d)
  | write {sys command d} (step : t.Step hiredis sys.table (.wrote command) d) :
      Step sys (.table (.wrote command)) (sys.setTable d)
  | selectOne {sys turn} (built : sys.table.phase = .idle) (idle : sys.select.phase = .idle)
      (popped : sys.due = false) (first : turn ≠ .second) :
      Step sys .selectOne
        { sys with select := { sys.newSelect t hiredis pri with phase := .waiting turn } }
  | select {sys l s} (calling : sys.select.phase ≠ .idle) (works : l ≠ .returned .error)
      (step : Select.Step (object t hiredis pri) (· ≤ ·) (fun _ _ _ => False) sys.select l s) :
      Step sys (.selected l sys.table.buffer.length) ⟨s, l = .returned (.object ())⟩
  | pops {sys l d} (due : sys.due = true) (step : t.Step hiredis sys.table l d)
      (byPops : ByPops l d) :
      Step sys (.table l) { sys.setTable d with due := !isPopped l }

def start (database : Keyspace) (lastUsedTime clock : Nat) : Session where
  select := Select.start (.ordered Unit) (fun _ => lastUsedTime) clock
    fun _ => SubscriberStateTable.start database
  due := false

variable {t hiredis pri}

def Constructed : Phase → Prop
  | .idle | .popping _ _ => True
  | _ => False

theorem Constructed.of_idle {phase} (idle : phase = .idle) : Constructed phase := by
  rw [idle]
  trivial

theorem unfinished_of_constructed {d d'} (step : t.Step hiredis d .constructed d') :
    ¬ Constructed d.phase ∧ d'.keyspaceEventBuffer = d.keyspaceEventBuffer := by
  cases step with
  | psubscribe new _ => simp [new, Constructed]
  | getKeys subscribed _ => simp [subscribed, Constructed]
  | get fetching _ => simp [fetching, Constructed]
  | built fetched => simp [fetched, Constructed]

/-! ## A call that will report data -/

/-- The call is in its first poll, and the table is ready or will be read. -/
structure Serving (sys : Session) : Prop where
  due : sys.due = true → sys.select.phase = .idle
  built : sys.select.phase ≠ .idle → sys.table.phase = .idle
  waiting : ∀ turn, sys.select.phase = .waiting turn → turn ≠ .second ∧ sys.select.objects = {()} ∧
    (sys.select.IsReady () ∧ sys.table.hasData = true ∨ sys.table.unread ≠ [])
  reading : ∀ fds turn, sys.select.phase = .reading fds turn →
    fds = [()] ∧ sys.table.unread ≠ [] ∨ fds = [] ∧ sys.select.IsReady () ∧ sys.table.hasData = true

theorem mem_insert_unit (lt : Unit → Unit → Bool) (l : List Unit) :
    () ∈ OrderedSet.insert lt () l := by
  cases l with
  | nil => exact mem_singleton_self ()
  | cons b l =>
    unfold OrderedSet.insert
    split <;> simp

variable {sys : Session} {turn : Select.Turn}

theorem Serving.of_selectOne (built : sys.table.phase = .idle) (popped : sys.due = false)
    (first : turn ≠ .second) (some : sys.table.buffer ≠ [] ∨ sys.table.unread ≠ []) :
    Serving { sys with select := { sys.newSelect t hiredis pri with phase := .waiting turn } } := by
  refine ⟨fun due => ?_, fun _ => built, ?_, fun _ _ reading => (nomatch reading)⟩
  · simp [popped] at due
  rintro _ ⟨⟩
  refine ⟨first, rfl, some.imp_left fun entries => ⟨?_, ?_⟩⟩
  · have inserted : (sys.newSelect t hiredis pri).ready =
        OrderedSet.insert (Select.cmp (fun _ => pri) sys.select.lastUsedTime) () [] := by
      have initialized : sys.table.initializedWithData := by
        simpa [System.initializedWithData] using entries
      exact if_pos initialized
    rw [Select.System.IsReady, inserted]
    exact mem_insert_unit _ _
  · have filled := length_pos_iff.mpr entries
    exact Bool.or_eq_true_iff.mpr (.inl (decide_eq_true filled))

theorem Serving.write {command d} (h : Serving sys)
    (step : t.Step hiredis sys.table (.wrote command) d) : Serving (sys.setTable d) := by
  have same : d.phase = sys.table.phase ∧ d.hasData = sys.table.hasData ∧
      (sys.table.unread ≠ [] → d.unread ≠ []) := by
    cases step with
    | write executed => exact ⟨rfl, rfl, fun waiting => by simp [waiting]⟩
  obtain ⟨phase, hasData, unread⟩ := same
  refine ⟨h.due, fun calling => phase.trans (h.built calling), fun turn waiting => ?_,
    fun fds turn reading => ?_⟩
  · obtain ⟨first, objects, reason⟩ := h.waiting turn waiting
    refine ⟨first, objects, reason.imp (fun ready => ⟨ready.1, hasData.trans ready.2⟩) unread⟩
  · exact (h.reading fds turn reading).imp (fun read => ⟨read.1, unread read.2⟩)
      fun ready => ⟨ready.1, ready.2.1, hasData.trans ready.2.2⟩

theorem Serving.select {l s}
    (h : Serving sys) (works : l ≠ .returned .error) (calling : sys.select.phase ≠ .idle)
    (step : Select.Step (object t hiredis pri) (· ≤ ·) (fun _ _ _ => False) sys.select l s) :
    Serving ⟨s, l = .returned (.object ())⟩ ∧
      ∀ result, l = .returned result → result = .object () := by
  have built := h.built calling
  cases step with
  | change changes => exact changes.elim
  | add idle | remove idle | call idle start => exact absurd idle calling
  | report waiting nodup registered quiet =>
    rename_i turn fds
    obtain ⟨-, objects, reason⟩ := h.waiting turn waiting
    refine ⟨⟨by simp, fun _ => built, fun _ waiting => (nomatch waiting), ?_⟩,
      fun _ returned => (nomatch returned)⟩
    rintro _ _ ⟨⟩
    cases fds with
    | nil =>
      have nothing : sys.table.unread = [] := by
        have quiet := quiet rfl () (by simp [objects])
        simpa [object, selectable, Session.table] using quiet
      exact .inr ⟨rfl, reason.resolve_right fun unread => unread nothing⟩
    | cons i rest =>
      have single : rest = [] := by simpa using nodup.length_le_card
      have readable := (registered i mem_cons_self).2
      exact .inl ⟨by rw [single], by simpa [object, selectable, Session.table] using readable⟩
  | fail waiting => exact absurd rfl works
  | interrupt waiting => exact absurd rfl (h.waiting _ waiting).1
  | read reading reads =>
    rename_i i fds turn d
    have last : fds = [] := by
      rcases h.reading _ _ reading with ⟨one, -⟩ | ⟨none, -⟩
      · exact (cons.inj one).2
      · cases none
    have after : d.phase = .idle ∧ d.hasData := by
      cases reads with
      | readData idle waiting => exact ⟨idle, by simp [System.hasData]⟩
    refine ⟨⟨by simp, fun _ => after.1, fun _ waiting => (nomatch waiting), ?_⟩,
      fun _ returned => (nomatch returned)⟩
    rintro _ _ ⟨⟩
    exact .inr ⟨last, mem_insert_unit _ _, after.2⟩
  | throw reading throws => exact throws.elim
  | skip reading begins ticks nothing =>
    have ready := (h.reading _ _ reading).resolve_left (by simp)
    exact absurd (ready.2.2.symm.trans nothing) (by simp)
  | take reading begins ticks something =>
    exact ⟨⟨by simp, fun _ => built, fun _ waiting => (nomatch waiting),
      fun _ _ reading => (nomatch reading)⟩,
      fun _ returned => (nomatch returned)⟩
  | give given =>
    refine ⟨⟨fun _ => rfl, fun calling => absurd rfl calling, fun _ waiting => (nomatch waiting),
      fun _ _ reading => (nomatch reading)⟩, ?_⟩
    rintro _ ⟨⟩
    rfl
  | retry reading none | timeout reading final none =>
    exact absurd ((h.reading _ _ reading).resolve_left (by simp)).2.1 (none ())

theorem Serving.of_idle (idle : sys.select.phase = .idle) : Serving sys where
  due _ := idle
  built calling := absurd idle calling
  waiting turn waiting := by simp [idle] at waiting
  reading fds turn reading := by simp [idle] at reading

theorem Serving.step {sys' l} (h : Serving sys)
    (taken : Step t hiredis pri sys l sys') (same : l ≠ .selectOne) :
    Serving sys' ∧
      ∀ result entries, l = .selected (.returned result) entries → result = .object () := by
  cases taken with
  | construct step =>
    refine ⟨.of_idle ?_, by simp⟩
    by_contra calling
    exact (unfinished_of_constructed step).1 (.of_idle (h.built calling))
  | write step => exact ⟨h.write step, by simp⟩
  | selectOne built idle popped first => exact absurd rfl same
  | select calling works step =>
    obtain ⟨serving, returns⟩ := h.select works calling step
    refine ⟨serving, ?_⟩
    rintro result _ ⟨⟩
    exact returns result rfl
  | pops due step byPops => exact ⟨.of_idle (h.due due), by simp⟩

/-! ## The call returns -/

def Reports (t : SubscriberStateTable) (hiredis : Hiredis) (pri : Int) (sys : Session) : Prop :=
  ∃ ks sys' entries, Run (Step t hiredis pri) sys ks sys' ∧
    .selected (.returned (.object ())) entries ∈ ks

theorem Reports.of_step {sys' l} (taken : Step t hiredis pri sys l sys')
    (later : Reports t hiredis pri sys') : Reports t hiredis pri sys := by
  obtain ⟨ks, sys'', entries, run, reported⟩ := later
  exact ⟨l :: ks, sys'', entries, .cons taken run, mem_cons_of_mem _ reported⟩

theorem reports_of_given {used} (given : sys.select.phase = .given () used) :
    Reports t hiredis pri sys := by
  have calling : sys.select.phase ≠ .idle := by simp [given]
  exact ⟨_, _, _, .single (.select calling (by simp) (.give given)), mem_singleton_self _⟩

theorem reports_of_ready (reading : sys.select.phase = .reading [] turn)
    (ready : sys.select.IsReady ()) (some : sys.table.hasData) :
    Reports t hiredis pri sys := by
  have calling : sys.select.phase ≠ .idle := by simp [reading]
  have begins : head? sys.select.ready = Option.some () := by
    obtain ⟨rest, more, front⟩ := append_of_mem ready
    cases rest <;> simp [front]
  exact .of_step (.select calling (by simp) (.take reading begins le_rfl some))
    (reports_of_given rfl)

theorem Serving.reports_of_reading {fds} (h : Serving sys)
    (reading : sys.select.phase = .reading fds turn) : Reports t hiredis pri sys := by
  rcases h.reading fds turn reading with ⟨rfl, unread⟩ | ⟨rfl, ready, some⟩
  · have calling : sys.select.phase ≠ .idle := by simp [reading]
    obtain ⟨event, rest, waiting⟩ := exists_cons_of_ne_nil unread
    have waiting : sys.table.unread = event :: [] ++ rest := waiting
    have taken : Step t hiredis pri sys _ _ := .select calling (by simp)
      (.read reading (.readData (h.built calling) waiting))
    have ready := ((h.step taken (by simp)).1.reading [] turn rfl).resolve_left (by simp)
    exact .of_step taken (reports_of_ready rfl ready.2.1 ready.2.2)
  · exact reports_of_ready reading ready some

theorem Serving.reports (h : Serving sys) (calling : sys.select.phase ≠ .idle) :
    Reports t hiredis pri sys := by
  cases phase : sys.select.phase with
  | idle => exact absurd phase calling
  | given i used => exact reports_of_given phase
  | reading fds turn => exact h.reports_of_reading phase
  | waiting turn =>
    obtain ⟨-, objects, -⟩ := h.waiting turn phase
    -- the table is reported if there is something to read
    have taken : ∃ fds, Step t hiredis pri sys (.selected (.reported fds) sys.table.buffer.length)
        ⟨{ sys.select with phase := .reading fds turn }, false⟩ := by
      by_cases nothing : sys.table.unread = []
      · refine ⟨[], .select calling (by simp) (.report phase (by simp) (by simp) ?_)⟩
        simpa [object, selectable, Session.table] using fun _ _ => nothing
      · refine ⟨[()], .select calling (by simp) (.report phase (by simp) ?_ (by simp))⟩
        simpa [object, selectable, Session.table, objects] using fun _ => nothing
    obtain ⟨fds, taken⟩ := taken
    exact .of_step taken ((h.step taken (by simp)).1.reports_of_reading rfl)

/-! ## Runs without a disturbance -/

/-- No event has been read while there were entries in `m_buffer`. -/
def Undisturbed (ls : List Call) : Prop :=
  ∀ i entries, .selected (.read i) entries ∈ ls → entries = 0

/-- Events that have been read are popped before the next call. -/
structure Calm (sys : Session) : Prop where
  due : sys.due = true → sys.select.phase = .idle
  constructed : sys.select.phase ≠ .idle ∨ sys.due = true ∨ sys.table.keyspaceEventBuffer ≠ [] →
    Constructed sys.table.phase
  reported : ∀ fds turn, sys.select.phase = .reading fds turn → fds.length ≤ 1
  entries : sys.table.keyspaceEventBuffer ≠ [] → sys.table.buffer = []
  pending : sys.table.keyspaceEventBuffer ≠ [] → sys.due = true ∨
    sys.select.phase.holding = some () ∨
      ∃ turn, sys.select.phase = .reading [] turn ∧ sys.select.IsReady ()

namespace Calm

variable {sys sys' : Session} {l : Call} {ls : List Call}

theorem nothing_read (h : Calm sys) (free : sys.select.phase.holding = none)
    (notReading : ∀ turn, sys.select.phase = .reading [] turn → ¬ sys.select.IsReady ())
    (notDue : sys.due = false) : sys.table.keyspaceEventBuffer = [] := by
  by_contra some
  rcases h.pending some with due | held | ⟨turn, reading, ready⟩
  · simp [notDue] at due
  · simp [free] at held
  · exact notReading turn reading ready

theorem of_nothing_read (nothing : sys.table.keyspaceEventBuffer = [])
    (due : sys.due = true → sys.select.phase = .idle)
    (constructed : sys.select.phase ≠ .idle ∨ sys.due = true → Constructed sys.table.phase)
    (reported : ∀ fds turn, sys.select.phase = .reading fds turn → fds.length ≤ 1) : Calm sys where
  due := due
  constructed reason := constructed (by simpa [nothing] using reason)
  reported := reported
  entries some := absurd nothing some
  pending some := absurd nothing some

theorem not_due (h : Calm sys) (calling : sys.select.phase ≠ .idle) : sys.due = false := by
  cases due : sys.due with
  | false => rfl
  | true => exact absurd (h.due due) calling

theorem rephase {phase} (h : Calm sys) (calling : sys.select.phase ≠ .idle)
    (free : sys.select.phase.holding = none)
    (notReading : ∀ turn, sys.select.phase = .reading [] turn → ¬ sys.select.IsReady ())
    (reported : ∀ fds turn, phase = .reading fds turn → fds.length ≤ 1) :
    Calm ⟨{ sys.select with phase := phase }, false⟩ := by
  refine of_nothing_read (h.nothing_read free notReading (h.not_due calling)) (by simp) ?_ reported
  intro _
  exact h.constructed (.inl calling)

theorem select {l s}
    (h : Calm sys) (calling : sys.select.phase ≠ .idle) (works : l ≠ .returned .error)
    (undisturbed : ∀ i, l = .read i → sys.table.buffer = [])
    (step : Select.Step (object t hiredis pri) (· ≤ ·) (fun _ _ _ => False) sys.select l s) :
    Calm ⟨s, l = .returned (.object ())⟩ := by
  cases step with
  | change changes => exact changes.elim
  | add idle | remove idle | call idle start => exact absurd idle calling
  | report waiting nodup registered quiet =>
    refine h.rephase calling (by rw [waiting]; rfl) (by simp [waiting]) ?_
    rintro _ _ ⟨⟩
    exact nodup.length_le_card
  | fail waiting => exact absurd rfl works
  | interrupt waiting =>
    exact h.rephase calling (by rw [waiting]; rfl) (by simp [waiting]) (by simp)
  | read reading reads =>
    rename_i i fds turn d
    have last : fds = [] := by simpa using h.reported _ _ reading
    have after : d.phase = .idle ∧ d.buffer = [] := by
      cases reads with
      | readData idle waiting => exact ⟨idle, undisturbed i rfl⟩
    rw [last]
    exact ⟨by simp, fun _ => .of_idle after.1, by simp, fun _ => after.2,
      fun _ => .inr (.inr ⟨turn, rfl, mem_insert_unit _ _⟩)⟩
  | throw reading throws => exact throws.elim
  | skip reading begins ticks nothing =>
    have nothing : sys.table.keyspaceEventBuffer = [] := by
      have empty : sys.table.hasData = false := nothing
      simpa [System.hasData] using (Bool.or_eq_false_iff.mp empty).2
    refine of_nothing_read nothing (by simp) (fun _ => h.constructed (.inl calling)) ?_
    exact h.reported
  | take reading begins ticks something =>
    exact ⟨by simp, fun _ => h.constructed (.inl calling), by simp, h.entries,
      fun _ => .inr (.inl rfl)⟩
  | give given =>
    exact ⟨fun _ => rfl, fun _ => h.constructed (.inl calling), by simp [Select.System.give],
      h.entries,
      fun _ => .inl (by simp)⟩
  | retry reading none | timeout reading final none =>
    exact h.rephase calling (by rw [reading]; rfl) (fun _ _ => none ()) (by simp)

variable {d : System}

theorem construct (h : Calm sys) (step : t.Step hiredis sys.table .constructed d) :
    Calm (sys.setTable d) := by
  obtain ⟨unfinished, same⟩ := unfinished_of_constructed step
  have quiet := mt h.constructed unfinished
  simp only [not_or, not_not] at quiet
  obtain ⟨idle, notDue, nothing⟩ := quiet
  refine of_nothing_read (same.trans nothing) (fun due => absurd due notDue) ?_ h.reported
  rintro (calling | due)
  · exact absurd idle calling
  · exact absurd due notDue

theorem write {command} (h : Calm sys)
    (step : t.Step hiredis sys.table (.wrote command) d) : Calm (sys.setTable d) := by
  cases step with
  | write executed => exact ⟨h.due, h.constructed, h.reported, h.entries, h.pending⟩

theorem pops {l} (h : Calm sys) (due : sys.due) (step : t.Step hiredis sys.table l d)
    (byPops : ByPops l d) : Calm { sys.setTable d with due := !isPopped l } := by
  have idle := h.due due
  have reported : ∀ fds turn, sys.select.phase = .reading fds turn →
      fds.length ≤ 1 := by simp [idle]
  have undisturbed : sys.table.buffer ≠ [] → sys.table.keyspaceEventBuffer = [] := by
    intro filled
    by_contra some
    exact filled (h.entries some)
  cases step with
  | write | psubscribe | getKeys | get | built | readData => exact byPops.elim
  | popsBuffer notPopping filled =>
    exact of_nothing_read (undisturbed filled) (fun _ => idle)
      (fun _ => .of_idle notPopping) reported
  | popBuffer notPopping filled =>
    exact of_nothing_read (undisturbed (by simp [filled])) (fun _ => idle)
      (fun _ => .of_idle notPopping) reported
  | popsStart notPopping empty =>
    exact ⟨fun _ => idle, fun _ => trivial, reported, fun _ => empty, fun _ => .inl rfl⟩
  | popsEvent popping next became =>
    refine ⟨fun _ => idle, fun _ => trivial, reported, fun _ => ?_, fun _ => .inl rfl⟩
    exact h.entries (by simp [next])
  | popsReturn popping done | popReturn popping done =>
    exact of_nothing_read done (fun _ => idle) (fun _ => trivial) reported

theorem step (h : Calm sys) (undisturbed : Undisturbed [l])
    (taken : Step t hiredis pri sys l sys') : Calm sys' := by
  cases taken with
  | construct step => exact h.construct step
  | write step => exact h.write step
  | selectOne built idle popped first =>
    have nothing := h.nothing_read (by rw [idle]; rfl) (by simp [idle]) popped
    exact of_nothing_read nothing (by simp [popped]) (fun _ => .of_idle built) (by simp)
  | select calling works step =>
    refine h.select calling works ?_ step
    rintro i rfl
    exact length_eq_zero_iff.mp (undisturbed i _ (mem_singleton_self _))
  | pops due step byPops => exact h.pops due step byPops

theorem run {database lastUsedTime clock} (undisturbed : Undisturbed ls)
    (taken : Run (Step t hiredis pri) (start database lastUsedTime clock) ls sys) : Calm sys := by
  refine taken.invariant (I := fun ls sys => Undisturbed ls → Calm sys) ?_ ?_ undisturbed
  · intro _
    exact of_nothing_read rfl (by simp [start]) (by simp [start, Select.start])
      (by simp [start, Select.start])
  · intro ls sys l sys' calm taken undisturbed
    refine (calm fun i entries member => ?_).step (fun i entries member => ?_) taken
    · exact undisturbed i entries (mem_append_left _ member)
    · exact undisturbed i entries (mem_append_right _ member)

end Calm

/-- A call that starts with entries in `m_buffer`, or with something to read, reports data and does
    not wait. So does every call that starts with data, in a run in which no event is read while
    there are entries in `m_buffer`. -/
theorem selectOne_reports {database : Keyspace} {lastUsedTime clock : Nat} {ls ks : List Call}
    {sys sys₁ sys₂ : Session}
    (run : Run (Step t hiredis pri) (start database lastUsedTime clock) ls sys)
    (call : Step t hiredis pri sys .selectOne sys₁) (data : sys.table.hasData = true)
    (seen : sys.table.buffer ≠ [] ∨ sys.table.unread ≠ [] ∨ Undisturbed ls)
    (during : Run (Step t hiredis pri) sys₁ ks sys₂) (same : .selectOne ∉ ks) :
    sys₂.select.phase ≠ .waiting .second ∧
    (∀ result entries, .selected (.returned result) entries ∈ ks → result = .object ()) ∧
    (sys₂.select.phase ≠ .idle → Reports t hiredis pri sys₂) := by
  cases call with
  | selectOne built idle popped first =>
    have some : sys.table.buffer ≠ [] ∨ sys.table.unread ≠ [] := by
      rcases seen with entries | unread | undisturbed
      · exact .inl entries
      · exact .inr unread
      · have nothing := (Calm.run undisturbed run).nothing_read (by rw [idle]; rfl) (by simp [idle])
          popped
        left
        simpa [System.hasData, nothing, length_pos_iff] using data
    have serving := during.invariant (I := fun ks sys => .selectOne ∉ ks → Serving sys ∧
      ∀ result entries, .selected (.returned result) entries ∈ ks → result = .object ())
      (fun _ => ⟨.of_selectOne built popped first some, by simp⟩) (by
        intro ks s l s' earlier taken one
        rw [mem_append, not_or] at one
        obtain ⟨serving, returned⟩ := earlier one.1
        obtain ⟨serving', returns⟩ := serving.step taken (fun isCall => one.2 (by simp [isCall]))
        refine ⟨serving', fun result entries member => ?_⟩
        rcases mem_append.mp member with before | now
        · exact returned result entries before
        · exact returns result entries (mem_singleton.mp now).symm) same
    obtain ⟨serving, returned⟩ := serving
    exact ⟨fun waiting => (serving.waiting _ waiting).1 rfl, returned, serving.reports⟩

private def lags : SubscriberStateTable := ⟨⟨ascii "LAG", .vbar⟩, 0, .sorted⟩

private def lagWith (v : Bytes) : Keyspace :=
  (∅ : Keyspace).write (lags.mainName (ascii "p"))
    (Value.ofHash (∅ * Hash.ofFields [(ascii "f", v)]))

private def lagEvent : Reply :=
  .array [ascii "pmessage", lags.keyspace, keyspaceChannel 0 (lags.mainName (ascii "p")),
    ascii "hset"]

private def lagEntry : KeyOpFieldsValuesTuple := ⟨ascii "p", SET_COMMAND, [(ascii "f", ascii "v")]⟩

private def lagTable (v : Bytes) (unread events : List Reply)
    (buffer : List KeyOpFieldsValuesTuple) : System :=
  ⟨lagWith v, [lags.keyspace], unread, events, buffer, .idle⟩

private def lagSession (d : System) : Session :=
  ⟨Select.start (.ordered Unit) (fun _ => 0) 0 fun _ => d, false⟩

private def lagCall (d : System) (ready : List Unit) (phase : Select.Phase Unit) (due : Bool) :
    Session :=
  ⟨⟨{()}, ready, fun _ => 0, 0, fun _ => d, phase⟩, due⟩

private theorem lag_constructed :
    ∃ ls, Undisturbed ls ∧ Run (Step lags .blanks 0) (start (lagWith (ascii "v")) 0 0) ls
      (lagSession (lagTable (ascii "v") [] [] [lagEntry])) := by
  have words : Hiredis.blanks.words lags.psubscribeText = [ascii "PSUBSCRIBE", lags.keyspace] := by
    decide
  have unbuilt : Run (Step lags .blanks 0) (start (lagWith (ascii "v")) 0 0) []
    (start (lagWith (ascii "v")) 0 0) := .refl _
  have listed := (unbuilt.snoc (.construct (.psubscribe rfl words))).snoc
    (.construct (.getKeys rfl (show _ = some [ascii "p"] from rfl)))
  have built := (listed.snoc (.construct (.get rfl rfl))).snoc (.construct (.built rfl))
  exact ⟨_, by simp [Undisturbed], built⟩

/-- A call after the construction, with the entry in `m_buffer`. -/
theorem selectOne_reports_entry :
    ∃ ls sys sys₁, Run (Step lags .blanks 0) (start (lagWith (ascii "v")) 0 0) ls sys ∧
      Step lags .blanks 0 sys .selectOne sys₁ ∧ sys.table.hasData = true ∧
      Reports lags .blanks 0 sys₁ := by
  obtain ⟨ls, undisturbed, run⟩ := lag_constructed
  have call : Step lags .blanks 0 (lagSession (lagTable (ascii "v") [] [] [lagEntry]))
      .selectOne _ :=
    .selectOne rfl rfl rfl (show Select.Turn.only ≠ .second by decide)
  have reports := selectOne_reports run call rfl (.inr (.inr undisturbed)) (.refl _) (by simp)
  exact ⟨ls, _, _, run, call, rfl, reports.2.2 (by simp)⟩

/-- The first call reads the event of a second set but pops the entry. The second call finds nothing
    to read and times out. -/
theorem selectOne_times_out :
    ∃ ls sys sys₁ ks sys₂, Run (Step lags .blanks 0) (start (lagWith (ascii "v")) 0 0) ls sys ∧
      Step lags .blanks 0 sys .selectOne sys₁ ∧ sys.table.hasData = true ∧
      Run (Step lags .blanks 0) sys₁ ks sys₂ ∧
      ks = [.selected (.reported []) 0, .selected (.returned .timeout) 0] := by
  obtain ⟨ls, -, run⟩ := lag_constructed
  have again : Executes (lagWith (ascii "v")) (.hset (lags.mainName (ascii "p"))
      [(ascii "f", ascii "w")]) _ _ :=
    .hset (h := ∅ * Hash.ofFields [(ascii "f", ascii "v")]) rfl (cons_ne_nil _ [])
  have only : Select.Turn.only ≠ .second := by decide
  have called : Run (Step lags .blanks 0) _ _
      (lagCall (lagTable (ascii "w") [lagEvent] [] [lagEntry]) [()] (.waiting .only) false) :=
    (run.snoc (.write (.write again))).snoc (.selectOne rfl rfl rfl only)
  have reported := called.snoc (.select (by simp [lagCall]) (by simp)
    (.report rfl (nodup_singleton ()) (by decide) (by simp)))
  have read := reported.snoc
    (.select (by simp) (by simp) (.read rfl (Step.readData rfl (append_nil _).symm)))
  change Run _ _ _
    (lagCall (lagTable (ascii "w") [] [lagEvent] [lagEntry]) [()] (.reading [] .only) false) at read
  have taken := read.snoc (.select (by simp [lagCall]) (by simp)
    (.take rfl rfl (Nat.le_refl 0) rfl))
  have returned := taken.snoc (.select (by simp) (by simp) (.give rfl))
  have popped := returned.snoc (.pops rfl (.popsBuffer rfl (cons_ne_nil lagEntry [])) rfl)
  change Run _ _ _ (lagCall (lagTable (ascii "w") [] [lagEvent] []) [()] .idle false) at popped
  have quiet : Step lags .blanks 0
      (lagCall (lagTable (ascii "w") [] [lagEvent] []) [] (.waiting .only) false) _ _ :=
    .select (by simp [lagCall]) (by simp) (.report rfl nodup_nil (by simp) (by decide))
  have timedOut := (Run.single quiet).snoc
    (.select (by simp) (by simp) (.timeout rfl (by decide) fun _ => not_mem_nil))
  exact ⟨_, _, _, _, _, popped, .selectOne rfl rfl rfl only, rfl, timedOut, rfl⟩

end FreshSelect

end SwssCommon.SubscriberStateTable
