import SwssCommon.Consumer.Machine

/-! # The set of ready objects

The set tells its members apart by priority and time of the last use. If another member has both in
common with an object, the object is not inserted or the other one is erased in its place. With a
clock that advances at every reading this does not happen.
-/

namespace SwssCommon.Select

open List Event ReadySet RedisSelect

variable {ι δ : Type}

def System.IsReady {R : ReadySet ι} (sys : System ι δ R) (i : ι) : Prop :=
  R.Mem i sys.ready

def Event.subject : Event ι → Option ι
  | .added i | .removed i | .read i | .skipped i | .took i | .returned (.object i) => some i
  | _ => none

variable [DecidableEq ι] {o : Objects ι δ} {Ticks : Nat → Nat → Prop} {Changes : ι → δ → δ → Prop}

def Event.Inserts {R : ReadySet ι} (o : Objects ι δ) (sys : System ι δ R) : Event ι → Prop
  | .added i => i ∉ sys.objects ∧ (o.selectable i).initializedWithData (sys.data i) = true
  | .read _ => True
  | .returned (.object i) => (o.selectable i).hasCachedData (sys.data i) = true
  | _ => False

def Event.Erases (t : ι) : Event ι → Prop
  | .removed i | .skipped i | .took i => i = t
  | _ => False

/-- No other member has the key of `s`. -/
def Apart (o : Objects ι δ) (sys : System ι δ (.ordered ι)) (s : ι) : Prop :=
  ∀ t, t ≠ s → sys.IsReady t → o.getPri t = o.getPri s → sys.lastUsedTime t ≠ sys.lastUsedTime s

def Sorted (o : Objects ι δ) (sys : System ι δ (.ordered ι)) : Prop :=
  List.Pairwise (fun a b => sys.cmp o a b = true) sys.ready

section Operations

variable {sys : System ι δ (.ordered ι)} {s t : ι}

omit [DecidableEq ι] in
theorem Apart.ordered (apart : Apart o sys s) : OrderedSet.Apart (sys.cmp o) sys.ready s := by
  intro t member other
  have differ := apart t other member
  rw [System.cmp, cmp_iff, cmp_iff]
  omega

omit [DecidableEq ι] in
theorem mem_insert (sorted : Sorted o sys) (apart : Apart o sys s) :
    (ordered ι).Mem t (sys.insert o s) ↔ t = s ∨ sys.IsReady t :=
  OrderedSet.mem_insert_of_apart (cmp_strictWeak ..) sorted apart.ordered

omit [DecidableEq ι] in
theorem mem_insertIf (sorted : Sorted o sys) (apart : Apart o sys s) (condition : Bool) :
    (ordered ι).Mem t (sys.insertIf o condition s) ↔
      t = s ∧ condition ∨ sys.IsReady t := by
  cases condition with
  | true =>
    rw [and_iff_left rfl]
    exact mem_insert sorted apart
  | false => simp [System.insertIf, System.IsReady]

omit [DecidableEq ι] in
theorem mem_erase (sorted : Sorted o sys) (apart : Apart o sys s) :
    (ordered ι).Mem t (sys.erase o s) ↔ t ≠ s ∧ sys.IsReady t :=
  OrderedSet.mem_erase_of_apart (cmp_strictWeak ..) sorted apart.ordered

omit [DecidableEq ι] in
theorem insert_sorted (sorted : Sorted o sys) (s : ι) :
    List.Pairwise (fun a b => sys.cmp o a b) (sys.insert o s) :=
  OrderedSet.insert_sorted (cmp_strictWeak ..) sorted s

omit [DecidableEq ι] in
theorem insertIf_sorted (sorted : Sorted o sys) (condition : Bool) (s : ι) :
    List.Pairwise (fun a b => sys.cmp o a b) (sys.insertIf o condition s) := by
  cases condition with
  | true => exact insert_sorted sorted s
  | false => exact sorted

omit [DecidableEq ι] in
theorem erase_sorted (sorted : Sorted o sys) (s : ι) :
    List.Pairwise (fun a b => sys.cmp o a b) (sys.erase o s) :=
  OrderedSet.erase_sorted sorted s

theorem takeOut_sorted (sorted : Sorted o sys) (begins : head? sys.ready = some s) (now : Nat) :
    Sorted o (sys.takeOut o s now) := by
  obtain ⟨rest, front⟩ := head?_eq_some_iff.mp begins
  have erased : sys.erase o s = rest := by
    rw [System.erase, front]
    exact OrderedSet.erase_head (cmp_strictWeak ..) s rest
  have order : List.Pairwise (fun a b => sys.cmp o a b) (s :: rest) := front ▸ sorted
  rw [pairwise_cons] at order
  have absent : s ∉ rest := by
    intro member
    have before := order.1 s member
    rw [System.cmp, (cmp_strictWeak ..).irrefl] at before
    cases before
  change List.Pairwise _ (sys.erase o s)
  rw [erased]
  refine order.2.imp_of_mem fun {a b} inA inB before => ?_
  have sameA : a ≠ s := fun same => absent (same ▸ inA)
  have sameB : b ≠ s := fun same => absent (same ▸ inB)
  rw [System.cmp, cmp_iff] at before ⊢
  simpa [System.takeOut, Function.update_of_ne sameA, Function.update_of_ne sameB] using before

end Operations

variable {sys : System ι δ (.ordered ι)}

theorem Sorted.step {sys' l} (sorted : Sorted o sys)
    (taken : Step o Ticks Changes sys l sys') : Sorted o sys' := by
  cases taken with
  | change | call | report | fail | interrupt | throw | retry | timeout => exact sorted
  | add idle =>
    unfold System.addSelectable
    split
    · exact sorted
    · exact insertIf_sorted sorted _ _
  | remove idle => exact erase_sorted sorted _
  | read reading reads => exact insert_sorted sorted _
  | skip reading begins ticks nothing | take reading begins ticks something =>
    exact takeOut_sorted sorted begins _
  | give given => exact insertIf_sorted sorted _ _

theorem Sorted.run {sys₀ ls} (sorted : Sorted o sys₀)
    (taken : Run (Step o Ticks Changes) sys₀ ls sys) : Sorted o sys :=
  taken.invariant (I := fun _ => Sorted o) sorted fun sorted taken => sorted.step taken

theorem isReady_step {sys' l} (sorted : Sorted o sys)
    (taken : Step o Ticks Changes sys l sys') (apart : ∀ s, l.subject = some s → Apart o sys s)
    (t : ι) :
    sys'.IsReady t ↔ l.subject = some t ∧ l.Inserts o sys ∨ ¬ l.Erases t ∧ sys.IsReady t := by
  cases taken with
  | change | call | report | fail | interrupt | throw | retry | timeout =>
    simp [subject, Erases, System.IsReady]
  | add idle =>
    rename_i i
    simp only [subject, Inserts, Erases, System.addSelectable]
    split
    · next there => simp [there]
    · next new =>
        rw [System.IsReady, mem_insertIf sorted (apart i rfl), eq_comm]
        simp [new]
  | remove idle =>
    rename_i i
    rw [System.IsReady, System.removeSelectable, mem_erase sorted (apart i rfl), ne_comm]
    simp [Inserts, Erases]
  | read reading reads =>
    rename_i i fds turn d
    rw [System.IsReady, System.readData, mem_insert sorted (apart i rfl), eq_comm]
    simp [subject, Inserts, Erases]
  | skip reading begins ticks nothing | take reading begins ticks something =>
    rename_i i turn now
    rw [System.IsReady, System.takeOut, mem_erase sorted (apart i rfl), ne_comm]
    simp [Inserts, Erases]
  | give given =>
    rename_i i used
    rw [System.IsReady, System.give, mem_insertIf sorted (apart i rfl), eq_comm]
    simp [subject, Inserts, Erases]

/-- A step changes whether its own object is a member and no other, and inserts it if it should, as
    long as no other member has the same priority and time. -/
theorem ready_identity {lastUsedTime : ι → Nat} {clock : Nat} {data : ι → δ} {ls : List (Event ι)}
    {l : Event ι} {sys sys' : System ι δ (.ordered ι)}
    (run : Run (Step o (· ≤ ·) Changes) (start (.ordered ι) lastUsedTime clock data) ls sys)
    (taken : Step o (· ≤ ·) Changes sys l sys')
    (apart : ∀ s, l.subject = some s → Apart o sys s) :
    (∀ t, l.subject ≠ some t → (sys'.IsReady t ↔ sys.IsReady t)) ∧
      ∀ s, l.subject = some s → l.Inserts o sys → sys'.IsReady s := by
  have empty : Sorted o (start (.ordered ι) lastUsedTime clock data) := List.Pairwise.nil
  have members := isReady_step (empty.run run) taken apart
  refine ⟨fun t other => ?_, fun s subject inserts => ?_⟩
  · have kept : ¬ l.Erases t := by
      intro erases
      cases l <;> simp_all [Erases, subject]
    rw [members t]
    simp [other, kept]
  · exact (members s).mpr (.inl ⟨subject, inserts⟩)

/-! ## A plain set of objects -/

def System.plain (sys : System ι δ (.ordered ι)) : System ι δ (.plain ι) where
  objects := sys.objects
  ready := toFinset sys.ready
  lastUsedTime := sys.lastUsedTime
  clock := sys.clock
  data := sys.data
  phase := sys.phase

@[simp]
theorem System.isReady_plain {i} : sys.plain.IsReady i ↔ sys.IsReady i := mem_toFinset

theorem mem_insertIf_plain {sys : System ι δ (.plain ι)} {i j condition} :
    (plain ι).Mem j (sys.insertIf o condition i) ↔
      j = i ∧ condition ∨ sys.IsReady j := by
  cases condition with
  | true =>
    rw [and_iff_left rfl]
    exact Finset.mem_insert
  | false => simp [System.insertIf, System.IsReady]

structure Ordered (o : Objects ι δ) (sys : System ι δ (.ordered ι)) : Prop where
  sorted : Sorted o sys
  distinct : Function.Injective sys.lastUsedTime
  past : ∀ i, sys.lastUsedTime i ≤ sys.clock

namespace Ordered

variable {sys sys' : System ι δ (.ordered ι)} {l : Event ι}

omit [DecidableEq ι] in
theorem apart (h : Ordered o sys) (s : ι) : Apart o sys s :=
  fun _ other _ _ same => other (h.distinct same)

theorem plain_insertIf (h : Ordered o sys) (condition : Bool) (i : ι) :
    toFinset (sys.insertIf o condition i) = sys.plain.insertIf o condition i := by
  cases condition with
  | true =>
    ext t
    rw [mem_toFinset]
    exact (mem_insert h.sorted (h.apart i)).trans
      ((or_congr_right System.isReady_plain.symm).trans Finset.mem_insert.symm)
  | false => rfl

theorem plain_erase (h : Ordered o sys) (i : ι) :
    toFinset (sys.erase o i) = sys.plain.erase o i := by
  ext t
  rw [mem_toFinset]
  exact (mem_erase h.sorted (h.apart i)).trans
    ((and_congr_right fun _ => System.isReady_plain.symm).trans Finset.mem_erase.symm)

theorem plain_addSelectable (h : Ordered o sys) (i : ι) :
    (sys.addSelectable o i).plain = sys.plain.addSelectable o i := by
  unfold System.addSelectable
  by_cases there : i ∈ sys.objects
  · rw [if_pos there, if_pos (show i ∈ sys.plain.objects from there)]
  · rw [if_neg there, if_neg (show i ∉ sys.plain.objects from there)]
    simp only [System.plain, h.plain_insertIf]

theorem plain_removeSelectable (h : Ordered o sys) (i : ι) :
    (sys.removeSelectable o i).plain = sys.plain.removeSelectable o i := by
  simp only [System.plain, System.removeSelectable, h.plain_erase]

theorem plain_readData (h : Ordered o sys) (i : ι) (d : δ) :
    (sys.readData o i d).plain = sys.plain.readData o i d := by
  have insert := h.plain_insertIf true i
  simp only [System.insertIf, if_true] at insert
  simp only [System.plain, System.readData, insert]

theorem plain_takeOut (h : Ordered o sys) (i : ι) (now : Nat) :
    (sys.takeOut o i now).plain = sys.plain.takeOut o i now := by
  simp only [System.plain, System.takeOut, h.plain_erase]

theorem plain_give (h : Ordered o sys) (i : ι) : (sys.give o i).plain = sys.plain.give o i := by
  simp only [System.plain, System.give, h.plain_insertIf]

theorem begins_plain (h : Ordered o sys) {i}
    (begins : (ordered ι).Begins (sys.cmp o) sys.ready i) :
    (plain ι).Begins (sys.plain.cmp o) sys.plain.ready i := by
  obtain ⟨rest, front⟩ := head?_eq_some_iff.mp begins
  have order : List.Pairwise (fun a b => sys.cmp o a b) (i :: rest) := front ▸ h.sorted
  have members : ∀ {j}, j ∈ sys.plain.ready ↔ j ∈ i :: rest := by
    rw [← front]
    exact mem_toFinset
  refine ⟨members.mpr mem_cons_self, fun j member => ?_⟩
  rcases mem_cons.mp (members.mp member) with rfl | later
  · exact (cmp_strictWeak ..).irrefl j
  · exact (cmp_strictWeak ..).asymm ((pairwise_cons.mp order).1 j later)

theorem step (h : Ordered o sys) (taken : Step o (· < ·) Changes sys l sys') : Ordered o sys' := by
  have sorted := h.sorted.step taken
  rcases taken.times with ⟨same, clock⟩ | ⟨i, now, -, ticks, updated, clock⟩
  · refine ⟨sorted, ?_, ?_⟩
    · rw [same]
      exact h.distinct
    · rw [same, clock]
      exact h.past
  · have older : ∀ j, sys.lastUsedTime j < now := fun j => (h.past j).trans_lt ticks
    refine ⟨sorted, ?_, ?_⟩
    · rw [updated]
      intro j k same
      by_cases isJ : j = i <;> by_cases isK : k = i
      · rw [isJ, isK]
      · simp [isJ, isK, (older k).ne'] at same
      · simp [isJ, isK, (older j).ne] at same
      · exact h.distinct (by simpa [isJ, isK] using same)
    · rw [updated, clock]
      intro j
      by_cases isJ : j = i
      · simp [isJ]
      · simpa [isJ] using (older j).le

theorem step_plain (h : Ordered o sys) (taken : Step o (· < ·) Changes sys l sys') :
    Step o (· < ·) Changes sys.plain l sys'.plain := by
  have empty : (∀ i, ¬ (ordered ι).Mem i sys.ready) →
      ∀ i, ¬ (plain ι).Mem i sys.plain.ready :=
    fun none i member => none i (mem_toFinset.mp member)
  cases taken with
  | change changes => exact .change changes
  | add idle =>
    rw [h.plain_addSelectable]
    exact .add idle
  | remove idle =>
    rw [h.plain_removeSelectable]
    exact .remove idle
  | call idle start => exact .call idle start
  | report waiting nodup registered quiet => exact .report waiting nodup registered quiet
  | fail waiting => exact .fail waiting
  | interrupt waiting => exact .interrupt waiting
  | read reading reads =>
    rename_i i fds turn d
    change Step o _ _ _ _ { (sys.readData o i d).plain with phase := .reading fds turn }
    rw [h.plain_readData]
    exact .read reading reads
  | throw reading throws => exact .throw reading throws
  | skip reading begins ticks nothing =>
    rw [h.plain_takeOut]
    exact .skip reading (h.begins_plain begins) ticks nothing
  | take reading begins ticks something =>
    rename_i i turn now
    change Step o _ _ _ _ { (sys.takeOut o i now).plain with phase := .given i _ }
    rw [h.plain_takeOut]
    exact .take reading (h.begins_plain begins) ticks something
  | give given =>
    rw [h.plain_give]
    exact .give given
  | retry reading none => exact .retry reading (empty none)
  | timeout reading final none => exact .timeout reading final (empty none)

theorem run {ls sys₀} (h : Ordered o sys₀)
    (taken : Run (Step o (· < ·) Changes) sys₀ ls sys) :
    Ordered o sys ∧ Run (Step o (· < ·) Changes) sys₀.plain ls sys.plain := by
  refine taken.invariant (I := fun ls sys => Ordered o sys ∧
    Run (Step o (· < ·) Changes) sys₀.plain ls sys.plain) ⟨h, .refl _⟩ ?_
  rintro ls sys l sys' ⟨ordered, run⟩ taken
  exact ⟨ordered.step taken, run.snoc (ordered.step_plain taken)⟩

end Ordered

/-- Two objects of the same priority, each with a message to be read. -/
private def twins : Objects Bool Connected :=
  ⟨fun _ => 0, fun _ => selectable⟩

private def reading (lastUsedTime : Bool → Nat) (ready : List Bool)
    (data : Bool → Connected) (fds : List Bool) :
    System Bool Connected (.ordered Bool) where
  objects := {false, true}
  ready := ready
  lastUsedTime := lastUsedTime
  clock := 1
  data := data
  phase := .reading fds .only

private theorem one_read (lastUsedTime : Bool → Nat) :
    ∃ ls, Run (Step twins (· ≤ ·) fun _ _ _ => False)
      (start (.ordered Bool) lastUsedTime 1 fun _ => ⟨1, ⟨0⟩⟩) ls
      (reading lastUsedTime [true]
        (Function.update (fun _ => ⟨1, ⟨0⟩⟩) true ⟨0, ⟨1⟩⟩) [false]) := by
  have added : Run (Step twins (· ≤ ·) fun _ _ _ => False)
      (start (.ordered Bool) lastUsedTime 1 fun _ => ⟨1, ⟨0⟩⟩) [.added true, .added false]
      { reading lastUsedTime [] (fun _ => ⟨1, ⟨0⟩⟩) [] with phase := .idle } :=
    ((Run.refl _).snoc (.add (i := true) rfl)).snoc (.add (i := false) rfl)
  have known : ∀ i ∈ [true, false], i ∈ ({false, true} : Finset Bool) ∧
      selectable.readable ⟨1, ⟨0⟩⟩ := by decide
  have reported : Run _ _ _ (reading lastUsedTime [] (fun _ => ⟨1, ⟨0⟩⟩) [true, false]) :=
    (added.snoc (.call rfl (by decide))).snoc (.report rfl (by decide) known (by simp))
  exact ⟨_, reported.snoc (.read rfl ⟨0, 0, rfl, rfl⟩)⟩

/-- Used at different times, both become members. -/
theorem ready_identity_twins :
    ∃ ls sys sys', Run (Step twins (· ≤ ·) fun _ _ _ => False)
        (start (.ordered Bool) (fun i => if i then 0 else 1) 1 fun _ => ⟨1, ⟨0⟩⟩) ls sys ∧
      Step twins (· ≤ ·) (fun _ _ _ => False) sys (.read false) sys' ∧
      sys'.IsReady true ∧ sys'.IsReady false := by
  obtain ⟨ls, run⟩ := one_read fun i => if i then 0 else 1
  have step : Step twins (· ≤ ·) (fun _ _ _ => False) (reading (fun i => if i then 0 else 1) [true]
      (Function.update (fun _ => ⟨1, ⟨0⟩⟩) true ⟨0, ⟨1⟩⟩) [false]) (.read false) _ :=
    .read rfl ⟨0, 0, rfl, rfl⟩
  have identity := ready_identity run step (by
    rintro s ⟨⟩ t other - -
    cases t with
    | true => simp [reading]
    | false => exact absurd rfl other)
  refine ⟨ls, _, _, run, step, ?_, identity.2 false rfl trivial⟩
  exact (identity.1 true (by simp [subject])).mpr mem_cons_self

/-- Constructed within one tick of the clock, the second one that is read has data and
    does not become a member. -/
theorem ready_identity_lost :
    ∃ ls sys sys', Run (Step twins (· ≤ ·) fun _ _ _ => False)
        (start (.ordered Bool) (fun _ => 1) 1 fun _ => ⟨1, ⟨0⟩⟩) ls sys ∧
      Step twins (· ≤ ·) (fun _ _ _ => False) sys (.read false) sys' ∧
      (twins.selectable false).hasData (sys'.data false) = true ∧ ¬ sys'.IsReady false := by
  obtain ⟨ls, run⟩ := one_read fun _ => 1
  refine ⟨ls, _, _, run, .read rfl ⟨0, 0, rfl, rfl⟩, rfl, ?_⟩
  change false ∉ OrderedSet.insert (cmp (fun _ : Bool => 0) fun _ => 1) false [true]
  decide

end SwssCommon.Select
