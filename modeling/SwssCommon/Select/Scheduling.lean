import SwssCommon.Select.ReadySet

/-! # What is scheduled next

With a clock that advances at every reading no consumer with data is forgotten, and the one returned
has the highest priority and has waited longest, so none is returned twice while another of its
priority waits.
-/

namespace SwssCommon.Select

open RedisSelect Function Finset

variable {ι : Type} [DecidableEq ι]

def consumers (getPri : ι → Int) : Objects ι Connected :=
  ⟨getPri, fun _ => RedisSelect.selectable⟩

def Arrives (_ : ι) (d d' : Connected) : Prop :=
  d' = { d with unread := d.unread + 1 }

def Waits {R : ReadySet ι} (j : ι) (sys : System ι Connected R) : Prop :=
  j ∈ sys.objects ∧ (sys.data j).select.hasData = true

/-- No object with data comes before `i`, last used at `used`. -/
def Foremost {R : ReadySet ι} (getPri : ι → Int) (sys : System ι Connected R) (i : ι)
    (used : Nat) : Prop :=
  ∀ j, j ≠ i → Waits j sys → getPri j ≤ getPri i ∧ (getPri j = getPri i → used ≤ sys.lastUsedTime j)

variable {getPri : ι → Int}

/-- Objects with data are ready, except the one that is about to be returned. -/
structure Scheduled (getPri : ι → Int) (sys : System ι Connected (.plain ι)) : Prop where
  past : ∀ i, sys.lastUsedTime i ≤ sys.clock
  registered : ∀ i, sys.IsReady i → i ∈ sys.objects
  waiting : ∀ i, Waits i sys → sys.IsReady i ∨ sys.phase.holding = some i
  reported : ∀ fds turn, sys.phase = .reading fds turn → ∀ i ∈ fds, i ∈ sys.objects
  given : ∀ i used, sys.phase = .given i used → Waits i sys ∧ Foremost getPri sys i used ∧
    ∀ j, j ≠ i → sys.lastUsedTime j < sys.lastUsedTime i

omit [DecidableEq ι] in
theorem past_update [DecidableEq ι] {times} {clock now : Nat} (past : ∀ j, times j ≤ clock)
    (ticks : clock < now) (i j : ι) : update times i now j ≤ now := by
  by_cases same : j = i
  · simp [same]
  · rw [update_of_ne same]
    exact (past j).trans ticks.le

namespace Scheduled

variable {sys sys' : System ι Connected (.plain ι)} {l : Event ι} {i : ι}

theorem rephase (h : Scheduled getPri sys) (free : sys.phase.holding = none) {phase : Phase ι}
    (free' : phase.holding = none)
    (reported : ∀ fds turn, phase = .reading fds turn → ∀ i ∈ fds, i ∈ sys.objects) :
    Scheduled getPri { sys with phase := phase } where
  past := h.past
  registered := h.registered
  waiting i waits := .inl ((h.waiting i waits).resolve_right (by simp [free]))
  reported := reported
  given i used given := by
    change phase = _ at given
    simp [given, Phase.holding] at free'

theorem change {d} (h : Scheduled getPri sys) (arrives : Arrives i (sys.data i) d) :
    Scheduled getPri { sys with data := update sys.data i d } := by
  have waits : ∀ j, Waits j { sys with data := update sys.data i d } ↔ Waits j sys := by
    intro j
    refine and_congr_right fun _ => ?_
    by_cases same : j = i
    · subst same
      simp only [update_self]
      rw [arrives]
    · simp [update_of_ne same]
  refine ⟨h.past, h.registered, fun j there => h.waiting j ((waits j).mp there), h.reported, ?_⟩
  intro j used given
  obtain ⟨there, first, latest⟩ := h.given j used given
  exact ⟨(waits j).mpr there, fun k other waiting => first k other ((waits k).mp waiting), latest⟩

omit [DecidableEq ι] in
theorem waits_of_update {objects : Finset ι} {data : ι → Connected} {d j}
    [DecidableEq ι] (other : j ≠ i)
    (waits : j ∈ objects ∧ (update data i d j).select.hasData) :
    j ∈ objects ∧ (data j).select.hasData := by
  rwa [update_of_ne other] at waits

theorem addSelectable (h : Scheduled getPri sys) (idle : sys.phase = .idle) (i : ι) :
    Scheduled getPri (sys.addSelectable (consumers getPri) i) := by
  unfold System.addSelectable
  split
  · exact h
  · refine ⟨h.past, fun j ready => ?_, fun j waits => .inl ?_, by simp [idle], by simp [idle]⟩
    · rcases mem_insertIf_plain.mp ready with ⟨rfl, -⟩ | there
      · exact mem_insert_self ..
      · exact mem_insert_of_mem (h.registered j there)
    · apply mem_insertIf_plain.mpr
      by_cases same : j = i
      · subst same
        exact .inl ⟨rfl, waits.2⟩
      · have old := (h.waiting j ⟨mem_of_mem_insert_of_ne waits.1 same, waits.2⟩)
        exact .inr (old.resolve_right (by simp [idle, Phase.holding]))

theorem removeSelectable (h : Scheduled getPri sys) (idle : sys.phase = .idle) (i : ι) :
    Scheduled getPri (sys.removeSelectable (consumers getPri) i) := by
  refine ⟨h.past, fun j ready => ?_, fun j waits => .inl ?_,
    by simp [System.removeSelectable, idle],
    by simp [System.removeSelectable, idle]⟩
  · obtain ⟨other, there⟩ := Finset.mem_erase.mp ready
    exact Finset.mem_erase.mpr ⟨other, h.registered j there⟩
  · obtain ⟨other, there⟩ := Finset.mem_erase.mp waits.1
    have old := h.waiting j ⟨there, waits.2⟩
    exact Finset.mem_erase.mpr ⟨other, old.resolve_right (by simp [idle, Phase.holding])⟩

variable {turn : Turn}

theorem read {fds} (h : Scheduled getPri sys)
    (reading : sys.phase = .reading (i :: fds) turn) (d : Connected) :
    Scheduled getPri
      { sys.readData (consumers getPri) i d with phase := .reading fds turn } := by
  have reported := h.reported _ _ reading
  refine ⟨h.past, fun j ready => ?_, fun j waits => .inl ?_, ?_, by simp⟩
  · rcases Finset.mem_insert.mp ready with rfl | there
    · exact reported j List.mem_cons_self
    · exact h.registered j there
  · by_cases same : j = i
    · subst same
      exact mem_insert_self ..
    · have old := h.waiting j (waits_of_update same waits)
      exact mem_insert_of_mem (old.resolve_right (by simp [reading, Phase.holding]))
  · rintro _ _ ⟨⟩ j member
    exact reported j (List.mem_cons_of_mem _ member)

theorem foremost (h : Scheduled getPri sys) (reading : sys.phase = .reading [] turn)
    (begins : (ReadySet.plain ι).Begins (sys.cmp (consumers getPri)) sys.ready i) :
    Foremost getPri sys i (sys.lastUsedTime i) := by
  intro j other waits
  have ready := (h.waiting j waits).resolve_right (by simp [reading, Phase.holding])
  have notBefore := begins.2 j ready
  have compared := cmp_iff getPri sys.lastUsedTime j i
  change cmp getPri sys.lastUsedTime j i = false at notBefore
  rw [notBefore] at compared
  simp only [Bool.false_eq_true, false_iff] at compared
  omega

theorem skip {now} (h : Scheduled getPri sys) (reading : sys.phase = .reading [] turn)
    (ticks : sys.clock < now) (nothing : (sys.data i).select.hasData = false) :
    Scheduled getPri (sys.takeOut (consumers getPri) i now) := by
  refine ⟨?_, fun j ready => ?_, fun j waits => .inl ?_, ?_, by simp [System.takeOut, reading]⟩
  · exact past_update h.past ticks i
  · exact h.registered j (Finset.mem_erase.mp ready).2
  · have other : j ≠ i := by
      rintro rfl
      exact absurd waits.2 (by simpa [System.takeOut] using nothing)
    have old := h.waiting j waits
    exact Finset.mem_erase.mpr ⟨other, old.resolve_right (by simp [reading, Phase.holding])⟩
  · simp [System.takeOut, reading]

theorem take {now} (h : Scheduled getPri sys) (reading : sys.phase = .reading [] turn)
    (begins : (ReadySet.plain ι).Begins (sys.cmp (consumers getPri)) sys.ready i)
    (ticks : sys.clock < now) (something : (sys.data i).select.hasData) :
    Scheduled getPri
      { sys.takeOut (consumers getPri) i now with phase := .given i (sys.lastUsedTime i) } := by
  refine ⟨past_update h.past ticks i, fun j ready => ?_, fun j waits => ?_, by simp, ?_⟩
  · exact h.registered j (Finset.mem_erase.mp ready).2
  · by_cases same : j = i
    · exact .inr (by rw [same]; rfl)
    · have old := h.waiting j waits
      exact .inl (Finset.mem_erase.mpr ⟨same, old.resolve_right (by simp [reading, Phase.holding])⟩)
  · rintro _ _ ⟨⟩
    refine ⟨⟨h.registered i begins.1, something⟩, fun j other waits => ?_, fun j other => ?_⟩
    · obtain ⟨lower, later⟩ := h.foremost reading begins j other waits
      refine ⟨lower, fun same => ?_⟩
      change _ ≤ update sys.lastUsedTime i now j
      rw [update_of_ne other]
      exact later same
    · change update sys.lastUsedTime i now j < update sys.lastUsedTime i now i
      rw [update_of_ne other, update_self]
      exact (h.past j).trans_lt ticks

theorem give {used} (h : Scheduled getPri sys) (given : sys.phase = .given i used) :
    Scheduled getPri (sys.give (consumers getPri) i) := by
  obtain ⟨there, -⟩ := h.given i used given
  refine ⟨h.past, fun j ready => ?_, fun j waits => .inl ?_, by simp [System.give],
    by simp [System.give]⟩
  · rcases mem_insertIf_plain.mp ready with ⟨rfl, -⟩ | old
    · exact there.1
    · exact h.registered j old
  · apply mem_insertIf_plain.mpr
    by_cases same : j = i
    · subst same
      have left := waits.2
      simp only [System.give, update_self] at left
      exact .inl ⟨rfl, hasCachedData_of_left left⟩
    · have old := h.waiting j (waits_of_update same waits)
      refine .inr (old.resolve_right ?_)
      rw [given]
      simpa [Phase.holding] using Ne.symm same

theorem step (h : Scheduled getPri sys)
    (taken : Step (consumers getPri) (· < ·) Arrives sys l sys') : Scheduled getPri sys' := by
  cases taken with
  | change changes => exact h.change changes
  | add idle => exact h.addSelectable idle _
  | remove idle => exact h.removeSelectable idle _
  | call idle start => exact h.rephase (by simp [idle, Phase.holding]) rfl (by simp)
  | report waiting nodup registered quiet =>
    refine h.rephase (by simp [waiting, Phase.holding]) rfl ?_
    rintro _ _ ⟨⟩ i member
    exact (registered i member).1
  | fail waiting | interrupt waiting =>
    exact h.rephase (by simp [waiting, Phase.holding]) rfl (by simp)
  | read reading reads => exact h.read reading _
  | throw reading throws => exact throws.elim
  | skip reading begins ticks nothing => exact h.skip reading ticks nothing
  | take reading begins ticks something => exact h.take reading begins ticks something
  | give given => exact h.give given
  | retry reading none | timeout reading final none =>
    exact h.rephase (by simp [reading, Phase.holding]) rfl (by simp)

end Scheduled

/-- Between two returns of `i`, while `j` waits: `j` has waited longer, or it is about to
    be returned. -/
def Overtaken {R : ReadySet ι} (i j : ι) (sys : System ι Connected R) : Prop :=
  sys.phase.holding = some j ∨ sys.lastUsedTime j < sys.lastUsedTime i ∧ sys.phase.holding ≠ some i

theorem Overtaken.step {i j sys sys' l}
    (other : i ≠ j) (noLower : getPri i ≤ getPri j) (h : Scheduled getPri sys)
    (overtaken : Overtaken i j sys) (waits : Waits j sys)
    (taken : Step (consumers getPri) (· < ·) Arrives sys l sys')
    (notReturned : l ≠ .returned (.object j)) : Overtaken i j sys' := by
  cases taken with
  | change changes => exact overtaken
  | add idle =>
    unfold System.addSelectable
    split <;> exact overtaken
  | remove idle => exact overtaken
  | skip reading begins ticks nothing =>
    rename_i k turn now
    have older := (overtaken.resolve_left (by simp [reading, Phase.holding])).1
    refine .inr ⟨?_, by simp [System.takeOut, reading, Phase.holding]⟩
    have notJ : j ≠ k := by
      rintro rfl
      exact absurd (waits.2.symm.trans nothing) (by simp)
    change update sys.lastUsedTime k now j < update sys.lastUsedTime k now i
    rw [update_of_ne notJ]
    by_cases isI : i = k
    · subst isI
      rw [update_self]
      exact (h.past j).trans_lt ticks
    · rwa [update_of_ne isI]
  | take reading begins ticks something =>
    rename_i k turn now
    have older := (overtaken.resolve_left (by simp [reading, Phase.holding])).1
    by_cases isJ : k = j
    · exact .inl (by rw [isJ]; rfl)
    · have notI : k ≠ i := by
        rintro rfl
        obtain ⟨lower, later⟩ := h.foremost reading begins j other.symm waits
        omega
      refine .inr ⟨?_, by simpa [Phase.holding] using notI⟩
      change update sys.lastUsedTime k now j < update sys.lastUsedTime k now i
      rwa [update_of_ne (Ne.symm isJ), update_of_ne notI.symm]
  | give given =>
    rename_i k used
    have notJ : k ≠ j := by
      rintro rfl
      exact notReturned rfl
    have older := overtaken.resolve_left (by simpa [given, Phase.holding] using notJ)
    exact .inr ⟨older.1, by simp [System.give, Phase.holding]⟩
  | call idle _ | report idle _ _ _ | fail idle | interrupt idle | read idle _ | throw idle _
  | retry idle _ | timeout idle _ _ =>
    have older := overtaken.resolve_left (by simp [idle, Phase.holding])
    exact .inr ⟨older.1, by simp [Phase.holding]⟩

theorem Scheduled.initially {lastUsedTime : ι → Nat} {clock : Nat} {data : ι → Connected}
    (past : ∀ i, lastUsedTime i ≤ clock) :
    Scheduled getPri (start (.plain ι) lastUsedTime clock data) where
  past := past
  registered _ ready := absurd ready (notMem_empty _)
  waiting _ waits := absurd waits.1 (notMem_empty _)
  reported _ _ reading := nomatch reading
  given _ _ given := nomatch given

theorem scheduled_run {lastUsedTime clock data}
    {ls sys}
    (distinct : Function.Injective lastUsedTime) (past : ∀ i, lastUsedTime i ≤ clock)
    (run : Run (Step (consumers getPri) (· < ·) Arrives)
      (start (.ordered ι) lastUsedTime clock data) ls sys) :
    Ordered (consumers getPri) sys ∧ Scheduled getPri sys.plain := by
  have fresh : Ordered (consumers getPri) (start (.ordered ι) lastUsedTime clock data) :=
    ⟨List.Pairwise.nil, distinct, past⟩
  obtain ⟨ordered, plain⟩ := fresh.run run
  refine ⟨ordered, ?_⟩
  exact plain.invariant (I := fun _ => Scheduled getPri)
    (.initially past) fun h taken => h.step taken

/-- With a clock that advances at every reading: after every call each registered object with data
    is ready; the one returned has data, and none has a higher priority, or the same and an earlier
    last use; and none is returned twice while another one of no lower priority waits. -/
theorem scheduling {lastUsedTime : ι → Nat} {clock : Nat} {data : ι → Connected}
    {ls : List (Event ι)} {sys : System ι Connected (.ordered ι)}
    (distinct : Function.Injective lastUsedTime) (past : ∀ i, lastUsedTime i ≤ clock)
    (run : Run (Step (consumers getPri) (· < ·) Arrives)
      (start (.ordered ι) lastUsedTime clock data) ls sys) :
    (sys.phase = .idle → ∀ i, Waits i sys → sys.IsReady i) ∧
    (∀ i sys₁, Step (consumers getPri) (· < ·) Arrives sys (.returned (.object i)) sys₁ →
      ∃ used, sys.phase = .given i used ∧ Waits i sys ∧ Foremost getPri sys i used) ∧
    ∀ i j sys₁ ks sys₂ sys₃, i ≠ j → getPri i ≤ getPri j →
      Step (consumers getPri) (· < ·) Arrives sys (.returned (.object i)) sys₁ → Waits j sys₁ →
      Run (fun s l t => Step (consumers getPri) (· < ·) Arrives s l t ∧ Waits j t ∧
        l ≠ .returned (.object j)) sys₁ ks sys₂ →
      ¬ Step (consumers getPri) (· < ·) Arrives sys₂ (.returned (.object i)) sys₃ := by
  obtain ⟨ordered, h⟩ := scheduled_run distinct past run
  refine ⟨fun idle i waits => ?_, fun i sys₁ returned => ?_, ?_⟩
  · have ready := (h.waiting i waits).resolve_right (by simp [System.plain, idle, Phase.holding])
    exact System.isReady_plain.mp ready
  · cases returned with
    | give given =>
      obtain ⟨waits, foremost, -⟩ := h.given i _ given
      exact ⟨_, given, waits, foremost⟩
  · intro i j sys₁ ks sys₂ sys₃ other noLower returned waits between again
    have ordered₁ := ordered.step returned
    have h₁ := h.step (ordered.step_plain returned)
    have overtaken₁ : Overtaken i j sys₁.plain := by
      cases returned with
      | give given =>
        obtain ⟨-, -, latest⟩ := h.given i _ given
        exact .inr ⟨latest j other.symm, by simp [System.plain, System.give, Phase.holding]⟩
    have segment := between.invariant (I := fun _ sys => Ordered (consumers getPri) sys ∧
      Scheduled getPri sys.plain ∧ Waits j sys ∧ Overtaken i j sys.plain)
      ⟨ordered₁, h₁, waits, overtaken₁⟩ (by
        rintro _ s l t ⟨ordered, h, waits, overtaken⟩ ⟨taken, waits', notReturned⟩
        have plain := ordered.step_plain taken
        exact ⟨ordered.step taken, h.step plain, waits',
          overtaken.step other noLower h waits plain notReturned⟩)
    cases again with
    | give given =>
      have held : sys₂.plain.phase.holding = some i := by simp [System.plain, given, Phase.holding]
      rcases segment.2.2.2 with heldJ | ⟨-, free⟩
      · exact other (Option.some.inj (held.symm.trans heldJ))
      · exact free held

/-- Two consumers with a message each: the one that was used earlier is returned. -/
theorem scheduling_earlier :
    ∃ ls sys sys₁, Run (Step (consumers fun _ : Bool => 0) (· < ·) Arrives)
        (start (.ordered Bool) (fun i => if i then 0 else 1) 1 fun _ => ⟨1, ⟨0⟩⟩) ls sys ∧
      Step (consumers fun _ : Bool => 0) (· < ·) Arrives sys (.returned (.object true)) sys₁ ∧
      Waits false sys ∧ ∃ used, sys.phase = .given true used ∧ Waits true sys ∧
        Foremost (fun _ => 0) sys true used := by
  let o := consumers fun _ : Bool => 0
  have fresh : Run (Step o (· < ·) Arrives)
    (start (.ordered Bool) (fun i => if i then 0 else 1) 1 fun _ => ⟨1, ⟨0⟩⟩) [] _ := .refl _
  have called := ((fresh.snoc (.add (i := true) rfl)).snoc (.add (i := false) rfl)).snoc
    (.call rfl (show Turn.only ≠ .second by decide))
  have reported := called.snoc (.report rfl (show [false, true].Nodup by decide)
    (show ∀ i ∈ [false, true], i ∈ ({false, true} : Finset Bool) ∧ _ by decide) (by simp))
  have read := (reported.snoc (.read rfl ⟨0, 0, rfl, rfl⟩)).snoc (.read rfl ⟨0, 0, rfl, rfl⟩)
  have taken := read.snoc (.take (i := true) rfl rfl (show 1 < 2 by decide) rfl)
  have returned := (scheduling (by decide) (by decide) taken).2.1 true _ (.give rfl)
  have other : false ∈ ({false, true} : Finset Bool) := by decide
  exact ⟨_, _, _, taken, .give rfl, ⟨other, rfl⟩, returned⟩

end SwssCommon.Select
