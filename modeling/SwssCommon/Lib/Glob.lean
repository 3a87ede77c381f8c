import SwssCommon.Lib.Bytes

/-! # Glob patterns

Key listings have patterns with `*`, `?`, `[...]` with ranges and a leading `^`, and `\` to quote
one byte. A pattern is first read into tokens, whose meaning is a plain recursion.
-/

namespace SwssCommon.Glob

open List Nat

def star : UInt8 := 42
def question : UInt8 := 63
def openBracket : UInt8 := 91
def backslash : UInt8 := 92
def closeBracket : UInt8 := 93
def caret : UInt8 := 94
def dash : UInt8 := 45

inductive Token where
  | anySequence
  | anyByte
  | byte (c : UInt8)
  /-- A bracket: bytes inside one of the inclusive ranges, or outside all of them. -/
  | bracket (negated : Bool) (ranges : List (UInt8 × UInt8))
  deriving DecidableEq

/-- The ranges of a bracket body and the pattern after it. The end of the
    pattern closes an unterminated bracket; `fuel` bounds the bytes read. -/
def readRanges : Nat → Bytes → List (UInt8 × UInt8) × Bytes
  | 0, ps => ([], ps)
  | _ + 1, [] => ([], [])
  | fuel + 1, p :: ps =>
    if p = backslash ∧ ps ≠ [] then
      let c := ps.headD 0
      let (ranges, rest) := readRanges fuel ps.tail
      ((c, c) :: ranges, rest)
    else if p = closeBracket then ([], ps)
    else if ps.head? = some dash ∧ ps.tail ≠ [] then
      let c := ps.tail.headD 0
      let (ranges, rest) := readRanges fuel ps.tail.tail
      ((min p c, max p c) :: ranges, rest)
    else
      let (ranges, rest) := readRanges fuel ps
      ((p, p) :: ranges, rest)

def readTokens : Nat → Bytes → List Token
  | 0, _ => []
  | _ + 1, [] => []
  | fuel + 1, p :: ps =>
    if p = star then .anySequence :: readTokens fuel ps
    else if p = question then .anyByte :: readTokens fuel ps
    else if p = openBracket then
      let negated := ps.head? = some caret
      let (ranges, rest) := readRanges fuel (if negated then ps.tail else ps)
      .bracket negated ranges :: readTokens fuel rest
    else if p = backslash ∧ ps ≠ [] then .byte (ps.headD 0) :: readTokens fuel ps.tail
    else .byte p :: readTokens fuel ps

/-- Some suffix of the string, the empty one included, passes the test. -/
def anySuffix (test : Bytes → Bool) : Bytes → Bool
  | [] => test []
  | c :: s => test (c :: s) || anySuffix test s

def Token.accepts (c : UInt8) : Token → Bool
  | .anySequence | .anyByte => true
  | .byte d => d == c
  | .bracket negated ranges => (ranges.any fun (lo, hi) => lo ≤ c && c ≤ hi) != negated

def matchTokens : List Token → Bytes → Bool
  | [], s => s.isEmpty
  | .anySequence :: ts, s => anySuffix (matchTokens ts) s
  | _ :: _, [] => false
  | t :: ts, c :: s => t.accepts c && matchTokens ts s

def globMatch (pattern s : Bytes) : Bool :=
  matchTokens (readTokens pattern.length pattern) s

example : globMatch (Bytes.ascii "A?:*") (Bytes.ascii "AB:k") = true := by decide

example : globMatch (Bytes.ascii "[^a-c]\\*") (Bytes.ascii "d*") = true := by decide

def Literal (p : UInt8) : Prop :=
  p ≠ star ∧ p ≠ question ∧ p ≠ openBracket ∧ p ≠ backslash

instance (p : UInt8) : Decidable (Literal p) :=
  inferInstanceAs (Decidable (_ ∧ _))

def Plain (name : Bytes) : Prop :=
  ∀ p ∈ name, Literal p

instance (name : Bytes) : Decidable (Plain name) :=
  decidableBAll Literal name

theorem anySuffix_of_nil {test} (atEnd : test []) (s : Bytes) :
    anySuffix test s := by
  induction s with
  | nil => exact atEnd
  | cons c s ih => simp only [anySuffix, ih, Bool.or_true]

theorem globMatch_star (s : Bytes) : globMatch [star] s := anySuffix_of_nil rfl s

variable {p : UInt8}

theorem readTokens_literal (literal : Literal p) (fuel : Nat) (ps : Bytes) :
    readTokens (fuel + 1) (p :: ps) = .byte p :: readTokens fuel ps := by
  obtain ⟨notStar, notQuestion, notBracket, notBackslash⟩ := literal
  simp only [readTokens, notStar, notQuestion, notBracket, notBackslash, false_and, if_false]

theorem globMatch_literal (literal : Literal p) (ps : Bytes) (c : UInt8) (s : Bytes) :
    globMatch (p :: ps) (c :: s) = (p == c && globMatch ps s) := by
  simp only [globMatch, length_cons, readTokens_literal literal, matchTokens, Token.accepts]

variable {name : Bytes}

theorem globMatch_plain_star (plain : Plain name) (s : Bytes) :
    globMatch (name ++ [star]) s ↔ name <+: s := by
  induction name generalizing s with
  | nil => simpa using globMatch_star s
  | cons p ps ih =>
    have head : Literal p := plain p (by simp)
    have rest : Plain ps := fun q member => plain q (mem_cons_of_mem p member)
    cases s with
    | nil => simp [globMatch, readTokens_literal head, matchTokens]
    | cons c s =>
      simp only [cons_append, globMatch_literal head, Bool.and_eq_true, beq_iff_eq,
        ih rest, cons_prefix_cons]

/-! ## Patterns that select one name

A pattern with a special byte has fewer single-byte tokens than bytes, so some byte of what it
matches is free. -/

def slots (ts : List Token) : Nat :=
  ts.countP (· ≠ .anySequence)

variable {s : Bytes}

theorem anySuffix_iff {test} :
    anySuffix test s ↔ ∃ front back, s = front ++ back ∧ test back := by
  induction s with
  | nil =>
    constructor
    · intro atEnd
      exact ⟨[], [], rfl, atEnd⟩
    · rintro ⟨front, back, split, passes⟩
      obtain ⟨rfl, rfl⟩ := nil_eq_append_iff.mp split
      exact passes
  | cons c s ih =>
    rw [anySuffix, Bool.or_eq_true, ih]
    constructor
    · rintro (here | ⟨front, back, rfl, passes⟩)
      · exact ⟨[], c :: s, rfl, here⟩
      · exact ⟨c :: front, back, rfl, passes⟩
    · rintro ⟨front, back, split, passes⟩
      cases front with
      | nil =>
        subst split
        exact .inl passes
      | cons d front =>
        cases split
        exact .inr ⟨front, back, rfl, passes⟩

theorem globMatch_star_cons {ps : Bytes} :
    globMatch (star :: ps) s ↔ ∃ front back, s = front ++ back ∧ globMatch ps back :=
  anySuffix_iff

theorem globMatch_word_star {word ps : Bytes} (plain : Plain word) (s : Bytes) :
    globMatch (word ++ star :: ps) s ↔
      ∃ between back, s = word ++ (between ++ back) ∧ globMatch ps back := by
  induction word generalizing s with
  | nil => exact globMatch_star_cons
  | cons p word ih =>
    have head : Literal p := plain p (by simp)
    have rest : Plain word := fun q member => plain q (mem_cons_of_mem p member)
    cases s with
    | nil => simp [globMatch, readTokens_literal head, matchTokens]
    | cons c s =>
      rw [cons_append, globMatch_literal head, Bool.and_eq_true, beq_iff_eq, ih rest]
      constructor
      · rintro ⟨rfl, between, back, rfl, later⟩
        exact ⟨between, back, rfl, later⟩
      · rintro ⟨between, back, split, later⟩
        cases split
        exact ⟨rfl, between, back, rfl, later⟩

theorem matchTokens_single {t ts} (single : t ≠ .anySequence) :
    matchTokens (t :: ts) s ↔
      ∃ c s', s = c :: s' ∧ t.accepts c ∧ matchTokens ts s' := by
  cases s with
  | nil => cases t <;> simp_all [matchTokens]
  | cons c s =>
    have step : matchTokens (t :: ts) (c :: s) = (t.accepts c && matchTokens ts s) := by
      cases t with
      | anySequence => exact absurd rfl single
      | anyByte => rfl
      | byte d => rfl
      | bracket negated ranges => rfl
    rw [step, Bool.and_eq_true]
    constructor
    · intro both
      exact ⟨c, s, rfl, both⟩
    · rintro ⟨c', s', same, both⟩
      cases same
      exact both

theorem matchTokens_free {ts j} (matching : matchTokens ts s)
    (few : slots ts < j) (inside : j ≤ s.length) :
    ∃ s', s' ≠ s ∧ s'.drop j = s.drop j ∧ s'.length = s.length ∧ matchTokens ts s' := by
  induction ts generalizing s j with
  | nil =>
    cases s with
    | nil => simp at inside; omega
    | cons c s => simp [matchTokens] at matching
  | cons t ts ih =>
    by_cases sequence : t = .anySequence
    · subst sequence
      obtain ⟨front, back, rfl, rest⟩ := anySuffix_iff.mp matching
      cases front with
      | nil =>
        obtain ⟨s', other, same, length, matching'⟩ := ih rest few inside
        exact ⟨s', other, same, length, anySuffix_iff.mpr ⟨[], s', rfl, matching'⟩⟩
      | cons c front =>
        obtain ⟨j, rfl⟩ := exists_eq_succ_of_ne_zero (ne_of_gt (zero_lt_of_lt few))
        refine ⟨(c + 1) :: (front ++ back), ?_, rfl, by simp, ?_⟩
        · simp
        · exact anySuffix_iff.mpr ⟨(c + 1) :: front, back, rfl, rest⟩
    · obtain ⟨c, s, rfl, accepted, rest⟩ := (matchTokens_single sequence).mp matching
      obtain ⟨j, rfl⟩ := exists_eq_succ_of_ne_zero (ne_of_gt (zero_lt_of_lt few))
      have fewer : slots ts < j := by
        rw [slots, countP_cons_of_pos (by simpa using sequence)] at few
        exact lt_of_succ_lt_succ few
      obtain ⟨s', other, same, length, matching'⟩ := ih rest fewer (le_of_succ_le_succ inside)
      refine ⟨c :: s', by simpa using other, same, by simpa using length, ?_⟩
      exact (matchTokens_single sequence).mpr ⟨c, s', rfl, accepted, matching'⟩

theorem readRanges_suffix (fuel : Nat) (ps : Bytes) : (readRanges fuel ps).2 <:+ ps := by
  induction fuel generalizing ps with
  | zero => exact suffix_refl ps
  | succ fuel ih =>
    cases ps with
    | nil => exact suffix_refl []
    | cons p ps =>
      have later : ∀ {rest}, rest <:+ ps → rest <:+ p :: ps :=
        fun inside => inside.trans (suffix_cons p ps)
      rw [readRanges]
      split
      · exact later ((ih _).trans (tail_suffix ps))
      · split
        · exact later (suffix_refl ps)
        · split
          · exact later ((ih _).trans ((tail_suffix _).trans (tail_suffix ps)))
          · exact later (ih ps)

theorem readRanges_length {fuel ps} (more : 0 < fuel) (nonempty : 0 < ps.length) :
    (readRanges fuel ps).2.length < ps.length := by
  obtain ⟨fuel, rfl⟩ := exists_eq_succ_of_ne_zero (ne_of_gt more)
  cases ps with
  | nil => cases nonempty
  | cons p ps =>
    refine lt_succ_of_le ?_
    rw [readRanges]
    split
    · exact ((readRanges_suffix _ _).trans (tail_suffix ps)).length_le
    · split
      · exact le_refl _
      · split
        · exact ((readRanges_suffix _ _).trans ((tail_suffix _).trans (tail_suffix ps))).length_le
        · exact (readRanges_suffix _ ps).length_le

/-- The bytes of a pattern other than `*`. -/
def solid (pattern : Bytes) : Nat :=
  pattern.countP (· ≠ star)

theorem solid_le_of_suffix {rest pattern : Bytes} (inside : rest <:+ pattern) :
    solid rest ≤ solid pattern :=
  inside.sublist.countP_le

theorem slots_readTokens (fuel : Nat) (pattern : Bytes) :
    slots (readTokens fuel pattern) ≤ solid pattern := by
  induction fuel generalizing pattern with
  | zero => exact zero_le _
  | succ fuel ih =>
    cases pattern with
    | nil => exact zero_le _
    | cons p ps =>
      have one : ∀ {t rest}, p ≠ star → rest <:+ ps →
          slots (t :: readTokens fuel rest) ≤ solid (p :: ps) := by
        intro t rest notStar inside
        have bound := (ih rest).trans (solid_le_of_suffix inside)
        rw [solid, countP_cons_of_pos (by simpa using notStar)]
        rw [slots, countP_cons]
        exact Nat.add_le_add bound (by split <;> simp)
      rw [readTokens]
      split
      · rename_i isStar
        rw [slots, countP_cons_of_neg (by simp), solid,
          countP_cons_of_neg (by simpa using isStar)]
        exact ih ps
      · rename_i notStar
        split
        · exact one notStar (suffix_refl ps)
        · split
          · refine one notStar ((readRanges_suffix _ _).trans ?_)
            split
            · exact tail_suffix ps
            · exact suffix_refl ps
          · split
            · exact one notStar (tail_suffix ps)
            · exact one notStar (suffix_refl ps)

theorem solid_le_of_length {rest l : Bytes} {n} (inside : rest <:+ l ++ [star])
    (short : rest.length ≤ n + 1) : solid rest ≤ n := by
  rcases eq_nil_or_concat' rest with rfl | ⟨front, last, rfl⟩
  · exact zero_le n
  · obtain ⟨before, split⟩ := inside
    rw [← append_assoc] at split
    obtain ⟨-, rfl⟩ := append_inj' split rfl |>.imp id singleton_inj.mp
    rw [solid, countP_append]
    rw [length_append] at short
    exact countP_le_length.trans (le_of_succ_le_succ short)

theorem slots_lt {c} (special : ¬ Literal p) (notQuestion : p ≠ question) :
    slots (readTokens (p :: (name ++ [c, star])).length (p :: (name ++ [c, star]))) <
      name.length + 2 := by
  let ps := name ++ [c, star]
  have ends : ps = name ++ [c] ++ [star] := by simp [ps]
  have length : ps.length = name.length + 2 := by simp [ps]
  have after : ∀ {t rest}, rest <:+ ps → rest.length ≤ name.length + 1 →
      slots (t :: readTokens ps.length rest) < name.length + 2 := by
    intro t rest inside short
    have few := (slots_readTokens ps.length rest).trans (solid_le_of_length (ends ▸ inside) short)
    rw [slots, countP_cons]
    exact Nat.lt_succ_of_le (Nat.add_le_add few (by split <;> simp))
  change slots (readTokens (ps.length + 1) (p :: ps)) < _
  rw [readTokens]
  split
  · rw [slots]
    have few := (slots_readTokens ps.length ps).trans
      (solid_le_of_length ⟨[], ends⟩ (le_of_eq length))
    exact lt_succ_of_le few
  · rename_i notStar
    split
    · refine after ((readRanges_suffix _ _).trans ?_) ?_
      · split
        · exact tail_suffix ps
        · exact suffix_refl ps
      · split
        · have shorter := (readRanges_suffix ps.length ps.tail).length_le
          rw [length_tail] at shorter
          omega
        · have shorter : (readRanges ps.length ps).2.length < ps.length :=
            readRanges_length (by omega) (by omega)
          omega
    · rename_i notBracket
      have isBackslash : p = backslash := by
        by_contra notBackslash
        exact special ⟨notStar, notQuestion, notBracket, notBackslash⟩
      rw [if_pos ⟨isBackslash, ne_nil_of_length_pos (by omega)⟩]
      exact after (tail_suffix ps) (by rw [length_tail]; omega)

theorem plain_of_selects {k : Bytes} {c}
    (matching : globMatch (name ++ [c, star]) (name ++ c :: k))
    (only : ∀ s : Bytes, s.length = (name ++ c :: k).length → s.drop (name.length + 1) = k →
      globMatch (name ++ [c, star]) s → s = name ++ c :: k) : Plain name := by
  induction name with
  | nil => exact fun p member => absurd member not_mem_nil
  | cons p name ih =>
    by_cases literal : Literal p
    · rw [cons_append, cons_append, globMatch_literal literal, Bool.and_eq_true] at matching
      have rest := ih matching.2 fun s length ending selected => by
        have whole := only (p :: s) (by simpa using length) ending (by
          rw [cons_append, globMatch_literal literal, selected, beq_self_eq_true, Bool.and_self])
        exact (cons.inj whole).2
      intro q member
      rcases mem_cons.mp member with rfl | later
      · exact literal
      · exact rest q later
    · exfalso
      by_cases isQuestion : p = question
      · subst isQuestion
        have other := only ((question + 1) :: (name ++ c :: k)) (by simp) (by simp) matching
        exact absurd (cons.inj other).1 (by decide)
      · obtain ⟨s', other, ending, length, selected⟩ := matchTokens_free matching
          (slots_lt literal isQuestion) (by simp)
        refine other (only s' length ?_ selected)
        rw [length_cons, ending]
        simp

end SwssCommon.Glob
