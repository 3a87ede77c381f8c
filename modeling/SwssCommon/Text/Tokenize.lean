import SwssCommon.Lib.Bytes

/-! # Tokens of a text

One function reads tokens with `getline`, which fails if nothing is left. The other one looks for
the separator a number of times, and what is left is the last token.
-/

namespace SwssCommon

open Bytes List

def afterToken (token : UInt8) (str : Bytes) : Bytes :=
  (str.dropWhile (· ≠ token)).tail

theorem afterToken_length_lt {token} {str : Bytes} (some : str ≠ []) :
    (afterToken token str).length < str.length := by
  have rest := (str.dropWhile_suffix (· ≠ token)).length_le
  have left := length_pos_iff.mpr some
  rw [afterToken, length_tail]
  omega

/-- `tokenize(str, token)`: what a stream on `str` still gives. -/
def tokenize (str : Bytes) (token : UInt8) : List Bytes :=
  if str = [] then []
  else str.takeWhile (· ≠ token) :: tokenize (afterToken token str) token
termination_by str.length
decreasing_by exact afterToken_length_lt ‹_›

/-- `tokenize(str, token, firstN)`: of the rounds of the loop `firstN` are left. -/
def tokenizeFirst (tmp : Bytes) (token : UInt8) : Nat → List Bytes
  | 0 => [tmp]
  | firstN + 1 =>
    if token ∈ tmp then
      tmp.takeWhile (· ≠ token) :: tokenizeFirst (afterToken token tmp) token firstN
    else [tmp]

variable {token : UInt8} {a rest : Bytes}

theorem split_at_token {str : Bytes} (inside : token ∈ str) :
    ∃ a rest, token ∉ a ∧ str = a ++ token :: rest := by
  induction str with
  | nil => cases inside
  | cons c str ih =>
    by_cases here : c = token
    · exact ⟨[], str, not_mem_nil, by rw [here, nil_append]⟩
    · obtain ⟨a, rest, free, rfl⟩ := ih ((mem_cons.mp inside).resolve_left (Ne.symm here))
      exact ⟨c :: a, rest, by simp [Ne.symm here, free], rfl⟩

theorem afterToken_append (free : token ∉ a) : afterToken token (a ++ token :: rest) = rest := by
  rw [afterToken, dropWhile_ne_append free, tail_cons]

theorem tokenizeFirst_append (free : token ∉ a) (firstN : Nat) :
    tokenizeFirst (a ++ token :: rest) token (firstN + 1) =
      a :: tokenizeFirst rest token firstN := by
  rw [tokenizeFirst, if_pos (by simp), takeWhile_ne_append free, afterToken_append free]

theorem tokenize_append (free : token ∉ a) :
    tokenize (a ++ token :: rest) token = a :: tokenize rest token := by
  rw [tokenize, if_neg (by simp), takeWhile_ne_append free, afterToken_append free]

theorem tokenizeFirst_free {str} (free : token ∉ str) (firstN : Nat) :
    tokenizeFirst str token firstN = [str] := by
  cases firstN with
  | zero => rfl
  | succ firstN => rw [tokenizeFirst, if_neg free]

theorem tokenize_free {str} (free : token ∉ str) :
    tokenize str token = if str = [] then [] else [str] := by
  rw [tokenize]
  split
  · rfl
  · have all : ∀ c ∈ str, decide (c ≠ token) := fun c member => by
      simpa using fun same : c = token => free (same ▸ member)
    have nothing : tokenize [] token = [] := by rw [tokenize, if_pos rfl]
    rw [takeWhile_eq_self_iff.mpr all, afterToken, dropWhile_eq_nil_iff.mpr all, tail_nil, nothing]

theorem tokenizeFirst_ne_nil (str : Bytes) (token : UInt8) (firstN : Nat) :
    tokenizeFirst str token firstN ≠ [] := by
  cases firstN with
  | zero => exact cons_ne_nil _ _
  | succ firstN =>
    rw [tokenizeFirst]
    split <;> exact cons_ne_nil _ _

/-- The separators that are found are those between the tokens. -/
structure TokensOf (str : Bytes) (token : UInt8) (firstN : Nat) (tokens : List Bytes) : Prop where
  length : tokens.length = min firstN (str.count token) + 1
  joined : [token].intercalate tokens = str
  free : ∀ t ∈ tokens.dropLast, token ∉ t

theorem tokens_tokenizeFirst (str : Bytes) (token : UInt8) (firstN : Nat) :
    TokensOf str token firstN (tokenizeFirst str token firstN) := by
  induction firstN generalizing str with
  | zero => exact ⟨by simp [tokenizeFirst], by simp [tokenizeFirst], by simp [tokenizeFirst]⟩
  | succ firstN ih =>
    by_cases inside : token ∈ str
    · obtain ⟨a, rest, free, rfl⟩ := split_at_token inside
      have later := ih rest
      have more := tokenizeFirst_ne_nil rest token firstN
      rw [tokenizeFirst_append free]
      constructor
      · rw [length_cons, later.length, count_append, count_eq_zero.mpr free, count_cons_self]
        omega
      · obtain ⟨t, ts, tokens⟩ := exists_cons_of_ne_nil more
        rw [tokens, intercalate_cons_cons, ← tokens, later.joined, append_assoc, singleton_append]
      · rw [dropLast_cons_of_ne_nil more]
        exact forall_mem_cons.mpr ⟨free, later.free⟩
    · rw [tokenizeFirst_free inside]
      exact ⟨by simp [count_eq_zero.mpr inside], by simp, by simp⟩

def withoutEmptyLast (tokens : List Bytes) : List Bytes :=
  if tokens.getLast? = some [] then tokens.dropLast else tokens

theorem withoutEmptyLast_cons {tokens} (some : tokens ≠ []) :
    withoutEmptyLast (a :: tokens) = a :: withoutEmptyLast tokens := by
  rw [withoutEmptyLast, withoutEmptyLast, getLast?_cons_of_ne_nil some,
    dropLast_cons_of_ne_nil some]
  split <;> rfl

theorem tokenize_eq {str firstN} (enough : str.count token ≤ firstN) :
    tokenize str token = withoutEmptyLast (tokenizeFirst str token firstN) := by
  induction firstN generalizing str with
  | zero =>
    have free : token ∉ str := count_eq_zero.mp (Nat.le_zero.mp enough)
    rw [tokenize_free free, tokenizeFirst, withoutEmptyLast]
    simp
  | succ firstN ih =>
    by_cases inside : token ∈ str
    · obtain ⟨a, rest, free, rfl⟩ := split_at_token inside
      have fewer : rest.count token ≤ firstN := by
        rw [count_append, count_cons_self] at enough
        omega
      rw [tokenize_append free, tokenizeFirst_append free,
        withoutEmptyLast_cons (tokenizeFirst_ne_nil rest token firstN), ih fewer]
    · rw [tokenize_free inside, tokenizeFirst_free inside, withoutEmptyLast]
      simp

/-- The counted function splits at the first separators, the other one at all of them, without an
    empty token at the end. -/
theorem tokenizers (str : Bytes) (token : UInt8) (firstN : Nat) :
    TokensOf str token firstN (tokenizeFirst str token firstN) ∧
      tokenize str token = withoutEmptyLast (tokenizeFirst str token str.length) :=
  ⟨tokens_tokenizeFirst str token firstN, tokenize_eq count_le_length⟩

end SwssCommon
