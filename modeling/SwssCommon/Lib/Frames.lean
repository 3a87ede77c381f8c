import SwssCommon.Lib.Bytes

/-! # Length-prefixed frames in a fixed buffer

A frame is a string behind its length in an eight-byte word. A writer puts frames one after the
other into a buffer of fixed size.
-/

namespace SwssCommon

open List

namespace Bytes

/-- The buffer with `data` written over it from `start` on. -/
def overwrite (buffer : Bytes) (start : Nat) (data : Bytes) : Bytes :=
  buffer.take start ++ data ++ buffer.drop (start + data.length)

variable {buffer : Bytes} {start : Nat}

theorem overwrite_length {data} (room : start + data.length ≤ buffer.length) :
    (overwrite buffer start data).length = buffer.length := by
  simp only [overwrite, length_append, length_take, length_drop]
  omega

theorem overwrite_overwrite {first second} (room : start ≤ buffer.length) :
    overwrite (overwrite buffer start first) (start + first.length) second =
      overwrite buffer start (first ++ second) := by
  have length : (buffer.take start ++ first).length = start + first.length := by
    simp [Nat.min_eq_left room]
  have front : (overwrite buffer start first).take (start + first.length) =
      buffer.take start ++ first := by
    rw [overwrite, take_append_of_le_length (by omega), ← length, take_length]
  have back : (overwrite buffer start first).drop (start + first.length + second.length) =
      buffer.drop (start + first.length + second.length) := by
    rw [overwrite, drop_append, drop_eq_nil_of_le (by omega), nil_append,
      drop_drop]
    congr 1
    omega
  rw [overwrite, front, back, overwrite, length_append]
  simp only [append_assoc, Nat.add_assoc]

theorem drop_overwrite {data n} (room : start ≤ buffer.length)
    (past : start + data.length ≤ n) : (overwrite buffer start data).drop n = buffer.drop n := by
  rw [overwrite, drop_append, drop_eq_nil_of_le (by simp; omega), nil_append,
    drop_drop]
  congr 1
  simp only [length_append, length_take]
  omega

theorem overwrite_front {first second} (room : first.length + second.length ≤ buffer.length) :
    overwrite (overwrite buffer first.length second) 0 first =
      overwrite buffer 0 (first ++ second) := by
  have rest : (overwrite buffer first.length second).drop first.length =
      second ++ buffer.drop (first.length + second.length) := by
    rw [overwrite, append_assoc, drop_append_of_le_length (by simp; omega),
      drop_eq_nil_of_le (by simp), nil_append]
  simp only [overwrite, take_zero, nil_append, Nat.zero_add, length_append] at rest ⊢
  rw [rest, append_assoc]

def frame (s : Bytes) : Bytes :=
  littleEndian 8 s.length ++ s

@[simp]
theorem frame_length (s : Bytes) : (frame s).length = s.length + 8 := by
  simp [frame, Nat.add_comm]

def framePairs (pairs : List (Bytes × Bytes)) : Bytes :=
  pairs.flatMap fun p => frame p.1 ++ frame p.2

theorem framePairs_cons (p : Bytes × Bytes) (pairs : List (Bytes × Bytes)) :
    framePairs (p :: pairs) = frame p.1 ++ frame p.2 ++ framePairs pairs :=
  flatMap_cons

theorem framePairs_append (pairs more : List (Bytes × Bytes)) :
    framePairs (pairs ++ more) = framePairs pairs ++ framePairs more :=
  flatMap_append

theorem length_le_framePairs (pairs : List (Bytes × Bytes)) :
    pairs.length ≤ (framePairs pairs).length := by
  induction pairs with
  | nil => simp
  | cons p pairs ih =>
    simp only [framePairs_cons, length_append, frame_length, length_cons]
    omega

/-! ## Frames that are cut off -/

section Cut

variable {known cut rest more : Bytes} {m : Nat}

variable {n : Nat}

theorem not_length_of_padding {front} (small : n < 2 ^ 56)
    (short : known.length < front.length + 8) :
    known ++ replicate m 255 ≠ front ++ (littleEndian 8 n ++ rest) := by
  intro same
  have byte := congrArg (fun s : Bytes => s[front.length + 7]?) same
  rw [getElem?_append_right (by omega), getElem?_append_right (by omega),
    Nat.add_sub_cancel_left, getElem?_append_left (by simp), getElem?_replicate] at byte
  have top : (littleEndian 8 n)[7]? = some 0 := by
    have zero : n / 256 / 256 / 256 / 256 / 256 / 256 / 256 = 0 := by omega
    simp [littleEndian, zero]
  rw [top] at byte
  split at byte
  · cases byte
  · cases byte

theorem littleEndian_append_inj {n'} (small : n < 256 ^ 8) (small' : n' < 256 ^ 8)
    (same : littleEndian 8 n ++ rest = littleEndian 8 n' ++ more) : n = n' ∧ rest = more := by
  obtain ⟨words, others⟩ := append_inj same (by simp)
  have values := congrArg ofLittleEndian words
  rw [ofLittleEndian_littleEndian small, ofLittleEndian_littleEndian small'] at values
  exact ⟨values, others⟩

theorem known_of_le {front} (same : known ++ cut = front ++ rest)
    (long : front.length ≤ known.length) :
    ∃ known', known = front ++ known' ∧ known' ++ cut = rest := by
  obtain ⟨known', rfl⟩ := prefix_of_prefix_length_le
    (prefix_append front rest) (same ▸ prefix_append known cut) long
  exact ⟨known', rfl, by simpa using same⟩

theorem word_known {n'} (small : n < 256 ^ 8) (small' : n' < 2 ^ 56)
    (same : known ++ cut = littleEndian 8 n ++ rest)
    (padded : known ++ replicate m 255 = littleEndian 8 n' ++ more) :
    n' = n ∧ ∃ known', known = littleEndian 8 n ++ known' ∧ known' ++ cut = rest ∧
      known' ++ replicate m 255 = more := by
  have long : 8 ≤ known.length := by
    by_contra short
    have outside : known.length < ([] : Bytes).length + 8 := by simpa using short
    exact not_length_of_padding small' outside padded
  obtain ⟨known', rfl, others⟩ := known_of_le same (by simpa using long)
  obtain ⟨rfl, padded'⟩ := littleEndian_append_inj small (by omega) padded
  exact ⟨rfl, known', rfl, others, padded'⟩

theorem frame_known {s s'} (small : s.length < 256 ^ 8) (small' : s'.length < 2 ^ 56)
    (next : n < 2 ^ 56) (same : known ++ cut = frame s ++ rest)
    (padded : known ++ replicate m 255 = frame s' ++ (littleEndian 8 n ++ more)) :
    ∃ known', known' ++ cut = rest ∧
      known' ++ replicate m 255 = littleEndian 8 n ++ more := by
  have word := padded
  obtain ⟨length, known', rfl, same', padded'⟩ := word_known small small' same word
  have long : s.length ≤ known'.length := by
    by_contra short
    refine not_length_of_padding next ?_ padded
    simp
    omega
  obtain ⟨known'', rfl, others⟩ := known_of_le same' long
  rw [append_assoc] at padded'
  exact ⟨known'', others, (append_inj padded' length.symm).2⟩

/-- If the known part of frames goes on with ones as frames as well, then nothing is missing but the
    end of the last string. -/
theorem cut_inside_last {pairs pairs'}
    (lengths : pairs'.length = pairs.length) (same : known ++ cut = framePairs pairs)
    (missing : cut ≠ []) (padded : known ++ replicate m 255 = framePairs pairs' ++ more)
    (small : (framePairs pairs).length < 256 ^ 8) (small' : known.length + m < 2 ^ 56) :
    ∃ init key value, pairs = init ++ [(key, value)] ∧ cut.length ≤ value.length := by
  induction pairs generalizing known pairs' with
  | nil => simp [framePairs, missing] at same
  | cons p pairs ih =>
    cases pairs' with
    | nil => cases lengths
    | cons p' pairs' =>
      have total := congrArg length padded
      rw [framePairs_cons, append_assoc] at same
      rw [framePairs_cons, append_assoc, append_assoc] at padded
      simp only [framePairs_cons, length_append, length_replicate, frame_length] at total small
      have value : frame p'.2 ++ (framePairs pairs' ++ more) =
          littleEndian 8 p'.2.length ++ (p'.2 ++ (framePairs pairs' ++ more)) := by
        simp [frame]
      rw [value] at padded
      obtain ⟨known₁, same₁, padded₁⟩ := frame_known (by omega) (by omega) (by omega) same padded
      cases pairs with
      | nil =>
        rw [frame] at same₁
        obtain ⟨_, known₂, rfl, same₂, _⟩ := word_known (by omega) (by omega) same₁ padded₁
        refine ⟨[], p.1, p.2, rfl, ?_⟩
        have ends := congrArg length same₂
        simp [framePairs] at ends
        omega
      | cons q pairs =>
        cases pairs' with
        | nil => cases lengths
        | cons q' pairs' =>
          have key : framePairs (q' :: pairs') ++ more =
              littleEndian 8 q'.1.length ++
                (q'.1 ++ (frame q'.2 ++ (framePairs pairs' ++ more))) := by
            simp [frame, framePairs_cons]
          rw [key] at padded₁
          simp only [framePairs_cons, length_append, frame_length] at total
          obtain ⟨known₂, same₂, padded₂⟩ :=
            frame_known (by omega) (by omega) (by omega) same₁ padded₁
          rw [← key] at padded₂
          have shorter : known₂.length + m < 2 ^ 56 := by
            have ends := congrArg length padded₂
            simp only [framePairs_cons, length_append, length_replicate, frame_length] at ends
            omega
          obtain ⟨init, key, value, pairs, inside⟩ :=
            ih (by simpa using lengths) same₂ padded₂ (by omega) shorter
          exact ⟨p :: init, key, value, by rw [pairs, cons_append], inside⟩

end Cut

end Bytes

end SwssCommon
