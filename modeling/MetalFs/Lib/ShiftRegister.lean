import Mathlib

/-!
# Shifting a stream of words

A stream of words of `w` bits is shifted up by `k` bits: what is shifted out of a word (`spill`)
goes into the low bits of the next one (`shiftIn`).  Two neighbours of the shifted stream give the
word between them back (`shiftOut_shiftIn`).

* `range`, `setRange`: reading and assigning a range of bits of a word, and the shifts they amount
  to if the ranges end at an end of the word.
-/

namespace ShiftRegister

variable {w n k : Nat}

/-! ## Ranges of bits -/

/-- The bits of `x` from `lo` to `hi`. -/
def range (x : BitVec w) (hi lo : Nat) : BitVec (hi + 1 - lo) := x.extractLsb' lo (hi + 1 - lo)

/-- `x` with `v` in the bits from `lo` to `hi`. -/
def setRange (x : BitVec w) (hi lo : Nat) (v : BitVec n) : BitVec w :=
  .ofFnLE fun i => if lo ≤ i ∧ i ≤ hi then v.getLsbD (i - lo) else x.getLsbD i

theorem getLsbD_range (x : BitVec w) (hi lo i : Nat) :
    (range x hi lo).getLsbD i = (decide (i < hi + 1 - lo) && x.getLsbD (lo + i)) :=
  BitVec.getLsbD_extractLsb' lo (hi + 1 - lo) x i

theorem getLsbD_setRange (x : BitVec w) (hi lo : Nat) (v : BitVec n) {i : Nat} (inside : i < w) :
    (setRange x hi lo v).getLsbD i =
      if lo ≤ i ∧ i ≤ hi then v.getLsbD (i - lo) else x.getLsbD i := by
  rw [setRange, BitVec.getLsbD_ofFnLE, dif_pos inside]

/-! ## Shifting -/

/-- What a shift by `k` bits pushes out of the word. -/
def spill (k : Nat) (x : BitVec w) : BitVec w := x >>> (w - k)

/-- The shifted word, with what came out of the word before it. -/
def shiftIn (k : Nat) (carry x : BitVec w) : BitVec w := x <<< k ||| carry

/-- Two neighbours shifted back; the low bits of the second one come to the top. -/
def shiftOut (k : Nat) (x y : BitVec w) : BitVec w := x >>> k ||| y <<< (w - k)

variable {carry x y out : BitVec w}

theorem getLsbD_spill (x : BitVec w) (k i : Nat) :
    (spill k x).getLsbD i = x.getLsbD (w - k + i) :=
  BitVec.getLsbD_ushiftRight x (w - k) i

theorem getLsbD_shiftIn (k : Nat) (carry x : BitVec w) (i : Nat) :
    (shiftIn k carry x).getLsbD i =
      ((decide (i < w) && !decide (i < k) && x.getLsbD (i - k)) || carry.getLsbD i) := by
  rw [shiftIn, BitVec.getLsbD_or, BitVec.getLsbD_shiftLeft]

/-- Only the low `k` bits of `x` are set. -/
theorem ushiftRight_eq_zero_iff : x >>> k = 0#w ↔ ∀ i, k ≤ i → x.getLsbD i = false := by
  constructor
  · intro zero i above
    have bit := congrArg (fun y => y.getLsbD (i - k)) zero
    rwa [BitVec.getLsbD_ushiftRight, BitVec.getLsbD_zero, Nat.add_sub_cancel' above] at bit
  · intro clear
    refine BitVec.eq_of_getLsbD_eq fun i _ => ?_
    rw [BitVec.getLsbD_ushiftRight, BitVec.getLsbD_zero]
    exact clear _ (Nat.le_add_right k i)

/-- What is pushed out fits into the low bits. -/
theorem spill_ushiftRight (fits : k ≤ w) (x : BitVec w) : spill k x >>> k = 0#w := by
  refine ushiftRight_eq_zero_iff.mpr fun i above => ?_
  rw [getLsbD_spill]
  exact BitVec.getLsbD_of_ge x _ (by omega)

/-- Nothing is pushed out if the high bits are clear. -/
theorem getLsbD_of_spill_eq_zero (nothing : spill k x = 0#w) {i : Nat} (high : w - k ≤ i) :
    x.getLsbD i = false := by
  have bit := congrArg (fun y => y.getLsbD (i - (w - k))) nothing
  rwa [getLsbD_spill, BitVec.getLsbD_zero, Nat.add_sub_cancel' high] at bit

/-- Shifted back, the word has lost its high bits. -/
theorem getLsbD_shiftIn_ushiftRight (fits : k ≤ w) (clean : carry >>> k = 0#w) (i : Nat) :
    (shiftIn k carry x >>> k).getLsbD i = (decide (i < w - k) && x.getLsbD i) := by
  rw [BitVec.getLsbD_ushiftRight, getLsbD_shiftIn,
    ushiftRight_eq_zero_iff.mp clean _ (Nat.le_add_right k i), Nat.add_sub_cancel_left,
    Bool.or_false]
  have low : ¬ k + i < k := by omega
  have place : k + i < w ↔ i < w - k := by omega
  simp only [place, low, decide_false, Bool.not_false, Bool.and_true]

/-- Nothing is lost if nothing was pushed out. -/
theorem shiftIn_ushiftRight (fits : k ≤ w) (clean : carry >>> k = 0#w) (nothing : spill k x = 0#w) :
    shiftIn k carry x >>> k = x := by
  refine BitVec.eq_of_getLsbD_eq fun i _ => ?_
  rw [getLsbD_shiftIn_ushiftRight fits clean]
  rcases Nat.lt_or_ge i (w - k) with low | high
  · rw [decide_eq_true low, Bool.true_and]
  · rw [getLsbD_of_spill_eq_zero nothing high, Bool.and_false]

/-- Two neighbours of the shifted stream give the word between them back. -/
theorem shiftOut_shiftIn (fits : k ≤ w) (clean : carry >>> k = 0#w) :
    shiftOut k (shiftIn k carry x) (shiftIn k (spill k x) y) = x := by
  refine BitVec.eq_of_getLsbD_eq fun i inside => ?_
  rw [shiftOut, BitVec.getLsbD_or, getLsbD_shiftIn_ushiftRight fits clean, BitVec.getLsbD_shiftLeft,
    getLsbD_shiftIn, getLsbD_spill]
  rcases Nat.lt_or_ge i (w - k) with low | high
  · rw [decide_eq_true low, Bool.true_and, Bool.not_true, Bool.and_false, Bool.false_and,
      Bool.or_false]
  · have place : w - k + (i - (w - k)) = i := by omega
    have shifted : i - (w - k) < k := by omega
    rw [place, decide_eq_false (Nat.not_lt.mpr high), decide_eq_true shifted, decide_eq_true inside]
    simp only [Bool.not_true, Bool.not_false, Bool.and_false, Bool.false_and, Bool.false_or,
      Bool.true_and]

/-- As `shiftOut_shiftIn`, at the end of the stream, where only the carry follows. -/
theorem shiftOut_spill (fits : k ≤ w) (clean : carry >>> k = 0#w) :
    shiftOut k (shiftIn k carry x) (spill k x) = x := by
  have last : shiftIn k (spill k x) 0#w = spill k x := by
    rw [shiftIn, BitVec.zero_shiftLeft, BitVec.zero_or]
  have whole := @shiftOut_shiftIn w k carry x 0#w fits clean
  rwa [last] at whole

/-! ## Ranges that end at an end of the word -/

/-- Assigning the high bits from the low bits of another word. -/
theorem setRange_high (small : k < w) (clean : carry >>> k = 0#w) :
    setRange carry (w - 1) k (range x (w - k - 1) 0) = shiftIn k carry x := by
  refine BitVec.eq_of_getLsbD_eq fun i inside => ?_
  rw [getLsbD_setRange _ _ _ _ inside, getLsbD_range, getLsbD_shiftIn, Nat.zero_add]
  rcases Nat.lt_or_ge i k with low | high
  · rw [if_neg (by omega), decide_eq_true low, Bool.not_true, Bool.and_false, Bool.false_and,
      Bool.false_or]
  · rw [if_pos (by omega), decide_eq_true (by omega : i - k < w - k - 1 + 1 - 0),
      decide_eq_true inside, decide_eq_false (Nat.not_lt.mpr high),
      ushiftRight_eq_zero_iff.mp clean i high, Bool.or_false]
    rfl

/-- Assigning the low bits from the high bits of another word. -/
theorem setRange_low (positive : 0 < k) (small : k < w) (clean : carry >>> k = 0#w) :
    setRange carry (k - 1) 0 (range x (w - 1) (w - k)) = spill k x := by
  refine BitVec.eq_of_getLsbD_eq fun i inside => ?_
  rw [getLsbD_setRange _ _ _ _ inside, getLsbD_range, getLsbD_spill, Nat.sub_zero]
  rcases Nat.lt_or_ge i k with low | high
  · rw [if_pos (by omega), decide_eq_true (by omega : i < w - 1 + 1 - (w - k)), Bool.true_and]
  · rw [if_neg (by omega), ushiftRight_eq_zero_iff.mp clean i high,
      BitVec.getLsbD_of_ge x _ (by omega)]

/-- Assigning all bits, the low ones from the high bits of a word and the high ones from the low bits
of the next. -/
theorem setRange_setRange (positive : 0 < k) (small : k < w) :
    setRange (setRange out (w - k - 1) 0 (range x (w - 1) k)) (w - 1) (w - k) (range y (k - 1) 0) =
      shiftOut k x y := by
  refine BitVec.eq_of_getLsbD_eq fun i inside => ?_
  rw [getLsbD_setRange _ _ _ _ inside, getLsbD_setRange _ _ _ _ inside, getLsbD_range,
    getLsbD_range, shiftOut, BitVec.getLsbD_or, BitVec.getLsbD_ushiftRight,
    BitVec.getLsbD_shiftLeft]
  simp only [Nat.sub_zero, Nat.zero_add]
  rcases Nat.lt_or_ge i (w - k) with low | high
  · rw [if_neg (by omega), if_pos (by omega), decide_eq_true (by omega : i < w - 1 + 1 - k),
      decide_eq_true low, Bool.true_and, Bool.not_true, Bool.and_false, Bool.false_and,
      Bool.or_false]
  · rw [if_pos (by omega), decide_eq_true (by omega : i - (w - k) < k - 1 + 1),
      decide_eq_true inside, decide_eq_false (Nat.not_lt.mpr high),
      BitVec.getLsbD_of_ge x (k + i) (by omega), Bool.false_or]
    rfl

/-- The high bits of a word are those that a shift leaves. -/
theorem range_high_eq_zero_iff (small : k < w) : range x (w - 1) k = 0 ↔ x >>> k = 0#w := by
  rw [ushiftRight_eq_zero_iff, BitVec.eq_of_getLsbD_eq_iff]
  constructor
  · intro zero i above
    rcases Nat.lt_or_ge i w with inside | outside
    · have bit := zero (i - k) (by omega)
      rw [getLsbD_range, Nat.add_sub_cancel' above,
        decide_eq_true (by omega : i - k < w - 1 + 1 - k)] at bit
      simpa using bit
    · exact BitVec.getLsbD_of_ge x i outside
  · intro clear i _
    rw [getLsbD_range, clear _ (Nat.le_add_right k i), Bool.and_false]
    exact BitVec.getLsbD_zero.symm

end ShiftRegister
