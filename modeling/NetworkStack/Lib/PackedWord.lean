import Mathlib.Data.Nat.Bitwise
import Mathlib.Tactic.NormNum

/-!
# Bit fields of a natural number

A packed word keeps several numbers side by side in its binary digits. A field
is taken out with a mask and put back with a disjunction; the lemmas read both
as division, remainder and addition, which is the form linear arithmetic
decides.
-/

namespace PackedWord

/-- The mask of all digits from `k` up, in a word of `w` digits. -/
def highMask (w k : Nat) : Nat := 2 ^ w - 2 ^ k

theorem testBit_highMask {w k : Nat} (le : k ≤ w) (i : Nat) :
    (highMask w k).testBit i = (decide (k ≤ i) && decide (i < w)) := by
  have split : 2 ^ w - 2 ^ k = 2 ^ k * (2 ^ (w - k) - 1) := by
    rw [Nat.mul_sub_one, ← Nat.pow_add, Nat.add_sub_cancel' le]
  rw [highMask, split, Nat.testBit_two_pow_mul, Nat.testBit_two_pow_sub_one]
  by_cases below : k ≤ i
  · simp only [ge_iff_le, below, decide_true, Bool.true_and, decide_eq_decide]
    omega
  · simp [below]

/-- Masking the high digits rounds down to a multiple of `2 ^ k`. -/
theorem and_highMask {n w k : Nat} (le : k ≤ w) (lt : n < 2 ^ w) :
    n &&& highMask w k = n / 2 ^ k * 2 ^ k := by
  apply Nat.eq_of_testBit_eq
  intro i
  rw [Nat.testBit_and, testBit_highMask le, Nat.mul_comm, Nat.testBit_two_pow_mul,
    Nat.testBit_div_two_pow]
  by_cases above : k ≤ i
  · have back : i - k + k = i := by omega
    by_cases inside : i < w
    · simp [above, inside, back]
    · have zero : n.testBit i = false :=
        Nat.testBit_lt_two_pow (lt.trans_le (Nat.pow_le_pow_right (by decide) (by omega)))
      simp [above, back, zero]
  · simp [above]

/-- The digits from `k` to `w`, taken out with a mask and a shift. -/
theorem and_highMask_shiftRight (n : Nat) {w k : Nat} (le : k ≤ w) :
    (n &&& highMask w k) >>> k = n / 2 ^ k % 2 ^ (w - k) := by
  apply Nat.eq_of_testBit_eq
  intro i
  rw [Nat.testBit_shiftRight, Nat.testBit_and, testBit_highMask le, Nat.testBit_mod_two_pow,
    Nat.testBit_div_two_pow, Nat.add_comm k i, Bool.and_comm]
  by_cases inside : i < w - k
  · have lt : i + k < w := by omega
    simp [inside, lt]
  · have ge : ¬ i + k < w := by omega
    simp [inside, ge]

/-- Putting a field below `2 ^ k` into a word with room for it adds it. -/
theorem or_low (high : Nat) {low k : Nat} (lt : low < 2 ^ k) :
    high * 2 ^ k ||| low = high * 2 ^ k + low := by
  rw [Nat.mul_comm, ← Nat.two_pow_add_eq_or_of_lt lt]

end PackedWord
