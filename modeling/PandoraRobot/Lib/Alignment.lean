import Mathlib.Data.BitVec
import Mathlib.Tactic.NormNum

/-! # Alignment by masks

Programs round a word to a multiple of a power of two with a mask of its low bits.
-/

namespace PandoraRobot.Alignment

variable {w k : Nat}

/-- The low `k` bits. -/
def lowMask (w k : Nat) : BitVec w := BitVec.ofNat w (2 ^ k - 1)

theorem getLsbD_lowMask {i : Nat} : (lowMask w k).getLsbD i = (decide (i < w) && decide (i < k)) := by
  simp [lowMask, BitVec.getLsbD_ofNat]

/-- A mask of low bits leaves the remainder. -/
theorem toNat_and_lowMask (x : BitVec w) : (x &&& lowMask w k).toNat = x.toNat % 2 ^ k := by
  apply Nat.eq_of_testBit_eq
  intro i
  rw [BitVec.testBit_toNat, BitVec.getLsbD_and, getLsbD_lowMask, Nat.testBit_mod_two_pow,
    BitVec.testBit_toNat]
  by_cases hi : i < w
  · simp [hi, Bool.and_comm]
  · simp [BitVec.getLsbD_of_ge x i (Nat.not_lt.mp hi)]

/-- Without its low bits a word is rounded down. -/
theorem toNat_and_not_lowMask (x : BitVec w) :
    (x &&& ~~~lowMask w k).toNat = x.toNat / 2 ^ k * 2 ^ k := by
  apply Nat.eq_of_testBit_eq
  intro i
  rw [BitVec.testBit_toNat, BitVec.getLsbD_and, BitVec.getLsbD_not, getLsbD_lowMask,
    ← Nat.shiftRight_eq_div_pow, ← Nat.shiftLeft_eq, Nat.testBit_shiftLeft,
    Nat.testBit_shiftRight, BitVec.testBit_toNat]
  by_cases hik : k ≤ i
  · have hsum : k + (i - k) = i := by omega
    by_cases hi : i < w
    · simp [hi, hik, hsum]
    · simp [hsum, BitVec.getLsbD_of_ge x i (Nat.not_lt.mp hi)]
  · simp [hik, Nat.not_le.mp hik]

theorem and_lowMask_eq_zero (x : BitVec w) : x &&& lowMask w k = 0 ↔ x.toNat % 2 ^ k = 0 := by
  rw [← toNat_and_lowMask, ← BitVec.toNat_inj]
  simp

/-- Rounding up what is not a multiple of `a`. -/
theorem roundUp_of_mod {n a : Nat} (ha : 0 < a) (h : n % a ≠ 0) :
    (n + a - 1) / a * a + n % a = n + a := by
  have hdiv : (n + a - 1) / a = n / a + 1 := by
    have hmod := Nat.mod_lt n ha
    have hn := Nat.div_add_mod' n a
    apply Nat.div_eq_of_lt_le
    · rw [Nat.add_mul, Nat.one_mul]
      omega
    · rw [Nat.add_mul, Nat.add_mul, Nat.one_mul]
      omega
  rw [hdiv, Nat.add_mul, Nat.one_mul]
  have hn := Nat.div_add_mod' n a
  omega

end PandoraRobot.Alignment
