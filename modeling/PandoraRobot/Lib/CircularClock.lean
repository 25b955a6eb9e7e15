import Mathlib.Data.BitVec
import Mathlib.Tactic.Positivity
import Mathlib.Tactic.Ring

/-! # Times on a clock that wraps

A clock of `w` bits counts modulo `2 ^ w`, so a later time may have a smaller
number.  `ahead now x` is the signed distance from `now` to `x` the short way
round.  As long as two times stay within half a turn of each other, distances
add up as on the integers, and the unsigned difference the programs compare is
small exactly when the signed one is not negative.
-/

namespace PandoraRobot.CircularClock

variable {w : Nat}

/-- How far `x` lies after `now`. -/
def ahead (now x : BitVec w) : Int := (x - now).toInt

/-- Distances to two times differ by the distance between them. -/
theorem toInt_sub_eq {now x y : BitVec w}
    (hlo : -(2 ^ w : Int) ≤ (ahead now x - ahead now y) * 2)
    (hhi : (ahead now x - ahead now y) * 2 < 2 ^ w) :
    (x - y).toInt = ahead now x - ahead now y := by
  have hsplit : x - y = (x - now) - (y - now) := (sub_sub_sub_cancel_right x y now).symm
  rw [hsplit, BitVec.toInt_sub]
  exact Int.bmod_eq_of_le_mul_two (by push_cast; exact hlo) (by push_cast; exact hhi)

/-- When the clock advances by one, everything comes one closer. -/
theorem ahead_succ {now x : BitVec (w + 2)} (hlo : -(2 ^ (w + 2) : Int) < ahead now x * 2) :
    ahead (now + 1) x = ahead now x - 1 := by
  have hone : ahead now (now + 1) = 1 := by
    have hsub : now + 1 - now = 1 := add_sub_cancel_left now 1
    have hpow : 2 ^ (w + 2) = 4 * 2 ^ w := by ring
    have hpos : 0 < 2 ^ w := Nat.two_pow_pos w
    have hnat : (1 : BitVec (w + 2)).toNat = 1 := by simp
    rw [ahead, hsub, BitVec.toInt_eq_toNat_of_lt (by omega), hnat]
    rfl
  have hupper : ahead now x * 2 < 2 ^ (w + 2) := by
    have := @BitVec.two_mul_toInt_lt _ (x - now)
    unfold ahead
    omega
  have hpow : (2 : Int) ^ (w + 2) = 4 * 2 ^ w := by ring
  have hpos : (0 : Int) < 2 ^ w := by positivity
  have := @toInt_sub_eq _ now x (now + 1) (by omega) (by omega)
  rw [hone] at this
  exact this

/-- A time set a short while ahead. -/
theorem ahead_add {now n : BitVec w} (hn : 2 * n.toNat < 2 ^ w) :
    ahead now (now + n) = n.toNat := by
  have hsub : now + n - now = n := add_sub_cancel_left now n
  rw [ahead, hsub, BitVec.toInt_eq_toNat_of_lt hn]

/-- The unsigned difference `x - y` is below half a turn exactly when `x` is not before `y`. -/
theorem sub_toNat_lt_iff {now x y : BitVec w} {bound : Nat} (hbound : 2 * bound ≤ 2 ^ w)
    (hlo : -(bound : Int) ≤ ahead now x - ahead now y)
    (hhi : ahead now x - ahead now y < bound) :
    (x - y).toNat < bound ↔ 0 ≤ ahead now x - ahead now y := by
  have hbound' : (2 * bound : Int) ≤ 2 ^ w := by exact_mod_cast hbound
  have hdiff := @toInt_sub_eq _ now x y (by omega) (by omega)
  rw [← hdiff] at hlo hhi ⊢
  have hlt := (x - y).isLt
  have hcond := BitVec.toInt_eq_toNat_cond (x - y)
  have hcast : (((2 : Nat) ^ w : Nat) : Int) = 2 ^ w := by push_cast; rfl
  split at hcond <;> omega

/-- Two times are the same exactly when they lie equally far ahead. -/
theorem sub_eq_zero_iff {now x y : BitVec w} : x - y = 0 ↔ ahead now x = ahead now y := by
  rw [sub_eq_zero, ahead, ahead, BitVec.toInt_inj, sub_left_inj]

end PandoraRobot.CircularClock
