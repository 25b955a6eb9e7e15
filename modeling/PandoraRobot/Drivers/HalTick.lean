import PandoraRobot.Kernel.ThreadRuns

/-! # The tick of the HAL

`HAL_GetTick` of `drv_common.c`.  The product with 1000 wraps at 32 bits before it is divided, so
the result starts again from 0 about every 4295 seconds, and not with the tick of the kernel.
-/

namespace PandoraRobot.Drivers

open PandoraRobot.Kernel

variable {T U I : Type}

/-- `rt_tick_get`. -/
def rtTickGet (k : State T U I) : Tick := k.timers.rtTick

/-- `HAL_GetTick`. -/
def halGetTick (k : State T U I) : BitVec 32 :=
  rtTickGet k * 1000 / BitVec.ofNat 32 rtTickPerSecond

/-- The milliseconds that a number of ticks takes. -/
def milliseconds (ticks : Nat) : Nat := ticks * 1000 / rtTickPerSecond

/-- How many times the product has wrapped since the tick was 0. -/
def wraps (tick : Tick) : Nat := tick.toNat * 1000 / 2 ^ 32

theorem milliseconds_eq (ticks : Nat) : milliseconds ticks = ticks :=
  Nat.mul_div_cancel ticks (by decide)

theorem halGetTick_toNat (k : State T U I) :
    (halGetTick k).toNat = (rtTickGet k).toNat * 1000 % 2 ^ 32 / 1000 := by
  rw [halGetTick, BitVec.toNat_udiv, BitVec.toNat_mul]
  rfl

/-- Between two wraps of the product, the value lags behind the tick by as much as at the last
    one. -/
theorem halGetTick_lag (k : State T U I) :
    ∃ lag, (halGetTick k).toNat + lag = (rtTickGet k).toNat ∧
      2 ^ 32 * wraps (rtTickGet k) ≤ 1000 * lag ∧
      1000 * lag < 2 ^ 32 * wraps (rtTickGet k) + 1000 := by
  have hproduct := Nat.div_add_mod ((rtTickGet k).toNat * 1000) (2 ^ 32)
  have hvalue := halGetTick_toNat k
  rw [wraps]
  exact ⟨(rtTickGet k).toNat - (halGetTick k).toNat, by omega, by omega, by omega⟩

/-- The difference of two values is the time that has elapsed exactly when the product has not
    wrapped between them. -/
theorem hal_get_tick_difference (k₁ k₂ : State T U I) (elapsed : Nat) (helapsed : elapsed < 2 ^ 32)
    (hlater : rtTickGet k₂ = rtTickGet k₁ + BitVec.ofNat 32 elapsed) :
    (halGetTick k₂ - halGetTick k₁).toNat = milliseconds elapsed ↔
      wraps (rtTickGet k₁) = wraps (rtTickGet k₂) := by
  obtain ⟨lag₁, hlag₁, hlow₁, hhigh₁⟩ := halGetTick_lag k₁
  obtain ⟨lag₂, hlag₂, hlow₂, hhigh₂⟩ := halGetTick_lag k₂
  have htick₁ := (rtTickGet k₁).isLt
  have htick₂ := (rtTickGet k₂).isLt
  have hlater' : (rtTickGet k₂).toNat = ((rtTickGet k₁).toNat + elapsed) % 2 ^ 32 := by
    rw [hlater, BitVec.toNat_add, BitVec.toNat_ofNat, Nat.mod_eq_of_lt helapsed]
  rw [milliseconds_eq, BitVec.toNat_sub]
  omega

/-- The kernel at a tick, with no threads. -/
def atTick (tick : Tick) : State Empty Empty Empty :=
  let k : State Empty Empty Empty := State.boot
  { k with timers := { k.timers with rtTick := tick } }

/-- The fifth second after the start. -/
theorem hal_get_tick_difference_second :
    (halGetTick (atTick 5000) - halGetTick (atTick 4000)).toNat = milliseconds 1000 ↔
      wraps 4000 = wraps 5000 :=
  hal_get_tick_difference (atTick 4000) (atTick 5000) 1000 (by decide) (by decide)

/-- One tick after 4294967 ticks, the product wraps: by the difference, 4290672329 milliseconds
    have elapsed. -/
theorem hal_get_tick_wraps :
    rtTickGet (atTick 4294968) = rtTickGet (atTick 4294967) + BitVec.ofNat 32 1 ∧
      (halGetTick (atTick 4294968) - halGetTick (atTick 4294967)).toNat = 4290672329 ∧
      milliseconds 1 = 1 := by
  decide

end PandoraRobot.Drivers
