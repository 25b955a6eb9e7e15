import Mathlib.Data.BitVec
import PandoraRobot.Kernel.Service
import PandoraRobot.Lib.DownCounter

/-! # Delays of microseconds

`rt_hw_us_delay` of `drv_common.c`, which polls the counter of SysTick: the counter goes down at the
rate of the core clock, and `rt_hw_systick_init` has it loaded again at every tick.
-/

namespace PandoraRobot.Drivers

open PandoraRobot.Kernel PandoraRobot.DownCounter

/-! ## The code -/

def sysTickLoadReloadMsk : BitVec 32 := 0xffffff

/-- `HAL_SYSTICK_Config`: the reload value, which stays where the one asked for is impossible. -/
def halSystickConfig (ticksNumb reload : BitVec 32) : BitVec 32 :=
  if sysTickLoadReloadMsk < ticksNumb - 1 then reload else ticksNumb - 1

/-- `rt_hw_systick_init`: the reload value. -/
def rtHwSystickInit (systemCoreClock reload : BitVec 32) : BitVec 32 :=
  halSystickConfig (systemCoreClock / BitVec.ofNat 32 rtTickPerSecond) reload

/-- The elapsed time that the loop makes of two values of the counter. -/
def usDelta (start reload now : BitVec 32) : BitVec 32 :=
  if now < start then start - now else reload + start - now

/-- The loop, for so many passes: which of the values it returns after. -/
def usDelayLoop (limit start reload : BitVec 32) (val : Nat → BitVec 32) : Nat → Nat → Option Nat
  | 0, _ => none
  | passes + 1, i =>
    if usDelta start reload (val i) < limit then usDelayLoop limit start reload val passes (i + 1)
    else some i

/-- `rt_hw_us_delay`, which reads the values `val` one after the other. -/
def rtHwUsDelay (systemCoreClock reload us : BitVec 32) (val : Nat → BitVec 32) (passes : Nat) :
    Option Nat :=
  let start := val 0
  let usTick := systemCoreClock / 1000000
  usDelayLoop (usTick * us) start reload val passes 1

/-! ## The loop -/

section Loop

variable {limit start reload : BitVec 32} {val : Nat → BitVec 32} {i n : Nat}

/-- The loop returns after the first value with which enough time has elapsed. -/
theorem usDelayLoop_some : (∃ passes, usDelayLoop limit start reload val passes i = some n) ↔
    i ≤ n ∧ limit ≤ usDelta start reload (val n) ∧
      ∀ j, i ≤ j → j < n → ¬ limit ≤ usDelta start reload (val j) := by
  constructor
  · rintro ⟨passes, h⟩
    induction passes generalizing i with
    | zero => cases h
    | succ passes ih =>
      rw [usDelayLoop] at h
      split at h
      case isTrue hless =>
        obtain ⟨hle, henough, hfirst⟩ := ih h
        refine ⟨Nat.le_of_succ_le hle, henough, fun j hij hjn => ?_⟩
        obtain rfl | hlt := Nat.eq_or_lt_of_le hij
        · exact BitVec.not_le.mpr hless
        · exact hfirst j hlt hjn
      case isFalse henough =>
        cases h
        exact ⟨Nat.le_refl _, BitVec.not_lt.mp henough, fun j hij hjn => by omega⟩
  · rintro ⟨hle, henough, hfirst⟩
    obtain ⟨rest, rfl⟩ := Nat.exists_eq_add_of_le hle
    refine ⟨rest + 1, ?_⟩
    induction rest generalizing i with
    | zero =>
      rw [Nat.add_zero] at henough
      rw [usDelayLoop, if_neg (BitVec.not_lt.mpr henough)]
      rfl
    | succ rest ih =>
      have hless := BitVec.not_le.mp (hfirst i (Nat.le_refl i) (by omega))
      have hnext : i + 1 + rest = i + (rest + 1) := by omega
      rw [usDelayLoop, if_pos hless, ← hnext]
      exact ih (by omega) (by rwa [hnext]) fun j hij hjn => hfirst j (by omega) (by omega)

end Loop

/-! ## Elapsed time -/

/-- The values that are read. -/
def readings {load : Nat} (start : Nat) (s : Schedule load) (i : Nat) : BitVec 32 :=
  BitVec.ofNat 32 (valueAfter load start (s.cyclesAt i))

/-- The delay ends, and not before its time. -/
def Delayed (systemCoreClock reload us : BitVec 32) (start : Nat) (s : Schedule reload.toNat) :
    Prop :=
  ∃ passes i, rtHwUsDelay systemCoreClock reload us (readings start s) passes = some i ∧
    us.toNat * (systemCoreClock.toNat / 1000000) ≤ s.cyclesAt i

/-- Where in a period, which begins `start` cycles before the counter is loaded, the loop takes the
    elapsed time for at least `limit`. -/
def Enough (start limit elapsed : Nat) : Prop :=
  elapsed = 0 ∨ limit ≤ elapsed ∧ (elapsed ≤ start ∨ limit < elapsed)

section Elapsed

variable {reload : BitVec 32} {start : Nat} (s : Schedule reload.toNat)

/-- The elapsed time comes out as a whole period where none has elapsed, and one cycle short once
    the counter has been loaded. -/
theorem toNat_usDelta (hstart : start ≤ reload.toNat) (i : Nat) :
    (usDelta (readings start s 0) reload (readings start s i)).toNat =
      if s.cyclesAt i % (reload.toNat + 1) = 0 then reload.toNat
      else if s.cyclesAt i % (reload.toNat + 1) ≤ start then s.cyclesAt i % (reload.toNat + 1)
      else s.cyclesAt i % (reload.toNat + 1) - 1 := by
  have hlt := reload.isLt
  have hperiod := Nat.mod_lt (s.cyclesAt i) reload.toNat.add_one_pos
  have hzero : (readings start s 0).toNat = start := by
    rw [readings, s.start, BitVec.toNat_ofNat]
    exact Nat.mod_eq_of_lt (by show start < 2 ^ 32; omega)
  have hnow : (readings start s i).toNat = valueAfter reload.toNat start (s.cyclesAt i) := by
    rw [readings, BitVec.toNat_ofNat]
    exact Nat.mod_eq_of_lt (Nat.lt_of_le_of_lt (valueAfter_le hstart _) hlt)
  rw [valueAfter_eq hstart] at hnow
  generalize s.cyclesAt i % (reload.toNat + 1) = elapsed at *
  rw [usDelta]
  split
  case isTrue hless =>
    rw [BitVec.lt_def] at hless
    rw [BitVec.toNat_sub_of_le (BitVec.le_of_lt hless)]
    split_ifs at hnow ⊢ <;> omega
  case isFalse hless =>
    rw [BitVec.lt_def] at hless
    rw [BitVec.toNat_sub, BitVec.toNat_add]
    split_ifs at hnow ⊢ <;> omega

/-- The loop takes the time for enough. -/
theorem le_usDelta_iff (hstart : start ≤ reload.toNat) (limit : BitVec 32) (i : Nat) :
    limit ≤ usDelta (readings start s 0) reload (readings start s i) ↔
      limit.toNat ≤ reload.toNat ∧
        Enough start limit.toNat (s.cyclesAt i % (reload.toNat + 1)) := by
  have hperiod := Nat.mod_lt (s.cyclesAt i) reload.toNat.add_one_pos
  rw [BitVec.le_def, toNat_usDelta s hstart, Enough]
  split_ifs <;> omega

end Elapsed

/-! ## The delay -/

section Delay

variable {systemCoreClock reload us : BitVec 32} {start : Nat} (s : Schedule reload.toNat)

/-- The cycles that are to elapse. -/
def delayCycles (systemCoreClock us : BitVec 32) : Nat :=
  us.toNat * (systemCoreClock.toNat / 1000000)

theorem toNat_limit (systemCoreClock us : BitVec 32) :
    (systemCoreClock / 1000000 * us).toNat = delayCycles systemCoreClock us % 2 ^ 32 := by
  have hmega : (1000000 : BitVec 32).toNat = 1000000 := rfl
  rw [BitVec.toNat_mul, BitVec.toNat_udiv, hmega, delayCycles, Nat.mul_comm]

/-- The delay holds where the loop takes the time for enough at one of the values, and at none that
    is read too early. -/
theorem delayed_iff (hstart : start ≤ reload.toNat) : Delayed systemCoreClock reload us start s ↔
    delayCycles systemCoreClock us % 2 ^ 32 ≤ reload.toNat ∧
      (∃ n, 1 ≤ n ∧ Enough start (delayCycles systemCoreClock us % 2 ^ 32)
        (s.cyclesAt n % (reload.toNat + 1))) ∧
      ∀ n, 1 ≤ n → Enough start (delayCycles systemCoreClock us % 2 ^ 32)
        (s.cyclesAt n % (reload.toNat + 1)) → delayCycles systemCoreClock us ≤ s.cyclesAt n := by
  have hruns : Delayed systemCoreClock reload us start s ↔
      ∃ n, 1 ≤ n ∧
        systemCoreClock / 1000000 * us ≤ usDelta (readings start s 0) reload (readings start s n) ∧
        (∀ j, 1 ≤ j → j < n → ¬ systemCoreClock / 1000000 * us ≤
          usDelta (readings start s 0) reload (readings start s j)) ∧
        delayCycles systemCoreClock us ≤ s.cyclesAt n := by
    rw [Delayed, exists_comm]
    refine exists_congr fun n => ?_
    show (∃ passes, usDelayLoop (systemCoreClock / 1000000 * us) (readings start s 0) reload
      (readings start s) passes 1 = some n ∧ _) ↔ _
    rw [exists_and_right, usDelayLoop_some, and_assoc, and_assoc]
    rfl
  rw [hruns, s.first_iff fun n => systemCoreClock / 1000000 * us ≤
    usDelta (readings start s 0) reload (readings start s n)]
  simp only [le_usDelta_iff s hstart, toNat_limit]
  generalize delayCycles systemCoreClock us % 2 ^ 32 = limit
  constructor
  · rintro ⟨⟨n, hn, hle, henough⟩, hlate⟩
    exact ⟨hle, ⟨n, hn, henough⟩, fun m hm h => hlate m hm ⟨hle, h⟩⟩
  · rintro ⟨hle, ⟨n, hn, henough⟩, hlate⟩
    exact ⟨⟨n, hn, hle, henough⟩, fun m hm h => hlate m hm h.2⟩

/-- Within a period, a loop that does not find the counter where it started is not early. -/
theorem late_of_enough {limit n : Nat} (hlimit : limit ≤ reload.toNat) (hfirst : 0 < s.cyclesAt 1)
    (hn : 1 ≤ n) (henough : Enough start limit (s.cyclesAt n % (reload.toNat + 1))) :
    limit ≤ s.cyclesAt n := by
  have hlater := s.mono hn
  by_contra hearly
  rw [Nat.mod_eq_of_lt (by omega), Enough] at henough
  omega

theorem delayed_iff_cases (hclock : 1000000 ≤ systemCoreClock.toNat)
    (hstart : start ≤ reload.toNat) : Delayed systemCoreClock reload us start s ↔
    us = 0 ∨
      (delayCycles systemCoreClock us ≤ reload.toNat ∧ 0 < s.cyclesAt 1 ∧
        ∃ n, 1 ≤ n ∧ Enough start (delayCycles systemCoreClock us)
          (s.cyclesAt n % (reload.toNat + 1))) ∨
      (2 ^ 32 ≤ delayCycles systemCoreClock us ∧
        delayCycles systemCoreClock us % 2 ^ 32 ≤ reload.toNat ∧
        (∃ n, 1 ≤ n ∧ Enough start (delayCycles systemCoreClock us % 2 ^ 32)
          (s.cyclesAt n % (reload.toNat + 1))) ∧
        ∀ n, 1 ≤ n → Enough start (delayCycles systemCoreClock us % 2 ^ 32)
          (s.cyclesAt n % (reload.toNat + 1)) → delayCycles systemCoreClock us ≤ s.cyclesAt n) := by
  have htick : 1 ≤ systemCoreClock.toNat / 1000000 := by omega
  have hnone : us = 0 ↔ delayCycles systemCoreClock us = 0 := by
    rw [delayCycles, Nat.mul_eq_zero, or_iff_left (by omega)]
    exact ⟨fun h => by rw [h]; rfl, fun h => BitVec.eq_of_toNat_eq h⟩
  have hreload := reload.isLt
  rw [delayed_iff s hstart, hnone]
  generalize delayCycles systemCoreClock us = cycles
  -- the product fits 32 bits, or is cut to them
  obtain hlt | hge := Nat.lt_or_ge cycles (2 ^ 32)
  · rw [Nat.mod_eq_of_lt hlt]
    constructor
    · rintro ⟨hle, hsome, hlate⟩
      by_cases hzero : cycles = 0
      · exact .inl hzero
      · refine .inr (.inl ⟨hle, ?_, hsome⟩)
        -- with no cycle before the first reading, that one is enough already
        by_contra hfirst
        have hlate := hlate 1 (Nat.le_refl 1)
        rw [Nat.eq_zero_of_not_pos hfirst, Nat.zero_mod] at hlate
        have := hlate (.inl rfl)
        omega
    · rintro (rfl | ⟨hle, hfirst, hsome⟩ | ⟨hge, -⟩)
      · have hall (elapsed : Nat) : Enough start 0 elapsed := by
          rw [Enough]
          omega
        exact ⟨Nat.zero_le _, ⟨1, Nat.le_refl 1, hall _⟩, fun _ _ _ => Nat.zero_le _⟩
      · exact ⟨hle, hsome, fun n hn henough => late_of_enough s hle hfirst hn henough⟩
      · omega
  · constructor
    · exact fun h => .inr (.inr ⟨hge, h⟩)
    · rintro (rfl | ⟨hle, -⟩ | ⟨-, h⟩)
      · omega
      · omega
      · exact h

end Delay

/-! ## With the counter that the board sets up -/

/-- A tick is a thousandth of a second. -/
theorem toNat_rtHwSystickInit {systemCoreClock : BitVec 32}
    (hclock : 1000000 ≤ systemCoreClock.toNat) (reload : BitVec 32) :
    (rtHwSystickInit systemCoreClock reload).toNat + 1 = systemCoreClock.toNat / 1000 := by
  have hlt := systemCoreClock.isLt
  obtain ⟨ticks, hticks⟩ : ∃ ticks, ticks = systemCoreClock / BitVec.ofNat 32 rtTickPerSecond :=
    ⟨_, rfl⟩
  have htick : ticks.toNat = systemCoreClock.toNat / 1000 := by
    rw [hticks]
    exact BitVec.toNat_udiv
  have hone : (1 : BitVec 32).toNat = 1 := rfl
  have hle : (1 : BitVec 32) ≤ ticks := by
    rw [BitVec.le_def]
    omega
  have hload : (ticks - 1).toNat = systemCoreClock.toNat / 1000 - 1 := by
    rw [BitVec.toNat_sub_of_le hle]
    omega
  have hmask : sysTickLoadReloadMsk.toNat = 16777215 := rfl
  rw [rtHwSystickInit, ← hticks, halSystickConfig, if_neg]
  · omega
  · rw [BitVec.lt_def]
    omega

section Board

variable {systemCoreClock reload us : BitVec 32} {start : Nat}

/-- The delay holds exactly where none is asked for; where it is less than a tick, the first value
    is not that of the start and one of the values is read where the loop takes the time for enough;
    and where, with a product that has wrapped, none of the values read too early is read there. -/
theorem rt_hw_us_delay_exact (hclock : 1000000 ≤ systemCoreClock.toNat)
    (hstart : start < systemCoreClock.toNat / 1000)
    (s : Schedule (rtHwSystickInit systemCoreClock reload).toNat) :
    Delayed systemCoreClock (rtHwSystickInit systemCoreClock reload) us start s ↔
      us = 0 ∨
        (delayCycles systemCoreClock us < systemCoreClock.toNat / 1000 ∧ 0 < s.cyclesAt 1 ∧
          ∃ n, 1 ≤ n ∧ Enough start (delayCycles systemCoreClock us)
            (s.cyclesAt n % (systemCoreClock.toNat / 1000))) ∨
        (2 ^ 32 ≤ delayCycles systemCoreClock us ∧
          delayCycles systemCoreClock us % 2 ^ 32 < systemCoreClock.toNat / 1000 ∧
          (∃ n, 1 ≤ n ∧ Enough start (delayCycles systemCoreClock us % 2 ^ 32)
            (s.cyclesAt n % (systemCoreClock.toNat / 1000))) ∧
          ∀ n, 1 ≤ n → Enough start (delayCycles systemCoreClock us % 2 ^ 32)
            (s.cyclesAt n % (systemCoreClock.toNat / 1000)) →
              delayCycles systemCoreClock us ≤ s.cyclesAt n) := by
  have hperiod := toNat_rtHwSystickInit hclock reload
  have hle (cycles : Nat) : cycles ≤ (rtHwSystickInit systemCoreClock reload).toNat ↔
      cycles < systemCoreClock.toNat / 1000 := by omega
  rw [delayed_iff_cases s hclock (by omega), hperiod, hle, hle]

/-- A loop that polls often enough, the first time after a cycle, delays for less than a tick. -/
theorem delayed_of_polled (hclock : 1000000 ≤ systemCoreClock.toNat)
    (hstart : start < systemCoreClock.toNat / 1000)
    (s : Schedule (rtHwSystickInit systemCoreClock reload).toNat)
    (hless : delayCycles systemCoreClock us < systemCoreClock.toNat / 1000)
    (hfirst : 0 < s.cyclesAt 1) (hpoll : ∀ i, s.cyclesAt (i + 1) ≤
      s.cyclesAt i + (systemCoreClock.toNat / 1000 - delayCycles systemCoreClock us)) :
    Delayed systemCoreClock (rtHwSystickInit systemCoreClock reload) us start s := by
  have hperiod := toNat_rtHwSystickInit hclock reload
  obtain ⟨n, hn, hlow, hhigh⟩ := s.hits hpoll (Nat.succ_pos (delayCycles systemCoreClock us))
  rw [delayed_iff_cases s hclock (by omega)]
  refine .inr (.inl ⟨by omega, hfirst, n, hn, ?_⟩)
  have hle : s.cyclesAt n ≤ systemCoreClock.toNat / 1000 := by omega
  rw [hperiod, Enough]
  obtain heq | hlt := Nat.eq_or_lt_of_le hle
  · left
    rw [heq, Nat.mod_self]
  · right
    rw [Nat.mod_eq_of_lt (by omega)]
    omega

/-- Whenever the counter is read, only no delay at all holds. -/
theorem delayed_every (hclock : 1000000 ≤ systemCoreClock.toNat)
    (hstart : start < systemCoreClock.toNat / 1000) :
    (∀ s, Delayed systemCoreClock (rtHwSystickInit systemCoreClock reload) us start s) ↔
      us = 0 := by
  have hperiod := toNat_rtHwSystickInit hclock reload
  have hload : 0 < (rtHwSystickInit systemCoreClock reload).toNat := by omega
  constructor
  · intro hall
    obtain ⟨-, -, hlate⟩ := (delayed_iff (atOnce hload) (by omega)).mp (hall (atOnce hload))
    have hnone : delayCycles systemCoreClock us ≤ 0 := hlate 1 (Nat.le_refl 1) (.inl rfl)
    rw [delayCycles, Nat.le_zero, Nat.mul_eq_zero] at hnone
    exact BitVec.eq_of_toNat_eq (hnone.resolve_right (by omega))
  · exact fun hnone s => (delayed_iff_cases s hclock (by omega)).mpr (.inl hnone)

/-- A delay of 10 us at 80 MHz, polled in each cycle. -/
theorem rt_hw_us_delay_ten :
    ∃ s : Schedule (rtHwSystickInit 80000000 0).toNat,
      Delayed 80000000 (rtHwSystickInit 80000000 0) 10 40000 s := by
  have hload : 0 < (rtHwSystickInit 80000000 0).toNat := by decide
  refine ⟨everyCycle hload, (rt_hw_us_delay_exact (by decide) (by decide) _).mpr
    (.inr (.inl ⟨by decide, Nat.one_pos, 800, by decide, .inr ?_⟩))⟩
  show 800 ≤ 800 % 80000 ∧ (800 % 80000 ≤ 40000 ∨ 800 < 800 % 80000)
  decide

/-- 1 us at 80 MHz is over at once where the counter is read twice in a cycle, and 1001 us are never
    over. -/
theorem rt_hw_us_delay_early :
    (∃ s : Schedule (rtHwSystickInit 80000000 0).toNat,
      rtHwUsDelay 80000000 (rtHwSystickInit 80000000 0) 1 (readings 40000 s) 1 = some 1 ∧
        s.cyclesAt 1 = 0 ∧ ¬ Delayed 80000000 (rtHwSystickInit 80000000 0) 1 40000 s) ∧
      ∃ s : Schedule (rtHwSystickInit 80000000 0).toNat,
        ¬ Delayed 80000000 (rtHwSystickInit 80000000 0) 1001 40000 s := by
  have hload : 0 < (rtHwSystickInit 80000000 0).toNat := by decide
  have hstart : 40000 ≤ (rtHwSystickInit 80000000 0).toNat := by decide
  refine ⟨⟨atOnce hload, ?_, rfl, fun h => ?_⟩, everyCycle hload, fun h => ?_⟩
  · have hnow : readings 40000 (atOnce hload) 1 = 40000 := rfl
    have hfirst : readings 40000 (atOnce hload) 0 = 40000 := rfl
    rw [rtHwUsDelay, usDelayLoop, hnow, hfirst, if_neg (by decide)]
  · obtain ⟨-, -, hlate⟩ := (delayed_iff _ hstart).mp h
    have hlate : 80 ≤ 0 := hlate 1 (Nat.le_refl 1) (.inl rfl)
    omega
  · exact absurd ((delayed_iff _ hstart).mp h).1 (by decide)

end Board

end PandoraRobot.Drivers
