import Mathlib.Tactic.Ring

/-! # Pulse width modulation

`drv_pwm_set` and `drv_pwm_get` of `drv_pwm.c`, and `_pwm_write` of `rt_drv_pwm.c`.

The timer counts up from 0 to ARR, and in PWM mode 1 its output is active while the counter is
below CCR.  Periods and pulses are in nanoseconds, the clock of the timer is in Hz.
-/

namespace PandoraRobot.Drivers

/-! ## The code -/

namespace Pwm

def maxPeriod : BitVec 32 := 65535
def minPeriod : BitVec 32 := 3
def minPulse : BitVec 32 := 2

end Pwm

/-- `struct rt_pwm_configuration`. -/
structure RtPwmConfiguration where
  channel : BitVec 32
  period : BitVec 32
  pulse : BitVec 32
  deriving DecidableEq, Repr

inductive TimClockDivision where
  | div1
  | div2
  | div4
  deriving DecidableEq, Repr

/-- The registers of a timer; each channel has its own CCR. -/
structure TimHandle where
  psc : BitVec 32
  arr : BitVec 32
  ccr : BitVec 32 → BitVec 32
  cnt : BitVec 32
  clockDivision : TimClockDivision

/-- The channel number of the HAL library. -/
def halChannel (channel : BitVec 32) : BitVec 32 := 0x04 * (channel - 1)

/-- `drv_pwm_set`, where `timClock` is what the HAL says of the clock. -/
def drvPwmSet (timClock : BitVec 64) (configuration : RtPwmConfiguration) (htim : TimHandle) :
    TimHandle :=
  let channel := halChannel configuration.channel
  let timClock := timClock / 1000000
  let period : BitVec 32 := (configuration.period.setWidth 64 * timClock / 1000).setWidth 32
  let psc : BitVec 64 := (period / Pwm.maxPeriod + 1).setWidth 64
  let period : BitVec 32 := (period.setWidth 64 / psc).setWidth 32
  let period := if period < Pwm.minPeriod then Pwm.minPeriod else period
  let pulse : BitVec 32 := (configuration.pulse.setWidth 64 * timClock / psc / 1000).setWidth 32
  let pulse :=
    if pulse < Pwm.minPulse then Pwm.minPulse else if period < pulse then period else pulse
  { htim with
    psc := (psc - 1).setWidth 32
    arr := period - 1
    ccr := fun ch => if ch = channel then pulse - 1 else htim.ccr ch
    cnt := 0 }

/-- The clock by which `drv_pwm_get` divides, in MHz. -/
def getClock (timClock : BitVec 64) (htim : TimHandle) : BitVec 64 :=
  match htim.clockDivision with
  | .div1 => timClock / 1000000
  | .div2 => timClock / 2 / 1000000
  | .div4 => timClock / 4 / 1000000

/-- `drv_pwm_get`.  The products have 32 bits. -/
def drvPwmGet (timClock : BitVec 64) (channel : BitVec 32) (htim : TimHandle) :
    RtPwmConfiguration :=
  let timClock := getClock timClock htim
  let period := (htim.arr + 1) * (htim.psc + 1) * 1000
  let pulse := (htim.ccr (halChannel channel) + 1) * (htim.psc + 1) * 1000
  ⟨channel, (period.setWidth 64 / timClock).setWidth 32, (pulse.setWidth 64 / timClock).setWidth 32⟩

/-- `_pwm_write`. -/
def pwmWrite (timClock : BitVec 64) (channel pulse : BitVec 32) (htim : TimHandle) : TimHandle :=
  drvPwmSet timClock { drvPwmGet timClock channel htim with pulse } htim

/-! ## What is programmed, in numbers -/

namespace Pwm

/-- A clock of `clk` MHz. -/
def mhz (clk : Nat) : BitVec 64 := BitVec.ofNat 64 (clk * 1000000)

/-- The prescaler for a period: PSC + 1 clock cycles make one count. -/
def prescale (clk period : Nat) : Nat := period * clk / 1000 / 65535 + 1

/-- The whole counts of a time of `ns` nanoseconds. -/
def counts (clk psc ns : Nat) : Nat := ns * clk / 1000 / psc

variable {clk : Nat} {conf : RtPwmConfiguration} {htim : TimHandle}

theorem toNat_mhz (hclk : clk ≤ 170) : (mhz clk / 1000000).toNat = clk := by
  have hmhz : (mhz clk).toNat = clk * 1000000 := by
    rw [mhz, BitVec.toNat_ofNat, Nat.mod_eq_of_lt (by omega)]
  rw [BitVec.toNat_udiv, hmhz]
  exact Nat.mul_div_cancel clk (by decide)

theorem mul_clk_lt (x : BitVec 32) (hclk : clk ≤ 170) : x.toNat * clk < 2 ^ 40 := by
  have hx := x.isLt
  calc x.toNat * clk ≤ x.toNat * 170 := Nat.mul_le_mul_left _ hclk
    _ < 2 ^ 40 := by omega

theorem counts_lt (x : BitVec 32) (psc : Nat) (hclk : clk ≤ 170) :
    counts clk psc x.toNat < 2 ^ 31 := by
  have hx := mul_clk_lt x hclk
  calc x.toNat * clk / 1000 / psc ≤ x.toNat * clk / 1000 := Nat.div_le_self _ _
    _ < 2 ^ 31 := by omega

/-- The counts of the period fit ARR. -/
theorem counts_prescale_lt (clk period : Nat) : counts clk (prescale clk period) period < 65535 := by
  have hpos : 0 < prescale clk period := Nat.succ_pos _
  rw [counts, Nat.div_lt_iff_lt_mul hpos]
  exact Nat.lt_mul_div_succ _ (by decide)

theorem prescale_lt (period : BitVec 32) (hclk : clk ≤ 170) :
    prescale clk period.toNat < 2 ^ 16 := by
  have hx := period.isLt
  have hle : period.toNat * clk ≤ period.toNat * 170 := Nat.mul_le_mul_left _ hclk
  rw [prescale]
  omega

/-- The product of a time and the clock, with 64 bits. -/
theorem toNat_mul_clock (x : BitVec 32) (hclk : clk ≤ 170) :
    (x.setWidth 64 * (mhz clk / 1000000)).toNat = x.toNat * clk := by
  have hx := mul_clk_lt x hclk
  rw [BitVec.toNat_mul, toNat_mhz hclk, BitVec.toNat_setWidth_of_le (by decide),
    Nat.mod_eq_of_lt (by omega)]

theorem drvPwmSet_clockDivision (timClock : BitVec 64) (conf : RtPwmConfiguration)
    (htim : TimHandle) : (drvPwmSet timClock conf htim).clockDivision = htim.clockDivision := by
  unfold drvPwmSet
  rfl

/-- The registers after `drv_pwm_set`. -/
theorem drvPwmSet_spec (conf : RtPwmConfiguration) (htim : TimHandle) (hclk : clk ≤ 170) :
    let psc := prescale clk conf.period.toNat
    let period := max 3 (counts clk psc conf.period.toNat)
    let after := drvPwmSet (mhz clk) conf htim
    after.psc.toNat + 1 = psc ∧ after.arr.toNat + 1 = period ∧
      (after.ccr (halChannel conf.channel)).toNat + 1 =
        min (max 2 (counts clk psc conf.pulse.toNat)) period := by
  intro psc period after
  have hproduct := toNat_mul_clock conf.period hclk
  have hproduct' := toNat_mul_clock conf.pulse hclk
  have hlt := mul_clk_lt conf.period hclk
  have hlt' := mul_clk_lt conf.pulse hclk
  have hpsc := prescale_lt conf.period hclk
  -- each intermediate value of the code
  obtain ⟨q, hq⟩ : ∃ q : BitVec 32,
      q = (conf.period.setWidth 64 * (mhz clk / 1000000) / 1000).setWidth 32 := ⟨_, rfl⟩
  have hthousand : (1000 : BitVec 64).toNat = 1000 := rfl
  have hq_nat : q.toNat = conf.period.toNat * clk / 1000 := by
    rw [hq, BitVec.toNat_setWidth, BitVec.toNat_udiv, hproduct, hthousand]
    exact Nat.mod_eq_of_lt (by omega)
  obtain ⟨d, hd⟩ : ∃ d : BitVec 64, d = (q / Pwm.maxPeriod + 1).setWidth 64 := ⟨_, rfl⟩
  have hd_nat : d.toNat = psc := by
    have hdiv : (q / Pwm.maxPeriod).toNat = q.toNat / 65535 := BitVec.toNat_udiv
    have hsum : (q / Pwm.maxPeriod + 1).toNat = psc := by
      rw [BitVec.toNat_add, hdiv, hq_nat, show (1 : BitVec 32).toNat = 1 from rfl]
      exact Nat.mod_eq_of_lt (by omega)
    rw [hd, BitVec.toNat_setWidth_of_le (by decide), hsum]
  obtain ⟨p, hp⟩ : ∃ p : BitVec 32, p = (q.setWidth 64 / d).setWidth 32 := ⟨_, rfl⟩
  have hp_nat : p.toNat = counts clk psc conf.period.toNat := by
    have hfits := counts_lt conf.period psc hclk
    rw [hp, BitVec.toNat_setWidth, BitVec.toNat_udiv, BitVec.toNat_setWidth_of_le (by decide),
      hd_nat, hq_nat]
    exact Nat.mod_eq_of_lt (by rw [counts] at hfits; omega)
  obtain ⟨u, hu⟩ : ∃ u : BitVec 32,
      u = (conf.pulse.setWidth 64 * (mhz clk / 1000000) / d / 1000).setWidth 32 := ⟨_, rfl⟩
  have hu_nat : u.toNat = counts clk psc conf.pulse.toNat := by
    have hfits := counts_lt conf.pulse psc hclk
    have hcomm : conf.pulse.toNat * clk / psc / 1000 = counts clk psc conf.pulse.toNat :=
      Nat.div_right_comm ..
    rw [hu, BitVec.toNat_setWidth, BitVec.toNat_udiv, BitVec.toNat_udiv, hproduct', hd_nat,
      hthousand, hcomm]
    exact Nat.mod_eq_of_lt (by omega)
  -- the clamps
  have hmin : (Pwm.minPeriod).toNat = 3 := rfl
  have hmin' : (Pwm.minPulse).toNat = 2 := rfl
  have hp_lt := p.isLt
  obtain ⟨v, hv⟩ : ∃ v, v = if p < Pwm.minPeriod then Pwm.minPeriod else p := ⟨_, rfl⟩
  have hv_nat : v.toNat = period := by
    rw [hv]
    split
    case isTrue hless =>
      rw [BitVec.lt_def] at hless
      omega
    case isFalse hless =>
      rw [BitVec.lt_def] at hless
      omega
  obtain ⟨w, hw⟩ : ∃ w, w = if u < Pwm.minPulse then Pwm.minPulse else if v < u then v else u :=
    ⟨_, rfl⟩
  have hw_nat : w.toNat = min (max 2 (counts clk psc conf.pulse.toNat)) period := by
    rw [hw]
    split
    case isTrue hless =>
      rw [BitVec.lt_def] at hless
      omega
    case isFalse hless =>
      rw [BitVec.lt_def] at hless
      split
      case isTrue hmore =>
        rw [BitVec.lt_def] at hmore
        omega
      case isFalse hmore =>
        rw [BitVec.lt_def] at hmore
        omega
  have hafter : after = { htim with
      psc := (d - 1).setWidth 32
      arr := v - 1
      ccr := fun ch => if ch = halChannel conf.channel then w - 1 else htim.ccr ch
      cnt := 0 } := by
    rw [hw, hv, hu, hp, hd, hq]
    rfl
  have hpsc_pos : 1 ≤ psc := Nat.succ_pos _
  refine ⟨?_, ?_, ?_⟩
  · rw [hafter, BitVec.toNat_setWidth]
    have hone : (d - 1).toNat + 1 = psc := by bv_omega
    rw [Nat.mod_eq_of_lt (by omega), hone]
  · rw [hafter]
    show (v - 1).toNat + 1 = period
    bv_omega
  · rw [hafter]
    simp only [if_true]
    bv_omega

/-- The length of one count, in thousandths of a clock cycle. -/
def countLength (htim : TimHandle) : Nat := (htim.psc.toNat + 1) * 1000

theorem counts_le (clk psc ns : Nat) : counts clk psc ns * (psc * 1000) ≤ ns * clk := by
  rw [counts, Nat.div_div_eq_div_mul, Nat.mul_comm 1000]
  exact Nat.div_mul_le_self _ _

theorem lt_counts (clk : Nat) {psc : Nat} (hpsc : 0 < psc) (ns : Nat) :
    ns * clk < counts clk psc ns * (psc * 1000) + psc * 1000 := by
  have hpos : 0 < psc * 1000 := by omega
  rw [counts, Nat.div_div_eq_div_mul, Nat.mul_comm 1000, ← Nat.succ_mul, Nat.mul_comm _ (psc * 1000)]
  exact Nat.lt_mul_div_succ _ hpos

/-! ## How accurate `drv_pwm_set` is -/

/-- In PWM mode 1, the output is active while the counter is below CCR. -/
def outputActive (channel : BitVec 32) (htim : TimHandle) (cnt : Nat) : Prop :=
  cnt < (htim.ccr (halChannel channel)).toNat

/-- The two are at most `d` apart. -/
def Near (a b d : Nat) : Prop := a ≤ b + d ∧ b ≤ a + d

/-- The whole counts of a time, less one, are within a count of it where nothing is cut off. -/
theorem near_counts {c k time : Nat} (hle : k * c ≤ time) (hlt : time < k * c + c) :
    Near ((max 2 k - 1) * c) time c ↔ time < 2 * c ∨ c ∣ time := by
  rw [Near]
  match k with
  | 0 => simp; omega
  | 1 => simp; omega
  | k + 2 =>
    have hk : (k + 2) * c = k * c + 2 * c := by ring
    have hk' : (max 2 (k + 2) - 1) * c = k * c + c := by
      rw [Nat.max_eq_right (by omega), show k + 2 - 1 = k + 1 by omega, Nat.succ_mul]
    rw [hk] at hle hlt
    rw [hk']
    constructor
    · rintro ⟨-, hnear⟩
      exact .inr ⟨k + 2, by rw [Nat.mul_comm, hk]; omega⟩
    · rintro (hless | ⟨j, rfl⟩)
      · omega
      · -- a multiple that is less than one `c` away
        have hj : j = k + 2 := by
          have hlow : (k + 2) * c ≤ j * c := by rw [hk, Nat.mul_comm j]; exact hle
          have hhigh : j * c < (k + 3) * c := by
            rw [Nat.mul_comm j, show (k + 3) * c = k * c + 2 * c + c by ring]
            exact hlt
          have := Nat.lt_of_mul_lt_mul_right hhigh
          have := Nat.le_of_mul_le_mul_right hlow (by omega)
          omega
        subst hj
        rw [Nat.mul_comm c, hk]
        omega

/-- The registers fit, the period and the active time are within a count of those asked for, and
    a pulse of 0 is never active.  Times are in thousandths of a clock cycle. -/
structure SetAccurately (clk : Nat) (conf : RtPwmConfiguration) (after : TimHandle) : Prop where
  fits : after.psc.toNat < 2 ^ 16 ∧ after.arr.toNat < 2 ^ 16 ∧
    (after.ccr (halChannel conf.channel)).toNat ≤ after.arr.toNat + 1
  period : minPeriod.toNat * countLength after ≤ conf.period.toNat * clk →
    Near ((after.arr.toNat + 1) * countLength after) (conf.period.toNat * clk) (countLength after)
  active : minPeriod.toNat * countLength after ≤ conf.period.toNat * clk →
    Near ((after.ccr (halChannel conf.channel)).toNat * countLength after)
      (conf.pulse.toNat * clk) (countLength after)
  zero : conf.pulse = 0 → ∀ cnt ≤ after.arr.toNat, ¬ outputActive conf.channel after cnt

/-- CCR is one less than the counts of the pulse, and at least 1. -/
theorem drv_pwm_set_accurate (hclk : clk ≤ 170) (hpulse : conf.pulse ≤ conf.period) :
    SetAccurately clk conf (drvPwmSet (mhz clk) conf htim) ↔
      conf.pulse ≠ 0 ∧
        (conf.period.toNat * clk < 3 * (prescale clk conf.period.toNat * 1000) ∨
          conf.pulse.toNat * clk < 2 * (prescale clk conf.period.toNat * 1000) ∨
          prescale clk conf.period.toNat * 1000 ∣ conf.pulse.toNat * clk) := by
  obtain ⟨hpsc, harr, hccr⟩ := drvPwmSet_spec conf htim hclk
  generalize drvPwmSet (mhz clk) conf htim = after at hpsc harr hccr ⊢
  have hpsc_lt := prescale_lt conf.period hclk
  have hk_lt := counts_prescale_lt clk conf.period.toNat
  have hpsc_pos : 0 < prescale clk conf.period.toNat := Nat.succ_pos _
  generalize prescale clk conf.period.toNat = psc at *
  have hlength : countLength after = psc * 1000 := by rw [countLength, hpsc]
  -- how far the divisions fall short
  have hx := counts_le clk psc conf.period.toNat
  have hx' := lt_counts clk hpsc_pos conf.period.toNat
  have hy := counts_le clk psc conf.pulse.toNat
  have hy' := lt_counts clk hpsc_pos conf.pulse.toNat
  have hle : conf.pulse.toNat * clk ≤ conf.period.toNat * clk :=
    Nat.mul_le_mul_right _ (BitVec.le_def.mp hpulse)
  have hcounts : counts clk psc conf.pulse.toNat ≤ counts clk psc conf.period.toNat :=
    Nat.div_le_div_right (Nat.div_le_div_right hle)
  generalize counts clk psc conf.period.toNat = k at *
  generalize counts clk psc conf.pulse.toNat = p at *
  have hmin : minPeriod.toNat = 3 := rfl
  have hfits : after.psc.toNat < 2 ^ 16 ∧ after.arr.toNat < 2 ^ 16 ∧
      (after.ccr (halChannel conf.channel)).toNat ≤ after.arr.toNat + 1 := by
    omega
  by_cases hlong : 3 * (psc * 1000) ≤ conf.period.toNat * clk
  · -- the period is not clamped, nor is the pulse from above
    have hk : 3 ≤ k := by
      by_contra hless
      have : k * (psc * 1000) ≤ 2 * (psc * 1000) := Nat.mul_le_mul_right _ (by omega)
      omega
    have harr' : after.arr.toNat + 1 = k := by omega
    have hccr' : (after.ccr (halChannel conf.channel)).toNat = max 2 p - 1 := by omega
    have hnear := near_counts hy hy'
    have hperiod : Near (k * (psc * 1000)) (conf.period.toNat * clk) (psc * 1000) :=
      ⟨by omega, by omega⟩
    constructor
    · intro hset
      have hactive := hset.active (by rw [hlength, hmin]; exact hlong)
      rw [hlength, hccr', hnear] at hactive
      refine ⟨fun hzero => ?_, .inr hactive⟩
      exact hset.zero hzero 0 (Nat.zero_le _) (by rw [outputActive]; omega)
    · rintro ⟨hzero, hcases⟩
      refine ⟨hfits, fun _ => ?_, fun _ => ?_, fun heq => absurd heq hzero⟩
      · rwa [hlength, harr']
      · rw [hlength, hccr', hnear]
        omega
  -- the period is clamped, and nothing is asked of the counts of the pulse
  · constructor
    · intro hset
      refine ⟨fun hzero => ?_, .inl (by omega)⟩
      exact hset.zero hzero 0 (Nat.zero_le _) (by rw [outputActive]; omega)
    · rintro ⟨hzero, -⟩
      refine ⟨hfits, fun h => ?_, fun h => ?_, fun heq => absurd heq hzero⟩
      · rw [hlength, hmin] at h
        exact absurd h hlong
      · rw [hlength, hmin] at h
        exact absurd h hlong

/-- A timer of which nothing is known. -/
def reset : TimHandle := ⟨0, 0, fun _ => 0, 0, .div1⟩

/-- At 80 MHz, half of a period of 50 microseconds. -/
theorem drv_pwm_set_accurate_half :
    SetAccurately 80 ⟨3, 50000, 25000⟩ (drvPwmSet (mhz 80) ⟨3, 50000, 25000⟩ reset) :=
  (drv_pwm_set_accurate (by decide) (by decide)).mpr ⟨by decide, .inr (.inr (by decide))⟩

/-- At 80 MHz, a pulse of 0 is active for a count, and one of 25 microseconds and a bit is almost
    two counts short. -/
theorem drv_pwm_set_off :
    (∃ cnt ≤ (drvPwmSet (mhz 80) ⟨3, 1000000, 0⟩ reset).arr.toNat,
        outputActive 3 (drvPwmSet (mhz 80) ⟨3, 1000000, 0⟩ reset) cnt) ∧
      ¬ SetAccurately 80 ⟨3, 1000000, 0⟩ (drvPwmSet (mhz 80) ⟨3, 1000000, 0⟩ reset) ∧
      ¬ SetAccurately 80 ⟨3, 1000000, 25012⟩
        (drvPwmSet (mhz 80) ⟨3, 1000000, 25012⟩ reset) := by
  refine ⟨⟨0, Nat.zero_le _, by unfold outputActive; decide⟩, fun hset => ?_, fun hset => ?_⟩
  · exact hset.zero rfl 0 (Nat.zero_le _) (by unfold outputActive; decide)
  · exact absurd (hset.active (by decide)).2 (by decide)

/-! ## Reading back -/

/-- The clock cycles of a period. -/
def cycles (htim : TimHandle) : Nat := (htim.arr.toNat + 1) * (htim.psc.toNat + 1)

/-- The nanoseconds that `drv_pwm_get` computes of clock cycles. -/
def nanoseconds (clk cycles : Nat) : Nat := cycles * 1000 % 2 ^ 32 / clk

theorem nanoseconds_lt (clk cycles : Nat) : nanoseconds clk cycles < 2 ^ 32 :=
  Nat.lt_of_le_of_lt (Nat.div_le_self _ _) (Nat.mod_lt _ (by decide))

theorem toNat_cycles (a b : BitVec 32) :
    ((a + 1) * (b + 1) * 1000).toNat = (a.toNat + 1) * (b.toNat + 1) * 1000 % 2 ^ 32 := by
  simp only [BitVec.toNat_mul, BitVec.toNat_add, Nat.mod_mul_mod, Nat.mul_mod_mod]
  rfl

theorem drvPwmGet_spec (hclk : clk ≤ 170) (hdiv : htim.clockDivision = .div1)
    (channel : BitVec 32) :
    (drvPwmGet (mhz clk) channel htim).period.toNat = nanoseconds clk (cycles htim) ∧
      (drvPwmGet (mhz clk) channel htim).pulse.toNat = nanoseconds clk
        (((htim.ccr (halChannel channel)).toNat + 1) * (htim.psc.toNat + 1)) := by
  have hread (a b : BitVec 32) :
      ((((a + 1) * (b + 1) * 1000).setWidth 64 / getClock (mhz clk) htim).setWidth 32).toNat =
        nanoseconds clk ((a.toNat + 1) * (b.toNat + 1)) := by
    have hlt := nanoseconds_lt clk ((a.toNat + 1) * (b.toNat + 1))
    rw [getClock, hdiv, BitVec.toNat_setWidth, BitVec.toNat_udiv, toNat_mhz hclk,
      BitVec.toNat_setWidth_of_le (by decide), toNat_cycles]
    exact Nat.mod_eq_of_lt hlt
  exact ⟨hread _ _, hread _ _⟩

/-- Without a wrap, the nanoseconds are those of the cycles but for what the division cuts off. -/
theorem nanoseconds_mul (clk : Nat) {cycles : Nat} (hfits : cycles * 1000 < 2 ^ 32) :
    nanoseconds clk cycles * clk + cycles * 1000 % clk = cycles * 1000 := by
  rw [nanoseconds, Nat.mod_eq_of_lt hfits]
  exact Nat.div_add_mod' _ _

/-- A time that is read back is within a count exactly where the product has not wrapped, and the
    two divisions together cut off no more than a count. -/
theorem near_nanoseconds (clk ns : Nat) {psc : Nat} (hpsc : 0 < psc) (hpsc_lt : psc < 2 ^ 16) :
    Near (nanoseconds clk (counts clk psc ns * psc) * clk) (ns * clk) (psc * 1000) ↔
      counts clk psc ns * psc * 1000 < 2 ^ 32 ∧
        ns * clk % (psc * 1000) + counts clk psc ns * psc * 1000 % clk ≤ psc * 1000 := by
  have hle := counts_le clk psc ns
  have hlt := lt_counts clk hpsc ns
  have hrest : ns * clk % (psc * 1000) + counts clk psc ns * (psc * 1000) = ns * clk := by
    have hdiv : counts clk psc ns = ns * clk / (psc * 1000) := by
      rw [counts, Nat.div_div_eq_div_mul, Nat.mul_comm 1000]
    rw [hdiv]
    exact Nat.mod_add_div' _ _
  rw [← Nat.mul_assoc] at hle hlt hrest
  generalize counts clk psc ns * psc = n at *
  by_cases hfits : n * 1000 < 2 ^ 32
  · have hback := nanoseconds_mul clk hfits
    rw [Near]
    omega
  · have hwrap : nanoseconds clk n * clk ≤ n * 1000 % 2 ^ 32 := Nat.div_mul_le_self _ _
    rw [Near]
    omega

/-! ## Writing again -/

/-- The clock cycles of a period that is set again as it is read back. -/
def cyclesAgain (clk cycles : Nat) : Nat :=
  let ns := nanoseconds clk cycles
  max 3 (counts clk (prescale clk ns) ns) * prescale clk ns

theorem cycles_pwmWrite (hclk : clk ≤ 170) (hdiv : htim.clockDivision = .div1)
    (channel pulse : BitVec 32) :
    cycles (pwmWrite (mhz clk) channel pulse htim) = cyclesAgain clk (cycles htim) ∧
      (pwmWrite (mhz clk) channel pulse htim).clockDivision = .div1 := by
  obtain ⟨hperiod, -⟩ := drvPwmGet_spec hclk hdiv channel
  obtain ⟨hpsc, harr, -⟩ := drvPwmSet_spec { drvPwmGet (mhz clk) channel htim with pulse }
    htim hclk
  simp only [hperiod] at hpsc harr
  refine ⟨?_, ?_⟩
  · rw [pwmWrite, cycles, harr, hpsc, cyclesAgain]
  · rw [pwmWrite, drvPwmSet_clockDivision, hdiv]

/-- Three counts of a period or more are not made less than three by the prescaler. -/
theorem three_le_counts {n : Nat} (hn : 3 ≤ n) : 3 ≤ n / (n / 65535 + 1) := by
  rw [Nat.le_div_iff_mul_le (Nat.succ_pos _)]
  omega

/-- Setting a period does not lengthen it, but for the least one. -/
theorem counts_mul_le (n : Nat) :
    max 3 (n / (n / 65535 + 1)) * (n / 65535 + 1) ≤ max 3 n := by
  by_cases hn : 3 ≤ n
  · rw [Nat.max_eq_right (three_le_counts hn), Nat.max_eq_right hn]
    exact Nat.div_mul_le_self _ _
  · have hone : n / 65535 + 1 = 1 := by omega
    rw [hone, Nat.div_one, Nat.mul_one]

/-- The period stays exactly where it is a whole number of nanoseconds, and of the counts that it
    is divided into. -/
theorem cyclesAgain_eq {cycles : Nat} (hclk : 1 ≤ clk) (hcycles : 3 ≤ cycles) :
    cyclesAgain clk cycles = cycles ↔ cycles * 1000 < 2 ^ 32 ∧
      (clk ∣ cycles * 1000 ∧ cycles / 65535 + 1 ∣ cycles ∨ cycles = 3) := by
  rw [cyclesAgain]
  simp only [counts, prescale]
  have hle := counts_mul_le (nanoseconds clk cycles * clk / 1000)
  by_cases hfits : cycles * 1000 < 2 ^ 32
  · have hback := nanoseconds_mul clk hfits
    have hmod := Nat.mod_lt (cycles * 1000) hclk
    by_cases hdvd : clk ∣ cycles * 1000
    · -- the period is set to the same number of cycles, save for the counts
      have hsame : nanoseconds clk cycles * clk / 1000 = cycles := by
        rw [Nat.dvd_iff_mod_eq_zero.mp hdvd, Nat.add_zero] at hback
        rw [hback, Nat.mul_div_cancel _ (by decide)]
      rw [hsame, Nat.max_eq_right (three_le_counts hcycles)]
      have hdiv : cycles / (cycles / 65535 + 1) * (cycles / 65535 + 1) = cycles ↔
          cycles / 65535 + 1 ∣ cycles :=
        ⟨fun h => ⟨_, by rw [Nat.mul_comm, h]⟩, Nat.div_mul_cancel⟩
      rw [hdiv]
      constructor
      · intro hcount
        exact ⟨hfits, .inl ⟨hdvd, hcount⟩⟩
      · rintro ⟨-, ⟨-, hcount⟩ | rfl⟩
        · exact hcount
        · decide
    · -- a cycle is lost
      have hless : nanoseconds clk cycles * clk / 1000 < cycles := by
        have hne : cycles * 1000 % clk ≠ 0 := fun heq => hdvd (Nat.dvd_of_mod_eq_zero heq)
        omega
      constructor
      · intro hsame
        rw [hsame] at hle
        exact ⟨hfits, .inr (by omega)⟩
      · rintro ⟨-, ⟨hdvd', -⟩ | rfl⟩
        · exact absurd hdvd' hdvd
        · have hone : nanoseconds clk 3 * clk / 1000 / 65535 + 1 = 1 := by omega
          rw [hone, Nat.div_one, Nat.mul_one]
          omega
  · -- the product wraps
    have hless : nanoseconds clk cycles * clk ≤ cycles * 1000 % 2 ^ 32 := Nat.div_mul_le_self _ _
    constructor
    · intro hsame
      rw [hsame] at hle
      omega
    · rintro ⟨hfits', -⟩
      exact absurd hfits' hfits

/-- Writes through the device, each of a channel and a pulse. -/
def pwmWrites (timClock : BitVec 64) (writes : List (BitVec 32 × BitVec 32)) (htim : TimHandle) :
    TimHandle :=
  writes.foldl (fun htim (channel, pulse) => pwmWrite timClock channel pulse htim) htim

theorem pwmWrites_cons (timClock : BitVec 64) (channel pulse : BitVec 32)
    (writes : List (BitVec 32 × BitVec 32)) (htim : TimHandle) :
    pwmWrites timClock ((channel, pulse) :: writes) htim =
      pwmWrites timClock writes (pwmWrite timClock channel pulse htim) := rfl

theorem cycles_pwmWrites (hclk : clk ≤ 170) (hagain : cyclesAgain clk (cycles htim) = cycles htim)
    (hdiv : htim.clockDivision = .div1) (writes : List (BitVec 32 × BitVec 32)) :
    cycles (pwmWrites (mhz clk) writes htim) = cycles htim := by
  induction writes generalizing htim with
  | nil => rfl
  | cons write writes ih =>
    obtain ⟨channel, pulse⟩ := write
    obtain ⟨hcycles, hdiv'⟩ := cycles_pwmWrite hclk hdiv channel pulse
    rw [hagain] at hcycles
    rw [pwmWrites_cons, ih (by rw [hcycles, hagain]) hdiv', hcycles]

/-- No clamp changes what is set. -/
structure Unclamped (clk : Nat) (conf : RtPwmConfiguration) : Prop where
  period : minPeriod.toNat ≤ counts clk (prescale clk conf.period.toNat) conf.period.toNat
  pulse_min : minPulse.toNat ≤ counts clk (prescale clk conf.period.toNat) conf.pulse.toNat
  pulse_max : counts clk (prescale clk conf.period.toNat) conf.pulse.toNat ≤
    counts clk (prescale clk conf.period.toNat) conf.period.toNat

/-- Both times are read back within a count, and no sequence of writes changes the period. -/
structure GetsBack (clk : Nat) (conf : RtPwmConfiguration) (after : TimHandle) : Prop where
  period : Near ((drvPwmGet (mhz clk) conf.channel after).period.toNat * clk)
    (conf.period.toNat * clk) (countLength after)
  pulse : Near ((drvPwmGet (mhz clk) conf.channel after).pulse.toNat * clk)
    (conf.pulse.toNat * clk) (countLength after)
  stays : ∀ writes, cycles (pwmWrites (mhz clk) writes after) = cycles after

/-- The clock cycles of a time that is divided into the counts of a period. -/
def roundedCycles (clk period ns : Nat) : Nat :=
  counts clk (prescale clk period) ns * prescale clk period

/-- The times are read back where the product fits 32 bits and the divisions do not add up to more
    than a count.  The period stays where it is a whole number of nanoseconds and of counts, or is
    the least one. -/
theorem drv_pwm_get_back (hclk₁ : 1 ≤ clk) (hclk : clk ≤ 170)
    (hdiv : htim.clockDivision = .div1) (hconf : Unclamped clk conf) :
    GetsBack clk conf (drvPwmSet (mhz clk) conf htim) ↔
      let psc := prescale clk conf.period.toNat
      let period := roundedCycles clk conf.period.toNat conf.period.toNat
      let pulse := roundedCycles clk conf.period.toNat conf.pulse.toNat
      period * 1000 < 2 ^ 32 ∧
        conf.period.toNat * clk % (psc * 1000) + period * 1000 % clk ≤ psc * 1000 ∧
        conf.pulse.toNat * clk % (psc * 1000) + pulse * 1000 % clk ≤ psc * 1000 ∧
        (clk ∣ period * 1000 ∧ period / 65535 + 1 ∣ period ∨ period = 3) := by
  obtain ⟨hpsc, harr, hccr⟩ := drvPwmSet_spec conf htim hclk
  have hdiv' : (drvPwmSet (mhz clk) conf htim).clockDivision = .div1 := by
    rw [drvPwmSet_clockDivision, hdiv]
  generalize drvPwmSet (mhz clk) conf htim = after at hpsc harr hccr hdiv' ⊢
  obtain ⟨hget_period, hget_pulse⟩ := drvPwmGet_spec hclk hdiv' conf.channel
  obtain ⟨hk, hmin, hmax⟩ := hconf
  have hmin_period : minPeriod.toNat = 3 := rfl
  have hmin_pulse : minPulse.toNat = 2 := rfl
  have hpsc_lt := prescale_lt conf.period hclk
  have hpsc_pos : 0 < prescale clk conf.period.toNat := Nat.succ_pos _
  -- what the registers hold, in the terms of the condition
  have hlength : countLength after = prescale clk conf.period.toNat * 1000 := by
    rw [countLength, hpsc]
  have hcycles : cycles after = roundedCycles clk conf.period.toNat conf.period.toNat := by
    rw [cycles, harr, hpsc, Nat.max_eq_right (by omega)]
    rfl
  have hpulse : ((after.ccr (halChannel conf.channel)).toNat + 1) * (after.psc.toNat + 1) =
      roundedCycles clk conf.period.toNat conf.pulse.toNat := by
    rw [hccr, hpsc, Nat.max_eq_right (by omega), Nat.max_eq_right (by omega),
      Nat.min_eq_left hmax]
    rfl
  have hthree : 3 ≤ cycles after := by
    rw [hcycles, roundedCycles]
    exact Nat.le_trans (by omega) (Nat.le_mul_of_pos_right _ hpsc_pos)
  have hle : roundedCycles clk conf.period.toNat conf.pulse.toNat ≤
      roundedCycles clk conf.period.toNat conf.period.toNat := Nat.mul_le_mul_right _ hmax
  -- a time is read back to within a count if its product fits and its remainders do
  have hnear := near_nanoseconds clk conf.period.toNat hpsc_pos hpsc_lt
  have hnear' := near_nanoseconds clk conf.pulse.toNat hpsc_pos hpsc_lt
  have hagain := cyclesAgain_eq hclk₁ hthree
  rw [hcycles] at hget_period hagain
  rw [hpulse] at hget_pulse
  dsimp only
  constructor
  · rintro ⟨hperiod, hpulse', hstays⟩
    rw [hget_period, hlength] at hperiod
    rw [hget_pulse, hlength] at hpulse'
    obtain ⟨hfits, hrest⟩ := hnear.mp hperiod
    obtain ⟨-, hrest'⟩ := hnear'.mp hpulse'
    -- one write of what was read suffices to see that the period moves
    have hwrite := hstays [(0, 0)]
    rw [pwmWrites, List.foldl_cons, List.foldl_nil, (cycles_pwmWrite hclk hdiv' 0 0).1, hcycles]
      at hwrite
    exact ⟨hfits, hrest, hrest', (hagain.mp hwrite).2⟩
  · rintro ⟨hfits, hrest, hrest', hkeeps⟩
    refine ⟨?_, ?_, fun writes => ?_⟩
    · rw [hget_period, hlength]
      exact hnear.mpr ⟨hfits, hrest⟩
    · rw [hget_pulse, hlength]
      exact hnear'.mpr ⟨Nat.lt_of_le_of_lt (Nat.mul_le_mul_right _ hle) hfits, hrest'⟩
    · refine cycles_pwmWrites hclk ?_ hdiv' writes
      rw [hcycles]
      exact hagain.mpr ⟨hfits, hkeeps⟩

/-- At 80 MHz, half of a period of 50 microseconds. -/
theorem drv_pwm_get_back_half :
    GetsBack 80 ⟨3, 50000, 25000⟩ (drvPwmSet (mhz 80) ⟨3, 50000, 25000⟩ reset) :=
  (drv_pwm_get_back (by decide) (by decide) rfl ⟨by decide, by decide, by decide⟩).mpr (by decide)

/-- At 80 MHz, a period of 100 milliseconds is read back as one of 46, and a write sets that. -/
theorem drv_pwm_get_wraps :
    Unclamped 80 ⟨3, 100000000, 50000000⟩ ∧
      (drvPwmGet (mhz 80) 3 (drvPwmSet (mhz 80) ⟨3, 100000000, 50000000⟩ reset)).period =
        46311908 ∧
      ¬ GetsBack 80 ⟨3, 100000000, 50000000⟩
        (drvPwmSet (mhz 80) ⟨3, 100000000, 50000000⟩ reset) := by
  refine ⟨⟨by decide, by decide, by decide⟩, by decide, fun hback => ?_⟩
  exact absurd (hback.stays [(3, 50000000)]) (by decide)

end Pwm

end PandoraRobot.Drivers
