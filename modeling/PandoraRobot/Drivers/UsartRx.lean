import Mathlib.Data.BitVec
import PandoraRobot.Lib.Trace

/-! # Receiving with DMA on an STM32 UART

The idle interrupt in `uart_isr` and `HAL_UART_RxCpltCallback` of `drv_usart.c`.  The DMA writes
round and round in the receive buffer, and raises an interrupt each time that it goes back to its
start.  Both handlers report how far it has come since the last of them ran.

A handler is one step: what it reads and changes is between `rt_hw_interrupt_disable` and
`rt_hw_interrupt_enable`.  While interrupts are disabled, the interrupt of a wrap waits.
-/

namespace PandoraRobot.Drivers

open PandoraRobot.Trace

/-! ## The code -/

/-- The receiving side of a UART, with a record of what happened. -/
structure UsartRx where
  /-- what `__HAL_DMA_GET_COUNTER` reads -/
  counter : BitVec 32
  /-- The interrupt of a wrap is pending. -/
  pending : Bool
  /-- `dma.last_index` -/
  lastIndex : BitVec 32
  /-- how many bytes the DMA has written -/
  written : Nat
  /-- the lengths that have been reported -/
  reported : List (BitVec 32)
  /-- how many bytes had been written at the position that was sampled last -/
  sampled : Nat
  deriving DecidableEq, Repr

/-- What happens at the UART. -/
inductive UsartEvent where
  /-- The DMA writes a byte. -/
  | byte
  /-- The idle interrupt is handled. -/
  | idle
  /-- The pending interrupt of a wrap is handled. -/
  | rxCplt
  deriving DecidableEq, Repr

namespace UsartRx

variable (bufsz : BitVec 16)

/-- `HAL_UART_Receive_DMA` has just been called. -/
def start : UsartRx := ⟨bufsz.setWidth 32, false, 0, 0, [], 0⟩

/-- A length is reported to `rt_hw_serial_isr`, unless it is 0. -/
def report (recvLen : BitVec 32) (s : UsartRx) : UsartRx :=
  if recvLen ≠ 0 then { s with reported := s.reported ++ [recvLen] } else s

/-- The circular DMA writes a byte, and loads its counter anew after the last one. -/
def dmaWrite (s : UsartRx) : UsartRx :=
  let s := { s with counter := s.counter - 1, written := s.written + 1 }
  if s.counter = 0 then { s with counter := bufsz.setWidth 32, pending := true } else s

/-- The branch of `uart_isr` for the idle interrupt. -/
def uartIsr (s : UsartRx) : UsartRx :=
  let recvTotalIndex := bufsz.setWidth 32 - s.counter
  let recvLen := recvTotalIndex - s.lastIndex
  { s with lastIndex := recvTotalIndex, sampled := s.written }.report recvLen

/-- `HAL_UART_RxCpltCallback`.  The position that it takes for granted is the start of the
    buffer, where the DMA was last. -/
def halUartRxCpltCallback (s : UsartRx) : UsartRx :=
  let recvLen := bufsz.setWidth 32 - s.lastIndex
  { s with
    lastIndex := 0
    pending := false
    sampled := s.written / bufsz.toNat * bufsz.toNat }.report recvLen

/-- What an event does. -/
def step : UsartEvent → UsartRx → Except Empty (UsartRx × Unit)
  | .byte, s => .ok (s.dmaWrite bufsz, ())
  | .idle, s => .ok (s.uartIsr bufsz, ())
  | .rxCplt, s => .ok (if s.pending = true then s.halUartRxCpltCallback bufsz else s, ())

/-! ## What should hold -/

/-- How many bytes have been reported. -/
def total (s : UsartRx) : Nat := (s.reported.map BitVec.toNat).sum

/-- Each length is one that the buffer can hold, and together they are the bytes up to the position
    that was sampled last. -/
structure Sound (s : UsartRx) : Prop where
  bounded : ∀ recvLen ∈ s.reported, 1 ≤ recvLen.toNat ∧ recvLen.toNat ≤ bufsz.toNat
  exact : s.total = s.sampled

/-- How many times the DMA has gone back to the start of the buffer since the last sample. -/
def unserved (s : UsartRx) : Nat := s.written / bufsz.toNat - s.sampled / bufsz.toNat

/-- After the event, all is sound. -/
def Right (event : UsartEvent) (s : UsartRx) : Prop :=
  ∀ s' u, step bufsz event s = .ok (s', u) → s'.Sound bufsz

/-- The idle interrupt finds no wrap that has not been served, and the interrupt of a wrap no more
    than the one. -/
def Meets : UsartEvent → UsartRx → Prop
  | .byte, _ => True
  | .idle, s => s.unserved bufsz = 0
  | .rxCplt, s => s.unserved bufsz ≤ 1

/-- What the handlers rely on. -/
structure Inv (s : UsartRx) : Prop where
  sound : s.Sound bufsz
  counter : s.counter.toNat + s.written % bufsz.toNat = bufsz.toNat
  lastIndex : s.lastIndex.toNat = s.sampled % bufsz.toNat
  behind : s.sampled ≤ s.written
  pending : s.pending = true ↔ 0 < s.unserved bufsz

/-! ## What an event does -/

variable {bufsz} {s s' : UsartRx} {recvLen : BitVec 32}

@[simp] theorem report_lastIndex : (s.report recvLen).lastIndex = s.lastIndex := by
  unfold report
  split <;> rfl

@[simp] theorem report_counter : (s.report recvLen).counter = s.counter := by
  unfold report
  split <;> rfl

@[simp] theorem report_pending : (s.report recvLen).pending = s.pending := by
  unfold report
  split <;> rfl

@[simp] theorem report_written : (s.report recvLen).written = s.written := by
  unfold report
  split <;> rfl

@[simp] theorem report_sampled : (s.report recvLen).sampled = s.sampled := by
  unfold report
  split <;> rfl

theorem report_total : (s.report recvLen).total = s.total + recvLen.toNat := by
  unfold report
  split
  case isTrue => simp [total]
  case isFalse hzero =>
    rw [not_not] at hzero
    simp [hzero]

/-- What has to be true of a length for its report to be sound. -/
theorem sound_report (h : ∀ recvLen ∈ s.reported, 1 ≤ recvLen.toNat ∧ recvLen.toNat ≤ bufsz.toNat) :
    (s.report recvLen).Sound bufsz ↔
      recvLen.toNat ≤ bufsz.toNat ∧ s.total + recvLen.toNat = s.sampled := by
  constructor
  · rintro ⟨hbounded, hexact⟩
    rw [report_total, report_sampled] at hexact
    refine ⟨?_, hexact⟩
    by_cases hzero : recvLen = 0
    · simp [hzero]
    · refine (hbounded recvLen ?_).2
      rw [report, if_pos hzero]
      exact List.mem_append_right _ List.mem_cons_self
  · rintro ⟨hle, hexact⟩
    refine ⟨?_, by rw [report_total, report_sampled, hexact]⟩
    unfold report
    split
    case isTrue hlen =>
      intro len hmem
      obtain hmem | hmem := List.mem_append.mp hmem
      · exact h len hmem
      · obtain rfl := List.mem_singleton.mp hmem
        refine ⟨?_, hle⟩
        by_contra hzero
        exact hlen (BitVec.eq_of_toNat_eq (by simp; omega))
    case isFalse => exact h

/-- The DMA goes back to the start of the buffer. -/
theorem next_wrap {size n : Nat} (hlast : n % size + 1 = size) :
    (n + 1) / size = n / size + 1 ∧ (n + 1) % size = 0 := by
  have hn := Nat.div_add_mod n size
  refine (Nat.div_mod_unique (by omega)).mpr ⟨?_, by omega⟩
  rw [Nat.mul_add]
  omega

/-- The DMA goes on in the buffer. -/
theorem next_byte {size n : Nat} (hroom : n % size + 1 < size) :
    (n + 1) / size = n / size ∧ (n + 1) % size = n % size + 1 := by
  have hn := Nat.div_add_mod n size
  exact (Nat.div_mod_unique (by omega)).mpr ⟨by omega, hroom⟩

theorem start_inv : (start bufsz).Inv bufsz := by
  have hlt := bufsz.isLt
  refine ⟨⟨by simp [start], rfl⟩, ?_, by simp [start], Nat.le_refl _, by simp [start, unserved]⟩
  simp [start]
  omega

/-- The index that the idle handler computes is the place of the DMA. -/
theorem Inv.recvTotalIndex (h : s.Inv bufsz) :
    (bufsz.setWidth 32 - s.counter).toNat = s.written % bufsz.toNat := by
  have hlt := bufsz.isLt
  have hcounter := h.counter
  rw [BitVec.toNat_sub, BitVec.toNat_setWidth, Nat.mod_eq_of_lt (by omega : bufsz.toNat < 2 ^ 32)]
  omega

theorem bufsz_pos (hpos : bufsz ≠ 0) : 0 < bufsz.toNat := by
  by_contra hzero
  exact hpos (BitVec.eq_of_toNat_eq (by simpa using hzero))

/-- A byte that is written keeps the rest in step. -/
theorem Inv.dmaWrite (hpos : bufsz ≠ 0) (h : s.Inv bufsz) : (s.dmaWrite bufsz).Inv bufsz := by
  have hlt := bufsz.isLt
  have hcounter := h.counter
  have hmod := Nat.mod_lt s.written (bufsz_pos hpos)
  have hstep : (s.counter - 1).toNat = s.counter.toNat - 1 := by
    bv_omega
  have hbehind := Nat.div_le_div_right (c := bufsz.toNat) h.behind
  unfold UsartRx.dmaWrite
  by_cases hlast : s.counter.toNat = 1
  · obtain ⟨hdiv, hstart⟩ := next_wrap (by omega : s.written % bufsz.toNat + 1 = bufsz.toNat)
    have hzero : s.counter - 1 = 0 := BitVec.eq_of_toNat_eq (by rw [hstep, hlast]; rfl)
    simp only [if_pos hzero]
    refine ⟨⟨h.sound.bounded, h.sound.exact⟩, ?_, h.lastIndex, h.behind.trans (Nat.le_succ _), ?_⟩
    · simp only [hstart, BitVec.toNat_setWidth]
      omega
    · simp only [unserved, hdiv, true_iff]
      omega
  · obtain ⟨hdiv, hnext⟩ := next_byte (by omega : s.written % bufsz.toNat + 1 < bufsz.toNat)
    have hnonzero : s.counter - 1 ≠ 0 := by
      intro hzero
      have : (0 : BitVec 32).toNat = 0 := rfl
      rw [hzero] at hstep
      omega
    simp only [if_neg hnonzero]
    refine ⟨⟨h.sound.bounded, h.sound.exact⟩, ?_, h.lastIndex, h.behind.trans (Nat.le_succ _), ?_⟩
    · simp only [hnext, hstep]
      omega
    · simp only [unserved, hdiv]
      exact h.pending

/-- No wrap is unserved: the DMA is on the turn of the last sample. -/
theorem unserved_eq_zero (hpos : bufsz ≠ 0) (h : s.Inv bufsz) : s.unserved bufsz = 0 ↔
    bufsz.toNat * (s.written / bufsz.toNat) = bufsz.toNat * (s.sampled / bufsz.toNat) := by
  have hturns := Nat.div_le_div_right (c := bufsz.toNat) h.behind
  rw [Nat.mul_right_inj (bufsz_pos hpos).ne', unserved]
  omega

/-- The idle handler is right exactly when no wrap is unserved. -/
theorem Inv.uartIsr_sound (hpos : bufsz ≠ 0) (h : s.Inv bufsz) :
    (s.uartIsr bufsz).Sound bufsz ↔ s.unserved bufsz = 0 := by
  have hlt := bufsz.isLt
  have htotal := h.sound.exact
  have hbehind := h.behind
  have hplace := Nat.mod_lt s.written (bufsz_pos hpos)
  have hplace' := Nat.mod_lt s.sampled (bufsz_pos hpos)
  have hw := Nat.div_add_mod s.written bufsz.toNat
  have hs := Nat.div_add_mod s.sampled bufsz.toNat
  have hlen : (bufsz.setWidth 32 - s.counter - s.lastIndex).toNat =
      if s.sampled % bufsz.toNat ≤ s.written % bufsz.toNat then
        s.written % bufsz.toNat - s.sampled % bufsz.toNat
      else 2 ^ 32 + s.written % bufsz.toNat - s.sampled % bufsz.toNat := by
    rw [BitVec.toNat_sub, h.recvTotalIndex, h.lastIndex]
    split <;> omega
  rw [unserved_eq_zero hpos h]
  refine (sound_report (s := { s with
    lastIndex := bufsz.setWidth 32 - s.counter
    sampled := s.written }) h.sound.bounded).trans ?_
  show _ ∧ s.total + _ = s.written ↔ _
  rw [hlen, htotal]
  split
  case isTrue => constructor <;> omega
  case isFalse =>
    -- the difference has wrapped, and is more than the buffer holds
    constructor <;> omega

/-- The handler of a wrap is right exactly when the wrap is the only one. -/
theorem Inv.halUartRxCpltCallback_sound (hpos : bufsz ≠ 0) (h : s.Inv bufsz)
    (hpending : s.pending = true) :
    (s.halUartRxCpltCallback bufsz).Sound bufsz ↔ s.unserved bufsz ≤ 1 := by
  have hlt := bufsz.isLt
  have htotal := h.sound.exact
  have hplace := Nat.mod_lt s.sampled (bufsz_pos hpos)
  have hs := Nat.div_add_mod s.sampled bufsz.toNat
  have hturns := h.pending.mp hpending
  have hlen : (bufsz.setWidth 32 - s.lastIndex).toNat =
      bufsz.toNat - s.sampled % bufsz.toNat := by
    rw [BitVec.toNat_sub, h.lastIndex, BitVec.toNat_setWidth]
    omega
  have hone : s.unserved bufsz ≤ 1 ↔
      s.written / bufsz.toNat = s.sampled / bufsz.toNat + 1 := by
    simp only [unserved] at hturns ⊢
    omega
  rw [hone, ← Nat.mul_left_inj (bufsz_pos hpos).ne', Nat.add_mul, Nat.one_mul]
  rw [Nat.mul_comm] at hs
  refine (sound_report (s := { s with
    lastIndex := 0
    pending := false
    sampled := s.written / bufsz.toNat * bufsz.toNat }) h.sound.bounded).trans ?_
  show _ ∧ s.total + _ = s.written / bufsz.toNat * bufsz.toNat ↔ _
  rw [hlen, htotal]
  constructor <;> omega

theorem Inv.right_iff (hpos : bufsz ≠ 0) (h : s.Inv bufsz) (event : UsartEvent) :
    s.Right bufsz event ↔ s.Meets bufsz event := by
  simp only [Right, step]
  cases event with
  | byte => simpa [Meets, step] using (h.dmaWrite hpos).sound
  | idle => simpa [Meets, step] using h.uartIsr_sound hpos
  | rxCplt =>
    by_cases hpending : s.pending = true
    · simpa [Meets, step, hpending] using h.halUartRxCpltCallback_sound hpos hpending
    · have hserved : s.unserved bufsz ≤ 1 := by
        have := h.pending.not.mp hpending
        omega
      simpa [Meets, step, hpending, hserved] using h.sound

/-- A handler that is right leaves the rest in step. -/
theorem Inv.step (hpos : bufsz ≠ 0) (h : s.Inv bufsz) {event : UsartEvent}
    (hright : s.Right bufsz event) {u : Unit} (hstep : UsartRx.step bufsz event s = .ok (s', u)) :
    s'.Inv bufsz := by
  have hsound := hright s' u hstep
  have hmeets := (h.right_iff hpos event).mp hright
  have hb := bufsz_pos hpos
  cases event with
  | byte =>
    obtain rfl : s.dmaWrite bufsz = s' := congrArg Prod.fst (Except.ok.inj hstep)
    exact h.dmaWrite hpos
  | idle =>
    obtain rfl : s.uartIsr bufsz = s' := congrArg Prod.fst (Except.ok.inj hstep)
    have hserved : ¬ s.pending = true := by
      rw [h.pending, show s.unserved bufsz = 0 from hmeets]
      exact Nat.lt_irrefl 0
    refine ⟨hsound, ?_, ?_, ?_, ?_⟩ <;>
      simp only [uartIsr, report_counter, report_written, report_lastIndex, report_sampled,
        report_pending, unserved]
    · exact h.counter
    · exact h.recvTotalIndex
    · exact Nat.le_refl _
    · exact ⟨fun hp => absurd hp hserved, fun hlt => by omega⟩
  | rxCplt =>
    by_cases hpending : s.pending = true
    · obtain rfl : s.halUartRxCpltCallback bufsz = s' := by
        simpa [UsartRx.step, hpending] using congrArg Prod.fst (Except.ok.inj hstep)
      refine ⟨hsound, ?_, ?_, ?_, ?_⟩ <;>
        simp only [halUartRxCpltCallback, report_counter, report_written, report_lastIndex,
          report_sampled, report_pending, unserved]
      · exact h.counter
      · exact (Nat.mul_mod_left _ _).symm
      · exact Nat.div_mul_le_self _ _
      · simp [Nat.mul_div_cancel _ hb]
    · obtain rfl : s = s' := by
        simpa [UsartRx.step, hpending] using congrArg Prod.fst (Except.ok.inj hstep)
      exact h

/-- Along the events at a UART, in any order: the reported lengths are right after each event, if
    and only if the idle handler never runs while a wrap has not been served, and the handler of a
    wrap never serves two at a time. -/
theorem uart_dma_rx_lengths (hpos : bufsz ≠ 0) (events : List UsartEvent) :
    Along (UsartRx.step bufsz) (Right bufsz) events (start bufsz) ↔
      Along (UsartRx.step bufsz) (Meets bufsz) events (start bufsz) := by
  refine along_iff (I := Inv bufsz) (V := fun _ _ => True) ?_ ?_ start_inv along_true
  · intro event s hs _
    exact hs.right_iff hpos event
  · intro event s s' u hs _ hright hstep
    exact hs.step hpos hright hstep

/-- Five bytes arrive in a buffer of four, and the idle handler runs before that of the wrap. -/
def lateWrap : List UsartEvent := [.byte, .byte, .byte, .idle, .byte, .byte, .idle, .rxCplt]

theorem uart_dma_rx_lengths_lateWrap :
    Along (UsartRx.step 4) (Right 4) lateWrap (start 4) ↔
      Along (UsartRx.step 4) (Meets 4) lateWrap (start 4) :=
  uart_dma_rx_lengths (by decide) lateWrap

/-- The two bytes since the last sample are reported as a length below 0, and as three bytes. -/
theorem uart_dma_rx_lengths_underflow :
    ¬ Along (UsartRx.step 4) (Right 4) lateWrap (start 4) ∧
      (runExcept (UsartRx.step 4) lateWrap (start 4)).map (fun r => r.1.reported) =
        .ok [3, 0xfffffffe, 3] := by
  refine ⟨?_, rfl⟩
  rw [lateWrap, along_cons rfl, along_cons rfl, along_cons rfl, along_cons rfl, along_cons rfl,
    along_cons rfl]
  rintro ⟨-, -, -, -, -, -, hright, -⟩
  have hle := ((hright _ () rfl).bounded 0xfffffffe (by decide)).2
  exact absurd hle (by decide)

end UsartRx

end PandoraRobot.Drivers
