import PandoraRobot.Kernel.Device
import Mathlib.Logic.Function.Basic

/-! # Pin interrupts

`stm32_pin_attach_irq`, `stm32_pin_dettach_irq`, `stm32_pin_irq_enable` and
`HAL_GPIO_EXTI_Callback` of `drv_gpio.c`, with what `HAL_GPIO_Init` and `HAL_GPIO_DeInit` do to the
external interrupt lines.  Each function of the driver works on its tables in one critical section.

The pins of all ports share sixteen lines.  The driver keeps one entry for each line, and looks
only at whether it is taken: not by whom.
-/

namespace PandoraRobot.Drivers

open PandoraRobot.Kernel

/-! ## The tables -/

/-- `struct pin_index`, with `GPIO_GET_INDEX` of the port. -/
structure PinIndex where
  index : Int
  gpio : Nat
  pin : BitVec 32
  deriving DecidableEq, Repr

/-- `pins`: the ports A to H. -/
def pins : List PinIndex :=
  (List.range 128).map fun index : Nat => ⟨index, index / 16, 1#32 <<< (index % 16)⟩

/-- `get_pin`. -/
def getPin (pin : Int) : Option PinIndex :=
  pins[(pin % 256).toNat]?.filter fun index => index.index ≠ -1

/-- The interrupts of the external lines, of `IRQn_Type`. -/
inductive Irqn where
  | exti0
  | exti1
  | exti2
  | exti3
  | exti4
  | exti9To5
  | exti15To10
  deriving DecidableEq, Repr

/-- `struct pin_irq_map`. -/
structure PinIrqMap where
  pinbit : BitVec 16
  irqno : Irqn
  deriving DecidableEq, Repr

/-- `pin_irq_map`. -/
def pinIrqMap : List PinIrqMap :=
  [⟨0x0001, .exti0⟩, ⟨0x0002, .exti1⟩, ⟨0x0004, .exti2⟩, ⟨0x0008, .exti3⟩, ⟨0x0010, .exti4⟩,
    ⟨0x0020, .exti9To5⟩, ⟨0x0040, .exti9To5⟩, ⟨0x0080, .exti9To5⟩, ⟨0x0100, .exti9To5⟩,
    ⟨0x0200, .exti9To5⟩, ⟨0x0400, .exti15To10⟩, ⟨0x0800, .exti15To10⟩, ⟨0x1000, .exti15To10⟩,
    ⟨0x2000, .exti15To10⟩, ⟨0x4000, .exti15To10⟩, ⟨0x8000, .exti15To10⟩]

/-- `bit2bitno`, where `none` is -1. -/
def bit2bitno (bit : BitVec 32) : Option Nat :=
  (List.range 32).find? fun i => 1#32 <<< i = bit

/-- `get_pin_irq_map`. -/
def getPinIrqMap (pinbit : BitVec 32) : Option PinIrqMap := do
  let mapindex ← bit2bitno pinbit
  pinIrqMap[mapindex]?

variable {H A : Type}

/-- `struct rt_pin_irq_hdr`. -/
structure PinIrqHdr (H A : Type) where
  pin : Int
  mode : BitVec 16
  hdr : Option H
  args : Option A
  deriving DecidableEq, Repr

/-! ## The lines -/

/-- What `EXTICR`, `IMR1`, `EMR1`, `RTSR1` and `FTSR1` hold for one line. -/
structure ExtiLine where
  exticr : Nat
  imr : Bool
  emr : Bool
  rtsr : Bool
  ftsr : Bool
  deriving DecidableEq, Repr

def extiMode : BitVec 32 := 0x10000000
def gpioModeIt : BitVec 32 := 0x00010000
def gpioModeEvt : BitVec 32 := 0x00020000
def risingEdge : BitVec 32 := 0x00100000
def fallingEdge : BitVec 32 := 0x00200000

def gpioModeItRising : BitVec 32 := 0x10110000
def gpioModeItFalling : BitVec 32 := 0x10210000
def gpioModeItRisingFalling : BitVec 32 := 0x10310000

/-- `HAL_GPIO_Init`, of the pins in `pin`.  The registers of the port itself are left out. -/
def halGpioInit (gpio : Nat) (pin mode : BitVec 32) (exti : Nat → ExtiLine) : Nat → ExtiLine :=
  fun position =>
    if pin.getLsbD position = true ∧ mode &&& extiMode = extiMode then
      { exticr := gpio
        imr := mode &&& gpioModeIt = gpioModeIt
        emr := mode &&& gpioModeEvt = gpioModeEvt
        rtsr := mode &&& risingEdge = risingEdge
        ftsr := mode &&& fallingEdge = fallingEdge }
    else exti position

/-- `HAL_GPIO_DeInit`. -/
def halGpioDeInit (gpio : Nat) (pin : BitVec 32) (exti : Nat → ExtiLine) : Nat → ExtiLine :=
  fun position =>
    if pin.getLsbD position = true ∧ (exti position).exticr = gpio then
      ⟨0, false, false, false, false⟩
    else exti position

/-! ## The driver -/

/-- `pin_irq_hdr_tab`, `pin_irq_enable_mask`, and the registers that the driver sets. -/
structure PinIrq (H A : Type) where
  pinIrqHdrTab : Nat → PinIrqHdr H A
  pinIrqEnableMask : BitVec 32
  exti : Nat → ExtiLine
  nvic : Irqn → Bool

/-- `stm32_pin_attach_irq`. -/
def stm32PinAttachIrq [DecidableEq H] [DecidableEq A] (pin : Int) (mode : BitVec 32)
    (hdr : Option H) (args : Option A) (s : PinIrq H A) : PinIrq H A × Int :=
  match getPin pin with
  | none => (s, rtEnosys)
  | some index =>
    match (bit2bitno index.pin).filter (· < pinIrqMap.length) with
    | none => (s, rtEnosys)
    | some irqindex =>
      let entry := s.pinIrqHdrTab irqindex
      if entry.pin = pin ∧ entry.hdr = hdr ∧ entry.mode.setWidth 32 = mode ∧ entry.args = args then
        (s, rtEok)
      else if entry.pin ≠ -1 then (s, rtEbusy)
      else
        ({ s with
          pinIrqHdrTab := Function.update s.pinIrqHdrTab irqindex
            ⟨pin.bmod (2 ^ 16), mode.setWidth 16, hdr, args⟩ }, rtEok)

/-- `stm32_pin_dettach_irq`. -/
def stm32PinDettachIrq (pin : Int) (s : PinIrq H A) : PinIrq H A × Int :=
  match getPin pin with
  | none => (s, rtEnosys)
  | some index =>
    match (bit2bitno index.pin).filter (· < pinIrqMap.length) with
    | none => (s, rtEnosys)
    | some irqindex =>
      if (s.pinIrqHdrTab irqindex).pin = -1 then (s, rtEok)
      else
        ({ s with
          pinIrqHdrTab := Function.update s.pinIrqHdrTab irqindex ⟨-1, 0, none, none⟩ }, rtEok)

def pinIrqDisable : BitVec 32 := 0
def pinIrqEnable : BitVec 32 := 1

/-- `GPIO_InitStruct.Mode` of `stm32_pin_irq_enable`.  A mode that has no case leaves it
    uninitialised. -/
def gpioMode (mode : BitVec 16) (uninitialised : BitVec 32) : BitVec 32 :=
  if mode = 0 then gpioModeItRising
  else if mode = 1 then gpioModeItFalling
  else if mode = 2 then gpioModeItRisingFalling
  else uninitialised

/-- No line that shares the interrupt of `pinbit` is enabled in the mask. -/
def groupIdle (pinbit : BitVec 16) (pinIrqEnableMask : BitVec 32) : Bool :=
  if 0x0020 ≤ pinbit ∧ pinbit ≤ 0x0200 then pinIrqEnableMask &&& 0x03e0 = 0
  else if 0x0400 ≤ pinbit ∧ pinbit ≤ 0x8000 then pinIrqEnableMask &&& 0xfc00 = 0
  else true

/-- `stm32_pin_irq_enable`. -/
def stm32PinIrqEnable (pin : Int) (enabled uninitialised : BitVec 32) (s : PinIrq H A) :
    PinIrq H A × Int :=
  match getPin pin with
  | none => (s, rtEnosys)
  | some index =>
    if enabled = pinIrqEnable then
      match (bit2bitno index.pin).filter (· < pinIrqMap.length) with
      | none => (s, rtEnosys)
      | some irqindex =>
        let entry := s.pinIrqHdrTab irqindex
        if entry.pin = -1 then (s, rtEnosys)
        else
          let irqmap := pinIrqMap.getD irqindex ⟨0, .exti0⟩
          let mode := gpioMode entry.mode uninitialised
          ({ s with
            exti := halGpioInit index.gpio index.pin mode s.exti
            nvic := Function.update s.nvic irqmap.irqno true
            pinIrqEnableMask := s.pinIrqEnableMask ||| irqmap.pinbit.setWidth 32 }, rtEok)
    else if enabled = pinIrqDisable then
      match getPinIrqMap index.pin with
      | none => (s, rtEnosys)
      | some irqmap =>
        let pinIrqEnableMask := s.pinIrqEnableMask &&& ~~~(irqmap.pinbit.setWidth 32)
        ({ s with
          exti := halGpioDeInit index.gpio index.pin s.exti
          pinIrqEnableMask
          nvic :=
            if groupIdle irqmap.pinbit pinIrqEnableMask then
              Function.update s.nvic irqmap.irqno false
            else s.nvic }, rtEok)
    else (s, -rtEnosys)

/-- `pin_irq_hdr`: the handler it calls, and with what. -/
def pinIrqHdr (irqno : Nat) (s : PinIrq H A) : List (H × Option A) :=
  ((s.pinIrqHdrTab irqno).hdr.map fun hdr => (hdr, (s.pinIrqHdrTab irqno).args)).toList

/-- `HAL_GPIO_EXTI_Callback`. -/
def halGpioExtiCallback (gpioPin : BitVec 16) (s : PinIrq H A) : List (H × Option A) :=
  ((bit2bitno (gpioPin.setWidth 32)).map fun irqno => pinIrqHdr irqno s).getD []

/-- The pins that the handler of an interrupt passes to `HAL_GPIO_EXTI_IRQHandler`. -/
def extiIrqHandler : Irqn → List (BitVec 16)
  | .exti0 => [0x0001]
  | .exti1 => [0x0002]
  | .exti2 => [0x0004]
  | .exti3 => [0x0008]
  | .exti4 => [0x0010]
  | .exti9To5 => [0x0020, 0x0040, 0x0080, 0x0100, 0x0200]
  | .exti15To10 => [0x0400, 0x0800, 0x1000, 0x2000, 0x4000, 0x8000]

/-- The handlers that an interrupt calls, where `pending` is what `PR1` holds. -/
def extiInterrupt (irqno : Irqn) (pending : BitVec 16) (s : PinIrq H A) : List (H × Option A) :=
  ((extiIrqHandler irqno).filter fun gpioPin => pending &&& gpioPin ≠ 0).flatMap fun gpioPin =>
    halGpioExtiCallback gpioPin s

/-- A call of the driver. -/
inductive PinCall (H A : Type) where
  | attach (pin : Int) (mode : BitVec 32) (hdr : Option H) (args : Option A)
  | dettach (pin : Int)
  | irqEnable (pin : Int) (enabled uninitialised : BitVec 32)
  deriving DecidableEq, Repr

/-- The pin that a call concerns. -/
def PinCall.pin : PinCall H A → Int
  | .attach pin .. => pin
  | .dettach pin => pin
  | .irqEnable pin .. => pin

/-! ## Pins and lines -/

/-- A pin number of the board. -/
def PinValid (pin : Int) : Prop := 0 ≤ pin ∧ pin < 128

/-- The port of a pin, and its line. -/
def port (pin : Int) : Nat := pin.toNat / 16
def line (pin : Int) : Nat := pin.toNat % 16

/-- The interrupt of a line. -/
def lineIrqn (n : Nat) : Irqn := (pinIrqMap.getD n ⟨0, .exti0⟩).irqno

variable {pin other : Int} {n m : Nat} {s : PinIrq H A}

theorem line_lt (pin : Int) : line pin < 16 := Nat.mod_lt _ (by decide)

theorem pin_eq (hpin : PinValid pin) (hother : PinValid other) (hport : port pin = port other)
    (hline : line pin = line other) : pin = other := by
  have hp := Nat.div_add_mod pin.toNat 16
  have ho := Nat.div_add_mod other.toNat 16
  obtain ⟨hlow, -⟩ := hpin
  obtain ⟨hlow', -⟩ := hother
  simp only [port, line] at hport hline
  omega

theorem pin_eq_port_line (h : PinValid pin) : pin = 16 * (port pin : Int) + line pin := by
  obtain ⟨hlow, -⟩ := h
  simp only [port, line]
  omega

theorem getPin_valid (h : PinValid pin) :
    getPin pin = some ⟨pin, port pin, 1#32 <<< line pin⟩ := by
  obtain ⟨hlow, hhigh⟩ := h
  have hbyte : (pin % 256).toNat = pin.toNat := by omega
  have hrange : pin.toNat < 128 := by omega
  have hindex : ((pin.toNat : Nat) : Int) = pin := Int.toNat_of_nonneg hlow
  have hne : pin ≠ -1 := by omega
  rw [getPin, hbyte, pins, List.getElem?_map, List.getElem?_range hrange]
  simp [Option.filter, hindex, hne, port, line]

theorem bit2bitno_line (hn : n < 16) : bit2bitno (1#32 <<< n) = some n := by
  have hall : ∀ n : Fin 16, bit2bitno (1#32 <<< n.val) = some n.val := by decide
  exact hall ⟨n, hn⟩

theorem bit2bitno_filter (hn : n < 16) :
    (bit2bitno (1#32 <<< n)).filter (· < pinIrqMap.length) = some n := by
  rw [bit2bitno_line hn]
  simp [Option.filter, pinIrqMap, hn]

theorem pinIrqMap_getD (hn : n < 16) :
    pinIrqMap.getD n ⟨0, .exti0⟩ = ⟨1#16 <<< n, lineIrqn n⟩ := by
  have hall : ∀ n : Fin 16,
      pinIrqMap.getD n.val ⟨0, .exti0⟩ = ⟨1#16 <<< n.val, lineIrqn n.val⟩ := by decide
  exact hall ⟨n, hn⟩

theorem getPinIrqMap_line (hn : n < 16) :
    getPinIrqMap (1#32 <<< n) = some ⟨1#16 <<< n, lineIrqn n⟩ := by
  rw [getPinIrqMap, bit2bitno_line hn, ← pinIrqMap_getD hn, List.getD_eq_getElem?_getD]
  have hlength : n < pinIrqMap.length := hn
  simp [List.getElem?_eq_getElem hlength]

theorem setWidth_pinbit (hn : n < 16) : (1#16 <<< n).setWidth 32 = 1#32 <<< n := by
  have hall : ∀ n : Fin 16, (1#16 <<< n.val).setWidth 32 = 1#32 <<< n.val := by decide
  exact hall ⟨n, hn⟩

theorem getLsbD_pinbit (hn : n < 16) (hm : m < 16) :
    (1#32 <<< n).getLsbD m = decide (m = n) := by
  have hall : ∀ n m : Fin 16, (1#32 <<< n.val).getLsbD m.val = decide (m.val = n.val) := by decide
  exact hall ⟨n, hn⟩ ⟨m, hm⟩

/-- An interrupt of one line calls the handler of that line. -/
theorem extiInterrupt_line (hn : n < 16) :
    extiInterrupt (lineIrqn n) (1#16 <<< n) s = pinIrqHdr n s := by
  have hpins : ∀ n : Fin 16, (extiIrqHandler (lineIrqn n.val)).filter
      (fun gpioPin => (1#16 <<< n.val) &&& gpioPin ≠ 0) = [1#16 <<< n.val] := by decide
  have hcallback : halGpioExtiCallback (1#16 <<< n) s = pinIrqHdr n s := by
    rw [halGpioExtiCallback, setWidth_pinbit hn, bit2bitno_line hn]
    rfl
  rw [extiInterrupt, hpins ⟨n, hn⟩]
  simp [hcallback]

theorem getLsbD_of_and {word mask : BitVec 32} {i : Nat} (h : word &&& mask = 0)
    (hbit : mask.getLsbD i = true) : word.getLsbD i = false := by
  have hand := congrArg (fun word => word.getLsbD i) h
  simp only [BitVec.getLsbD_and, hbit, Bool.and_true] at hand
  rw [hand]
  exact BitVec.getLsbD_zero

/-- Of an idle group, the mask holds no other line. -/
theorem groupIdle_clear {mask : BitVec 32} (hn : n < 16) (hm : m < 16)
    (hidle : groupIdle (1#16 <<< n) mask = true) (hgroup : lineIrqn m = lineIrqn n)
    (hne : m ≠ n) : mask.getLsbD m = false := by
  have hmiddle : ∀ n : Fin 16,
      0x0020 ≤ 1#16 <<< n.val ∧ 1#16 <<< n.val ≤ 0x0200 ↔ 5 ≤ n.val ∧ n.val ≤ 9 := by decide
  have hhigh : ∀ n : Fin 16,
      0x0400 ≤ 1#16 <<< n.val ∧ 1#16 <<< n.val ≤ 0x8000 ↔ 10 ≤ n.val := by decide
  have hbits : ∀ n m : Fin 16, lineIrqn m.val = lineIrqn n.val → m.val ≠ n.val →
      (5 ≤ n.val ∧ n.val ≤ 9 ∧ (0x03e0 : BitVec 32).getLsbD m.val = true) ∨
        (10 ≤ n.val ∧ (0xfc00 : BitVec 32).getLsbD m.val = true) := by decide
  have hmiddle' := hmiddle ⟨n, hn⟩
  have hhigh' := hhigh ⟨n, hn⟩
  rw [groupIdle] at hidle
  obtain ⟨hlow, hup, hbit⟩ | ⟨hlow, hbit⟩ := hbits ⟨n, hn⟩ ⟨m, hm⟩ hgroup hne
  · rw [if_pos (hmiddle'.mpr ⟨hlow, hup⟩), decide_eq_true_eq] at hidle
    exact getLsbD_of_and hidle hbit
  · simp only at hlow
    rw [if_neg (fun h => by have := hmiddle'.mp h; simp only at this; omega),
      if_pos (hhigh'.mpr hlow), decide_eq_true_eq] at hidle
    exact getLsbD_of_and hidle hbit
/-! ## Runs -/

namespace PinIrq

def step [DecidableEq H] [DecidableEq A] : PinCall H A → PinIrq H A → PinIrq H A × Int
  | .attach pin mode hdr args => stm32PinAttachIrq pin mode hdr args
  | .dettach pin => stm32PinDettachIrq pin
  | .irqEnable pin enabled uninitialised => stm32PinIrqEnable pin enabled uninitialised

/-- The entry of a pin. -/
def registered (s : PinIrq H A) (pin : Int) : Option (PinIrqHdr H A) :=
  if (s.pinIrqHdrTab (line pin)).pin = pin then some (s.pinIrqHdrTab (line pin)) else none

/-- An edge of the pin raises an interrupt. -/
structure Enabled (s : PinIrq H A) (pin : Int) : Prop where
  selected : (s.exti (line pin)).exticr = port pin
  unmasked : (s.exti (line pin)).imr = true
  served : s.nvic (lineIrqn (line pin)) = true

/-- What is called for an entry. -/
def handler (entry : Option (PinIrqHdr H A)) : List (H × Option A) :=
  (entry.bind fun entry => entry.hdr.map fun hdr => (hdr, entry.args)).toList

/-- No other pin is enabled on the line of `pin`. -/
def LineFree (s : PinIrq H A) (pin : Int) : Prop :=
  ∀ other, PinValid other → line other = line pin → s.Enabled other → other = pin

/-- A handler is attached, and a pin enabled or disabled, only while no other pin is enabled on the
    line; a pin is detached or enabled only where the entry of the line is its own, or free. -/
def Meets : PinCall H A → PinIrq H A → Prop
  | .attach pin _ hdr _, s =>
    (s.pinIrqHdrTab (line pin)).pin = -1 → hdr ≠ none → s.LineFree pin
  | .dettach pin, s =>
    (s.pinIrqHdrTab (line pin)).pin ≠ -1 → (s.pinIrqHdrTab (line pin)).pin = pin
  | .irqEnable pin enabled _, s =>
    (enabled = pinIrqEnable → (s.pinIrqHdrTab (line pin)).pin ≠ -1 →
      (s.pinIrqHdrTab (line pin)).pin = pin ∧ s.LineFree pin) ∧
    (enabled = pinIrqDisable → s.LineFree pin)

/-- What a call must do: nothing to the other pins, and nothing at all where it fails. -/
structure Frame (pin : Int) (s s' : PinIrq H A) (result : Int) : Prop where
  registered : ∀ other, PinValid other → other ≠ pin → s'.registered other = s.registered other
  enabled : ∀ other, PinValid other → other ≠ pin → (s'.Enabled other ↔ s.Enabled other)
  failed : result ≠ rtEok → s' = s

/-- An interrupt of a line that a pin has enabled calls the handler that this pin has attached. -/
def Calls (s : PinIrq H A) : Prop :=
  ∀ pin, PinValid pin → s.Enabled pin →
    extiInterrupt (lineIrqn (line pin)) (1#16 <<< line pin) s = handler (s.registered pin)

/-- The tables as they are initialised, with the registers after a reset. -/
structure Initial (s : PinIrq H A) : Prop where
  tab : ∀ n < 16, s.pinIrqHdrTab n = ⟨-1, 0, none, none⟩
  imr : ∀ n < 16, (s.exti n).imr = false
  exticr : ∀ n < 16, (s.exti n).exticr = 0
  mask : s.pinIrqEnableMask = 0

/-- The states that calls which meet the condition lead to. -/
inductive Reached [DecidableEq H] [DecidableEq A] : PinIrq H A → Prop where
  | initial {s : PinIrq H A} : s.Initial → Reached s
  | call {s : PinIrq H A} (call : PinCall H A) : Reached s → PinValid call.pin → Meets call s →
      Reached (step call s).1

/-! ## The invariant -/

/-- A free entry has no handler; an unmasked line is in the mask, and what is in the mask has its
    interrupt enabled; an unmasked line that has a handler has that of its own pin. -/
structure Inv (s : PinIrq H A) : Prop where
  free : ∀ n < 16, (s.pinIrqHdrTab n).pin = -1 → (s.pinIrqHdrTab n).hdr = none
  port : ∀ n < 16, (s.exti n).exticr < 8
  masked : ∀ n < 16, (s.exti n).imr = true → s.pinIrqEnableMask.getLsbD n = true
  served : ∀ n < 16, s.pinIrqEnableMask.getLsbD n = true → s.nvic (lineIrqn n) = true
  own : ∀ n < 16, (s.exti n).imr = true → (s.pinIrqHdrTab n).hdr ≠ none →
    (s.pinIrqHdrTab n).pin = 16 * (s.exti n).exticr + n

/-- The pin that a line is connected to. -/
def linePin (s : PinIrq H A) (n : Nat) : Int := 16 * (s.exti n).exticr + n

theorem linePin_valid (h : s.Inv) (hn : n < 16) :
    PinValid (s.linePin n) ∧ line (s.linePin n) = n ∧ port (s.linePin n) = (s.exti n).exticr := by
  have hport := h.port n hn
  refine ⟨⟨?_, ?_⟩, ?_, ?_⟩ <;> simp only [linePin, Drivers.line, Drivers.port] <;> omega

/-- An unmasked line has a pin that is enabled. -/
theorem Inv.enabled (h : s.Inv) (hn : n < 16) (himr : (s.exti n).imr = true) :
    s.Enabled (s.linePin n) := by
  obtain ⟨-, hline, hport⟩ := linePin_valid h hn
  refine ⟨?_, ?_, ?_⟩
  · rw [hline, hport]
  · rw [hline, himr]
  · rw [hline]
    exact h.served n hn (h.masked n hn himr)

/-- A line that no other pin is enabled on is masked, or connected to the pin. -/
theorem Inv.lineFree (h : s.Inv) (hfree : s.LineFree pin)
    (himr : (s.exti (line pin)).imr = true) : s.linePin (line pin) = pin := by
  obtain ⟨hvalid, hline, -⟩ := linePin_valid h (line_lt pin)
  exact hfree _ hvalid hline (h.enabled (line_lt pin) himr)

theorem Inv.calls (h : s.Inv) : s.Calls := by
  intro pin hvalid henabled
  have hn := line_lt pin
  rw [extiInterrupt_line hn, pinIrqHdr]
  cases hhdr : (s.pinIrqHdrTab (line pin)).hdr with
  | none =>
    by_cases hpin : (s.pinIrqHdrTab (line pin)).pin = pin
    · simp [handler, registered, hpin, hhdr]
    · simp [handler, registered, hpin]
  | some hdr =>
    have hown := h.own (line pin) hn henabled.unmasked (by simp [hhdr])
    have hpin : (s.pinIrqHdrTab (line pin)).pin = pin := by
      rw [hown, henabled.selected, ← pin_eq_port_line hvalid]
    simp [handler, registered, hpin, hhdr]

theorem Initial.inv (h : s.Initial) : s.Inv where
  free n hn _ := by rw [h.tab n hn]
  port n hn := by
    rw [h.exticr n hn]
    decide
  masked n hn himr := by simp [h.imr n hn] at himr
  served n _ hbit := by simp [h.mask] at hbit
  own n hn himr := by simp [h.imr n hn] at himr

/-- Nobody is enabled on a masked line. -/
theorem lineFree_masked (h : (s.exti (line pin)).imr = false) : s.LineFree pin := by
  intro other _ hline henabled
  have himr := henabled.unmasked
  rw [hline, h] at himr
  exact absurd himr (by decide)

/-! ## What a call does -/

/-- A new entry of a line. -/
def put (s : PinIrq H A) (n : Nat) (entry : PinIrqHdr H A) : PinIrq H A :=
  { s with pinIrqHdrTab := Function.update s.pinIrqHdrTab n entry }

/-- The registers and the mask after `PIN_IRQ_ENABLE`. -/
def enable (s : PinIrq H A) (pin : Int) (mode : BitVec 32) : PinIrq H A :=
  { s with
    exti := halGpioInit (port pin) (1#32 <<< line pin) mode s.exti
    nvic := Function.update s.nvic (lineIrqn (line pin)) true
    pinIrqEnableMask := s.pinIrqEnableMask ||| 1#32 <<< line pin }

/-- The registers and the mask after `PIN_IRQ_DISABLE`. -/
def disable (s : PinIrq H A) (pin : Int) : PinIrq H A :=
  { s with
    exti := halGpioDeInit (port pin) (1#32 <<< line pin) s.exti
    pinIrqEnableMask := s.pinIrqEnableMask &&& ~~~(1#32 <<< line pin)
    nvic :=
      if groupIdle (1#16 <<< line pin) (s.pinIrqEnableMask &&& ~~~(1#32 <<< line pin)) then
        Function.update s.nvic (lineIrqn (line pin)) false
      else s.nvic }

theorem stm32PinAttachIrq_cases [DecidableEq H] [DecidableEq A] (mode : BitVec 32)
    (hdr : Option H) (args : Option A) (h : PinValid pin) :
    (stm32PinAttachIrq pin mode hdr args s).1 = s ∨
      (s.pinIrqHdrTab (line pin)).pin = -1 ∧
        stm32PinAttachIrq pin mode hdr args s =
          (s.put (line pin) ⟨pin, mode.setWidth 16, hdr, args⟩, rtEok) := by
  have hbmod : pin.bmod (2 ^ 16) = pin := by
    obtain ⟨hlow, hhigh⟩ := h
    simp only [Int.bmod]
    omega
  rw [stm32PinAttachIrq, getPin_valid h]
  simp only [bit2bitno_filter (line_lt pin)]
  split
  · exact .inl rfl
  · split
    · exact .inl rfl
    · next hfree =>
      refine .inr ⟨not_not.mp hfree, ?_⟩
      rw [hbmod]
      rfl

theorem stm32PinDettachIrq_cases (h : PinValid pin) :
    (stm32PinDettachIrq pin s).1 = s ∨
      (s.pinIrqHdrTab (line pin)).pin ≠ -1 ∧
        stm32PinDettachIrq pin s = (s.put (line pin) ⟨-1, 0, none, none⟩, rtEok) := by
  rw [stm32PinDettachIrq, getPin_valid h]
  simp only [bit2bitno_filter (line_lt pin)]
  split
  · exact .inl rfl
  · next hused => exact .inr ⟨hused, rfl⟩

theorem stm32PinIrqEnable_cases (enabled uninitialised : BitVec 32) (h : PinValid pin) :
    (stm32PinIrqEnable pin enabled uninitialised s).1 = s ∨
      (enabled = pinIrqEnable ∧ (s.pinIrqHdrTab (line pin)).pin ≠ -1 ∧
        ∃ mode, stm32PinIrqEnable pin enabled uninitialised s = (s.enable pin mode, rtEok)) ∨
      (enabled = pinIrqDisable ∧
        stm32PinIrqEnable pin enabled uninitialised s = (s.disable pin, rtEok)) := by
  have hn := line_lt pin
  rw [stm32PinIrqEnable, getPin_valid h]
  simp only [bit2bitno_filter hn, getPinIrqMap_line hn, pinIrqMap_getD hn, setWidth_pinbit hn]
  split
  · next henable =>
    split
    · exact .inl rfl
    · next hused => exact .inr (.inl ⟨henable, hused, _, rfl⟩)
  · split
    · next hdisable => exact .inr (.inr ⟨hdisable, rfl⟩)
    · exact .inl rfl

theorem Frame.refl (s : PinIrq H A) (pin : Int) (result : Int) : Frame pin s s result :=
  ⟨fun _ _ _ => rfl, fun _ _ _ => Iff.rfl, fun _ => rfl⟩

/-! ### The entry of a line -/

/-- An entry that was free or the pin's own is nobody else's. -/
theorem frame_put {entry : PinIrqHdr H A}
    (hold : (s.pinIrqHdrTab (line pin)).pin = -1 ∨ (s.pinIrqHdrTab (line pin)).pin = pin)
    (hnew : entry.pin = -1 ∨ entry.pin = pin) : Frame pin s (s.put (line pin) entry) rtEok := by
  refine ⟨fun other hvalid hne => ?_, fun other _ _ => ⟨fun h => ⟨h.1, h.2, h.3⟩,
    fun h => ⟨h.1, h.2, h.3⟩⟩, fun h => absurd rfl h⟩
  by_cases hline : line other = line pin
  · have hother : ∀ owner, owner = -1 ∨ owner = pin → owner ≠ other := by
      have hlow := hvalid.1
      omega
    simp [registered, put, hline, hother _ hold, hother _ hnew]
  · simp [registered, put, Function.update_of_ne hline]

theorem Inv.put {entry : PinIrqHdr H A} (h : s.Inv) (hfree : entry.pin = -1 → entry.hdr = none)
    (hown : (s.exti (line pin)).imr = true → entry.hdr ≠ none →
      entry.pin = s.linePin (line pin)) : (s.put (line pin) entry).Inv where
  free n hn hnone := by
    by_cases heq : n = line pin
    · subst heq
      simp only [PinIrq.put, Function.update_self] at hnone ⊢
      exact hfree hnone
    · simp only [PinIrq.put, Function.update_of_ne heq] at hnone ⊢
      exact h.free n hn hnone
  port := h.port
  masked := h.masked
  served := h.served
  own n hn himr hhdr := by
    by_cases heq : n = line pin
    · subst heq
      simp only [PinIrq.put, Function.update_self] at hhdr ⊢
      exact hown himr hhdr
    · simp only [PinIrq.put, Function.update_of_ne heq] at hhdr ⊢
      exact h.own n hn himr hhdr

/-! ### The registers -/

theorem enable_exti (s : PinIrq H A) (pin : Int) (mode : BitVec 32) (hn : n < 16) :
    (s.enable pin mode).exti n = s.exti n ∨
      n = line pin ∧ ((s.enable pin mode).exti n).exticr = port pin := by
  simp only [enable, halGpioInit, getLsbD_pinbit (line_lt pin) hn, decide_eq_true_eq]
  split
  · next h => exact .inr ⟨h.1, rfl⟩
  · exact .inl rfl

theorem disable_exti (s : PinIrq H A) (pin : Int) (hn : n < 16) :
    (s.disable pin).exti n = s.exti n ∧ (n = line pin → (s.exti n).exticr ≠ port pin) ∨
      n = line pin ∧ (s.disable pin).exti n = ⟨0, false, false, false, false⟩ := by
  simp only [disable, halGpioDeInit, getLsbD_pinbit (line_lt pin) hn, decide_eq_true_eq]
  split
  · next h => exact .inr ⟨h.1, rfl⟩
  · next h => exact .inl ⟨rfl, fun hline hport => h ⟨hline, hport⟩⟩

theorem enable_mask (s : PinIrq H A) (pin : Int) (mode : BitVec 32) (hn : n < 16) :
    (s.enable pin mode).pinIrqEnableMask.getLsbD n = true ↔
      s.pinIrqEnableMask.getLsbD n = true ∨ n = line pin := by
  simp [enable, getLsbD_pinbit (line_lt pin) hn]

theorem disable_mask (s : PinIrq H A) (pin : Int) (hn : n < 16) :
    (s.disable pin).pinIrqEnableMask.getLsbD n = true ↔
      s.pinIrqEnableMask.getLsbD n = true ∧ n ≠ line pin := by
  have hword : n < 32 := by omega
  simp only [disable, BitVec.getLsbD_and, BitVec.getLsbD_not, getLsbD_pinbit (line_lt pin) hn]
  simp [hword]

/-- A line that stays in the mask keeps its interrupt. -/
theorem disable_nvic (hn : n < 16) (hmask : (s.disable pin).pinIrqEnableMask.getLsbD n = true) :
    (s.disable pin).nvic (lineIrqn n) = s.nvic (lineIrqn n) := by
  have hne := ((disable_mask s pin hn).mp hmask).2
  by_cases hidle : groupIdle (1#16 <<< line pin) (s.disable pin).pinIrqEnableMask = true
  · have hirqn : lineIrqn n ≠ lineIrqn (line pin) := by
      intro hgroup
      rw [groupIdle_clear (line_lt pin) hn hidle hgroup hne] at hmask
      exact absurd hmask (by decide)
    simp only [disable] at hidle ⊢
    rw [if_pos hidle, Function.update_of_ne hirqn]
  · simp only [disable] at hidle ⊢
    rw [if_neg hidle]

theorem disable_nvic_le {irqno : Irqn} (h : (s.disable pin).nvic irqno = true) :
    s.nvic irqno = true := by
  simp only [disable] at h
  split at h
  · by_cases hirqn : irqno = lineIrqn (line pin)
    · simp [hirqn] at h
    · rwa [Function.update_of_ne hirqn] at h
  · exact h

/-! ### Enabling and disabling -/

theorem Inv.frame_enable (h : s.Inv) (hfree : s.LineFree pin) (mode : BitVec 32)
    (hpin : PinValid pin) : Frame pin s (s.enable pin mode) rtEok := by
  refine ⟨fun _ _ _ => rfl, fun other hvalid hne => ⟨fun henabled => ?_, fun henabled => ?_⟩,
    fun h => absurd rfl h⟩
  · -- the line is connected to `other` still, so nothing but the interrupt has changed
    obtain hsame | ⟨hline, hport⟩ := enable_exti s pin mode (line_lt other)
    · have hselected := henabled.selected
      have himr := henabled.unmasked
      rw [hsame] at hselected himr
      exact ⟨hselected, himr, h.served _ (line_lt other) (h.masked _ (line_lt other) himr)⟩
    · exact absurd (pin_eq hvalid hpin (henabled.selected.symm.trans hport) hline) hne
  · have hline : line other ≠ line pin := fun hline => hne (hfree other hvalid hline henabled)
    obtain hsame | ⟨hline', -⟩ := enable_exti s pin mode (line_lt other)
    · refine ⟨by rw [hsame, henabled.selected], by rw [hsame, henabled.unmasked], ?_⟩
      simp only [enable, Function.update_apply]
      split
      · rfl
      · exact henabled.served
    · exact absurd hline' hline

theorem Inv.enable (h : s.Inv) (mode : BitVec 32) (hpin : PinValid pin)
    (howner : (s.pinIrqHdrTab (line pin)).pin = pin) : (s.enable pin mode).Inv where
  free := h.free
  port n hn := by
    obtain hsame | ⟨-, hport⟩ := enable_exti s pin mode hn
    · rw [hsame]
      exact h.port n hn
    · obtain ⟨hlow, hhigh⟩ := hpin
      rw [hport, Drivers.port]
      omega
  masked n hn himr := by
    rw [enable_mask s pin mode hn]
    obtain hsame | ⟨hline, -⟩ := enable_exti s pin mode hn
    · rw [hsame] at himr
      exact .inl (h.masked n hn himr)
    · exact .inr hline
  served n hn hmask := by
    simp only [PinIrq.enable, Function.update_apply]
    split
    · rfl
    · next hirqn =>
      obtain hold | hline := (enable_mask s pin mode hn).mp hmask
      · exact h.served n hn hold
      · exact absurd (congrArg lineIrqn hline) hirqn
  own n hn himr hhdr := by
    obtain hsame | ⟨hline, hport⟩ := enable_exti s pin mode hn
    · rw [hsame] at himr ⊢
      exact h.own n hn himr hhdr
    · subst hline
      rw [hport, ← pin_eq_port_line hpin]
      exact howner

theorem Inv.frame_disable (h : s.Inv) (hfree : s.LineFree pin) :
    Frame pin s (s.disable pin) rtEok := by
  refine ⟨fun _ _ _ => rfl, fun other hvalid hne => ⟨fun henabled => ?_, fun henabled => ?_⟩,
    fun h => absurd rfl h⟩
  · obtain ⟨hsame, -⟩ | ⟨-, hreset⟩ := disable_exti s pin (line_lt other)
    · exact ⟨by rw [← hsame, henabled.selected], by rw [← hsame, henabled.unmasked],
        disable_nvic_le henabled.served⟩
    · have himr := henabled.unmasked
      rw [hreset] at himr
      exact absurd himr (by decide)
  · have hline : line other ≠ line pin := fun hline => hne (hfree other hvalid hline henabled)
    obtain ⟨hsame, -⟩ | ⟨hline', -⟩ := disable_exti s pin (line_lt other)
    · refine ⟨by rw [hsame, henabled.selected], by rw [hsame, henabled.unmasked], ?_⟩
      have hmask : (s.disable pin).pinIrqEnableMask.getLsbD (line other) = true :=
        (disable_mask s pin (line_lt other)).mpr
          ⟨h.masked _ (line_lt other) henabled.unmasked, hline⟩
      rw [disable_nvic (line_lt other) hmask, henabled.served]
    · exact absurd hline' hline

theorem Inv.disable (h : s.Inv) (hfree : s.LineFree pin) : (s.disable pin).Inv where
  free := h.free
  port n hn := by
    obtain ⟨hsame, -⟩ | ⟨-, hreset⟩ := disable_exti s pin hn
    · rw [hsame]
      exact h.port n hn
    · rw [hreset]
      decide
  masked n hn himr := by
    obtain ⟨hsame, hport⟩ | ⟨-, hreset⟩ := disable_exti s pin hn
    · rw [hsame] at himr
      refine (disable_mask s pin hn).mpr ⟨h.masked n hn himr, fun hline => hport hline ?_⟩
      -- an unmasked line of the pin is connected to it
      subst hline
      rw [← (linePin_valid h hn).2.2, h.lineFree hfree himr]
    · rw [hreset] at himr
      exact absurd himr (by decide)
  served n hn hmask := by
    rw [disable_nvic hn hmask]
    exact h.served n hn ((disable_mask s pin hn).mp hmask).1
  own n hn himr hhdr := by
    obtain ⟨hsame, -⟩ | ⟨-, hreset⟩ := disable_exti s pin hn
    · rw [hsame] at himr ⊢
      exact h.own n hn himr hhdr
    · rw [hreset] at himr
      exact absurd himr (by decide)

/-! ## Calls leave the other pins alone -/

variable [DecidableEq H] [DecidableEq A] {call : PinCall H A}

/-- A call that meets the condition keeps the invariant, and does nothing to the other pins. -/
theorem Inv.step (h : s.Inv) (hvalid : PinValid call.pin) (hmeets : Meets call s) :
    (step call s).1.Inv ∧ Frame call.pin s (step call s).1 (step call s).2 := by
  have hsame : ∀ {s' : PinIrq H A}, s' = s → ∀ result, s'.Inv ∧ Frame call.pin s s' result := by
    rintro s' rfl result
    exact ⟨h, .refl _ _ _⟩
  cases call with
  | attach pin mode hdr args =>
    have hpin : PinValid pin := hvalid
    obtain hunchanged | ⟨hentry, hput⟩ := stm32PinAttachIrq_cases mode hdr args hpin
    · exact hsame hunchanged _
    · rw [PinIrq.step, hput]
      refine ⟨h.put (fun hnone => absurd hnone ?_) (fun himr hhdr => ?_),
        frame_put (.inl hentry) (.inr rfl)⟩
      · have hlow := hpin.1
        show pin ≠ -1
        omega
      · exact (h.lineFree (hmeets hentry hhdr) himr).symm
  | dettach pin =>
    have hpin : PinValid pin := hvalid
    obtain hunchanged | ⟨hused, hput⟩ := stm32PinDettachIrq_cases hpin
    · exact hsame hunchanged _
    · rw [PinIrq.step, hput]
      exact ⟨h.put (fun _ => rfl) (fun _ hhdr => absurd rfl hhdr),
        frame_put (.inr (hmeets hused)) (.inl rfl)⟩
  | irqEnable pin enabled uninitialised =>
    have hpin : PinValid pin := hvalid
    obtain hunchanged | ⟨henable, hused, mode, hdone⟩ | ⟨hdisable, hdone⟩ :=
      stm32PinIrqEnable_cases enabled uninitialised hpin
    · exact hsame hunchanged _
    · obtain ⟨howner, hfree⟩ := hmeets.1 henable hused
      rw [PinIrq.step, hdone]
      exact ⟨h.enable mode hpin howner, h.frame_enable hfree mode hpin⟩
    · have hfree := hmeets.2 hdisable
      rw [PinIrq.step, hdone]
      exact ⟨h.disable hfree, h.frame_disable hfree⟩

theorem Reached.inv (h : Reached s) : s.Inv := by
  induction h with
  | initial hinitial => exact hinitial.inv
  | call call _ hvalid hmeets ih => exact (ih.step hvalid hmeets).1

/-- As long as no call meets a line that another pin has taken, a call leaves the other pins as they
    are, changes nothing where it fails, and an interrupt of a line calls the handler of the pin that
    has enabled it. -/
theorem pin_irq_frame (h : Reached s) (hvalid : PinValid call.pin) (hmeets : Meets call s) :
    Frame call.pin s (step call s).1 (step call s).2 ∧ s.Calls ∧ (step call s).1.Calls := by
  obtain ⟨hinv, hframe⟩ := h.inv.step hvalid hmeets
  exact ⟨hframe, h.inv.calls, hinv.calls⟩

/-! ### Pins 5 and 21, of one line -/

/-- The tables as they are initialised. -/
def reset : PinIrq Unit Unit :=
  ⟨fun _ => ⟨-1, 0, none, none⟩, 0, fun _ => ⟨0, false, false, false, false⟩, fun _ => false⟩

theorem reset_initial : reset.Initial :=
  ⟨fun _ _ => rfl, fun _ _ => rfl, fun _ _ => rfl, rfl⟩

/-- Pin 5 is attached. -/
def attached : PinIrq Unit Unit := (step (.attach 5 0 (some ()) none) reset).1

/-- Pin 5 is attached and enabled. -/
def opened : PinIrq Unit Unit := (step (.irqEnable 5 pinIrqEnable 0) attached).1

theorem attached_reached : Reached attached :=
  .call _ (.initial reset_initial) (by constructor <;> decide)
    fun _ _ => lineFree_masked rfl

theorem opened_reached : Reached opened :=
  .call _ attached_reached (by constructor <;> decide)
    ⟨fun _ _ => ⟨rfl, lineFree_masked rfl⟩, fun h => absurd h (by decide)⟩

theorem opened_enabled : opened.Enabled 5 := by
  constructor <;> decide

/-- Pin 6 is attached while pin 5 is enabled. -/
theorem pin_irq_frame_attach :
    Frame 6 opened (step (.attach 6 1 (some ()) none) opened).1
      (step (.attach 6 1 (some ()) none) opened).2 ∧
    opened.Calls ∧ (step (.attach 6 1 (some ()) none) opened).1.Calls := by
  have hvalid : PinValid (PinCall.attach 6 1 (some ()) none : PinCall Unit Unit).pin := by
    constructor <;> decide
  have hmeets : Meets (.attach 6 1 (some ()) none) opened :=
    fun _ _ => lineFree_masked (by decide)
  exact pin_irq_frame opened_reached hvalid hmeets

/-- Pin 5 is attached, and enabled.  Pin 21, of the same line, can be detached, which takes the
    handler of pin 5 away, and disabled, which disables pin 5.  Where pin 5 is attached only, pin 21
    can be enabled, and its interrupts call the handler of pin 5. -/
theorem pin_irq_interferes :
    Reached opened ∧ Reached attached ∧
      ¬ Frame 21 opened (step (.dettach 21) opened).1 (step (.dettach 21) opened).2 ∧
      ¬ Frame 21 opened (step (.irqEnable 21 pinIrqDisable 0) opened).1
        (step (.irqEnable 21 pinIrqDisable 0) opened).2 ∧
      ¬ (step (.irqEnable 21 pinIrqEnable 0) attached).1.Calls := by
  have hfive : PinValid 5 := by constructor <;> decide
  have hother : PinValid 21 := by constructor <;> decide
  refine ⟨opened_reached, attached_reached, fun hframe => ?_, fun hframe => ?_, fun hcalls => ?_⟩
  · exact absurd (hframe.registered 5 hfive (by decide)) (by decide)
  · have henabled := (hframe.enabled 5 hfive (by decide)).mpr opened_enabled
    exact absurd henabled.served (by decide)
  · have henabled : (step (.irqEnable 21 pinIrqEnable 0) attached).1.Enabled 21 := by
      constructor <;> decide
    exact absurd (hcalls 21 hother henabled) (by decide)

end PinIrq

end PandoraRobot.Drivers
