import PandoraRobot.Kernel.Device

/-! # Opens and closes of a serial device

`rt_serial_init`, `rt_serial_open` and `rt_serial_close` of `serial.c`, below
`rt_device_open` and `rt_device_close`, and `rt_console_set_device` of `kservice.c`.
What the driver tells the low level through `control` is left out.

Every open overwrites the open flag, while the buffers stay as the first one has made
them.  A further open that does not name the mode in force leaves a buffer that is read
as something else, or that no close frees.
-/

namespace PandoraRobot.Drivers

open PandoraRobot.Kernel

/-- `RT_EIO`. -/
def rtEio : Int := 8

def rtDeviceFlagRdwr : BitVec 16 := 0x003
def rtDeviceFlagStream : BitVec 16 := 0x040
def rtDeviceFlagIntRx : BitVec 16 := 0x100
def rtDeviceFlagDmaRx : BitVec 16 := 0x200
def rtDeviceFlagIntTx : BitVec 16 := 0x400
def rtDeviceFlagDmaTx : BitVec 16 := 0x800

/-- How one direction of the device works. -/
inductive SerialMode where
  | poll
  | int
  | dma
  deriving DecidableEq, Repr

/-- The mode in which `rt_serial_read` reads, by the open flag. -/
def rxMode (openFlag : BitVec 16) : SerialMode :=
  if openFlag &&& rtDeviceFlagIntRx ≠ 0 then .int
  else if openFlag &&& rtDeviceFlagDmaRx ≠ 0 then .dma
  else .poll

/-- The mode in which `rt_serial_write` writes. -/
def txMode (openFlag : BitVec 16) : SerialMode :=
  if openFlag &&& rtDeviceFlagIntTx ≠ 0 then .int
  else if openFlag &&& rtDeviceFlagDmaTx ≠ 0 then .dma
  else .poll

/-- What an open asks `rt_malloc` for. -/
inductive SerialMemory where
  | rxFifo
  | rxDma
  | txFifo
  | txDma
  /-- The items of the data queue of an `rt_serial_tx_dma`. -/
  | dataItems
  deriving DecidableEq, Repr

/-- What `serial_rx` and `serial_tx` point to, with the mode for which it was allocated. -/
structure SerialBuffer where
  id : Nat
  memory : SerialMemory
  mode : SerialMode
  deriving DecidableEq, Repr

/-- What one call finds: the result of `ops->configure`, and which requests `rt_malloc` grants. -/
structure SerialEnv where
  configure : Int
  memory : SerialMemory → Bool

/-- `struct rt_serial_device`, with an account of the memory its opens have allocated. -/
structure SerialDevice where
  flag : BitVec 16
  openFlag : BitVec 16
  refCount : BitVec 8
  bufsz : BitVec 16
  serialRx : Option SerialBuffer
  serialTx : Option SerialBuffer
  /-- How many blocks have been allocated. -/
  allocated : Nat
  /-- How often each block has been freed. -/
  freed : Nat → Nat

namespace SerialDevice

/-- `serial->parent`.  `rt_hw_serial_register` sets all its callbacks. -/
def parent (s : SerialDevice) : RtDevice := ⟨s.flag, s.openFlag, s.refCount, true, true, true⟩

def rtMalloc (memory : SerialMemory) (mode : SerialMode) (env : SerialEnv) (s : SerialDevice) :
    Exec (SerialDevice × SerialBuffer) := do
  rtAssert (env.memory memory = true)
  pure ({ s with allocated := s.allocated + 1 }, ⟨s.allocated, memory, mode⟩)

def rtFree (buffer : SerialBuffer) (s : SerialDevice) : SerialDevice :=
  { s with freed := Function.update s.freed buffer.id (s.freed buffer.id + 1) }

/-- `rt_data_queue_init`, whose result `rt_serial_open` does not look at. -/
def rtDataQueueInit (env : SerialEnv) (s : SerialDevice) : SerialDevice :=
  if env.memory .dataItems then { s with allocated := s.allocated + 1 } else s

/-- `rt_serial_init`. -/
def rtSerialInit (env : SerialEnv) (s : SerialDevice) : SerialDevice × Int :=
  ({ s with serialRx := none, serialTx := none }, env.configure)

/-- The receive part of `rt_serial_open`. -/
def openRx (oflag : BitVec 16) (env : SerialEnv) (s : SerialDevice) : Exec SerialDevice :=
  if s.serialRx = none then
    if oflag &&& rtDeviceFlagIntRx ≠ 0 then do
      let (s, rxFifo) ← s.rtMalloc .rxFifo .int env
      pure { s with serialRx := some rxFifo, openFlag := s.openFlag ||| rtDeviceFlagIntRx }
    else if oflag &&& rtDeviceFlagDmaRx ≠ 0 then do
      let (s, buffer) ← s.rtMalloc (if s.bufsz = 0 then .rxDma else .rxFifo) .dma env
      pure { s with serialRx := some buffer, openFlag := s.openFlag ||| rtDeviceFlagDmaRx }
    else pure { s with serialRx := none }
  else if oflag &&& rtDeviceFlagIntRx ≠ 0 then
    pure { s with openFlag := s.openFlag ||| rtDeviceFlagIntRx }
  else if oflag &&& rtDeviceFlagDmaRx ≠ 0 then
    pure { s with openFlag := s.openFlag ||| rtDeviceFlagDmaRx }
  else pure s

/-- Its transmit part. -/
def openTx (oflag : BitVec 16) (env : SerialEnv) (s : SerialDevice) : Exec SerialDevice :=
  if s.serialTx = none then
    if oflag &&& rtDeviceFlagIntTx ≠ 0 then do
      let (s, txFifo) ← s.rtMalloc .txFifo .int env
      pure { s with serialTx := some txFifo, openFlag := s.openFlag ||| rtDeviceFlagIntTx }
    else if oflag &&& rtDeviceFlagDmaTx ≠ 0 then do
      let (s, txDma) ← s.rtMalloc .txDma .dma env
      let s := s.rtDataQueueInit env
      pure { s with serialTx := some txDma, openFlag := s.openFlag ||| rtDeviceFlagDmaTx }
    else pure { s with serialTx := none }
  else if oflag &&& rtDeviceFlagIntTx ≠ 0 then
    pure { s with openFlag := s.openFlag ||| rtDeviceFlagIntTx }
  else if oflag &&& rtDeviceFlagDmaTx ≠ 0 then
    pure { s with openFlag := s.openFlag ||| rtDeviceFlagDmaTx }
  else pure s

/-- The device has the modes of an open flag. -/
def Supports (flag oflag : BitVec 16) : Prop :=
  (oflag &&& rtDeviceFlagDmaRx ≠ 0 → flag &&& rtDeviceFlagDmaRx ≠ 0) ∧
    (oflag &&& rtDeviceFlagDmaTx ≠ 0 → flag &&& rtDeviceFlagDmaTx ≠ 0) ∧
    (oflag &&& rtDeviceFlagIntRx ≠ 0 → flag &&& rtDeviceFlagIntRx ≠ 0) ∧
    (oflag &&& rtDeviceFlagIntTx ≠ 0 → flag &&& rtDeviceFlagIntTx ≠ 0)

instance (flag oflag : BitVec 16) : Decidable (Supports flag oflag) :=
  inferInstanceAs (Decidable (_ ∧ _ ∧ _ ∧ _))

/-- `rt_serial_open`. -/
def rtSerialOpen (oflag : BitVec 16) (env : SerialEnv) (s : SerialDevice) :
    Exec (SerialDevice × Int) :=
  if Supports s.flag oflag then do
    -- keep steam flag
    let streamFlag :=
      if oflag &&& rtDeviceFlagStream ≠ 0 ∨ s.openFlag &&& rtDeviceFlagStream ≠ 0 then
        rtDeviceFlagStream
      else 0
    let s := { s with openFlag := oflag &&& 0xff }
    let s ← s.openRx oflag env
    let s ← s.openTx oflag env
    pure ({ s with openFlag := s.openFlag ||| streamFlag }, rtEok)
  else pure (s, -rtEio)

/-- `RT_ASSERT` that a buffer is there. -/
def checked (buffer : Option SerialBuffer) : Exec SerialBuffer :=
  match buffer with
  | some buffer => pure buffer
  | none => throw .assertion

/-- The receive part of `rt_serial_close`.  A DMA buffer is freed whatever it is, by `bufsz`. -/
def closeRx (s : SerialDevice) : Exec SerialDevice :=
  if s.openFlag &&& rtDeviceFlagIntRx ≠ 0 then do
    let rxFifo ← checked s.serialRx
    let s := s.rtFree rxFifo
    pure { s with serialRx := none, openFlag := s.openFlag &&& ~~~rtDeviceFlagIntRx }
  else if s.openFlag &&& rtDeviceFlagDmaRx ≠ 0 then do
    let buffer ← checked s.serialRx
    let s := s.rtFree buffer
    pure { s with serialRx := none, openFlag := s.openFlag &&& ~~~rtDeviceFlagDmaRx }
  else pure s

/-- Its transmit part.  The items of the data queue are not freed. -/
def closeTx (s : SerialDevice) : Exec SerialDevice :=
  if s.openFlag &&& rtDeviceFlagIntTx ≠ 0 then do
    let txFifo ← checked s.serialTx
    let s := s.rtFree txFifo
    pure { s with serialTx := none, openFlag := s.openFlag &&& ~~~rtDeviceFlagIntTx }
  else if s.openFlag &&& rtDeviceFlagDmaTx ≠ 0 then do
    let txDma ← checked s.serialTx
    let s := s.rtFree txDma
    pure { s with serialTx := none, openFlag := s.openFlag &&& ~~~rtDeviceFlagDmaTx }
  else pure s

/-- `rt_serial_close`. -/
def rtSerialClose (s : SerialDevice) : Exec (SerialDevice × Int) :=
  if 1 < s.refCount then pure (s, rtEok)
  else do
    let s ← s.closeRx
    let s ← s.closeTx
    pure (s, rtEok)

/-- `rt_device_open` once the device is initialised. -/
def rtDeviceOpenActivated (oflag : BitVec 16) (env : SerialEnv) (s : SerialDevice) :
    Exec (SerialDevice × Int) :=
  if s.flag &&& rtDeviceFlagStandalone ≠ 0 ∧ s.openFlag &&& rtDeviceOflagOpen ≠ 0 then
    pure (s, -rtEbusy)
  else do
    let (s, result) ← s.rtSerialOpen oflag env
    if Success result then do
      let refCount := s.refCount + 1
      rtAssert (refCount ≠ 0)
      pure ({ s with openFlag := s.openFlag ||| rtDeviceOflagOpen, refCount }, result)
    else pure (s, result)

/-- `rt_device_open` of the serial device. -/
def rtDeviceOpen (oflag : BitVec 16) (env : SerialEnv) (s : SerialDevice) :
    Exec (SerialDevice × Int) :=
  if s.flag &&& rtDeviceFlagActivated = 0 then
    let (s, result) := s.rtSerialInit env
    if result = rtEok then
      rtDeviceOpenActivated oflag env { s with flag := s.flag ||| rtDeviceFlagActivated }
    else pure (s, result)
  else rtDeviceOpenActivated oflag env s

/-- `rt_device_close` of the serial device. -/
def rtDeviceClose (s : SerialDevice) : Exec (SerialDevice × Int) :=
  if s.refCount = 0 then pure (s, -rtError)
  else
    let s := { s with refCount := s.refCount - 1 }
    if s.refCount ≠ 0 then pure (s, rtEok)
    else do
      let (s, result) ← s.rtSerialClose
      if Success result then pure ({ s with openFlag := rtDeviceOflagClose }, result)
      else pure (s, result)

/-! ## Modes -/

theorem and_bit_ne_zero (flag : BitVec 16) (i : Nat) (hi : i < 16) :
    flag &&& BitVec.twoPow 16 i ≠ 0 ↔ flag.getLsbD i = true := by
  rw [BitVec.and_twoPow]
  cases flag.getLsbD i with
  | true =>
    simp only [if_true, iff_true]
    intro hzero
    have := congrArg (fun x => x.getLsbD i) hzero
    simp [hi] at this
  | false => simp

theorem rxMode_ne_poll (flag : BitVec 16) : rxMode flag ≠ .poll ↔
    flag &&& rtDeviceFlagIntRx ≠ 0 ∨ flag &&& rtDeviceFlagDmaRx ≠ 0 := by
  unfold rxMode
  split
  case isTrue hint => exact ⟨fun _ => .inl hint, fun _ => by decide⟩
  case isFalse hint => split <;> simp_all

theorem txMode_ne_poll (flag : BitVec 16) : txMode flag ≠ .poll ↔
    flag &&& rtDeviceFlagIntTx ≠ 0 ∨ flag &&& rtDeviceFlagDmaTx ≠ 0 := by
  unfold txMode
  split
  case isTrue hint => exact ⟨fun _ => .inl hint, fun _ => by decide⟩
  case isFalse hint => split <;> simp_all

theorem rxMode_eq (flag : BitVec 16) :
    rxMode flag = if flag.getLsbD 8 then .int else if flag.getLsbD 9 then .dma else .poll := by
  have hint := and_bit_ne_zero flag 8 (by omega)
  have hdma := and_bit_ne_zero flag 9 (by omega)
  unfold rxMode
  congr 1
  · exact propext hint
  · congr 1
    exact propext hdma

theorem txMode_eq (flag : BitVec 16) :
    txMode flag = if flag.getLsbD 10 then .int else if flag.getLsbD 11 then .dma else .poll := by
  have hint := and_bit_ne_zero flag 10 (by omega)
  have hdma := and_bit_ne_zero flag 11 (by omega)
  unfold txMode
  congr 1
  · exact propext hint
  · congr 1
    exact propext hdma

/-- The open flag with more bits, which are not those of the receive mode. -/
theorem rxMode_or {flag bits : BitVec 16} (h : bits &&& 0x300 = 0) :
    rxMode (flag ||| bits) = rxMode flag := by
  have h8 := congrArg (fun x => x.getLsbD 8) h
  have h9 := congrArg (fun x => x.getLsbD 9) h
  simp at h8 h9
  simp [rxMode_eq, h8, h9]

theorem txMode_or {flag bits : BitVec 16} (h : bits &&& 0xc00 = 0) :
    txMode (flag ||| bits) = txMode flag := by
  have h10 := congrArg (fun x => x.getLsbD 10) h
  have h11 := congrArg (fun x => x.getLsbD 11) h
  simp at h10 h11
  simp [txMode_eq, h10, h11]

theorem txMode_and {flag bits : BitVec 16} (h : bits &&& 0xc00 = 0xc00) :
    txMode (flag &&& bits) = txMode flag := by
  have h10 := congrArg (fun x => x.getLsbD 10) h
  have h11 := congrArg (fun x => x.getLsbD 11) h
  simp at h10 h11
  simp [txMode_eq, h10, h11]

theorem rxMode_intRx (flag : BitVec 16) : rxMode (flag ||| rtDeviceFlagIntRx) = .int := by
  simp [rxMode_eq, rtDeviceFlagIntRx]

theorem rxMode_dmaRx {flag : BitVec 16} (h : rxMode flag = .poll) :
    rxMode (flag ||| rtDeviceFlagDmaRx) = .dma := by
  rw [rxMode_eq] at h ⊢
  cases hint : flag.getLsbD 8 with
  | true => simp only [hint, if_true, reduceCtorEq] at h
  | false =>
    simp only [BitVec.getLsbD_or, hint]
    simp [rtDeviceFlagDmaRx]

theorem txMode_intTx (flag : BitVec 16) : txMode (flag ||| rtDeviceFlagIntTx) = .int := by
  simp [txMode_eq, rtDeviceFlagIntTx]

theorem txMode_dmaTx {flag : BitVec 16} (h : txMode flag = .poll) :
    txMode (flag ||| rtDeviceFlagDmaTx) = .dma := by
  rw [txMode_eq] at h ⊢
  cases hint : flag.getLsbD 10 with
  | true => simp only [hint, if_true, reduceCtorEq] at h
  | false =>
    simp only [BitVec.getLsbD_or, hint]
    simp [rtDeviceFlagDmaTx]

/-- The bits of a receive mode. -/
def rxBits : SerialMode → BitVec 16
  | .poll => 0
  | .int => rtDeviceFlagIntRx
  | .dma => rtDeviceFlagDmaRx

/-- The bits of a transmit mode. -/
def txBits : SerialMode → BitVec 16
  | .poll => 0
  | .int => rtDeviceFlagIntTx
  | .dma => rtDeviceFlagDmaTx

theorem rxMode_close : rxMode rtDeviceOflagClose = .poll := by decide

theorem txMode_close : txMode rtDeviceOflagClose = .poll := by decide

theorem rxMode_rxBits {flag : BitVec 16} (h : rxMode flag = .poll) (mode : SerialMode) :
    rxMode (flag ||| rxBits mode) = mode := by
  cases mode with
  | poll => simpa [rxBits] using h
  | int => exact rxMode_intRx flag
  | dma => exact rxMode_dmaRx h

theorem txMode_txBits {flag : BitVec 16} (h : txMode flag = .poll) (mode : SerialMode) :
    txMode (flag ||| txBits mode) = mode := by
  cases mode with
  | poll => simpa [txBits] using h
  | int => exact txMode_intTx flag
  | dma => exact txMode_dmaTx h

theorem txMode_rxBits (flag : BitVec 16) (mode : SerialMode) :
    txMode (flag ||| rxBits mode) = txMode flag :=
  txMode_or (by cases mode <;> decide)

theorem rxMode_txBits (flag : BitVec 16) (mode : SerialMode) :
    rxMode (flag ||| txBits mode) = rxMode flag :=
  rxMode_or (by cases mode <;> decide)

theorem rxMode_low (oflag : BitVec 16) : rxMode (oflag &&& 0xff) = .poll := by
  simp [rxMode_eq]

theorem txMode_low (oflag : BitVec 16) : txMode (oflag &&& 0xff) = .poll := by
  simp [txMode_eq]

/-! ## Buffers -/

/-- A buffer is there exactly in the modes that need one, and was allocated for the mode. -/
structure Agrees (buffer : Option SerialBuffer) (mode : SerialMode) : Prop where
  allocated : buffer = none ↔ mode = .poll
  mode : ∀ b, buffer = some b → mode = b.mode

/-- How often a pointer points to a block. -/
def refs (buffer : Option SerialBuffer) (id : Nat) : Nat :=
  if buffer.map SerialBuffer.id = some id then 1 else 0

/-- Each block that has been allocated is in use, once, or has been freed, once. -/
def Balanced (s : SerialDevice) : Prop :=
  ∀ id, s.freed id + refs s.serialRx id + refs s.serialTx id = if id < s.allocated then 1 else 0

@[simp] theorem refs_none (id : Nat) : refs none id = 0 := rfl

theorem refs_some (b : SerialBuffer) (id : Nat) :
    refs (some b) id = if b.id = id then 1 else 0 := by
  simp [refs]

theorem agrees_none : Agrees none .poll := ⟨by simp, by simp⟩

theorem agrees_some {id : Nat} {memory : SerialMemory} {mode : SerialMode} (h : mode ≠ .poll) :
    Agrees (some ⟨id, memory, mode⟩) mode := by
  constructor
  · simp [h]
  · rintro b ⟨rfl⟩
    rfl

variable {oflag : BitVec 16} {env : SerialEnv} {s s' : SerialDevice} {result : Int}

/-- A block in use has not been freed. -/
theorem Balanced.freed_rx (h : s.Balanced) {b : SerialBuffer} (hb : s.serialRx = some b) :
    s.freed b.id = 0 := by
  have hid := h b.id
  rw [hb, refs_some, if_pos rfl] at hid
  split at hid <;> omega

theorem Balanced.freed_le (h : s.Balanced) (id : Nat) : s.freed id ≤ 1 := by
  have hid := h id
  split at hid <;> omega

/-- Without buffers, all that has been allocated has been freed. -/
theorem Balanced.freed_all (h : s.Balanced) (hrx : s.serialRx = none) (htx : s.serialTx = none)
    {id : Nat} (hid : id < s.allocated) : s.freed id = 1 := by
  have := h id
  simpa [hrx, htx, hid] using this

/-- A new block is the next one. -/
theorem Balanced.fresh {rx tx : Option SerialBuffer} {freed : Nat → Nat} {n : Nat}
    (h : ∀ id, freed id + refs rx id + refs tx id = if id < n then 1 else 0) (hrx : rx = none)
    (memory : SerialMemory) (mode : SerialMode) (id : Nat) :
    freed id + refs (some ⟨n, memory, mode⟩) id + refs tx id = if id < n + 1 then 1 else 0 := by
  have hid := h id
  rw [hrx, refs_none] at hid
  simp only [refs_some]
  split at hid <;> split <;> split <;> omega

/-! ## Opens -/

/-- What the receive part of an open does: it makes a buffer for the mode of `oflag` where there
    is none, and marks the mode. -/
theorem openRx_cases (h : s.openRx oflag env = .ok s') :
    (s.serialRx = none ∧ rxMode oflag ≠ .poll ∧ ∃ memory, s' =
      { s with
        serialRx := some ⟨s.allocated, memory, rxMode oflag⟩
        allocated := s.allocated + 1
        openFlag := s.openFlag ||| rxBits (rxMode oflag) }) ∨
    ((s.serialRx = none → rxMode oflag = .poll) ∧
      s' = { s with openFlag := s.openFlag ||| rxBits (rxMode oflag) }) := by
  unfold openRx at h
  by_cases hint : oflag &&& rtDeviceFlagIntRx ≠ 0
  · have hmode : rxMode oflag = .int := if_pos hint
    simp only [hmode, rxBits]
    split at h
    case isTrue hnone =>
      simp only [rtMalloc, exec_bind_ok, exec_pure_ok] at h
      obtain ⟨_, ⟨_, _, rfl⟩, rfl⟩ := h
      exact .inl ⟨hnone, by simp, _, rfl⟩
    case isFalse hsome =>
      simp only [exec_pure_ok] at h
      exact .inr ⟨fun hnone => absurd hnone hsome, h.symm⟩
  by_cases hdma : oflag &&& rtDeviceFlagDmaRx ≠ 0
  · have hmode : rxMode oflag = .dma := (if_neg hint).trans (if_pos hdma)
    simp only [hmode, rxBits]
    split at h
    case isTrue hnone =>
      simp only [rtMalloc, exec_bind_ok, exec_pure_ok] at h
      obtain ⟨_, ⟨_, _, rfl⟩, rfl⟩ := h
      exact .inl ⟨hnone, by simp, _, rfl⟩
    case isFalse hsome =>
      simp only [exec_pure_ok] at h
      exact .inr ⟨fun hnone => absurd hnone hsome, h.symm⟩
  · have hmode : rxMode oflag = .poll := (if_neg hint).trans (if_neg hdma)
    have hbits : s.openFlag ||| rxBits .poll = s.openFlag := by simp [rxBits]
    refine .inr ⟨fun _ => hmode, ?_⟩
    rw [hmode, hbits]
    split at h
    case isTrue hnone =>
      simp only [exec_pure_ok] at h
      rw [← h, ← hnone]
    case isFalse hsome =>
      simp only [exec_pure_ok] at h
      exact h.symm

/-- The transmit part does the same for `serial_tx`, and makes a data queue for a DMA buffer. -/
theorem openTx_cases (h : s.openTx oflag env = .ok s') :
    (s.serialTx = none ∧ txMode oflag ≠ .poll ∧ ∃ memory, s' =
      { s with
        serialTx := some ⟨s.allocated, memory, txMode oflag⟩
        allocated := s.allocated +
          if txMode oflag = .dma ∧ env.memory .dataItems = true then 2 else 1
        openFlag := s.openFlag ||| txBits (txMode oflag) }) ∨
    ((s.serialTx = none → txMode oflag = .poll) ∧
      s' = { s with openFlag := s.openFlag ||| txBits (txMode oflag) }) := by
  unfold openTx at h
  -- interrupt mode goes before DMA, and without either the device is polled
  by_cases hint : oflag &&& rtDeviceFlagIntTx ≠ 0
  · have hmode : txMode oflag = .int := if_pos hint
    simp only [hmode, txBits]
    split at h
    case isTrue hnone =>
      simp only [rtMalloc, exec_bind_ok, exec_pure_ok] at h
      obtain ⟨_, ⟨_, _, rfl⟩, rfl⟩ := h
      exact .inl ⟨hnone, by simp, _, rfl⟩
    case isFalse hsome =>
      simp only [exec_pure_ok] at h
      exact .inr ⟨fun hnone => absurd hnone hsome, h.symm⟩
  by_cases hdma : oflag &&& rtDeviceFlagDmaTx ≠ 0
  · have hmode : txMode oflag = .dma := (if_neg hint).trans (if_pos hdma)
    simp only [hmode, txBits]
    split at h
    case isTrue hnone =>
      simp only [rtMalloc, rtDataQueueInit, exec_bind_ok, exec_pure_ok] at h
      obtain ⟨_, ⟨_, _, rfl⟩, rfl⟩ := h
      refine .inl ⟨hnone, by simp, .txDma, ?_⟩
      cases hitems : env.memory .dataItems with
      | true => simp
      | false => simp
    case isFalse hsome =>
      simp only [exec_pure_ok] at h
      exact .inr ⟨fun hnone => absurd hnone hsome, h.symm⟩
  · have hmode : txMode oflag = .poll := (if_neg hint).trans (if_neg hdma)
    have hbits : s.openFlag ||| txBits .poll = s.openFlag := by simp [txBits]
    refine .inr ⟨fun _ => hmode, ?_⟩
    rw [hmode, hbits]
    split at h
    case isTrue hnone =>
      simp only [exec_pure_ok] at h
      rw [← h, ← hnone]
    case isFalse hsome =>
      simp only [exec_pure_ok] at h
      exact h.symm

/-- `rt_serial_open` changes neither the flags of the device nor its reference counter. -/
theorem rtSerialOpen_frame (h : s.rtSerialOpen oflag env = .ok (s', result)) :
    s'.flag = s.flag ∧ s'.refCount = s.refCount := by
  unfold rtSerialOpen at h
  split at h
  case isFalse =>
    simp only [exec_pure_ok, Prod.mk.injEq] at h
    obtain ⟨rfl, rfl⟩ := h
    exact ⟨rfl, rfl⟩
  case isTrue =>
    simp only [exec_bind_ok, exec_pure_ok, Prod.mk.injEq] at h
    obtain ⟨s₁, hrx, s₂, htx, rfl, rfl⟩ := h
    have hfirst : s₁.flag = s.flag ∧ s₁.refCount = s.refCount := by
      obtain ⟨-, -, _, rfl⟩ | ⟨-, rfl⟩ := openRx_cases hrx
      · exact ⟨rfl, rfl⟩
      · exact ⟨rfl, rfl⟩
    obtain ⟨-, -, _, rfl⟩ | ⟨-, rfl⟩ := openTx_cases htx
    · exact hfirst
    · exact hfirst

/-- An open of the serial device is one of `rt_device_open`, for what its driver does. -/
theorem rtDeviceOpen_parent (h : s.rtDeviceOpen oflag env = .ok (s', result)) :
    ∃ driver, Kernel.rtDeviceOpen oflag driver s.parent = .ok (s'.parent, result) := by
  have hactivated : ∀ s₁ : SerialDevice, s₁.rtDeviceOpenActivated oflag env = .ok (s', result) →
      ∃ driver, driver.init = env.configure ∧
        Kernel.rtDeviceOpenActivated oflag driver s₁.parent = .ok (s'.parent, result) := by
    intro s₁ hopen
    unfold rtDeviceOpenActivated at hopen
    split at hopen
    case isTrue hbusy =>
      simp only [exec_pure_ok, Prod.mk.injEq] at hopen
      obtain ⟨rfl, rfl⟩ := hopen
      exact ⟨⟨env.configure, rtEok, none⟩, rfl, if_pos hbusy⟩
    case isFalse hfree =>
      simp only [exec_bind_ok] at hopen
      obtain ⟨⟨s₂, result₂⟩, hserial, hopen⟩ := hopen
      obtain ⟨hflag, hcount⟩ := rtSerialOpen_frame hserial
      refine ⟨⟨env.configure, result₂, some s₂.openFlag⟩, rfl, (if_neg hfree).trans ?_⟩
      simp only [parent, if_true, Option.getD_some]
      split at hopen
      case isTrue hsuccess =>
        simp only [exec_bind_ok, rtAssert_eq_ok, exec_pure_ok, Prod.mk.injEq] at hopen
        obtain ⟨_, hroom, rfl, rfl⟩ := hopen
        rw [hcount] at hroom
        rw [if_pos hsuccess, hflag, hcount]
        simp only [exec_bind_ok]
        exact ⟨(), rtAssert_eq_ok.mpr hroom, rfl⟩
      case isFalse hfails =>
        simp only [exec_pure_ok, Prod.mk.injEq] at hopen
        obtain ⟨rfl, rfl⟩ := hopen
        rw [if_neg hfails, hflag, hcount]
        rfl
  unfold rtDeviceOpen at h
  split at h
  case isTrue hfirst =>
    change (if (s.rtSerialInit env).2 = rtEok then _ else _) = _ at h
    by_cases hinit : (s.rtSerialInit env).2 = rtEok
    · rw [if_pos hinit] at h
      obtain ⟨driver, hdriver, hopen⟩ := hactivated _ h
      refine ⟨driver, (if_pos hfirst).trans ?_⟩
      rw [if_neg (fun hfails => hfails.2 (hdriver.trans hinit))]
      exact hopen
    · rw [if_neg hinit] at h
      simp only [exec_pure_ok, Prod.mk.injEq] at h
      obtain ⟨rfl, rfl⟩ := h
      refine ⟨⟨env.configure, rtEok, none⟩, (if_pos hfirst).trans ?_⟩
      exact if_pos ⟨rfl, hinit⟩
  case isFalse hlater =>
    obtain ⟨driver, -, hopen⟩ := hactivated s h
    exact ⟨driver, (if_neg hlater).trans hopen⟩

/-- The modes in force, if any, are those that `oflag` names. -/
def KeepsModes (oflag openFlag : BitVec 16) : Prop :=
  (rxMode openFlag = .poll ∨ rxMode oflag = rxMode openFlag) ∧
    (txMode openFlag = .poll ∨ txMode oflag = txMode openFlag)

/-- An open that finds a buffer names the mode of the buffer. -/
theorem Agrees.keeps {buffer : Option SerialBuffer} {mode mode' : SerialMode}
    (h : Agrees buffer mode) (hkeeps : mode = .poll ∨ mode' = mode) :
    buffer = none ∨ Agrees buffer mode' := by
  obtain hpoll | rfl := hkeeps
  · exact .inl (h.allocated.mpr hpoll)
  · exact .inr h

/-- What an open leaves: buffers for the modes of `oflag`, and the account of memory in order. -/
theorem openRx_spec (hold : s.serialRx = none ∨ Agrees s.serialRx (rxMode oflag))
    (hclear : rxMode s.openFlag = .poll) (hb : s.Balanced) (h : s.openRx oflag env = .ok s') :
    Agrees s'.serialRx (rxMode oflag) ∧ rxMode s'.openFlag = rxMode oflag ∧
      txMode s'.openFlag = txMode s.openFlag ∧ s'.serialTx = s.serialTx ∧ s'.Balanced := by
  obtain ⟨hnone, hmode, memory, rfl⟩ | ⟨hnone, rfl⟩ := openRx_cases h
  · refine ⟨agrees_some hmode, rxMode_rxBits hclear _, txMode_rxBits _ _, rfl, fun id => ?_⟩
    exact Balanced.fresh hb hnone memory _ id
  · refine ⟨?_, rxMode_rxBits hclear _, txMode_rxBits _ _, rfl, hb⟩
    obtain hold | hold := hold
    · show Agrees s.serialRx (rxMode oflag)
      rw [hold, hnone hold]
      exact agrees_none
    · exact hold

theorem openTx_spec (hold : s.serialTx = none ∨ Agrees s.serialTx (txMode oflag))
    (hclear : txMode s.openFlag = .poll) (hb : s.Balanced)
    (hqueue : s.serialTx = none → txMode oflag = .dma → env.memory .dataItems = false)
    (h : s.openTx oflag env = .ok s') :
    Agrees s'.serialTx (txMode oflag) ∧ txMode s'.openFlag = txMode oflag ∧
      rxMode s'.openFlag = rxMode s.openFlag ∧ s'.serialRx = s.serialRx ∧ s'.Balanced := by
  obtain ⟨hnone, hmode, memory, rfl⟩ | ⟨hnone, rfl⟩ := openTx_cases h
  · refine ⟨agrees_some hmode, txMode_txBits hclear _, rxMode_txBits _ _, rfl, fun id => ?_⟩
    have hno : ¬ (txMode oflag = .dma ∧ env.memory .dataItems = true) := by
      rintro ⟨hdma, hitems⟩
      simp [hqueue hnone hdma] at hitems
    have hswap : ∀ id, s.freed id + refs s.serialTx id + refs s.serialRx id =
        if id < s.allocated then 1 else 0 := fun id => by rw [Nat.add_right_comm, hb id]
    have hfresh := Balanced.fresh hswap hnone memory (txMode oflag) id
    rw [Nat.add_right_comm] at hfresh
    simpa only [if_neg hno] using hfresh
  · refine ⟨?_, txMode_txBits hclear _, rxMode_txBits _ _, rfl, hb⟩
    obtain hold | hold := hold
    · show Agrees s.serialTx (txMode oflag)
      rw [hold, hnone hold]
      exact agrees_none
    · exact hold

/-- Both buffers are there as the open flag says, and no memory is lost. -/
structure Inv (s : SerialDevice) : Prop where
  rx : Agrees s.serialRx (rxMode s.openFlag)
  tx : Agrees s.serialTx (txMode s.openFlag)
  balanced : s.Balanced
  closed : s.refCount = 0 → s.openFlag = 0
  activated : s.flag &&& rtDeviceFlagActivated = 0 → s.refCount = 0

/-- The device refuses a second open. -/
def Busy (s : SerialDevice) : Prop :=
  s.flag &&& rtDeviceFlagStandalone ≠ 0 ∧ s.openFlag &&& rtDeviceOflagOpen ≠ 0

/-- An open that the device takes names the modes in force, and makes no data queue.  Where there
    is a transmit buffer already, it makes none in any case. -/
def OpenMeets (oflag : BitVec 16) (env : SerialEnv) (s : SerialDevice) : Prop :=
  Supports s.flag oflag → ¬ s.Busy → KeepsModes oflag s.openFlag ∧
    (s.serialTx = none → txMode oflag = .dma → env.memory .dataItems = false)

theorem Inv.rtSerialOpen (hi : s.Inv) (hfree : ¬ s.Busy) (hmeets : OpenMeets oflag env s)
    (h : s.rtSerialOpen oflag env = .ok (s', result)) :
    (result = -rtEio ∧ s' = s) ∨
      (result = rtEok ∧ Agrees s'.serialRx (rxMode oflag) ∧ rxMode s'.openFlag = rxMode oflag ∧
        Agrees s'.serialTx (txMode oflag) ∧ txMode s'.openFlag = txMode oflag ∧ s'.Balanced ∧
        KeepsModes oflag s.openFlag) := by
  unfold SerialDevice.rtSerialOpen at h
  split at h
  case isFalse =>
    simp only [exec_pure_ok, Prod.mk.injEq] at h
    exact .inl ⟨h.2.symm, h.1.symm⟩
  case isTrue hsupports =>
    obtain ⟨hkeeps, hqueue⟩ := hmeets hsupports hfree
    simp only [exec_bind_ok, exec_pure_ok, Prod.mk.injEq] at h
    obtain ⟨s₁, hrx, s₂, htx, rfl, rfl⟩ := h
    obtain ⟨hagrees, hmode, hclear, htx₁, hb₁⟩ :=
      openRx_spec (s := { s with openFlag := oflag &&& 0xff }) (hi.rx.keeps hkeeps.1)
        (rxMode_low oflag) hi.balanced hrx
    have htxOld : s₁.serialTx = none ∨ Agrees s₁.serialTx (txMode oflag) := by
      rw [htx₁]
      exact hi.tx.keeps hkeeps.2
    obtain ⟨hagrees', hmode', hkept, hrx₂, hb₂⟩ :=
      openTx_spec htxOld (hclear.trans (txMode_low oflag)) hb₁
        (fun hnone => hqueue (htx₁ ▸ hnone)) htx
    have hstream : ∀ p : Prop, ∀ _ : Decidable p,
        (if p then rtDeviceFlagStream else 0) &&& 0x300 = 0 ∧
          (if p then rtDeviceFlagStream else 0) &&& 0xc00 = 0 := by
      intro p _
      split <;> decide
    refine .inr ⟨rfl, ?_, ?_, hagrees', ?_, hb₂, hkeeps⟩
    · show Agrees s₂.serialRx (rxMode oflag)
      rwa [hrx₂]
    · rw [rxMode_or (hstream _ _).1, hkept, hmode]
    · rw [txMode_or (hstream _ _).2, hmode']

/-- A receive mode that is in force stays. -/
def KeepsRx (s s' : SerialDevice) : Prop :=
  rxMode s.openFlag ≠ .poll → rxMode s'.openFlag = rxMode s.openFlag

theorem Inv.openActivated (hi : s.Inv) (hactivated : s.flag &&& rtDeviceFlagActivated ≠ 0)
    (hmeets : OpenMeets oflag env s)
    (h : s.rtDeviceOpenActivated oflag env = .ok (s', result)) : s'.Inv ∧ KeepsRx s s' := by
  unfold rtDeviceOpenActivated at h
  split at h
  case isTrue hbusy =>
    simp only [exec_pure_ok, Prod.mk.injEq] at h
    obtain ⟨rfl, -⟩ := h
    exact ⟨hi, fun _ => rfl⟩
  case isFalse hfree =>
    simp only [exec_bind_ok] at h
    obtain ⟨⟨s₁, result₁⟩, hopen, h⟩ := h
    obtain ⟨hflag, -⟩ := rtSerialOpen_frame hopen
    obtain ⟨rfl, rfl⟩ | ⟨rfl, hrx, hrxMode, htx, htxMode, hb, hkeeps⟩ :=
      hi.rtSerialOpen hfree hmeets hopen
    · rw [if_neg (show ¬ Success (-rtEio) by decide)] at h
      simp only [exec_pure_ok, Prod.mk.injEq] at h
      obtain ⟨rfl, -⟩ := h
      exact ⟨hi, fun _ => rfl⟩
    · rw [if_pos (show Success rtEok by decide)] at h
      simp only [exec_bind_ok, rtAssert_eq_ok, exec_pure_ok, Prod.mk.injEq] at h
      obtain ⟨_, hroom, rfl, -⟩ := h
      have hrxOpen : rxMode (s₁.openFlag ||| rtDeviceOflagOpen) = rxMode oflag :=
        (rxMode_or (by decide)).trans hrxMode
      have htxOpen : txMode (s₁.openFlag ||| rtDeviceOflagOpen) = txMode oflag :=
        (txMode_or (by decide)).trans htxMode
      refine ⟨⟨hrxOpen ▸ hrx, htxOpen ▸ htx, hb, fun hzero => absurd hzero hroom, fun hno => ?_⟩,
        fun hforce => ?_⟩
      · exact absurd (hflag ▸ hno) hactivated
      · exact hrxOpen.trans (hkeeps.1.resolve_left hforce)

/-- A device without references has no buffers. -/
theorem Inv.released (hi : s.Inv) (hzero : s.refCount = 0) :
    s.serialRx = none ∧ s.serialTx = none := by
  have hflag := hi.closed hzero
  constructor
  · rw [hi.rx.allocated, hflag]
    rfl
  · rw [hi.tx.allocated, hflag]
    rfl

theorem supports_activated (flag oflag : BitVec 16) :
    Supports (flag ||| rtDeviceFlagActivated) oflag ↔ Supports flag oflag := by
  have hsame : ∀ mode : BitVec 16, rtDeviceFlagActivated &&& mode = 0 →
      (flag ||| rtDeviceFlagActivated) &&& mode = flag &&& mode := by
    intro mode hother
    rw [BitVec.and_comm, BitVec.and_or_distrib_left, BitVec.and_comm mode flag,
      BitVec.and_comm mode rtDeviceFlagActivated, hother]
    simp
  unfold Supports
  rw [hsame rtDeviceFlagDmaRx rfl, hsame rtDeviceFlagDmaTx rfl, hsame rtDeviceFlagIntRx rfl,
    hsame rtDeviceFlagIntTx rfl]

theorem Inv.rtDeviceOpen (hi : s.Inv) (hmeets : OpenMeets oflag env s)
    (h : s.rtDeviceOpen oflag env = .ok (s', result)) : s'.Inv ∧ KeepsRx s s' := by
  unfold SerialDevice.rtDeviceOpen at h
  split at h
  case isFalse hlater => exact hi.openActivated hlater hmeets h
  case isTrue hfirst =>
    -- there is nothing for `rt_serial_init` to forget
    have hzero := hi.activated hfirst
    obtain ⟨hrx, htx⟩ := hi.released hzero
    have hflag := hi.closed hzero
    have hinit : (s.rtSerialInit env).1 = s := by
      cases s
      simp only at hrx htx
      rw [rtSerialInit, hrx, htx]
    change (if (s.rtSerialInit env).2 = rtEok then _ else _) = _ at h
    split at h
    · change rtDeviceOpenActivated oflag env { (s.rtSerialInit env).1 with
        flag := (s.rtSerialInit env).1.flag ||| rtDeviceFlagActivated } = _ at h
      rw [hinit] at h
      have hmeets' : OpenMeets oflag env
          { s with flag := s.flag ||| rtDeviceFlagActivated } := by
        intro hsupports _
        apply hmeets ((supports_activated s.flag oflag).mp hsupports)
        rintro ⟨-, hopen⟩
        exact hopen (by rw [hflag]; rfl)
      have hmark : (s.flag ||| rtDeviceFlagActivated) &&& rtDeviceFlagActivated ≠ 0 :=
        (and_bit_ne_zero _ 4 (by omega)).mpr (by simp [rtDeviceFlagActivated])
      exact Inv.openActivated (s := { s with flag := s.flag ||| rtDeviceFlagActivated })
        ⟨hi.rx, hi.tx, hi.balanced, hi.closed, fun hno => absurd hno hmark⟩ hmark hmeets' h
    · simp only [exec_pure_ok, Prod.mk.injEq] at h
      obtain ⟨rfl, -⟩ := h
      exact ⟨hinit.symm ▸ hi, fun _ => rfl⟩

/-! ## Closes -/

theorem Agrees.some {buffer : Option SerialBuffer} {mode : SerialMode} (h : Agrees buffer mode)
    (hmode : mode ≠ .poll) : ∃ b, buffer = some b := by
  cases buffer with
  | none => exact absurd (h.allocated.mp rfl) hmode
  | some b => exact ⟨b, rfl⟩

/-- What one more free does to the account of a block. -/
theorem rtFree_freed (b : SerialBuffer) (id : Nat) :
    (s.rtFree b).freed id = s.freed id + refs (some b) id := by
  by_cases hid : id = b.id
  · subst hid
    simp [rtFree, refs_some]
  · simp [rtFree, refs_some, hid, Ne.symm hid]

/-- The receive part of a close frees the buffer that is there. -/
theorem closeRx_spec (hrx : Agrees s.serialRx (rxMode s.openFlag)) (hb : s.Balanced) :
    ∃ s', s.closeRx = .ok s' ∧ s'.serialRx = none ∧ s'.serialTx = s.serialTx ∧ s'.Balanced ∧
      txMode s'.openFlag = txMode s.openFlag ∧ s'.flag = s.flag ∧ s'.refCount = s.refCount := by
  have hfree : ∀ b, s.serialRx = some b →
      ∀ id, (s.rtFree b).freed id + refs none id + refs s.serialTx id =
        if id < s.allocated then 1 else 0 := by
    intro b hsome id
    rw [rtFree_freed, ← hsome]
    exact hb id
  unfold closeRx
  by_cases hint : s.openFlag &&& rtDeviceFlagIntRx ≠ 0
  · obtain ⟨b, hsome⟩ := hrx.some ((rxMode_ne_poll _).mpr (.inl hint))
    rw [if_pos hint, hsome]
    exact ⟨_, rfl, rfl, rfl, hfree b hsome, txMode_and (by decide), rfl, rfl⟩
  rw [if_neg hint]
  by_cases hdma : s.openFlag &&& rtDeviceFlagDmaRx ≠ 0
  · obtain ⟨b, hsome⟩ := hrx.some ((rxMode_ne_poll _).mpr (.inr hdma))
    rw [if_pos hdma, hsome]
    exact ⟨_, rfl, rfl, rfl, hfree b hsome, txMode_and (by decide), rfl, rfl⟩
  · have hmode : rxMode s.openFlag = .poll := (if_neg hint).trans (if_neg hdma)
    rw [if_neg hdma]
    exact ⟨s, rfl, hrx.allocated.mpr hmode, rfl, hb, rfl, rfl, rfl⟩

/-- The transmit part frees the other one. -/
theorem closeTx_spec (htx : Agrees s.serialTx (txMode s.openFlag)) (hb : s.Balanced) :
    ∃ s', s.closeTx = .ok s' ∧ s'.serialTx = none ∧ s'.serialRx = s.serialRx ∧ s'.Balanced ∧
      s'.flag = s.flag ∧ s'.refCount = s.refCount := by
  have hfree : ∀ b, s.serialTx = some b →
      ∀ id, (s.rtFree b).freed id + refs s.serialRx id + refs none id =
        if id < s.allocated then 1 else 0 := by
    intro b hsome id
    rw [rtFree_freed, ← hsome, refs_none, Nat.add_zero, Nat.add_right_comm]
    exact hb id
  unfold closeTx
  by_cases hint : s.openFlag &&& rtDeviceFlagIntTx ≠ 0
  · obtain ⟨b, hsome⟩ := htx.some ((txMode_ne_poll _).mpr (.inl hint))
    rw [if_pos hint, hsome]
    exact ⟨_, rfl, rfl, rfl, hfree b hsome, rfl, rfl⟩
  rw [if_neg hint]
  by_cases hdma : s.openFlag &&& rtDeviceFlagDmaTx ≠ 0
  · obtain ⟨b, hsome⟩ := htx.some ((txMode_ne_poll _).mpr (.inr hdma))
    rw [if_pos hdma, hsome]
    exact ⟨_, rfl, rfl, rfl, hfree b hsome, rfl, rfl⟩
  · have hmode : txMode s.openFlag = .poll := (if_neg hint).trans (if_neg hdma)
    rw [if_neg hdma]
    exact ⟨s, rfl, htx.allocated.mpr hmode, rfl, hb, rfl, rfl⟩

/-- A close returns, and is one of `rt_device_close` with a driver that succeeds. -/
theorem Inv.rtDeviceClose (hi : s.Inv) :
    ∃ s' result, s.rtDeviceClose = .ok (s', result) ∧ s'.Inv ∧
      Kernel.rtDeviceClose rtEok s.parent = (s'.parent, result) := by
  unfold SerialDevice.rtDeviceClose
  by_cases hzero : s.refCount = 0
  · rw [if_pos hzero]
    exact ⟨s, _, rfl, hi, if_pos hzero⟩
  rw [if_neg hzero]
  -- only the last close reaches the driver
  by_cases hmore : s.refCount - 1 ≠ 0
  · simp only [if_pos hmore]
    exact ⟨_, _, rfl, ⟨hi.rx, hi.tx, hi.balanced, fun hlast => absurd hlast hmore,
      fun hno => absurd (hi.activated hno) hzero⟩, (if_neg hzero).trans (if_pos hmore)⟩
  · rw [not_not] at hmore
    obtain ⟨s₁, hcloseRx, hrx, htx, hb₁, hmode, hflag₁, hcount₁⟩ :=
      closeRx_spec (s := { s with refCount := s.refCount - 1 }) hi.rx hi.balanced
    have htx₁ : Agrees s₁.serialTx (txMode s₁.openFlag) := by
      rw [htx, hmode]
      exact hi.tx
    obtain ⟨s₂, hcloseTx, htx₂, hrx₂, hb₂, hflag₂, hcount₂⟩ := closeTx_spec htx₁ hb₁
    -- the count is 0 by now, so that the driver never returns early
    have hfirst : ¬ 1 < s.refCount - 1 := by
      rw [hmore]
      decide
    have hclose : rtSerialClose { s with refCount := s.refCount - 1 } = .ok (s₂, rtEok) := by
      rw [rtSerialClose, if_neg hfirst, hcloseRx]
      simp only [bind, Except.bind, hcloseTx]
      rfl
    have hcount : s₂.refCount = s.refCount - 1 := hcount₂.trans hcount₁
    have hflag : s₂.flag = s.flag := hflag₂.trans hflag₁
    refine ⟨{ s₂ with openFlag := rtDeviceOflagClose }, rtEok, ?_, ⟨?_, ?_, hb₂, fun _ => rfl,
      fun _ => hcount.trans hmore⟩, ?_⟩
    · simp only [if_neg (not_not.mpr hmore), hclose, bind, Except.bind]
      rfl
    · simp only [hrx₂, hrx, rxMode_close]
      exact agrees_none
    · simp only [htx₂, txMode_close]
      exact agrees_none
    · refine (if_neg hzero).trans ((if_neg (not_not.mpr hmore)).trans ?_)
      rw [if_pos (show Success (if s.parent.deviceClose then rtEok else rtEok) from .inl rfl)]
      simp [parent, hflag, hcount]

end SerialDevice

end PandoraRobot.Drivers
