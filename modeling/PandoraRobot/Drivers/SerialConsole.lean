import PandoraRobot.Drivers.SerialOpen
import PandoraRobot.Lib.Trace

/-! # A serial device and the console

Calls of `rt_device_open`, `rt_device_close` and `rt_console_set_device` in any order,
on one serial device.  The receive buffer is there as the open flag says as long as each
further open names the modes in force.
-/

namespace PandoraRobot.Drivers

open PandoraRobot.Kernel PandoraRobot.Trace

namespace SerialDevice

variable {oflag : BitVec 16} {env : SerialEnv} {s s' : SerialDevice} {result : Int}

/-! ## What is asked of a call -/

/-- `serial_rx` is there exactly in the modes that use it, as what it is used, and no block is
    freed twice. -/
structure Sound (s : SerialDevice) : Prop where
  allocated : s.serialRx ≠ none ↔
    s.openFlag &&& rtDeviceFlagIntRx ≠ 0 ∨ s.openFlag &&& rtDeviceFlagDmaRx ≠ 0
  mode : ∀ b, s.serialRx = some b → rxMode s.openFlag = b.mode
  live : ∀ b, s.serialRx = some b → s.freed b.id = 0
  once : ∀ id, s.freed id ≤ 1

theorem Inv.sound (hi : s.Inv) : s.Sound where
  allocated := (not_congr hi.rx.allocated).trans (rxMode_ne_poll _)
  mode := hi.rx.mode
  live _ hb := hi.balanced.freed_rx hb
  once := hi.balanced.freed_le

/-- An open leaves a sound device, and a receive mode that is in force. -/
def OpenRight (oflag : BitVec 16) (env : SerialEnv) (s : SerialDevice) : Prop :=
  ∀ s' result, s.rtDeviceOpen oflag env = .ok (s', result) → s'.Sound ∧ KeepsRx s s'

/-- A close returns and leaves a sound device.  The last one has freed every block once. -/
def CloseRight (s : SerialDevice) : Prop :=
  ∃ s' result, s.rtDeviceClose = .ok (s', result) ∧ s'.Sound ∧
    (s.refCount ≠ 0 → s'.refCount = 0 → ∀ id < s'.allocated, s'.freed id = 1)

theorem Inv.openRight (hi : s.Inv) (hmeets : OpenMeets oflag env s) : OpenRight oflag env s := by
  intro s' result h
  obtain ⟨hi', hkeeps⟩ := hi.rtDeviceOpen hmeets h
  exact ⟨hi'.sound, hkeeps⟩

theorem Inv.closeRight (hi : s.Inv) : CloseRight s := by
  obtain ⟨s', result, hclose, hi', -⟩ := hi.rtDeviceClose
  refine ⟨s', result, hclose, hi'.sound, fun _ hlast id hid => ?_⟩
  obtain ⟨hrx, htx⟩ := hi'.released hlast
  exact hi'.balanced.freed_all hrx htx hid

/-- A device as `rt_hw_serial_register` leaves it. -/
structure Registered (s : SerialDevice) : Prop where
  openFlag : s.openFlag = 0
  refCount : s.refCount = 0
  serialRx : s.serialRx = none
  serialTx : s.serialTx = none
  allocated : s.allocated = 0
  freed : ∀ id, s.freed id = 0

theorem Registered.inv (h : s.Registered) : s.Inv where
  rx := by
    rw [h.serialRx, h.openFlag]
    exact agrees_none
  tx := by
    rw [h.serialTx, h.openFlag]
    exact agrees_none
  balanced id := by simp [h.serialRx, h.serialTx, h.allocated, h.freed]
  closed _ := h.openFlag
  activated _ := h.refCount

end SerialDevice

/-! ## Runs -/

/-- A serial device, and the console. -/
structure SerialConsole (D : Type) where
  serial : SerialDevice
  console : Option D

/-- A call, where `found` is what `rt_device_find` returns in `rt_console_set_device`. -/
inductive SerialCall (D : Type) where
  | open (oflag : BitVec 16) (env : SerialEnv)
  | close
  | setConsole (found : Option D) (env : SerialEnv)

namespace SerialConsole

variable {D : Type} [DecidableEq D]

/-- The close in `rt_console_set_device`, as far as it is one of the device `self`. -/
def closeOld (self : D) (s : SerialConsole D) : Exec SerialDevice :=
  if s.console = some self then do
    let (serial, _) ← s.serial.rtDeviceClose
    pure serial
  else pure s.serial

/-- Its open. -/
def openNew (self new : D) (env : SerialEnv) (serial : SerialDevice) : Exec SerialDevice :=
  if new = self then do
    let (serial, _) ← serial.rtDeviceOpen (rtDeviceFlagRdwr ||| rtDeviceFlagStream) env
    pure serial
  else pure serial

/-- `rt_console_set_device`, as far as it concerns the device `self`. -/
def rtConsoleSetDevice (self : D) (found : Option D) (env : SerialEnv) (s : SerialConsole D) :
    Exec (SerialConsole D) :=
  match found with
  | none => pure s
  | some new => do
    let serial ← s.closeOld self
    let serial ← openNew self new env serial
    pure ⟨serial, some new⟩

def step (self : D) : SerialCall D → SerialConsole D → Exec (SerialConsole D × Unit)
  | .open oflag env, s => do
    let (serial, _) ← s.serial.rtDeviceOpen oflag env
    pure ({ s with serial }, ())
  | .close, s => do
    let (serial, _) ← s.serial.rtDeviceClose
    pure ({ s with serial }, ())
  | .setConsole found env, s => do
    let s ← s.rtConsoleSetDevice self found env
    pure (s, ())

/-- `P` of every open that the call makes, and `Q` of every close. -/
def Makes (P : BitVec 16 → SerialEnv → SerialDevice → Prop) (Q : SerialDevice → Prop) (self : D) :
    SerialCall D → SerialConsole D → Prop
  | .open oflag env, s => P oflag env s.serial
  | .close, s => Q s.serial
  | .setConsole found env, s =>
    (found ≠ none → s.console = some self → Q s.serial) ∧
      (found = some self → ∀ serial, s.closeOld self = .ok serial →
        P (rtDeviceFlagRdwr ||| rtDeviceFlagStream) env serial)

/-- The opens and closes of the call are right. -/
def Right (self : D) : SerialCall D → SerialConsole D → Prop :=
  Makes SerialDevice.OpenRight SerialDevice.CloseRight self

/-- The opens of the call name the modes in force. -/
def Meets (self : D) : SerialCall D → SerialConsole D → Prop :=
  Makes SerialDevice.OpenMeets (fun _ => True) self

variable {self : D} {call : SerialCall D} {s s' : SerialConsole D} {out : Unit}

theorem inv_closeOld {serial : SerialDevice} (hi : s.serial.Inv)
    (h : s.closeOld self = .ok serial) : serial.Inv := by
  unfold closeOld at h
  split at h
  · obtain ⟨s₁, result, hserial, hi₁, -⟩ := hi.rtDeviceClose
    simp only [hserial, bind, Except.bind, pure, Except.pure, Except.ok.injEq] at h
    exact h ▸ hi₁
  · simp only [exec_pure_ok] at h
    exact h ▸ hi

theorem right_of (hi : s.serial.Inv) (hmeets : Meets self call s) : Right self call s := by
  cases call with
  | «open» oflag env => exact hi.openRight hmeets
  | close => exact hi.closeRight
  | setConsole found env =>
    refine ⟨fun _ _ => hi.closeRight, fun hfound serial hclose => ?_⟩
    exact (inv_closeOld hi hclose).openRight (hmeets.2 hfound serial hclose)

theorem inv_step (hi : s.serial.Inv) (hmeets : Meets self call s)
    (h : step self call s = .ok (s', out)) : s'.serial.Inv := by
  cases call with
  | «open» oflag env =>
    simp only [step, exec_bind_ok, exec_pure_ok, Prod.mk.injEq] at h
    obtain ⟨⟨serial, result⟩, hopen, rfl, -⟩ := h
    exact (hi.rtDeviceOpen hmeets hopen).1
  | close =>
    simp only [step, exec_bind_ok, exec_pure_ok, Prod.mk.injEq] at h
    obtain ⟨⟨serial, result⟩, hclose, rfl, -⟩ := h
    obtain ⟨s₁, result₁, hserial, hi₁, -⟩ := hi.rtDeviceClose
    rw [hserial] at hclose
    cases hclose
    exact hi₁
  | setConsole found env =>
    simp only [step, rtConsoleSetDevice, exec_bind_ok, exec_pure_ok, Prod.mk.injEq] at h
    obtain ⟨s₁, hset, rfl, -⟩ := h
    cases found with
    | none =>
      simp only [exec_pure_ok] at hset
      exact hset ▸ hi
    | some new =>
      simp only [exec_bind_ok, exec_pure_ok] at hset
      obtain ⟨serial₁, hclose, serial₂, hopen, rfl⟩ := hset
      have hi₁ := inv_closeOld hi hclose
      unfold openNew at hopen
      split at hopen
      case isTrue hself =>
        simp only [exec_bind_ok, exec_pure_ok] at hopen
        obtain ⟨⟨serial₃, result⟩, hopen, rfl⟩ := hopen
        exact (hi₁.rtDeviceOpen (hmeets.2 (congrArg some hself) serial₁ hclose) hopen).1
      case isFalse =>
        simp only [exec_pure_ok] at hopen
        exact hopen ▸ hi₁

/-- Along the calls of a device that has been registered: as long as each further open names the
    modes in force, and none makes a data queue, the receive buffer is there as the open flag
    says, and the last close frees every block. -/
theorem rt_serial_buffers (self : D) (h : s.serial.Registered) {calls : List (SerialCall D)}
    (hmeets : Along (step self) (Meets self) calls s) :
    Along (step self) (Right self) calls s :=
  along_of (I := fun s => s.serial.Inv) (fun _ _ hi hm => right_of hi hm)
    (fun _ _ _ _ hi hm hstep => inv_step hi hm hstep) h.inv hmeets

/-- The low level is configured, and memory is there. -/
def ampleEnv : SerialEnv := ⟨rtEok, fun _ => true⟩

/-- A device that receives and transmits by interrupt, which is not the console. -/
def uart : SerialConsole Unit :=
  ⟨⟨rtDeviceFlagRdwr ||| rtDeviceFlagIntRx ||| rtDeviceFlagIntTx, 0, 0, 64, none, none, 0,
    fun _ => 0⟩, none⟩

theorem uart_registered : uart.serial.Registered := by
  constructor <;> intros <;> rfl

/-- Two opens by interrupt, and a close. -/
theorem rt_serial_buffers_uart :
    Along (step ()) (Right ()) [.open 0x103 ampleEnv, .open 0x143 ampleEnv, .close]
      uart := by
  apply rt_serial_buffers () uart_registered
  rw [along_cons (by rfl), along_cons (by rfl)]
  refine ⟨fun _ _ => ?_, fun _ _ => ?_, trivial, fun _ _ _ => trivial⟩
  · exact ⟨⟨.inl (by decide), .inl (by decide)⟩, by decide⟩
  · exact ⟨⟨.inr (by decide), .inl (by decide)⟩, by decide⟩

/-- The device that receives by interrupt becomes the console.  Its open flag has no receive mode
    any more, the buffer is still there, and the last close does not free it. -/
theorem rt_serial_console_drops_rx :
    uart.serial.Registered ∧
      ¬ Along (step ()) (Right ()) [.open 0x103 ampleEnv,
        .setConsole (some ()) ampleEnv] uart := by
  refine ⟨uart_registered, ?_⟩
  rw [along_cons (by rfl)]
  rintro ⟨-, ⟨-, hopen⟩, -⟩
  obtain ⟨hsound, -⟩ := hopen rfl _ rfl _ _ rfl
  have hnone := hsound.allocated.mp (by decide)
  revert hnone
  decide

/-- A device that transmits by DMA. -/
def dmaUart : SerialConsole Unit :=
  ⟨⟨rtDeviceFlagRdwr ||| rtDeviceFlagDmaTx, 0, 0, 64, none, none, 0, fun _ => 0⟩, none⟩

/-- The last close frees the `rt_serial_tx_dma`, but not the items of its data queue. -/
theorem rt_serial_close_keeps_items :
    dmaUart.serial.Registered ∧
      ¬ Along (step ()) (Right ()) [.open 0x803 ampleEnv, .close] dmaUart := by
  refine ⟨by constructor <;> intros <;> rfl, ?_⟩
  rw [along_cons (by rfl)]
  rintro ⟨-, ⟨s', result, hclose, -, hlast⟩, -⟩
  cases hclose
  have hitems := hlast (by decide) (by decide) 1 (by decide)
  revert hitems
  decide

end SerialConsole

end PandoraRobot.Drivers
