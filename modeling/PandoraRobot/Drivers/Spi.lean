import PandoraRobot.Drivers.SerialOpen
import PandoraRobot.Lib.RecursiveLock

/-! # The SPI bus

`rt_spi_configure`, `rt_spi_send_then_send`, `rt_spi_send_then_recv`, `rt_spi_transfer`,
`rt_spi_transfer_message`, `rt_spi_take_bus` and `rt_spi_release_bus` of `spi_core.c`, called by
any threads for any devices of a bus.  What the callbacks of the controller return is an input of
each call.

`owner` is the device that the controller is taken to be configured for.  A transfer for the owner
does not ask the controller to configure itself again.
-/

namespace PandoraRobot.Drivers

open PandoraRobot.Kernel PandoraRobot.RecursiveLock PandoraRobot.Trace

/-- `RT_SPI_MODE_MASK`. -/
def rtSpiModeMask : BitVec 8 := 0x07

/-- `struct rt_spi_configuration`. -/
structure SpiConfiguration where
  mode : BitVec 8
  dataWidth : BitVec 8
  maxHz : BitVec 32
  deriving DecidableEq, Repr

/-- `struct rt_spi_message`.  The buffers are addresses, 0 for none. -/
structure SpiMessage where
  sendBuf : BitVec 32
  recvBuf : BitVec 32
  length : BitVec 32
  csTake : Bool
  csRelease : Bool
  deriving DecidableEq, Repr

/-- A call of `configure`. -/
structure Configured (D : Type) where
  device : D
  config : SpiConfiguration
  result : Int
  deriving DecidableEq, Repr

/-- `struct rt_spi_bus` and its devices. -/
structure SpiBus (T D : Type) where
  lock : Lock 8 T
  owner : Option D
  config : D → SpiConfiguration
  /-- The error number of a thread. -/
  errno : T → Int
  /-- The last call of `configure`. -/
  configured : Option (Configured D)

/-- A call of `xfer`, and what the controller was configured to then. -/
structure Xfer (D : Type) where
  device : D
  message : SpiMessage
  config : SpiConfiguration
  configured : Option (Configured D)
  deriving DecidableEq, Repr

/-- The controller is configured for the device, with the configuration the device has now. -/
def Xfer.Right {D : Type} (x : Xfer D) : Prop := x.configured = some ⟨x.device, x.config, rtEok⟩

/-- What the callbacks return in a call: `configure`, and `xfer` each time. -/
structure SpiOps where
  configure : Int
  xfer : Nat → BitVec 32

/-- A call ends, or it fails an assertion, or it waits for the lock. -/
inductive SpiStop where
  | assertion
  | waits
  deriving DecidableEq, Repr

theorem stop_bind_ok {α β : Type} {x : Except SpiStop α} {f : α → Except SpiStop β} {b : β} :
    (x >>= f) = .ok b ↔ ∃ a, x = .ok a ∧ f a = .ok b := by
  cases x <;> simp [bind, Except.bind]

theorem stop_pure_ok {α : Type} {a b : α} : (pure a : Except SpiStop α) = .ok b ↔ a = b := by
  simp [pure, Except.pure]

namespace SpiBus

variable {T D : Type}

/-- What a call returns, and the calls of `xfer` that it makes. -/
structure Out (D : Type) (R : Type) where
  result : R
  xfers : List (Xfer D)

section Calls

variable [DecidableEq T] [DecidableEq D] (thread : T) (device : D) (ops : SpiOps) (bus : SpiBus T D)

def setErrno (e : Int) : SpiBus T D := { bus with errno := Function.update bus.errno thread e }

/-- `rt_mutex_take` of the lock, with `RT_WAITING_FOREVER`. -/
def takeLock : Except SpiStop (SpiBus T D) :=
  match bus.lock.take thread with
  | some lock => .ok { bus.setErrno thread rtEok with lock }
  | none => .error .waits

/-- `rt_mutex_release` of the lock. -/
def releaseLock : SpiBus T D :=
  match bus.lock with
  | .held owner _ =>
    if owner = thread then { bus with lock := bus.lock.release thread none }
    else bus.setErrno thread (-rtError)
  | .free => bus.setErrno thread (-rtError)

/-- The callback `configure`. -/
def opsConfigure : SpiBus T D :=
  { bus with configured := some ⟨device, bus.config device, ops.configure⟩ }

/-- The callback `xfer`. -/
def opsXfer (message : SpiMessage) : Xfer D :=
  ⟨device, message, bus.config device, bus.configured⟩

/-- The block that re-configures the bus when its owner is another one.  The second part tells
    whether the device is the owner then. -/
def reconfigure : SpiBus T D × Bool :=
  if bus.owner ≠ some device then
    if ops.configure = rtEok then ({ bus.opsConfigure device ops with owner := some device }, true)
    else (bus.opsConfigure device ops, false)
  else (bus, true)

/-- `rt_spi_configure` up to `rt_mutex_take`: the configuration is set without the lock. -/
def setConfiguration (cfg : SpiConfiguration) : SpiBus T D :=
  { bus with
    config := Function.update bus.config device { cfg with mode := cfg.mode &&& rtSpiModeMask } }

/-- `rt_spi_configure` from `rt_mutex_take` on. -/
def configureOwner : Except SpiStop (SpiBus T D × Out D Int) := do
  let bus ← bus.takeLock thread
  let bus := if bus.owner = some device then bus.opsConfigure device ops else bus
  pure (bus.releaseLock thread, ⟨rtEok, []⟩)

/-- `rt_spi_configure`. -/
def rtSpiConfigure (cfg : SpiConfiguration) : Except SpiStop (SpiBus T D × Out D Int) :=
  (bus.setConfiguration device cfg).configureOwner thread device ops

/-- Two messages, one after the other. -/
def sendThen (first second : SpiMessage) : Except SpiStop (SpiBus T D × Out D Int) := do
  let bus ← bus.takeLock thread
  let (bus, owns) := bus.reconfigure device ops
  if owns then
    if ops.xfer 0 = 0 then
      pure (bus.releaseLock thread, ⟨-rtEio, [bus.opsXfer device first]⟩)
    else if ops.xfer 1 = 0 then
      pure (bus.releaseLock thread,
        ⟨-rtEio, [bus.opsXfer device first, bus.opsXfer device second]⟩)
    else
      pure (bus.releaseLock thread,
        ⟨rtEok, [bus.opsXfer device first, bus.opsXfer device second]⟩)
  else pure (bus.releaseLock thread, ⟨-rtEio, []⟩)

/-- `rt_spi_send_then_send`. -/
def rtSpiSendThenSend (sendBuf1 sendLength1 sendBuf2 sendLength2 : BitVec 32) :
    Except SpiStop (SpiBus T D × Out D Int) :=
  bus.sendThen thread device ops
    { sendBuf := sendBuf1, recvBuf := 0, length := sendLength1, csTake := true, csRelease := false }
    { sendBuf := sendBuf2, recvBuf := 0, length := sendLength2, csTake := false, csRelease := true }

/-- `rt_spi_send_then_recv`. -/
def rtSpiSendThenRecv (sendBuf sendLength recvBuf recvLength : BitVec 32) :
    Except SpiStop (SpiBus T D × Out D Int) :=
  bus.sendThen thread device ops
    { sendBuf, recvBuf := 0, length := sendLength, csTake := true, csRelease := false }
    { sendBuf := 0, recvBuf, length := recvLength, csTake := false, csRelease := true }

/-- `rt_spi_transfer`. -/
def rtSpiTransfer (sendBuf recvBuf length : BitVec 32) :
    Except SpiStop (SpiBus T D × Out D (BitVec 32)) := do
  let bus ← bus.takeLock thread
  let (bus, owns) := bus.reconfigure device ops
  if owns then
    let xfers :=
      [bus.opsXfer device { sendBuf, recvBuf, length, csTake := true, csRelease := true }]
    if ops.xfer 0 = 0 then
      pure ((bus.setErrno thread (-rtEio)).releaseLock thread, ⟨0, xfers⟩)
    else pure (bus.releaseLock thread, ⟨ops.xfer 0, xfers⟩)
  else pure ((bus.setErrno thread (-rtEio)).releaseLock thread, ⟨0, []⟩)

/-- The loop of `rt_spi_transfer_message`, from the `n`-th message on.  The first part is what is
    left where `xfer` fails. -/
def transmit (n : Nat) : List SpiMessage → List SpiMessage × List (Xfer D)
  | [] => ([], [])
  | index :: next =>
    if ops.xfer n = 0 then (index :: next, [bus.opsXfer device index])
    else
      let (rest, xfers) := transmit (n + 1) next
      (rest, bus.opsXfer device index :: xfers)

/-- `rt_spi_transfer_message`. -/
def rtSpiTransferMessage (message : List SpiMessage) :
    Except SpiStop (SpiBus T D × Out D (List SpiMessage)) := do
  if message = [] then pure (bus, ⟨[], []⟩)
  else
    let bus ← bus.takeLock thread
    let (bus, owns) := (bus.setErrno thread rtEok).reconfigure device ops
    if owns then
      let (index, xfers) := bus.transmit device ops 0 message
      let bus := if index = [] then bus else bus.setErrno thread (-rtEio)
      pure (bus.releaseLock thread, ⟨index, xfers⟩)
    else pure ((bus.setErrno thread (-rtEio)).releaseLock thread, ⟨message, []⟩)

/-- `rt_spi_take_bus`. -/
def rtSpiTakeBus : Except SpiStop (SpiBus T D × Out D Int) := do
  let bus ← bus.takeLock thread
  let (bus, owns) := (bus.setErrno thread rtEok).reconfigure device ops
  if owns then pure (bus, ⟨rtEok, []⟩)
  else pure ((bus.setErrno thread (-rtEio)).releaseLock thread, ⟨-rtEio, []⟩)

/-- `rt_spi_release_bus`. -/
def rtSpiReleaseBus : Except SpiStop (SpiBus T D × Out D Int) :=
  if bus.owner = some device then pure (bus.releaseLock thread, ⟨rtEok, []⟩)
  else .error .assertion

end Calls

/-! ## Sequences of calls -/

variable (T D) in
/-- A call by a thread, for a device. -/
inductive SpiCall where
  | configure (thread : T) (device : D) (ops : SpiOps) (cfg : SpiConfiguration)
  /-- `rt_spi_configure` gets as far as `rt_mutex_take`, and waits there or is preempted. -/
  | configureWaits (thread : T) (device : D) (cfg : SpiConfiguration)
  /-- It goes on from there. -/
  | configureGoesOn (thread : T) (device : D) (ops : SpiOps)
  | sendThenSend (thread : T) (device : D) (ops : SpiOps)
      (sendBuf1 sendLength1 sendBuf2 sendLength2 : BitVec 32)
  | sendThenRecv (thread : T) (device : D) (ops : SpiOps)
      (sendBuf sendLength recvBuf recvLength : BitVec 32)
  | transfer (thread : T) (device : D) (ops : SpiOps) (sendBuf recvBuf length : BitVec 32)
  | transferMessage (thread : T) (device : D) (ops : SpiOps) (message : List SpiMessage)
  | takeBus (thread : T) (device : D) (ops : SpiOps)
  | releaseBus (thread : T) (device : D)

section

variable [DecidableEq T] [DecidableEq D]

/-- One call, and the calls of `xfer` that it makes.  A call that has to wait for the lock has done
    nothing yet, and comes later in the sequence; only `rt_spi_configure` sets the configuration
    before it waits. -/
def step (call : SpiCall T D) (bus : SpiBus T D) :
    Except SpiStop (SpiBus T D × List (Xfer D)) :=
  match call with
  | .configure thread device ops cfg => do
    let (bus, out) ← bus.rtSpiConfigure thread device ops cfg
    pure (bus, out.xfers)
  | .configureWaits _ device cfg => pure (bus.setConfiguration device cfg, [])
  | .configureGoesOn thread device ops => do
    let (bus, out) ← bus.configureOwner thread device ops
    pure (bus, out.xfers)
  | .sendThenSend thread device ops sendBuf1 sendLength1 sendBuf2 sendLength2 => do
    let (bus, out) ←
      bus.rtSpiSendThenSend thread device ops sendBuf1 sendLength1 sendBuf2 sendLength2
    pure (bus, out.xfers)
  | .sendThenRecv thread device ops sendBuf sendLength recvBuf recvLength => do
    let (bus, out) ←
      bus.rtSpiSendThenRecv thread device ops sendBuf sendLength recvBuf recvLength
    pure (bus, out.xfers)
  | .transfer thread device ops sendBuf recvBuf length => do
    let (bus, out) ← bus.rtSpiTransfer thread device ops sendBuf recvBuf length
    pure (bus, out.xfers)
  | .transferMessage thread device ops message => do
    let (bus, out) ← bus.rtSpiTransferMessage thread device ops message
    pure (bus, out.xfers)
  | .takeBus thread device ops => do
    let (bus, out) ← bus.rtSpiTakeBus thread device ops
    pure (bus, out.xfers)
  | .releaseBus thread device => do
    let (bus, out) ← bus.rtSpiReleaseBus thread device
    pure (bus, out.xfers)

/-- The call is to leave the lock as it is. -/
def SpiCall.KeepsLock : SpiCall T D → Prop
  | .takeBus .. => False
  | .releaseBus .. => False
  | _ => True

/-- What is expected of a call. -/
def Right (call : SpiCall T D) (bus : SpiBus T D) : Prop :=
  ∀ bus' xfers, step call bus = .ok (bus', xfers) →
    (∀ x ∈ xfers, Xfer.Right x) ∧ (call.KeepsLock → bus'.lock = bus.lock)

/-- The controller does not fail to configure itself while the bus has another owner. -/
def ConfiguresFor (device : D) (ops : SpiOps) (bus : SpiBus T D) : Prop :=
  bus.owner = none ∨ bus.owner = some device ∨ ops.configure = rtEok

/-- The controller fails only while the bus has no owner, the owner is not given another
    configuration by a call that waits for the lock, and the lock is not taken more than 255
    times. -/
def Steady (call : SpiCall T D) (bus : SpiBus T D) : Prop :=
  match call with
  | .configure _ device ops _ => bus.owner = some device → ops.configure = rtEok
  | .configureWaits _ device cfg => bus.owner = some device →
      (bus.setConfiguration device cfg).config device = bus.config device
  | .configureGoesOn _ device ops => bus.owner = some device → ops.configure = rtEok
  | .sendThenSend _ device ops _ _ _ _ => ConfiguresFor device ops bus
  | .sendThenRecv _ device ops _ _ _ _ => ConfiguresFor device ops bus
  | .transfer _ device ops _ _ _ => ConfiguresFor device ops bus
  | .transferMessage _ device ops _ => ConfiguresFor device ops bus
  | .takeBus thread device ops => ConfiguresFor device ops bus ∧ bus.lock ≠ .held thread 255
  | .releaseBus _ _ => True

end

/-- A bus as `rt_spi_bus_register` leaves it. -/
structure Registered (bus : SpiBus T D) : Prop where
  lock : bus.lock = .free
  owner : bus.owner = none

/-! ## What the calls keep -/

/-- The owner is the device that the controller is configured for. -/
def Cached (bus : SpiBus T D) : Prop :=
  ∀ device, bus.owner = some device → bus.configured = some ⟨device, bus.config device, rtEok⟩

structure Inv (bus : SpiBus T D) : Prop where
  cached : bus.Cached
  /-- The counter has not wrapped. -/
  counted : ∀ thread, bus.lock ≠ .held thread 0

variable {thread : T} {device : D} {ops : SpiOps} {bus bus' locked : SpiBus T D}
  {call : SpiCall T D} {xfers : List (Xfer D)} {lock : Lock 8 T}

theorem Registered.inv (h : bus.Registered) : bus.Inv where
  cached device howner := by simp [h.owner] at howner
  counted thread := by simp [h.lock]

variable [DecidableEq T]

theorem takeLock_ok (h : bus.takeLock thread = .ok locked) :
    ∃ lock, bus.lock.take thread = some lock ∧ locked = { bus.setErrno thread rtEok with lock } := by
  unfold takeLock at h
  split at h
  · next lock htake => exact ⟨lock, htake, (Except.ok.inj h).symm⟩
  · cases h

@[simp] theorem setErrno_lock (e : Int) : (bus.setErrno thread e).lock = bus.lock := rfl

@[simp] theorem setErrno_owner (e : Int) : (bus.setErrno thread e).owner = bus.owner := rfl

@[simp] theorem setErrno_cached (e : Int) : (bus.setErrno thread e).Cached ↔ bus.Cached := Iff.rfl

theorem Cached.releaseLock (h : bus.Cached) : (bus.releaseLock thread).Cached := by
  unfold SpiBus.releaseLock
  split
  · split <;> exact h
  · exact h

section

omit [DecidableEq T]
variable [DecidableEq D]

theorem reconfigure_lock : (bus.reconfigure device ops).1.lock = bus.lock := by
  unfold reconfigure
  split
  · split <;> rfl
  · rfl

theorem reconfigure_owner (h : (bus.reconfigure device ops).2 = true) :
    (bus.reconfigure device ops).1.owner = some device := by
  unfold reconfigure at h ⊢
  split
  · next hother =>
    rw [if_pos hother] at h
    split
    · rfl
    · next hfails =>
      rw [if_neg hfails] at h
      cases h
  · next howner => exact not_not.mp howner

/-- A failure of the controller does not leave an owner behind. -/
theorem Cached.reconfigure (h : bus.Cached) (hsteady : ConfiguresFor device ops bus) :
    (bus.reconfigure device ops).1.Cached := by
  unfold SpiBus.reconfigure
  split
  · next hother =>
    split
    · next hok =>
      intro d hd
      obtain rfl : device = d := Option.some.inj hd
      show some _ = some _
      rw [hok]
      rfl
    · next hfails =>
      have hnone : bus.owner = none := by
        rcases hsteady with hnone | howner | hok
        · exact hnone
        · exact absurd howner hother
        · exact absurd hok hfails
      intro d hd
      exact absurd (hnone.symm.trans hd) (by simp)
  · exact h

end

omit [DecidableEq T] in
theorem opsXfer_right (h : bus.Cached) (howner : bus.owner = some device) (message : SpiMessage) :
    (bus.opsXfer device message).Right := h device howner

/-- A call that leaves the bus as it should, and the lock as it was. -/
structure Kept (bus bus' : SpiBus T D) (xfers : List (Xfer D)) : Prop where
  inv : bus'.Inv
  lock : bus'.lock = bus.lock
  xfers : ∀ x ∈ xfers, x.Right

/-- The end of a call that has taken the lock. -/
theorem released (hcounted : ∀ thread, bus.lock ≠ .held thread 0) (hcall : bus.takeLock thread = .ok bus')
    (hlock : locked.lock = bus'.lock) (hcached : locked.Cached) (hxfers : ∀ x ∈ xfers, Xfer.Right x) :
    Kept bus (locked.releaseLock thread) xfers := by
  obtain ⟨lock, htake, rfl⟩ := takeLock_ok hcall
  obtain ⟨count, rfl⟩ := Lock.take_eq_some htake
  have hback : (locked.releaseLock thread).lock = bus.lock := by
    have hheld : locked.lock = .held thread count := hlock
    unfold SpiBus.releaseLock
    rw [hheld]
    simp only [if_true]
    exact Lock.release_take htake (hcounted thread)
  exact ⟨⟨hcached.releaseLock, hback ▸ hcounted⟩, hback, hxfers⟩

theorem takeLock_cached (h : bus.Cached) (hcall : bus.takeLock thread = .ok bus') :
    bus'.Cached ∧ bus'.owner = bus.owner := by
  obtain ⟨lock, -, rfl⟩ := takeLock_ok hcall
  exact ⟨h, rfl⟩

variable [DecidableEq D]

/-- The lock is taken, and the controller asked to configure itself if it has to. -/
theorem Inv.reconfigured (h : bus.Inv) (hsteady : ConfiguresFor device ops bus)
    (hcall : bus.takeLock thread = .ok bus') : (bus'.reconfigure device ops).1.Cached := by
  obtain ⟨hcached, howner⟩ := takeLock_cached h.cached hcall
  apply hcached.reconfigure
  rw [ConfiguresFor, howner]
  exact hsteady

theorem Inv.sendThen (h : bus.Inv) (hsteady : ConfiguresFor device ops bus)
    {first second : SpiMessage} {out : Out D Int}
    (hcall : bus.sendThen thread device ops first second = .ok (bus', out)) :
    Kept bus bus' out.xfers := by
  simp only [SpiBus.sendThen, stop_bind_ok] at hcall
  obtain ⟨locked, htake, hcall⟩ := hcall
  have hcached := h.reconfigured hsteady htake
  have hlock : (locked.reconfigure device ops).1.lock = locked.lock := reconfigure_lock
  split at hcall
  · next howns =>
    have hxfer := opsXfer_right hcached (reconfigure_owner howns)
    split at hcall
    · simp only [stop_pure_ok, Prod.mk.injEq] at hcall
      obtain ⟨rfl, rfl⟩ := hcall
      exact released h.counted htake hlock hcached (by simp [hxfer])
    · split at hcall <;>
      · simp only [stop_pure_ok, Prod.mk.injEq] at hcall
        obtain ⟨rfl, rfl⟩ := hcall
        exact released h.counted htake hlock hcached (by simp [hxfer])
  · simp only [stop_pure_ok, Prod.mk.injEq] at hcall
    obtain ⟨rfl, rfl⟩ := hcall
    exact released h.counted htake hlock hcached (by simp)

theorem Inv.transfer (h : bus.Inv) (hsteady : ConfiguresFor device ops bus)
    {sendBuf recvBuf length : BitVec 32} {out : Out D (BitVec 32)}
    (hcall : bus.rtSpiTransfer thread device ops sendBuf recvBuf length = .ok (bus', out)) :
    Kept bus bus' out.xfers := by
  simp only [rtSpiTransfer, stop_bind_ok] at hcall
  obtain ⟨locked, htake, hcall⟩ := hcall
  have hcached := h.reconfigured hsteady htake
  have hlock : (locked.reconfigure device ops).1.lock = locked.lock := reconfigure_lock
  split at hcall
  · next howns =>
    have hxfer := opsXfer_right hcached (reconfigure_owner howns)
    split at hcall <;>
    · simp only [stop_pure_ok, Prod.mk.injEq] at hcall
      obtain ⟨rfl, rfl⟩ := hcall
      exact released h.counted htake hlock hcached (by simp [hxfer])
  · simp only [stop_pure_ok, Prod.mk.injEq] at hcall
    obtain ⟨rfl, rfl⟩ := hcall
    exact released h.counted htake hlock hcached (by simp)

omit [DecidableEq T] [DecidableEq D] in
/-- Each message of the list is transmitted for the owner. -/
theorem transmit_right (ops : SpiOps) (h : bus.Cached) (howner : bus.owner = some device) (n : Nat)
    (message : List SpiMessage) : ∀ x ∈ (bus.transmit device ops n message).2, x.Right := by
  induction message generalizing n with
  | nil => simp [transmit]
  | cons index next ih =>
    have hxfer := opsXfer_right h howner index
    unfold transmit
    split
    · simp [hxfer]
    · intro x hx
      rcases List.mem_cons.mp hx with rfl | hrest
      · exact hxfer
      · exact ih (n + 1) x hrest

theorem Inv.transferMessage (h : bus.Inv) (hsteady : ConfiguresFor device ops bus)
    {message : List SpiMessage} {out : Out D (List SpiMessage)}
    (hcall : bus.rtSpiTransferMessage thread device ops message = .ok (bus', out)) :
    Kept bus bus' out.xfers := by
  simp only [rtSpiTransferMessage] at hcall
  split at hcall
  · simp only [stop_pure_ok, Prod.mk.injEq] at hcall
    obtain ⟨rfl, rfl⟩ := hcall
    exact ⟨h, rfl, by simp⟩
  simp only [stop_bind_ok] at hcall
  obtain ⟨locked, htake, hcall⟩ := hcall
  obtain ⟨hlocked, howner⟩ := takeLock_cached h.cached htake
  have hset : (locked.setErrno thread rtEok).Cached := hlocked
  have hcached : ((locked.setErrno thread rtEok).reconfigure device ops).1.Cached := by
    apply hset.reconfigure
    rw [ConfiguresFor, setErrno_owner, howner]
    exact hsteady
  have hlock : ((locked.setErrno thread rtEok).reconfigure device ops).1.lock = locked.lock :=
    reconfigure_lock
  split at hcall
  · next howns =>
    have hright := transmit_right ops hcached (reconfigure_owner howns) 0 message
    simp only [stop_pure_ok, Prod.mk.injEq] at hcall
    obtain ⟨rfl, rfl⟩ := hcall
    split
    · exact released h.counted htake hlock hcached hright
    · exact released h.counted htake hlock hcached hright
  · simp only [stop_pure_ok, Prod.mk.injEq] at hcall
    obtain ⟨rfl, rfl⟩ := hcall
    exact released h.counted htake hlock hcached (by simp)

section

omit [DecidableEq T]

theorem setConfiguration_config_of_ne {d : D} (hne : d ≠ device) (cfg : SpiConfiguration) :
    (bus.setConfiguration device cfg).config d = bus.config d :=
  Function.update_of_ne hne ..

theorem Inv.setConfiguration (h : bus.Inv) {cfg : SpiConfiguration}
    (hsteady : bus.owner = some device →
      (bus.setConfiguration device cfg).config device = bus.config device) :
    (bus.setConfiguration device cfg).Inv := by
  refine ⟨fun d (hd : bus.owner = some d) => ?_, h.counted⟩
  have hsame : (bus.setConfiguration device cfg).config d = bus.config d := by
    by_cases hne : d = device
    · subst hne
      exact hsteady hd
    · exact setConfiguration_config_of_ne hne cfg
  rw [hsame]
  exact h.cached d hd

end

/-- The controller is told of the configuration of the owner, whatever has become of it. -/
theorem configureOwner_kept (hcounted : ∀ thread, bus.lock ≠ .held thread 0)
    (hcached : ∀ d, d ≠ device → bus.owner = some d →
      bus.configured = some ⟨d, bus.config d, rtEok⟩)
    (hsteady : bus.owner = some device → ops.configure = rtEok) {out : Out D Int}
    (hcall : bus.configureOwner thread device ops = .ok (bus', out)) :
    Kept bus bus' out.xfers := by
  simp only [configureOwner, stop_bind_ok, stop_pure_ok, Prod.mk.injEq] at hcall
  obtain ⟨locked, htake, rfl, rfl⟩ := hcall
  have hcached' : Cached (if locked.owner = some device then locked.opsConfigure device ops
      else locked) := by
    obtain ⟨lock, -, rfl⟩ := takeLock_ok htake
    split
    · next howner =>
      intro d hd
      obtain rfl : device = d := Option.some.inj (howner.symm.trans hd)
      show some _ = some _
      rw [hsteady howner]
      rfl
    · next hother => exact fun d hd => hcached d (fun heq => hother (heq ▸ hd)) hd
  have hlock : (if locked.owner = some device then locked.opsConfigure device ops
      else locked).lock = locked.lock := by
    split <;> rfl
  exact released hcounted htake hlock hcached' (List.forall_mem_nil _)

/-- A new configuration of the owner goes to the controller at once. -/
theorem Inv.configure (h : bus.Inv) (hsteady : bus.owner = some device → ops.configure = rtEok)
    {cfg : SpiConfiguration} {out : Out D Int}
    (hcall : bus.rtSpiConfigure thread device ops cfg = .ok (bus', out)) :
    Kept bus bus' out.xfers := by
  have hcounted : ∀ t, (bus.setConfiguration device cfg).lock ≠ .held t 0 := h.counted
  have hkept := configureOwner_kept hcounted (fun d hne hd => ?_) hsteady hcall
  · exact ⟨hkept.inv, hkept.lock, hkept.xfers⟩
  · rw [setConfiguration_config_of_ne hne]
    exact h.cached d hd

theorem Inv.takeBus (h : bus.Inv) (hsteady : ConfiguresFor device ops bus)
    (hroom : bus.lock ≠ .held thread 255) {out : Out D Int}
    (hcall : bus.rtSpiTakeBus thread device ops = .ok (bus', out)) :
    bus'.Inv ∧ out.xfers = [] := by
  simp only [rtSpiTakeBus, stop_bind_ok] at hcall
  obtain ⟨locked, htake, hcall⟩ := hcall
  obtain ⟨hlocked, howner⟩ := takeLock_cached h.cached htake
  have hset : (locked.setErrno thread rtEok).Cached := hlocked
  have hcached : ((locked.setErrno thread rtEok).reconfigure device ops).1.Cached := by
    apply hset.reconfigure
    rw [ConfiguresFor, setErrno_owner, howner]
    exact hsteady
  have hlock : ((locked.setErrno thread rtEok).reconfigure device ops).1.lock = locked.lock :=
    reconfigure_lock
  split at hcall
  · simp only [stop_pure_ok, Prod.mk.injEq] at hcall
    obtain ⟨rfl, rfl⟩ := hcall
    refine ⟨⟨hcached, fun other => ?_⟩, rfl⟩
    obtain ⟨lock, hlock', rfl⟩ := takeLock_ok htake
    rw [hlock]
    refine Lock.take_ne_zero (by decide) (fun count hwrap => ?_) hlock' other
    obtain rfl : count = 255 := by bv_omega
    exact hroom
  · simp only [stop_pure_ok, Prod.mk.injEq] at hcall
    obtain ⟨rfl, rfl⟩ := hcall
    have hkept : Kept bus ((((locked.setErrno thread rtEok).reconfigure device ops).1.setErrno
        thread (-rtEio)).releaseLock thread) [] :=
      released h.counted htake hlock hcached (List.forall_mem_nil _)
    exact ⟨hkept.inv, rfl⟩

theorem Inv.releaseBus (h : bus.Inv) {out : Out D Int}
    (hcall : bus.rtSpiReleaseBus thread device = .ok (bus', out)) :
    bus'.Inv ∧ out.xfers = [] := by
  simp only [rtSpiReleaseBus] at hcall
  split at hcall
  · simp only [stop_pure_ok, Prod.mk.injEq] at hcall
    obtain ⟨rfl, rfl⟩ := hcall
    refine ⟨⟨h.cached.releaseLock, ?_⟩, rfl⟩
    unfold releaseLock
    split
    · split
      · exact Lock.release_ne_zero h.counted
      · exact h.counted
    · exact h.counted
  · cases hcall

/-! ## Runs -/

/-- A steady call leaves a bus whose owner is the device the controller is configured for. -/
theorem Inv.step_right (h : bus.Inv) (hsteady : Steady call bus)
    (hstep : step call bus = .ok (bus', xfers)) :
    bus'.Inv ∧ (∀ x ∈ xfers, x.Right) ∧ (call.KeepsLock → bus'.lock = bus.lock) := by
  cases call with
  | configure thread device ops cfg =>
    simp only [step, stop_bind_ok, stop_pure_ok, Prod.mk.injEq] at hstep
    obtain ⟨⟨_, out⟩, hcall, rfl, rfl⟩ := hstep
    have hkept := h.configure hsteady hcall
    exact ⟨hkept.inv, hkept.xfers, fun _ => hkept.lock⟩
  | configureWaits thread device cfg =>
    simp only [step, stop_pure_ok, Prod.mk.injEq] at hstep
    obtain ⟨rfl, rfl⟩ := hstep
    exact ⟨h.setConfiguration hsteady, by simp, fun _ => rfl⟩
  | configureGoesOn thread device ops =>
    simp only [step, stop_bind_ok, stop_pure_ok, Prod.mk.injEq] at hstep
    obtain ⟨⟨_, out⟩, hcall, rfl, rfl⟩ := hstep
    have hkept := configureOwner_kept h.counted (fun d _ => h.cached d) hsteady hcall
    exact ⟨hkept.inv, hkept.xfers, fun _ => hkept.lock⟩
  | sendThenSend thread device ops _ _ _ _ =>
    simp only [step, stop_bind_ok, stop_pure_ok, Prod.mk.injEq] at hstep
    obtain ⟨⟨_, out⟩, hcall, rfl, rfl⟩ := hstep
    have hkept := h.sendThen hsteady hcall
    exact ⟨hkept.inv, hkept.xfers, fun _ => hkept.lock⟩
  | sendThenRecv thread device ops _ _ _ _ =>
    simp only [step, stop_bind_ok, stop_pure_ok, Prod.mk.injEq] at hstep
    obtain ⟨⟨_, out⟩, hcall, rfl, rfl⟩ := hstep
    have hkept := h.sendThen hsteady hcall
    exact ⟨hkept.inv, hkept.xfers, fun _ => hkept.lock⟩
  | transfer thread device ops _ _ _ =>
    simp only [step, stop_bind_ok, stop_pure_ok, Prod.mk.injEq] at hstep
    obtain ⟨⟨_, out⟩, hcall, rfl, rfl⟩ := hstep
    have hkept := h.transfer hsteady hcall
    exact ⟨hkept.inv, hkept.xfers, fun _ => hkept.lock⟩
  | transferMessage thread device ops message =>
    simp only [step, stop_bind_ok, stop_pure_ok, Prod.mk.injEq] at hstep
    obtain ⟨⟨_, out⟩, hcall, rfl, rfl⟩ := hstep
    have hkept := h.transferMessage hsteady hcall
    exact ⟨hkept.inv, hkept.xfers, fun _ => hkept.lock⟩
  | takeBus thread device ops =>
    simp only [step, stop_bind_ok, stop_pure_ok, Prod.mk.injEq] at hstep
    obtain ⟨⟨_, out⟩, hcall, rfl, rfl⟩ := hstep
    obtain ⟨hinv, hnone⟩ := h.takeBus hsteady.1 hsteady.2 hcall
    exact ⟨hinv, by simp [hnone], False.elim⟩
  | releaseBus thread device =>
    simp only [step, stop_bind_ok, stop_pure_ok, Prod.mk.injEq] at hstep
    obtain ⟨⟨_, out⟩, hcall, rfl, rfl⟩ := hstep
    obtain ⟨hinv, hnone⟩ := h.releaseBus hcall
    exact ⟨hinv, by simp [hnone], False.elim⟩

/-- Along the calls of a bus on which the controller fails only while there is no owner, each
    transfer goes through a controller that is configured for its device. -/
theorem rt_spi_transfers_configured (calls : List (SpiCall T D)) (bus : SpiBus T D)
    (hnew : bus.Registered) (hsteady : Along step Steady calls bus) :
    Along step Right calls bus :=
  along_of (fun _ _ hinv hcall _ _ hstep => (hinv.step_right hcall hstep).2)
    (fun _ _ _ _ hinv hcall hstep => (hinv.step_right hcall hstep).1) hnew.inv hsteady

/-! ## A bus with two devices -/

def works : SpiOps := ⟨rtEok, fun _ => 1⟩

def fails : SpiOps := ⟨rtEio, fun _ => 1⟩

def newBus {T : Type} : SpiBus T (Fin 2) where
  lock := .free
  owner := none
  config _ := ⟨0, 8, 1000000⟩
  errno _ := 0
  configured := none

instance (x : Xfer D) : Decidable x.Right := inferInstanceAs (Decidable (_ = _))

/-- A device fails to get the bus before the other one has had it, and both use it then. -/
theorem rt_spi_transfers_two_devices :
    Along step Right [.transfer 0 0 fails 0 0 4, .transfer 0 0 works 0 0 4,
      .configure 0 1 works ⟨3, 16, 500000⟩, .transfer 0 1 works 0 0 2]
      (newBus : SpiBus (Fin 1) (Fin 2)) :=
  rt_spi_transfers_configured _ newBus ⟨rfl, rfl⟩ (by
    rw [along_cons (by rfl), along_cons (by rfl), along_cons (by rfl), along_cons (by rfl)]
    exact ⟨.inl rfl, .inl rfl, fun _ => rfl, .inr (.inr rfl), trivial⟩)

/-- A device fails to get the bus, and the owner transfers with a controller that has been asked
    to configure itself for the other one. -/
theorem rt_spi_transfer_unconfigured :
    ¬ Along step Right [.transfer 0 0 works 0 0 4, .transfer 0 1 fails 0 0 4,
      .transfer 0 0 works 0 0 4] (newBus : SpiBus (Fin 1) (Fin 2)) := by
  rw [along_cons (by rfl), along_cons (by rfl)]
  rintro ⟨-, -, hright, -⟩
  obtain ⟨hxfers, -⟩ := hright _ _ (by rfl)
  exact absurd (hxfers _ List.mem_cons_self) (by decide)

/-- The owner's new configuration is refused, and the next transfer does not notice. -/
theorem rt_spi_transfer_refused :
    ¬ Along step Right [.transfer 0 0 works 0 0 4, .configure 0 0 fails ⟨0, 12, 1000000⟩,
      .transfer 0 0 works 0 0 4] (newBus : SpiBus (Fin 1) (Fin 2)) := by
  rw [along_cons (by rfl), along_cons (by rfl)]
  rintro ⟨-, -, hright, -⟩
  obtain ⟨hxfers, -⟩ := hright _ _ (by rfl)
  exact absurd (hxfers _ List.mem_cons_self) (by decide)

/-- The bus is taken for a device, and another thread sets the configuration of the device before
    it waits for the lock. -/
theorem rt_spi_transfer_reconfigured :
    ¬ Along step Right [.takeBus 0 0 works, .configureWaits 1 0 ⟨3, 16, 500000⟩,
      .transfer 0 0 works 0 0 4] (newBus : SpiBus (Fin 2) (Fin 2)) := by
  rw [along_cons (by rfl), along_cons (by rfl)]
  rintro ⟨-, -, hright, -⟩
  obtain ⟨hxfers, -⟩ := hright _ _ (by rfl)
  exact absurd (hxfers _ List.mem_cons_self) (by decide)

end SpiBus

end PandoraRobot.Drivers
