import PandoraRobot.Drivers.SerialOpen
import PandoraRobot.Drivers.Status
import PandoraRobot.Lib.RecursiveLock

/-! # Sensors of a module

`rt_sensor_open`, `rt_sensor_close`, `rt_sensor_read` and `rt_sensor_control` of `sensor.c`.  What
the driver's `control` and `fetch_data` return is an input of each call, and so is the thread that
waits for the module lock when the call releases it.

An open with flags that the sensor does not support and a control with an unknown command return
from under the lock.
-/

namespace PandoraRobot.Drivers

open PandoraRobot.Kernel PandoraRobot.RecursiveLock

/-! ## Constants -/

def rtDeviceFlagRdonly : BitVec 16 := 0x001
def rtDeviceFlagFifoRx : BitVec 16 := 0x200

/-- `RT_PIN_NONE`. -/
def rtPinNone : BitVec 16 := 0xffff

def pinModeInput : BitVec 16 := 0x01
def pinModeInputPullup : BitVec 16 := 0x02
def pinModeInputPulldown : BitVec 16 := 0x03

def rtSensorPowerDown : BitVec 8 := 1
def rtSensorPowerNormal : BitVec 8 := 2

def rtSensorModePolling : BitVec 8 := 1
def rtSensorModeInt : BitVec 8 := 2
def rtSensorModeFifo : BitVec 8 := 3

/-- The commands of `rt_sensor_control`. -/
inductive SensorCtrl where
  | getId
  | getInfo
  | setRange
  | setOdr
  | setMode
  | setPower
  | selfTest
  deriving DecidableEq, Repr

/-- The commands by their numbers; `none` is the `default` of the switch. -/
def SensorCtrl.ofCmd (cmd : Int) : Option SensorCtrl :=
  if cmd = 0 then some .getId
  else if cmd = 1 then some .getInfo
  else if cmd = 2 then some .setRange
  else if cmd = 3 then some .setOdr
  else if cmd = 4 then some .setMode
  else if cmd = 5 then some .setPower
  else if cmd = 6 then some .selfTest
  else none

/-- `PIN_IRQ_MODE_...`. -/
inductive PinIrqMode where
  | rising
  | falling
  | risingFalling
  deriving DecidableEq, Repr

/-! ## The device -/

/-- `struct rt_sensor_device`, with data of type `V` and an info of type `N`. -/
structure RtSensor (V N : Type) where
  /-- `flag` of the device -/
  flag : BitVec 16
  /-- `module` is not `RT_NULL`. -/
  hasModule : Bool
  info : N
  irqPin : BitVec 16
  irqPinMode : BitVec 16
  mode : BitVec 8
  power : BitVec 8
  odr : BitVec 16
  /-- `rt_int32_t` -/
  range : BitVec 32
  dataBuf : List V
  dataLen : BitVec 32

/-- What a call asks of the driver and of the pins. -/
inductive SensorAction where
  | control (cmd : SensorCtrl) (arg : BitVec 32)
  | fetchData (len : BitVec 32)
  | pinMode (pin mode : BitVec 16)
  | pinAttachIrq (pin : BitVec 16) (mode : PinIrqMode)
  | pinIrqEnable (pin : BitVec 16) (enabled : Bool)
  deriving DecidableEq, Repr

/-- What the driver returns in a call: `control` for a command, and `fetch_data`. -/
structure SensorOps (V : Type) where
  control : SensorCtrl → Int
  fetchData : BitVec 32 × List V

/-- `sizeof(struct rt_sensor_data)`. -/
def sizeofSensorData : BitVec 32 := 20

section Calls

variable {V N T : Type} [DecidableEq T]

/-- `rt_sensor_irq_init`, up to its result, which nobody reads. -/
def rtSensorIrqInit (sensor : RtSensor V N) : List SensorAction :=
  if sensor.irqPin = rtPinNone then []
  else
    let attach : List SensorAction :=
      if sensor.irqPinMode = pinModeInputPulldown then [.pinAttachIrq sensor.irqPin .rising]
      else if sensor.irqPinMode = pinModeInputPullup then [.pinAttachIrq sensor.irqPin .falling]
      else if sensor.irqPinMode = pinModeInput then [.pinAttachIrq sensor.irqPin .risingFalling]
      else []
    [.pinMode sensor.irqPin sensor.irqPinMode] ++ attach ++ [.pinIrqEnable sensor.irqPin true]

/-- `rt_sensor_irq_enable` and `rt_sensor_irq_disable`. -/
def sensorIrq (enabled : Bool) (sensor : RtSensor V N) : List SensorAction :=
  if sensor.irqPin ≠ rtPinNone then [.pinIrqEnable sensor.irqPin enabled] else []

def rtSensorIrqEnable (sensor : RtSensor V N) : List SensorAction := sensorIrq true sensor

def rtSensorIrqDisable (sensor : RtSensor V N) : List SensorAction := sensorIrq false sensor

/-- What a call leaves: the module lock, the sensor, its result, what it asked for, and the data
    or the info that it copied. -/
structure SensorOut (V N T R : Type) where
  lock : Lock 8 T
  sensor : RtSensor V N
  result : R
  actions : List SensorAction
  data : List V
  info : Option N

variable (thread : T) (next : Option T) (ops : SensorOps V) (lock : Lock 8 T)
  (sensor : RtSensor V N)

/-- `if (sensor->module) rt_mutex_take(...)`, with `RT_WAITING_FOREVER`. -/
def takeModule : Lock 8 T := if sensor.hasModule then lock.taken thread else lock

/-- `if (sensor->module) rt_mutex_release(...)`. -/
def releaseModule : Lock 8 T := if sensor.hasModule then lock.release thread next else lock

/-- The work mode that `rt_sensor_open` chooses. -/
def openMode (oflag : BitVec 16) : Option (BitVec 8) :=
  if oflag &&& rtDeviceFlagRdonly ≠ 0 ∧ sensor.flag &&& rtDeviceFlagRdonly ≠ 0 then
    some rtSensorModePolling
  else if oflag &&& rtDeviceFlagIntRx ≠ 0 ∧ sensor.flag &&& rtDeviceFlagIntRx ≠ 0 then
    some rtSensorModeInt
  else if oflag &&& rtDeviceFlagFifoRx ≠ 0 ∧ sensor.flag &&& rtDeviceFlagFifoRx ≠ 0 then
    some rtSensorModeFifo
  else none

/-- `rt_sensor_open`. -/
def rtSensorOpen (oflag : BitVec 16) : SensorOut V N T Int :=
  let lock := takeModule thread lock sensor
  match openMode sensor oflag with
  | none => ⟨lock, sensor, -rtEinval, [], [], none⟩
  | some mode =>
    let setMode : SensorAction := .control .setMode (mode.setWidth 32)
    let setPower : SensorAction := .control .setPower (rtSensorPowerNormal.setWidth 32)
    let accepted := ops.control .setMode = rtEok
    let sensor := if accepted then { sensor with mode } else sensor
    -- the interrupt is set up for the modes that wait for one
    let irq := if accepted ∧ mode ≠ rtSensorModePolling then rtSensorIrqInit sensor else []
    let sensor :=
      if ops.control .setPower = rtEok then { sensor with power := rtSensorPowerNormal } else sensor
    ⟨releaseModule thread next lock sensor, sensor, rtEok, setMode :: irq ++ [setPower], [], none⟩

/-- `rt_sensor_close`. -/
def rtSensorClose : SensorOut V N T Int :=
  let lock := takeModule thread lock sensor
  let setPower : SensorAction := .control .setPower (rtSensorPowerDown.setWidth 32)
  let sensor :=
    if ops.control .setPower = rtEok then { sensor with power := rtSensorPowerDown } else sensor
  ⟨releaseModule thread next lock sensor, sensor, rtEok, setPower :: rtSensorIrqDisable sensor,
    [], none⟩

/-- `rt_sensor_read`. -/
def rtSensorRead (buf len : BitVec 32) : SensorOut V N T (BitVec 32) :=
  if buf = 0 ∨ len = 0 then ⟨lock, sensor, 0, [], [], none⟩
  else
    let lock := takeModule thread lock sensor
    if 0 < sensor.dataLen then
      let len := if len > sensor.dataLen / sizeofSensorData then sensor.dataLen / sizeofSensorData
        else len
      ⟨releaseModule thread next lock sensor, { sensor with dataLen := 0 }, len, [],
        sensor.dataBuf.take len.toNat, none⟩
    else
      ⟨releaseModule thread next lock sensor, sensor, ops.fetchData.1, [.fetchData len],
        ops.fetchData.2, none⟩

/-- The switch of `rt_sensor_control`, for a command that it knows. -/
def controlCmd (cmd : SensorCtrl) (args : BitVec 32) : SensorOut V N T Int :=
  let result := ops.control cmd
  let asked : List SensorAction := [.control cmd args]
  match cmd with
  | .getId => ⟨lock, sensor, rtEok, if args ≠ 0 then asked else [], [], none⟩
  | .getInfo => ⟨lock, sensor, rtEok, [], [], if args ≠ 0 then some sensor.info else none⟩
  | .setRange =>
    ⟨lock, if result = rtEok then { sensor with range := args } else sensor, result, asked, [],
      none⟩
  | .setOdr =>
    ⟨lock, if result = rtEok then { sensor with odr := args.setWidth 16 } else sensor, result,
      asked, [], none⟩
  | .setMode =>
    if result = rtEok then
      let sensor := { sensor with mode := args.setWidth 8 }
      let irq :=
        if sensor.mode = rtSensorModePolling then rtSensorIrqDisable sensor
        else if sensor.mode = rtSensorModeInt ∨ sensor.mode = rtSensorModeFifo then
          rtSensorIrqEnable sensor
        else []
      ⟨lock, sensor, result, asked ++ irq, [], none⟩
    else ⟨lock, sensor, result, asked, [], none⟩
  | .setPower =>
    ⟨lock, if result = rtEok then { sensor with power := args.setWidth 8 } else sensor, result,
      asked, [], none⟩
  | .selfTest => ⟨lock, sensor, result, asked, [], none⟩

/-- `rt_sensor_control`. -/
def rtSensorControl (cmd : Int) (args : BitVec 32) : SensorOut V N T Int :=
  let lock := takeModule thread lock sensor
  match SensorCtrl.ofCmd cmd with
  | none => ⟨lock, sensor, -rtError, [], [], none⟩
  | some cmd =>
    let out := controlCmd ops lock sensor cmd args
    { out with lock := releaseModule thread next out.lock out.sensor }

end Calls

/-! ## Calls -/

inductive SensorCall where
  | open (oflag : BitVec 16)
  | close
  | read (buf len : BitVec 32)
  | control (cmd : Int) (args : BitVec 32)
  deriving DecidableEq, Repr

namespace SensorCall

variable {V N T : Type} [DecidableEq T]

/-- The module lock after a call. -/
def lockAfter (thread : T) (next : Option T) (ops : SensorOps V) (lock : Lock 8 T)
    (sensor : RtSensor V N) : SensorCall → Lock 8 T
  | .open oflag => (rtSensorOpen thread next ops lock sensor oflag).lock
  | .close => (rtSensorClose thread next ops lock sensor).lock
  | .read buf len => (rtSensorRead thread next ops lock sensor buf len).lock
  | .control cmd args => (rtSensorControl thread next ops lock sensor cmd args).lock

/-- The sensor supports the mode that it is opened in, and knows the command. -/
def Supported (sensor : RtSensor V N) : SensorCall → Prop
  | .open oflag => openMode sensor oflag ≠ none
  | .control cmd _ => SensorCtrl.ofCmd cmd ≠ none
  | _ => True

/-- A read into no memory, or of nothing, which returns before it takes the lock. -/
def Skips : SensorCall → Prop
  | .read buf len => buf = 0 ∨ len = 0
  | _ => False

variable {thread : T} {next : Option T} {ops : SensorOps V} {lock : Lock 8 T}
  {sensor : RtSensor V N} {call : SensorCall}

theorem lockAfter_skips (h : call.Skips) :
    call.lockAfter thread next ops lock sensor = lock := by
  cases call with
  | read buf len => simp only [lockAfter, rtSensorRead, if_pos (show buf = 0 ∨ len = 0 from h)]
  | «open» => exact h.elim
  | close => exact h.elim
  | control => exact h.elim

/-- The call returns from under the lock. -/
theorem lockAfter_unsupported (hmodule : sensor.hasModule = true)
    (h : ¬ call.Supported sensor) :
    call.lockAfter thread next ops lock sensor = lock.taken thread := by
  have htake : takeModule thread lock sensor = lock.taken thread := if_pos hmodule
  cases call with
  | «open» oflag =>
    have hnone : openMode sensor oflag = none := not_not.mp h
    simp only [lockAfter, rtSensorOpen, hnone, htake]
  | close => exact absurd trivial h
  | read buf len => exact absurd trivial h
  | control cmd args =>
    have hnone : SensorCtrl.ofCmd cmd = none := not_not.mp h
    simp only [lockAfter, rtSensorControl, hnone, htake]

theorem releaseModule_eq (hmodule : sensor.hasModule = true) :
    releaseModule thread next lock sensor = lock.release thread next := if_pos hmodule

omit [DecidableEq T] in
theorem controlCmd_lock (ops : SensorOps V) (lock : Lock 8 T) (sensor : RtSensor V N)
    (cmd : SensorCtrl) (args : BitVec 32) :
    (controlCmd ops lock sensor cmd args).lock = lock ∧
      (controlCmd ops lock sensor cmd args).sensor.hasModule = sensor.hasModule := by
  cases cmd with
  | getId | getInfo | selfTest => exact ⟨rfl, rfl⟩
  | setRange | setOdr | setMode | setPower =>
    dsimp only [controlCmd]
    split <;> exact ⟨rfl, rfl⟩

/-- The call takes the lock and releases it. -/
theorem lockAfter_supported (hmodule : sensor.hasModule = true)
    (h : call.Supported sensor) (htakes : ¬ call.Skips) :
    call.lockAfter thread next ops lock sensor = (lock.taken thread).release thread next := by
  have htake : takeModule thread lock sensor = lock.taken thread := if_pos hmodule
  cases call with
  | «open» oflag =>
    obtain ⟨mode, hmode⟩ := Option.ne_none_iff_exists'.mp h
    simp only [lockAfter, rtSensorOpen, hmode, htake]
    refine releaseModule_eq ?_
    split <;> split <;> exact hmodule
  | close =>
    simp only [lockAfter, rtSensorClose, htake]
    refine releaseModule_eq ?_
    split <;> exact hmodule
  | read buf len =>
    simp only [lockAfter, rtSensorRead, if_neg (show ¬ (buf = 0 ∨ len = 0) from htakes), htake]
    split <;> exact releaseModule_eq hmodule
  | control cmd args =>
    obtain ⟨ctrl, hctrl⟩ := Option.ne_none_iff_exists'.mp h
    obtain ⟨hlock, hkeeps⟩ := controlCmd_lock ops (lock.taken thread) sensor ctrl args
    simp only [lockAfter, rtSensorControl, hctrl, htake]
    rw [hlock, releaseModule_eq (hkeeps.trans hmodule)]

/-- The calling thread has the lock of the module as often as before, whatever the driver does. -/
theorem rt_sensor_lock_depth (thread : T) (next : Option T) (hnext : next ≠ some thread)
    (ops : SensorOps V) (lock : Lock 8 T) (sensor : RtSensor V N)
    (hmodule : sensor.hasModule = true) (call : SensorCall) :
    (call.lockAfter thread next ops lock sensor).depth thread = lock.depth thread ↔
      call.Skips ∨ call.Supported sensor ∧ lock ≠ .held thread 0 := by
  by_cases hskips : call.Skips
  · simp [lockAfter_skips hskips, hskips]
  by_cases hsupported : call.Supported sensor
  · rw [lockAfter_supported hmodule hsupported hskips, Lock.depth_release_taken hnext]
    simp [hskips, hsupported]
  · rw [lockAfter_unsupported hmodule hsupported]
    simp only [hskips, hsupported, false_and, or_self, iff_false]
    exact Lock.depth_taken_ne (by decide)

/-- A sensor that can be polled, in a module. -/
def polled : RtSensor Nat Nat where
  flag := rtDeviceFlagRdonly
  hasModule := true
  info := 0
  irqPin := rtPinNone
  irqPinMode := 0
  mode := 0
  power := 0
  odr := 0
  range := 0
  dataBuf := []
  dataLen := 0

/-- Thread 0 opens the sensor, and thread 1 waits for the module. -/
theorem rt_sensor_lock_depth_open :
    ((SensorCall.open rtDeviceFlagRdonly).lockAfter 0 (some 1) ⟨fun _ => rtEok, (0, [])⟩ .free
        polled).depth (0 : Fin 2) = 0 :=
  (rt_sensor_lock_depth 0 (some 1) (by decide) ⟨fun _ => rtEok, (0, [])⟩ .free polled rfl
    (.open rtDeviceFlagRdonly)).mpr (.inr
      ⟨show openMode polled rtDeviceFlagRdonly ≠ none by decide, by decide⟩)

/-- Thread 0 opens the sensor with a flag that it does not support, and no other thread gets the
    lock of the module any more. -/
theorem rt_sensor_open_keeps_module :
    let lock := (SensorCall.open rtDeviceFlagIntRx).lockAfter (0 : Fin 2) none
      ⟨fun _ => rtEok, (0, [])⟩ .free polled
    lock.depth 0 ≠ (Lock.free : Lock 8 (Fin 2)).depth 0 ∧ lock.take 1 = none := by
  decide

/-- Likewise with a command that is not known. -/
theorem rt_sensor_control_keeps_module :
    let lock := (SensorCall.control 0x100 0).lockAfter (0 : Fin 2) none
      ⟨fun _ => rtEok, (0, [])⟩ .free polled
    lock.depth 0 ≠ (Lock.free : Lock 8 (Fin 2)).depth 0 ∧ lock.take 1 = none := by
  decide

end SensorCall

end PandoraRobot.Drivers
