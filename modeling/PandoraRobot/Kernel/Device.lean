import PandoraRobot.Kernel.Service
import PandoraRobot.Lib.Trace

/-! # Devices

`rt_device_open` and `rt_device_close` of `device.c`.  What the driver's callbacks return is an
input of each call.

`rt_device_close` counts down before it asks the driver.  A driver that fails to close at the last
reference leaves a device that is marked open and has no reference.
-/

namespace PandoraRobot.Kernel

open PandoraRobot.Trace

/-- `RT_EOK`. -/
def rtEok : Int := 0

/-- `RT_ERROR`. -/
def rtError : Int := 1

/-- `RT_ENOSYS`. -/
def rtEnosys : Int := 6

/-- `RT_EBUSY`. -/
def rtEbusy : Int := 7

def rtDeviceFlagStandalone : BitVec 16 := 0x008
def rtDeviceFlagActivated : BitVec 16 := 0x010
def rtDeviceOflagClose : BitVec 16 := 0x000
def rtDeviceOflagOpen : BitVec 16 := 0x008
def rtDeviceOflagMask : BitVec 16 := 0xf0f

/-- `struct rt_device`, of a registered device. -/
structure RtDevice where
  flag : BitVec 16
  openFlag : BitVec 16
  refCount : BitVec 8
  /-- The callback is not `RT_NULL`. -/
  deviceInit : Bool
  deviceOpen : Bool
  deviceClose : Bool
  deriving DecidableEq, Repr

/-- The results that count as a success. -/
def Success (result : Int) : Prop := result = rtEok ∨ result = -rtEnosys

instance (result : Int) : Decidable (Success result) := inferInstanceAs (Decidable (_ ∨ _))

/-- What the callbacks do in a call of `rt_device_open`: what `init` and `open` return, and the
    open flag that `open` sets, if it does. -/
structure OpenCallbacks where
  init : Int
  open' : Int
  openFlag : Option (BitVec 16)
  deriving DecidableEq, Repr

/-- `rt_device_open` of a device that is activated. -/
def rtDeviceOpenActivated (oflag : BitVec 16) (driver : OpenCallbacks) (dev : RtDevice) :
    Exec (RtDevice × Int) :=
  if dev.flag &&& rtDeviceFlagStandalone ≠ 0 ∧ dev.openFlag &&& rtDeviceOflagOpen ≠ 0 then
    pure (dev, -rtEbusy)
  else
    let result := if dev.deviceOpen then driver.open' else rtEok
    let openFlag :=
      if dev.deviceOpen then driver.openFlag.getD dev.openFlag else oflag &&& rtDeviceOflagMask
    if Success result then do
      let refCount := dev.refCount + 1
      rtAssert (refCount ≠ 0)
      pure ({ dev with openFlag := openFlag ||| rtDeviceOflagOpen, refCount }, result)
    else pure ({ dev with openFlag }, result)

/-- `rt_device_open`. -/
def rtDeviceOpen (oflag : BitVec 16) (driver : OpenCallbacks) (dev : RtDevice) :
    Exec (RtDevice × Int) :=
  if dev.flag &&& rtDeviceFlagActivated = 0 then
    if dev.deviceInit = true ∧ driver.init ≠ rtEok then pure (dev, driver.init)
    else rtDeviceOpenActivated oflag driver { dev with flag := dev.flag ||| rtDeviceFlagActivated }
  else rtDeviceOpenActivated oflag driver dev

/-- `rt_device_close`, where the callback returns `close`. -/
def rtDeviceClose (close : Int) (dev : RtDevice) : RtDevice × Int :=
  if dev.refCount = 0 then (dev, -rtError)
  else
    let dev := { dev with refCount := dev.refCount - 1 }
    if dev.refCount ≠ 0 then (dev, rtEok)
    else
      let result := if dev.deviceClose then close else rtEok
      if Success result then ({ dev with openFlag := rtDeviceOflagClose }, result)
      else (dev, result)

/-! ## What a call does -/

/-- What a call of `rt_device_open` does to the flag and the counter. -/
inductive Opened (dev dev' : RtDevice) (result : Int) : Prop where
  | taken : Success result → dev'.openFlag &&& rtDeviceOflagOpen ≠ 0 →
      dev'.refCount.toNat = dev.refCount.toNat + 1 → Opened dev dev' result
  | refused : ¬ Success result → dev'.openFlag = dev.openFlag →
      dev'.refCount = dev.refCount → Opened dev dev' result

/-- What a call of `rt_device_close` does to them. -/
inductive Closed (dev dev' : RtDevice) (result : Int) : Prop where
  | shared : Success result → dev.refCount.toNat = dev'.refCount.toNat + 1 →
      dev'.refCount ≠ 0 → dev'.openFlag = dev.openFlag → Closed dev dev' result
  | last : Success result → dev.refCount.toNat = dev'.refCount.toNat + 1 →
      dev'.refCount = 0 → dev'.openFlag = 0 → Closed dev dev' result
  | refused : ¬ Success result → dev' = dev → Closed dev dev' result

variable {oflag : BitVec 16} {driver : OpenCallbacks} {dev : RtDevice} {close : Int}

theorem refCount_add_one {refCount : BitVec 8} (h : refCount.toNat < 255) :
    (refCount + 1).toNat = refCount.toNat + 1 := by
  bv_omega

theorem refCount_sub_one {refCount : BitVec 8} (h : refCount ≠ 0) :
    refCount.toNat = (refCount - 1).toNat + 1 := by
  bv_omega

theorem openFlag_marked (openFlag : BitVec 16) :
    (openFlag ||| rtDeviceOflagOpen) &&& rtDeviceOflagOpen ≠ 0 := by
  rw [show (openFlag ||| rtDeviceOflagOpen) &&& rtDeviceOflagOpen = rtDeviceOflagOpen by
    ext i
    grind]
  decide

theorem rtDeviceOpenActivated_spec (oflag : BitVec 16) (dev : RtDevice)
    (hroom : dev.refCount.toNat < 255)
    (hquiet : ¬ Success driver.open' → driver.openFlag = none) :
    ∃ dev' result, rtDeviceOpenActivated oflag driver dev = .ok (dev', result) ∧
      Opened dev dev' result := by
  have hnext := refCount_add_one hroom
  unfold rtDeviceOpenActivated
  by_cases hbusy : dev.flag &&& rtDeviceFlagStandalone ≠ 0 ∧ dev.openFlag &&& rtDeviceOflagOpen ≠ 0
  · rw [if_pos hbusy]
    exact ⟨_, _, rfl, .refused (by decide) rfl rfl⟩
  rw [if_neg hbusy]
  by_cases hsuccess : Success (if dev.deviceOpen then driver.open' else rtEok)
  · rw [if_pos hsuccess]
    have hassert : dev.refCount + 1 ≠ 0 := by
      intro hzero
      rw [hzero] at hnext
      simp at hnext
    simp only [rtAssert, if_pos hassert]
    exact ⟨_, _, rfl, .taken hsuccess (openFlag_marked _) hnext⟩
  · rw [if_neg hsuccess]
    -- only the callback fails, and it did not touch the flag
    have hcallback : dev.deviceOpen = true := by
      by_contra hnone
      rw [if_neg hnone] at hsuccess
      exact hsuccess (.inl rfl)
    refine ⟨_, _, rfl, .refused hsuccess ?_ rfl⟩
    rw [if_pos hcallback] at hsuccess
    simp [hcallback, hquiet hsuccess]

theorem rtDeviceOpen_spec (oflag : BitVec 16) (hroom : dev.refCount.toNat < 255)
    (hquiet : ¬ Success driver.open' → driver.openFlag = none)
    (hinit : dev.flag &&& rtDeviceFlagActivated = 0 → dev.deviceInit = true →
      driver.init ≠ -rtEnosys) :
    ∃ dev' result, rtDeviceOpen oflag driver dev = .ok (dev', result) ∧
      Opened dev dev' result := by
  unfold rtDeviceOpen
  by_cases hactivated : dev.flag &&& rtDeviceFlagActivated = 0
  · rw [if_pos hactivated]
    by_cases hfails : dev.deviceInit = true ∧ driver.init ≠ rtEok
    · rw [if_pos hfails]
      refine ⟨_, _, rfl, .refused ?_ rfl rfl⟩
      rintro (heok | henosys)
      · exact hfails.2 heok
      · exact hinit hactivated hfails.1 henosys
    · rw [if_neg hfails]
      obtain ⟨dev', result, hopen, hopened⟩ := rtDeviceOpenActivated_spec oflag
        { dev with flag := dev.flag ||| rtDeviceFlagActivated } hroom hquiet
      refine ⟨dev', result, hopen, ?_⟩
      cases hopened with
      | taken hs hmark hcount => exact .taken hs hmark hcount
      | refused hs hflag hcount => exact .refused hs hflag hcount
  · rw [if_neg hactivated]
    exact rtDeviceOpenActivated_spec oflag dev hroom hquiet

/-- The `init` that returns `-RT_ENOSYS`: the caller is told so, and nothing is counted. -/
theorem rtDeviceOpen_enosys (hactivated : dev.flag &&& rtDeviceFlagActivated = 0)
    (hcallback : dev.deviceInit = true) (hinit : driver.init = -rtEnosys) :
    rtDeviceOpen oflag driver dev = .ok (dev, -rtEnosys) := by
  unfold rtDeviceOpen
  rw [if_pos hactivated, if_pos ⟨hcallback, by rw [hinit]; decide⟩, hinit]
  rfl

theorem rtDeviceClose_spec
    (hclose : dev.refCount = 1 → dev.deviceClose = true → Success close) :
    Closed dev (rtDeviceClose close dev).1 (rtDeviceClose close dev).2 := by
  unfold rtDeviceClose
  by_cases hzero : dev.refCount = 0
  · rw [if_pos hzero]
    have herror : ¬ Success (-rtError) := by decide
    exact .refused herror rfl
  rw [if_neg hzero]
  have hcount := refCount_sub_one hzero
  by_cases hmore : dev.refCount - 1 ≠ 0
  · simp only [if_pos hmore]
    exact .shared (.inl rfl) hcount hmore rfl
  · rw [not_not] at hmore
    simp only [hmore, ne_eq, not_true_eq_false, if_false]
    have hlast : dev.refCount = 1 := by
      rw [hmore] at hcount
      exact BitVec.eq_of_toNat_eq hcount
    have hsuccess : Success (if dev.deviceClose then close else rtEok) := by
      by_cases hcallback : dev.deviceClose = true
      · rw [if_pos hcallback]
        exact hclose hlast hcallback
      · rw [if_neg hcallback]
        exact .inl rfl
    rw [if_pos hsuccess]
    exact .last hsuccess (by rw [hcount, hmore]) rfl rfl

/-- A close that fails at the last reference: the reference is gone. -/
theorem rtDeviceClose_fails (hlast : dev.refCount = 1) (hcallback : dev.deviceClose = true)
    (hfails : ¬ Success close) : rtDeviceClose close dev = ({ dev with refCount := 0 }, close) := by
  simp [rtDeviceClose, hlast, hcallback, hfails]

/-! ## Runs -/

/-- A call, with what the callbacks do in it. -/
inductive DeviceCall where
  | open (oflag : BitVec 16) (driver : OpenCallbacks)
  | close (close : Int)
  deriving DecidableEq, Repr

/-- A device, and how many opens and closes have been successful. -/
structure TrackedDevice where
  dev : RtDevice
  opens : Nat
  closes : Nat
  deriving DecidableEq, Repr

namespace TrackedDevice

/-- One call. -/
def step : DeviceCall → TrackedDevice → Exec (TrackedDevice × Int)
  | .open oflag driver, s => do
    let (dev, result) ← rtDeviceOpen oflag driver s.dev
    pure ({ s with dev, opens := if Success result then s.opens + 1 else s.opens }, result)
  | .close close, s =>
    let (dev, result) := rtDeviceClose close s.dev
    .ok ({ s with dev, closes := if Success result then s.closes + 1 else s.closes }, result)

/-- Fewer than 255 opens are outstanding, and a driver that fails does not touch the flag. -/
def Allowed : DeviceCall → TrackedDevice → Prop
  | .open _ driver, s =>
    s.opens < s.closes + 255 ∧ (¬ Success driver.open' → driver.openFlag = none)
  | .close _, _ => True

/-- The driver's `init` does not return `-RT_ENOSYS`, and its `close` succeeds at the last
    reference. -/
def Meets : DeviceCall → TrackedDevice → Prop
  | .open _ driver, s => s.dev.flag &&& rtDeviceFlagActivated = 0 → s.dev.deviceInit = true →
      driver.init ≠ -rtEnosys
  | .close close, s => s.dev.refCount = 1 → s.dev.deviceClose = true → Success close

/-- The device is marked open exactly when it has references, and these are the successful opens
    less the successful closes. -/
structure Consistent (s : TrackedDevice) : Prop where
  marked : s.dev.openFlag &&& rtDeviceOflagOpen ≠ 0 ↔ s.dev.refCount ≠ 0
  counted : s.dev.refCount.toNat + s.closes = s.opens

/-- Once all opens are closed, the device can be opened. -/
def Reopenable (s : TrackedDevice) : Prop :=
  s.opens = s.closes → ∀ oflag openFlag, ∃ dev,
    rtDeviceOpen oflag ⟨rtEok, rtEok, openFlag⟩ s.dev = .ok (dev, rtEok)

/-- The call returns, leaves a consistent device, and changes nothing where it returns an error. -/
def Right (call : DeviceCall) (s : TrackedDevice) : Prop :=
  ∃ s' result, step call s = .ok (s', result) ∧ s'.Consistent ∧ s'.Reopenable ∧
    (¬ Success result →
      s'.dev.refCount = s.dev.refCount ∧ s'.dev.openFlag = s.dev.openFlag)

/-- A device as `rt_device_register` leaves it. -/
structure Registered (s : TrackedDevice) : Prop where
  openFlag : s.dev.openFlag = 0
  refCount : s.dev.refCount = 0
  opens : s.opens = 0
  closes : s.closes = 0

variable {s s' : TrackedDevice} {call : DeviceCall} {result : Int}

theorem Registered.consistent (h : s.Registered) : s.Consistent where
  marked := by simp [h.openFlag, h.refCount]
  counted := by simp [h.refCount, h.opens, h.closes]

/-- A device without references is not marked open, so it is not busy. -/
theorem Consistent.reopenable (h : s.Consistent) : s.Reopenable := by
  intro hmatched oflag openFlag
  have hcount : s.dev.refCount.toNat = 0 := by
    have := h.counted
    omega
  have hzero : s.dev.refCount = 0 := BitVec.eq_of_toNat_eq hcount
  have hfree : ¬ s.dev.openFlag &&& rtDeviceOflagOpen ≠ 0 := fun hmark => h.marked.mp hmark hzero
  have hactivated : ∀ dev : RtDevice, dev.openFlag = s.dev.openFlag →
      dev.refCount = s.dev.refCount →
      ∃ dev', rtDeviceOpenActivated oflag ⟨rtEok, rtEok, openFlag⟩ dev = .ok (dev', rtEok) := by
    intro dev hflag hrefs
    unfold rtDeviceOpenActivated
    rw [if_neg (fun hbusy => hfree (hflag ▸ hbusy.2))]
    simp [Success, rtAssert, hrefs, hzero]
  unfold rtDeviceOpen
  split
  · rw [if_neg (fun hfails => hfails.2 rfl)]
    exact hactivated _ rfl rfl
  · exact hactivated _ rfl rfl

/-- What `rt_device_open` does keeps the device consistent. -/
theorem Consistent.opened {dev : RtDevice} (h : s.Consistent) (hopened : Opened s.dev dev result) :
    Consistent { s with dev, opens := if Success result then s.opens + 1 else s.opens } := by
  have hcounted := h.counted
  cases hopened with
  | taken hsuccess hmark hcount =>
    constructor
    · refine ⟨fun _ hzero => ?_, fun _ => hmark⟩
      rw [hzero] at hcount
      simp at hcount
    · simp only [if_pos hsuccess]
      omega
  | refused hfailed hflag hcount =>
    constructor
    · simp only [hflag, hcount]
      exact h.marked
    · simp only [if_neg hfailed, hcount]
      exact hcounted

/-- What `rt_device_close` does keeps it consistent. -/
theorem Consistent.closed {dev : RtDevice} (h : s.Consistent) (hclosed : Closed s.dev dev result) :
    Consistent { s with dev, closes := if Success result then s.closes + 1 else s.closes } := by
  have hcounted := h.counted
  cases hclosed with
  | shared hsuccess hcount hmore hflag =>
    constructor
    · refine ⟨fun _ => hmore, fun _ => ?_⟩
      rw [hflag]
      refine h.marked.mpr (fun hzero => ?_)
      rw [hzero] at hcount
      simp at hcount
    · simp only [if_pos hsuccess]
      omega
  | last hsuccess hcount hzero hflag =>
    constructor
    · simp [hflag, hzero]
    · simp only [if_pos hsuccess]
      omega
  | refused hfailed hsame =>
    subst hsame
    exact ⟨h.marked, by simpa only [if_neg hfailed] using hcounted⟩

/-- A call does what it should exactly when its callbacks do. -/
theorem Consistent.right_iff (h : s.Consistent) (hallowed : Allowed call s) :
    Right call s ↔ Meets call s := by
  have hcounted := h.counted
  cases call with
  | «open» oflag driver =>
    obtain ⟨hfew, hquiet⟩ := hallowed
    constructor
    · rintro ⟨s', result, hstep, h', -⟩ hactivated hcallback henosys
      -- a success that is not counted
      simp only [step, rtDeviceOpen_enosys hactivated hcallback henosys, bind, Except.bind, pure,
        Except.pure, Except.ok.injEq, Prod.mk.injEq] at hstep
      obtain ⟨rfl, -⟩ := hstep
      have := h'.counted
      simp only [if_pos (show Success (-rtEnosys) from .inr rfl)] at this
      omega
    · intro hmeets
      obtain ⟨dev, result, hopen, hopened⟩ :=
        rtDeviceOpen_spec oflag (by omega) hquiet hmeets
      have h' := h.opened hopened
      refine ⟨_, result, by simp only [step, hopen]; rfl, h', h'.reopenable, fun hfailed => ?_⟩
      cases hopened with
      | taken hsuccess => exact absurd hsuccess hfailed
      | refused _ hflag hcount => exact ⟨hcount, hflag⟩
  | close close =>
    constructor
    · rintro ⟨s', result, hstep, -, -, hkept⟩ hlast hcallback
      by_contra hfails
      simp only [step, rtDeviceClose_fails hlast hcallback hfails, Except.ok.injEq,
        Prod.mk.injEq] at hstep
      obtain ⟨rfl, rfl⟩ := hstep
      have hcount : 0 = s.dev.refCount := (hkept hfails).1
      rw [hlast] at hcount
      exact absurd hcount (by decide)
    · intro hmeets
      have hclosed := rtDeviceClose_spec hmeets
      have h' := h.closed hclosed
      refine ⟨_, _, rfl, h', h'.reopenable, fun hfailed => ?_⟩
      cases hclosed with
      | shared hsuccess => exact absurd hsuccess hfailed
      | last hsuccess => exact absurd hsuccess hfailed
      | refused _ hsame => exact ⟨congrArg RtDevice.refCount hsame, congrArg RtDevice.openFlag hsame⟩

/-- Along the calls of a registered device: the flag and the counter say what they should after
    each of them, if and only if no `init` returns `-RT_ENOSYS` and no `close` fails at the last
    reference. -/
theorem rt_device_ref_count (h : s.Registered) {calls : List DeviceCall}
    (hallowed : Along step Allowed calls s) :
    Along step Right calls s ↔ Along step Meets calls s := by
  refine along_iff (I := Consistent) (V := Allowed) (fun call s hs => hs.right_iff) ?_ h.consistent
    hallowed
  rintro call s s' result - - ⟨_, _, hstep, h', -⟩ hstep'
  rw [hstep] at hstep'
  cases hstep'
  exact h'

/-- A standalone device that has nothing but a `close` callback. -/
def standalone : TrackedDevice :=
  ⟨⟨rtDeviceFlagStandalone, 0, 0, false, false, true⟩, 0, 0⟩

theorem standalone_registered : standalone.Registered := by
  constructor <;> rfl

/-- The calls of `standalone`, where its driver does what it is asked. -/
theorem rt_device_ref_count_standalone :
    Along step Right [.open 3 ⟨0, 0, none⟩, .close 0] standalone ↔
      Along step Meets [.open 3 ⟨0, 0, none⟩, .close 0] standalone := by
  apply rt_device_ref_count standalone_registered
  rw [along_cons (by rfl), along_cons (by rfl)]
  exact ⟨⟨by decide, fun _ => rfl⟩, trivial, trivial⟩

/-- The driver fails to close.  The device has no reference then, is still marked open, and cannot
    be opened any more. -/
theorem rt_device_close_failure :
    standalone.Registered ∧
      Along step Allowed [.open 3 ⟨0, 0, none⟩, .close (-5)] standalone ∧
      ¬ Along step Right [.open 3 ⟨0, 0, none⟩, .close (-5)] standalone ∧
      runExcept step [.open 3 ⟨0, 0, none⟩, .close (-5), .open 3 ⟨0, 0, none⟩] standalone =
        .ok (⟨⟨0x018, 0x00b, 0, false, false, true⟩, 1, 0⟩, [rtEok, -5, -rtEbusy]) := by
  refine ⟨standalone_registered, ?_, ?_, by decide⟩
  · rw [along_cons (by rfl), along_cons (by rfl)]
    exact ⟨⟨by decide, fun _ => rfl⟩, trivial, trivial⟩
  · rw [along_cons (by rfl), along_cons (by rfl)]
    rintro ⟨-, ⟨s', result, hstep, -, -, hkept⟩, -⟩
    cases hstep
    exact absurd (hkept (by decide)).1 (by decide)

end TrackedDevice

end PandoraRobot.Kernel
