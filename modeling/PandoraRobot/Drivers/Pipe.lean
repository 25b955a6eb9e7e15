import PandoraRobot.Drivers.Ringbuffer
import PandoraRobot.Kernel.Device

/-! # Pipe devices

`rt_pipe_open`, `rt_pipe_close`, `rt_pipe_read` and `rt_pipe_write` of `pipe.c`, as the device layer
calls them.  Each of them holds the lock of the pipe, so a call is one step.

`rt_pipe_close` frees the fifo at a reference count of 1, and `rt_device_close` has counted down to
0 before it calls it.
-/

namespace PandoraRobot.Drivers

open PandoraRobot.Kernel PandoraRobot.RingBuffer PandoraRobot.Trace

/-! ## The code -/

/-- `rt_ringbuffer_create`, where `pool` is the memory that is found for the buffer and its
    structure, if any is. -/
def rtRingbufferCreate (size : BitVec 16) (pool : Option (Nat → Byte)) :
    Exec (Option RtRingbuffer) := do
  rtAssert (0 < size.toNat)
  -- `rt_malloc` of no bytes returns `RT_NULL`
  match if size.toNat / 4 = 0 then none else pool with
  | none => pure none
  | some pool => do
    -- the size of `rt_ringbuffer_init` is signed
    rtAssert (size.toNat / 4 * 4 < 2 ^ 15)
    pure (some (rtRingbufferInit pool (size.toNat / 4 * 4)))

/-- `struct rt_pipe_device`, of a pipe that `rt_pipe_create` made. -/
structure RtPipe where
  parent : RtDevice
  fifo : Option RtRingbuffer
  bufsz : BitVec 16

/-- `RT_DEVICE_FLAG_RDWR | RT_DEVICE_FLAG_REMOVABLE`. -/
def pipeFlag : BitVec 16 := 0x003 ||| 0x004

namespace RtPipe

/-- `rt_pipe_open`. -/
def rtPipeOpen (pool : Option (Nat → Byte)) (pipe : RtPipe) : Exec RtPipe :=
  match pipe.fifo with
  | none => do
    let fifo ← rtRingbufferCreate pipe.bufsz pool
    pure { pipe with fifo }
  | some _ => pure pipe

/-- `rt_pipe_close`. -/
def rtPipeClose (pipe : RtPipe) : RtPipe :=
  if pipe.parent.refCount = 1 then { pipe with fifo := none } else pipe

/-- The loop of `rt_pipe_read`. -/
def readLoop (count readBytes : Nat) (pbuf : Nat → Byte) (fifo : RtRingbuffer) :
    RtRingbuffer × (Nat → Byte) × Nat :=
  if readBytes < count then
    let (fifo', tail, len) :=
      rtRingbufferGet (fun i => pbuf (readBytes + i)) (BitVec.ofNat 16 (count - readBytes)) fifo
    if 0 < len then
      readLoop count (readBytes + len)
        (fun i => if i < readBytes then pbuf i else tail (i - readBytes)) fifo'
    else (fifo', pbuf, readBytes)
  else (fifo, pbuf, readBytes)
termination_by count - readBytes

/-- The loop of `rt_pipe_write`. -/
def writeLoop (count writeBytes : Nat) (pbuf : Nat → Byte) (fifo : RtRingbuffer) :
    RtRingbuffer × Nat :=
  if writeBytes < count then
    let (fifo', len) :=
      rtRingbufferPut (fun i => pbuf (writeBytes + i)) (BitVec.ofNat 16 (count - writeBytes)) fifo
    if 0 < len then writeLoop count (writeBytes + len) pbuf fifo' else (fifo', writeBytes)
  else (fifo, writeBytes)
termination_by count - writeBytes

/-- `rt_pipe_read`: the buffer after it, and the number of bytes. -/
def rtPipeRead (buffer : Nat → Byte) (count : BitVec 32) (pipe : RtPipe) :
    Exec (RtPipe × (Nat → Byte) × Nat) :=
  if count = 0 then pure (pipe, buffer, 0)
  else
    match pipe.fifo with
    -- `RT_ASSERT(rb != RT_NULL)`
    | none => .error .assertion
    | some fifo =>
      let (fifo, buffer, readBytes) := readLoop count.toNat 0 buffer fifo
      pure ({ pipe with fifo := some fifo }, buffer, readBytes)

/-- `rt_pipe_write`: the number of bytes. -/
def rtPipeWrite (buffer : Nat → Byte) (count : BitVec 32) (pipe : RtPipe) : Exec (RtPipe × Nat) :=
  if count = 0 then pure (pipe, 0)
  else
    match pipe.fifo with
    | none => .error .assertion
    | some fifo =>
      let (fifo, writeBytes) := writeLoop count.toNat 0 buffer fifo
      pure ({ pipe with fifo := some fifo }, writeBytes)

end RtPipe

/-! ## The calls of the device layer -/

/-- A call on the pipe.  An open comes with the memory that it finds. -/
inductive PipeCall where
  | open (oflag : BitVec 16) (pool : Option (Nat → Byte))
  | close
  | read (buffer : Nat → Byte) (count : BitVec 32)
  | write (buffer : Nat → Byte) (count : BitVec 32)

/-- What a call returns, with the buffer of a read. -/
inductive PipeReturned where
  | result (result : Int)
  | read (buffer : Nat → Byte) (readBytes : Nat)
  | write (writeBytes : Nat)

namespace PipeCall

/-- `rt_device_open`, `rt_device_close`, `rt_device_read` and `rt_device_write` of a pipe. -/
def step : PipeCall → RtPipe → Exec (RtPipe × PipeReturned)
  | .open oflag pool, pipe => do
    -- the device layer asks the driver first, and counts afterwards
    let pipe ← pipe.rtPipeOpen pool
    let (parent, result) ← rtDeviceOpen oflag ⟨rtEok, rtEok, none⟩ pipe.parent
    pure ({ pipe with parent }, .result result)
  | .close, pipe =>
    let (parent, result) := rtDeviceClose rtEok pipe.parent
    if pipe.parent.refCount = 1 then
      -- the driver finds the count that the device layer has left
      let counted := { pipe with parent := { pipe.parent with refCount := 0 } }
      pure ({ counted.rtPipeClose with parent }, .result result)
    else pure ({ pipe with parent }, .result result)
  | .read buffer count, pipe =>
    if pipe.parent.refCount = 0 then pure (pipe, .read buffer 0)
    else do
      let (pipe, buffer, readBytes) ← pipe.rtPipeRead buffer count
      pure (pipe, .read buffer readBytes)
  | .write buffer count, pipe =>
    if pipe.parent.refCount = 0 then pure (pipe, .write 0)
    else do
      let (pipe, writeBytes) ← pipe.rtPipeWrite buffer count
      pure (pipe, .write writeBytes)

end PipeCall

/-! ## What a call does -/

namespace RtPipe

variable {s s' : RtPipe} {pool : Option (Nat → Byte)} {buffer buffer' : Nat → Byte}
variable {count : BitVec 32} {n : Nat}

/-- Two pipes that differ at most in what the fifo holds. -/
structure SameUse (s s' : RtPipe) : Prop where
  parent : s'.parent = s.parent
  bufsz : s'.bufsz = s.bufsz
  fifo : s'.fifo = none ↔ s.fifo = none

theorem SameUse.refl (s : RtPipe) : SameUse s s := ⟨rfl, rfl, Iff.rfl⟩

theorem rtPipeRead_sameUse (h : s.rtPipeRead buffer count = .ok (s', buffer', n)) :
    SameUse s s' := by
  unfold rtPipeRead at h
  split at h
  case isTrue =>
    simp only [exec_pure_ok, Prod.mk.injEq] at h
    obtain ⟨rfl, -⟩ := h
    exact .refl _
  case isFalse =>
    cases hfifo : s.fifo with
    | none => simp [hfifo] at h
    | some fifo =>
      simp only [hfifo, exec_pure_ok, Prod.mk.injEq] at h
      obtain ⟨rfl, -⟩ := h
      exact ⟨rfl, rfl, by simp [hfifo]⟩

theorem rtPipeWrite_sameUse (h : s.rtPipeWrite buffer count = .ok (s', n)) : SameUse s s' := by
  unfold rtPipeWrite at h
  split at h
  case isTrue =>
    simp only [exec_pure_ok, Prod.mk.injEq] at h
    obtain ⟨rfl, -⟩ := h
    exact .refl _
  case isFalse =>
    cases hfifo : s.fifo with
    | none => simp [hfifo] at h
    | some fifo =>
      simp only [hfifo, exec_pure_ok, Prod.mk.injEq] at h
      obtain ⟨rfl, -⟩ := h
      exact ⟨rfl, rfl, by simp [hfifo]⟩

/-- What the fifo can hold. -/
def capacity (s : RtPipe) : Nat := s.bufsz.toNat / 4 * 4

/-- The pipe has a fifo of the full capacity, and nothing in it. -/
def Empty (s : RtPipe) : Prop := ∃ fifo, s.fifo = some fifo ∧ Holds fifo s.capacity []

/-- The fifo is created: it is empty, if there is memory for it. -/
theorem rtPipeOpen_creates (hfifo : s.fifo = none) (h : s.rtPipeOpen pool = .ok s') :
    s'.parent = s.parent ∧ s'.bufsz = s.bufsz ∧ s.bufsz ≠ 0 ∧
      (s'.fifo ≠ none ↔ 4 ≤ s.bufsz.toNat ∧ pool ≠ none) ∧ (s'.fifo ≠ none → s'.Empty) := by
  simp only [rtPipeOpen, hfifo, rtRingbufferCreate, exec_bind_ok, rtAssert_eq_ok] at h
  obtain ⟨fifo, ⟨_, hpos, hcreate⟩, h⟩ := h
  obtain rfl := exec_pure_ok.mp h
  refine ⟨rfl, rfl, fun hzero => ?_, ?_⟩
  · rw [hzero] at hpos
    exact absurd hpos (by decide)
  by_cases hsmall : s.bufsz.toNat / 4 = 0
  · obtain rfl : none = fifo := by simpa [hsmall] using hcreate
    exact ⟨by simp; omega, by simp⟩
  · cases pool with
    | none =>
      obtain rfl : none = fifo := by simpa using hcreate
      simp
    | some pool =>
      simp only [hsmall, if_false, exec_bind_ok, rtAssert_eq_ok, exec_pure_ok] at hcreate
      obtain ⟨-, hsize, rfl⟩ := hcreate
      refine ⟨by simp; omega, fun _ => ⟨_, rfl, ?_⟩⟩
      rw [rtRingbufferInit, Nat.mul_div_cancel _ (by decide)]
      exact .fresh (show 0 < s.bufsz.toNat / 4 * 4 by omega) hsize

theorem rtPipeOpen_keeps (hfifo : s.fifo ≠ none) : s.rtPipeOpen pool = .ok s := by
  cases h : s.fifo with
  | none => exact absurd h hfifo
  | some fifo => simp [rtPipeOpen, h, pure, Except.pure]

end RtPipe

/-- A device that the device layer handles as a pipe: `open` is its only callback in the way of an
    open, and it can be opened any number of times. -/
structure PipeDevice (dev : RtDevice) : Prop where
  deviceInit : dev.deviceInit = false
  deviceOpen : dev.deviceOpen = true
  flag : dev.flag &&& rtDeviceFlagStandalone = 0

theorem PipeDevice.rtDeviceOpenActivated {dev dev' : RtDevice} {oflag : BitVec 16} {result : Int}
    (hdev : PipeDevice dev)
    (h : Kernel.rtDeviceOpenActivated oflag ⟨rtEok, rtEok, none⟩ dev = .ok (dev', result)) :
    dev'.refCount = dev.refCount + 1 ∧ dev'.refCount ≠ 0 ∧ PipeDevice dev' := by
  simp only [Kernel.rtDeviceOpenActivated, hdev.flag, ne_eq, not_true_eq_false, false_and, if_false,
    hdev.deviceOpen, if_true, Success, true_or, exec_bind_ok, rtAssert_eq_ok, exec_pure_ok,
    Prod.mk.injEq] at h
  obtain ⟨-, hcount, rfl, -⟩ := h
  exact ⟨rfl, hcount, hdev.deviceInit, rfl, hdev.flag⟩

/-- What `rt_device_open` does on top of `rt_pipe_open`. -/
theorem PipeDevice.rtDeviceOpen {dev dev' : RtDevice} {oflag : BitVec 16} {result : Int}
    (hdev : PipeDevice dev)
    (h : Kernel.rtDeviceOpen oflag ⟨rtEok, rtEok, none⟩ dev = .ok (dev', result)) :
    dev'.refCount = dev.refCount + 1 ∧ dev'.refCount ≠ 0 ∧ PipeDevice dev' := by
  unfold Kernel.rtDeviceOpen at h
  split at h
  case isTrue =>
    rw [if_neg (fun hfails => hfails.2 rfl)] at h
    have hflag : (dev.flag ||| rtDeviceFlagActivated) &&& rtDeviceFlagStandalone =
        dev.flag &&& rtDeviceFlagStandalone := by
      have hother : rtDeviceFlagActivated &&& rtDeviceFlagStandalone = 0 := by decide
      rw [BitVec.and_or_distrib_right, hother]
      exact BitVec.or_zero
    have hactivated : PipeDevice { dev with flag := dev.flag ||| rtDeviceFlagActivated } :=
      ⟨hdev.deviceInit, hdev.deviceOpen, hflag.trans hdev.flag⟩
    exact hactivated.rtDeviceOpenActivated h
  case isFalse => exact hdev.rtDeviceOpenActivated h

/-! ## Runs -/

namespace PipeCall

open RtPipe

variable {s s' : RtPipe} {call : PipeCall} {returned : PipeReturned}

/-- The pipe has a fifo exactly while it has references. -/
def Matched (s : RtPipe) : Prop := s.fifo ≠ none ↔ s.parent.refCount ≠ 0

/-- The pipe is matched after the call, and an open that is the first one leaves it empty, with the
    full capacity. -/
def Right (call : PipeCall) (s : RtPipe) : Prop :=
  ∀ s' returned, call.step s = .ok (s', returned) →
    Matched s' ∧ ((∃ oflag pool, call = .open oflag pool) → s.parent.refCount = 0 → s'.Empty)

/-- There is memory for a fifo that has to be created, and the close is not the last one. -/
def Meets : PipeCall → RtPipe → Prop
  | .open _ pool, s => s.fifo = none → s.bufsz ≠ 0 → 4 ≤ s.bufsz.toNat ∧ pool ≠ none
  | .close, s => s.parent.refCount ≠ 1
  | .read _ _, _ => True
  | .write _ _, _ => True

/-- A pipe as `rt_pipe_create` leaves it. -/
structure Created (s : RtPipe) : Prop where
  parent : s.parent = ⟨pipeFlag, 0, 0, false, true, true⟩
  fifo : s.fifo = none

/-- A matched pipe. -/
structure Inv (s : RtPipe) : Prop where
  matched : Matched s
  device : PipeDevice s.parent

theorem Created.inv (h : Created s) : Inv s where
  matched := by simp [Matched, h.parent, h.fifo]
  device := by
    rw [h.parent]
    exact ⟨rfl, rfl, by decide⟩

theorem Inv.sameUse (h : Inv s) (hsame : SameUse s s') : Inv s' := by
  refine ⟨?_, hsame.parent ▸ h.device⟩
  rw [Matched, hsame.parent, ne_eq, hsame.fifo]
  exact h.matched

/-- An open counts, and creates the fifo of a pipe that has none. -/
theorem Inv.open {oflag : BitVec 16} {pool : Option (Nat → Byte)} (h : Inv s)
    (hstep : (PipeCall.open oflag pool).step s = .ok (s', returned)) :
    PipeDevice s'.parent ∧ s'.parent.refCount ≠ 0 ∧
      (s.parent.refCount = 0 → (s'.fifo ≠ none → s'.Empty)) ∧
      (s'.fifo ≠ none ↔ Meets (.open oflag pool) s) := by
  simp only [step, exec_bind_ok, exec_pure_ok] at hstep
  obtain ⟨opened, hopen, ⟨parent, result⟩, hdevice, heq⟩ := hstep
  obtain rfl : { opened with parent } = s' := congrArg Prod.fst heq
  by_cases hfifo : s.fifo = none
  · obtain ⟨hparent, hbufsz, hpos, hmemory, hempty⟩ := rtPipeOpen_creates hfifo hopen
    obtain ⟨-, hcount, hdev⟩ := PipeDevice.rtDeviceOpen (hparent ▸ h.device) hdevice
    exact ⟨hdev, hcount, fun _ => hempty, hmemory.trans ⟨fun hm _ _ => hm, fun hm => hm hfifo hpos⟩⟩
  · rw [rtPipeOpen_keeps hfifo] at hopen
    obtain rfl := Except.ok.inj hopen
    obtain ⟨-, hcount, hdev⟩ := h.device.rtDeviceOpen hdevice
    exact ⟨hdev, hcount, fun hfirst => absurd hfirst (h.matched.mp hfifo),
      fun _ hnone => absurd hnone hfifo, fun _ => hfifo⟩

/-- Where there is no memory for the fifo, the pipe is opened without one. -/
theorem rtPipeOpen_without {pool : Option (Nat → Byte)} (hfifo : s.fifo = none)
    (hpos : s.bufsz ≠ 0) (hmemory : ¬ (4 ≤ s.bufsz.toNat ∧ pool ≠ none)) :
    s.rtPipeOpen pool = .ok s := by
  have hassert : 0 < s.bufsz.toNat := by
    by_contra hzero
    exact hpos (BitVec.eq_of_toNat_eq (by simpa using hzero))
  have hnone : (if s.bufsz.toNat / 4 = 0 then none else pool) = none := by
    split
    case isTrue => rfl
    case isFalse hlarge =>
      by_contra hsome
      exact hmemory ⟨by omega, hsome⟩
  simp only [rtPipeOpen, hfifo, rtRingbufferCreate, rtAssert, if_pos hassert, hnone]
  exact congrArg Except.ok (by rw [← hfifo])

theorem step_open_without (oflag : BitVec 16) {pool : Option (Nat → Byte)} (h : Inv s)
    (hfifo : s.fifo = none) (hpos : s.bufsz ≠ 0)
    (hmemory : ¬ (4 ≤ s.bufsz.toNat ∧ pool ≠ none)) :
    ∃ s' returned, (PipeCall.open oflag pool).step s = .ok (s', returned) := by
  have hfirst : s.parent.refCount = 0 := by
    by_contra hopen
    exact h.matched.mpr hopen hfifo
  obtain ⟨parent, result, hdevice, -⟩ : ∃ parent result,
      rtDeviceOpen oflag ⟨rtEok, rtEok, none⟩ s.parent = .ok (parent, result) ∧
        Opened s.parent parent result :=
    rtDeviceOpen_spec oflag (by simp [hfirst]) (fun _ => rfl) (fun _ _ => by decide)
  refine ⟨{ s with parent }, .result result, ?_⟩
  simp only [step, rtPipeOpen_without hfifo hpos hmemory, bind, Except.bind, hdevice]
  rfl

/-- The last close leaves the fifo. -/
theorem step_close_last (hlast : s.parent.refCount = 1) :
    ∃ s' returned, PipeCall.close.step s = .ok (s', returned) ∧ s'.fifo = s.fifo ∧
      s'.parent.refCount = 0 := by
  have hcount : (rtDeviceClose rtEok s.parent).1.refCount = 0 := by
    simp [rtDeviceClose, hlast]
    split <;> rfl
  refine ⟨{ s with parent := (rtDeviceClose rtEok s.parent).1 },
    .result (rtDeviceClose rtEok s.parent).2, ?_, rfl, hcount⟩
  simp only [step, if_pos hlast]
  rfl

/-- Another close counts only. -/
theorem step_close_shared (hmore : s.parent.refCount ≠ 1) (h : Inv s)
    (hstep : PipeCall.close.step s = .ok (s', returned)) : Inv s' := by
  simp only [step, if_neg hmore, exec_pure_ok, Prod.mk.injEq] at hstep
  obtain ⟨rfl, -⟩ := hstep
  unfold rtDeviceClose
  by_cases hzero : s.parent.refCount = 0
  · simp only [if_pos hzero]
    exact h
  · have hleft : s.parent.refCount - 1 ≠ 0 := fun hlast => hmore (by bv_omega)
    simp only [if_neg hzero, if_pos hleft]
    exact ⟨⟨fun _ => hleft, fun _ => h.matched.mpr hzero⟩, h.device.deviceInit, h.device.deviceOpen,
      h.device.flag⟩

theorem step_read_sameUse {buffer : Nat → Byte} {count : BitVec 32}
    (hstep : (PipeCall.read buffer count).step s = .ok (s', returned)) : SameUse s s' := by
  simp only [step] at hstep
  split at hstep
  case isTrue =>
    obtain rfl : s = s' := congrArg Prod.fst (exec_pure_ok.mp hstep)
    exact .refl _
  case isFalse =>
    simp only [exec_bind_ok, exec_pure_ok, Prod.mk.injEq] at hstep
    obtain ⟨⟨read, buffer', n⟩, hread, rfl, -⟩ := hstep
    exact rtPipeRead_sameUse hread

theorem step_write_sameUse {buffer : Nat → Byte} {count : BitVec 32}
    (hstep : (PipeCall.write buffer count).step s = .ok (s', returned)) : SameUse s s' := by
  simp only [step] at hstep
  split at hstep
  case isTrue =>
    obtain rfl : s = s' := congrArg Prod.fst (exec_pure_ok.mp hstep)
    exact .refl _
  case isFalse =>
    simp only [exec_bind_ok, exec_pure_ok, Prod.mk.injEq] at hstep
    obtain ⟨⟨written, n⟩, hwrite, rfl, -⟩ := hstep
    exact rtPipeWrite_sameUse hwrite

/-- A call does what it should exactly when it is none of those that go wrong. -/
theorem Inv.right_iff (h : Inv s) : Right call s ↔ Meets call s := by
  cases call with
  | «open» oflag pool =>
    constructor
    · intro hright hfifo hpos
      by_contra hmemory
      obtain ⟨s', returned, hstep⟩ := step_open_without oflag h hfifo hpos hmemory
      obtain ⟨-, hcount, -, hcreated⟩ := h.open hstep
      exact hmemory (hcreated.mp ((hright s' returned hstep).1.mpr hcount) hfifo hpos)
    · intro hmeets s' returned hstep
      obtain ⟨-, hcount, hempty, hfifo⟩ := h.open hstep
      have hcreated := hfifo.mpr hmeets
      exact ⟨⟨fun _ => hcount, fun _ => hcreated⟩, fun _ hfirst => hempty hfirst hcreated⟩
  | close =>
    constructor
    · intro hright hlast
      obtain ⟨s', returned, hstep, hkept, hcount⟩ := step_close_last hlast
      have hfifo : s'.fifo ≠ none := by
        rw [hkept]
        exact h.matched.mpr (by rw [hlast]; decide)
      exact (hright s' returned hstep).1.mp hfifo hcount
    · intro hmeets s' returned hstep
      exact ⟨(step_close_shared hmeets h hstep).matched, by rintro ⟨_, _, hopen⟩; cases hopen⟩
  | read buffer count =>
    refine ⟨fun _ => trivial, fun _ s' returned hstep => ?_⟩
    exact ⟨(h.sameUse (step_read_sameUse hstep)).matched, by rintro ⟨_, _, hopen⟩; cases hopen⟩
  | write buffer count =>
    refine ⟨fun _ => trivial, fun _ s' returned hstep => ?_⟩
    exact ⟨(h.sameUse (step_write_sameUse hstep)).matched, by rintro ⟨_, _, hopen⟩; cases hopen⟩

/-- A call that does what it should leaves a pipe to which this applies again. -/
theorem Inv.step (h : Inv s) (hright : Right call s)
    (hstep : call.step s = .ok (s', returned)) : Inv s' := by
  refine ⟨(hright s' returned hstep).1, ?_⟩
  cases call with
  | «open» oflag pool => exact (h.open hstep).1
  | close => exact (step_close_shared (h.right_iff.mp hright) h hstep).device
  | read buffer count => exact (h.sameUse (step_read_sameUse hstep)).device
  | write buffer count => exact (h.sameUse (step_write_sameUse hstep)).device

/-- Along the calls of any users on a pipe: after each call the pipe has a fifo exactly while it
    has references, and the first open leaves it empty with the full capacity, if and only if
    there is memory for the fifo and no close is the last one. -/
theorem rt_pipe_fifo (h : Created s) {calls : List PipeCall} :
    Along PipeCall.step Right calls s ↔ Along PipeCall.step Meets calls s := by
  refine along_iff (I := Inv) (V := fun _ _ => True) (fun _ _ hs _ => hs.right_iff) ?_ h.inv ?_
  · intro call s s' returned hs _ hright hstep
    exact hs.step hright hstep
  · exact along_true

/-- A pipe of 8 bytes. -/
def smallPipe : RtPipe := ⟨⟨pipeFlag, 0, 0, false, true, true⟩, none, 8⟩

/-- The memory that an open finds. -/
def smallPool : Option (Nat → Byte) := some fun _ => 0

/-- A user who opens the pipe, writes a byte and closes it, and another one who opens it. -/
def twoUsers : List PipeCall := [.open 3 smallPool, .write (fun _ => 7) 1, .close, .open 3 smallPool]

theorem rt_pipe_fifo_twoUsers :
    Along PipeCall.step Right twoUsers smallPipe ↔ Along PipeCall.step Meets twoUsers smallPipe :=
  rt_pipe_fifo ⟨rfl, rfl⟩

/-- The fifo with that byte in it. -/
def smallFifo : RtRingbuffer := (rtRingbufferPut (fun _ => 7) 1 (.fresh (fun _ => 0) 8)).1

/-- `smallPipe` with `refCount` references. -/
def smallOpened (openFlag : BitVec 16) (refCount : BitVec 8) (fifo : RtRingbuffer) : RtPipe :=
  ⟨⟨pipeFlag ||| rtDeviceFlagActivated, openFlag, refCount, false, true, true⟩, some fifo, 8⟩

theorem step_smallWrite : (PipeCall.write (fun _ => 7) 1).step
    (smallOpened rtDeviceOflagOpen 1 (.fresh (fun _ => 0) 8)) =
      .ok (smallOpened rtDeviceOflagOpen 1 smallFifo, .write 1) := by
  have hput : rtRingbufferPut (fun _ => 7) (BitVec.ofNat 16 (1 - 0)) (.fresh (fun _ => 0) 8) =
      (smallFifo, 1) := rfl
  have hloop : writeLoop 1 0 (fun _ => 7) (.fresh (fun _ => 0) 8) = (smallFifo, 1) := by
    rw [writeLoop, if_pos Nat.one_pos, hput]
    simp only [Nat.one_pos, if_true]
    rw [writeLoop, if_neg (Nat.lt_irrefl 1)]
  have hcount : (1 : BitVec 32).toNat = 1 := rfl
  simp only [step, smallOpened, rtPipeWrite, hcount, hloop]
  rfl

/-- The second user finds the byte of the first: the close has freed nothing. -/
theorem rt_pipe_fifo_stale :
    Created smallPipe ∧ ¬ Along PipeCall.step Right twoUsers smallPipe ∧
      ∃ pipe returned, runExcept PipeCall.step twoUsers smallPipe = .ok (pipe, returned) ∧
        pipe.parent.refCount = 1 ∧ pipe.fifo.map rtRingbufferDataLen = some 1 := by
  have hopen : (PipeCall.open 3 smallPool).step smallPipe =
      .ok (smallOpened rtDeviceOflagOpen 1 (.fresh (fun _ => 0) 8), .result 0) := rfl
  have hclose : PipeCall.close.step (smallOpened rtDeviceOflagOpen 1 smallFifo) =
      .ok (smallOpened 0 0 smallFifo, .result 0) := rfl
  have hagain : (PipeCall.open 3 smallPool).step (smallOpened 0 0 smallFifo) =
      .ok (smallOpened rtDeviceOflagOpen 1 smallFifo, .result 0) := rfl
  refine ⟨⟨rfl, rfl⟩, ?_, smallOpened rtDeviceOflagOpen 1 smallFifo, ?_⟩
  · rw [twoUsers, along_cons hopen, along_cons step_smallWrite]
    rintro ⟨-, -, hright, -⟩
    exact (hright _ _ hclose).1.mp (Option.some_ne_none _) rfl
  · refine ⟨[.result 0, .write 1, .result 0, .result 0], ?_, rfl, rfl⟩
    simp only [twoUsers, runExcept, hopen, step_smallWrite, hclose, hagain, bind, Except.bind]
    rfl

end PipeCall

end PandoraRobot.Drivers
