import PandoraRobot.Drivers.SerialOpen
import PandoraRobot.Lib.Transcript
import PandoraRobot.Lib.TwoWire

/-! # The I2C bus on two pins

`i2c-bit-ops.c`, and `rt_i2c_transfer`, `rt_i2c_master_send` and `rt_i2c_master_recv` of
`i2c_core.c` for such a bus.  A slave is any function of what has happened on the bus so far: it
pulls the clock low until the driver has waited too long, and it pulls the data line low when the
driver samples it.  Delays and the lock of the bus are left out.

The length of a message has 16 bits, and the length of a send or a receive has 32.
-/

namespace PandoraRobot.Drivers.I2c

open PandoraRobot.Kernel PandoraRobot.Transcript PandoraRobot.TwoWire

/-- `RT_ETIMEOUT`. -/
def rtEtimeout : Int := 2

def rtI2cRd : BitVec 16 := 0x0001
def rtI2cAddr10bit : BitVec 16 := 0x0004
def rtI2cNoStart : BitVec 16 := 0x0010
def rtI2cIgnoreNack : BitVec 16 := 0x0020
def rtI2cNoReadAck : BitVec 16 := 0x0040

/-- `struct rt_i2c_msg`.  `buf` is the memory at the buffer. -/
structure Msg where
  addr : BitVec 16
  flags : BitVec 16
  len : BitVec 16
  buf : Nat → BitVec 8

namespace Msg

variable (msg : Msg)

def rd : Bool := msg.flags &&& rtI2cRd ≠ 0
def addr10bit : Bool := msg.flags &&& rtI2cAddr10bit ≠ 0
def noStart : Bool := msg.flags &&& rtI2cNoStart ≠ 0
def ignoreNack : Bool := msg.flags &&& rtI2cIgnoreNack ≠ 0
def noReadAck : Bool := msg.flags &&& rtI2cNoReadAck ≠ 0

end Msg

/-- What a function that moves a byte has returned: `i2c_writeb`, `i2c_readb`, and
    `i2c_send_ack_or_nack` after it. -/
inductive Moved where
  | written (data : BitVec 8) (ret : Int)
  | read (ret : Int)
  | answered (ack : Bool) (ret : Int)
  deriving DecidableEq, Repr

/-- What happens on the bus: the calls of the pins, a clock that stays low, a byte that is stored
    in the buffer of the message, and a byte that has been moved or has not. -/
inductive Event where
  | line (call : LineCall)
  | timeout
  | stored (index : Nat) (data : BitVec 8)
  | moved (byte : Moved)
  deriving DecidableEq, Repr

structure Slave where
  /-- The clock is held low for too long. -/
  stretches : List Event → Bool
  /-- What the driver gets when it samples the data line. -/
  level : List Event → Bool

/-- A function of the driver, run on a bus on which something has happened already. -/
abbrev OnBus (α : Type) := StateM (List Event) α

def emit (e : Event) : OnBus Unit := modify (· ++ [e])

def setSda (level : Bool) : OnBus Unit := emit (.line (.sda level))
def setScl (level : Bool) : OnBus Unit := emit (.line (.scl level))

/-- What a function that moves a byte returns is written down. -/
def recorded (byte : Int → Moved) (f : OnBus Int) : OnBus Int := do
  let ret ← f
  emit (.moved (byte ret))
  pure ret

/-! ## Bits and bytes -/

def i2cStart : OnBus Unit := do
  setSda false
  setScl false

section Pins

variable (slave : Slave)

def getSda : OnBus Bool := do
  let level := slave.level (← get)
  emit (.line (.sample level))
  pure level

/-- `SCL_H`. -/
def sclH : OnBus Int := do
  setScl true
  if slave.stretches (← get) then
    emit .timeout
    pure (-rtEtimeout)
  else pure rtEok

def i2cRestart : OnBus Unit := do
  setSda true
  let _ ← sclH slave
  setSda false
  setScl false

def i2cStop : OnBus Unit := do
  setSda false
  let _ ← sclH slave
  setSda true

def i2cWaitack : OnBus Int := do
  setSda true
  if (← sclH slave) < 0 then pure (-rtEtimeout)
  else
    let sda ← getSda slave
    setScl false
    pure (if !sda then 1 else 0)

/-- The loop of `i2c_writeb`, with the number of bits that are left. -/
def i2cWritebLoop (data : BitVec 8) : Nat → OnBus Int
  | 0 => pure rtEok
  | i + 1 => do
    setScl false
    setSda (data.getLsbD i)
    if (← sclH slave) < 0 then pure (-rtEtimeout) else i2cWritebLoop data i

def i2cWriteb (data : BitVec 8) : OnBus Int := recorded (.written data) do
  if (← i2cWritebLoop slave data 8) < 0 then pure (-rtEtimeout)
  else
    setScl false
    i2cWaitack slave

/-- The loop of `i2c_readb`, with the number of bits that are left. -/
def i2cReadbLoop : Nat → BitVec 8 → OnBus Int
  | 0, data => pure data.toNat
  | i + 1, data => do
    let data := data <<< 1
    if (← sclH slave) < 0 then pure (-rtEtimeout)
    else
      let data := if ← getSda slave then data ||| 1 else data
      setScl false
      i2cReadbLoop i data

def i2cReadb : OnBus Int := recorded .read do
  setSda true
  i2cReadbLoop slave 8 0

def i2cSendAckOrNack (ack : Bool) : OnBus Int := recorded (.answered ack) do
  if ack then setSda false
  if (← sclH slave) < 0 then pure (-rtEtimeout)
  else
    setScl false
    pure rtEok

/-! ## Messages -/

/-- The loop of `i2c_send_bytes`, with `count` and `bytes`. -/
def i2cSendBytesLoop (msg : Msg) : Nat → Nat → OnBus Int
  | 0, bytes => pure bytes
  | count + 1, bytes => do
    let ret ← i2cWriteb slave (msg.buf bytes)
    if 0 < ret ∨ msg.ignoreNack ∧ ret = 0 then i2cSendBytesLoop msg count (bytes + 1)
    else if ret = 0 then pure 0
    else pure ret

def i2cSendBytes (msg : Msg) : OnBus Int := i2cSendBytesLoop slave msg msg.len.toNat 0

/-- The loop of `i2c_recv_bytes`, with `count` and `bytes`. -/
def i2cRecvBytesLoop (msg : Msg) : Nat → Nat → OnBus Int
  | 0, bytes => pure bytes
  | count + 1, bytes => do
    let val ← i2cReadb slave
    if 0 ≤ val then
      emit (.stored bytes (BitVec.ofInt 8 val))
      let val ← (if msg.noReadAck then pure rtEok else i2cSendAckOrNack slave (count ≠ 0))
      if val < 0 then pure val else i2cRecvBytesLoop msg count (bytes + 1)
    else pure bytes

def i2cRecvBytes (msg : Msg) : OnBus Int := i2cRecvBytesLoop slave msg msg.len.toNat 0

/-- The loop of `i2c_send_address`, with the number of retries that are left. -/
def i2cSendAddressLoop (addr : BitVec 8) : Nat → OnBus Int
  | 0 => i2cWriteb slave addr
  | n + 1 => do
    let ret ← i2cWriteb slave addr
    if ret = 1 then pure ret
    else
      i2cStop slave
      i2cStart
      i2cSendAddressLoop addr n

/-- A negative number of retries leaves no turn. -/
def i2cSendAddress (addr : BitVec 8) (retries : Int) : OnBus Int :=
  if 0 ≤ retries then i2cSendAddressLoop slave addr retries.toNat else pure 0

/-- The first byte of an address of 10 bits. -/
def addr1 (msg : Msg) : BitVec 8 := (0xf0 ||| msg.addr >>> 7 &&& 0x06).setWidth 8

/-- The second byte of an address of 10 bits. -/
def addr2 (msg : Msg) : BitVec 8 := (msg.addr &&& 0xff).setWidth 8

/-- An address of 7 bits, with the bit for a read. -/
def addr7 (msg : Msg) : BitVec 8 :=
  (msg.addr <<< 1).setWidth 8 ||| if msg.rd then 1 else 0

/-- `retries` of `i2c_bit_send_address`. -/
def retriesOf (busRetries : BitVec 32) (msg : Msg) : Int :=
  if msg.ignoreNack then 0 else busRetries.toInt

def i2cBitSendAddress (busRetries : BitVec 32) (msg : Msg) : OnBus Int :=
  if msg.addr10bit then do
    let ret ← i2cSendAddress slave (addr1 msg) (retriesOf busRetries msg)
    if ret ≠ 1 ∧ ¬ msg.ignoreNack then pure (-rtEio)
    else
      let ret ← i2cWriteb slave (addr2 msg)
      if ret ≠ 1 ∧ ¬ msg.ignoreNack then pure (-rtEio)
      else if msg.rd then
        i2cRestart slave
        let ret ← i2cSendAddress slave (addr1 msg ||| 0x01) (retriesOf busRetries msg)
        if ret ≠ 1 ∧ ¬ msg.ignoreNack then pure (-rtEio) else pure rtEok
      else pure rtEok
  else do
    let ret ← i2cSendAddress slave (addr7 msg) (retriesOf busRetries msg)
    if ret ≠ 1 ∧ ¬ msg.ignoreNack then pure (-rtEio) else pure rtEok

/-- The first part of a turn of the loop of `i2c_bit_xfer`. -/
def i2cBitXferAddress (busRetries : BitVec 32) (i : Nat) (msg : Msg) : OnBus Int :=
  if msg.noStart then pure rtEok
  else do
    if i ≠ 0 then i2cRestart slave
    i2cBitSendAddress slave busRetries msg

/-- The loop of `i2c_bit_xfer`, with the messages that are left. -/
def i2cBitXferLoop (busRetries : BitVec 32) : Nat → List Msg → OnBus Int
  | i, [] => pure i
  | i, msg :: msgs => do
    let ret ← i2cBitXferAddress slave busRetries i msg
    if ret ≠ rtEok ∧ ¬ msg.ignoreNack then pure ret
    else if msg.rd then
      let ret ← i2cRecvBytes slave msg
      if ret < msg.len.toNat then pure (if 0 ≤ ret then -rtEio else ret)
      else i2cBitXferLoop busRetries (i + 1) msgs
    else
      let ret ← i2cSendBytes slave msg
      if ret < msg.len.toNat then pure (if 0 ≤ ret then -rtError else ret)
      else i2cBitXferLoop busRetries (i + 1) msgs

def i2cBitXfer (busRetries : BitVec 32) (msgs : List Msg) : OnBus Int := do
  i2cStart
  let ret ← i2cBitXferLoop slave busRetries 0 msgs
  i2cStop slave
  pure ret

/-! ## Sends and receives -/

/-- The message of a send. -/
def sendMsg (addr flags : BitVec 16) (buf : Nat → BitVec 8) (count : BitVec 32) : Msg where
  addr := addr
  flags := flags &&& rtI2cAddr10bit
  len := count.setWidth 16
  buf := buf

/-- The message of a receive. -/
def recvMsg (addr flags : BitVec 16) (buf : Nat → BitVec 8) (count : BitVec 32) : Msg where
  addr := addr
  flags := flags &&& rtI2cAddr10bit ||| rtI2cRd
  len := count.setWidth 16
  buf := buf

/-- A transfer of one message, and what is returned for the length `count` that was asked for. -/
def transferOne (busRetries : BitVec 32) (msg : Msg) (count : BitVec 32) :
    OnBus (BitVec 32) := do
  let ret ← i2cBitXfer slave busRetries [msg]
  pure (if 0 < ret then count else BitVec.ofInt 32 ret)

def rtI2cMasterSend (busRetries : BitVec 32) (addr flags : BitVec 16) (buf : Nat → BitVec 8)
    (count : BitVec 32) : OnBus (BitVec 32) :=
  transferOne slave busRetries (sendMsg addr flags buf count) count

def rtI2cMasterRecv (busRetries : BitVec 32) (addr flags : BitVec 16) (buf : Nat → BitVec 8)
    (count : BitVec 32) : OnBus (BitVec 32) :=
  transferOne slave busRetries (recvMsg addr flags buf count) count

end Pins

/-! ## What the functions for bits and bytes add -/

/-- The bytes of a transcript. -/
def movedOf (w : List Event) : List Moved :=
  w.filterMap fun
    | .moved byte => some byte
    | _ => none

@[simp] theorem movedOf_nil : movedOf [] = [] := rfl

@[simp] theorem movedOf_append (w w' : List Event) :
    movedOf (w ++ w') = movedOf w ++ movedOf w' := List.filterMap_append

@[simp] theorem movedOf_line (call : LineCall) (w : List Event) :
    movedOf (.line call :: w) = movedOf w := rfl

@[simp] theorem movedOf_timeout (w : List Event) : movedOf (.timeout :: w) = movedOf w := rfl

@[simp] theorem movedOf_stored (i : Nat) (data : BitVec 8) (w : List Event) :
    movedOf (.stored i data :: w) = movedOf w := rfl

@[simp] theorem movedOf_moved (byte : Moved) (w : List Event) :
    movedOf (.moved byte :: w) = byte :: movedOf w := rfl

/-- The calls of the pins. -/
def callsOf (w : List Event) : List LineCall :=
  w.filterMap fun
    | .line call => some call
    | _ => none

@[simp] theorem callsOf_append (w w' : List Event) : callsOf (w ++ w') = callsOf w ++ callsOf w' :=
  List.filterMap_append

/-- The slave holds the clock low for too long at some time. -/
def Slave.Stretching (slave : Slave) : Prop := ∃ w, slave.stretches w = true

/-- The slave leaves the data line high at some time. -/
def Slave.Refusing (slave : Slave) : Prop := ∃ w, slave.level w = true

/-- A slave that acknowledges all bytes, and never holds the clock. -/
def obliging : Slave := ⟨fun _ => false, fun _ => false⟩

/-- The bits that the driver writes, each on a clock. -/
def writtenBits (bits : List Bool) : List Event :=
  bits.flatMap fun b => [.line (.scl false), .line (.sda b), .line (.scl true)]

/-- The clock on which the slave answers. -/
def answerOf (ack : Bool) : List Event :=
  [.line (.sda true), .line (.scl true), .line (.sample !ack), .line (.scl false)]

@[simp] theorem movedOf_writtenBits (bits : List Bool) : movedOf (writtenBits bits) = [] := by
  induction bits with
  | nil => rfl
  | cons b bits ih => exact ih

/-- A byte that the driver writes, with the answer of the slave. -/
def writtenOn (data : BitVec 8) (ack : Bool) : List Event :=
  writtenBits (bitsOf data) ++ .line (.scl false) :: answerOf ack

/-- The bits that the driver samples, each on a clock. -/
def readBits (bits : List Bool) : List Event :=
  bits.flatMap fun b => [.line (.scl true), .line (.sample b), .line (.scl false)]

@[simp] theorem movedOf_readBits (bits : List Bool) : movedOf (readBits bits) = [] := by
  induction bits with
  | nil => rfl
  | cons b bits ih => exact ih

/-- A byte that the driver reads. -/
def readOn (data : BitVec 8) : List Event := .line (.sda true) :: readBits (bitsOf data)

/-- The clock on which the driver answers. -/
def answeredOn (ack : Bool) : List Event :=
  (if ack then [.line (.sda false)] else []) ++ [.line (.scl true), .line (.scl false)]

/-- What a call adds that ends early, with an error. -/
def CutShort (slave : Slave) (ret : Int) (l : List Event) : Prop :=
  ret = -rtEtimeout ∧ slave.Stretching ∧ movedOf l = []

section Adding

variable {slave : Slave} {α : Type} {Q : α → List Event → Prop}

theorem emit_bind {e : Event} {g : Unit → OnBus α} (h : Adds (g ()) fun b m => Q b (e :: m)) :
    Adds (emit e >>= g) Q := adds_emit_bind h

theorem adds_sclH :
    Adds (sclH slave) fun ret l =>
      ret = rtEok ∧ l = [.line (.scl true)] ∨
        ret = -rtEtimeout ∧ slave.Stretching ∧ l = [.line (.scl true), .timeout] := by
  refine emit_bind (adds_get fun w => ?_)
  cases hstretch : slave.stretches w with
  | true => exact emit_bind (adds_pure (.inr ⟨rfl, ⟨w, hstretch⟩, rfl⟩))
  | false => exact adds_pure (.inl ⟨rfl, rfl⟩)

/-- What comes behind `SCL_H`, and what is returned if the clock stays low. -/
theorem sclH_bind {bad : OnBus α} {good : OnBus α}
    (hgood : Adds good fun b m => Q b (.line (.scl true) :: m))
    (hbad : slave.Stretching → Adds bad fun b m => Q b (.line (.scl true) :: .timeout :: m)) :
    Adds (sclH slave >>= fun ret => if ret < 0 then bad else good) Q := by
  refine adds_sclH.bind fun ret l h => ?_
  obtain ⟨rfl, rfl⟩ | ⟨rfl, hstretch, rfl⟩ := h
  · exact hgood
  · exact hbad hstretch

theorem getSda_bind {g : Bool → OnBus α}
    (h : ∀ level, (level = true → slave.Refusing) →
      Adds (g level) fun b m => Q b (.line (.sample level) :: m)) :
    Adds (getSda slave >>= g) Q := by
  refine Adds.bind
    (P := fun level l => l = [.line (.sample level)] ∧ (level = true → slave.Refusing))
    (adds_get fun w => emit_bind (adds_pure ⟨rfl, fun hlevel => ⟨w, hlevel⟩⟩)) fun level l hp => ?_
  obtain ⟨rfl, hrefusing⟩ := hp
  exact h level hrefusing

theorem adds_i2cStart {P : Unit → List Event → Prop}
    (h : P () [.line (.sda false), .line (.scl false)]) : Adds i2cStart P :=
  emit_bind (adds_emit h)

theorem adds_i2cRestart :
    Adds (i2cRestart slave) fun _ l =>
      l = [.line (.sda true), .line (.scl true), .line (.sda false), .line (.scl false)] ∨
        slave.Stretching ∧ movedOf l = [] := by
  refine emit_bind (adds_sclH.bind fun ret l h => emit_bind (adds_emit ?_))
  obtain ⟨rfl, rfl⟩ | ⟨rfl, hstretch, rfl⟩ := h
  · exact .inl rfl
  · exact .inr ⟨hstretch, rfl⟩

theorem adds_i2cStop :
    Adds (i2cStop slave) fun _ l =>
      l = [.line (.sda false), .line (.scl true), .line (.sda true)] ∨
        slave.Stretching ∧
          l = [.line (.sda false), .line (.scl true), .timeout, .line (.sda true)] := by
  refine emit_bind (adds_sclH.bind fun ret l h => adds_emit ?_)
  obtain ⟨rfl, rfl⟩ | ⟨rfl, hstretch, rfl⟩ := h
  · exact .inl rfl
  · exact .inr ⟨hstretch, rfl⟩

/-- The bits below a place. -/
def bitsBelow (data : BitVec 8) : Nat → List Bool
  | 0 => []
  | i + 1 => data.getLsbD i :: bitsBelow data i

theorem adds_i2cWritebLoop (data : BitVec 8) (i : Nat) :
    Adds (i2cWritebLoop slave data i) fun ret l =>
      ret = rtEok ∧ l = writtenBits (bitsBelow data i) ∨ CutShort slave ret l := by
  induction i with
  | zero => exact adds_pure (.inl ⟨rfl, rfl⟩)
  | succ i ih =>
    refine emit_bind (emit_bind (sclH_bind (ih.mono fun ret l h => ?_) fun hstretch => ?_))
    · obtain ⟨hret, rfl⟩ | ⟨hret, hstretch, hmoved⟩ := h
      · exact .inl ⟨hret, rfl⟩
      · exact .inr ⟨hret, hstretch, by simpa using hmoved⟩
    · exact adds_pure (.inr ⟨rfl, hstretch, rfl⟩)

theorem adds_recorded {byte : Int → Moved} {f : OnBus Int} {P Q : Int → List Event → Prop}
    (h : Adds f P) (himp : ∀ ret l, P ret l → Q ret (l ++ [.moved (byte ret)])) :
    Adds (recorded byte f) Q :=
  h.bind fun ret l hp => emit_bind (adds_pure (himp ret l hp))

theorem adds_i2cWaitack :
    Adds (i2cWaitack slave) fun ret l =>
      (∃ ack, ret = (if ack then 1 else 0) ∧ (ack = false → slave.Refusing) ∧ l = answerOf ack) ∨
        CutShort slave ret l := by
  refine emit_bind (sclH_bind ?_ fun hstretch => adds_pure (.inr ⟨rfl, hstretch, rfl⟩))
  refine getSda_bind fun sda hrefusing => emit_bind (adds_pure (.inl ⟨!sda, rfl, ?_, ?_⟩))
  · simpa using hrefusing
  · rw [answerOf, Bool.not_not]

/-- A byte is acknowledged or refused, or the transfer is cut short in it. -/
theorem adds_i2cWriteb (data : BitVec 8) :
    Adds (i2cWriteb slave data) fun ret l =>
      (∃ ack, ret = (if ack then 1 else 0) ∧ (ack = false → slave.Refusing) ∧
          l = writtenOn data ack ++ [.moved (.written data ret)]) ∨
        ret = -rtEtimeout ∧ slave.Stretching ∧ movedOf l = [.written data ret] := by
  refine adds_recorded (P := fun ret l => (∃ ack, ret = (if ack then 1 else 0) ∧
    (ack = false → slave.Refusing) ∧ l = writtenOn data ack) ∨ CutShort slave ret l) ?_
    fun ret l h => ?_
  · refine (adds_i2cWritebLoop data 8).bind fun ret l h => ?_
    obtain ⟨rfl, rfl⟩ | ⟨rfl, hstretch, hmoved⟩ := h
    · refine emit_bind (adds_i2cWaitack.mono fun ret m h => ?_)
      obtain ⟨ack, hret, hrefusing, rfl⟩ | ⟨hret, hstretch, hmoved⟩ := h
      · exact .inl ⟨ack, hret, hrefusing, rfl⟩
      · exact .inr ⟨hret, hstretch, by simpa using hmoved⟩
    · exact adds_pure (.inr ⟨rfl, hstretch, by simpa using hmoved⟩)
  · obtain ⟨ack, hret, hrefusing, rfl⟩ | ⟨hret, hstretch, hmoved⟩ := h
    · exact .inl ⟨ack, hret, hrefusing, rfl⟩
    · exact .inr ⟨hret, hstretch, by simp [hmoved]⟩

/-- A byte with bits shifted in from the right. -/
def shiftedIn (data : BitVec 8) (bits : List Bool) : BitVec 8 :=
  bits.foldl (fun data b => if b then data <<< 1 ||| 1 else data <<< 1) data

theorem adds_i2cReadbLoop (i : Nat) (data : BitVec 8) :
    Adds (i2cReadbLoop slave i data) fun ret l =>
      (∃ bits, bits.length = i ∧ ret = (shiftedIn data bits).toNat ∧ l = readBits bits) ∨
        CutShort slave ret l := by
  induction i generalizing data with
  | zero => exact adds_pure (.inl ⟨[], rfl, rfl, rfl⟩)
  | succ i ih =>
    refine sclH_bind (getSda_bind fun sda _ => emit_bind ((ih _).mono fun ret l h => ?_))
      fun hstretch => adds_pure (.inr ⟨rfl, hstretch, rfl⟩)
    obtain ⟨bits, hlength, hret, rfl⟩ | ⟨hret, hstretch, hmoved⟩ := h
    · exact .inl ⟨sda :: bits, by rw [List.length_cons, hlength], hret, rfl⟩
    · exact .inr ⟨hret, hstretch, by simpa using hmoved⟩

theorem bitsOf_shiftedIn_byte (b7 b6 b5 b4 b3 b2 b1 b0 : Bool) :
    bitsOf (shiftedIn 0 [b7, b6, b5, b4, b3, b2, b1, b0]) = [b7, b6, b5, b4, b3, b2, b1, b0] := by
  revert b7 b6 b5 b4 b3 b2 b1 b0
  decide +kernel

/-- Eight bits that are shifted in are the bits of the byte. -/
theorem bitsOf_shiftedIn : ∀ {bits : List Bool}, bits.length = 8 → bitsOf (shiftedIn 0 bits) = bits
  | [b7, b6, b5, b4, b3, b2, b1, b0], _ => bitsOf_shiftedIn_byte b7 b6 b5 b4 b3 b2 b1 b0

/-- A byte is read, or the transfer is cut short in it. -/
theorem adds_i2cReadb :
    Adds (i2cReadb slave) fun ret l =>
      (∃ data : BitVec 8, ret = data.toNat ∧ l = readOn data ++ [.moved (.read ret)]) ∨
        ret = -rtEtimeout ∧ slave.Stretching ∧ movedOf l = [.read ret] := by
  refine adds_recorded (emit_bind ((adds_i2cReadbLoop 8 0).mono fun ret l h => ?_))
    (P := fun ret l => (∃ data : BitVec 8, ret = data.toNat ∧ l = readOn data) ∨
      CutShort slave ret l) fun ret l h => ?_
  · obtain ⟨bits, hlength, hret, rfl⟩ | ⟨hret, hstretch, hmoved⟩ := h
    · exact .inl ⟨_, hret, by rw [readOn, bitsOf_shiftedIn hlength]⟩
    · exact .inr ⟨hret, hstretch, by simpa using hmoved⟩
  · obtain ⟨data, hret, rfl⟩ | ⟨hret, hstretch, hmoved⟩ := h
    · exact .inl ⟨data, hret, rfl⟩
    · exact .inr ⟨hret, hstretch, by simp [hmoved]⟩

/-- The driver answers, or the transfer is cut short then. -/
theorem adds_i2cSendAckOrNack (ack : Bool) :
    Adds (i2cSendAckOrNack slave ack) fun ret l =>
      ret = rtEok ∧ l = answeredOn ack ++ [.moved (.answered ack ret)] ∨
        ret = -rtEtimeout ∧ slave.Stretching ∧ movedOf l = [.answered ack ret] := by
  refine adds_recorded (P := fun ret l => ret = rtEok ∧ l = answeredOn ack ∨
    CutShort slave ret l) ?_ fun ret l h => ?_
  · cases ack with
    | true =>
      exact emit_bind (sclH_bind (emit_bind (adds_pure (.inl ⟨rfl, rfl⟩)))
        fun hstretch => adds_pure (.inr ⟨rfl, hstretch, rfl⟩))
    | false =>
      exact sclH_bind (emit_bind (adds_pure (.inl ⟨rfl, rfl⟩)))
        fun hstretch => adds_pure (.inr ⟨rfl, hstretch, rfl⟩)
  · obtain ⟨hret, rfl⟩ | ⟨hret, hstretch, hmoved⟩ := h
    · exact .inl ⟨hret, rfl⟩
    · exact .inr ⟨hret, hstretch, by simp [hmoved]⟩

end Adding

end PandoraRobot.Drivers.I2c
