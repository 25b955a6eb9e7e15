import PandoraRobot.Ipc.Mailbox
import PandoraRobot.Lib.Chain
import PandoraRobot.Lib.Holding
import PandoraRobot.Lib.UrgentQueue

/-! # Message queues

`rt_mq_init`, `rt_mq_create`, `rt_mq_send`, `rt_mq_urgent`, `rt_mq_recv` and
`rt_mq_control` of `ipc.c`, on any number of queues.  A stretch of code between
`rt_hw_interrupt_disable` and `rt_hw_interrupt_enable` is one step.  The copies run with
interrupts enabled, so every byte they move is a step of its own.

A message is a block of the pool of its queue: a link, then the bytes.
-/

namespace PandoraRobot.Ipc

open PandoraRobot.Kernel PandoraRobot.Chain PandoraRobot.Holding PandoraRobot.UrgentQueue

abbrev Byte := BitVec 8

/-- `RT_IPC_CMD_UNKNOWN` or `RT_IPC_CMD_RESET`. -/
inductive IpcCmd where
  | unknown
  | reset
  deriving DecidableEq, Repr

/-- `struct rt_messagequeue`, less its wait list, with the blocks of its pool: of the block at an
    address, the link and what follows it. -/
structure MessageQueue where
  msgPool : Nat
  msgSize : BitVec 16
  maxMsgs : BitVec 16
  entry : BitVec 16
  msgQueueHead : Option Nat
  msgQueueTail : Option Nat
  msgQueueFree : Option Nat
  flag : IpcFlag
  next : Nat → Option Nat
  data : Nat → Nat → Byte

namespace MessageQueue

/-- The address of a block, by its number. -/
def block (mq : MessageQueue) (temp : Nat) : Nat :=
  mq.msgPool + temp * (mq.msgSize.toNat + 4)

/-- The addresses of all blocks. -/
def blocks (mq : MessageQueue) : List Nat :=
  (List.range mq.maxMsgs.toNat).map mq.block

/-- `msg->next = next`. -/
def setNext (msg : Nat) (next : Option Nat) (mq : MessageQueue) : MessageQueue :=
  { mq with next := Function.update mq.next msg next }

/-- The copy into a block stores the byte at offset `n`. -/
def store (msg n : Nat) (byte : Byte) (mq : MessageQueue) : MessageQueue :=
  { mq with data := Function.update mq.data msg (Function.update (mq.data msg) n byte) }

/-- A block goes to the front of the free list. -/
def putFree (msg : Nat) (mq : MessageQueue) : MessageQueue :=
  { mq.setNext msg mq.msgQueueFree with msgQueueFree := some msg }

/-- The first block is taken off the free list. -/
def takeFree (mq : MessageQueue) : Option (Nat × MessageQueue) :=
  match mq.msgQueueFree with
  | none => none
  | some msg => some (msg, { mq with msgQueueFree := mq.next msg })

/-- A block is linked to the back of the queue. -/
def linkTail (msg : Nat) (mq : MessageQueue) : MessageQueue :=
  let mq := match mq.msgQueueTail with
    | none => mq
    | some tail => mq.setNext tail (some msg)
  { mq with
    msgQueueTail := some msg
    msgQueueHead := if mq.msgQueueHead = none then some msg else mq.msgQueueHead
    entry := mq.entry + 1 }

/-- A block is linked to the front of the queue. -/
def linkHead (msg : Nat) (mq : MessageQueue) : MessageQueue :=
  { mq.setNext msg mq.msgQueueHead with
    msgQueueHead := some msg
    msgQueueTail := if mq.msgQueueTail = none then some msg else mq.msgQueueTail
    entry := mq.entry + 1 }

/-- The block at the front of the queue is unlinked. -/
def unlinkHead (mq : MessageQueue) : Exec (Nat × MessageQueue) :=
  match mq.msgQueueHead with
  -- `RT_NULL` is read as a message
  | none => throw .wildPointer
  | some msg => pure (msg, { mq with
      msgQueueHead := mq.next msg
      msgQueueTail := if mq.msgQueueTail = some msg then none else mq.msgQueueTail })

/-- The loop of `rt_mq_control`. -/
def releaseAll : Nat → MessageQueue → Exec MessageQueue
  | 0, _ => throw .outOfFuel
  | fuel + 1, mq =>
    if mq.msgQueueHead = none then pure mq
    else do
      let (msg, mq) ← mq.unlinkHead
      releaseAll fuel (mq.putFree msg)

end MessageQueue

/-- The loop that both `rt_mq_init` and `rt_mq_create` end with. -/
def initMsgList (mq : MessageQueue) : MessageQueue :=
  (List.range mq.maxMsgs.toNat).foldl (fun m temp => m.putFree (mq.block temp)) mq

/-- `RT_ALIGN(msg_size, RT_ALIGN_SIZE)`, stored in 16 bits. -/
def alignMsgSize (msgSize : BitVec 32) : BitVec 16 :=
  ((msgSize + 4 - 1) &&& ~~~ (4 - 1)).setWidth 16

/-- `rt_mq_init`.  The bytes of the pool are what they were. -/
def rtMqInit (msgPool : Nat) (msgSize poolSize : BitVec 32) (flag : IpcFlag)
    (next : Nat → Option Nat) (data : Nat → Nat → Byte) : MessageQueue :=
  let msgSize := alignMsgSize msgSize
  let maxMsgs := (poolSize / (msgSize.setWidth 32 + 4)).setWidth 16
  initMsgList ⟨msgPool, msgSize, maxMsgs, 0, none, none, none, flag, next, data⟩

/-- `rt_mq_create`, with the pool that `rt_malloc` returns. -/
def rtMqCreate (msgPool : Option Nat) (msgSize maxMsgs : BitVec 32) (flag : IpcFlag)
    (next : Nat → Option Nat) (data : Nat → Nat → Byte) : Option MessageQueue :=
  msgPool.map fun msgPool =>
    initMsgList ⟨msgPool, alignMsgSize msgSize, maxMsgs.setWidth 16, 0, none, none, none, flag,
      next, data⟩

section Code

variable {T U I : Type} [DecidableEq T] [DecidableEq U] [DecidableEq I] [Fintype T] [Fintype U]

/-- `rt_mq_send` and `rt_mq_urgent` up to the copy: a block of the free list, or the error that
    is returned. -/
def rtMqSendTake (message : List Byte) (mq : MessageQueue) :
    Exec (Except Err (Nat × MessageQueue)) := do
  rtAssert (message ≠ [])
  if mq.msgSize.toNat < message.length then pure (.error .error)
  else
    match mq.takeFree with
    | none => pure (.error .efull)
    | some taken => pure (.ok taken)

/-- The last stretch of `rt_mq_send` and, for an urgent message, of `rt_mq_urgent`, up to the
    `rt_schedule` that follows where a thread was resumed. -/
def rtMqSendLink (i : I) (urgent : Bool) (msg : Nat) (mq : MessageQueue) (k : State T U I) :
    Exec (State T U I × MessageQueue) := do
  let mq := if urgent then mq.linkHead msg else mq.linkTail msg
  if rtListIsempty (.inl (.suspend i)) k.tlist = false then
    let k ← k.rtIpcListResume i
    pure (k, mq)
  else pure (k, mq)

/-- What `rt_mq_recv` does in one stretch: it returns an error, its thread waits, from a tick on,
    or it has a message. -/
inductive RecvOut where
  | returned (err : Err)
  | waits (tickDelta : Tick)
  | taken (msg : Nat)
  deriving DecidableEq, Repr

/-- `rt_mq_recv` from the test of its loop on, up to `rt_schedule` or the copy. -/
def rtMqRecvLoop (caller : Option T) (i : I) (timeout : Tick) (mq : MessageQueue)
    (k : State T U I) : Exec (State T U I × MessageQueue × RecvOut) :=
  if mq.entry = 0 then
    match caller with
    -- `RT_DEBUG_IN_THREAD_CONTEXT`
    | none => throw .assertion
    | some thread =>
      let k := k.setError thread .eok
      if timeout = 0 then pure (k.setError thread .etimeout, mq, .returned .etimeout)
      else do
        let tickDelta := k.timers.rtTick
        let k ← k.waitOn i thread mq.flag timeout
        pure (k, mq, .waits tickDelta)
  else do
    let (msg, mq) ← mq.unlinkHead
    pure (k, { mq with entry := mq.entry - 1 }, .taken msg)

/-- `rt_mq_recv`, called by a thread or, for `none`, in an interrupt. -/
def rtMqRecv (caller : Option T) (i : I) (size : Nat) (timeout : Tick) (mq : MessageQueue)
    (k : State T U I) : Exec (State T U I × MessageQueue × RecvOut) := do
  rtAssert (size ≠ 0)
  if mq.entry = 0 ∧ timeout = 0 then pure (k, mq, .returned .etimeout)
  else rtMqRecvLoop caller i timeout mq k

/-- `rt_mq_recv` after `rt_schedule`: an error is returned, and otherwise the loop goes on with
    the time that is left. -/
def rtMqRecvResumed (thread : T) (i : I) (timeout tickDelta : Tick) (mq : MessageQueue)
    (k : State T U I) : Exec (State T U I × MessageQueue × RecvOut) :=
  if (k.thread thread).error ≠ .eok then pure (k, mq, .returned (k.thread thread).error)
  else rtMqRecvLoop (some thread) i (k.timeLeft timeout tickDelta) mq k

/-- `rt_mq_control`, up to the `rt_schedule` at the end of a reset. -/
def rtMqControl (i : I) (cmd : IpcCmd) (mq : MessageQueue) (k : State T U I) :
    Exec (State T U I × MessageQueue × Err) :=
  match cmd with
  | .reset => do
    let k ← State.rtIpcListResumeAll i (Fintype.card T + 1) k
    let mq ← mq.releaseAll (mq.maxMsgs.toNat + 1)
    pure (k, { mq with entry := 0 }, .eok)
  | .unknown => pure (k, mq, .error)

end Code

/-- Where a caller is in a call on queue `i`. -/
inductive MqPlace (I : Type) where
  | outside
  /-- In `rt_mq_send`, before `msg->next = RT_NULL`. -/
  | clearing (i : I) (msg : Nat) (message : List Byte)
  /-- In the copy of `rt_mq_send` or `rt_mq_urgent`. -/
  | filling (i : I) (urgent : Bool) (msg : Nat) (message : List Byte) (copied : Nat)
  /-- In the `rt_schedule` of `rt_mq_recv`. -/
  | waiting (i : I) (size : Nat) (timeout tickDelta : Tick)
  /-- In the copy of `rt_mq_recv`.  The message is number `stamp` of those that were sent. -/
  | emptying (i : I) (msg : Nat) (size stamp : Nat) (buffer : List Byte)
  deriving DecidableEq, Repr

/-- A call of `rt_mq_recv` that has returned a message: its number, the size of the buffer, and
    what was copied there. -/
structure Delivery where
  stamp : Nat
  size : Nat
  buffer : List Byte
  deriving DecidableEq, Repr

/-- The kernel, the queues, and where callers are: threads `T` and interrupt handlers `H`. -/
structure MessageQueues (T H U I : Type) where
  kernel : State T U I
  mq : I → MessageQueue
  place : T ⊕ H → MqPlace I
  /-- The messages that were linked, and which of them were received or discarded. -/
  history : I → History (List Byte)
  delivered : I → List Delivery

namespace MqPlace

variable {I : Type} [DecidableEq I]

/-- The wait list a thread is in while it is suspended. -/
def waits : MqPlace I → Option I
  | .waiting i _ _ _ => some i
  | _ => none

/-- The block of queue `i` that the caller has taken. -/
def holds (i : I) : MqPlace I → Option Nat
  | .clearing j msg _ | .filling j _ msg _ _ | .emptying j msg _ _ _ =>
    if j = i then some msg else none
  | _ => none

/-- The number of the message of queue `i` that the caller receives. -/
def receives (i : I) : MqPlace I → Option Nat
  | .emptying j _ _ stamp _ => if j = i then some stamp else none
  | _ => none

end MqPlace

namespace MessageQueues

variable {T H U I : Type} [DecidableEq T] [DecidableEq H] [DecidableEq U] [DecidableEq I]
  [Fintype T] [Fintype U]

def goes (c : T ⊕ H) (a : MqPlace I) (s : MessageQueues T H U I) : MessageQueues T H U I :=
  { s with place := Function.update s.place c a }

def setMq (i : I) (mq : MessageQueue) (s : MessageQueues T H U I) : MessageQueues T H U I :=
  { s with mq := Function.update s.mq i mq }

def setHistory (i : I) (h : History (List Byte)) (s : MessageQueues T H U I) :
    MessageQueues T H U I :=
  { s with history := Function.update s.history i h }

/-- `rt_mq_send` and, for an urgent message, `rt_mq_urgent` begin. -/
def send (c : T ⊕ H) (i : I) (urgent : Bool) (message : List Byte) (s : MessageQueues T H U I) :
    Exec (MessageQueues T H U I) := do
  match ← rtMqSendTake message (s.mq i) with
  | .error _ => pure s
  | .ok (msg, mq) =>
    let a := if urgent then .filling i true msg message 0 else .clearing i msg message
    pure ((s.setMq i mq).goes c a)

/-- The block is linked, and the call returns. -/
def link (c : T ⊕ H) (i : I) (urgent : Bool) (msg : Nat) (message : List Byte)
    (s : MessageQueues T H U I) : Exec (MessageQueues T H U I) := do
  let (k, mq) ← rtMqSendLink i urgent msg (s.mq i) s.kernel
  let s := (s.setMq i mq).setHistory i ((s.history i).link urgent message)
  pure { s.goes c .outside with kernel := k }

/-- What follows from a stretch of `rt_mq_recv`. -/
def afterRecv (c : T ⊕ H) (i : I) (size : Nat) (timeout : Tick)
    (out : State T U I × MessageQueue × RecvOut) (s : MessageQueues T H U I) :
    MessageQueues T H U I :=
  let (k, mq, out) := out
  let s := { s.setMq i mq with kernel := k }
  match out with
  | .returned _ => s.goes c .outside
  | .waits tickDelta => s.goes c (.waiting i size timeout tickDelta)
  | .taken msg =>
    let a := .emptying i msg size ((s.history i).queue.headD 0) []
    (s.setHistory i (s.history i).receive).goes c a

/-- `rt_mq_recv` begins. -/
def recv (c : T ⊕ H) (i : I) (size : Nat) (timeout : Tick) (s : MessageQueues T H U I) :
    Exec (MessageQueues T H U I) := do
  let out ← rtMqRecv c.getLeft? i size timeout (s.mq i) s.kernel
  pure (s.afterRecv c i size timeout out)

/-- The end of `rt_mq_recv`. -/
def deliver (c : T ⊕ H) (i : I) (msg : Nat) (d : Delivery) (s : MessageQueues T H U I) :
    MessageQueues T H U I :=
  { (s.setMq i ((s.mq i).putFree msg)).goes c .outside with
    delivered := Function.update s.delivered i (d :: s.delivered i) }

def control (i : I) (cmd : IpcCmd) (s : MessageQueues T H U I) :
    Exec (MessageQueues T H U I) := do
  let (k, mq, _) ← rtMqControl i cmd (s.mq i) s.kernel
  let h := match cmd with
    | .reset => (s.history i).reset
    | .unknown => s.history i
  pure { (s.setMq i mq).setHistory i h with kernel := k }

/-- The next step of the call a caller is in. -/
def advance (c : T ⊕ H) (s : MessageQueues T H U I) : Exec (MessageQueues T H U I) :=
  match s.place c with
  | .outside => throw .assertion
  | .clearing i msg message =>
    pure ((s.setMq i ((s.mq i).setNext msg none)).goes c (.filling i false msg message 0))
  | .filling i urgent msg message copied =>
    match message[copied]? with
    | some byte =>
      let a := .filling i urgent msg message (copied + 1)
      pure ((s.setMq i ((s.mq i).store msg copied byte)).goes c a)
    | none => s.link c i urgent msg message
  | .waiting i size timeout tickDelta =>
    match c with
    | .inr _ => throw .assertion
    | .inl t => do
      let out ← rtMqRecvResumed t i timeout tickDelta (s.mq i) s.kernel
      pure (s.afterRecv c i size (s.kernel.timeLeft timeout tickDelta) out)
  | .emptying i msg size stamp buffer =>
    if buffer.length < min size (s.mq i).msgSize.toNat then
      let byte := (s.mq i).data msg buffer.length
      pure (s.goes c (.emptying i msg size stamp (buffer ++ [byte])))
    else pure (s.deliver c i msg ⟨stamp, size, buffer⟩)

/-- A thread makes steps while it runs, a handler whenever the interrupts are enabled. -/
def Active (s : MessageQueues T H U I) (c : T ⊕ H) : Prop :=
  ∀ t, c = .inl t → s.kernel.Running t

inductive Step (cb : State.Callback T U I) :
    MessageQueues T H U I → MessageQueues T H U I → Prop where
  | send {s s' : MessageQueues T H U I} (c : T ⊕ H) (i : I) (urgent : Bool)
      (message : List Byte) : s.Active c → s.place c = .outside →
      s.send c i urgent message = .ok s' → Step cb s s'
  | recv {s s' : MessageQueues T H U I} (c : T ⊕ H) (i : I) (size : Nat) (timeout : Tick) :
      s.Active c → s.place c = .outside → s.recv c i size timeout = .ok s' → Step cb s s'
  | control {s s' : MessageQueues T H U I} (c : T ⊕ H) (i : I) (cmd : IpcCmd) :
      s.Active c → s.place c = .outside → s.control i cmd = .ok s' → Step cb s s'
  | advance {s s' : MessageQueues T H U I} (c : T ⊕ H) :
      s.Active c → s.advance c = .ok s' → Step cb s s'
  | elsewhere {s : MessageQueues T H U I} {k : State T U I} :
      State.Elsewhere cb (fun t => s.place (.inl t) ≠ .outside) s.kernel k →
      Step cb s { s with kernel := k }

abbrev Runs (cb : State.Callback T U I) :
    MessageQueues T H U I → MessageQueues T H U I → Prop :=
  Relation.ReflTransGen (Step cb)

/-- Any kernel state a run reaches in which no thread waits for a message, and queues as
    `rt_mq_init` or `rt_mq_create` leaves them. -/
structure Initial (cb : State.Callback T U I) (s : MessageQueues T H U I) : Prop where
  reached : ∃ k₀, State.Initial k₀ ∧ State.Runs cb k₀ s.kernel
  empty : ∀ i, rtListIsempty (.inl (.suspend i)) s.kernel.tlist = true
  place : ∀ c, s.place c = .outside
  mq : ∀ i, ∃ msgPool msgSize size flag next data,
    s.mq i = rtMqInit msgPool msgSize size flag next data ∨
    some (s.mq i) = rtMqCreate (some msgPool) msgSize size flag next data
  history : ∀ i, s.history i = .empty
  delivered : ∀ i, s.delivered i = []

end MessageQueues

/-! ## The lists of a queue -/

namespace MessageQueue

/-- What an operation on the lists may change: the links of the blocks `touched`, the pointers
    and the counter of the queue. -/
structure Frame (touched : List Nat) (mq mq' : MessageQueue) : Prop where
  blocks : mq'.blocks = mq.blocks
  msgSize : mq'.msgSize = mq.msgSize
  maxMsgs : mq'.maxMsgs = mq.maxMsgs
  data : mq'.data = mq.data
  next : ∀ b, b ∉ touched → mq'.next b = mq.next b

variable {mq mq' mq'' : MessageQueue} {free queued rest touched touched' : List Nat} {b : Nat}

theorem Frame.trans (h : Frame touched mq mq') (h' : Frame touched' mq' mq'') :
    Frame (touched ++ touched') mq mq'' := by
  refine ⟨h'.blocks.trans h.blocks, h'.msgSize.trans h.msgSize, h'.maxMsgs.trans h.maxMsgs,
    h'.data.trans h.data, fun b hb => ?_⟩
  rw [List.mem_append, not_or] at hb
  rw [h'.next b hb.2, h.next b hb.1]

/-- Nothing but pointers and counter has changed. -/
theorem Frame.same (hpool : mq'.msgPool = mq.msgPool) (hsize : mq'.msgSize = mq.msgSize)
    (hmax : mq'.maxMsgs = mq.maxMsgs) (hdata : mq'.data = mq.data)
    (hnext : ∀ b, b ∉ touched → mq'.next b = mq.next b) : Frame touched mq mq' := by
  refine ⟨?_, hsize, hmax, hdata, hnext⟩
  have hblock : mq'.block = mq.block := by
    funext temp
    simp only [MessageQueue.block, hpool, hsize]
  simp only [MessageQueue.blocks, hmax, hblock]

theorem setNext_frame (n : Option Nat) : Frame [b] mq (mq.setNext b n) := by
  refine .same rfl rfl rfl rfl fun c hc => ?_
  have hne : c ≠ b := by simpa using hc
  simp [setNext, hne]

/-- The free list and the queue, as the pointers and links spell them out. -/
structure Lists (mq : MessageQueue) (free queued : List Nat) : Prop where
  freeHead : mq.msgQueueFree = free.head?
  freeLinked : Linked id mq.next free
  queueHead : mq.msgQueueHead = queued.head?
  queueTail : mq.msgQueueTail = queued.getLast?
  queueLinked : Linked id mq.next queued
  nodup : (free ++ queued).Nodup

/-- The counter is no matter of the lists. -/
theorem Lists.setEntry (h : Lists mq free queued) (n : BitVec 16) :
    Lists { mq with entry := n } free queued :=
  ⟨h.freeHead, h.freeLinked, h.queueHead, h.queueTail, h.queueLinked, h.nodup⟩

theorem Frame.setEntry (h : Frame touched mq mq') (n : BitVec 16) :
    Frame touched mq { mq' with entry := n } :=
  ⟨h.blocks, h.msgSize, h.maxMsgs, h.data, h.next⟩

/-- A block that is in neither list may be linked to anything. -/
theorem Lists.setNext (h : Lists mq free queued) (hb : b ∉ free ++ queued) (n : Option Nat) :
    Lists (mq.setNext b n) free queued := by
  rw [List.mem_append, not_or] at hb
  exact ⟨h.freeHead, h.freeLinked.update hb.1, h.queueHead, h.queueTail, h.queueLinked.update hb.2, h.nodup⟩

theorem Lists.takeFree (h : Lists mq (b :: free) queued) :
    ∃ mq', mq.takeFree = some (b, mq') ∧ Lists mq' free queued ∧ Frame [] mq mq' ∧
      mq'.entry = mq.entry := by
  have hfree := h.freeHead
  rw [List.head?_cons] at hfree
  refine ⟨{ mq with msgQueueFree := mq.next b }, by simp [MessageQueue.takeFree, hfree], ?_,
    .same rfl rfl rfl rfl fun _ _ => rfl, rfl⟩
  exact ⟨h.freeLinked.1, h.freeLinked.2, h.queueHead, h.queueTail, h.queueLinked,
    (List.nodup_cons.mp h.nodup).2⟩

theorem Lists.putFree (h : Lists mq free queued) (hb : b ∉ free ++ queued) :
    Lists (mq.putFree b) (b :: free) queued := by
  have hnodup := List.nodup_cons.mpr ⟨hb, h.nodup⟩
  rw [List.mem_append, not_or] at hb
  refine ⟨rfl, ?_, h.queueHead, h.queueTail, h.queueLinked.update hb.2, hnodup⟩
  have hpush := h.freeLinked.push hb.1
  rw [← h.freeHead] at hpush
  exact hpush

theorem putFree_frame : Frame [b] mq (mq.putFree b) := by
  have hpointer : Frame [] (mq.setNext b mq.msgQueueFree) (mq.putFree b) :=
    .same rfl rfl rfl rfl fun _ _ => rfl
  exact (setNext_frame mq.msgQueueFree).trans hpointer

theorem Lists.linkHead (h : Lists mq free queued) (hb : b ∉ free ++ queued) :
    Lists (mq.linkHead b) free (b :: queued) := by
  have hnodup : (free ++ b :: queued).Nodup :=
    List.nodup_middle.mpr (List.nodup_cons.mpr ⟨hb, h.nodup⟩)
  rw [List.mem_append, not_or] at hb
  refine ⟨h.freeHead, h.freeLinked.update hb.1, rfl, ?_, ?_, hnodup⟩
  · simp only [MessageQueue.linkHead, h.queueTail]
    cases queued with
    | nil => simp
    | cons c rest => simp [List.getLast?_cons]
  · have hpush := h.queueLinked.push hb.2
    rw [← h.queueHead] at hpush
    exact hpush

theorem linkHead_frame : Frame [b] mq (mq.linkHead b) := by
  have hpointer : Frame [] (mq.setNext b mq.msgQueueHead) (mq.linkHead b) :=
    .same rfl rfl rfl rfl fun _ _ => rfl
  exact (setNext_frame mq.msgQueueHead).trans hpointer

theorem Lists.linkTail (h : Lists mq free queued) (hb : b ∉ free ++ queued)
    (hnext : mq.next b = none) : Lists (mq.linkTail b) free (queued ++ [b]) := by
  have hnodup : (free ++ (queued ++ [b])).Nodup := by
    rw [← List.append_assoc]
    exact (List.perm_append_singleton b _).nodup_iff.mpr (List.nodup_cons.mpr ⟨hb, h.nodup⟩)
  have hhead := h.queueHead
  have htail := h.queueTail
  cases List.eq_nil_or_concat queued with
  | inl hnil =>
    subst hnil
    rw [List.head?_nil] at hhead
    rw [List.getLast?_nil] at htail
    refine ⟨?_, ?_, ?_, ?_, ?_, hnodup⟩ <;>
      simp [MessageQueue.linkTail, hhead, htail, h.freeHead, h.freeLinked, hnext]
  | inr hconcat =>
    obtain ⟨rest, last, rfl⟩ := hconcat
    rw [List.concat_eq_append] at *
    have hlast : last ∉ free := by
      intro hm
      exact (List.nodup_append.mp h.nodup).2.2 last hm last (by simp) rfl
    have hsnoc := h.queueLinked.snoc (b := b)
      (by simpa using (List.nodup_append.mp hnodup).2.1) hnext
    rw [List.getLast?_concat] at htail
    refine ⟨?_, ?_, ?_, ?_, ?_, hnodup⟩
    · simp [MessageQueue.linkTail, htail, MessageQueue.setNext, h.freeHead]
    · simp only [MessageQueue.linkTail, htail]
      exact h.freeLinked.update hlast
    · simp [MessageQueue.linkTail, htail, MessageQueue.setNext, hhead]
    · simp [MessageQueue.linkTail]
    · simp only [MessageQueue.linkTail, htail, List.append_assoc, List.cons_append,
        List.nil_append]
      exact hsnoc

@[simp] theorem linkHead_entry : (mq.linkHead b).entry = mq.entry + 1 := rfl

@[simp] theorem linkTail_entry : (mq.linkTail b).entry = mq.entry + 1 := by
  cases htail : mq.msgQueueTail <;> simp [MessageQueue.linkTail, htail, MessageQueue.setNext]

theorem Lists.linkTail_frame (h : Lists mq free queued) : Frame queued mq (mq.linkTail b) := by
  have htail := h.queueTail
  cases hlast : queued.getLast? with
  | none =>
    rw [hlast] at htail
    simp only [MessageQueue.linkTail, htail]
    exact .same rfl rfl rfl rfl fun _ _ => rfl
  | some last =>
    rw [hlast] at htail
    simp only [MessageQueue.linkTail, htail]
    refine .same rfl rfl rfl rfl fun c hc => ?_
    have hne : c ≠ last := by
      rintro rfl
      exact hc (List.mem_of_getLast? hlast)
    simp [MessageQueue.setNext, hne]

theorem Lists.unlinkHead (h : Lists mq free (b :: queued)) :
    ∃ mq', mq.unlinkHead = .ok (b, mq') ∧ Lists mq' free queued ∧ Frame [] mq mq' ∧
      mq'.entry = mq.entry := by
  have hhead := h.queueHead
  have htail := h.queueTail
  obtain ⟨hfree, hqueue, hdisjoint⟩ := List.nodup_append.mp h.nodup
  obtain ⟨hb, hqueue⟩ := List.nodup_cons.mp hqueue
  rw [List.head?_cons] at hhead
  refine ⟨{ mq with
    msgQueueHead := mq.next b
    msgQueueTail := if mq.msgQueueTail = some b then none else mq.msgQueueTail },
    by simp [MessageQueue.unlinkHead, hhead, pure, Except.pure], ?_,
    .same rfl rfl rfl rfl fun _ _ => rfl, rfl⟩
  refine ⟨h.freeHead, h.freeLinked, h.queueLinked.1, ?_, h.queueLinked.2,
    List.nodup_append.mpr ⟨hfree, hqueue, fun c hc d hd => hdisjoint c hc d (by simp [hd])⟩⟩
  simp only [htail]
  cases hlast : queued.getLast? with
  | none => simp [List.getLast?_cons, hlast]
  | some last =>
    have hne : last ≠ b := by
      rintro rfl
      exact hb (List.mem_of_getLast? hlast)
    simp [List.getLast?_cons, hlast, hne]

/-- The loop of a reset leaves no block in the queue. -/
theorem Lists.releaseAll {fuel : Nat} (h : Lists mq free queued) (hfuel : queued.length < fuel) :
    ∃ mq', mq.releaseAll fuel = .ok mq' ∧ Lists mq' (queued.reverse ++ free) [] ∧
      Frame queued mq mq' := by
  induction queued generalizing mq free fuel with
  | nil =>
    have hhead := h.queueHead
    cases fuel with
    | zero => simp at hfuel
    | succ fuel =>
      refine ⟨mq, ?_, h, .same rfl rfl rfl rfl fun _ _ => rfl⟩
      rw [List.head?_nil] at hhead
      simp [MessageQueue.releaseAll, hhead, pure, Except.pure]
  | cons b queued ih =>
    have hhead := h.queueHead
    cases fuel with
    | zero => simp at hfuel
    | succ fuel =>
      obtain ⟨mq₁, hunlink, h₁, hframe₁, -⟩ := h.unlinkHead
      have hb : b ∉ free ++ queued :=
        (List.nodup_cons.mp (List.nodup_middle.mp h.nodup)).1
      obtain ⟨mq', hrelease, h', hframe'⟩ := ih (h₁.putFree hb) (by simpa using hfuel)
      refine ⟨mq', ?_, ?_, (hframe₁.trans putFree_frame).trans hframe'⟩
      · rw [List.head?_cons] at hhead
        simpa [MessageQueue.releaseAll, hhead, hunlink, bind, Except.bind] using hrelease
      · simpa using h'

/-- `rt_mq_init` and `rt_mq_create` put every block on the free list. -/
theorem initMsgList_lists (hfree : mq.msgQueueFree = none) (hhead : mq.msgQueueHead = none)
    (htail : mq.msgQueueTail = none) :
    Lists (initMsgList mq) mq.blocks.reverse [] ∧ Frame mq.blocks mq (initMsgList mq) ∧
      (initMsgList mq).entry = mq.entry := by
  have hinj : Function.Injective mq.block := by
    intro i j hij
    simp only [block, Nat.add_left_cancel_iff] at hij
    exact Nat.eq_of_mul_eq_mul_right (by omega) hij
  -- after the first `n` blocks
  have hloop : ∀ n, n ≤ mq.maxMsgs.toNat →
      let m := (List.range n).foldl (fun m temp => m.putFree (mq.block temp)) mq
      Lists m ((List.range n).map mq.block).reverse [] ∧
        Frame ((List.range n).map mq.block) mq m ∧ m.entry = mq.entry := by
    intro n hn
    induction n with
    | zero => exact ⟨⟨hfree, trivial, hhead, htail, trivial, by simp⟩,
        .same rfl rfl rfl rfl fun _ _ => rfl, rfl⟩
    | succ n ih =>
      obtain ⟨hlists, hframe, hentry⟩ := ih (by omega)
      have hfresh : mq.block n ∉ ((List.range n).map mq.block).reverse ++ [] := by
        simp [hinj.eq_iff]
      simp only [List.range_succ, List.foldl_append, List.foldl_cons, List.foldl_nil,
        List.map_append, List.map_cons, List.map_nil, List.reverse_append, List.reverse_cons,
        List.reverse_nil, List.nil_append, List.cons_append]
      exact ⟨hlists.putFree hfresh, hframe.trans putFree_frame, hentry⟩
  exact hloop _ le_rfl

end MessageQueue

end PandoraRobot.Ipc
