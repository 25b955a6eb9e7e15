import Mathlib.Data.Fintype.Sum
import PandoraRobot.Kernel.TimerRuns

/-! # Scheduler and threads

The ready lists of `scheduler.c`, the thread operations of `thread.c`, the wait
lists of `ipc.c`, the reaper of `idle.c` and the tick of `clock.c`, over one state.
The list node `tlist` of a thread sits in a ready list, in the defunct list, in the
wait list of an IPC object, or in none.

`T` are the threads, each with its timer, `U` the other timers, and `I` the IPC
objects, of which only the wait list matters here.  What the timeout functions of
the other timers do is a parameter.
-/

namespace PandoraRobot.Kernel

open PandoraRobot.RingList

/-- `stat & RT_THREAD_STAT_MASK`. -/
inductive ThreadStat where
  | init
  | ready
  | suspend
  | close
  deriving DecidableEq, Repr

/-- `struct rt_thread`, less its list node and its timer. -/
structure Thread where
  type : ObjectType := .null
  stat : ThreadStat := .init
  error : Err := .eok
  currentPriority : Nat := 0
  initPriority : Nat := 0
  numberMask : BitVec 32 := 0
  initTick : Tick := 0
  remainingTick : Tick := 0
  /-- `cleanup` is not `RT_NULL`. -/
  cleanup : Bool := false
  deriving DecidableEq, Repr

/-- The heads of the lists a thread can be linked in. -/
inductive ListHead (I : Type) where
  /-- `rt_thread_priority_table[p]`. -/
  | ready (p : Nat)
  /-- `rt_thread_defunct`. -/
  | defunct
  /-- `suspend_thread` of an IPC object. -/
  | suspend (i : I)
  deriving DecidableEq, Repr

/-- The state of the kernel. -/
structure State (T U I : Type) where
  timers : Timers (T ⊕ U)
  tlist : Links (ListHead I ⊕ T)
  thread : T → Thread
  rtThreadReadyPriorityGroup : BitVec 32
  rtCurrentThread : Option T
  rtCurrentPriority : Nat
  rtSchedulerLockNest : BitVec 16

/-- The commands of `rt_thread_control`. -/
inductive ThreadCtrl where
  | startup
  | close
  | changePriority (priority : Nat)
  | info
  deriving DecidableEq, Repr

/-- `RT_IPC_FLAG_FIFO` or `RT_IPC_FLAG_PRIO`. -/
inductive IpcFlag where
  | fifo
  | prio
  deriving DecidableEq, Repr

namespace State

variable {T U I : Type} [DecidableEq T] [DecidableEq U] [DecidableEq I]

def modifyThread (t : T) (f : Thread → Thread) (k : State T U I) : State T U I :=
  { k with thread := Function.update k.thread t (f (k.thread t)) }

def setStat (t : T) (stat : ThreadStat) (k : State T U I) : State T U I :=
  k.modifyThread t fun th => { th with stat := stat }

def setError (t : T) (err : Err) (k : State T U I) : State T U I :=
  k.modifyThread t fun th => { th with error := err }

def unlink (t : T) (k : State T U I) : State T U I :=
  { k with tlist := rtListRemove (.inr t) k.tlist }

/-! ## `scheduler.c` -/

def rtScheduleInsertThread (t : T) (k : State T U I) : Exec (State T U I) := do
  let k := k.setStat t .ready
  let priority := (k.thread t).currentPriority
  if rtThreadPriorityMax ≤ priority then throw .outOfBounds
  let k := { k with tlist := rtListInsertBefore (.inl (.ready priority)) (.inr t) k.tlist }
  pure { k with
    rtThreadReadyPriorityGroup := k.rtThreadReadyPriorityGroup ||| (k.thread t).numberMask }

def rtScheduleRemoveThread (t : T) (k : State T U I) : Exec (State T U I) := do
  let k := k.unlink t
  let priority := (k.thread t).currentPriority
  if rtThreadPriorityMax ≤ priority then throw .outOfBounds
  if rtListIsempty (.inl (.ready priority)) k.tlist then
    pure { k with
      rtThreadReadyPriorityGroup := k.rtThreadReadyPriorityGroup &&& ~~~ (k.thread t).numberMask }
  else pure k

/-- The thread at the front of the list that `__rt_ffs` of the group picks. -/
def highestReadyThread (k : State T U I) : Exec (Nat × T) :=
  match rtFfs k.rtThreadReadyPriorityGroup with
  | 0 => throw .outOfBounds
  | highest + 1 =>
    match k.tlist.next (.inl (.ready highest)) with
    | .inl _ => throw .wildPointer
    | .inr t => pure (highest, t)

/-- `rt_system_scheduler_start`. -/
def rtSystemSchedulerStart (k : State T U I) : Exec (State T U I) := do
  let (_, toThread) ← k.highestReadyThread
  pure { k with rtCurrentThread := some toThread }

def rtSchedule (k : State T U I) : Exec (State T U I) := do
  if k.rtSchedulerLockNest = 0 then
    let (highest, toThread) ← k.highestReadyThread
    match k.rtCurrentThread with
    -- the stack pointer of the thread switched from is saved through `RT_NULL`
    | none => throw .wildPointer
    | some current =>
      if toThread ≠ current then
        pure { k with rtCurrentPriority := highest, rtCurrentThread := some toThread }
      else pure k
  else pure k

def rtEnterCritical (k : State T U I) : State T U I :=
  { k with rtSchedulerLockNest := k.rtSchedulerLockNest + 1 }

def rtExitCritical (k : State T U I) : Exec (State T U I) := do
  let k := { k with rtSchedulerLockNest := k.rtSchedulerLockNest - 1 }
  if k.rtSchedulerLockNest.toInt ≤ 0 then
    let k := { k with rtSchedulerLockNest := 0 }
    if k.rtCurrentThread.isSome then k.rtSchedule else pure k
  else pure k

/-! ## `thread.c` -/

def withTimers (timers : Timers (T ⊕ U)) (k : State T U I) : State T U I :=
  { k with timers := timers }

/-- A timer operation on the timers of the kernel. -/
def liftTimers {α : Type} (f : Timers (T ⊕ U) → Exec α) (set : α → Timers (T ⊕ U))
    (k : State T U I) : Exec (State T U I) := do
  let out ← f k.timers
  pure (k.withTimers (set out))

/-- `_rt_thread_init`. -/
def rtThreadInitFields (t : T) (priority : Nat) (tick : Tick) (k : State T U I) :
    Exec (State T U I) := do
  let k := { k with tlist := rtListInit (.inr t) k.tlist }
  rtAssert (priority < rtThreadPriorityMax)
  let k := k.modifyThread t fun th => { th with
    initPriority := priority
    currentPriority := priority
    numberMask := 0
    initTick := tick
    remainingTick := tick
    error := .eok
    stat := .init
    cleanup := false }
  k.liftTimers (·.rtTimerInit (.inl t) 0 {}) id

def rtThreadInit (t : T) (priority : Nat) (tick : Tick) (k : State T U I) :
    Exec (State T U I) := do
  -- `rt_object_init` looks for the object in the container of its class
  rtAssert ((k.thread t).type = .null)
  let k := k.modifyThread t fun th => { th with type := .static }
  k.rtThreadInitFields t priority tick

/-- `rt_thread_create`, when the allocator hands out the block `t`. -/
def rtThreadCreate (t : T) (priority : Nat) (tick : Tick) (k : State T U I) :
    Exec (State T U I) := do
  rtAssert ((k.thread t).type = .null)
  let k := k.modifyThread t fun _ => { type := .allocated }
  k.rtThreadInitFields t priority tick

/-- `thread->cleanup = ..`, as its user writes it. -/
def setCleanup (t : T) (cleanup : Bool) (k : State T U I) : Exec (State T U I) := do
  rtAssert ((k.thread t).type ≠ .null)
  pure (k.modifyThread t fun th => { th with cleanup := cleanup })

def rtThreadSuspend (t : T) (k : State T U I) : Exec (State T U I × Err) := do
  rtAssert ((k.thread t).type ≠ .null)
  if (k.thread t).stat ≠ .ready then pure (k, .error)
  else
    let k := k.setStat t .suspend
    let k ← k.rtScheduleRemoveThread t
    let k ← k.liftTimers (·.rtTimerStop (.inl t)) Prod.fst
    pure (k, .eok)

/-- The first critical section of `rt_thread_resume`: off the wait list, and the timer stopped. -/
def rtThreadResumeUnlink (t : T) (k : State T U I) : Exec (State T U I) :=
  (k.unlink t).liftTimers (·.rtTimerStop (.inl t)) Prod.fst

def rtThreadResume (t : T) (k : State T U I) : Exec (State T U I × Err) := do
  rtAssert ((k.thread t).type ≠ .null)
  if (k.thread t).stat ≠ .suspend then pure (k, .error)
  else
    let k ← k.rtThreadResumeUnlink t
    let k ← k.rtScheduleInsertThread t
    pure (k, .eok)

def rtThreadStartup (t : T) (k : State T U I) : Exec (State T U I) := do
  rtAssert ((k.thread t).stat = .init)
  rtAssert ((k.thread t).type ≠ .null)
  let k := k.modifyThread t fun th => { th with
    currentPriority := th.initPriority
    numberMask := 1#32 <<< th.initPriority
    stat := .suspend }
  let (k, _) ← k.rtThreadResume t
  if k.rtCurrentThread.isSome then k.rtSchedule else pure k

/-- The last part of `rt_thread_detach`, `rt_thread_delete` and `rt_thread_exit`. -/
def insertDefunct (t : T) (k : State T U I) : State T U I :=
  { k with tlist := rtListInsertAfter (.inl .defunct) (.inr t) k.tlist }

/-- `rt_object_detach` for a static thread without cleanup, the defunct list otherwise. -/
def detachOrDefunct (t : T) (k : State T U I) : State T U I :=
  if rtObjectIsSystemobject (k.thread t).type = true ∧ (k.thread t).cleanup = false then
    k.modifyThread t fun th => { th with type := .null }
  else k.insertDefunct t

/-- The first critical section of `rt_thread_detach` and `rt_thread_delete`. -/
def leaveScheduler (t : T) (k : State T U I) : Exec (State T U I) :=
  if (k.thread t).stat ≠ .init then k.rtScheduleRemoveThread t else pure k

def rtThreadDetach (t : T) (k : State T U I) : Exec (State T U I) := do
  rtAssert ((k.thread t).type ≠ .null)
  rtAssert (rtObjectIsSystemobject (k.thread t).type)
  let k ← k.leaveScheduler t
  let k ← k.liftTimers (·.rtTimerDetach (.inl t)) id
  let k := k.setStat t .close
  pure (k.detachOrDefunct t)

def rtThreadDelete (t : T) (k : State T U I) : Exec (State T U I) := do
  rtAssert ((k.thread t).type ≠ .null)
  rtAssert (rtObjectIsSystemobject (k.thread t).type = false)
  let k ← k.leaveScheduler t
  let k ← k.liftTimers (·.rtTimerDetach (.inl t)) id
  let k := k.setStat t .close
  pure (k.insertDefunct t)

/-- `rt_thread_self`, where the result is dereferenced. -/
def rtThreadSelf (k : State T U I) : Exec T :=
  match k.rtCurrentThread with
  | none => throw .wildPointer
  | some t => pure t

def rtThreadExit (k : State T U I) : Exec (State T U I) := do
  let t ← k.rtThreadSelf
  let k ← k.rtScheduleRemoveThread t
  let k := k.setStat t .close
  let k ← k.liftTimers (·.rtTimerDetach (.inl t)) id
  (k.detachOrDefunct t).rtSchedule

def rtThreadYield (k : State T U I) : Exec (State T U I) := do
  let t ← k.rtThreadSelf
  if (k.thread t).stat = .ready ∧ k.tlist.next (.inr t) ≠ k.tlist.prev (.inr t) then
    let k := k.unlink t
    let priority := (k.thread t).currentPriority
    if rtThreadPriorityMax ≤ priority then throw .outOfBounds
    let k := { k with tlist := rtListInsertBefore (.inl (.ready priority)) (.inr t) k.tlist }
    k.rtSchedule
  else pure k

variable [Fintype T] [Fintype U]

/-- `rt_thread_sleep` up to and with `rt_schedule`. -/
def rtThreadSleep (tick : Tick) (k : State T U I) : Exec (State T U I) := do
  let t ← match k.rtCurrentThread with
    | none => throw .assertion
    | some t => pure t
  rtAssert ((k.thread t).type ≠ .null)
  let (k, _) ← k.rtThreadSuspend t
  let k ← k.liftTimers (·.rtTimerControl (.inl t) .setTime tick) Prod.fst
  let k ← k.liftTimers (·.rtTimerStart (.inl t)) id
  k.rtSchedule

/-- The end of `rt_thread_sleep`, when its thread runs again. -/
def rtThreadSleepReturn (t : T) (k : State T U I) : State T U I :=
  if (k.thread t).error = .etimeout then k.setError t .eok else k

def rtThreadControl (t : T) (cmd : ThreadCtrl) (k : State T U I) : Exec (State T U I) := do
  rtAssert ((k.thread t).type ≠ .null)
  match cmd with
  | .changePriority priority =>
    let change := fun th : Thread => { th with
      currentPriority := priority
      numberMask := 1#32 <<< priority }
    if (k.thread t).stat = .ready then
      let k ← k.rtScheduleRemoveThread t
      let k := k.modifyThread t change
      k.rtScheduleInsertThread t
    else pure (k.modifyThread t change)
  | .startup => k.rtThreadStartup t
  | .close => k.rtThreadDelete t
  | .info => pure k

def rtThreadTimeout (t : T) (k : State T U I) : Exec (State T U I) := do
  rtAssert ((k.thread t).stat = .suspend)
  rtAssert ((k.thread t).type ≠ .null)
  let k := k.setError t .etimeout
  let k := k.unlink t
  let k ← k.rtScheduleInsertThread t
  k.rtSchedule

/-! ## The wait lists of `ipc.c` -/

/-- The walk of `rt_ipc_list_suspend` along the wait list of `i`, for a thread of the given
    priority: the node before which the thread goes. -/
def rtIpcListSeek (i : I) (priority : Nat) (k : State T U I) :
    Nat → ListHead I ⊕ T → Exec (ListHead I ⊕ T)
  | 0, _ => throw .outOfFuel
  | fuel + 1, n =>
    match n with
    | .inl head => if head = .suspend i then pure n else throw .wildPointer
    | .inr sthread =>
      if priority < (k.thread sthread).currentPriority then pure n
      else k.rtIpcListSeek i priority fuel (k.tlist.next n)

def rtIpcListSuspend (i : I) (t : T) (flag : IpcFlag) (k : State T U I) :
    Exec (State T U I) := do
  let (k, _) ← k.rtThreadSuspend t
  match flag with
  | .fifo =>
    pure { k with tlist := rtListInsertBefore (.inl (.suspend i)) (.inr t) k.tlist }
  | .prio =>
    let n ← k.rtIpcListSeek i (k.thread t).currentPriority (Fintype.card T + 1)
      (k.tlist.next (.inl (.suspend i)))
    pure { k with tlist := rtListInsertBefore n (.inr t) k.tlist }

def rtIpcListResume (i : I) (k : State T U I) : Exec (State T U I) := do
  match k.tlist.next (.inl (.suspend i)) with
  | .inl _ => throw .wildPointer
  | .inr t =>
    let (k, _) ← k.rtThreadResume t
    pure k

def rtIpcListResumeAll (i : I) : Nat → State T U I → Exec (State T U I)
  | 0, _ => throw .outOfFuel
  | fuel + 1, k =>
    match k.tlist.next (.inl (.suspend i)) with
    | .inl _ => pure k
    | .inr t => do
      let (k, _) ← (k.setError t .error).rtThreadResume t
      rtIpcListResumeAll i fuel k

/-! ## `idle.c` -/

/-- `rt_thread_idle_excute`.  A pass of the loop over a static thread returns.  What a cleanup
    function does beside the kernel is left out. -/
def rtThreadIdleExcute : Nat → State T U I → Exec (State T U I)
  | 0, _ => throw .outOfFuel
  | fuel + 1, k =>
    match k.tlist.next (.inl .defunct) with
    | .inl _ => pure k
    | .inr t => do
      let k := (k.unlink t).rtEnterCritical
      if rtObjectIsSystemobject (k.thread t).type then
        (k.modifyThread t fun th => { th with type := .null }).rtExitCritical
      else
        let k ← k.rtExitCritical
        -- `rt_object_delete`
        rtThreadIdleExcute fuel (k.modifyThread t fun th => { th with type := .null })

/-! ## `clock.c` -/

/-- The timers of the kernel: that of a thread calls `rt_thread_timeout`. -/
def host (timeoutFunc : U → State T U I → Exec (State T U I)) :
    TimerHost (T ⊕ U) (State T U I) where
  timers k := k.timers
  withTimers f k := k.withTimers (f k.timers)
  start t k := k.liftTimers (·.rtTimerStart t) id
  timeoutFunc
    | .inl t, k => k.rtThreadTimeout t
    | .inr u, k => timeoutFunc u k
  timers_withTimers _ _ := rfl
  timers_start := by
    intro t k k' h
    simp only [liftTimers, exec_bind_ok, exec_pure_ok] at h
    obtain ⟨timers, hstart, rfl⟩ := h
    exact hstart

/-- `rt_tick_increase` up to the call of `rt_timer_check`. -/
def rtTickBegin (k : State T U I) : Exec (State T U I) := do
  let k := k.withTimers k.timers.advance
  let t ← k.rtThreadSelf
  let k := k.modifyThread t fun th => { th with remainingTick := th.remainingTick - 1 }
  if (k.thread t).remainingTick = 0 then
    (k.modifyThread t fun th => { th with remainingTick := th.initTick }).rtThreadYield
  else pure k

def rtTickIncrease (timeoutFunc : U → State T U I → Exec (State T U I)) (fuel : Nat)
    (k : State T U I) : Exec (State T U I) := do
  let k ← k.rtTickBegin
  (host timeoutFunc).rtTimerCheck fuel k

/-- `rt_tick_from_millisecond`. -/
def rtTickFromMillisecond (ms : BitVec 32) : Tick :=
  if ms.toInt < 0 then 0xffffffff
  else
    let tick := BitVec.ofNat 32 rtTickPerSecond * ms.sdiv 1000
    tick + (BitVec.ofNat 32 rtTickPerSecond * ms.srem 1000 + 999).sdiv 1000

/-- `rt_thread_mdelay` up to and with the `rt_schedule` of the sleep. -/
def rtThreadMdelay (ms : BitVec 32) (k : State T U I) : Exec (State T U I) :=
  k.rtThreadSleep (rtTickFromMillisecond ms)

end State

end PandoraRobot.Kernel
