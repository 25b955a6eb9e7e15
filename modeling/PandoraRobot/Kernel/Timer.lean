import Mathlib.Data.Fintype.Card
import PandoraRobot.Kernel.Service

/-! # Timers

The hard timers of `timer.c`, with the skip list at its configured single level:
one circular list `rt_timer_list`, into which `rt_timer_start` inserts by
comparing 32-bit differences, and from whose front `rt_timer_check` takes what is
due.  Software timers are not configured.

`rt_timer_check` calls back into whatever system the timers are part of, so it is
written over a `TimerHost`: a state that has timers in it and a timeout function
for each of them.
-/

namespace PandoraRobot.Kernel

open PandoraRobot.RingList

/-- The bits of `parent.flag` that the configured code reads. -/
structure TimerFlag where
  activated : Bool := false
  periodic : Bool := false
  deriving DecidableEq, Repr

/-- `struct rt_timer`, less the list node and the timeout function. -/
structure Timer where
  type : ObjectType := .null
  flag : TimerFlag := {}
  initTick : Tick := 0
  timeoutTick : Tick := 0
  /-- The memory of the timer was given back by `rt_timer_delete`. -/
  freed : Bool := false
  deriving DecidableEq, Repr

/-- The tick counter, the timer list and the timers it links. -/
structure Timers (Tm : Type) where
  rtTick : Tick
  rtTimerList : Links (Unit ⊕ Tm)
  timer : Tm → Timer

/-- The commands of `rt_timer_control`. -/
inductive TimerCtrl where
  | setTime
  | getTime
  | setOneshot
  | setPeriodic
  deriving DecidableEq, Repr

namespace Timers

variable {Tm : Type} [DecidableEq Tm]

def modifyTimer (t : Tm) (f : Timer → Timer) (s : Timers Tm) : Timers Tm :=
  { s with timer := Function.update s.timer t (f (s.timer t)) }

def setActivated (t : Tm) (b : Bool) (s : Timers Tm) : Timers Tm :=
  s.modifyTimer t fun timer => { timer with flag := { timer.flag with activated := b } }

/-- `_rt_timer_remove`. -/
def rtTimerRemove (t : Tm) (s : Timers Tm) : Timers Tm :=
  { s with rtTimerList := rtListRemove (.inr t) s.rtTimerList }

/-- `_rt_timer_init`. -/
def rtTimerInitFields (t : Tm) (time : Tick) (flag : TimerFlag) (s : Timers Tm) : Timers Tm :=
  let s := s.modifyTimer t fun timer =>
    { timer with flag := { flag with activated := false }, timeoutTick := 0, initTick := time }
  { s with rtTimerList := rtListInit (.inr t) s.rtTimerList }

def rtTimerInit (t : Tm) (time : Tick) (flag : TimerFlag) (s : Timers Tm) : Exec (Timers Tm) := do
  if (s.timer t).freed then throw .useAfterFree
  -- `rt_object_init` looks for the object in the container of its class
  rtAssert ((s.timer t).type = .null)
  let s := s.modifyTimer t fun timer => { timer with type := .static }
  pure (s.rtTimerInitFields t time flag)

/-- `rt_timer_create`, when the allocator hands out the block `t`. -/
def rtTimerCreate (t : Tm) (time : Tick) (flag : TimerFlag) (s : Timers Tm) : Exec (Timers Tm) := do
  rtAssert ((s.timer t).type = .null)
  let s := s.modifyTimer t fun _ => { type := .allocated }
  pure (s.rtTimerInitFields t time flag)

def rtTimerDetach (t : Tm) (s : Timers Tm) : Exec (Timers Tm) := do
  rtAssert ((s.timer t).type ≠ .null)
  rtAssert (rtObjectIsSystemobject (s.timer t).type)
  let s := s.rtTimerRemove t
  -- `rt_object_detach`
  pure (s.modifyTimer t fun timer => { timer with type := .null })

def rtTimerDelete (t : Tm) (s : Timers Tm) : Exec (Timers Tm) := do
  rtAssert ((s.timer t).type ≠ .null)
  rtAssert (rtObjectIsSystemobject (s.timer t).type = false)
  let s := s.rtTimerRemove t
  -- `rt_object_delete`
  pure (s.modifyTimer t fun timer => { timer with type := .null, freed := true })

/-- The walk of `rt_timer_start` along the list, for a timer that ends at `timeoutTick`:
    it stops at the node after which the timer goes. -/
def rtTimerSeek (s : Timers Tm) (timeoutTick : Tick) : Nat → Unit ⊕ Tm → Exec (Unit ⊕ Tm)
  | 0, _ => throw .outOfFuel
  | fuel + 1, rowHead =>
    if rowHead = s.rtTimerList.prev (.inl ()) then pure rowHead
    else
      match s.rtTimerList.next rowHead with
      | .inl _ => throw .wildPointer
      | .inr t =>
        -- a timer that ends at the same tick runs before the new one
        if (s.timer t).timeoutTick - timeoutTick = 0 then
          rtTimerSeek s timeoutTick fuel (.inr t)
        else if ((s.timer t).timeoutTick - timeoutTick).toNat < rtTickMaxHalf then pure rowHead
        else rtTimerSeek s timeoutTick fuel (.inr t)

def rtTimerStart [Fintype Tm] (t : Tm) (s : Timers Tm) : Exec (Timers Tm) := do
  rtAssert ((s.timer t).type ≠ .null)
  let s := (s.rtTimerRemove t).setActivated t false
  rtAssert ((s.timer t).initTick.toNat < rtTickMaxHalf)
  let s := s.modifyTimer t fun timer => { timer with timeoutTick := s.rtTick + timer.initTick }
  let rowHead ← s.rtTimerSeek (s.timer t).timeoutTick (Fintype.card Tm + 1) (.inl ())
  let s := { s with rtTimerList := rtListInsertAfter rowHead (.inr t) s.rtTimerList }
  pure (s.setActivated t true)

def rtTimerStop (t : Tm) (s : Timers Tm) : Exec (Timers Tm × Err) := do
  rtAssert ((s.timer t).type ≠ .null)
  if (s.timer t).flag.activated = false then pure (s, .error)
  else pure ((s.rtTimerRemove t).setActivated t false, .eok)

/-- `rt_timer_control`; the second result is `*arg` afterwards. -/
def rtTimerControl (t : Tm) (cmd : TimerCtrl) (arg : Tick) (s : Timers Tm) :
    Exec (Timers Tm × Tick) := do
  rtAssert ((s.timer t).type ≠ .null)
  match cmd with
  | .getTime => pure (s, (s.timer t).initTick)
  | .setTime => pure (s.modifyTimer t fun timer => { timer with initTick := arg }, arg)
  | .setOneshot =>
    pure (s.modifyTimer t fun timer =>
      { timer with flag := { timer.flag with periodic := false } }, arg)
  | .setPeriodic =>
    pure (s.modifyTimer t fun timer =>
      { timer with flag := { timer.flag with periodic := true } }, arg)

/-- The test by which `rt_timer_check` takes a timer to be due. -/
def due (s : Timers Tm) (currentTick : Tick) (t : Tm) : Bool :=
  (currentTick - (s.timer t).timeoutTick).toNat < rtTickMaxHalf

/-- `++ rt_tick`. -/
def advance (s : Timers Tm) : Timers Tm := { s with rtTick := s.rtTick + 1 }

end Timers

/-! ## `rt_timer_check` -/

/-- A system with timers in it.  `start` is `rt_timer_start` on the system's own state. -/
structure TimerHost (Tm S : Type) [DecidableEq Tm] [Fintype Tm] where
  timers : S → Timers Tm
  withTimers : (Timers Tm → Timers Tm) → S → S
  start : Tm → S → Exec S
  timeoutFunc : Tm → S → Exec S
  timers_withTimers : ∀ f s, timers (withTimers f s) = f (timers s)
  timers_start : ∀ {t s s'}, start t s = .ok s' → (timers s).rtTimerStart t = .ok (timers s')

namespace TimerHost

variable {Tm S : Type} [DecidableEq Tm] [Fintype Tm] (host : TimerHost Tm S)

/-- One turn of the loop of `rt_timer_check`, for the due timer `t` at the front. -/
def fire (t : Tm) (s : S) : Exec S := do
  let s := host.withTimers (·.rtTimerRemove t) s
  let s ← host.timeoutFunc t s
  let timer := (host.timers s).timer t
  if timer.freed then throw .useAfterFree
  let s := host.withTimers (·.setActivated t false) s
  if timer.flag.periodic && timer.flag.activated then host.start t s else pure s

def rtTimerCheckLoop : Nat → Tick → S → Exec S
  | 0, _, _ => throw .outOfFuel
  | fuel + 1, currentTick, s =>
    match (host.timers s).rtTimerList.next (.inl ()) with
    | .inl _ => pure s
    | .inr t =>
      if (host.timers s).due currentTick t then do
        let s ← host.fire t s
        rtTimerCheckLoop fuel (host.timers s).rtTick s
      else pure s

/-- `rt_timer_check`.  The loop of the code has no bound: `fuel` is one for the model. -/
def rtTimerCheck (fuel : Nat) (s : S) : Exec S :=
  host.rtTimerCheckLoop fuel (host.timers s).rtTick s

end TimerHost

end PandoraRobot.Kernel
