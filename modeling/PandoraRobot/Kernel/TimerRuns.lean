import Mathlib.Logic.Relation
import PandoraRobot.Kernel.TimerSorted

/-! # Runs of the timers

A run of the timers is any sequence of calls of the timer operations and of tick
interrupts, from any tick on.  In each interrupt the timeout functions may call
the operations again, on any timer, the firing one included: which calls a timeout
function makes is an arbitrary function of the timer and of the run so far.

The record of a run keeps a clock that does not wrap, the number and the deadline
of the last start of each timer, and what fired.
-/

namespace PandoraRobot.Kernel

open PandoraRobot.RingList PandoraRobot.CircularClock

/-- A call of a timer operation. -/
inductive TimerOp (Tm : Type) where
  | init (t : Tm) (time : Tick) (flag : TimerFlag)
  | create (t : Tm) (time : Tick) (flag : TimerFlag)
  | start (t : Tm)
  | stop (t : Tm)
  | control (t : Tm) (cmd : TimerCtrl) (arg : Tick)
  | detach (t : Tm)
  | delete (t : Tm)
  deriving DecidableEq, Repr

namespace TimerOp

variable {Tm : Type} [DecidableEq Tm] [Fintype Tm]

def exec : TimerOp Tm → Timers Tm → Exec (Timers Tm)
  | init t time flag, s => s.rtTimerInit t time flag
  | create t time flag, s => s.rtTimerCreate t time flag
  | start t, s => s.rtTimerStart t
  | stop t, s => do
    let (s, _) ← s.rtTimerStop t
    pure s
  | control t cmd arg, s => do
    let (s, _) ← s.rtTimerControl t cmd arg
    pure s
  | detach t, s => s.rtTimerDetach t
  | delete t, s => s.rtTimerDelete t

/-- The timer a call is about. -/
def timer : TimerOp Tm → Tm
  | init t _ _ | create t _ _ | start t | stop t | control t _ _ | detach t | delete t => t

variable {s s' : Timers Tm} {xs : List Tm} {lo : Int} {op : TimerOp Tm}

/-- What a call that is not `rt_timer_start` can do to the timer list: leave it alone, or take
    its own timer out. -/
structure Unstarted (op : TimerOp Tm) (s : Timers Tm) (xs : List Tm) (s' : Timers Tm)
    (xs' : List Tm) : Prop where
  rtTick : s'.rtTick = s.rtTick
  list : xs' = xs ∨ xs' = xs.erase op.timer
  linked : s'.Linked xs'
  other : ∀ u, u ≠ op.timer → s'.timer u = s.timer u
  registered : op.timer ∈ xs' → (s'.timer op.timer).type = (s.timer op.timer).type ∧
    (s'.timer op.timer).timeoutTick = (s.timer op.timer).timeoutTick

omit [Fintype Tm] in
theorem exec_init {s₁ : Timers Tm} {t : Tm} {time : Tick} {flag : TimerFlag}
    (hl : s.Linked xs) (hreg : ∀ t ∈ xs, (s.timer t).type ≠ .null)
    (hnull : (s.timer t).type = .null) (htick : s₁.rtTick = s.rtTick)
    (hlist : s₁.rtTimerList = s.rtTimerList)
    (htimer : ∀ u, u ≠ t → s₁.timer u = s.timer u) (hop : op.timer = t) :
    Unstarted op s xs (s₁.rtTimerInitFields t time flag) xs := by
  have ht : t ∉ xs := fun hm => hreg t hm hnull
  refine ⟨htick, .inl rfl, ?_, ?_, ?_⟩
  · have hself : s.rtTimerList.initNode (.inr t) = s.rtTimerList := Holds.initNode hl fun _ => ht
    simp only [Timers.Linked, Timers.rtTimerInitFields, Timers.modifyTimer_rtTimerList, hlist]
    change Holds (s.rtTimerList.initNode (.inr t)) _
    rw [hself]
    exact hl
  · intro u hu
    rw [hop] at hu
    simpa [Timers.rtTimerInitFields, hu] using htimer u hu
  · intro hm
    exact absurd (hop ▸ hm) ht

/-- What a call can do. -/
theorem exec_cases (hl : s.Linked xs) (hreg : ∀ t ∈ xs, (s.timer t).type ≠ .null)
    (h : op.exec s = .ok s') :
    (∃ t, op = start t ∧ s.Started t xs s') ∨ ∃ xs', Unstarted op s xs s' xs' := by
  cases op with
  | init t time flag =>
    right
    simp only [exec, Timers.rtTimerInit] at h
    split at h
    · simp at h
    · simp only [exec_bind_ok, exec_pure_ok, rtAssert_eq_ok] at h
      obtain ⟨_, hnull, rfl⟩ := h
      exact ⟨xs, exec_init hl hreg hnull rfl rfl (fun u hu => by simp [hu]) rfl⟩
  | create t time flag =>
    right
    simp only [exec, Timers.rtTimerCreate, exec_bind_ok, exec_pure_ok, rtAssert_eq_ok] at h
    obtain ⟨_, hnull, rfl⟩ := h
    exact ⟨xs, exec_init hl hreg hnull rfl rfl (fun u hu => by simp [hu]) rfl⟩
  | start t => exact .inl ⟨t, rfl, Timers.rtTimerStart_started hl h⟩
  | stop t =>
    right
    simp only [exec, Timers.rtTimerStop, exec_bind_ok, rtAssert_eq_ok] at h
    obtain ⟨⟨s₁, err⟩, ⟨_, htype, h⟩, hs⟩ := h
    simp only [exec_pure_ok] at hs
    subst hs
    split at h
    · simp only [exec_pure_ok, Prod.mk.injEq] at h
      obtain ⟨rfl, -⟩ := h
      exact ⟨xs, rfl, .inl rfl, hl, fun _ _ => rfl, fun _ => ⟨rfl, rfl⟩⟩
    · simp only [exec_pure_ok, Prod.mk.injEq] at h
      obtain ⟨rfl, -⟩ := h
      exact ⟨xs.erase t, rfl, .inr rfl, hl.remove t, fun u hu => by
        simp only [timer] at hu; simp [hu], fun _ => by simp [timer]⟩
  | control t cmd arg =>
    right
    simp only [exec, Timers.rtTimerControl, exec_bind_ok, rtAssert_eq_ok] at h
    obtain ⟨⟨s₁, out⟩, ⟨_, htype, h⟩, hs⟩ := h
    simp only [exec_pure_ok] at hs
    subst hs
    cases cmd <;> simp only [exec_pure_ok, Prod.mk.injEq] at h <;> obtain ⟨rfl, -⟩ := h <;>
      exact ⟨xs, rfl, .inl rfl, hl, fun u hu => by simp only [timer] at hu; simp [hu],
        fun _ => by simp [timer]⟩
  | detach t =>
    right
    simp only [exec, Timers.rtTimerDetach, exec_bind_ok, exec_pure_ok, rtAssert_eq_ok] at h
    obtain ⟨_, _, _, _, rfl⟩ := h
    exact ⟨xs.erase t, rfl, .inr rfl, hl.remove t, fun u hu => by
      simp only [timer] at hu; simp [hu], fun hm => absurd hm hl.nodup.not_mem_erase⟩
  | delete t =>
    right
    simp only [exec, Timers.rtTimerDelete, exec_bind_ok, exec_pure_ok, rtAssert_eq_ok] at h
    obtain ⟨_, _, _, _, rfl⟩ := h
    exact ⟨xs.erase t, rfl, .inr rfl, hl.remove t, fun u hu => by
      simp only [timer] at hu; simp [hu], fun hm => absurd hm hl.nodup.not_mem_erase⟩

omit [Fintype Tm] in
theorem Unstarted.sublist {xs' : List Tm} (hu : Unstarted op s xs s' xs') : xs'.Sublist xs := by
  rcases hu.list with rfl | rfl
  · exact .refl _
  · exact List.erase_sublist

omit [Fintype Tm] in
theorem Unstarted.timeoutTick {xs' : List Tm} (hu : Unstarted op s xs s' xs') {t : Tm}
    (ht : t ∈ xs') : (s'.timer t).timeoutTick = (s.timer t).timeoutTick ∧
      (s'.timer t).type = (s.timer t).type := by
  by_cases hop : t = op.timer
  · subst hop
    exact ⟨(hu.registered ht).2, (hu.registered ht).1⟩
  · rw [hu.other t hop]
    exact ⟨rfl, rfl⟩

omit [Fintype Tm] in
theorem Unstarted.sorted {xs' : List Tm} (hu : Unstarted op s xs s' xs')
    (hs : s.Sorted lo xs) : s'.Sorted lo xs' :=
  hs.sublist hu.sublist hu.linked hu.rtTick fun t ht =>
    ⟨(hu.timeoutTick ht).1, by
      rw [(hu.timeoutTick ht).2]
      exact hs.registered t (hu.sublist.subset ht)⟩

end TimerOp

/-! ## The record of a run -/

/-- A call of a timeout function: `timeout_tick` and `rt_tick` at the call, and the deadline,
    the number of the start that led to it and the time as the record of the run has them. -/
structure Firing (Tm : Type) where
  timer : Tm
  timeoutTick : Tick
  rtTick : Tick
  deadline : Nat
  startNo : Nat
  clock : Nat
  /-- Whether the timer was periodic when it fired. -/
  periodic : Bool
  /-- The calls the timeout function made. -/
  calls : List (TimerOp Tm)
  deriving DecidableEq, Repr

/-- The timers and what has happened to them.  The clock does not wrap. -/
structure TimerRun (Tm : Type) where
  timers : Timers Tm
  clock : Nat
  /-- How many starts there have been. -/
  starts : Nat := 0
  /-- The clock at the last start of a timer plus its `init_tick` then. -/
  deadline : Tm → Nat := fun _ => 0
  /-- The number of the last start of a timer. -/
  startNo : Tm → Nat := fun _ => 0
  /-- The numbers of the starts undone by a later call on the same timer. -/
  cancelled : List Nat := []
  /-- The timer was detached with its flag set, and has neither been initialised since nor had its
      flag cleared by `rt_timer_check`. -/
  stale : Tm → Bool := fun _ => false
  /-- What fired, the latest first. -/
  fired : List (Firing Tm) := []

namespace TimerRun

variable {Tm : Type} [DecidableEq Tm] [Fintype Tm]

/-- `t` is linked in the timer list. -/
def isLinked (r : TimerRun Tm) (t : Tm) : Bool :=
  r.timers.rtTimerList.next (.inr t) ≠ .inr t

/-- The last start of `t` is undone if it was still pending and is so no more. -/
def noteCancel (r : TimerRun Tm) (t : Tm) : List Nat :=
  if r.isLinked t then r.startNo t :: r.cancelled else r.cancelled

/-- `rt_timer_detach` does not clear the flag. -/
def noteStale (r : TimerRun Tm) : TimerOp Tm → Tm → Bool
  | .detach t => Function.update r.stale t (r.timers.timer t).flag.activated
  | .init t _ _ | .create t _ _ => Function.update r.stale t false
  | _ => r.stale

/-- What `rt_timer_check` itself does to the timers.  A flag it clears is not stale any more. -/
def withTimers (f : Timers Tm → Timers Tm) (r : TimerRun Tm) : TimerRun Tm :=
  { r with
    timers := f r.timers
    stale := fun t => r.stale t && ((f r.timers).timer t).flag.activated }

omit [DecidableEq Tm] [Fintype Tm] in
@[simp] theorem withTimers_timers (f : Timers Tm → Timers Tm) (r : TimerRun Tm) :
    (r.withTimers f).timers = f r.timers := rfl

def start (t : Tm) (r : TimerRun Tm) : Exec (TimerRun Tm) := do
  let timers ← r.timers.rtTimerStart t
  pure { r with
    timers := timers
    starts := r.starts + 1
    deadline := Function.update r.deadline t (r.clock + (r.timers.timer t).initTick.toNat)
    startNo := Function.update r.startNo t r.starts
    cancelled := r.noteCancel t }

def exec (op : TimerOp Tm) (r : TimerRun Tm) : Exec (TimerRun Tm) :=
  match op with
  | .start t => r.start t
  | op => do
    let timers ← op.exec r.timers
    let r' := { r with timers := timers }
    pure { r' with
      cancelled := if r'.isLinked op.timer then r.cancelled else r.noteCancel op.timer
      stale := r.noteStale op }

/-- The calls a timeout function makes, given the run so far. -/
abbrev Callback (Tm : Type) := Tm → TimerRun Tm → List (TimerOp Tm)

def firing (r : TimerRun Tm) (t : Tm) (calls : List (TimerOp Tm)) : Firing Tm where
  timer := t
  timeoutTick := (r.timers.timer t).timeoutTick
  rtTick := r.timers.rtTick
  deadline := r.deadline t
  startNo := r.startNo t
  clock := r.clock
  periodic := (r.timers.timer t).flag.periodic
  calls := calls

def timeoutFunc (cb : Callback Tm) (t : Tm) (r : TimerRun Tm) : Exec (TimerRun Tm) :=
  let calls := cb t r
  calls.foldlM (fun r op => r.exec op) { r with fired := r.firing t calls :: r.fired }

def host (cb : Callback Tm) : TimerHost Tm (TimerRun Tm) where
  timers r := r.timers
  withTimers := withTimers
  start := start
  timeoutFunc := timeoutFunc cb
  timers_withTimers _ _ := rfl
  timers_start := by
    intro t r r' h
    simp only [start, exec_bind_ok, exec_pure_ok] at h
    obtain ⟨timers, hstart, rfl⟩ := h
    exact hstart

/-- `++ rt_tick`. -/
def ticked (r : TimerRun Tm) : TimerRun Tm :=
  { r with timers := r.timers.advance, clock := r.clock + 1 }

/-- The tick interrupt: `++ rt_tick`, then `rt_timer_check`. -/
def tick (cb : Callback Tm) (fuel : Nat) (r : TimerRun Tm) : Exec (TimerRun Tm) :=
  (host cb).rtTimerCheck fuel r.ticked

/-- One step of a run: a call, or a tick interrupt that returns. -/
inductive Step (cb : Callback Tm) : TimerRun Tm → TimerRun Tm → Prop where
  | call {r r' : TimerRun Tm} (op : TimerOp Tm) : r.exec op = .ok r' → Step cb r r'
  | tick {r r' : TimerRun Tm} (fuel : Nat) : r.tick cb fuel = .ok r' → Step cb r r'

/-- The calls of a run, with `none` for a tick interrupt. -/
def script (cb : Callback Tm) (events : List (Option (TimerOp Tm))) (r : TimerRun Tm) :
    Exec (TimerRun Tm) :=
  events.foldlM (fun r event =>
    match event with
    | some op => r.exec op
    | none => r.tick cb (Fintype.card Tm + 1)) r

/-- A run begins at any tick, with any timers, none of them started. -/
structure Initial (r : TimerRun Tm) : Prop where
  rtTick : r.timers.rtTick = BitVec.ofNat 32 r.clock
  linked : r.timers.Linked []
  starts : r.starts = 0
  stopped : ∀ t, (r.timers.timer t).flag.activated = false
  freed : ∀ t, (r.timers.timer t).freed = true → (r.timers.timer t).type = .null
  stale : ∀ t, r.stale t = false
  fired : r.fired = []
  cancelled : r.cancelled = []

abbrev Runs (cb : Callback Tm) : TimerRun Tm → TimerRun Tm → Prop :=
  Relation.ReflTransGen (Step cb)

theorem script_runs {cb : Callback Tm} {events : List (Option (TimerOp Tm))}
    {r r' : TimerRun Tm} (h : r.script cb events = .ok r') : Runs cb r r' := by
  unfold script at h
  induction events generalizing r with
  | nil =>
    simp only [List.foldlM_nil, exec_pure_ok] at h
    exact h ▸ .refl
  | cons event events ih =>
    simp only [List.foldlM_cons, exec_bind_ok] at h
    obtain ⟨r₁, hstep, hrest⟩ := h
    cases event with
    | some op => exact .head (.call op hstep) (ih hrest)
    | none => exact .head (.tick _ hstep) (ih hrest)

end TimerRun

end PandoraRobot.Kernel
