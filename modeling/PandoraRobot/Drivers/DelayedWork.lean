import PandoraRobot.Drivers.Status
import PandoraRobot.Drivers.Workqueue
import PandoraRobot.Kernel.TimerSorted
import PandoraRobot.Lib.SoloRun

/-! # Delayed works

`rt_workqueue_submit_work` and `rt_workqueue_cancel_work` of `workqueue.c` for works that
`rt_delayed_work_init` has initialized, with the timers of `timer.c` that submit them later.

Both go from one test of the work's fields to the next with interrupts enabled, so each test is
one step, and each region with interrupts disabled is one.  So is the timer interrupt, as the
timers are hard timers in this configuration.  Timers that belong to no work are left out.
-/

namespace PandoraRobot.Drivers

open PandoraRobot.Kernel PandoraRobot.RingList PandoraRobot.SoloRun PandoraRobot.Trace

/-- `EINVAL`. -/
def einval : Int := 22

/-- What a delayed work is submitted with. -/
structure Submission (Q W : Type) where
  queue : Q
  work : W
  ticks : Tick
  deriving DecidableEq, Repr

/-- Where a caller is in `_workqueue_cancel_delayed_work`. -/
inductive CancelPlace where
  /-- at the test of the work's queue -/
  | workqueue
  /-- at the test of `RT_WORK_STATE_PENDING` -/
  | pending
  /-- at the test of `RT_WORK_STATE_SUBMITTING` -/
  | submitting
  /-- at the region that stops the timer -/
  | stop
  /-- at the region that detaches the work from its queue -/
  | detach
  deriving DecidableEq, Repr

/-- Where a caller is. -/
inductive DelayedPlace (Q W : Type) where
  | outside
  /-- in `_workqueue_submit_delayed_work`, at the test for another queue -/
  | otherQueue (call : Submission Q W)
  /-- at the test for the same queue -/
  | sameQueue (call : Submission Q W)
  /-- in `_workqueue_cancel_delayed_work`, for a submission or for `rt_workqueue_cancel_work`;
      it has been called by itself `depth` times -/
  | cancel (work : W) (call : Option (Submission Q W)) (place : CancelPlace) (depth : Nat)
  /-- at the region that attaches the queue -/
  | attach (call : Submission Q W)
  /-- at `_workqueue_submit_work` -/
  | submitWork (call : Submission Q W)
  /-- at the region that initializes the timer -/
  | initTimer (call : Submission Q W)
  /-- at `rt_timer_start` -/
  | startTimer (call : Submission Q W)
  /-- in `_workqueue_submit_work`, behind its region -/
  | resume
  deriving DecidableEq, Repr

/-- Work queues, delayed works and those who submit and cancel them. -/
structure DelayedWorks (Q W T : Type) where
  /-- The timer interrupt is the caller `none`. -/
  queues : Workqueues Q W (Option T)
  timers : Timers W
  workqueue : W → Option Q
  /-- `RT_WORK_STATE_SUBMITTING` of the work's flags -/
  submitting : W → Bool
  place : T → DelayedPlace Q W

/-- What happens next. -/
inductive DelayedEvent (Q W T : Type) where
  /-- `rt_workqueue_submit_work` is called. -/
  | submit (caller : T) (call : Submission Q W)
  /-- `rt_workqueue_cancel_work` is called. -/
  | cancel (caller : T) (work : W)
  /-- the caller goes on -/
  | goOn (caller : T)
  /-- the worker goes on -/
  | worker (queue : Q)
  /-- the timer interrupt -/
  | tick
  deriving DecidableEq, Repr

namespace DelayedPlace

variable {Q W : Type}

/-- The work that a caller at this place is about. -/
def about : DelayedPlace Q W → Option W
  | .outside | .resume => none
  | .otherQueue call | .sameQueue call | .attach call | .submitWork call | .initTimer call
  | .startTimer call => some call.work
  | .cancel work _ _ _ => some work

/-- The work of `rt_workqueue_cancel_work`. -/
def cancelled : DelayedPlace Q W → Option W
  | .cancel work none _ _ => some work
  | _ => none

theorem cancelled_cancel {work : W} {call : Option (Submission Q W)} {place place' : CancelPlace}
    {depth depth' : Nat} :
    (cancel work call place depth).cancelled = (cancel work call place' depth').cancelled := by
  cases call <;> rfl

end DelayedPlace

namespace DelayedWorks

variable {Q W T : Type}
variable (s : DelayedWorks Q W T)

/-- Works that `rt_delayed_work_init` has initialized, at any tick. -/
def start (rtTick : Tick) : DelayedWorks Q W T where
  queues := .start
  timers := { rtTick, rtTimerList := ⟨id, id⟩, timer := fun _ => {} }
  workqueue _ := none
  submitting _ := false
  place _ := .outside

section

variable [DecidableEq Q] [DecidableEq W] [DecidableEq T] [Fintype W]

/-- A caller goes to a place. -/
def goTo (caller : T) (place : DelayedPlace Q W) : DelayedWorks Q W T :=
  { s with place := Function.update s.place caller place }

/-- A caller returns. -/
def leave (caller : T) (result : Int) : DelayedWorks Q W T × Option Int :=
  (s.goTo caller .outside, some result)

/-- `_workqueue_submit_work` of a work to its own queue, until it enables interrupts. -/
def workqueueSubmitWork (caller : Option T) (work : W) : Exec (DelayedWorks Q W T) :=
  match s.workqueue work with
  | some queue => pure { s with queues := (s.queues.workqueueSubmitWork caller queue work).1 }
  -- it is `queue->work_current` that cannot be read
  | none => if s.queues.pending work = true then pure s else throw .wildPointer

/-- `rt_timer_stop` and `rt_timer_detach`, and `RT_WORK_STATE_SUBMITTING` is cleared. -/
def stopTimer (work : W) : Exec (DelayedWorks Q W T) := do
  let (timers, _) ← s.timers.rtTimerStop work
  let timers ← timers.rtTimerDetach work
  pure { s with timers, submitting := Function.update s.submitting work false }

/-- `_workqueue_cancel_delayed_work`, from one place to the next. -/
def workqueueCancelDelayedWork (caller : T) (work : W) (call : Option (Submission Q W))
    (depth : Nat) : CancelPlace → Exec (DelayedWorks Q W T × Option Int)
  | .workqueue =>
    -- those it has been called by return the error, too
    if s.workqueue work = none then pure (s.leave caller (-einval))
    else pure (s.goTo caller (.cancel work call .pending depth), none)
  | .pending =>
    if s.queues.pending work = true then do
      -- `rt_workqueue_cancel_work`: the type of the work is `RT_WORK_TYPE_DELAYED`
      rtAssert (s.workqueue work ≠ none)
      pure (s.goTo caller (.cancel work call .workqueue (depth + 1)), none)
    else pure (s.goTo caller (.cancel work call .submitting depth), none)
  | .submitting =>
    if s.submitting work = true then pure (s.goTo caller (.cancel work call .stop depth), none)
    else pure (s.goTo caller (.cancel work call .detach depth), none)
  | .stop => do
    let s ← s.stopTimer work
    pure (s.goTo caller (.cancel work call .detach depth), none)
  | .detach =>
    let s := { s with
      workqueue := Function.update s.workqueue work none
      queues := { s.queues with pending := Function.update s.queues.pending work false } }
    match depth, call with
    | depth + 1, call => pure (s.goTo caller (.cancel work call .detach depth), none)
    | 0, some call => pure (s.goTo caller (.attach call), none)
    | 0, none => pure (s.leave caller rtEok)

/-- `_workqueue_submit_delayed_work` and `_workqueue_cancel_delayed_work`, from where the caller
    is to its next place, or to its return. -/
def goOn (caller : T) : Exec (DelayedWorks Q W T × Option Int) :=
  match s.place caller with
  | .outside => pure (s, none)
  | .otherQueue call =>
    -- a work cannot be active in multiple queues
    if s.workqueue call.work ≠ none ∧ s.workqueue call.work ≠ some call.queue then
      pure (s.leave caller (-rtEinval))
    else pure (s.goTo caller (.sameQueue call), none)
  | .sameQueue call =>
    if s.workqueue call.work = some call.queue then
      pure (s.goTo caller (.cancel call.work (some call) .workqueue 0), none)
    else pure (s.goTo caller (.attach call), none)
  | .cancel work call place depth => s.workqueueCancelDelayedWork caller work call depth place
  | .attach call =>
    let s := { s with workqueue := Function.update s.workqueue call.work (some call.queue) }
    if call.ticks = 0 then pure (s.goTo caller (.submitWork call), none)
    else pure (s.goTo caller (.initTimer call), none)
  | .submitWork call => do
    -- its result is not looked at
    let s ← s.workqueueSubmitWork (some caller) call.work
    pure (s.goTo caller .resume, none)
  | .initTimer call => do
    let timers ← s.timers.rtTimerInit call.work call.ticks {}
    let s := { s with timers, submitting := Function.update s.submitting call.work true }
    pure (s.goTo caller (.startTimer call), none)
  | .startTimer call => do
    let timers ← s.timers.rtTimerStart call.work
    pure ({ s with timers }.leave caller rtEok)
  | .resume =>
    if s.queues.caller (some caller) = .outside then pure (s.leave caller rtEok)
    else pure ({ s with queues := (s.queues.goOn (some caller)).1 }, none)

/-- `_delayed_work_timeout_handler`. -/
def delayedWorkTimeoutHandler (work : W) : Exec (DelayedWorks Q W T) := do
  let s ← s.stopTimer work
  let s ← s.workqueueSubmitWork none work
  -- `rt_thread_resume` of the worker, if it has to be resumed
  pure { s with queues := ((s.queues.goOn none).1.goOn none).1 }

/-- The works' timers. -/
def host : TimerHost W (DelayedWorks Q W T) where
  timers s := s.timers
  withTimers f s := { s with timers := f s.timers }
  start work s := do
    let timers ← s.timers.rtTimerStart work
    pure { s with timers }
  timeoutFunc work s := s.delayedWorkTimeoutHandler work
  timers_withTimers _ _ := rfl
  timers_start := by
    intro work s s' h
    simp only [exec_bind_ok, exec_pure_ok] at h
    obtain ⟨timers, hstart, rfl⟩ := h
    exact hstart

/-- The timer interrupt: `++ rt_tick`, then `rt_timer_check`. -/
def tick : Exec (DelayedWorks Q W T) :=
  host.rtTimerCheck (Fintype.card W + 1) { s with timers := s.timers.advance }

/-- The next event.  A caller does one thing after the other. -/
def step : DelayedEvent Q W T → DelayedWorks Q W T → Exec (DelayedWorks Q W T × Option Int)
  | .submit caller call, s =>
    pure (if s.place caller = .outside then s.goTo caller (.otherQueue call) else s, none)
  | .cancel caller work, s =>
    pure (if s.place caller = .outside then s.goTo caller (.cancel work none .workqueue 0) else s,
      none)
  | .goOn caller, s => s.goOn caller
  | .worker queue, s => do
    let (queues, _) ← s.queues.workqueueThreadEntry queue
    pure ({ s with queues }, none)
  | .tick, s => do
    let s ← s.tick
    pure (s, none)

/-! ## What is meant -/

/-- The work is in no work list, and its timer is not running. -/
def Withdrawn (work : W) : Prop :=
  s.queues.links.next (.inr work) = .inr work ∧ s.timers.rtTimerList.next (.inr work) = .inr work

/-- The caller, going on alone, returns; and if it has cancelled a work with `RT_EOK`, the work is
    withdrawn. -/
def Returning (caller : T) : Prop :=
  ∃ result s', Returns (fun s => s.goOn caller) s result s' ∧
    ∀ work, (s.place caller).cancelled = some work → result = rtEok → s'.Withdrawn work

/-- After the event, whoever is in a call returns from it as he should. -/
def Right (event : DelayedEvent Q W T) (s : DelayedWorks Q W T) : Prop :=
  ∀ s' output, step event s = .ok (s', output) → ∀ caller, s'.place caller ≠ .outside →
    s'.Returning caller

end

/-- No caller is about the work. -/
def Free (work : W) : Prop := ∀ caller, (s.place caller).about ≠ some work

/-- A call begins when no other one is about its work.  A work that is pending is not cancelled, and
    not submitted to its own queue.  What is submitted has less than `RT_TICK_MAX / 2` ticks to go.
    In the timer interrupt, no call is about a work whose timer is due. -/
def Meets : DelayedEvent Q W T → DelayedWorks Q W T → Prop
  | .submit caller call, s => s.place caller = .outside →
    s.Free call.work ∧
      (s.workqueue call.work = none ∨ s.workqueue call.work = some call.queue →
        call.ticks.toNat < rtTickMaxHalf ∧ s.queues.pending call.work = false)
  | .cancel caller work, s => s.place caller = .outside →
    s.Free work ∧ (s.workqueue work ≠ none → s.queues.pending work = false)
  | .tick, s => ∀ work, s.timers.rtTimerList.next (.inr work) ≠ .inr work →
    s.timers.due (s.timers.rtTick + 1) work = true → s.Free work
  | _, _ => True

/-! ## What holds of the works -/

/-- What holds of a work. -/
structure WorkInv (work : W) : Prop where
  type : (s.timers.timer work).type = if s.submitting work = true then .static else .null
  freed : (s.timers.timer work).freed = false
  oneshot : (s.timers.timer work).flag.periodic = false
  attached : s.queues.pending work = true ∨ s.submitting work = true → s.workqueue work ≠ none
  exclusive : s.queues.pending work = true → s.submitting work = false

/-- What holds of the work that a caller is about. -/
def At : DelayedPlace Q W → Prop
  | .outside | .resume => True
  | .otherQueue call =>
    s.workqueue call.work = none ∨ s.workqueue call.work = some call.queue →
      call.ticks.toNat < rtTickMaxHalf ∧ s.queues.pending call.work = false
  | .sameQueue call =>
    (s.workqueue call.work = none ∨ s.workqueue call.work = some call.queue) ∧
      call.ticks.toNat < rtTickMaxHalf ∧ s.queues.pending call.work = false
  | .cancel work call place depth =>
    depth = 0 ∧ s.queues.pending work = false ∧
      (∀ submission ∈ call, submission.work = work ∧ submission.ticks.toNat < rtTickMaxHalf) ∧
      (place = .stop → s.submitting work = true) ∧ (place = .detach → s.submitting work = false)
  | .attach call =>
    call.ticks.toNat < rtTickMaxHalf ∧ s.queues.pending call.work = false ∧
      s.submitting call.work = false
  | .submitWork call =>
    s.workqueue call.work ≠ none ∧ s.queues.pending call.work = false ∧
      s.submitting call.work = false
  | .initTimer call =>
    call.ticks.toNat < rtTickMaxHalf ∧ s.workqueue call.work ≠ none ∧
      s.queues.pending call.work = false ∧ s.submitting call.work = false
  | .startTimer call =>
    s.submitting call.work = true ∧ (s.timers.timer call.work).initTick.toNat < rtTickMaxHalf

/-- The lists, the works and the callers, when `xs` are the timers that run. -/
structure Inv (xs : List W) : Prop where
  matched : s.queues.Matched
  linked : s.timers.Linked xs
  running : ∀ work ∈ xs, s.submitting work = true
  works : ∀ work, s.WorkInv work
  places : ∀ caller, s.At (s.place caller)
  alone : ∀ caller other work, (s.place caller).about = some work →
    (s.place other).about = some work → caller = other
  resume : ∀ caller, s.queues.caller (some caller) ≠ .outside → s.place caller = .resume
  interrupt : s.queues.caller none = .outside
  sync : ∀ caller work, s.queues.caller caller ≠ .cancelSync work

/-- Nothing has happened to a work, except that the worker may have taken it. -/
structure Same (s s' : DelayedWorks Q W T) (work : W) : Prop where
  workqueue : s'.workqueue work = s.workqueue work
  submitting : s'.submitting work = s.submitting work
  timer : s'.timers.timer work = s.timers.timer work
  pending : s'.queues.pending work = true → s.queues.pending work = true

variable {s} {s' : DelayedWorks Q W T} {xs xs' : List W} {caller : T} {work : W}
  {place : DelayedPlace Q W} {queue : Q}

section

variable [DecidableEq T]

@[simp] theorem goTo_queues : (s.goTo caller place).queues = s.queues := rfl
@[simp] theorem goTo_timers : (s.goTo caller place).timers = s.timers := rfl
@[simp] theorem goTo_workqueue : (s.goTo caller place).workqueue = s.workqueue := rfl
@[simp] theorem goTo_submitting : (s.goTo caller place).submitting = s.submitting := rfl
@[simp] theorem goTo_place : (s.goTo caller place).place caller = place := Function.update_self ..

end

theorem start_inv (rtTick : Tick) : (start rtTick : DelayedWorks Q W T).Inv [] where
  matched := Workqueues.start_matched
  linked := holds_empty
  running := by simp
  works work := ⟨rfl, rfl, rfl, by simp [start, Workqueues.start], by simp [start]⟩
  places _ := trivial
  alone _ _ _ h := by simp [start, DelayedPlace.about] at h
  resume _ h := absurd rfl h
  interrupt := rfl
  sync _ _ := by simp [start, Workqueues.start]

theorem Same.clear (h : Same s s' work) (hclear : s.queues.pending work = false) :
    s'.queues.pending work = false := by
  have := h.pending
  simp_all

theorem WorkInv.same (h : s.WorkInv work) (hsame : Same s s' work) : s'.WorkInv work where
  type := by rw [hsame.timer, hsame.submitting, h.type]
  freed := by rw [hsame.timer, h.freed]
  oneshot := by rw [hsame.timer, h.oneshot]
  attached hset := by
    rw [hsame.workqueue]
    rw [hsame.submitting] at hset
    exact h.attached (hset.imp_left hsame.pending)
  exclusive hset := by
    rw [hsame.submitting]
    exact h.exclusive (hsame.pending hset)

/-- What holds at a place is about the work of the call. -/
theorem At.same (h : s.At place) (hsame : ∀ work, place.about = some work → Same s s' work) :
    s'.At place := by
  cases place with
  | outside => trivial
  | resume => trivial
  | otherQueue call =>
    have hcall := hsame call.work rfl
    simp only [At, hcall.workqueue] at h ⊢
    exact fun hqueue => ⟨(h hqueue).1, hcall.clear (h hqueue).2⟩
  | sameQueue call =>
    have hcall := hsame call.work rfl
    simp only [At, hcall.workqueue] at h ⊢
    exact ⟨h.1, h.2.1, hcall.clear h.2.2⟩
  | cancel work call place depth =>
    have hcall := hsame work rfl
    simp only [At, hcall.submitting] at h ⊢
    exact ⟨h.1, hcall.clear h.2.1, h.2.2⟩
  | attach call =>
    have hcall := hsame call.work rfl
    simp only [At, hcall.submitting] at h ⊢
    exact ⟨h.1, hcall.clear h.2.1, h.2.2⟩
  | submitWork call =>
    have hcall := hsame call.work rfl
    simp only [At, hcall.submitting, hcall.workqueue] at h ⊢
    exact ⟨h.1, hcall.clear h.2.1, h.2.2⟩
  | initTimer call =>
    have hcall := hsame call.work rfl
    simp only [At, hcall.submitting, hcall.workqueue] at h ⊢
    exact ⟨h.1, h.2.1, hcall.clear h.2.2.1, h.2.2.2⟩
  | startTimer call =>
    have hcall := hsame call.work rfl
    simpa only [At, hcall.submitting, hcall.timer] using h

/-! ## The queues -/

section Queues

variable [DecidableEq Q] [DecidableEq W] [DecidableEq T] [Fintype W]
  {q q' : Workqueues Q W (Option T)} {c other : Option T}

theorem submitWork_matched (h : q.Matched) (hc : q.caller c = .outside) :
    (q.workqueueSubmitWork c queue work).1.Matched := by
  have hstep : Workqueues.step (.dowork c queue work) q =
      .ok (q.workqueueSubmitWork c queue work) := by
    simp [Workqueues.step, hc, pure, Except.pure]
  have hmeets : Workqueues.FlagMeets (.dowork c queue work) q := trivial
  exact h.step hmeets (Workqueues.step_cases hstep)

section

omit [Fintype W]

theorem submitWork_pending {work' : W} (hw : work' ≠ work) :
    (q.workqueueSubmitWork c queue work).1.pending work' = q.pending work' := by
  unfold Workqueues.workqueueSubmitWork
  split_ifs
  · rfl
  · rfl
  · exact Function.update_of_ne hw _ _

/-- The caller is going to resume the worker, or is through. -/
theorem submitWork_caller (other : Option T) :
    (q.workqueueSubmitWork c queue work).1.caller other = q.caller other ∨
      other = c ∧ (q.workqueueSubmitWork c queue work).1.caller other = .resume queue := by
  unfold Workqueues.workqueueSubmitWork Workqueues.linkWork
  split_ifs
  · exact .inl rfl
  · exact .inl rfl
  · by_cases hother : other = c
    · rw [hother]
      exact .inr ⟨rfl, Function.update_self ..⟩
    · exact .inl (Function.update_of_ne hother _ _)
  · exact .inl rfl

end

theorem goOn_matched (h : q.Matched) (hsync : ∀ work, q.caller c ≠ .cancelSync work) :
    (q.goOn c).1.Matched := by
  have hstep : Workqueues.step (.goOn c) q = .ok (q.goOn c) := rfl
  have hmeets : Workqueues.FlagMeets (.goOn c) q := fun work hwork => absurd hwork (hsync work)
  exact h.step hmeets (Workqueues.step_cases hstep)

section

omit [Fintype W]

theorem goOn_pending (hsync : ∀ work, q.caller c ≠ .cancelSync work) :
    (q.goOn c).1.pending = q.pending := by
  unfold Workqueues.goOn
  cases hc : q.caller c with
  | outside => rfl
  | resume queue =>
    dsimp only
    split_ifs <;> rfl
  | resuming queue => rfl
  | cancelSync work => exact absurd hc (hsync work)

theorem goOn_caller_of_ne (hother : other ≠ c) : (q.goOn c).1.caller other = q.caller other := by
  unfold Workqueues.goOn
  cases q.caller c with
  | outside => rfl
  | resume queue =>
    dsimp only
    split_ifs
    · exact Function.update_of_ne hother _ _
    · exact Function.update_of_ne hother _ _
  | resuming queue => exact Function.update_of_ne hother _ _
  | cancelSync work => exact Function.update_of_ne hother _ _

/-- How many steps it takes to resume the worker. -/
def resumeLeft : CallerPlace Q W → Nat
  | .resume _ => 2
  | .resuming _ => 1
  | .outside | .cancelSync _ => 0

theorem goOn_caller : (q.goOn c).1.caller c = .outside ∨
    (∃ queue, (q.goOn c).1.caller c = .resuming queue) ∧ resumeLeft (q.caller c) = 2 := by
  unfold Workqueues.goOn
  cases hc : q.caller c with
  | outside => exact .inl hc
  | resume queue =>
    dsimp only
    split_ifs
    · exact .inr ⟨⟨queue, Function.update_self ..⟩, rfl⟩
    · exact .inl (Function.update_self ..)
  | resuming queue => exact .inl (Function.update_self ..)
  | cancelSync work => exact .inl (Function.update_self ..)

end

/-- `_workqueue_submit_work` in the timer interrupt, to its end. -/
theorem interrupt_submits (hmatched : q.Matched) (hout : q.caller none = .outside)
    (hq' : q' = (((q.workqueueSubmitWork none queue work).1.goOn none).1.goOn none).1) :
    q'.Matched ∧ q'.caller = q.caller ∧
      ∀ other, other ≠ work → q'.pending other = q.pending other := by
  obtain ⟨q₁, hq₁⟩ : ∃ q₁, q₁ = (q.workqueueSubmitWork none queue work).1 := ⟨_, rfl⟩
  obtain ⟨q₂, hq₂⟩ : ∃ q₂, q₂ = (q₁.goOn none).1 := ⟨_, rfl⟩
  rw [← hq₁, ← hq₂] at hq'
  have hmatched₁ : q₁.Matched := hq₁ ▸ submitWork_matched hmatched hout
  have hsync₁ : ∀ work, q₁.caller none ≠ .cancelSync work := by
    intro work'
    obtain hsame | ⟨-, hresume⟩ : q₁.caller none = q.caller none ∨
        none = none ∧ q₁.caller none = .resume queue := hq₁ ▸ submitWork_caller none
    · rw [hsame, hout]
      simp
    · rw [hresume]
      simp
  have hcaller₂ := goOn_caller (q := q₁) (c := none)
  rw [← hq₂] at hcaller₂
  have hsync₂ : ∀ work, q₂.caller none ≠ .cancelSync work := by
    intro work'
    obtain hend | ⟨⟨queue', hresuming⟩, -⟩ := hcaller₂
    · simp [hend]
    · simp [hresuming]
  have hcaller' : q'.caller none = .outside := by
    obtain hend | ⟨-, htwo⟩ := goOn_caller (q := q₂) (c := none)
    · rw [hq', hend]
    · obtain hend | ⟨⟨queue', hresuming⟩, -⟩ := hcaller₂
      · simp [hend, resumeLeft] at htwo
      · simp [hresuming, resumeLeft] at htwo
  refine ⟨?_, funext fun other => ?_, fun other hother => ?_⟩
  · rw [hq']
    exact goOn_matched (hq₂ ▸ goOn_matched hmatched₁ hsync₁) hsync₂
  · cases other with
    | none => rw [hcaller', hout]
    | some other =>
      rw [hq', goOn_caller_of_ne (by simp), hq₂, goOn_caller_of_ne (by simp), hq₁]
      exact (submitWork_caller (some other)).resolve_right fun hsame => by simp at hsame
  · rw [hq', goOn_pending hsync₂, hq₂, goOn_pending hsync₁, hq₁, submitWork_pending hother]

/-- The worker submits nothing, and moves no caller. -/
theorem worker_kept {output : WorkOutput W} (h : q.workqueueThreadEntry queue = .ok (q', output)) :
    q'.caller = q.caller ∧ ∀ work, q'.pending work = true → q.pending work = true := by
  have hstep := Workqueues.workqueueThreadEntry_cases h
  cases hstep with
  | take queue work hplace hnext =>
    refine ⟨rfl, fun work' hset => ?_⟩
    by_cases hw : work' = work
    · rw [hw] at hset
      simp at hset
    · simpa [Function.update_of_ne hw] using hset
  | testEmpty | testSome | suspend | wake | call | clear | completion =>
    exact ⟨rfl, fun _ hset => hset⟩
  | sleep => exact ⟨rfl, fun _ hset => hset⟩
  | refused _ _ hworker => exact absurd rfl (hworker queue)
  | cancelWork _ _ _ hevent => simp at hevent

end Queues

/-! ## The timers -/

section Timers

variable [DecidableEq W] {timers : Timers W}

/-- A timer is no longer registered, and does not run. -/
structure Unregistered (timers : Timers W) (work : W) (timers' : Timers W) : Prop where
  rtTick : timers'.rtTick = timers.rtTick
  others : ∀ other, other ≠ work → timers'.timer other = timers.timer other
  type : (timers'.timer work).type = .null
  freed : (timers'.timer work).freed = (timers.timer work).freed
  oneshot : (timers'.timer work).flag.periodic = (timers.timer work).flag.periodic

theorem stop_detach (hlinked : timers.Linked xs) (htype : (timers.timer work).type = .static) :
    ∃ stopped err timers', timers.rtTimerStop work = .ok (stopped, err) ∧
      stopped.rtTimerDetach work = .ok timers' ∧ timers'.Linked (xs.erase work) ∧
      Unregistered timers work timers' := by
  have hnull : (timers.timer work).type ≠ .null := by simp [htype]
  have herase : (xs.erase work).erase work = xs.erase work :=
    List.erase_of_not_mem hlinked.nodup.not_mem_erase
  by_cases hactive : (timers.timer work).flag.activated = false
  · refine ⟨timers, .error, (timers.rtTimerRemove work).modifyTimer work
      fun timer => { timer with type := .null }, ?_, ?_, hlinked.remove work, rfl, ?_, ?_, ?_, ?_⟩
    · simp [Timers.rtTimerStop, rtAssert, hnull, hactive, pure, Except.pure, bind, Except.bind]
    · simp [Timers.rtTimerDetach, rtAssert, htype, rtObjectIsSystemobject, pure, Except.pure, bind,
        Except.bind]
    · exact fun other hother => by simp [hother]
    · simp
    · simp
    · simp
  · refine ⟨(timers.rtTimerRemove work).setActivated work false, .eok,
      (((timers.rtTimerRemove work).setActivated work false).rtTimerRemove work).modifyTimer work
        fun timer => { timer with type := .null }, ?_, ?_, ?_, rfl, ?_, ?_, ?_, ?_⟩
    · simp [Timers.rtTimerStop, rtAssert, hnull, hactive, pure, Except.pure, bind, Except.bind]
    · simp [Timers.rtTimerDetach, rtAssert, htype, rtObjectIsSystemobject, pure, Except.pure, bind,
        Except.bind]
    · rw [← herase]
      exact (hlinked.remove work).remove work
    · exact fun other hother => by simp [hother]
    · simp
    · simp
    · simp

variable (s) in
theorem stopTimer_stops (hlinked : s.timers.Linked xs)
    (htype : (s.timers.timer work).type = .static) :
    ∃ timers, s.stopTimer work = .ok { s with
        timers, submitting := Function.update s.submitting work false } ∧
      timers.Linked (xs.erase work) ∧ Unregistered s.timers work timers := by
  obtain ⟨stopped, err, timers, hstop, hdetach, hkept⟩ := stop_detach hlinked htype
  refine ⟨timers, ?_, hkept⟩
  simp only [stopTimer, hstop, bind, Except.bind, hdetach]
  rfl

/-- `rt_timer_init` of a timer that is not registered. -/
theorem init_registers (ticks : Tick) (hlinked : timers.Linked xs) (hwork : work ∉ xs)
    (htype : (timers.timer work).type = .null) (hfreed : (timers.timer work).freed = false) :
    ∃ timers', timers.rtTimerInit work ticks {} = .ok timers' ∧ timers'.Linked xs ∧
      (∀ other, other ≠ work → timers'.timer other = timers.timer other) ∧
      timers'.timer work = { type := .static, initTick := ticks } := by
  refine ⟨((timers.modifyTimer work fun timer => { timer with type := .static }).rtTimerInitFields
    work ticks {}), ?_, ?_, ?_, ?_⟩
  · simp [Timers.rtTimerInit, rtAssert, htype, hfreed, pure, Except.pure, bind, Except.bind]
  · have hself : timers.rtTimerList.initNode (.inr work) = timers.rtTimerList :=
      RingList.Holds.initNode hlinked fun _ => hwork
    change RingList.Holds (timers.rtTimerList.initNode (.inr work)) _
    rw [hself]
    exact hlinked
  · intro other hother
    simp [Timers.rtTimerInitFields, hother]
  · simp [Timers.rtTimerInitFields, hfreed]

end Timers

end DelayedWorks

end PandoraRobot.Drivers
