import Mathlib.Data.Fintype.Card
import PandoraRobot.Kernel.Device

/-! # Work queues

The worker thread of `workqueue.c`, and `rt_workqueue_dowork`, `rt_workqueue_critical_work`,
`rt_workqueue_cancel_work`, `rt_workqueue_cancel_work_sync` and `rt_workqueue_cancel_all_work` as
the threads and interrupts of the system call them.  The works are plain ones: a delayed work is
submitted by its timer.

A stretch of code with interrupts disabled is one step, and so is a stretch between two of them.
-/

namespace PandoraRobot.Drivers

open PandoraRobot.Kernel PandoraRobot.RingList PandoraRobot.Trace

/-! ## The code -/

/-- Where the worker is in `_workqueue_thread_entry`. -/
inductive WorkerPlace (W : Type) where
  /-- at the test of the list -/
  | test
  /-- the list was empty: at `rt_thread_suspend` -/
  | suspend
  /-- behind it, at `rt_schedule` -/
  | schedule
  /-- at the region that takes the first work -/
  | take
  /-- at the call of the work's function -/
  | call (work : W)
  /-- in the function, or at the region that clears `work_current` -/
  | clear (work : W)
  /-- at `_workqueue_work_completion` -/
  | completion
  deriving DecidableEq, Repr

/-- A worker thread. -/
structure Worker (W : Type) where
  place : WorkerPlace W
  /-- its state is `RT_THREAD_SUSPEND` -/
  suspended : Bool
  deriving DecidableEq, Repr

/-- Where a caller is. -/
inductive CallerPlace (Q W : Type) where
  | outside
  /-- at `rt_thread_resume` of the worker -/
  | resume (queue : Q)
  /-- in it: the worker was found suspended -/
  | resuming (queue : Q)
  /-- in `rt_workqueue_cancel_work_sync`, behind the semaphore -/
  | cancelSync (work : W)
  deriving DecidableEq, Repr

/-- Work queues, their works and those who call their functions. -/
structure Workqueues (Q W T : Type) where
  /-- the `work_list` of the queues and the `list` of the works -/
  links : Links (Q ⊕ W)
  workCurrent : Q → Option W
  /-- `RT_WORK_STATE_PENDING` of the work's flags -/
  pending : W → Bool
  worker : Q → Worker W
  caller : T → CallerPlace Q W

/-- What happens next. -/
inductive WorkEvent (Q W T : Type) where
  /-- the worker goes on -/
  | worker (queue : Q)
  /-- `_workqueue_submit_work`, until it enables interrupts -/
  | dowork (caller : T) (queue : Q) (work : W)
  /-- `rt_workqueue_critical_work`, until it enables interrupts -/
  | criticalWork (caller : T) (queue : Q) (work : W)
  /-- `_workqueue_cancel_work` -/
  | cancelWork (queue : Q) (work : W)
  /-- `rt_workqueue_cancel_work_sync`, until it waits -/
  | cancelWorkSync (caller : T) (queue : Q) (work : W)
  /-- `rt_workqueue_cancel_all_work` -/
  | cancelAllWork (queue : Q)
  /-- the caller goes on -/
  | goOn (caller : T)
  deriving DecidableEq, Repr

/-- What comes of it. -/
inductive WorkOutput (W : Type) where
  | none
  /-- A work's function is called. -/
  | called (work : W)
  | returned (result : Int)
  deriving DecidableEq, Repr

namespace Workqueues

variable {Q W T : Type} [DecidableEq Q] [DecidableEq W] [DecidableEq T] [Fintype W]
variable (s : Workqueues Q W T)

/-- Work queues that have just been created, and initialized works. -/
def start : Workqueues Q W T where
  links := ⟨id, id⟩
  workCurrent _ := .none
  pending _ := false
  worker _ := ⟨.test, false⟩
  caller _ := .outside

/-- The worker of a queue changes. -/
def setWorker (queue : Q) (place : WorkerPlace W) (suspended : Bool) : Workqueues Q W T :=
  { s with worker := Function.update s.worker queue ⟨place, suspended⟩ }

/-- A caller changes its place. -/
def setCaller (caller : T) (place : CallerPlace Q W) : Workqueues Q W T :=
  { s with caller := Function.update s.caller caller place }

/-- `_workqueue_thread_entry`, from where the worker is to its next place. -/
def workqueueThreadEntry (queue : Q) : Exec (Workqueues Q W T × WorkOutput W) :=
  match (s.worker queue).place with
  | .test =>
    if rtListIsempty (.inl queue) s.links = true then pure (s.setWorker queue .suspend false, .none)
    else pure (s.setWorker queue .take false, .none)
  | .suspend => pure (s.setWorker queue .schedule true, .none)
  | .schedule =>
    if (s.worker queue).suspended = true then pure (s, .none)
    else pure (s.setWorker queue .take false, .none)
  | .take =>
    match s.links.next (.inl queue) with
    -- the list head is taken for a work
    | .inl _ => .error .wildPointer
    | .inr work =>
      pure ({ s.setWorker queue (.call work) false with
        links := rtListRemove (.inr work) s.links
        workCurrent := Function.update s.workCurrent queue (some work)
        pending := Function.update s.pending work false }, .none)
  | .call work => pure (s.setWorker queue (.clear work) false, .called work)
  | .clear _ =>
    pure ({ s.setWorker queue .completion false with
      workCurrent := Function.update s.workCurrent queue .none }, .none)
  | .completion => pure (s.setWorker queue .test false, .none)

/-- A work is linked at the end of the list.  The worker is to be resumed if it has no work. -/
def linkWork (caller : T) (queue : Q) (work : W) : Workqueues Q W T :=
  let removed := rtListRemove (.inr work) s.links
  { s with
    links := rtListInsertAfter (removed.prev (.inl queue)) (.inr work) removed
    caller := if s.workCurrent queue = .none then
      Function.update s.caller caller (.resume queue) else s.caller }

/-- `_workqueue_submit_work`, until it enables interrupts. -/
def workqueueSubmitWork (caller : T) (queue : Q) (work : W) : Workqueues Q W T × WorkOutput W :=
  if s.pending work = true then (s, .returned (-rtEbusy))
  else if s.workCurrent queue = some work then (s, .returned (-rtEbusy))
  else
    ({ s.linkWork caller queue work with pending := Function.update s.pending work true },
      .returned rtEok)

/-- `rt_workqueue_critical_work`, until it enables interrupts. -/
def rtWorkqueueCriticalWork (caller : T) (queue : Q) (work : W) :
    Workqueues Q W T × WorkOutput W :=
  if s.workCurrent queue = some work then (s, .returned (-rtEbusy))
  else (s.linkWork caller queue work, .returned rtEok)

/-- `_workqueue_cancel_work`. -/
def workqueueCancelWork (queue : Q) (work : W) : Workqueues Q W T × WorkOutput W :=
  if s.workCurrent queue = some work then (s, .returned (-rtEbusy))
  else
    ({ s with
      links := rtListRemove (.inr work) s.links
      pending := Function.update s.pending work false }, .returned rtEok)

/-- `rt_workqueue_cancel_work_sync`.  Of a current work, it waits for the completion. -/
def rtWorkqueueCancelWorkSync (caller : T) (queue : Q) (work : W) :
    Workqueues Q W T × WorkOutput W :=
  if s.workCurrent queue = some work then (s.setCaller caller (.cancelSync work), .none)
  else
    ({ s with
      links := rtListRemove (.inr work) s.links
      pending := Function.update s.pending work false }, .returned rtEok)

/-- The loop of `rt_workqueue_cancel_all_work`. -/
def cancelAllLoop (queue : Q) : Nat → Q ⊕ W → Links (Q ⊕ W) → Exec (Links (Q ⊕ W))
  | 0, _, _ => .error .outOfFuel
  | fuel + 1, node, links =>
    if node = .inl queue then pure links
    else cancelAllLoop queue fuel (links.next node) (rtListRemove node links)

/-- `rt_workqueue_cancel_all_work`. -/
def rtWorkqueueCancelAllWork (queue : Q) : Exec (Workqueues Q W T × WorkOutput W) := do
  let links ← cancelAllLoop queue (Fintype.card W + 1) (s.links.next (.inl queue)) s.links
  pure ({ s with links }, .returned rtEok)

/-- The caller goes on: in `rt_thread_resume` of the worker, or at the end of
    `rt_workqueue_cancel_work_sync`. -/
def goOn (caller : T) : Workqueues Q W T × WorkOutput W :=
  match s.caller caller with
  | .outside => (s, .none)
  | .resume queue =>
    if (s.worker queue).suspended = true then (s.setCaller caller (.resuming queue), .none)
    else (s.setCaller caller .outside, .none)
  | .resuming queue =>
    -- `rt_schedule_insert_thread`: the worker is ready
    ((s.setCaller caller .outside).setWorker queue (s.worker queue).place false, .none)
  | .cancelSync work =>
    ({ s.setCaller caller .outside with pending := Function.update s.pending work false },
      .returned rtEok)

/-- The next event.  A caller does one thing after the other. -/
def step : WorkEvent Q W T → Workqueues Q W T → Exec (Workqueues Q W T × WorkOutput W)
  | .worker queue, s => s.workqueueThreadEntry queue
  | .dowork caller queue work, s =>
    pure (if s.caller caller = .outside then s.workqueueSubmitWork caller queue work else (s, .none))
  | .criticalWork caller queue work, s =>
    pure (if s.caller caller = .outside then s.rtWorkqueueCriticalWork caller queue work
      else (s, .none))
  | .cancelWork queue work, s => pure (s.workqueueCancelWork queue work)
  | .cancelWorkSync caller queue work, s =>
    pure (if s.caller caller = .outside then s.rtWorkqueueCancelWorkSync caller queue work
      else (s, .none))
  | .cancelAllWork queue, s => s.rtWorkqueueCancelAllWork queue
  | .goOn caller, s => pure (s.goOn caller)

/-- What an event can do. -/
inductive Stepped : WorkEvent Q W T → Workqueues Q W T → WorkOutput W → Prop where
  | testEmpty (queue) : (s.worker queue).place = .test →
    rtListIsempty (.inl queue) s.links = true →
    Stepped (.worker queue) (s.setWorker queue .suspend false) .none
  | testSome (queue) : (s.worker queue).place = .test →
    rtListIsempty (.inl queue) s.links = false →
    Stepped (.worker queue) (s.setWorker queue .take false) .none
  | suspend (queue) : (s.worker queue).place = .suspend →
    Stepped (.worker queue) (s.setWorker queue .schedule true) .none
  | sleep (queue) : (s.worker queue).place = .schedule → (s.worker queue).suspended = true →
    Stepped (.worker queue) s .none
  | wake (queue) : (s.worker queue).place = .schedule → (s.worker queue).suspended = false →
    Stepped (.worker queue) (s.setWorker queue .take false) .none
  | take (queue work) : (s.worker queue).place = .take → s.links.next (.inl queue) = .inr work →
    Stepped (.worker queue) { s.setWorker queue (.call work) false with
      links := rtListRemove (.inr work) s.links
      workCurrent := Function.update s.workCurrent queue (some work)
      pending := Function.update s.pending work false } .none
  | call (queue work) : (s.worker queue).place = .call work →
    Stepped (.worker queue) (s.setWorker queue (.clear work) false) (.called work)
  | clear (queue work) : (s.worker queue).place = .clear work →
    Stepped (.worker queue) { s.setWorker queue .completion false with
      workCurrent := Function.update s.workCurrent queue .none } .none
  | completion (queue) : (s.worker queue).place = .completion →
    Stepped (.worker queue) (s.setWorker queue .test false) .none
  | dowork (caller queue work) : s.caller caller = .outside → s.pending work = false →
    s.workCurrent queue ≠ some work →
    Stepped (.dowork caller queue work) { s.linkWork caller queue work with
      pending := Function.update s.pending work true } (.returned rtEok)
  | criticalWork (caller queue work) : s.caller caller = .outside →
    s.workCurrent queue ≠ some work →
    Stepped (.criticalWork caller queue work) (s.linkWork caller queue work) (.returned rtEok)
  | cancelWork (queue work event) :
    event = .cancelWork queue work ∨
      (∃ caller, s.caller caller = .outside ∧ event = .cancelWorkSync caller queue work) →
    s.workCurrent queue ≠ some work →
    Stepped event { s with
      links := rtListRemove (.inr work) s.links
      pending := Function.update s.pending work false } (.returned rtEok)
  | cancelWorkSync (caller queue work) : s.caller caller = .outside →
    s.workCurrent queue = some work →
    Stepped (.cancelWorkSync caller queue work) (s.setCaller caller (.cancelSync work)) .none
  | cancelAllWork (queue links) :
    s.rtWorkqueueCancelAllWork queue = .ok ({ s with links }, .returned rtEok) →
    Stepped (.cancelAllWork queue) { s with links } (.returned rtEok)
  | resumeFails (caller queue) : s.caller caller = .resume queue →
    (s.worker queue).suspended = false →
    Stepped (.goOn caller) (s.setCaller caller .outside) .none
  | resume (caller queue) : s.caller caller = .resume queue → (s.worker queue).suspended = true →
    Stepped (.goOn caller) (s.setCaller caller (.resuming queue)) .none
  | resumed (caller queue) : s.caller caller = .resuming queue →
    Stepped (.goOn caller)
      ((s.setCaller caller .outside).setWorker queue (s.worker queue).place false) .none
  | synced (caller work) : s.caller caller = .cancelSync work →
    Stepped (.goOn caller) { s.setCaller caller .outside with
      pending := Function.update s.pending work false } (.returned rtEok)
  /-- It is busy, or has nothing to do. -/
  | refused (event output) : (∀ queue, event ≠ .worker queue) →
    output = .none ∨ output = .returned (-rtEbusy) → Stepped event s output

/-! ## What the functions do to the lists -/

section

variable {s} {s' : Workqueues Q W T} {σ : Q → List W} {queue : Q} {caller : T} {work : W}
variable {place : WorkerPlace W} {callerPlace : CallerPlace Q W} {suspended : Bool}
variable {output : WorkOutput W}

section

omit [DecidableEq W] [DecidableEq T] [Fintype W]

@[simp] theorem setWorker_links : (s.setWorker queue place suspended).links = s.links := rfl
@[simp] theorem setWorker_workCurrent :
    (s.setWorker queue place suspended).workCurrent = s.workCurrent := rfl
@[simp] theorem setWorker_pending : (s.setWorker queue place suspended).pending = s.pending := rfl
@[simp] theorem setWorker_caller : (s.setWorker queue place suspended).caller = s.caller := rfl

end

section

omit [DecidableEq Q] [DecidableEq W] [Fintype W]

@[simp] theorem setCaller_links : (s.setCaller caller callerPlace).links = s.links := rfl
@[simp] theorem setCaller_workCurrent :
    (s.setCaller caller callerPlace).workCurrent = s.workCurrent := rfl
@[simp] theorem setCaller_pending : (s.setCaller caller callerPlace).pending = s.pending := rfl
@[simp] theorem setCaller_worker : (s.setCaller caller callerPlace).worker = s.worker := rfl

end

section

omit [Fintype W]

@[simp] theorem linkWork_workCurrent :
    (s.linkWork caller queue work).workCurrent = s.workCurrent := rfl

@[simp] theorem linkWork_pending : (s.linkWork caller queue work).pending = s.pending := rfl

@[simp] theorem linkWork_worker : (s.linkWork caller queue work).worker = s.worker := rfl

theorem holds_linkWork (h : RingList.Holds s.links σ) :
    RingList.Holds (s.linkWork caller queue work).links (pushBack (erase σ work) queue work) := by
  have hremoved := h.remove work
  have hprev : (s.links.remove (.inr work)).prev (.inl queue) =
      lastOr queue (erase σ work queue) :=
    (hremoved.adjacent queue (erase σ work queue) [] (List.append_nil _).symm).2
  have hlinked := hremoved.insertAfter (h := queue) (List.append_nil _).symm (h.fresh_erase work)
  rw [← hprev] at hlinked
  exact hlinked

end

theorem workqueueThreadEntry_cases (h : s.workqueueThreadEntry queue = .ok (s', output)) :
    s.Stepped (.worker queue) s' output := by
  unfold workqueueThreadEntry at h
  cases hplace : (s.worker queue).place with
  | test =>
    by_cases hempty : rtListIsempty (.inl queue) s.links = true
    · simp only [hplace, hempty, if_true, exec_pure_ok, Prod.mk.injEq] at h
      obtain ⟨rfl, rfl⟩ := h
      exact .testEmpty queue hplace hempty
    · simp only [hplace, hempty, Bool.false_eq_true, if_false, exec_pure_ok, Prod.mk.injEq] at h
      obtain ⟨rfl, rfl⟩ := h
      exact .testSome queue hplace (Bool.not_eq_true _ ▸ hempty)
  | suspend =>
    simp only [hplace, exec_pure_ok, Prod.mk.injEq] at h
    obtain ⟨rfl, rfl⟩ := h
    exact .suspend queue hplace
  | schedule =>
    by_cases hsuspended : (s.worker queue).suspended = true
    · simp only [hplace, hsuspended, if_true, exec_pure_ok, Prod.mk.injEq] at h
      obtain ⟨rfl, rfl⟩ := h
      exact .sleep queue hplace hsuspended
    · simp only [hplace, hsuspended, Bool.false_eq_true, if_false, exec_pure_ok,
        Prod.mk.injEq] at h
      obtain ⟨rfl, rfl⟩ := h
      exact .wake queue hplace (Bool.not_eq_true _ ▸ hsuspended)
  | take =>
    cases hnext : s.links.next (.inl queue) with
    | inl head => simp [hplace, hnext] at h
    | inr work =>
      simp only [hplace, hnext, exec_pure_ok, Prod.mk.injEq] at h
      obtain ⟨rfl, rfl⟩ := h
      exact .take queue work hplace hnext
  | call work =>
    simp only [hplace, exec_pure_ok, Prod.mk.injEq] at h
    obtain ⟨rfl, rfl⟩ := h
    exact .call queue work hplace
  | clear work =>
    simp only [hplace, exec_pure_ok, Prod.mk.injEq] at h
    obtain ⟨rfl, rfl⟩ := h
    exact .clear queue work hplace
  | completion =>
    simp only [hplace, exec_pure_ok, Prod.mk.injEq] at h
    obtain ⟨rfl, rfl⟩ := h
    exact .completion queue hplace

/-- Every event that returns does one of these. -/
theorem step_cases {event : WorkEvent Q W T} (h : step event s = .ok (s', output)) :
    s.Stepped event s' output := by
  cases event with
  | worker queue => exact workqueueThreadEntry_cases h
  | dowork caller queue work =>
    simp only [step, workqueueSubmitWork, exec_pure_ok] at h
    split at h
    case isTrue hcaller =>
      split at h
      case isTrue => cases h; exact .refused _ _ (by simp) (by simp)
      case isFalse hpending =>
        split at h
        case isTrue => cases h; exact .refused _ _ (by simp) (by simp)
        case isFalse hcurrent =>
          cases h
          exact .dowork caller queue work hcaller (Bool.not_eq_true _ ▸ hpending) hcurrent
    case isFalse => cases h; exact .refused _ _ (by simp) (by simp)
  | criticalWork caller queue work =>
    simp only [step, rtWorkqueueCriticalWork, exec_pure_ok] at h
    split at h
    case isTrue hcaller =>
      split at h
      case isTrue => cases h; exact .refused _ _ (by simp) (by simp)
      case isFalse hcurrent => cases h; exact .criticalWork caller queue work hcaller hcurrent
    case isFalse => cases h; exact .refused _ _ (by simp) (by simp)
  | cancelWork queue work =>
    simp only [step, workqueueCancelWork, exec_pure_ok] at h
    split at h
    case isTrue => cases h; exact .refused _ _ (by simp) (by simp)
    case isFalse hcurrent => cases h; exact .cancelWork queue work _ (.inl rfl) hcurrent
  | cancelWorkSync caller queue work =>
    simp only [step, rtWorkqueueCancelWorkSync, exec_pure_ok] at h
    split at h
    case isTrue hcaller =>
      split at h
      case isTrue hcurrent => cases h; exact .cancelWorkSync caller queue work hcaller hcurrent
      case isFalse hcurrent =>
        cases h
        exact .cancelWork queue work _ (.inr ⟨caller, hcaller, rfl⟩) hcurrent
    case isFalse => cases h; exact .refused _ _ (by simp) (by simp)
  | cancelAllWork queue =>
    have hcall := h
    simp only [step, rtWorkqueueCancelAllWork, exec_bind_ok, exec_pure_ok, Prod.mk.injEq] at h
    obtain ⟨links, -, rfl, rfl⟩ := h
    exact .cancelAllWork queue links hcall
  | goOn caller =>
    simp only [step, goOn, exec_pure_ok] at h
    cases hcaller : s.caller caller with
    | outside =>
      simp only [hcaller, Prod.mk.injEq] at h
      obtain ⟨rfl, rfl⟩ := h
      exact .refused _ _ (by simp) (by simp)
    | resume queue =>
      by_cases hsuspended : (s.worker queue).suspended = true
      · simp only [hcaller, hsuspended, if_true, Prod.mk.injEq] at h
        obtain ⟨rfl, rfl⟩ := h
        exact .resume caller queue hcaller hsuspended
      · simp only [hcaller, hsuspended, Bool.false_eq_true, if_false, Prod.mk.injEq] at h
        obtain ⟨rfl, rfl⟩ := h
        exact .resumeFails caller queue hcaller (Bool.not_eq_true _ ▸ hsuspended)
    | resuming queue =>
      simp only [hcaller, Prod.mk.injEq] at h
      obtain ⟨rfl, rfl⟩ := h
      exact .resumed caller queue hcaller
    | cancelSync work =>
      simp only [hcaller, Prod.mk.injEq] at h
      obtain ⟨rfl, rfl⟩ := h
      exact .synced caller work hcaller

section

omit [DecidableEq T] [Fintype W]

/-- Who is in a list after a work has been linked. -/
theorem mem_relinked (h : RingList.Holds s.links σ) {queue' : Q} {work' : W} :
    work' ∈ pushBack (erase σ work) queue work queue' ↔
      queue' = queue ∧ work' = work ∨ work' ≠ work ∧ work' ∈ σ queue' := by
  rw [mem_pushBack, h.mem_erase]

variable (queue) in
/-- The loop takes out what is left of the list. -/
theorem cancelAllLoop_holds {links : Links (Q ⊕ W)} (h : RingList.Holds links σ) {fuel : Nat}
    (hfuel : (σ queue).length < fuel) :
    ∃ links', cancelAllLoop queue fuel (links.next (.inl queue)) links = .ok links' ∧
      RingList.Holds links' (Function.update σ queue []) := by
  induction fuel generalizing links σ with
  | zero => exact absurd hfuel (Nat.not_lt_zero _)
  | succ fuel ih =>
    rw [h.next_head]
    cases hσ : σ queue with
    | nil =>
      refine ⟨links, by simp [cancelAllLoop, pure, Except.pure], ?_⟩
      rwa [← hσ, Function.update_eq_self]
    | cons work rest =>
      have hnext : links.next (.inr work) = firstOr queue rest := by
        have hadjacent := (h.adjacent queue [work] rest hσ).1
        simpa [lastOr] using hadjacent
      have hremoved := h.remove work
      have hrest : erase σ work queue = rest := by
        simp [erase, hσ]
      have hothers : Function.update (erase σ work) queue [] = Function.update σ queue [] := by
        funext queue'
        by_cases hq : queue' = queue
        · rw [hq, Function.update_self, Function.update_self]
        · rw [Function.update_of_ne hq, Function.update_of_ne hq]
          refine erase_of_notMem fun hmem => hq ?_
          exact h.disjoint queue' queue work hmem (by rw [hσ]; exact List.mem_cons_self)
      obtain ⟨links', hloop, h'⟩ := ih hremoved (by
        rw [hrest]
        rw [hσ, List.length_cons] at hfuel
        omega)
      rw [hremoved.next_head, hrest] at hloop
      refine ⟨links', ?_, hothers ▸ h'⟩
      simp only [cancelAllLoop, firstOr_cons, reduceCtorEq, if_false, hnext]
      exact hloop

end

omit [DecidableEq T] in
theorem rtWorkqueueCancelAllWork_holds (h : RingList.Holds s.links σ) (queue : Q) :
    ∃ links, s.rtWorkqueueCancelAllWork queue = .ok ({ s with links }, .returned rtEok) ∧
      RingList.Holds links (Function.update σ queue []) := by
  have hlength : (σ queue).length ≤ Fintype.card W := (h.nodup queue).length_le_card
  obtain ⟨links, hloop, hholds⟩ := cancelAllLoop_holds queue h (Nat.lt_succ_of_le hlength)
  refine ⟨links, ?_, hholds⟩
  simp only [rtWorkqueueCancelAllWork, hloop, bind, Except.bind]
  rfl

end

/-! ## The flag of a pending work -/

section Flag

/-- The lists are in order, and a work's flag is set exactly when it is linked in a list. -/
def Matched : Prop :=
  ∃ σ, RingList.Holds s.links σ ∧ ∀ work, s.pending work = true ↔ ∃ queue, work ∈ σ queue

/-- A work that is in no list, and is not the current one of the queue, can be submitted. -/
def Submittable : Prop :=
  ∀ caller queue work, s.links.next (.inr work) = .inr work → s.workCurrent queue ≠ some work →
    (s.workqueueSubmitWork caller queue work).2 = .returned rtEok

/-- After the event, the flags match the lists, and works can be submitted again. -/
def FlagRight (event : WorkEvent Q W T) (s : Workqueues Q W T) : Prop :=
  ∀ s' output, step event s = .ok (s', output) → s'.Matched ∧ s'.Submittable

/-- A critical work is pending already, all works are cancelled only when there is none, and a
    caller who has waited for a work finds that it has not been submitted again. -/
def FlagMeets : WorkEvent Q W T → Workqueues Q W T → Prop
  | .criticalWork caller queue work, s =>
    s.caller caller = .outside → s.workCurrent queue ≠ some work → s.pending work = true
  | .cancelAllWork queue, s => rtListIsempty (.inl queue) s.links = true
  | .goOn caller, s => ∀ work, s.caller caller = .cancelSync work → s.pending work = false
  | _, _ => True

variable {s} {s' : Workqueues Q W T} {σ : Q → List W} {queue : Q} {caller : T} {work : W}

section

omit [DecidableEq Q] [DecidableEq W] [DecidableEq T] [Fintype W]

theorem start_matched : (start : Workqueues Q W T).Matched :=
  ⟨fun _ => [], holds_empty, by simp [start]⟩

theorem Matched.congr (h : s.Matched) (hlinks : s'.links = s.links)
    (hpending : s'.pending = s.pending) : s'.Matched := by
  obtain ⟨σ, hσ, hflag⟩ := h
  exact ⟨σ, hlinks ▸ hσ, by rw [hpending]; exact hflag⟩

end

omit [DecidableEq T] [Fintype W] in
variable (work) in
/-- A work is taken out of the lists, and its flag is cleared. -/
theorem Matched.unlinked (h : s.Matched) (hlinks : s'.links = rtListRemove (.inr work) s.links)
    (hpending : s'.pending = Function.update s.pending work false) : s'.Matched := by
  obtain ⟨σ, hσ, hflag⟩ := h
  refine ⟨erase σ work, hlinks ▸ hσ.remove work, fun work' => ?_⟩
  simp only [hpending, hσ.mem_erase, exists_and_left]
  by_cases hw : work' = work
  · simp [hw]
  · rw [Function.update_of_ne hw, hflag work']
    simp [hw]

omit [Fintype W] in
variable (queue caller work) in
/-- A work is linked: its flag has to be set. -/
theorem Matched.linked_iff (h : s.Matched) (hlinks : s'.links = (s.linkWork caller queue work).links)
    (hpending : ∀ work', work' ≠ work → s'.pending work' = s.pending work') :
    s'.Matched ↔ s'.pending work = true := by
  obtain ⟨σ, hσ, hflag⟩ := h
  have hlinked : RingList.Holds s'.links (pushBack (erase σ work) queue work) :=
    hlinks ▸ holds_linkWork hσ
  constructor
  · rintro ⟨τ, hτ, hflag'⟩
    obtain rfl := hτ.unique hlinked
    exact (hflag' work).mpr ⟨queue, (mem_relinked hσ).mpr (.inl ⟨rfl, rfl⟩)⟩
  · intro hset
    refine ⟨_, hlinked, fun work' => ?_⟩
    simp only [mem_relinked hσ]
    by_cases hw : work' = work
    · rw [hw, hset]
      simp
    · rw [hpending work' hw, hflag work']
      simp [hw]

omit [DecidableEq T] in
variable (queue) in
/-- All works of a queue are taken out: there must be none. -/
theorem Matched.cancelled_iff (h : s.Matched) :
    (∃ s' output, s.rtWorkqueueCancelAllWork queue = .ok (s', output) ∧
      (s'.Matched ↔ rtListIsempty (.inl queue) s.links = true)) := by
  obtain ⟨σ, hσ, hflag⟩ := h
  obtain ⟨links, hcall, hlinks⟩ := rtWorkqueueCancelAllWork_holds hσ queue
  refine ⟨_, _, hcall, ?_⟩
  rw [decide_eq_true_iff, hσ.next_head_eq_self]
  constructor
  · rintro ⟨τ, hτ, hflag'⟩
    obtain rfl := hτ.unique hlinks
    by_contra hsome
    obtain ⟨work, hmem⟩ := List.exists_mem_of_ne_nil _ hsome
    obtain ⟨queue', hmem'⟩ := (hflag' work).mp ((hflag work).mpr ⟨queue, hmem⟩)
    by_cases hq : queue' = queue
    · rw [hq, Function.update_self] at hmem'
      exact absurd hmem' List.not_mem_nil
    · rw [Function.update_of_ne hq] at hmem'
      exact hq (hσ.disjoint queue' queue work hmem' hmem)
  · intro hnone
    have hsame : Function.update σ queue [] = σ := Function.update_eq_self_iff.mpr hnone.symm
    exact ⟨σ, hsame ▸ hlinks, hflag⟩

omit [DecidableEq Q] [Fintype W] in
/-- The flag is cleared of a work that is left where it is. -/
theorem Matched.synced_iff (h : s.Matched) :
    Matched { s.setCaller caller .outside with
      pending := Function.update s.pending work false } ↔ s.pending work = false := by
  obtain ⟨σ, hσ, hflag⟩ := h
  constructor
  · rintro ⟨τ, hτ, hflag'⟩
    obtain rfl := hτ.unique hσ
    have hclear := hflag' work
    simp only [Function.update_self, ← hflag work, Bool.false_eq_true, false_iff] at hclear
    exact Bool.not_eq_true _ ▸ hclear
  · intro hclear
    refine Matched.congr ⟨σ, hσ, hflag⟩ rfl ?_
    rw [← hclear, Function.update_eq_self]

/-- An event that cares for the flag leaves it matched. -/
theorem Matched.step {event : WorkEvent Q W T} {output : WorkOutput W} (h : s.Matched)
    (hmeets : FlagMeets event s) (hstep : s.Stepped event s' output) : s'.Matched := by
  cases hstep with
  | take queue work hplace hnext => exact h.unlinked work rfl rfl
  | dowork caller queue work hcaller hpending hcurrent =>
    refine Iff.mpr (h.linked_iff queue caller work ?_ ?_) ?_
    · rfl
    · exact fun work' hw => Function.update_of_ne hw _ _
    · exact Function.update_self ..
  | criticalWork caller queue work hcaller hcurrent =>
    exact (h.linked_iff queue caller work rfl (fun _ _ => rfl)).mpr (hmeets hcaller hcurrent)
  | cancelWork queue work event hevent hcurrent => exact h.unlinked work rfl rfl
  | cancelAllWork queue links hcall =>
    obtain ⟨s', output, hcall', hiff⟩ := h.cancelled_iff queue
    obtain ⟨rfl, -⟩ := Prod.mk.inj (Except.ok.inj (hcall'.symm.trans hcall))
    exact hiff.mpr hmeets
  | synced caller work hcaller =>
    exact h.synced_iff.mpr (hmeets work hcaller)
  | testEmpty | testSome | suspend | wake | call | clear | completion | cancelWorkSync
  | resumeFails | resume | resumed => exact h.congr rfl rfl
  | sleep | refused => exact h

omit [Fintype W] in
/-- While the flags match, a work is refused only if it is in a list. -/
theorem Matched.submittable (h : s.Matched) : s.Submittable := by
  obtain ⟨σ, hσ, hflag⟩ := h
  intro caller queue work hunlinked hcurrent
  have hclear : ¬ s.pending work = true := by
    rw [hflag, hσ.linked_iff]
    exact fun hlinked => hlinked hunlinked
  rw [workqueueSubmitWork, if_neg hclear, if_neg hcurrent]

/-- An event that leaves the flags matched has cared for them. -/
theorem Matched.flagMeets {event : WorkEvent Q W T} (h : s.Matched)
    (hright : FlagRight event s) : FlagMeets event s := by
  cases event with
  | criticalWork caller queue work =>
    intro hcaller hcurrent
    refine (h.linked_iff queue caller work rfl (fun _ _ => rfl)).mp
      (hright (s.linkWork caller queue work) (.returned rtEok) ?_).1
    simp [Workqueues.step, rtWorkqueueCriticalWork, hcaller, hcurrent, pure, Except.pure]
  | cancelAllWork queue =>
    obtain ⟨s', output, hcall, hiff⟩ := h.cancelled_iff queue
    exact hiff.mp (hright s' output hcall).1
  | goOn caller =>
    intro work hcaller
    refine h.synced_iff.mp (hright { s.setCaller caller .outside with
      pending := Function.update s.pending work false } (.returned rtEok) ?_).1
    simp [Workqueues.step, Workqueues.goOn, hcaller, pure, Except.pure]
  | worker queue => trivial
  | dowork caller queue work => trivial
  | cancelWork queue work => trivial
  | cancelWorkSync caller queue work => trivial

/-- Along the events of any callers and workers: after each of them a work's flag is set exactly
    when it is linked in a list, and one that is in no list can be submitted, if and only if
    critical works are pending already, and `rt_workqueue_cancel_all_work` comes only when there
    is nothing to cancel. -/
theorem rt_work_pending_linked (events : List (WorkEvent Q W T)) :
    Along step FlagRight events start ↔ Along step FlagMeets events start := by
  refine along_iff (I := Matched) (V := fun _ _ => True) ?_ ?_ start_matched along_true
  · intro event s h _
    refine ⟨h.flagMeets, fun hmeets s' output hstep => ?_⟩
    have hmatched := h.step hmeets (step_cases hstep)
    exact ⟨hmatched, hmatched.submittable⟩
  · intro event s s' output _ _ hright hstep
    exact (hright s' output hstep).1

/-- A work is submitted, all works are cancelled, and the work is submitted again. -/
def cancelledAll : List (WorkEvent Unit Unit Unit) :=
  [.dowork () () (), .goOn (), .cancelAllWork (), .dowork () () ()]

/-- The work that was cancelled with all others is in no list, and is refused. -/
theorem rt_work_pending_linked_refused :
    ¬ Along step FlagRight cancelledAll start ∧
      (runExcept step cancelledAll start).map (fun r => (r.1.links.next (.inr ()), r.2)) =
        .ok (.inr (), [.returned rtEok, .none, .returned rtEok, .returned (-rtEbusy)]) := by
  refine ⟨?_, rfl⟩
  rw [cancelledAll, along_cons rfl, along_cons rfl]
  rintro ⟨-, -, hright, -⟩
  obtain ⟨⟨σ, hσ, hflag⟩, -⟩ := hright _ _ rfl
  exact hσ.linked_iff.mp ((hflag ()).mp rfl) rfl

end Flag

end Workqueues

end PandoraRobot.Drivers
