import PandoraRobot.Drivers.Workqueue

/-! # Runs of work queues

The worker tests its list, and suspends itself when it was empty.  It does not do both with
interrupts disabled, and so it misses the caller who resumes it in between.  When it is resumed,
it takes the first work without a second test.
-/

namespace PandoraRobot.Drivers

open PandoraRobot.Kernel PandoraRobot.RingList PandoraRobot.Trace

namespace Workqueues

variable {Q W T : Type}
variable {s s' : Workqueues Q W T} {σ σ' : Q → List W} {queue : Q} {caller : T} {work : W}

/-! ## Lost wake-ups -/

/-- A caller at this place is going to resume the worker of the queue. -/
def Wakes (queue : Q) (place : CallerPlace Q W) : Prop :=
  place = .resume queue ∨ place = .resuming queue

/-- A wake-up of the worker is on its way. -/
def WakeupPending (s : Workqueues Q W T) (queue : Q) : Prop := ∃ caller, Wakes queue (s.caller caller)

section

variable [DecidableEq Q] [DecidableEq W] [DecidableEq T] [Fintype W]

/-- There is work to do, the worker is suspended and nobody is going to resume it. -/
def Unserved (s : Workqueues Q W T) (queue : Q) : Prop :=
  rtListIsempty (.inl queue) s.links = false ∧ (s.worker queue).suspended = true ∧
    ¬ s.WakeupPending queue

/-- After the event, no queue is left unserved. -/
def WakeRight (event : WorkEvent Q W T) (s : Workqueues Q W T) : Prop :=
  ∀ s' output, step event s = .ok (s', output) → ∀ queue, ¬ s'.Unserved queue

/-- A caller whose turn it is to resume the worker does not find it between its test and its
    suspension, unless there is no work or another wake-up is on its way. -/
def WakeMeets : WorkEvent Q W T → Workqueues Q W T → Prop
  | .goOn caller, s => ∀ queue, Wakes queue (s.caller caller) →
    (s.worker queue).place = .suspend →
    rtListIsempty (.inl queue) s.links = true ∨
      ∃ other, other ≠ caller ∧ Wakes queue (s.caller other)
  | _, _ => True

end

/-- The worker is not about a work. -/
def Idle : WorkerPlace W → Prop
  | .call _ => False
  | .clear _ => False
  | _ => True

/-- What holds of a queue while no wake-up has been lost. -/
structure Served (s : Workqueues Q W T) (σ : Q → List W) (queue : Q) : Prop where
  current : Idle (s.worker queue).place → s.workCurrent queue = none
  asleep : (s.worker queue).suspended = true → (s.worker queue).place = .schedule
  woken : (s.worker queue).place = .suspend ∨ (s.worker queue).suspended = true → σ queue ≠ [] →
    s.WakeupPending queue

/-- The lists of the queues, and what holds of each of them. -/
def WakeInv (s : Workqueues Q W T) : Prop :=
  ∃ σ, RingList.Holds s.links σ ∧ ∀ queue, s.Served σ queue

theorem start_wakeInv : (start : Workqueues Q W T).WakeInv :=
  ⟨fun _ => [], holds_empty, fun _ => ⟨fun _ => rfl, by simp [start], by simp [start]⟩⟩

variable [DecidableEq Q] [DecidableEq W] in
theorem WakeInv.served (h : s.WakeInv) (queue : Q) : ¬ s.Unserved queue := by
  obtain ⟨σ, hσ, hserved⟩ := h
  rintro ⟨hsome, hsuspended, hnone⟩
  refine hnone ((hserved queue).woken (.inr hsuspended) fun hempty => ?_)
  rw [decide_eq_false_iff_not, hσ.next_head_eq_self] at hsome
  exact hsome hempty

/-- A queue whose worker does not move, and whose list does not fill. -/
theorem Served.same (h : s.Served σ queue) (hworker : s'.worker queue = s.worker queue)
    (hcurrent : s'.workCurrent queue = s.workCurrent queue) (hlist : σ' queue ≠ [] → σ queue ≠ [])
    (hwake : s.WakeupPending queue → s'.WakeupPending queue) : s'.Served σ' queue := by
  refine ⟨?_, ?_, ?_⟩
  · rw [hworker, hcurrent]
    exact h.current
  · rw [hworker]
    exact h.asleep
  · rw [hworker]
    exact fun hplace hsome => hwake (h.woken hplace (hlist hsome))

variable [DecidableEq T] in
/-- One caller goes on, and forgets no wake-up of the queue. -/
theorem WakeupPending.goOn {place : CallerPlace Q W} (h : s.WakeupPending queue)
    (hcaller : s'.caller = Function.update s.caller caller place)
    (hkeep : Wakes queue (s.caller caller) → Wakes queue place) : s'.WakeupPending queue := by
  obtain ⟨other, hwakes⟩ := h
  by_cases hother : other = caller
  · exact ⟨caller, by rw [hcaller, Function.update_self]; exact hkeep (hother ▸ hwakes)⟩
  · exact ⟨other, by rwa [hcaller, Function.update_of_ne hother]⟩

theorem not_wakes_outside : ¬ Wakes queue (.outside : CallerPlace Q W) := by simp [Wakes]

variable [DecidableEq Q]

variable (queue) in
/-- An event is about one queue: the others only have to lose no wake-up. -/
theorem WakeInv.change (hserved : ∀ queue, s.Served σ queue) (hσ' : RingList.Holds s'.links σ')
    (hqueue : s'.Served σ' queue)
    (hothers : ∀ other, other ≠ queue → s'.worker other = s.worker other ∧
      s'.workCurrent other = s.workCurrent other ∧ (σ' other ≠ [] → σ other ≠ []) ∧
      (s.WakeupPending other → s'.WakeupPending other)) : s'.WakeInv := by
  refine ⟨σ', hσ', fun other => ?_⟩
  by_cases hother : other = queue
  · rw [hother]
    exact hqueue
  · obtain ⟨hworker, hcurrent, hlist, hwake⟩ := hothers other hother
    exact (hserved other).same hworker hcurrent hlist hwake

/-- Nothing but the worker of one queue changes. -/
theorem WakeInv.setWorker {place : WorkerPlace W} {suspended : Bool} (hσ : RingList.Holds s.links σ)
    (hserved : ∀ queue, s.Served σ queue)
    (hqueue : (s.setWorker queue place suspended).Served σ queue) :
    (s.setWorker queue place suspended).WakeInv :=
  WakeInv.change queue hserved hσ hqueue
    fun _ hother => ⟨Function.update_of_ne hother _ _, rfl, id, id⟩

variable [DecidableEq W] [DecidableEq T]

omit [DecidableEq Q] in
theorem erase_ne_nil {other : Q} (h : erase σ work other ≠ []) : σ other ≠ [] := by
  intro hempty
  simp [erase, hempty] at h

variable (queue work) in
/-- A work is linked: a worker that has none is going to be resumed. -/
theorem WakeInv.linkWork (hσ : RingList.Holds s.links σ) (hserved : ∀ queue, s.Served σ queue)
    (hcaller : s.caller caller = .outside) : (s.linkWork caller queue work).WakeInv := by
  have hkeep (other : Q) :
      s.WakeupPending other → (s.linkWork caller queue work).WakeupPending other := by
    intro h
    by_cases hnone : s.workCurrent queue = none
    · exact h.goOn (if_pos hnone)
        (fun hwakes => absurd (hcaller ▸ hwakes) not_wakes_outside)
    · exact h.imp fun c hc => by
        simpa only [Workqueues.linkWork, if_neg hnone] using hc
  refine WakeInv.change queue hserved (holds_linkWork hσ)
    ⟨(hserved queue).current, (hserved queue).asleep, ?_⟩ ?_
  · intro hplace _
    have hidle : Idle (s.worker queue).place := by
      obtain hsuspend | hasleep := hplace
      · rw [linkWork_worker] at hsuspend
        rw [hsuspend]
        trivial
      · rw [(hserved queue).asleep hasleep]
        trivial
    refine ⟨caller, .inl ?_⟩
    simp [Workqueues.linkWork, (hserved queue).current hidle]
  · intro other hother
    refine ⟨rfl, rfl, ?_, hkeep other⟩
    rw [pushBack_other hother]
    exact erase_ne_nil

omit [DecidableEq Q] [DecidableEq W] [DecidableEq T] in
/-- Works are taken out of the lists, and callers that wake nobody go on. -/
theorem WakeInv.shrink (hserved : ∀ queue, s.Served σ queue) (hσ' : RingList.Holds s'.links σ')
    (hworker : s'.worker = s.worker) (hcurrent : s'.workCurrent = s.workCurrent)
    (hlist : ∀ queue, σ' queue ≠ [] → σ queue ≠ [])
    (hwake : ∀ queue, s.WakeupPending queue → s'.WakeupPending queue) : s'.WakeInv :=
  ⟨σ', hσ', fun queue => (hserved queue).same (congrFun hworker queue) (congrFun hcurrent queue)
    (hlist queue) (hwake queue)⟩

variable (queue) in
/-- Someone who was to resume the worker has done so, or failed to. -/
theorem WakeInv.resumed (hσ : RingList.Holds s.links σ) (hserved : ∀ queue, s.Served σ queue)
    (hmeets : WakeMeets (.goOn caller) s) (hwakes : ∀ other, Wakes other (s.caller caller) ↔ other = queue)
    (hlinks : s'.links = s.links) (hcurrent : s'.workCurrent = s.workCurrent)
    (hcaller : s'.caller = Function.update s.caller caller .outside)
    (hworker : ∀ other, other ≠ queue → s'.worker other = s.worker other)
    (hplace : (s'.worker queue).place = (s.worker queue).place)
    (hawake : (s'.worker queue).suspended = false) : s'.WakeInv := by
  refine WakeInv.change queue hserved (hlinks ▸ hσ) ⟨?_, ?_, ?_⟩ ?_
  · rw [hplace, hcurrent]
    exact (hserved queue).current
  · rw [hawake]
    exact fun hasleep => absurd hasleep Bool.false_ne_true
  · rw [hplace, hawake]
    rintro (hsuspend | hasleep) hsome
    · -- the worker is about to suspend itself, so another caller has to wake it
      obtain hempty | ⟨other, hother, hwake⟩ :=
        hmeets queue ((hwakes queue).mpr rfl) hsuspend
      · rw [decide_eq_true_iff, hσ.next_head_eq_self] at hempty
        exact absurd hempty hsome
      · exact ⟨other, by rwa [hcaller, Function.update_of_ne hother]⟩
    · exact absurd hasleep Bool.false_ne_true
  · intro other hother
    refine ⟨hworker other hother, by rw [hcurrent], id, fun hpending => ?_⟩
    exact hpending.goOn hcaller fun hwake => absurd ((hwakes other).mp hwake) hother

variable [Fintype W]

theorem WakeInv.step {event : WorkEvent Q W T} {output : WorkOutput W} (h : s.WakeInv)
    (hmeets : WakeMeets event s) (hstep : s.Stepped event s' output) : s'.WakeInv := by
  obtain ⟨σ, hσ, hserved⟩ := h
  -- a list that is not empty has a worker that is awake, or a caller that is about to wake it
  cases hstep with
  | testEmpty queue hplace hempty =>
    rw [decide_eq_true_iff, hσ.next_head_eq_self] at hempty
    refine WakeInv.setWorker hσ hserved ⟨?_, by simp [Workqueues.setWorker], ?_⟩
    · exact fun _ => (hserved queue).current (by rw [hplace]; trivial)
    -- the worker goes to sleep only where it has seen an empty list
    · exact fun _ hsome => absurd hempty hsome
  | testSome queue hplace hsome =>
    refine WakeInv.setWorker hσ hserved ⟨?_, ?_, ?_⟩
    · exact fun _ => (hserved queue).current (by rw [hplace]; trivial)
    · simp [Workqueues.setWorker]
    · simp [Workqueues.setWorker]
  | suspend queue hplace =>
    refine WakeInv.setWorker hσ hserved ⟨?_, by simp [Workqueues.setWorker], ?_⟩
    · exact fun _ => (hserved queue).current (by rw [hplace]; trivial)
    · exact fun _ hsome => (hserved queue).woken (.inl hplace) hsome
  | wake queue hplace hawake =>
    refine WakeInv.setWorker hσ hserved ⟨?_, ?_, ?_⟩
    · exact fun _ => (hserved queue).current (by rw [hplace]; trivial)
    · simp [Workqueues.setWorker]
    · simp [Workqueues.setWorker]
  | take queue work hplace hnext =>
    refine WakeInv.change queue hserved (hσ.remove work) ⟨?_, ?_, ?_⟩ ?_
    · simp [Workqueues.setWorker, Idle]
    · simp [Workqueues.setWorker]
    · simp [Workqueues.setWorker]
    · exact fun other hother => ⟨Function.update_of_ne hother _ _, Function.update_of_ne hother _ _,
        erase_ne_nil, id⟩
  | call queue work hplace =>
    refine WakeInv.setWorker hσ hserved ⟨?_, ?_, ?_⟩ <;> simp [Workqueues.setWorker, Idle]
  | clear queue work hplace =>
    refine WakeInv.change queue hserved hσ ⟨?_, ?_, ?_⟩ ?_
    · simp
    · simp [Workqueues.setWorker]
    · simp [Workqueues.setWorker]
    · exact fun other hother => ⟨Function.update_of_ne hother _ _, Function.update_of_ne hother _ _,
        id, id⟩
  | completion queue hplace =>
    refine WakeInv.setWorker hσ hserved ⟨?_, ?_, ?_⟩
    · exact fun _ => (hserved queue).current (by rw [hplace]; trivial)
    · simp [Workqueues.setWorker]
    · simp [Workqueues.setWorker]
  | dowork caller queue work hcaller hpending hcurrent =>
    -- the caller that links a work wakes the worker next
    obtain ⟨σ', hσ', hserved'⟩ := WakeInv.linkWork queue work hσ hserved hcaller
    exact ⟨σ', hσ', fun other => ⟨(hserved' other).current, (hserved' other).asleep,
      (hserved' other).woken⟩⟩
  | criticalWork caller queue work hcaller hcurrent => exact WakeInv.linkWork queue work hσ hserved hcaller
  | cancelWork queue work event hevent hcurrent =>
    exact WakeInv.shrink hserved (hσ.remove work) rfl rfl (fun _ => erase_ne_nil) fun _ => id
  | cancelWorkSync caller queue work hcaller hcurrent =>
    refine WakeInv.shrink hserved hσ rfl rfl (fun _ => id) fun _ hpending => ?_
    exact hpending.goOn rfl fun hwakes => absurd (hcaller ▸ hwakes) not_wakes_outside
  | cancelAllWork queue links hcall =>
    obtain ⟨links', hcall', hlinks⟩ := rtWorkqueueCancelAllWork_holds hσ queue
    obtain rfl : links' = links :=
      congrArg (fun r => r.1.links) (Except.ok.inj (hcall'.symm.trans hcall))
    refine WakeInv.shrink hserved hlinks rfl rfl (fun other hsome => ?_) fun _ => id
    by_cases hother : other = queue
    · rw [hother, Function.update_self] at hsome
      exact absurd rfl hsome
    · rwa [Function.update_of_ne hother] at hsome
  | resumeFails caller queue hcaller hawake =>
    exact WakeInv.resumed queue hσ hserved hmeets (by simp [hcaller, Wakes, eq_comm]) rfl
      rfl rfl (fun _ _ => rfl) rfl hawake
  | resume caller queue hcaller hsuspended =>
    refine WakeInv.shrink hserved hσ rfl rfl (fun _ => id) fun other hpending => ?_
    exact hpending.goOn rfl fun hwakes => by simpa [hcaller, Wakes] using hwakes
  | resumed caller queue hcaller =>
    refine WakeInv.resumed queue hσ hserved hmeets (by simp [hcaller, Wakes, eq_comm]) rfl
      rfl rfl (fun other hother => Function.update_of_ne hother _ _) ?_ ?_
    · simp [Workqueues.setWorker]
    · simp [Workqueues.setWorker]
  | synced caller work hcaller =>
    refine WakeInv.shrink hserved hσ rfl rfl (fun _ => id) fun _ hpending => ?_
    exact hpending.goOn rfl fun hwakes => by simp [hcaller, Wakes] at hwakes
  | sleep | refused => exact ⟨σ, hσ, hserved⟩

/-- In every run in which no caller's `rt_thread_resume` comes between the worker's test of the
    list and its suspension, no queue is ever left unserved. -/
theorem rt_workqueue_served (events : List (WorkEvent Q W T))
    (h : Along step WakeMeets events start) : Along step WakeRight events start := by
  refine along_of (I := WakeInv) ?_ ?_ start_wakeInv h
  · intro event s hs hmeets s' output hstep queue
    exact (hs.step hmeets (step_cases hstep)).served queue
  · intro event s s' output hs hmeets hstep
    exact hs.step hmeets (step_cases hstep)

/-- A work is submitted to a worker that is suspended, and the worker serves it. -/
def servedWork : List (WorkEvent Unit Unit Unit) :=
  [.worker (), .worker (), .dowork () () (), .goOn (), .goOn (), .worker (), .worker (), .worker ()]

theorem rt_workqueue_served_work : Along step WakeRight servedWork start := by
  apply rt_workqueue_served
  rw [servedWork, along_cons rfl, along_cons rfl, along_cons rfl, along_cons rfl, along_cons rfl,
    along_cons rfl, along_cons rfl, along_cons rfl]
  refine ⟨trivial, trivial, trivial, ?_, ?_, trivial, trivial, trivial, trivial⟩ <;>
  · rintro ⟨⟩ - hplace
    cases hplace

/-- A work is submitted between the worker's test and its suspension. -/
def lostWakeup : List (WorkEvent Unit Unit Unit) :=
  [.worker (), .dowork () () (), .goOn (), .worker ()]

/-- The worker is suspended then, with a work to do, and nobody is going to resume it. -/
theorem rt_workqueue_served_lost : ¬ Along step WakeRight lostWakeup start := by
  rw [lostWakeup, along_cons rfl, along_cons rfl, along_cons rfl]
  rintro ⟨-, -, -, hright, -⟩
  refine hright _ _ rfl () ⟨rfl, rfl, ?_⟩
  rintro ⟨⟨⟩, hresume | hresuming⟩
  · cases hresume
  · cases hresuming

end Workqueues

/-! ## Works that are submitted -/

/-- A work queue, and which works have been submitted, and since then neither called nor
    cancelled. -/
structure TrackedQueue (W T : Type) where
  queues : Workqueues Unit W T
  live : W → Bool

namespace TrackedQueue

open Workqueues

variable {W T : Type} [DecidableEq W] [DecidableEq T] [Fintype W]

/-- The work is in a list. -/
def linked (s : Workqueues Unit W T) (work : W) : Bool := s.links.next (.inr work) ≠ .inr work

/-- Which works are submitted after an event, by what it has returned. -/
def liveAfter (event : WorkEvent Unit W T) (output : WorkOutput W) (s s' : Workqueues Unit W T)
    (live : W → Bool) : W → Bool :=
  match event, output with
  | .dowork _ _ work, .returned result =>
    if result = rtEok then Function.update live work true else live
  | .criticalWork _ _ work, .returned result =>
    if result = rtEok then Function.update live work true else live
  | .cancelWork _ work, .returned result =>
    if result = rtEok then Function.update live work false else live
  | .cancelWorkSync _ _ work, .returned result =>
    if result = rtEok then Function.update live work false else live
  | .cancelAllWork _, _ => fun work => live work && (!linked s work || linked s' work)
  | .worker _, .called work => Function.update live work false
  | _, _ => live

/-- The next event. -/
def step (event : WorkEvent Unit W T) (r : TrackedQueue W T) :
    Exec (TrackedQueue W T × WorkOutput W) := do
  let (queues, output) ← Workqueues.step event r.queues
  pure (⟨queues, liveAfter event output r.queues queues r.live⟩, output)

/-- A work queue that has just been created. -/
def start : TrackedQueue W T := ⟨Workqueues.start, fun _ => false⟩

/-- The worker is going to take a work without another test of the list. -/
def Committed (s : Workqueues Unit W T) : Prop :=
  (s.worker ()).place = .take ∨ (s.worker ()).place = .schedule ∧ (s.worker ()).suspended = false

/-- The list is not emptied under a worker that is going to take a work from it, and a worker is
    not resumed from its suspension while the list is empty. -/
def CallMeets : WorkEvent Unit W T → TrackedQueue W T → Prop
  | .cancelWork _ work, r => Committed r.queues → r.queues.workCurrent () ≠ some work →
    rtListIsempty (.inl ()) (rtListRemove (.inr work) r.queues.links) = false
  | .cancelWorkSync caller _ work, r => Committed r.queues → r.queues.caller caller = .outside →
    r.queues.workCurrent () ≠ some work →
    rtListIsempty (.inl ()) (rtListRemove (.inr work) r.queues.links) = false
  | .cancelAllWork _, r => ¬ Committed r.queues
  | .goOn caller, r => r.queues.caller caller = .resuming () →
    (r.queues.worker ()).place = .schedule → rtListIsempty (.inl ()) r.queues.links = false
  | _, _ => True

instance (s : Workqueues Unit W T) : Decidable (Committed s) :=
  inferInstanceAs (Decidable (_ ∨ _ ∧ _))

instance (event : WorkEvent Unit W T) (r : TrackedQueue W T) : Decidable (CallMeets event r) :=
  match event with
  | .cancelWork _ work => inferInstanceAs (Decidable (Committed r.queues →
      r.queues.workCurrent () ≠ some work →
      rtListIsempty (.inl ()) (rtListRemove (.inr work) r.queues.links) = false))
  | .cancelWorkSync caller _ work => inferInstanceAs (Decidable (Committed r.queues →
      r.queues.caller caller = .outside → r.queues.workCurrent () ≠ some work →
      rtListIsempty (.inl ()) (rtListRemove (.inr work) r.queues.links) = false))
  | .cancelAllWork _ => inferInstanceAs (Decidable (¬ Committed r.queues))
  | .goOn caller => inferInstanceAs (Decidable (r.queues.caller caller = .resuming () →
      (r.queues.worker ()).place = .schedule → rtListIsempty (.inl ()) r.queues.links = false))
  | .worker _ => .isTrue trivial
  | .dowork _ _ _ => .isTrue trivial
  | .criticalWork _ _ _ => .isTrue trivial

variable {r r' : TrackedQueue W T} {s : Workqueues Unit W T} {σ : Unit → List W} {work : W}

/-- What holds while the list is not emptied under the worker. -/
structure CallInv (s : Workqueues Unit W T) (live : W → Bool) (σ : Unit → List W) : Prop where
  lists : RingList.Holds s.links σ
  alive : ∀ work ∈ σ (), live work = true
  filled : Committed s → σ () ≠ []
  asleep : (s.worker ()).suspended = true → (s.worker ()).place = .schedule
  call : ∀ work, (s.worker ()).place = .call work →
    s.workCurrent () = some work ∧ work ∉ σ () ∧ live work = true
  clear : ∀ work, (s.worker ()).place = .clear work → s.workCurrent () = some work ∧ work ∉ σ ()

namespace CallInv

variable {live live' : W → Bool} {s' : Workqueues Unit W T} {σ' : Unit → List W}

section

omit [DecidableEq W] [DecidableEq T] [Fintype W]

/-- The worker goes to a place at which it holds no work. -/
theorem move (place : WorkerPlace W) (suspended : Bool) (h : CallInv s live σ)
    (hfilled : Committed (s.setWorker () place suspended) → σ () ≠ [])
    (hasleep : suspended = true → place = .schedule) (hidle : Idle place)
    (hlinks : s'.links = s.links)
    (hworker : s'.worker = (s.setWorker () place suspended).worker) : CallInv s' live σ where
  lists := hlinks ▸ h.lists
  alive := h.alive
  filled := by
    rw [Committed, hworker]
    exact hfilled
  asleep := by
    rw [hworker]
    simpa [Workqueues.setWorker] using hasleep
  call work hplace := by
    rw [hworker] at hplace
    obtain rfl : place = .call work := by simpa [Workqueues.setWorker] using hplace
    exact hidle.elim
  clear work hplace := by
    rw [hworker] at hplace
    obtain rfl : place = .clear work := by simpa [Workqueues.setWorker] using hplace
    exact hidle.elim

/-- The worker stays, and so does the work it holds. -/
theorem stay (h : CallInv s live σ) (hlists : RingList.Holds s'.links σ')
    (hworker : s'.worker = s.worker) (hcurrent : s'.workCurrent = s.workCurrent)
    (halive : ∀ work ∈ σ' (), live' work = true) (hfilled : Committed s → σ' () ≠ [])
    (hheld : ∀ work, s.workCurrent () = some work → work ∉ σ () →
      work ∉ σ' () ∧ (live work = true → live' work = true)) : CallInv s' live' σ' where
  lists := hlists
  alive := halive
  filled := by
    rw [Committed, hworker]
    exact hfilled
  asleep := by
    rw [hworker]
    exact h.asleep
  call work hplace := by
    rw [hworker] at hplace
    obtain ⟨hwork, hmem, hlive⟩ := h.call work hplace
    obtain ⟨hmem', hlive'⟩ := hheld work hwork hmem
    exact ⟨by rw [hcurrent, hwork], hmem', hlive' hlive⟩
  clear work hplace := by
    rw [hworker] at hplace
    obtain ⟨hwork, hmem⟩ := h.clear work hplace
    exact ⟨by rw [hcurrent, hwork], (hheld work hwork hmem).1⟩

end

omit [Fintype W] in
/-- A work is submitted. -/
theorem linkWork (caller : T) (h : CallInv s live σ) (hcurrent : s.workCurrent () ≠ some work)
    (hlinks : s'.links = (s.linkWork caller () work).links) (hworker : s'.worker = s.worker)
    (hcurrent' : s'.workCurrent = s.workCurrent) :
    CallInv s' (Function.update live work true) (pushBack (erase σ work) () work) := by
  refine h.stay (hlinks ▸ holds_linkWork h.lists) hworker hcurrent' ?_ ?_ ?_
  · intro work' hmem
    obtain ⟨-, rfl⟩ | ⟨hne, hmem⟩ := (mem_relinked h.lists).mp hmem
    · exact Function.update_self ..
    · rw [Function.update_of_ne hne]
      exact h.alive work' hmem
  · simp
  · intro held hheld hmem
    have hne : held ≠ work := fun heq => hcurrent (heq ▸ hheld)
    refine ⟨fun hmem' => ?_, fun hlive => by rwa [Function.update_of_ne hne]⟩
    obtain ⟨-, heq⟩ | ⟨-, hmem'⟩ := (mem_relinked h.lists).mp hmem'
    · exact hne heq
    · exact hmem hmem'

section

omit [DecidableEq T] [Fintype W]

/-- A work is cancelled. -/
theorem cancelWork (h : CallInv s live σ) (hcurrent : s.workCurrent () ≠ some work)
    (hmeets : Committed s →
      rtListIsempty (.inl ()) (rtListRemove (.inr work) s.links) = false)
    (hlinks : s'.links = rtListRemove (.inr work) s.links) (hworker : s'.worker = s.worker)
    (hcurrent' : s'.workCurrent = s.workCurrent) :
    CallInv s' (Function.update live work false) (erase σ work) := by
  have hremoved := h.lists.remove work
  refine h.stay (hlinks ▸ hremoved) hworker hcurrent' ?_ ?_ ?_
  · intro work' hmem
    obtain ⟨hne, hmem⟩ := h.lists.mem_erase.mp hmem
    rw [Function.update_of_ne hne]
    exact h.alive work' hmem
  · intro hcommitted
    have hsome := hmeets hcommitted
    rwa [decide_eq_false_iff_not, hremoved.next_head_eq_self] at hsome
  · intro held hheld hmem
    have hne : held ≠ work := fun heq => hcurrent (heq ▸ hheld)
    exact ⟨fun hmem' => hmem (h.lists.mem_erase.mp hmem').2, fun hlive => by
      rwa [Function.update_of_ne hne]⟩

/-- All works are cancelled. -/
theorem cancelAllWork {links : Links (Unit ⊕ W)} (h : CallInv s live σ) (hmeets : ¬ Committed s)
    (hlinks : RingList.Holds links (Function.update σ () [])) :
    CallInv { s with links }
      (fun work => live work && (!linked s work || linked { s with links } work))
      (Function.update σ () []) := by
  refine h.stay hlinks rfl rfl (by simp) (fun hcommitted => absurd hcommitted hmeets) ?_
  intro held _ hmem
  refine ⟨by simp, fun hlive => ?_⟩
  have hunlinked : linked s held = false := by
    rw [linked, decide_eq_false_iff_not, ← h.lists.linked_iff]
    rintro ⟨⟨⟩, hmem'⟩
    exact hmem hmem'
  rw [hlive, hunlinked]
  rfl

end

theorem step {event : WorkEvent Unit W T} {output : WorkOutput W} (h : CallInv s live σ)
    (hmeets : CallMeets event ⟨s, live⟩) (hstep : s.Stepped event s' output) :
    ∃ σ', CallInv s' (liveAfter event output s s' live) σ' := by
  -- only the worker that takes a work, and the calls about it, change what is linked
  cases hstep with
  | testEmpty queue hplace hempty =>
    exact ⟨σ, h.move .suspend false (by simp [Committed, setWorker]) (by simp) trivial rfl rfl⟩
  | testSome queue hplace hsome =>
    -- it goes on to take what it has seen
    rw [decide_eq_false_iff_not, h.lists.next_head_eq_self] at hsome
    exact ⟨σ, h.move .take false (fun _ => hsome) (by simp) trivial rfl rfl⟩
  | suspend queue hplace =>
    exact ⟨σ, h.move .schedule true (by simp [Committed, setWorker]) (fun _ => rfl) trivial rfl rfl⟩
  | sleep queue hplace hsuspended => exact ⟨σ, h⟩
  | wake queue hplace hawake =>
    have hsome := h.filled (.inr ⟨hplace, hawake⟩)
    exact ⟨σ, h.move .take false (fun _ => hsome) (by simp) trivial rfl rfl⟩
  | take queue work hplace hnext =>
    -- the work leaves the list in the critical section that makes it the current one
    obtain ⟨rest, hrest⟩ := h.lists.next_head_eq_elem hnext
    have hmem : work ∈ σ () := by
      rw [hrest]
      exact List.mem_cons_self
    refine ⟨erase σ work, h.lists.remove work, ?_, ?_, ?_, ?_, ?_⟩
    · exact fun work' hmem' => h.alive work' (h.lists.mem_erase.mp hmem').2
    · simp [Committed, setWorker]
    · simp [setWorker]
    · intro held hheld
      obtain rfl : work = held := by simpa [setWorker] using hheld
      refine ⟨?_, h.lists.fresh_erase work (), h.alive work hmem⟩
      exact Function.update_self () (some work) s.workCurrent
    · simp [setWorker]
  | call queue work hplace =>
    obtain ⟨hcurrent, hmem, -⟩ := h.call work hplace
    refine ⟨σ, h.lists, ?_, ?_, ?_, ?_, ?_⟩
    · intro work' hmem'
      -- the work that is called may end, but none that is still linked
      have hne : work' ≠ work := fun heq => hmem (heq ▸ hmem')
      simp only [liveAfter, Function.update_of_ne hne]
      exact h.alive work' hmem'
    · simp [Committed, setWorker]
    · simp [setWorker]
    · simp [setWorker]
    · intro held hheld
      obtain rfl : work = held := by simpa [setWorker] using hheld
      exact ⟨hcurrent, hmem⟩
  | clear queue work hplace =>
    exact ⟨σ, h.move .completion false (by simp [Committed, setWorker]) (by simp) trivial rfl rfl⟩
  | completion queue hplace =>
    exact ⟨σ, h.move .test false (by simp [Committed, setWorker]) (by simp) trivial rfl rfl⟩
  | dowork caller queue work hcaller hpending hcurrent =>
    exact ⟨_, h.linkWork caller hcurrent rfl rfl rfl⟩
  | criticalWork caller queue work hcaller hcurrent => exact ⟨_, h.linkWork caller hcurrent rfl rfl rfl⟩
  | cancelWork queue work event hevent hcurrent =>
    obtain rfl | ⟨caller, hcaller, rfl⟩ := hevent
    -- the list is not emptied under a worker that is about to take from it
    · exact ⟨_, h.cancelWork hcurrent (fun hc => hmeets hc hcurrent) rfl rfl rfl⟩
    · exact ⟨_, h.cancelWork hcurrent (fun hc => hmeets hc hcaller hcurrent) rfl rfl rfl⟩
  | cancelWorkSync caller queue work hcaller hcurrent =>
    exact ⟨σ, h.stay h.lists rfl rfl h.alive h.filled fun _ _ hmem => ⟨hmem, id⟩⟩
  | cancelAllWork queue links hcall =>
    obtain ⟨links', hcall', hlinks⟩ := rtWorkqueueCancelAllWork_holds h.lists queue
    obtain rfl : links' = links :=
      congrArg (fun r => r.1.links) (Except.ok.inj (hcall'.symm.trans hcall))
    exact ⟨_, h.cancelAllWork hmeets hlinks⟩
  | resumeFails caller queue hcaller hawake =>
    exact ⟨σ, h.stay h.lists rfl rfl h.alive h.filled fun _ _ hmem => ⟨hmem, id⟩⟩
  | resume caller queue hcaller hsuspended =>
    exact ⟨σ, h.stay h.lists rfl rfl h.alive h.filled fun _ _ hmem => ⟨hmem, id⟩⟩
  | resumed caller queue hcaller =>
    refine ⟨σ, h.lists, h.alive, ?_, by simp [setWorker], ?_, ?_⟩
    · rintro (htake | ⟨hschedule, -⟩)
      · exact h.filled (.inl (by simpa [setWorker] using htake))
      -- a worker that is woken finds a work
      · have hsome := hmeets hcaller (by simpa [setWorker] using hschedule)
        rwa [decide_eq_false_iff_not, h.lists.next_head_eq_self] at hsome
    · exact fun work hplace => h.call work (by simpa [setWorker] using hplace)
    · exact fun work hplace => h.clear work (by simpa [setWorker] using hplace)
  | synced caller work hcaller =>
    exact ⟨σ, h.stay h.lists rfl rfl h.alive h.filled fun _ _ hmem => ⟨hmem, id⟩⟩
  | refused event output hevent houtput =>
    have hlive : liveAfter event output s s live = live := by
      obtain rfl | rfl := houtput
      · cases event <;> simp [liveAfter]
      · cases event <;> simp [liveAfter, rtEok, rtEbusy]
    exact ⟨σ, by rwa [hlive]⟩

omit [DecidableEq T] [Fintype W] in
/-- The worker finds a work where it expects one. -/
theorem workqueueThreadEntry (h : CallInv s live σ) :
    s.workqueueThreadEntry () ≠ .error .wildPointer := by
  unfold Workqueues.workqueueThreadEntry
  split
  case h_1 => split <;> simp [pure, Except.pure]
  case h_3 => split <;> simp [pure, Except.pure]
  case h_4 hplace =>
    obtain ⟨work, rest, hrest⟩ := List.exists_cons_of_ne_nil (h.filled (.inl hplace))
    have hnext : s.links.next (.inl ()) = .inr work := by
      rw [h.lists.next_head, hrest, firstOr_cons]
    simp [hnext, pure, Except.pure]
  all_goals simp [pure, Except.pure]

end CallInv

end TrackedQueue

end PandoraRobot.Drivers
