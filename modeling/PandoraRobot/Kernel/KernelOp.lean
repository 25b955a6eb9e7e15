import PandoraRobot.Kernel.Clock

/-! # Calls of the kernel

The calls a thread or a timeout function can make, as data.  Each keeps the invariant
of the scheduler and is about at most one thread, its `subject`.
-/

namespace PandoraRobot.Kernel

open PandoraRobot.RingList

/-- The same call on timers under other names. -/
def TimerOp.map {A B : Type} (f : A → B) : TimerOp A → TimerOp B
  | .init t time flag => .init (f t) time flag
  | .create t time flag => .create (f t) time flag
  | .start t => .start (f t)
  | .stop t => .stop (f t)
  | .control t cmd arg => .control (f t) cmd arg
  | .detach t => .detach (f t)
  | .delete t => .delete (f t)

@[simp] theorem TimerOp.map_timer {A B : Type} (f : A → B) (op : TimerOp A) :
    (op.map f).timer = f op.timer := by
  cases op <;> rfl

/-- A call of a kernel operation.  Priorities are below `RT_THREAD_PRIORITY_MAX`. -/
inductive KernelOp (T U I : Type) where
  | init (t : T) (priority : Nat) (tick : Tick)
  | create (t : T) (priority : Nat) (tick : Tick)
  | setCleanup (t : T) (cleanup : Bool)
  | startup (t : T)
  | detach (t : T)
  | delete (t : T)
  | changePriority (t : T) (priority : Fin rtThreadPriorityMax)
  | suspend (t : T)
  | resume (t : T)
  | yield
  | sleep (tick : Tick)
  | sleepReturn (t : T)
  | exit
  | schedule
  | enterCritical
  | exitCritical
  | listResume (i : I)
  | timer (op : TimerOp U)
  deriving DecidableEq

namespace KernelOp

variable {T U I : Type} [DecidableEq T] [DecidableEq U] [DecidableEq I] [Fintype T] [Fintype U]

def exec : KernelOp T U I → State T U I → Exec (State T U I)
  | init t priority tick, k => k.rtThreadInit t priority tick
  | create t priority tick, k => k.rtThreadCreate t priority tick
  | setCleanup t cleanup, k => k.setCleanup t cleanup
  | startup t, k => k.rtThreadStartup t
  | detach t, k => k.rtThreadDetach t
  | delete t, k => k.rtThreadDelete t
  | changePriority t priority, k => k.rtThreadControl t (.changePriority priority)
  | suspend t, k => do
    let (k, _) ← k.rtThreadSuspend t
    pure k
  | resume t, k => do
    let (k, _) ← k.rtThreadResume t
    pure k
  | yield, k => k.rtThreadYield
  | sleep tick, k => k.rtThreadSleep tick
  | sleepReturn t, k => pure (k.rtThreadSleepReturn t)
  | exit, k => k.rtThreadExit
  | schedule, k => k.rtSchedule
  | enterCritical, k => pure k.rtEnterCritical
  | exitCritical, k => k.rtExitCritical
  | listResume i, k => k.rtIpcListResume i
  | timer op, k => k.liftTimers (op.map .inr).exec id

/-- The thread a call is about. -/
def subject (k : State T U I) : KernelOp T U I → Option T
  | init t _ _ | create t _ _ | setCleanup t _ | startup t | detach t | delete t
  | changePriority t _ | suspend t | resume t | sleepReturn t => some t
  | yield | sleep _ | exit | enterCritical | exitCritical => k.rtCurrentThread
  | listResume i => (k.tlist.next (.inl (.suspend i))).getRight?
  | schedule | timer _ => none

/-- The thread a call names. -/
def target : KernelOp T U I → Option T
  | init t _ _ | create t _ _ | setCleanup t _ | startup t | detach t | delete t
  | changePriority t _ | suspend t | resume t | sleepReturn t => some t
  | _ => none

/-- Whether a call is about the thread that makes it. -/
def own : KernelOp T U I → Bool
  | yield | sleep _ | exit | enterCritical | exitCritical => true
  | _ => false

/-- Whether a call is about no thread, or about the lock of the scheduler only. -/
def Apart : KernelOp T U I → Prop
  | schedule | enterCritical | exitCritical | timer _ => True
  | _ => False

omit [DecidableEq T] [DecidableEq U] [DecidableEq I] [Fintype T] [Fintype U] in
/-- A call is about the thread it names, the running thread or a thread of a wait list. -/
theorem subject_ne {k : State T U I} {σ : ListHead I → List T} {op : KernelOp T U I} {t : T}
    (hσ : Holds k.tlist σ) (hwaits : ∀ i, t ∉ σ (.suspend i)) (htarget : op.target ≠ some t)
    (hown : op.own = true → k.rtCurrentThread ≠ some t) : op.subject k ≠ some t := by
  cases op with
  | listResume i =>
    intro hsub
    simp only [subject, hσ.next_head] at hsub
    cases hlist : σ (.suspend i) with
    | nil => simp [hlist] at hsub
    | cons u rest =>
      refine hwaits i ?_
      have hut : u = t := by simpa [hlist] using hsub
      simp [hlist, hut]
  | yield | sleep | exit | enterCritical | exitCritical => exact hown rfl
  | schedule | timer => exact fun h => by cases h
  | _ => exact htarget

end KernelOp

namespace State

variable {T U I : Type} [DecidableEq T] [DecidableEq U] [DecidableEq I] [Fintype T] [Fintype U]

variable {lo : Int} {out : Set T} {k k' : State T U I} {σ σ' : ListHead I → List T}
  {zs zs' : List (T ⊕ U)} {t : T}

/-- A call that is not about the lock of the scheduler leaves the running thread alone, up to a
    call of `rt_schedule` at its end. -/
theorem exec_schedules {op : KernelOp T U I} (h : op.exec k = .ok k')
    (hop : op ≠ .enterCritical ∧ op ≠ .exitCritical) :
    SameRun k k' ∨ ∃ k₁ : State T U I, SameRun k k₁ ∧ k₁.rtSchedule = .ok k' := by
  cases op with
  | init t priority tick =>
    simp only [KernelOp.exec, rtThreadInit, exec_bind_ok] at h
    obtain ⟨_, -, h⟩ := h
    have hsame := rtThreadInitFields_sameRun h
    exact .inl ⟨hsame.1, hsame.2⟩
  | create t priority tick =>
    simp only [KernelOp.exec, rtThreadCreate, exec_bind_ok] at h
    obtain ⟨_, -, h⟩ := h
    have hsame := rtThreadInitFields_sameRun h
    exact .inl ⟨hsame.1, hsame.2⟩
  | setCleanup t cleanup =>
    simp only [KernelOp.exec, setCleanup, exec_bind_ok, exec_pure_ok] at h
    obtain ⟨_, -, rfl⟩ := h
    exact .inl ⟨rfl, rfl⟩
  | startup t =>
    simp only [KernelOp.exec, rtThreadStartup, exec_bind_ok] at h
    obtain ⟨_, -, _, -, ⟨k₁, err⟩, hresume, h⟩ := h
    have hsame : SameRun k k₁ :=
      ⟨(rtThreadResume_sameRun hresume).1, (rtThreadResume_sameRun hresume).2⟩
    split at h
    · exact .inr ⟨k₁, hsame, h⟩
    · simp only [exec_pure_ok] at h
      exact .inl (h ▸ hsame)
  | detach t =>
    simp only [KernelOp.exec, rtThreadDetach, exec_bind_ok, exec_pure_ok] at h
    obtain ⟨_, -, _, -, k₁, hleave, k₂, htimer, rfl⟩ := h
    have hclosed : SameRun k₂ (k₂.setStat t .close) := ⟨rfl, rfl⟩
    exact .inl ((((leaveScheduler_sameRun hleave).trans (liftTimers_sameRun htimer)).trans
      hclosed).trans detachOrDefunct_sameRun)
  | delete t =>
    simp only [KernelOp.exec, rtThreadDelete, exec_bind_ok, exec_pure_ok] at h
    obtain ⟨_, -, _, -, k₁, hleave, k₂, htimer, rfl⟩ := h
    have hclosed : SameRun k₂ ((k₂.setStat t .close).insertDefunct t) := ⟨rfl, rfl⟩
    exact .inl (((leaveScheduler_sameRun hleave).trans (liftTimers_sameRun htimer)).trans hclosed)
  | changePriority t priority => exact .inl (changePriority_sameRun h)
  | suspend t =>
    simp only [KernelOp.exec, exec_bind_ok, exec_pure_ok] at h
    obtain ⟨⟨k₁, err⟩, hsuspend, rfl⟩ := h
    exact .inl (rtThreadSuspend_sameRun hsuspend)
  | resume t =>
    simp only [KernelOp.exec, exec_bind_ok, exec_pure_ok] at h
    obtain ⟨⟨k₁, err⟩, hresume, rfl⟩ := h
    exact .inl (rtThreadResume_sameRun hresume)
  | yield => exact rtThreadYield_schedules h
  | sleep tick =>
    cases hcur : k.rtCurrentThread with
    | none => simp [KernelOp.exec, rtThreadSleep, hcur] at h
    | some t =>
    simp only [KernelOp.exec, rtThreadSleep, hcur, exec_bind_ok] at h
    obtain ⟨t, -, _, -, ⟨k₁, err⟩, hsuspend, k₂, hset, k₃, hstart, h⟩ := h
    exact .inr ⟨k₃, ((rtThreadSuspend_sameRun hsuspend).trans (liftTimers_sameRun hset)).trans
      (liftTimers_sameRun hstart), h⟩
  | sleepReturn t =>
    simp only [KernelOp.exec, rtThreadSleepReturn, exec_pure_ok] at h
    left
    subst h
    split <;> exact ⟨rfl, rfl⟩
  | exit =>
    simp only [KernelOp.exec, rtThreadExit, exec_bind_ok] at h
    obtain ⟨t, -, k₁, hremove, k₂, htimer, h⟩ := h
    have hclosed : SameRun k₁ (k₁.setStat t .close) := ⟨rfl, rfl⟩
    exact .inr ⟨_, (((rtScheduleRemoveThread_sameRun hremove).trans hclosed).trans
      (liftTimers_sameRun htimer)).trans detachOrDefunct_sameRun, h⟩
  | schedule => exact .inr ⟨k, ⟨rfl, rfl⟩, h⟩
  | enterCritical => exact absurd rfl hop.1
  | exitCritical => exact absurd rfl hop.2
  | listResume i =>
    simp only [KernelOp.exec, rtIpcListResume] at h
    split at h
    · simp at h
    · simp only [exec_bind_ok, exec_pure_ok] at h
      obtain ⟨⟨k₁, err⟩, hresume, rfl⟩ := h
      exact .inl (rtThreadResume_sameRun hresume)
  | timer op => exact .inl (liftTimers_sameRun h)

theorem Wf.exec_runsOn (hk' : Wf lo out k' σ' zs') {op : KernelOp T U I}
    (h : op.exec k = .ok k') (hsub : op.subject k ≠ some t) : RunsOn t k k' := by
  by_cases hop : op ≠ .enterCritical ∧ op ≠ .exitCritical
  · obtain hsame | ⟨k₁, hsame, hschedule⟩ := exec_schedules h hop
    · exact hsame.runsOn
    · exact hk'.runsOn_schedule hsame hschedule
  -- the lock is taken and released by the running thread, which is not `t`
  rw [not_and_or, not_not, not_not] at hop
  have hstays : k.rtCurrentThread ≠ some t → k'.rtCurrentThread = k.rtCurrentThread →
      RunsOn t k k' :=
    fun hcur hsame => ⟨fun hruns => absurd (hsame ▸ hruns) hcur, fun hsome => by rwa [hsame]⟩
  cases hop with
  | inl henter =>
    subst henter
    simp only [KernelOp.exec, exec_pure_ok] at h
    exact hstays hsub (h ▸ rfl)
  | inr hexit =>
    subst hexit
    cases hk'.runsOn_exitCritical (t := t) h with
    | inl hsame => exact hstays hsub hsame.1
    | inr hruns =>
      refine ⟨fun hpicked => ?_, hruns.running⟩
      cases hruns.picked hpicked with
      | inl hsame => exact absurd hsame.1 hsub
      | inr hready => exact .inr hready

omit [DecidableEq U] [Fintype T] [Fintype U] in
/-- A thread that goes into a ready list is in no wait list. -/
theorem Wf.requeued_waits (hk : Wf lo out k σ zs) {p : Nat}
    (hσ' : σ' = pushBack (erase σ t) (.ready p) t) (i : I) (hm : t ∈ σ' (.suspend i)) :
    t ∈ σ (.suspend i) := by
  rw [hσ', mem_pushBack] at hm
  simp only [reduceCtorEq, false_and, false_or] at hm
  exact (hk.holds.mem_erase.mp hm).2

omit [DecidableEq U] [DecidableEq I] [Fintype T] [Fintype U] in
theorem Keeps.untouched {u : T} (h : Keeps lo out u k σ zs k') :
    ∃ σ' zs', Wf lo out k' σ' zs' ∧ (∀ t, u ≠ t → Untouched t k σ zs k' σ' zs') ∧
      ∀ i, u ∉ σ (.suspend i) → σ' (.suspend i) = σ (.suspend i) := by
  obtain ⟨σ', zs', hk', htouch, hwaits⟩ := h
  refine ⟨σ', zs', hk', fun t hne => htouch.untouched hne.symm, fun i hnot => ?_⟩
  have hlists := congrFun htouch.lists (.suspend i)
  rwa [erase_of_notMem hnot, erase_of_notMem fun hm => hnot (hwaits i hm)] at hlists

/-- A call that is not apart is about its subject only. -/
theorem Wf.exec_keeps (hk : Wf lo out k σ zs) {op : KernelOp T U I} (hop : ¬ op.Apart)
    (h : op.exec k = .ok k') :
    ∃ t, op.subject k = some t ∧ (t ∉ out → Keeps lo out t k σ zs k') := by
  have hcurrent : ∀ {t}, k.rtThreadSelf = .ok t → k.rtCurrentThread = some t := rtThreadSelf_eq
  cases op with
  | schedule | enterCritical | exitCritical | timer => exact absurd trivial hop
  | init t priority tick => exact ⟨t, rfl, fun ht => hk.rtThreadInit ht h⟩
  | create t priority tick => exact ⟨t, rfl, fun ht => hk.rtThreadCreate ht h⟩
  | setCleanup t cleanup => exact ⟨t, rfl, fun _ => hk.setCleanup h⟩
  | startup t => exact ⟨t, rfl, fun ht => hk.rtThreadStartup ht h⟩
  | detach t => exact ⟨t, rfl, fun ht => hk.rtThreadDetach ht h⟩
  | delete t => exact ⟨t, rfl, fun ht => hk.rtThreadDelete ht h⟩
  | changePriority t priority =>
    refine ⟨t, rfl, fun ht => ?_⟩
    obtain ⟨σ', hk', htouch, -, -, -, hwaits⟩ := hk.changePriority ht priority.isLt h
    exact ⟨σ', zs, hk', htouch, fun i hm => hwaits i ▸ hm⟩
  | suspend t =>
    refine ⟨t, rfl, fun ht => ?_⟩
    simp only [KernelOp.exec, exec_bind_ok, exec_pure_ok] at h
    obtain ⟨⟨k₁, err⟩, hsuspend, rfl⟩ := h
    obtain ⟨-, ⟨-, rfl, -⟩ | ⟨-, -, s, zs', -, -, hk', htouch⟩⟩ := hk.rtThreadSuspend ht hsuspend
    · exact hk.keeps_refl t
    · exact ⟨_, zs', hk', htouch, fun i hm => (hk.holds.mem_erase.mp hm).2⟩
  | resume t =>
    refine ⟨t, rfl, fun ht => ?_⟩
    simp only [KernelOp.exec, exec_bind_ok, exec_pure_ok] at h
    obtain ⟨⟨k₁, err⟩, hresume, rfl⟩ := h
    obtain ⟨-, ⟨-, rfl, -⟩ | ⟨-, -, s, zs', σ', -, -, hσ', hk', htouch⟩⟩ :=
      hk.rtThreadResume ht hresume
    · exact hk.keeps_refl t
    · exact ⟨σ', zs', hk', htouch, hk.requeued_waits hσ'⟩
  | yield =>
    obtain ⟨t, hself⟩ : ∃ t, k.rtThreadSelf = .ok t := by
      simp only [KernelOp.exec, State.rtThreadYield, exec_bind_ok] at h
      exact ⟨_, h.choose_spec.1⟩
    refine ⟨t, hcurrent hself, fun _ => ?_⟩
    obtain rfl | ⟨-, -, c, p, σ', -, hσ', hk', htouch⟩ := hk.rtThreadYield (hcurrent hself) h
    · exact hk.keeps_refl t
    · exact ⟨σ', zs, hk', htouch, hk.requeued_waits hσ'⟩
  | sleep tick =>
    cases hcur : k.rtCurrentThread with
    | none => simp [KernelOp.exec, State.rtThreadSleep, hcur] at h
    | some t => exact ⟨t, hcur, fun ht => hk.rtThreadSleep hcur ht h⟩
  | sleepReturn t =>
    simp only [KernelOp.exec, exec_pure_ok] at h
    exact ⟨t, rfl, fun _ => h ▸ hk.rtThreadSleepReturn⟩
  | exit =>
    obtain ⟨t, hself⟩ : ∃ t, k.rtThreadSelf = .ok t := by
      simp only [KernelOp.exec, State.rtThreadExit, exec_bind_ok] at h
      exact ⟨_, h.choose_spec.1⟩
    exact ⟨t, hcurrent hself, fun ht => hk.rtThreadExit (hcurrent hself) ht h⟩
  -- the subject is the first of the list, which has one if the call returns
  | listResume i =>
    obtain ⟨t, rest, zs', σ', -, hσ, -, hσ', hk', htouch, -⟩ := hk.rtIpcListResume h
    refine ⟨t, by simp [KernelOp.subject, hk.holds.next_head, hσ], fun _ => ?_⟩
    exact ⟨σ', zs', hk', htouch, hk.requeued_waits hσ'⟩

/-- A call that is apart changes no list and no thread. -/
theorem Wf.exec_apart (hk : Wf lo out k σ zs) {op : KernelOp T U I} (hop : op.Apart)
    (h : op.exec k = .ok k') :
    ∃ zs', Wf lo out k' σ zs' ∧ k'.thread = k.thread ∧ ∀ t, Untouched t k σ zs k' σ zs' := by
  cases op with
  | schedule =>
    obtain ⟨c, p, rfl, -, -⟩ := rtSchedule_eq h
    exact ⟨zs, hk.switched c p, rfl, fun _ => .refl rfl rfl⟩
  | enterCritical =>
    simp only [KernelOp.exec, exec_pure_ok] at h
    subst h
    exact ⟨zs, hk.rtEnterCritical, rfl, fun _ => .refl rfl rfl⟩
  | exitCritical =>
    have hk' := hk.rtExitCritical h
    obtain ⟨n, c, p, rfl⟩ := rtExitCritical_eq h
    exact ⟨zs, hk', rfl, fun _ => .refl rfl rfl⟩
  | timer op =>
    obtain ⟨s, hexec, rfl⟩ := liftTimers_eq_ok.mp h
    obtain ⟨zs', hk', heff, htick⟩ := hk.userTimerOp (by simp) hexec
    refine ⟨zs', hk', rfl, fun t => ?_⟩
    obtain ⟨htimer, hlinked⟩ := heff.other (.inl t) (by simp)
    exact ⟨⟨_, rfl⟩, htimer, hlinked, fun _ => Iff.rfl, htick⟩
  | _ => exact hop.elim

/-- A call keeps the invariant of the scheduler, and touches no thread but its subject and no
    wait list but the one its subject is in. -/
theorem Wf.exec (hk : Wf lo out k σ zs) {op : KernelOp T U I}
    (hout : ∀ t ∈ out, op.subject k ≠ some t) (h : op.exec k = .ok k') :
    ∃ σ' zs', Wf lo out k' σ' zs' ∧
      (∀ t, op.subject k ≠ some t → Untouched t k σ zs k' σ' zs') ∧
      ∀ i, (∀ t, op.subject k = some t → t ∉ σ (.suspend i)) →
        σ' (.suspend i) = σ (.suspend i) := by
  by_cases hop : op.Apart
  · obtain ⟨zs', hk', -, huntouched⟩ := hk.exec_apart hop h
    exact ⟨σ, zs', hk', fun t _ => huntouched t, fun _ _ => rfl⟩
  · obtain ⟨u, hsub, hkeeps⟩ := hk.exec_keeps hop h
    obtain ⟨σ', zs', hk', hothers, hwaits⟩ := (hkeeps fun hm => hout u hm hsub).untouched
    refine ⟨σ', zs', hk', fun t hne => hothers t ?_, fun i hnot => hwaits i (hnot u hsub)⟩
    rintro rfl
    exact hne hsub

end State

end PandoraRobot.Kernel
