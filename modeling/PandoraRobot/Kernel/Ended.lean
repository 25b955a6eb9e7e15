import PandoraRobot.Kernel.Blocking

/-! # Threads that have ended

A thread that is closed goes on to be closed, and stays where it is, until the idle thread takes
it.  Threads that are `out`, because a call is about to end them, stay as they are and do not run,
whatever else goes on, as long as it is not about them.
-/

namespace PandoraRobot.Kernel

open PandoraRobot.RingList

namespace State

variable {T U I : Type}

/-- `t` is closed, and its object is still there. -/
def Ended (k : State T U I) (t : T) : Prop := (k.thread t).stat = .close ∧ (k.thread t).type ≠ .null

/-- From `k` to `k'` the threads `out` stay as they are but for their time slice, and do not begin
    to run.  Of the others those that have ended stay where they are, and those that end come into
    the defunct list. -/
structure Goes (out : Set T) (k : State T U I) (σ : ListHead I → List T) (zs : List (T ⊕ U))
    (lo : Int) (k' : State T U I) (σ' : ListHead I → List T) (zs' : List (T ⊕ U)) : Prop where
  wf : Wf lo out k' σ' zs'
  slice : ∀ t ∈ out, ∃ remainingTick,
    k'.thread t = { k.thread t with remainingTick := remainingTick }
  timer : ∀ t ∈ out, k'.timers.timer (.inl t) = k.timers.timer (.inl t)
  linked : ∀ t ∈ out, .inl t ∈ zs' ↔ .inl t ∈ zs
  away : ∀ t ∈ out, k.rtCurrentThread ≠ some t → k'.rtCurrentThread ≠ some t
  stays : ∀ t ∉ out, k.Ended t → k'.Ended t ∧ (k'.thread t).type = (k.thread t).type ∧
    ∀ h, t ∈ σ' h ↔ t ∈ σ h
  ends : ∀ t ∉ out, ¬ k.Ended t → k'.Ended t → t ∈ σ' .defunct

variable {lo lo₁ lo' : Int} {out : Set T} {k k₁ k' : State T U I} {σ σ₁ σ' : ListHead I → List T}
  {zs zs₁ zs' : List (T ⊕ U)} {t u : T}

theorem Goes.refl (hk : Wf lo out k σ zs) : Goes out k σ zs lo k σ zs where
  wf := hk
  slice _ _ := ⟨_, rfl⟩
  timer _ _ := rfl
  linked _ _ := Iff.rfl
  away _ _ := id
  stays _ _ hended := ⟨hended, rfl, fun _ => Iff.rfl⟩
  ends _ _ hnot hended := absurd hended hnot

theorem Goes.trans (h₁ : Goes out k σ zs lo₁ k₁ σ₁ zs₁) (h₂ : Goes out k₁ σ₁ zs₁ lo' k' σ' zs') :
    Goes out k σ zs lo' k' σ' zs' where
  wf := h₂.wf
  slice t ht := by
    obtain ⟨n, hn⟩ := h₁.slice t ht
    obtain ⟨m, hm⟩ := h₂.slice t ht
    exact ⟨m, by rw [hm, hn]⟩
  timer t ht := (h₂.timer t ht).trans (h₁.timer t ht)
  linked t ht := (h₂.linked t ht).trans (h₁.linked t ht)
  away t ht hne := h₂.away t ht (h₁.away t ht hne)
  stays t ht hended := by
    obtain ⟨hended₁, htype₁, hlists₁⟩ := h₁.stays t ht hended
    obtain ⟨hended₂, htype₂, hlists₂⟩ := h₂.stays t ht hended₁
    exact ⟨hended₂, htype₂.trans htype₁, fun h => (hlists₂ h).trans (hlists₁ h)⟩
  ends t ht hnot hended := by
    by_cases hended₁ : k₁.Ended t
    · exact (h₂.stays t ht hended₁).2.2 .defunct |>.mpr (h₁.ends t ht hnot hended₁)
    · exact h₂.ends t ht hended₁ hended

/-! ## Calls about a thread -/

/-- A thread whose timer is registered has not ended. -/
theorem Wf.not_ended (hk : Wf lo out k σ zs) (ht : t ∉ out)
    (hregistered : (k.timers.timer (.inl t)).type ≠ .null) : ¬ k.Ended t :=
  fun hended => hregistered ((hk.closed t ht).mpr (.inl hended.1))

variable [DecidableEq T] [DecidableEq U] in
theorem registered_of_detach (h : k.liftTimers (·.rtTimerDetach (.inl t)) id = .ok k') :
    (k.timers.timer (.inl t)).type ≠ .null := by
  obtain ⟨s, hdetach, -⟩ := liftTimers_eq_ok.mp h
  simp only [Timers.rtTimerDetach, exec_bind_ok, rtAssert_eq_ok] at hdetach
  obtain ⟨_, hregistered, -⟩ := hdetach
  exact hregistered

variable [DecidableEq T] [DecidableEq I]

/-- A thread that is put into the defunct list is in front of it. -/
theorem mem_defunct (hholds : Holds k'.tlist σ') (h : k'.tlist = (k.insertDefunct t).tlist) :
    t ∈ σ' .defunct := by
  have hnext : k'.tlist.next (.inl .defunct) = .inr t := by
    rw [h]
    simp [State.insertDefunct, rtListInsertAfter, Links.insertAfter, Links.setNext, Links.setPrev]
  obtain ⟨rest, hσ⟩ := hholds.next_head_eq_elem hnext
  simp [hσ]

theorem ended_detachOrDefunct (hholds : Holds (k.detachOrDefunct t).tlist σ')
    (hended : (k.detachOrDefunct t).Ended t) : t ∈ σ' .defunct := by
  unfold State.detachOrDefunct at hholds hended
  split at hended
  · exact absurd (by simp) hended.2
  case isFalse hcond =>
    rw [if_neg hcond] at hholds
    exact mem_defunct hholds rfl

omit [DecidableEq T] [DecidableEq I] in
theorem not_ended_of_stat (h : (k.thread t).stat ≠ .close) : ¬ k.Ended t := fun hended => h hended.1

variable [DecidableEq U]

theorem rtThreadInitFields_init {priority : Nat} {tick : Tick}
    (h : k.rtThreadInitFields t priority tick = .ok k') : (k'.thread t).stat = .init := by
  simp only [State.rtThreadInitFields, exec_bind_ok] at h
  obtain ⟨_, -, hinit⟩ := h
  obtain ⟨s, -, rfl⟩ := liftTimers_eq_ok.mp hinit
  simp

theorem rtThreadStartup_stat (h : k.rtThreadStartup t = .ok k') :
    (k.thread t).stat = .init ∧ (k'.thread t).stat = .ready := by
  simp only [State.rtThreadStartup, exec_bind_ok, rtAssert_eq_ok] at h
  obtain ⟨_, hinit, _, -, ⟨k₁, err⟩, hresume, hend⟩ := h
  refine ⟨hinit, ?_⟩
  simp only [State.rtThreadResume, exec_bind_ok] at hresume
  obtain ⟨_, -, hresume⟩ := hresume
  rw [if_neg (by simp)] at hresume
  simp only [exec_bind_ok, exec_pure_ok, Prod.mk.injEq] at hresume
  obtain ⟨k₂, -, k₃, hinsert, rfl, -⟩ := hresume
  obtain ⟨-, rfl⟩ := rtScheduleInsertThread_eq hinsert
  split at hend
  · obtain ⟨c, p, rfl, -⟩ := rtSchedule_eq hend
    simp
  · simp only [exec_pure_ok] at hend
    subst hend
    simp

variable [Fintype T] [Fintype U]

/-- A call about a thread leaves its links and its state as they are, or else the thread has not
    ended before, and if it has afterwards it is in the defunct list. -/
theorem Wf.exec_ends (hk : Wf lo out k σ zs) (ht : t ∉ out) {op : KernelOp T U I}
    (hsub : op.subject k = some t) (h : op.exec k = .ok k') (hholds : Holds k'.tlist σ') :
    (k'.tlist = k.tlist ∧ (k'.thread t).stat = (k.thread t).stat ∧
        (k'.thread t).type = (k.thread t).type) ∨
      (¬ k.Ended t ∧ (k'.Ended t → t ∈ σ' .defunct)) := by
  -- a call after which the thread is not closed
  have hlives : (k.thread t).stat ≠ .close → (k'.thread t).stat ≠ .close →
      ¬ k.Ended t ∧ (k'.Ended t → t ∈ σ' .defunct) := fun hbefore hafter =>
    ⟨not_ended_of_stat hbefore, fun hended => absurd hended (not_ended_of_stat hafter)⟩
  cases op with
  | schedule => cases hsub
  | timer op => cases hsub
  | init u priority tick =>
    obtain rfl := Option.some.inj hsub
    simp only [KernelOp.exec, State.rtThreadInit, exec_bind_ok, rtAssert_eq_ok] at h
    obtain ⟨_, hnull, hfields⟩ := h
    exact .inr ⟨fun hended => hended.2 hnull,
      fun hended => absurd hended (not_ended_of_stat (by simp [rtThreadInitFields_init hfields]))⟩
  | create u priority tick =>
    obtain rfl := Option.some.inj hsub
    simp only [KernelOp.exec, State.rtThreadCreate, exec_bind_ok, rtAssert_eq_ok] at h
    obtain ⟨_, hnull, hfields⟩ := h
    exact .inr ⟨fun hended => hended.2 hnull,
      fun hended => absurd hended (not_ended_of_stat (by simp [rtThreadInitFields_init hfields]))⟩
  | setCleanup u cleanup =>
    obtain rfl := Option.some.inj hsub
    simp only [KernelOp.exec, State.setCleanup, exec_bind_ok, exec_pure_ok] at h
    obtain ⟨_, -, rfl⟩ := h
    exact .inl ⟨rfl, by simp, by simp⟩
  | startup u =>
    obtain rfl := Option.some.inj hsub
    obtain ⟨hinit, hready⟩ := rtThreadStartup_stat h
    exact .inr (hlives (by simp [hinit]) (by simp [hready]))
  | detach u =>
    obtain rfl := Option.some.inj hsub
    simp only [KernelOp.exec, State.rtThreadDetach, exec_bind_ok, exec_pure_ok] at h
    obtain ⟨_, -, _, -, k₁, hleave, k₂, hdetach, rfl⟩ := h
    obtain ⟨-, -, -, htimers, -⟩ := hk.leaveScheduler ht hleave
    exact .inr ⟨hk.not_ended ht (htimers ▸ registered_of_detach hdetach),
      ended_detachOrDefunct hholds⟩
  | delete u =>
    obtain rfl := Option.some.inj hsub
    simp only [KernelOp.exec, State.rtThreadDelete, exec_bind_ok, exec_pure_ok] at h
    obtain ⟨_, -, _, -, k₁, hleave, k₂, hdetach, rfl⟩ := h
    obtain ⟨-, -, -, htimers, -⟩ := hk.leaveScheduler ht hleave
    exact .inr ⟨hk.not_ended ht (htimers ▸ registered_of_detach hdetach),
      fun _ => mem_defunct hholds rfl⟩
  | changePriority u priority =>
    obtain rfl := Option.some.inj hsub
    simp only [KernelOp.exec, State.rtThreadControl, exec_bind_ok] at h
    obtain ⟨_, -, h⟩ := h
    split at h
    case isTrue hready =>
      simp only [exec_bind_ok] at h
      obtain ⟨k₁, -, hinsert⟩ := h
      obtain ⟨-, rfl⟩ := rtScheduleInsertThread_eq hinsert
      exact .inr (hlives (by simp [hready]) (by simp))
    case isFalse =>
      simp only [exec_pure_ok] at h
      subst h
      exact .inl ⟨rfl, by simp, by simp⟩
  | suspend u =>
    obtain rfl := Option.some.inj hsub
    simp only [KernelOp.exec, exec_bind_ok, exec_pure_ok] at h
    obtain ⟨⟨k₁, err⟩, hsuspend, rfl⟩ := h
    obtain ⟨-, ⟨-, rfl, -⟩ | ⟨-, hready, s, zs', rfl, -⟩⟩ := hk.rtThreadSuspend ht hsuspend
    · exact .inl ⟨rfl, rfl, rfl⟩
    · exact .inr (hlives (by simp [hready]) (by simp))
  | resume u =>
    obtain rfl := Option.some.inj hsub
    simp only [KernelOp.exec, exec_bind_ok, exec_pure_ok] at h
    obtain ⟨⟨k₁, err⟩, hresume, rfl⟩ := h
    obtain ⟨-, ⟨-, rfl, -⟩ | ⟨-, hwaits, s, zs', σ₁, rfl, -⟩⟩ := hk.rtThreadResume ht hresume
    · exact .inl ⟨rfl, rfl, rfl⟩
    · exact .inr (hlives (by simp [hwaits]) (by simp))
  | yield =>
    obtain rfl | ⟨-, hready, c, p, σ₁, rfl, -⟩ := hk.rtThreadYield hsub h
    · exact .inl ⟨rfl, rfl, rfl⟩
    · exact .inr (hlives (by simp [hready]) (by simp [State.rotated, hready]))
  | sleep tick =>
    have hcur : k.rtCurrentThread = some t := hsub
    simp only [KernelOp.exec, State.rtThreadSleep, hcur, exec_bind_ok, exec_pure_ok] at h
    obtain ⟨u, rfl, _, -, ⟨k₁, err⟩, hsuspend, k₂, hset, k₃, hstart, hschedule⟩ := h
    obtain ⟨c, p, rfl, -⟩ := rtSchedule_eq hschedule
    obtain ⟨s₂, -, rfl⟩ := liftTimers_setTime hset
    obtain ⟨s₃, -, rfl⟩ := liftTimers_eq_ok.mp hstart
    obtain ⟨-, ⟨-, rfl, -⟩ | ⟨-, hready, s, zs', rfl, -⟩⟩ := hk.rtThreadSuspend ht hsuspend
    · exact .inl ⟨rfl, rfl, rfl⟩
    · exact .inr (hlives (by simp [hready]) (by simp))
  | sleepReturn u =>
    obtain rfl := Option.some.inj hsub
    simp only [KernelOp.exec, State.rtThreadSleepReturn, exec_pure_ok] at h
    subst h
    split
    · exact .inl ⟨rfl, by simp, by simp⟩
    · exact .inl ⟨rfl, rfl, rfl⟩
  | exit =>
    simp only [KernelOp.exec, State.rtThreadExit, exec_bind_ok] at h
    obtain ⟨u, hself, k₁, hremove, k₂, hdetach, hschedule⟩ := h
    obtain rfl : u = t := Option.some.inj ((rtThreadSelf_eq hself).symm.trans hsub)
    obtain ⟨-, rfl⟩ := rtScheduleRemoveThread_eq hremove
    obtain ⟨c, p, rfl, -⟩ := rtSchedule_eq hschedule
    have hregistered := registered_of_detach hdetach
    exact .inr ⟨hk.not_ended ht hregistered, ended_detachOrDefunct hholds⟩
  | enterCritical =>
    simp only [KernelOp.exec, exec_pure_ok] at h
    subst h
    exact .inl ⟨rfl, rfl, rfl⟩
  | exitCritical =>
    obtain ⟨n, c, p, rfl⟩ := rtExitCritical_eq h
    exact .inl ⟨rfl, rfl, rfl⟩
  | listResume i =>
    obtain ⟨u, rest, zs', σ₁, -, hσ, -, -, -, -, hthread, -⟩ := hk.rtIpcListResume h
    obtain rfl : u = t := by simpa [KernelOp.subject, hk.holds.next_head, hσ] using hsub
    have hwaits := hk.suspended i u (by simp [hσ])
    exact .inr (hlives (by simp [hwaits]) (by simp [hthread]))

/-! ## Who runs -/

section

omit [DecidableEq U] [DecidableEq I] [Fintype T] [Fintype U]

/-- `rt_schedule` picks a thread of a ready list. -/
theorem Wf.away_schedule {k₂ : State T U I} (hk' : Wf lo out k' σ' zs')
    (hcur : k₁.rtCurrentThread = k.rtCurrentThread) (h : k₁.rtSchedule = .ok k₂)
    (hlinks : k'.tlist = k₂.tlist)
    (hgroup : k'.rtThreadReadyPriorityGroup = k₂.rtThreadReadyPriorityGroup)
    (hrun : k'.rtCurrentThread = k₂.rtCurrentThread) (ht : t ∈ out)
    (hne : k.rtCurrentThread ≠ some t) : k'.rtCurrentThread ≠ some t := by
  obtain ⟨c, p, rfl, hlocked, hfree⟩ := rtSchedule_eq h
  rw [hrun]
  by_cases hzero : k₁.rtSchedulerLockNest = 0
  · obtain ⟨q, u, hpick, rfl⟩ := hfree hzero
    have hpick' : k'.highestReadyThread = .ok (q, u) := by
      rw [← hpick, highestReadyThread, highestReadyThread, hlinks, hgroup]
      rfl
    obtain ⟨-, ⟨rest, hσ⟩, -⟩ := hk'.highestReady hpick'
    rintro heq
    obtain rfl : u = t := Option.some.inj heq
    exact hk'.outside u ht (.ready q) (by simp [hσ])
  · show c ≠ some t
    rw [hlocked hzero, hcur]
    exact hne

theorem Wf.away_exitCritical (hk' : Wf lo out k' σ' zs') (h : k.rtExitCritical = .ok k')
    (ht : t ∈ out) (hne : k.rtCurrentThread ≠ some t) : k'.rtCurrentThread ≠ some t := by
  simp only [State.rtExitCritical] at h
  split at h
  · split at h
    · exact hk'.away_schedule rfl h rfl rfl rfl ht hne
    · simp only [exec_pure_ok] at h
      exact h ▸ hne
  · simp only [exec_pure_ok] at h
    exact h ▸ hne

end

theorem Wf.away_exec (hk' : Wf lo out k' σ' zs') {op : KernelOp T U I} (h : op.exec k = .ok k')
    (ht : t ∈ out) (hne : k.rtCurrentThread ≠ some t) : k'.rtCurrentThread ≠ some t := by
  by_cases hop : op ≠ .enterCritical ∧ op ≠ .exitCritical
  · obtain hsame | ⟨k₁, hsame, hschedule⟩ := exec_schedules h hop
    · rwa [hsame.1]
    · exact hk'.away_schedule hsame.1 hschedule rfl rfl rfl ht hne
  rw [not_and_or, not_not, not_not] at hop
  cases hop with
  | inl henter =>
    subst henter
    simp only [KernelOp.exec, exec_pure_ok] at h
    exact h ▸ hne
  | inr hexit =>
    subst hexit
    exact hk'.away_exitCritical h ht hne

/-! ## What goes on -/

/-- A call that is about none of the threads `out`. -/
theorem Wf.goes_exec (hk : Wf lo out k σ zs) {op : KernelOp T U I}
    (hout : ∀ t ∈ out, op.subject k ≠ some t) (h : op.exec k = .ok k') :
    ∃ σ' zs', Goes out k σ zs lo k' σ' zs' := by
  obtain ⟨σ', zs', hk', huntouched, -⟩ := hk.exec hout h
  refine ⟨σ', zs', hk', fun t ht => (huntouched t (hout t ht)).thread,
    fun t ht => (huntouched t (hout t ht)).timer, fun t ht => (huntouched t (hout t ht)).linked,
    fun t ht hne => hk'.away_exec h ht hne, fun t ht hended => ?_, fun t ht hnot hended => ?_⟩
  · by_cases hsub : op.subject k = some t
    · obtain ⟨hlinks, hstat, htype⟩ | ⟨hnot, -⟩ := hk.exec_ends ht hsub h hk'.holds
      · have hσ : σ' = σ := Holds.unique (hlinks ▸ hk'.holds) hk.holds
        refine ⟨⟨hstat.trans hended.1, htype ▸ hended.2⟩, htype, fun head => ?_⟩
        rw [hσ]
      · exact absurd hended hnot
    · have hkept := huntouched t hsub
      obtain ⟨n, hn⟩ := hkept.thread
      have htype : (k'.thread t).type = (k.thread t).type := by rw [hn]
      exact ⟨⟨hkept.stat.trans hended.1, htype ▸ hended.2⟩, htype, hkept.lists⟩
  · by_cases hsub : op.subject k = some t
    · obtain ⟨-, hstat, htype⟩ | ⟨-, hends⟩ := hk.exec_ends ht hsub h hk'.holds
      · exact absurd ⟨hstat ▸ hended.1, htype ▸ hended.2⟩ hnot
      · exact hends hended
    · obtain ⟨n, hn⟩ := (huntouched t hsub).thread
      rw [Ended, hn] at hended
      exact absurd hended hnot

omit [DecidableEq U] [DecidableEq I] [Fintype T] [Fintype U] in
/-- What is about a thread that has not ended, and does not end it. -/
theorem Touches.goes (htouch : Touches t k σ zs k' σ' zs') (hk' : Wf lo' out k' σ' zs')
    (ht : t ∉ out) (hbefore : ¬ k.Ended t) (hafter : ¬ k'.Ended t)
    (haway : ∀ u ∈ out, k.rtCurrentThread ≠ some u → k'.rtCurrentThread ≠ some u) :
    Goes out k σ zs lo' k' σ' zs' := by
  have huntouched : ∀ u, u ≠ t → Untouched u k σ zs k' σ' zs' := fun u hu => htouch.untouched hu
  have hne : ∀ u ∈ out, u ≠ t := by
    rintro u hu rfl
    exact ht hu
  refine ⟨hk', fun u hu => (huntouched u (hne u hu)).thread,
    fun u hu => (huntouched u (hne u hu)).timer, fun u hu => (huntouched u (hne u hu)).linked,
    haway, fun u _ hended => ?_, fun u _ hnot hended => ?_⟩
  · by_cases hut : u = t
    · exact absurd (hut ▸ hended) hbefore
    · have hsame := htouch.thread u hut
      exact ⟨by rwa [Ended, hsame], by rw [hsame], (huntouched u hut).lists⟩
  · by_cases hut : u = t
    · exact absurd (hut ▸ hended) hafter
    · rw [Ended, htouch.thread u hut] at hended
      exact absurd hended hnot

/-- The running thread goes into a wait list, with a waiting time or without one. -/
theorem Wf.goes_wait (hk : Wf lo out k σ zs) {i : I} {flag : IpcFlag} {time : Tick} (ht : t ∉ out)
    (hstat : (k.thread t).stat = .ready) (h : k.waitOn i t flag time = .ok k') :
    ∃ σ' zs', Goes out k σ zs lo k' σ' zs' := by
  simp only [State.waitOn, exec_bind_ok] at h
  obtain ⟨k₁, hsuspend, h⟩ := h
  obtain ⟨xs, ys, zs₁, -, -, -, hk₁, htouch₁, hthread₁, hcur₁⟩ :=
    hk.rtIpcListSuspend ht hstat hsuspend
  have hbefore : ¬ k.Ended t := not_ended_of_stat (by simp [hstat])
  split at h
  · obtain ⟨zs', hk', hthread, hsame, htouch⟩ := hk₁.startThreadTimer (by simp [hthread₁]) h
    have hafter : ¬ k'.Ended t := not_ended_of_stat (by simp [hthread, hthread₁])
    refine ⟨_, zs', (htouch₁.trans htouch).goes hk' ht hbefore hafter fun u _ hne => ?_⟩
    rwa [hsame.1, hcur₁]
  · simp only [exec_pure_ok] at h
    subst h
    have hafter : ¬ k₁.Ended t := not_ended_of_stat (by simp [hthread₁])
    refine ⟨_, zs₁, htouch₁.goes hk₁ ht hbefore hafter fun u _ hne => ?_⟩
    rwa [hcur₁]

omit [DecidableEq T] [DecidableEq U] [DecidableEq I] [Fintype T] [Fintype U] in
theorem Wf.goes_start (hk : Wf lo out k σ zs) (h : k.rtSystemSchedulerStart = .ok k') :
    Goes out k σ zs lo k' σ zs := by
  simp only [State.rtSystemSchedulerStart, exec_bind_ok, exec_pure_ok] at h
  obtain ⟨⟨p, u⟩, hpick, rfl⟩ := h
  obtain ⟨-, ⟨rest, hσ⟩, -⟩ := hk.highestReady hpick
  refine ⟨{ hk with }, fun _ _ => ⟨_, rfl⟩, fun _ _ => rfl, fun _ _ => Iff.rfl, ?_,
    fun _ _ hended => ⟨hended, rfl, fun _ => Iff.rfl⟩, fun _ _ hnot hended => absurd hended hnot⟩
  rintro t ht - heq
  obtain rfl : u = t := Option.some.inj heq
  exact hk.outside u ht (.ready p) (by simp [hσ])

/-! ## The tick interrupt -/

omit [DecidableEq U] [Fintype T] [Fintype U] in
theorem Wf.goes_tickBegin (hk : Wf 0 out k σ zs) (h : k.rtTickBegin = .ok k') :
    ∃ σ', Goes out k σ zs (-1) k' σ' zs := by
  cases hcur : k.rtCurrentThread with
  | none => simp [State.rtTickBegin, rtThreadSelf, hcur] at h
  | some u =>
    obtain ⟨σ', hk', htimers, -, hfields, hlists, -⟩ := hk.rtTickBegin hcur h
    have hsame : ∀ t, (k'.thread t).stat = (k.thread t).stat ∧
        (k'.thread t).type = (k.thread t).type := by
      intro t
      obtain ⟨n, hn⟩ := hfields t
      rw [hn]
      exact ⟨rfl, rfl⟩
    refine ⟨σ', hk', fun t _ => hfields t, fun t _ => by rw [htimers]; rfl, fun _ _ => Iff.rfl,
      fun t ht hne => ?_, fun t _ hended => ?_, fun t _ hnot hended => ?_⟩
    · simp only [State.rtTickBegin, exec_bind_ok] at h
      obtain ⟨v, -, h⟩ := h
      split at h
      · obtain hrun | ⟨k₁, hrun, hschedule⟩ := rtThreadYield_schedules h
        · rw [hrun.1]
          exact hne
        · exact hk'.away_schedule hrun.1 hschedule rfl rfl rfl ht hne
      · simp only [exec_pure_ok] at h
        exact h ▸ hne
    · exact ⟨⟨(hsame t).1 ▸ hended.1, (hsame t).2 ▸ hended.2⟩, (hsame t).2, hlists t⟩
    · exact absurd ⟨(hsame t).1 ▸ hended.1, (hsame t).2 ▸ hended.2⟩ hnot

variable {cb : Callback T U I}

/-- The timer of a thread that is not `out` expires. -/
theorem Wf.goes_fireThread (hk : Wf lo out k σ zs) (ht : t ∉ out)
    (h : (host (timeoutFunc cb)).fire (.inl t) k = .ok k') :
    ∃ σ' zs', Goes out k σ zs lo k' σ' zs' := by
  obtain ⟨hstat, σ', zs', -, hk', htouch, -, hthread, -⟩ := hk.fireThread ht h
  have hbefore : ¬ k.Ended t := not_ended_of_stat (by simp [hstat])
  have hafter : ¬ k'.Ended t := not_ended_of_stat (by simp [hthread])
  refine ⟨σ', zs', htouch.goes hk' ht hbefore hafter fun u hu hne => ?_⟩
  obtain ⟨k₁, hcall, hend⟩ := TimerHost.fire_cases h
  change (k.withTimers (k.timers.rtTimerRemove (.inl t))).rtThreadTimeout t = .ok k₁ at hcall
  simp only [State.rtThreadTimeout, exec_bind_ok] at hcall
  obtain ⟨_, -, _, -, k₂, hinsert, hschedule⟩ := hcall
  have hrun : k₂.rtCurrentThread = k.rtCurrentThread := (rtScheduleInsertThread_sameRun hinsert).1
  -- what follows the timeout function is about timers only
  cases hend with
  | inl hrestart =>
    obtain ⟨-, -, hstart⟩ := hrestart
    obtain ⟨s, -, rfl⟩ := liftTimers_eq_ok.mp hstart
    exact hk'.away_schedule hrun hschedule rfl rfl rfl hu hne
  | inr hstop =>
    obtain ⟨-, rfl⟩ := hstop
    exact hk'.away_schedule hrun hschedule rfl rfl rfl hu hne

/-- Calls that name none of the threads `out`. -/
theorem Wf.goes_calls (hk : Wf lo out k σ zs) {ops : List (KernelOp T U I)}
    (hrun : ∀ t ∈ out, k.rtCurrentThread ≠ some t)
    (hops : ∀ op ∈ ops, ∀ t ∈ out, op.target ≠ some t)
    (h : ops.foldlM (fun k op => op.exec k) k = .ok k') :
    ∃ σ' zs', Goes out k σ zs lo k' σ' zs' := by
  induction ops generalizing k σ zs with
  | nil =>
    simp only [List.foldlM_nil, exec_pure_ok] at h
    exact ⟨σ, zs, h ▸ .refl hk⟩
  | cons op ops ih =>
    simp only [List.foldlM_cons, exec_bind_ok] at h
    obtain ⟨k₁, hexec, hrest⟩ := h
    have hsub : ∀ t ∈ out, op.subject k ≠ some t := fun t ht =>
      KernelOp.subject_ne hk.holds (fun i => hk.outside t ht (.suspend i))
        (hops op (by simp) t ht) fun _ => hrun t ht
    obtain ⟨σ₁, zs₁, hgoes₁⟩ := hk.goes_exec hsub hexec
    obtain ⟨σ', zs', hgoes'⟩ := ih hgoes₁.wf (fun t ht => hgoes₁.away t ht (hrun t ht))
      (fun op hop => hops op (by simp [hop])) hrest
    exact ⟨σ', zs', hgoes₁.trans hgoes'⟩

/-- A timer of no thread expires, and its timeout function names none of the threads `out`. -/
theorem Wf.goes_fireUser (hk : Wf lo out k σ zs) {u : U} {rest : List (T ⊕ U)}
    (hzs : zs = .inr u :: rest) (hrun : ∀ t ∈ out, k.rtCurrentThread ≠ some t)
    (hcalls : ∀ op ∈ cb u (k.withTimers (k.timers.rtTimerRemove (.inr u))), ∀ t ∈ out,
      op.target ≠ some t)
    (h : (host (timeoutFunc cb)).fire (.inr u) k = .ok k') :
    ∃ σ' zs', Goes out k σ zs lo k' σ' zs' := by
  subst hzs
  obtain ⟨k₁, hcall, hend⟩ := TimerHost.fire_cases h
  have hremoved : Goes out k σ (.inr u :: rest) lo
      (k.withTimers (k.timers.rtTimerRemove (.inr u))) σ rest :=
    ⟨hk.removeFront, fun _ _ => ⟨_, rfl⟩, fun _ _ => rfl, by simp, fun _ _ => id,
      fun _ _ hended => ⟨hended, rfl, fun _ => Iff.rfl⟩,
      fun _ _ hnot hended => absurd hended hnot⟩
  obtain ⟨σ₁, zs₁, hgoes₁⟩ := hremoved.wf.goes_calls hrun hcalls hcall
  obtain ⟨zs', hk', hsame, huntouched⟩ := hgoes₁.wf.fireEnd hend
  have hfields : ∀ t, (k'.thread t).stat = (k₁.thread t).stat ∧
      (k'.thread t).type = (k₁.thread t).type := by
    intro t
    obtain ⟨n, hn⟩ := (huntouched t).thread
    rw [hn]
    exact ⟨rfl, rfl⟩
  have hended : Goes out k₁ σ₁ zs₁ lo k' σ₁ zs' :=
    ⟨hk', fun t _ => (huntouched t).thread, fun t _ => (huntouched t).timer,
      fun t _ => (huntouched t).linked, fun t _ hne => by rwa [hsame.1],
      fun t _ hended => ⟨⟨(hfields t).1 ▸ hended.1, (hfields t).2 ▸ hended.2⟩, (hfields t).2,
        fun _ => Iff.rfl⟩,
      fun t _ hnot hended => absurd ⟨(hfields t).1 ▸ hended.1, (hfields t).2 ▸ hended.2⟩ hnot⟩
  exact ⟨σ₁, zs', (hremoved.trans hgoes₁).trans hended⟩

/-- In a tick interrupt no timer of a thread `out` expires. -/
def TickSpares (cb : Callback T U I) (out : Set T) (k : State T U I) : Prop :=
  ∀ k₁ t, InTick cb k k₁ → k₁.timers.rtTimerList.next (.inl ()) = .inr (.inl t) →
    k₁.timers.due k₁.timers.rtTick (.inl t) = true → t ∉ out

/-- In a tick interrupt no timeout function makes a call that names one of the threads `out`. -/
def TickNames (cb : Callback T U I) (out : Set T) (k : State T U I) : Prop :=
  ∀ k₁ u, InTick cb k k₁ → k₁.timers.rtTimerList.next (.inl ()) = .inr (.inr u) →
    k₁.timers.due k₁.timers.rtTick (.inr u) = true →
    ∀ op ∈ cb u (k₁.withTimers (k₁.timers.rtTimerRemove (.inr u))), ∀ t ∈ out,
      op.target ≠ some t

theorem Wf.goes_tick (hk : Wf 0 out k σ zs) (hrun : ∀ t ∈ out, k.rtCurrentThread ≠ some t)
    (hspares : TickSpares cb {t ∈ out | .inl t ∈ zs} k) (hnames : TickNames cb out k) {fuel : Nat}
    (h : k.rtTickIncrease (timeoutFunc cb) fuel = .ok k') :
    ∃ σ' zs', Goes out k σ zs 0 k' σ' zs' := by
  obtain ⟨hin, hfront⟩ := inTick_of_rtTickIncrease h
  have hends : ∃ σ' zs', Goes out k σ zs (-1) k' σ' zs' := by
    clear hfront h
    induction hin with
    | check hbegin =>
      obtain ⟨σ', hgoes⟩ := hk.goes_tickBegin hbegin
      exact ⟨σ', zs, hgoes⟩
    | @fire k₁ k₂ x hin₁ hnext hdue hfired ih =>
      obtain ⟨σ₁, zs₁, hgoes₁⟩ := ih
      obtain ⟨rest, hzs⟩ := Holds.next_head_eq_elem hgoes₁.wf.sorted.linked hnext
      have hstep : ∃ σ' zs', Goes out k₁ σ₁ zs₁ (-1) k₂ σ' zs' := by
        cases x with
        | inl t =>
          refine hgoes₁.wf.goes_fireThread (fun ht => ?_) hfired
          exact hspares k₁ t hin₁ hnext hdue ⟨ht, (hgoes₁.linked t ht).mp (by simp [hzs])⟩
        | inr u =>
          exact hgoes₁.wf.goes_fireUser hzs (fun t ht => hgoes₁.away t ht (hrun t ht))
            (hnames k₁ u hin₁ hnext hdue) hfired
      obtain ⟨σ', zs', hgoes'⟩ := hstep
      exact ⟨σ', zs', hgoes₁.trans hgoes'⟩
  obtain ⟨σ', zs', hgoes⟩ := hends
  exact ⟨σ', zs', { hgoes with
    wf := hgoes.wf.mono fun x hx => hfront x (hgoes.wf.next_timer hx) }⟩

end State

end PandoraRobot.Kernel
