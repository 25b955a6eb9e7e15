import PandoraRobot.Kernel.ThreadRuns

/-! # Time slices

`init_tick` is set when a thread is set up, with `remaining_tick` full.  The tick interrupt counts
`remaining_tick` of the running thread down and fills it up again, and nothing else writes either
of them.
-/

namespace PandoraRobot.Kernel

namespace State

variable {T U I : Type}

variable {cb : Callback T U I} {k k' k₁ : State T U I} {t : T}

/-- Each thread has the slice it had, and as much of it left, or a slice that is full. -/
def KeepsSlices (k k' : State T U I) : Prop :=
  ∀ t, ((k'.thread t).initTick = (k.thread t).initTick ∧
    (k'.thread t).remainingTick = (k.thread t).remainingTick) ∨
    (k'.thread t).remainingTick = (k'.thread t).initTick

namespace KeepsSlices

theorem of_thread (h : k'.thread = k.thread) : KeepsSlices k k' := fun t =>
  .inl (by rw [h]; exact ⟨rfl, rfl⟩)

theorem trans (h₁ : KeepsSlices k k₁) (h₂ : KeepsSlices k₁ k') : KeepsSlices k k' := by
  intro t
  rcases h₂ t with ⟨hinit, hleft⟩ | hfull
  · rcases h₁ t with ⟨hinit₁, hleft₁⟩ | hfull₁
    · exact .inl ⟨hinit.trans hinit₁, hleft.trans hleft₁⟩
    · exact .inr (by rw [hleft, hinit, hfull₁])
  · exact .inr hfull

variable [DecidableEq T]

/-- A write to a thread that leaves its slice alone, or fills it up. -/
theorem modify (f : Thread → Thread)
    (hf : ∀ th, ((f th).initTick = th.initTick ∧ (f th).remainingTick = th.remainingTick) ∨
      (f th).remainingTick = (f th).initTick) :
    KeepsSlices k (k.modifyThread t f) := by
  intro u
  by_cases hut : u = t
  · subst hut
    simpa using hf (k.thread u)
  · exact .inl (by simp [hut])

theorem setStat (stat : ThreadStat) : KeepsSlices k (k.setStat t stat) :=
  modify _ fun _ => .inl ⟨rfl, rfl⟩

theorem setError (err : Err) : KeepsSlices k (k.setError t err) :=
  modify _ fun _ => .inl ⟨rfl, rfl⟩

omit [DecidableEq T] in
theorem liftTimers {α : Type} {f : Timers (T ⊕ U) → Exec α} {set : α → Timers (T ⊕ U)}
    (h : k.liftTimers f set = .ok k') : KeepsSlices k k' := by
  obtain ⟨_, -, rfl⟩ := liftTimers_eq_ok.mp h
  exact of_thread rfl

variable [DecidableEq I]

theorem remove (h : k.rtScheduleRemoveThread t = .ok k') : KeepsSlices k k' := by
  obtain ⟨-, rfl⟩ := rtScheduleRemoveThread_eq h
  exact of_thread rfl

theorem insert (h : k.rtScheduleInsertThread t = .ok k') : KeepsSlices k k' := by
  obtain ⟨-, rfl⟩ := rtScheduleInsertThread_eq h
  exact (setStat (t := t) .ready).trans (of_thread rfl)

omit [DecidableEq I] in
theorem schedule (h : k.rtSchedule = .ok k') : KeepsSlices k k' := by
  obtain ⟨c, p, rfl, -, -⟩ := rtSchedule_eq h
  exact of_thread rfl

section

variable [DecidableEq U]

/-- `_rt_thread_init` gives a full slice. -/
theorem initFields {priority : Nat} {tick : Tick}
    (h : k.rtThreadInitFields t priority tick = .ok k') : KeepsSlices k k' := by
  simp only [rtThreadInitFields, exec_bind_ok] at h
  obtain ⟨_, -, h⟩ := h
  have hlinks : KeepsSlices k { k with tlist := rtListInit (.inr t) k.tlist } := of_thread rfl
  exact hlinks.trans (trans (modify _ (by exact fun _ => .inr rfl)) (liftTimers h))

theorem suspend {err : Err} (h : k.rtThreadSuspend t = .ok (k', err)) : KeepsSlices k k' := by
  simp only [rtThreadSuspend, exec_bind_ok] at h
  obtain ⟨_, -, h⟩ := h
  split at h
  · simp only [exec_pure_ok, Prod.mk.injEq] at h
    exact h.1 ▸ of_thread rfl
  · simp only [exec_bind_ok, exec_pure_ok, Prod.mk.injEq] at h
    obtain ⟨k₁, hremove, k₂, hstop, rfl, -⟩ := h
    exact ((setStat (t := t) .suspend).trans (remove hremove)).trans (liftTimers hstop)

theorem resume {err : Err} (h : k.rtThreadResume t = .ok (k', err)) : KeepsSlices k k' := by
  simp only [rtThreadResume, exec_bind_ok] at h
  obtain ⟨_, -, h⟩ := h
  split at h
  · simp only [exec_pure_ok, Prod.mk.injEq] at h
    exact h.1 ▸ of_thread rfl
  · simp only [exec_bind_ok, exec_pure_ok, Prod.mk.injEq] at h
    obtain ⟨k₁, hunlink, k₂, hinsert, rfl, -⟩ := h
    have hlinks : KeepsSlices k (k.unlink t) := of_thread rfl
    exact (hlinks.trans (liftTimers hunlink)).trans (insert hinsert)

end

theorem leave (h : k.leaveScheduler t = .ok k') : KeepsSlices k k' := by
  unfold leaveScheduler at h
  split at h
  · exact remove h
  · simp only [exec_pure_ok] at h
    exact h ▸ of_thread rfl

theorem detachOrDefunct : KeepsSlices k (k.detachOrDefunct t) := by
  unfold State.detachOrDefunct
  split
  · exact modify _ fun _ => .inl ⟨rfl, rfl⟩
  · exact of_thread rfl

theorem yield (h : k.rtThreadYield = .ok k') : KeepsSlices k k' := by
  simp only [rtThreadYield, exec_bind_ok] at h
  obtain ⟨u, -, h⟩ := h
  split at h
  · split at h
    · simp at h
    · exact trans (of_thread (by rfl)) (schedule h)
  · simp only [exec_pure_ok] at h
    exact h ▸ of_thread rfl

omit [DecidableEq I] in
theorem exitCritical (h : k.rtExitCritical = .ok k') : KeepsSlices k k' := by
  unfold rtExitCritical at h
  dsimp only at h
  split at h
  · split at h
    · exact trans (of_thread (by rfl)) (schedule h)
    · simp only [exec_pure_ok] at h
      exact h ▸ of_thread rfl
  · simp only [exec_pure_ok] at h
    exact h ▸ of_thread rfl

variable [DecidableEq U] [Fintype T] [Fintype U]

/-- No call changes a slice, but for those that set a thread up. -/
theorem exec {op : KernelOp T U I} (h : op.exec k = .ok k') : KeepsSlices k k' := by
  cases op with
  | init t priority tick =>
    simp only [KernelOp.exec, rtThreadInit, exec_bind_ok] at h
    obtain ⟨_, -, h⟩ := h
    exact trans (modify _ (by exact fun _ => .inl ⟨rfl, rfl⟩)) (initFields h)
  | create t priority tick =>
    simp only [KernelOp.exec, rtThreadCreate, exec_bind_ok] at h
    obtain ⟨_, -, h⟩ := h
    exact trans (modify _ (by exact fun _ => .inr rfl)) (initFields h)
  | setCleanup t cleanup =>
    simp only [KernelOp.exec, setCleanup, exec_bind_ok, exec_pure_ok] at h
    obtain ⟨_, -, rfl⟩ := h
    exact modify _ fun _ => .inl ⟨rfl, rfl⟩
  | startup t =>
    simp only [KernelOp.exec, rtThreadStartup, exec_bind_ok] at h
    obtain ⟨_, -, _, -, ⟨k₁, err⟩, hresume, h⟩ := h
    have hresumed := trans (modify _ (by exact fun _ => .inl ⟨rfl, rfl⟩)) (resume hresume)
    refine hresumed.trans ?_
    split at h
    · exact schedule h
    · simp only [exec_pure_ok] at h
      exact h ▸ of_thread rfl
  | detach t =>
    simp only [KernelOp.exec, rtThreadDetach, exec_bind_ok, exec_pure_ok] at h
    obtain ⟨_, -, _, -, k₁, hleave, k₂, htimer, rfl⟩ := h
    exact ((leave hleave).trans (liftTimers htimer)).trans
      ((setStat (t := t) .close).trans detachOrDefunct)
  | delete t =>
    simp only [KernelOp.exec, rtThreadDelete, exec_bind_ok, exec_pure_ok] at h
    obtain ⟨_, -, _, -, k₁, hleave, k₂, htimer, rfl⟩ := h
    exact ((leave hleave).trans (liftTimers htimer)).trans
      ((setStat (t := t) .close).trans (of_thread rfl))
  | changePriority t priority =>
    simp only [KernelOp.exec, rtThreadControl, exec_bind_ok] at h
    obtain ⟨_, -, h⟩ := h
    split at h
    · simp only [exec_bind_ok] at h
      obtain ⟨k₁, hremove, hinsert⟩ := h
      exact (remove hremove).trans
        (trans (modify _ (by exact fun _ => .inl ⟨rfl, rfl⟩)) (insert hinsert))
    · simp only [exec_pure_ok] at h
      subst h
      exact modify _ fun _ => .inl ⟨rfl, rfl⟩
  | suspend t =>
    simp only [KernelOp.exec, exec_bind_ok, exec_pure_ok] at h
    obtain ⟨⟨k₁, err⟩, hsuspend, rfl⟩ := h
    exact suspend hsuspend
  | resume t =>
    simp only [KernelOp.exec, exec_bind_ok, exec_pure_ok] at h
    obtain ⟨⟨k₁, err⟩, hresume, rfl⟩ := h
    exact resume hresume
  | yield => exact yield h
  | sleep tick =>
    cases hcur : k.rtCurrentThread with
    | none => simp [KernelOp.exec, rtThreadSleep, hcur] at h
    | some t =>
    simp only [KernelOp.exec, rtThreadSleep, hcur, exec_bind_ok] at h
    obtain ⟨t, -, _, -, ⟨k₁, err⟩, hsuspend, k₂, hset, k₃, hstart, h⟩ := h
    exact (((suspend hsuspend).trans (liftTimers hset)).trans (liftTimers hstart)).trans
      (schedule h)
  | sleepReturn t =>
    simp only [KernelOp.exec, rtThreadSleepReturn, exec_pure_ok] at h
    subst h
    split
    · exact setError _
    · exact of_thread rfl
  | exit =>
    simp only [KernelOp.exec, rtThreadExit, exec_bind_ok] at h
    obtain ⟨t, -, k₁, hremove, k₂, htimer, h⟩ := h
    exact (((remove hremove).trans (setStat (t := t) .close)).trans (liftTimers htimer)).trans
      (detachOrDefunct.trans (schedule h))
  | schedule => exact schedule h
  | enterCritical =>
    simp only [KernelOp.exec, exec_pure_ok] at h
    exact h ▸ of_thread rfl
  | exitCritical => exact exitCritical h
  | listResume i =>
    simp only [KernelOp.exec, rtIpcListResume] at h
    split at h
    · simp at h
    · simp only [exec_bind_ok, exec_pure_ok] at h
      obtain ⟨⟨k₁, err⟩, hresume, rfl⟩ := h
      exact resume hresume
  | timer op => exact liftTimers h

theorem calls {ops : List (KernelOp T U I)}
    (h : ops.foldlM (fun k op => op.exec k) k = .ok k') : KeepsSlices k k' := by
  induction ops generalizing k with
  | nil =>
    simp only [List.foldlM_nil, exec_pure_ok] at h
    exact h ▸ of_thread rfl
  | cons op ops ih =>
    simp only [List.foldlM_cons, exec_bind_ok] at h
    obtain ⟨k₁, hexec, hrest⟩ := h
    exact (exec hexec).trans (ih hrest)

omit [DecidableEq U] [Fintype T] [Fintype U] in
theorem timeout (h : k.rtThreadTimeout t = .ok k') : KeepsSlices k k' := by
  simp only [rtThreadTimeout, exec_bind_ok] at h
  obtain ⟨_, -, _, -, k₁, hinsert, h⟩ := h
  have hlinks : KeepsSlices (k.setError t .etimeout) ((k.setError t .etimeout).unlink t) :=
    of_thread rfl
  exact (((setError _).trans hlinks).trans (insert hinsert)).trans (schedule h)

/-- A turn of the loop of `rt_timer_check`. -/
theorem fire {x : T ⊕ U} (h : (host (timeoutFunc cb)).fire x k = .ok k') : KeepsSlices k k' := by
  obtain ⟨k₁, hcall, hend⟩ := TimerHost.fire_cases h
  have hcalled : KeepsSlices (k.withTimers (k.timers.rtTimerRemove x)) k₁ := by
    cases x with
    | inl t => exact timeout hcall
    | inr u => exact calls hcall
  refine (trans (of_thread (by rfl)) hcalled).trans ?_
  rcases hend with ⟨-, -, hstart⟩ | ⟨-, rfl⟩
  · exact trans (of_thread (by rfl)) (liftTimers hstart)
  · exact of_thread rfl

omit [Fintype U] in
theorem suspendList {i : I} {flag : IpcFlag} (h : k.rtIpcListSuspend i t flag = .ok k') :
    KeepsSlices k k' := by
  simp only [rtIpcListSuspend, exec_bind_ok] at h
  obtain ⟨⟨k₁, err⟩, hsuspend, h⟩ := h
  refine (suspend hsuspend).trans ?_
  cases flag with
  | fifo =>
    simp only [exec_pure_ok] at h
    exact h ▸ of_thread rfl
  | prio =>
    simp only [exec_bind_ok, exec_pure_ok] at h
    obtain ⟨n, -, rfl⟩ := h
    exact of_thread rfl

omit [DecidableEq U] [Fintype T] [Fintype U] in
theorem idle {fuel : Nat} (h : k.rtThreadIdleExcute fuel = .ok k') : KeepsSlices k k' := by
  induction fuel generalizing k with
  | zero => simp [rtThreadIdleExcute] at h
  | succ fuel ih =>
    simp only [rtThreadIdleExcute] at h
    split at h
    · simp only [exec_pure_ok] at h
      exact h ▸ of_thread rfl
    next t _ =>
      have hleft : KeepsSlices k (k.unlink t).rtEnterCritical := of_thread rfl
      refine hleft.trans ?_
      split at h
      · exact trans (modify _ (by exact fun _ => .inl ⟨rfl, rfl⟩)) (exitCritical h)
      · simp only [exec_bind_ok] at h
        obtain ⟨k₁, hexit, h⟩ := h
        exact (exitCritical hexit).trans
          (trans (modify _ (by exact fun _ => .inl ⟨rfl, rfl⟩)) (ih h))

end KeepsSlices

/-! ## What is left of a slice -/

/-- A thread with a slice of at least a tick has at least a tick left, and at most its slice. -/
def Sliced (k : State T U I) : Prop :=
  ∀ t, (k.thread t).initTick ≠ 0 → 0 < (k.thread t).remainingTick.toNat ∧
    (k.thread t).remainingTick.toNat ≤ (k.thread t).initTick.toNat

theorem toNat_pos {tick : Tick} (h : tick ≠ 0) : 0 < tick.toNat :=
  Nat.pos_of_ne_zero fun hzero => h (BitVec.eq_of_toNat_eq hzero)

theorem Sliced.keeps (hs : Sliced k) (h : KeepsSlices k k') : Sliced k' := by
  intro t ht
  rcases h t with ⟨hinit, hleft⟩ | hfull
  · rw [hinit] at ht ⊢
    rw [hleft]
    exact hs t ht
  · rw [hfull]
    exact ⟨toNat_pos ht, le_rfl⟩

variable [DecidableEq T] [DecidableEq I]

theorem Sliced.tickBegin (hs : Sliced k) (h : k.rtTickBegin = .ok k') : Sliced k' := by
  simp only [rtTickBegin, exec_bind_ok] at h
  obtain ⟨t, -, h⟩ := h
  split at h
  next hover =>
    -- the slice is over, and full again
    have hyield := KeepsSlices.yield h
    refine Sliced.keeps (fun u hu => ?_) hyield
    by_cases hut : u = t
    · subst hut
      simp only [modifyThread_thread, Function.update_self] at hu ⊢
      exact ⟨toNat_pos hu, le_rfl⟩
    · simp only [modifyThread_thread, Function.update_of_ne hut] at hu ⊢
      exact hs u hu
  next hmore =>
    simp only [exec_pure_ok] at h
    subst h
    intro u hu
    by_cases hut : u = t
    · subst hut
      simp only [modifyThread_thread, Function.update_self] at hu hmore ⊢
      have hbounds := hs u hu
      have hleft := toNat_pos hmore
      change 0 < ((k.thread u).remainingTick - 1).toNat at hleft
      change 0 < ((k.thread u).remainingTick - 1).toNat ∧
        ((k.thread u).remainingTick - 1).toNat ≤ (k.thread u).initTick.toNat
      refine ⟨hleft, ?_⟩
      rw [BitVec.toNat_sub_of_le (by simpa [BitVec.le_def] using Nat.succ_le_of_lt hbounds.1)]
      omega
    · simp only [modifyThread_thread, Function.update_of_ne hut] at hu ⊢
      exact hs u hu

variable [DecidableEq U] [Fintype T] [Fintype U]

theorem Sliced.inTick (hs : Sliced k) (h : InTick cb k k') : Sliced k' := by
  induction h with
  | check hbegin => exact hs.tickBegin hbegin
  | fire x _ _ _ hfired ih => exact ih.keeps (.fire hfired)

theorem Sliced.step (hs : Sliced k) (h : Step cb k k') : Sliced k' := by
  cases h with
  | call op h => exact hs.keeps (.exec h)
  | wait i flag t _ _ h => exact hs.keeps (.suspendList h)
  | idle fuel h => exact hs.keeps (.idle h)
  | tick fuel h => exact hs.inTick (inTick_of_rtTickIncrease h).1
  | start h =>
    simp only [rtSystemSchedulerStart, exec_bind_ok, exec_pure_ok] at h
    obtain ⟨⟨p, t⟩, -, rfl⟩ := h
    exact hs

/-- In every state a run reaches, what is left of a slice is at least a tick and at most the
    slice. -/
theorem runs_sliced {k₀ : State T U I} (hi : Initial k₀) (hr : Runs cb k₀ k) : Sliced k := by
  induction hr with
  | refl =>
    intro t ht
    rw [hi.thread t] at ht
    exact absurd rfl ht
  | tail _ hstep ih => exact ih.step hstep

end State

end PandoraRobot.Kernel
