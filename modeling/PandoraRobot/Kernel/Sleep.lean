import PandoraRobot.Kernel.ThreadRuns

/-! # A thread that sleeps

`Sleeper t lo n k σ zs`: the thread `t` sleeps and has `n` ticks to go, or the sleep is
over, `n` is not positive and `t` is ready.  It runs only in the second case.  The rest
of the system keeps this as long as no call is about `t`; a tick interrupt counts `n`
down by one.  Between two interrupts `lo` is 0, within one it is -1.
-/

namespace PandoraRobot.Kernel

open PandoraRobot.RingList

namespace State

variable {T U I : Type}

variable {cb : Callback T U I} {lo n : Int} {k k' : State T U I} {σ σ' : ListHead I → List T}
  {zs zs' : List (T ⊕ U)} {t : T} {ts : Set T}

structure Sleeper (t : T) (lo n : Int) (k : State T U I) (σ : ListHead I → List T)
    (zs : List (T ⊕ U)) : Prop where
  wf : Wf lo ∅ k σ zs
  waits : ∀ i, t ∉ σ (.suspend i)
  rest : ((k.thread t).stat = .suspend ∧ .inl t ∈ zs ∧ k.timers.remaining (.inl t) = n ∧
      lo < n) ∨
    ((k.thread t).stat = .ready ∧ n ≤ 0)
  picked : k.rtCurrentThread = some t →
    (k.thread t).stat = .ready ∧ k.rtSchedulerLockNest = 0
  running : k.rtCurrentThread.isSome

/-- A ready thread is a sleeper whose sleep is over. -/
theorem Wf.sleeper (hk : Wf lo ∅ k σ zs) (hstat : (k.thread t).stat = .ready) (hn : n ≤ 0)
    (hpicked : k.rtCurrentThread = some t → k.rtSchedulerLockNest = 0)
    (hrunning : k.rtCurrentThread.isSome) : Sleeper t lo n k σ zs := by
  refine ⟨hk, fun i hm => ?_, .inr ⟨hstat, hn⟩, fun hcur => ⟨hstat, hpicked hcur⟩, hrunning⟩
  have := hk.suspended i t hm
  rw [hstat] at this
  cases this

/-- An operation about another thread. -/
theorem Sleeper.keep (hs : Sleeper t lo n k σ zs) (hk' : Wf lo ∅ k' σ' zs')
    (huntouched : Untouched t k σ zs k' σ' zs') (hruns : RunsOn t k k') :
    Sleeper t lo n k' σ' zs' := by
  refine ⟨hk', fun i hm => hs.waits i ((huntouched.lists _).mp hm), ?_, fun hcur => ?_,
    hruns.running hs.running⟩
  · rw [huntouched.stat, huntouched.linked, Timers.remaining, huntouched.rtTick, huntouched.timer]
    exact hs.rest
  · rcases hruns.picked hcur with ⟨hcur₀, hlock⟩ | hready
    · obtain ⟨hstat, hfree⟩ := hs.picked hcur₀
      exact ⟨huntouched.stat.trans hstat, hlock.trans hfree⟩
    · exact hready

/-- A sleeper that runs has slept enough. -/
theorem Sleeper.over (hs : Sleeper t lo n k σ zs) (hcur : k.rtCurrentThread = some t) :
    n ≤ 0 := by
  rcases hs.rest with ⟨hsuspend, -⟩ | ⟨-, hn⟩
  · have := (hs.picked hcur).1
    rw [hsuspend] at this
    cases this
  · exact hn

/-! ## `rt_thread_sleep` -/

variable [DecidableEq T] [DecidableEq U] [DecidableEq I] [Fintype T] [Fintype U]

/-- The running thread, ready, goes to sleep: another thread runs, and the timer has all the
    ticks to go. -/
theorem Wf.sleeper_of_sleep (hk : Wf 0 ∅ k σ zs) (hcur : k.rtCurrentThread = some t)
    (hstat : (k.thread t).stat = .ready) (hlock : k.rtSchedulerLockNest = 0) {tick : Tick}
    (hpos : 0 < tick.toNat) (h : k.rtThreadSleep tick = .ok k') : ∃ σ' zs', Sleeper t 0 tick.toNat k' σ' zs' := by
  obtain ⟨σ', zs', hk', -⟩ := hk.rtThreadSleep hcur (by simp) h
  simp only [State.rtThreadSleep, hcur, exec_bind_ok, exec_pure_ok] at h
  obtain ⟨u, rfl, _, -, ⟨k₁, err⟩, hsuspend, k₂, hset, k₃, hstart, hschedule⟩ := h
  obtain ⟨-, ⟨-, -, hnot⟩ | ⟨-, -, s, zs₁, rfl, -, hk₁, -⟩⟩ := hk.rtThreadSuspend (by simp) hsuspend
  · exact absurd hstat hnot
  have hset₂ := liftTimers_eq_ok.mp hset
  simp only [Timers.rtTimerControl, exec_bind_ok, exec_pure_ok] at hset₂
  obtain ⟨_, ⟨_, -, rfl⟩, rfl⟩ := hset₂
  obtain ⟨s₃, hexec, rfl⟩ := liftTimers_eq_ok.mp hstart
  have hstarted := Timers.rtTimerStart_started (by exact hk₁.sorted.linked) hexec
  obtain ⟨c, p, rfl, -, hfree⟩ := rtSchedule_eq hschedule
  obtain ⟨q, v, hpick, rfl⟩ := hfree hlock
  have hlists : σ' = erase σ t := Holds.unique hk'.holds hk₁.holds
  have hlinked : Sum.inl t ∈ zs' := by
    obtain ⟨as, bs, -, hl, -, -⟩ := hstarted.list
    rw [congrFun (Holds.unique hk'.sorted.linked hl) ()]
    simp
  have hsuspended : (((k.removedThread t).setStat t .suspend).thread t).stat = .suspend := by simp
  refine ⟨σ', zs', hk', fun i => ?_, .inl ⟨hsuspended, hlinked, ?_, by omega⟩,
    fun hcur' => ?_, rfl⟩
  · rw [hlists]
    exact hk.holds.fresh_erase t _
  · have hrem := hstarted.remaining_self
    simpa using hrem
  · -- the thread picked is ready, which the sleeping thread is not
    obtain rfl : v = t := Option.some.inj hcur'
    obtain ⟨-, ⟨rest, hσ⟩, -⟩ := hk'.highestReady (p := q) (t := v) hpick
    have hready := ((hk'.ready v (by simp) q).mp (by simp [hσ])).1
    exact absurd (hsuspended.symm.trans hready) (by simp)

/-- A sleep of the running thread gets as far as `rt_timer_start`. -/
theorem Wf.rtThreadSleep_starts (hk : Wf 0 ∅ k σ zs) (hcur : k.rtCurrentThread = some t)
    (hstat : (k.thread t).stat = .ready) (tick : Tick) :
    ∃ k₂ σ₂ zs₂, Wf 0 ∅ k₂ σ₂ zs₂ ∧ (k₂.thread t).stat = .suspend ∧
      (k₂.timers.timer (.inl t)).type ≠ .null ∧ (k₂.timers.timer (.inl t)).initTick = tick ∧
      k₂.rtCurrentThread = k.rtCurrentThread ∧
      (∀ u, u ≠ t → (k₂.thread u).stat = (k.thread u).stat) ∧
      k.rtThreadSleep tick = (do
        let k ← k₂.liftTimers (·.rtTimerStart (.inl t)) id
        k.rtSchedule) := by
  obtain ⟨k₁, hsuspend⟩ := hk.rtThreadSuspend_returns (by simp) hstat
  obtain ⟨htype, ⟨hbad, -⟩ | ⟨-, -, s, zs₁, rfl, -, hk₁, -⟩⟩ := hk.rtThreadSuspend (by simp) hsuspend
  · cases hbad
  let k₁ := ((k.removedThread t).setStat t .suspend).withTimers s
  have hregistered : (k₁.timers.timer (.inl t)).type ≠ .null :=
    (hk₁.alive (t := t) (by simp) (.inr (by simp))).2
  let s₂ := s.modifyTimer (.inl t) fun timer => { timer with initTick := tick }
  have hcontrol : k₁.timers.rtTimerControl (.inl t) .setTime tick = .ok (s₂, tick) :=
    exec_bind_ok.mpr ⟨(), rtAssert_eq_ok.mpr hregistered, rfl⟩
  have hset : k₁.liftTimers (·.rtTimerControl (.inl t) .setTime tick) Prod.fst =
      .ok (k₁.withTimers s₂) :=
    liftTimers_eq_ok.mpr ⟨_, hcontrol, rfl⟩
  have hcontrolled : (TimerOp.control (.inl t) .setTime tick).exec k₁.timers = .ok s₂ :=
    exec_bind_ok.mpr ⟨_, hcontrol, rfl⟩
  obtain ⟨zs₂, hk₂, -⟩ := hk₁.timerOp hcontrolled (fun _ _ => ⟨rfl, by simp⟩)
    (by simp [TimerOp.timer]) (fun _ _ hop => by cases hop)
  refine ⟨k₁.withTimers s₂, _, zs₂, hk₂, by simp [k₁], ?_, by simp [s₂], rfl,
    fun u hu => by simp [k₁, hu], ?_⟩
  · simpa [s₂, k₁] using hregistered
  · have hassert : rtAssert ((k.thread t).type ≠ .null) = .ok () := rtAssert_eq_ok.mpr htype
    simp only [State.rtThreadSleep, hcur]
    show (rtAssert ((k.thread t).type ≠ .null) >>= _) = _
    rw [hassert]
    show (k.rtThreadSuspend t >>= _) = _
    rw [hsuspend]
    show (k₁.liftTimers _ _ >>= _) = _
    rw [hset]
    rfl

theorem Wf.rtThreadSleep_returns (hk : Wf 0 ∅ k σ zs) (hcur : k.rtCurrentThread = some t)
    (hstat : (k.thread t).stat = .ready) {u : T} (hu : u ≠ t) (hready : (k.thread u).stat = .ready)
    {tick : Tick} (htick : tick.toNat < rtTickMaxHalf) : ∃ k', k.rtThreadSleep tick = .ok k' := by
  obtain ⟨k₂, σ₂, zs₂, hk₂, hsuspend, htype, hinit, hcur₂, hothers, heq⟩ :=
    hk.rtThreadSleep_starts hcur hstat tick
  obtain ⟨s, hstart, -⟩ := Timers.rtTimerStart_returns hk₂.sorted.linked htype (hinit ▸ htick)
  have hstarted : (TimerOp.start (.inl t)).exec k₂.timers = .ok s := hstart
  obtain ⟨zs₃, hk₃, -⟩ := hk₂.timerOp hstarted (fun _ _ => ⟨rfl, by simp⟩)
    (by simp [TimerOp.timer]) (fun v _ hop => by
      simp only [TimerOp.start.injEq, Sum.inl.injEq] at hop
      exact .inl (hop ▸ hsuspend))
  have hready₃ : ((k₂.withTimers s).thread u).stat = .ready := (hothers u hu).trans hready
  obtain ⟨k', hschedule⟩ := hk₃.rtSchedule_total (by simp) hready₃ (by simp [hcur₂, hcur])
  exact ⟨k', heq.trans (exec_bind_ok.mpr ⟨_, liftTimers_eq_ok.mpr ⟨s, hstart, rfl⟩, hschedule⟩)⟩

/-- A sleep of half the tick range or more fails the assertion of `rt_timer_start`. -/
theorem Wf.rtThreadSleep_asserts (hk : Wf 0 ∅ k σ zs) (hcur : k.rtCurrentThread = some t)
    (hstat : (k.thread t).stat = .ready) {tick : Tick} (htick : ¬ tick.toNat < rtTickMaxHalf) :
    k.rtThreadSleep tick = .error .assertion := by
  obtain ⟨k₂, σ₂, zs₂, -, -, htype, hinit, -, -, heq⟩ := hk.rtThreadSleep_starts hcur hstat tick
  have hstart := Timers.rtTimerStart_asserts htype (hinit ▸ htick)
  rw [heq]
  exact exec_bind_error.mpr (.inl (exec_bind_error.mpr (.inl hstart)))

/-! ## The rest of the system -/

/-- The timeout functions of `cb` make no call about the threads `ts`. -/
def Spares (cb : Callback T U I) (ts : Set T) : Prop :=
  ∀ u k, ∀ op ∈ cb u k, op.own = false ∧ ∀ t ∈ ts, op.target ≠ some t

/-- A step of the system that is no tick interrupt and not about the threads `ts`. -/
inductive Outside (ts : Set T) : State T U I → State T U I → Prop where
  | call {k k' : State T U I} (op : KernelOp T U I) : (∀ t ∈ ts, op.target ≠ some t) →
      (op.own = true → ∀ t ∈ ts, k.rtCurrentThread ≠ some t) → op.exec k = .ok k' →
      Outside ts k k'
  | wait {k k' : State T U I} (i : I) (flag : IpcFlag) (u : T) : k.rtCurrentThread = some u →
      u ∉ ts → (k.thread u).stat = .ready → k.rtIpcListSuspend i u flag = .ok k' →
      Outside ts k k'
  /-- The idle thread is in no critical section when it calls `rt_thread_idle_excute`. -/
  | idle {k k' : State T U I} (fuel : Nat) : k.rtSchedulerLockNest = 0 →
      k.rtThreadIdleExcute fuel = .ok k' → Outside ts k k'

theorem Sleeper.call (hs : Sleeper t lo n k σ zs) {op : KernelOp T U I}
    (htarget : op.target ≠ some t) (hown : op.own = true → k.rtCurrentThread ≠ some t)
    (h : op.exec k = .ok k') : ∃ σ' zs', Sleeper t lo n k' σ' zs' := by
  have hsub := KernelOp.subject_ne hs.wf.holds hs.waits htarget hown
  obtain ⟨σ', zs', hk', huntouched, -⟩ := hs.wf.exec (by simp) h
  exact ⟨σ', zs', hs.keep hk' (huntouched t hsub) (hk'.exec_runsOn h hsub)⟩

theorem Sleeper.calls (hs : Sleeper t lo n k σ zs) {ops : List (KernelOp T U I)}
    (hops : ∀ op ∈ ops, op.own = false ∧ op.target ≠ some t)
    (h : ops.foldlM (fun k op => op.exec k) k = .ok k') : ∃ σ' zs', Sleeper t lo n k' σ' zs' := by
  induction ops generalizing k σ zs with
  | nil =>
    simp only [List.foldlM_nil, exec_pure_ok] at h
    exact ⟨σ, zs, h ▸ hs⟩
  | cons op ops ih =>
    simp only [List.foldlM_cons, exec_bind_ok] at h
    obtain ⟨k₁, hexec, hrest⟩ := h
    obtain ⟨hown, htarget⟩ := hops op (by simp)
    obtain ⟨σ₁, zs₁, hs₁⟩ := hs.call htarget (by simp [hown]) hexec
    exact ih hs₁ (fun op hm => hops op (by simp [hm])) hrest

theorem Sleeper.outside (hs : Sleeper t lo n k σ zs) (ht : t ∈ ts) (h : Outside ts k k') :
    ∃ σ' zs', Sleeper t lo n k' σ' zs' := by
  cases h with
  | call op htarget hown hexec => exact hs.call (htarget t ht) (fun h => hown h t ht) hexec
  | wait i flag u hcur hu hstat hsuspend =>
    have hne : t ≠ u := fun heq => hu (heq ▸ ht)
    obtain ⟨xs, ys, zs', -, -, -, hk', htouch, -, hcur'⟩ :=
      hs.wf.rtIpcListSuspend (by simp) hstat hsuspend
    exact ⟨_, zs', hs.keep hk' (htouch.untouched hne) (SameRun.runsOn ⟨hcur', htouch.lock⟩)⟩
  | idle fuel hlock hexcute =>
    obtain ⟨σ', hk', -, hrest⟩ := hs.wf.rtThreadIdleExcute hexcute
    have hstat : (k.thread t).stat ≠ .close := by
      rcases hs.rest with ⟨h, -⟩ | ⟨h, -⟩ <;> simp [h]
    obtain ⟨huntouched, hruns⟩ := hrest t hstat
    exact ⟨σ', zs, hs.keep hk' huntouched (hruns hlock)⟩

/-! ## The tick interrupt -/

omit [DecidableEq U] [Fintype T] [Fintype U] in
theorem Sleeper.begin (hs : Sleeper t 0 n k σ zs) (h : k.rtTickBegin = .ok k') :
    ∃ σ', Sleeper t (-1) (n - 1) k' σ' zs := by
  obtain ⟨u, hcur⟩ := Option.isSome_iff_exists.mp hs.running
  obtain ⟨σ', hk', htimers, hlock, hthread, hlists, -⟩ := hs.wf.rtTickBegin hcur h
  have hruns : RunsOn t k k' := hk'.runsOn_tickBegin h
  have hstat : (k'.thread t).stat = (k.thread t).stat := by
    obtain ⟨m, hm⟩ := hthread t
    rw [hm]
  refine ⟨σ', hk', fun i hm => hs.waits i ((hlists t _).mp hm), ?_, fun hcur' => ?_,
    hruns.running hs.running⟩
  · rw [hstat, htimers]
    rcases hs.rest with ⟨hsuspend, hm, hrem, hmore⟩ | ⟨hready, hn⟩
    · exact .inl ⟨hsuspend, hm, by rw [hs.wf.sorted.remaining_advance hm, hrem], by omega⟩
    · exact .inr ⟨hready, by omega⟩
  · rcases hruns.picked hcur' with ⟨hcur₀, hlock'⟩ | hready
    · obtain ⟨hready, hfree⟩ := hs.picked hcur₀
      exact ⟨hstat.trans hready, hlock'.trans hfree⟩
    · exact hready

theorem Sleeper.fire (hs : Sleeper t (-1) n k σ zs) (hspares : Spares cb ts) (ht : t ∈ ts)
    {x : T ⊕ U} (hnext : k.timers.rtTimerList.next (.inl ()) = .inr x)
    (hdue : k.timers.due k.timers.rtTick x = true)
    (h : (host (timeoutFunc cb)).fire x k = .ok k') : ∃ σ' zs', Sleeper t (-1) n k' σ' zs' := by
  obtain ⟨rest, hzs⟩ := Holds.next_head_eq_elem hs.wf.sorted.linked hnext
  change zs = x :: rest at hzs
  subst hzs
  cases x with
  | inl u =>
    have hdue' := (hs.wf.sorted.due_iff (le_refl _) (by simp)).mp hdue
    obtain ⟨hsuspend, σ', zs', hσ', hk', htouch, hgone, hthread, hruns⟩ :=
      hs.wf.fireThread (by simp) h
    by_cases hut : t = u
    · subst hut
      -- the sleep is over
      have hn : n ≤ 0 := by
        rcases hs.rest with ⟨-, -, hrem, -⟩ | ⟨-, hn⟩
        · omega
        · exact hn
      have hready : (k'.thread t).stat = .ready := by simp [hthread]
      refine ⟨σ', zs', hk'.sleeper hready hn (fun hcur => ?_) ((hruns t).running hs.running)⟩
      rcases (hruns t).picked hcur with ⟨hcur₀, -⟩ | ⟨-, hfree⟩
      · have := (hs.picked hcur₀).1
        rw [hsuspend] at this
        cases this
      · exact hfree
    · exact ⟨σ', zs', hs.keep hk' (htouch.untouched hut) (hruns t)⟩
  | inr u =>
    obtain ⟨k₁, hcall, hend⟩ := TimerHost.fire_cases h
    have hremoved : Sleeper t (-1) n (k.withTimers (k.timers.rtTimerRemove (.inr u))) σ rest :=
      hs.keep hs.wf.removeFront ⟨⟨_, rfl⟩, rfl, by simp, fun _ => Iff.rfl, rfl⟩
        (SameRun.runsOn ⟨rfl, rfl⟩)
    obtain ⟨σ₁, zs₁, hs₁⟩ := hremoved.calls
      (fun op hm => ⟨(hspares u _ op hm).1, (hspares u _ op hm).2 t ht⟩) hcall
    obtain ⟨zs', hk', hsame, huntouched⟩ := hs₁.wf.fireEnd hend
    exact ⟨σ₁, zs', hs₁.keep hk' (huntouched t) hsame.runsOn⟩

/-- When its time has come, the timer of a sleeper fires without a failing assertion. -/
theorem Sleeper.fire_returns (hs : Sleeper t lo n k σ zs)
    (hnext : k.timers.rtTimerList.next (.inl ()) = .inr (.inl t)) :
    ∃ k', (host (timeoutFunc cb)).fire (.inl t) k = .ok k' := by
  obtain ⟨rest, hzs⟩ := Holds.next_head_eq_elem hs.wf.sorted.linked hnext
  change zs = .inl t :: rest at hzs
  subst hzs
  have hsuspend : (k.thread t).stat = .suspend := by
    rcases hs.rest with ⟨h, -⟩ | ⟨hready, -⟩
    · exact h
    · cases hs.wf.waiting t (by simp) (by simp) with
      | _ h => simp [hready] at h
  have hgone : Sum.inl t ∉ rest := (List.nodup_cons.mp hs.wf.sorted.linked.nodup).1
  have hremoved := hs.wf.removeFront
  obtain ⟨k₁, hcall⟩ := hremoved.rtThreadTimeout_returns (by simp) hgone hsuspend hs.running
  obtain ⟨-, c, p, σ', rfl, -, hk₁, -⟩ := hremoved.rtThreadTimeout (by simp) hgone hcall
  obtain ⟨hmode, hfreed⟩ := hk₁.embedded t
  exact ⟨_, TimerHost.fire_oneshot hcall hfreed hmode⟩

theorem Sleeper.inTick (hs : Sleeper t 0 n k σ zs) (hspares : Spares cb ts) (ht : t ∈ ts)
    (h : InTick cb k k') : ∃ σ' zs', Sleeper t (-1) (n - 1) k' σ' zs' := by
  induction h with
  | check hbegin =>
    obtain ⟨σ', hs'⟩ := hs.begin hbegin
    exact ⟨σ', zs, hs'⟩
  | fire x _ hnext hdue hfired ih =>
    obtain ⟨σ₁, zs₁, hs₁⟩ := ih
    exact hs₁.fire hspares ht hnext hdue hfired

/-- A tick interrupt brings the end of the sleep one tick closer, and ends the sleep if that
    was the last. -/
theorem Sleeper.tick (hs : Sleeper t 0 n k σ zs) (hspares : Spares cb ts) (ht : t ∈ ts)
    {fuel : Nat} (h : k.rtTickIncrease (timeoutFunc cb) fuel = .ok k') :
    ∃ σ' zs', Sleeper t 0 (n - 1) k' σ' zs' := by
  obtain ⟨hin, hfront⟩ := inTick_of_rtTickIncrease h
  obtain ⟨σ', zs', hs'⟩ := hs.inTick hspares ht hin
  have hnot : ∀ x ∈ zs'.head?, k'.timers.due k'.timers.rtTick x = false :=
    fun x hx => hfront x (hs'.wf.next_timer hx)
  refine ⟨σ', zs', hs'.wf.mono hnot, hs'.waits, ?_, hs'.picked, hs'.running⟩
  rcases hs'.rest with ⟨hsuspend, hm, hrem, -⟩ | hready
  · have hwin := ((hs'.wf.sorted.rest (le_refl _) hnot).window _ hm).1
    exact .inl ⟨hsuspend, hm, hrem, by omega⟩
  · exact .inr hready

end State

end PandoraRobot.Kernel
