import PandoraRobot.Kernel.TimeSlice
import PandoraRobot.Lib.RoundRobin

/-! # Round robin among the ready threads

The tick interrupts of a run in which no thread blocks or wakes.  The list of the highest ready
priority is a rotation whose runner is the running thread: the countdown in `rt_tick_increase`,
the rotation in `rt_thread_yield` and the choice in `rt_schedule` make one tick of it.
-/

namespace PandoraRobot.Kernel

open PandoraRobot.RingList PandoraRobot.RoundRobin

/-- A call that neither blocks, wakes, ends or yields a thread, nor changes its priority or the
    lock of the scheduler. -/
def KernelOp.quiet {T U I : Type} : KernelOp T U I → Bool
  | init _ _ _ | create _ _ _ | setCleanup _ _ | sleepReturn _ | schedule | timer _ => true
  | _ => false

namespace State

variable {T U I : Type}

variable {cb : Callback T U I} {lo : Int} {k k' : State T U I} {σ σ' : ListHead I → List T}
  {zs zs' : List (T ⊕ U)} {slice : T → Nat} {p : Nat} {s : Rotation T} {t u : T} {rest : List T}

/-- The thread that `rt_schedule` picks is the first one of the highest list. -/
theorem Wf.picks (hk : Wf lo ∅ k σ zs) {q : Nat} (htop : ∀ q < p, σ (.ready q) = [])
    (hne : σ (.ready p) ≠ []) (h : k.highestReadyThread = .ok (q, t)) :
    (σ (.ready p)).head? = some t := by
  obtain ⟨-, ⟨rest, hq⟩, hempty⟩ := hk.highestReady h
  rcases Nat.lt_trichotomy q p with hlt | rfl | hgt
  · rw [htop q hlt] at hq
    simp at hq
  · rw [hq]
    rfl
  · exact absurd (hempty p hgt) hne

variable [DecidableEq T] [DecidableEq U] [DecidableEq I] in
theorem rtThreadInitFields_stat {priority : Nat} {tick : Tick}
    (h : k.rtThreadInitFields u priority tick = .ok k') : (k'.thread u).stat ≠ .ready := by
  simp only [rtThreadInitFields, exec_bind_ok] at h
  obtain ⟨_, -, h⟩ := h
  obtain ⟨_, -, rfl⟩ := liftTimers_eq_ok.mp h
  simp [withTimers]

/-- The ready threads of priority `p`, the highest one, are in rotation. -/
structure Turns (slice : T → Nat) (p : Nat) (s : Rotation T) (lo : Int) (k : State T U I)
    (σ : ListHead I → List T) (zs : List (T ⊕ U)) : Prop where
  wf : Wf lo ∅ k σ zs
  queue : σ (.ready p) = s.queue
  top : ∀ q < p, σ (.ready q) = []
  current : k.rtCurrentThread = s.queue.head?
  lock : k.rtSchedulerLockNest = 0
  init : ∀ t ∈ s.queue, (k.thread t).initTick.toNat = slice t
  left : ∀ t ∈ s.queue, (k.thread t).remainingTick.toNat = s.left t

namespace Turns

theorem stat (ht : Turns slice p s lo k σ zs) (hmem : t ∈ s.queue) :
    (k.thread t).stat = .ready ∧ (k.thread t).currentPriority = p :=
  (ht.wf.ready t (by simp) p).mp (ht.queue ▸ hmem)

variable [DecidableEq T]

/-- A call of `rt_schedule` finds the runner running. -/
theorem schedule (ht : Turns slice p s lo k σ zs) (h : k.rtSchedule = .ok k') :
    Turns slice p s lo k' σ zs ∧ k'.thread = k.thread := by
  obtain ⟨c, q, rfl, -, hpick⟩ := rtSchedule_eq h
  obtain ⟨q', t, hready, rfl⟩ := hpick ht.lock
  have hne : s.queue ≠ [] := fun hnil => by
    have hcurrent := ht.current
    rw [hnil, List.head?_nil] at hcurrent
    simp [State.rtSchedule, ht.lock, hready, hcurrent, bind, Except.bind] at h
  refine ⟨{ ht with wf := ht.wf.switched _ _, current := ?_ }, rfl⟩
  rw [← ht.queue] at hne ⊢
  exact (ht.wf.picks ht.top hne hready).symm

/-- A call about a thread that is not ready, and does not become so. -/
theorem touch (ht : Turns slice p s lo k σ zs) (hk' : Wf lo ∅ k' σ' zs')
    (htouch : Touches u k σ zs k' σ' zs') (hsame : SameRun k k')
    (hu : (k.thread u).stat ≠ .ready) (hu' : (k'.thread u).stat ≠ .ready) :
    Turns slice p s lo k' σ' zs' := by
  have hlists : ∀ q, σ' (.ready q) = σ (.ready q) := fun q => by
    have herase := congrFun htouch.lists (.ready q)
    rwa [erase_of_notMem (hk'.not_ready hu' q), erase_of_notMem (ht.wf.not_ready hu q)] at herase
  have hother : ∀ t ∈ s.queue, k'.thread t = k.thread t := fun t hmem =>
    htouch.thread t fun htu => hu (htu ▸ (ht.stat hmem).1)
  exact {
    wf := hk'
    queue := (hlists p).trans ht.queue
    top := fun q hq => (hlists q).trans (ht.top q hq)
    current := hsame.1.trans ht.current
    lock := hsame.2.trans ht.lock
    init := fun t hmem => by rw [hother t hmem, ht.init t hmem]
    left := fun t hmem => by rw [hother t hmem, ht.left t hmem] }

/-- A write to fields that the scheduler does not look at. -/
theorem modify (ht : Turns slice p s lo k σ zs) (f : Thread → Thread)
    (hf : ∀ th, (f th).type = th.type ∧ (f th).stat = th.stat ∧
      (f th).currentPriority = th.currentPriority ∧ (f th).initPriority = th.initPriority ∧
      (f th).numberMask = th.numberMask)
    (hslice : ∀ th, (f th).initTick = th.initTick ∧ (f th).remainingTick = th.remainingTick) :
    Turns slice p s lo (k.modifyThread u f) σ zs := by
  refine { ht with wf := ht.wf.modify hf, init := fun t hmem => ?_, left := fun t hmem => ?_ }
  · by_cases htu : t = u
    · subst htu
      rw [modifyThread_thread, Function.update_self, (hslice _).1, ht.init t hmem]
    · rw [modifyThread_thread, Function.update_of_ne htu, ht.init t hmem]
  · by_cases htu : t = u
    · subst htu
      rw [modifyThread_thread, Function.update_self, (hslice _).2, ht.left t hmem]
    · rw [modifyThread_thread, Function.update_of_ne htu, ht.left t hmem]

/-- What is left of a slice is written. -/
theorem setLeft (ht : Turns slice p s lo k σ zs) (f : Thread → Tick) :
    Turns slice p { s with left := Function.update s.left t (f (k.thread t)).toNat } lo
      (k.modifyThread t fun th => { th with remainingTick := f th }) σ zs := by
  refine { ht with
    wf := ht.wf.modify fun _ => ⟨rfl, rfl, rfl, rfl, rfl⟩
    init := fun u hmem => ?_
    left := fun u hmem => ?_ }
  · by_cases hut : u = t
    · subst hut
      rw [modifyThread_thread, Function.update_self, ← ht.init u hmem]
    · rw [modifyThread_thread, Function.update_of_ne hut, ht.init u hmem]
  · dsimp only
    by_cases hut : u = t
    · subst hut
      rw [modifyThread_thread, Function.update_self, Function.update_self]
    · rw [modifyThread_thread, Function.update_of_ne hut, Function.update_of_ne hut,
        ht.left u hmem]

variable [DecidableEq I]

/-- `rt_thread_yield` of the runner.  If it is alone in its list, the test of the code leaves the
    list as it is. -/
theorem yield (ht : Turns slice p s lo k σ zs) (hq : s.queue = t :: rest)
    (h : k.rtThreadYield = .ok k') :
    ∃ σ', Turns slice p { s with queue := rest ++ [t] } lo k' σ' zs := by
  have hcurrent := ht.current
  rw [hq, List.head?_cons] at hcurrent
  simp only [State.rtThreadYield, exec_bind_ok] at h
  obtain ⟨u, hself, h⟩ := h
  obtain rfl : u = t := Option.some.inj ((rtThreadSelf_eq hself).symm.trans hcurrent)
  have hlist := ht.queue.trans hq
  obtain ⟨hstat, hprio⟩ := ht.stat (t := u) (by simp [hq])
  have hmem : ∀ v, v ∈ rest ++ [u] ↔ v ∈ s.queue := fun v => by simp [hq, or_comm]
  split at h
  next hmany =>
    split at h
    · simp at h
    obtain ⟨c, q, rfl, -, hpick⟩ := rtSchedule_eq h
    obtain ⟨q', v, hready, rfl⟩ := hpick ht.lock
    have hrotated := ht.wf.rotated (by simp) hstat
    rw [hprio] at hrotated
    have hback : pushBack (erase σ u) (.ready p) u (.ready p) = rest ++ [u] := by
      simp [pushBack, insertAt, erase, hlist]
    have htop : ∀ q < p, pushBack (erase σ u) (.ready p) u (.ready q) = [] := fun q hqp => by
      rw [pushBack_other (by simpa using hqp.ne), erase, ht.top q hqp, List.erase_nil]
    have hne : pushBack (erase σ u) (.ready p) u (.ready p) ≠ [] := by simp
    refine ⟨_, {
      wf := hrotated.switched _ _
      queue := hback
      top := htop
      current := ?_
      lock := ht.lock
      init := fun v hv => ht.init v ((hmem v).mp hv)
      left := fun v hv => ht.left v ((hmem v).mp hv) }⟩
    rw [← hback]
    exact (hrotated.picks htop hne hready).symm
  next hcond =>
    simp only [exec_pure_ok] at h
    subst h
    have halone : rest = [] := by
      cases rest with
      | nil => rfl
      | cons v rest =>
        -- the node before is the head, and the one behind is a thread
        have hnext := (ht.wf.holds.adjacent (.ready p) [u] (v :: rest) hlist).1
        have hprev := (ht.wf.holds.adjacent (.ready p) [] (u :: v :: rest) hlist).2
        refine absurd ⟨hstat, ?_⟩ hcond
        change k.tlist.next (.inr u) = .inr v at hnext
        change k.tlist.prev (.inr u) = .inl _ at hprev
        rw [hnext, hprev]
        exact Sum.inr_ne_inl
    subst halone
    exact ⟨σ, { ht with
      queue := hlist
      current := hcurrent
      init := fun v hv => ht.init v ((hmem v).mp hv)
      left := fun v hv => ht.left v ((hmem v).mp hv) }⟩

/-- `rt_tick_increase` up to the timers is a tick of the rotation. -/
theorem tickBegin (ht : Turns slice p s 0 k σ zs) (hv : s.Valid slice)
    (h : k.rtTickBegin = .ok k') :
    ∃ σ', Turns slice p (s.tick slice) (-1) k' σ' zs := by
  simp only [State.rtTickBegin, exec_bind_ok] at h
  obtain ⟨t, hself, h⟩ := h
  have hcurrent : s.queue.head? = some t := ht.current.symm.trans (rtThreadSelf_eq hself)
  obtain ⟨rest, hq⟩ : ∃ rest, s.queue = t :: rest := by
    cases hqueue : s.queue with
    | nil => simp [hqueue] at hcurrent
    | cons u rest => exact ⟨rest, by simpa [hqueue] using hcurrent⟩
  have hmem : t ∈ s.queue := by simp [hq]
  have hleft := ht.left t hmem
  have hpos := hv.left_pos t hmem
  have hadvanced : Turns slice p s (-1) (k.withTimers k.timers.advance) σ zs :=
    { ht with wf := { ht.wf with low := ⟨le_refl _, by omega⟩, sorted := ht.wf.sorted.advance } }
  have hcounted := hadvanced.setLeft (t := t) (fun th => th.remainingTick - 1)
  have hcount : ((k.thread t).remainingTick - 1).toNat = s.left t - 1 := by
    rw [BitVec.toNat_sub_of_le (by simpa [BitVec.le_def] using by omega), hleft]
    rfl
  -- the slice is used up, or a tick of it is left
  split at h
  next hover =>
    have hzero : (k.thread t).remainingTick - 1 = 0 := by
      rw [modifyThread_thread, Function.update_self] at hover
      exact hover
    rw [hzero] at hcount
    have hlast : s.left t = 1 := by
      change 0 = s.left t - 1 at hcount
      omega
    -- the thread gets a new slice and goes to the back
    have hfull := hcounted.setLeft (t := t) (fun th => th.initTick)
    obtain ⟨σ', hyield⟩ := hfull.yield hq h
    refine ⟨σ', ?_⟩
    rw [Rotation.tick_last hq hlast]
    have hslice : (((k.withTimers k.timers.advance).modifyThread t fun th =>
        { th with remainingTick := th.remainingTick - 1 }).thread t).initTick.toNat = slice t := by
      rw [modifyThread_thread, Function.update_self]
      exact ht.init t hmem
    rw [hslice, Function.update_idem] at hyield
    exact hyield
  next hmore =>
    have hnonzero : (k.thread t).remainingTick - 1 ≠ 0 := by
      rw [modifyThread_thread, Function.update_self] at hmore
      exact hmore
    have hlast : s.left t ≠ 1 := fun hlast => hnonzero (BitVec.eq_of_toNat_eq (by
      rw [hcount, hlast]
      rfl))
    simp only [exec_pure_ok] at h
    subst h
    refine ⟨σ, ?_⟩
    rw [Rotation.tick_more hq hlast, ← hcount]
    exact hcounted

variable [DecidableEq U] [Fintype T] [Fintype U]

/-- A quiet call of a timeout function. -/
theorem exec (ht : Turns slice p s lo k σ zs) {op : KernelOp T U I} (hop : op.quiet = true)
    (h : op.exec k = .ok k') : ∃ σ' zs', Turns slice p s lo k' σ' zs' := by
  -- a thread that is set up was no thread before
  have hsetUp : ∀ u, (k.thread u).type = .null → Keeps lo ∅ u k σ zs k' → SameRun k k' →
      (k'.thread u).stat ≠ .ready → ∃ σ' zs', Turns slice p s lo k' σ' zs' := by
    intro u hnull hkeeps hsame hstat
    obtain ⟨σ', zs', hk', htouch, -⟩ := hkeeps
    have hready : (k.thread u).stat ≠ .ready := fun hready =>
      ht.wf.fresh_of_null (by simp) hnull _ ((ht.wf.ready u (by simp) _).mpr ⟨hready, rfl⟩)
    exact ⟨σ', zs', ht.touch hk' htouch hsame hready hstat⟩
  cases op with
  | init u priority tick =>
    have hkeeps := ht.wf.rtThreadInit (by simp) h
    simp only [KernelOp.exec, rtThreadInit, exec_bind_ok, rtAssert_eq_ok] at h
    obtain ⟨_, hnull, h⟩ := h
    have hsame := rtThreadInitFields_sameRun h
    exact hsetUp u hnull hkeeps ⟨hsame.1, hsame.2⟩ (rtThreadInitFields_stat h)
  | create u priority tick =>
    have hkeeps := ht.wf.rtThreadCreate (by simp) h
    simp only [KernelOp.exec, rtThreadCreate, exec_bind_ok, rtAssert_eq_ok] at h
    obtain ⟨_, hnull, h⟩ := h
    have hsame := rtThreadInitFields_sameRun h
    exact hsetUp u hnull hkeeps ⟨hsame.1, hsame.2⟩ (rtThreadInitFields_stat h)
  | setCleanup u cleanup =>
    simp only [KernelOp.exec, setCleanup, exec_bind_ok, exec_pure_ok] at h
    obtain ⟨_, -, rfl⟩ := h
    exact ⟨σ, zs, ht.modify _ (fun _ => ⟨rfl, rfl, rfl, rfl, rfl⟩) fun _ => ⟨rfl, rfl⟩⟩
  | sleepReturn u =>
    simp only [KernelOp.exec, rtThreadSleepReturn, exec_pure_ok] at h
    subst h
    split
    · exact ⟨σ, zs, ht.modify _ (fun _ => ⟨rfl, rfl, rfl, rfl, rfl⟩) fun _ => ⟨rfl, rfl⟩⟩
    · exact ⟨σ, zs, ht⟩
  | schedule => exact ⟨σ, zs, (ht.schedule h).1⟩
  | timer op =>
    obtain ⟨timers, hexec, rfl⟩ := liftTimers_eq_ok.mp h
    obtain ⟨zs', hk', -, -⟩ := ht.wf.userTimerOp (by simp) hexec
    exact ⟨σ, zs', { ht with wf := hk' }⟩
  | _ => cases hop

theorem calls (ht : Turns slice p s lo k σ zs) {ops : List (KernelOp T U I)}
    (hops : ∀ op ∈ ops, op.quiet = true)
    (h : ops.foldlM (fun k op => op.exec k) k = .ok k') :
    ∃ σ' zs', Turns slice p s lo k' σ' zs' := by
  induction ops generalizing k σ zs with
  | nil =>
    simp only [List.foldlM_nil, exec_pure_ok] at h
    exact h ▸ ⟨σ, zs, ht⟩
  | cons op ops ih =>
    simp only [List.foldlM_cons, exec_bind_ok] at h
    obtain ⟨k₁, hexec, hrest⟩ := h
    obtain ⟨σ₁, zs₁, ht₁⟩ := ht.exec (hops op List.mem_cons_self) hexec
    exact ih ht₁ (fun op hmem => hops op (List.mem_cons_of_mem _ hmem)) hrest

/-- A turn of the loop of `rt_timer_check` for a timer that is no thread's. -/
theorem fire {rest : List (T ⊕ U)} {u : U} (ht : Turns slice p s lo k σ (.inr u :: rest))
    (hcb : ∀ op ∈ cb u (k.withTimers (k.timers.rtTimerRemove (.inr u))), op.quiet = true)
    (h : (host (timeoutFunc cb)).fire (.inr u) k = .ok k') :
    ∃ σ' zs', Turns slice p s lo k' σ' zs' := by
  obtain ⟨k₁, hcall, hend⟩ := TimerHost.fire_cases h
  have hremoved : Turns slice p s lo (k.withTimers (k.timers.rtTimerRemove (.inr u))) σ rest :=
    { ht with wf := ht.wf.removeFront }
  obtain ⟨σ₁, zs₁, ht₁⟩ := hremoved.calls hcb hcall
  obtain ⟨zs', hk', hsame, -⟩ := ht₁.wf.fireEnd hend
  have hthread : k'.thread = k₁.thread := by
    rcases hend with ⟨-, -, hstart⟩ | ⟨-, rfl⟩
    · obtain ⟨_, -, rfl⟩ := liftTimers_eq_ok.mp hstart
      rfl
    · rfl
  exact ⟨σ₁, zs', { ht₁ with
    wf := hk'
    current := hsame.1.trans ht₁.current
    lock := hsame.2.trans ht₁.lock
    init := by rw [hthread]; exact ht₁.init
    left := by rw [hthread]; exact ht₁.left }⟩

end Turns

/-! ## Ready threads stay ready -/

variable [DecidableEq T] [DecidableEq U] [DecidableEq I] [Fintype T] [Fintype U]

theorem quiet_ready (hk : Wf lo ∅ k σ zs) {op : KernelOp T U I} (hop : op.quiet = true)
    (h : op.exec k = .ok k') (hu : (k.thread u).stat = .ready) : (k'.thread u).stat = .ready := by
  have hsetUp : ∀ v, (k.thread v).type = .null → Keeps lo ∅ v k σ zs k' →
      (k'.thread u).stat = .ready := by
    intro v hnull hkeeps
    obtain ⟨σ', zs', -, htouch, -⟩ := hkeeps
    have huv : u ≠ v := fun huv => hk.fresh_of_null (by simp) (huv ▸ hnull) _
      ((hk.ready u (by simp) _).mpr ⟨hu, rfl⟩)
    rw [htouch.thread u huv, hu]
  -- a write to another field
  have hfield : ∀ v (f : Thread → Thread), (∀ th, (f th).stat = th.stat) →
      ((k.modifyThread v f).thread u).stat = .ready := by
    intro v f hf
    by_cases huv : u = v
    · subst huv
      rw [modifyThread_thread, Function.update_self, hf, hu]
    · rw [modifyThread_thread, Function.update_of_ne huv, hu]
  cases op with
  | init v priority tick =>
    have hkeeps := hk.rtThreadInit (by simp) h
    simp only [KernelOp.exec, rtThreadInit, exec_bind_ok, rtAssert_eq_ok] at h
    exact hsetUp v h.choose_spec.1 hkeeps
  | create v priority tick =>
    have hkeeps := hk.rtThreadCreate (by simp) h
    simp only [KernelOp.exec, rtThreadCreate, exec_bind_ok, rtAssert_eq_ok] at h
    exact hsetUp v h.choose_spec.1 hkeeps
  | setCleanup v cleanup =>
    simp only [KernelOp.exec, setCleanup, exec_bind_ok, exec_pure_ok] at h
    obtain ⟨_, -, rfl⟩ := h
    exact hfield v _ fun _ => rfl
  | sleepReturn v =>
    simp only [KernelOp.exec, rtThreadSleepReturn, exec_pure_ok] at h
    subst h
    split
    · exact hfield v _ fun _ => rfl
    · exact hu
  | schedule =>
    obtain ⟨c, q, rfl, -, -⟩ := rtSchedule_eq h
    exact hu
  | timer op =>
    obtain ⟨_, -, rfl⟩ := liftTimers_eq_ok.mp h
    exact hu
  | _ => cases hop

theorem calls_ready (hg : Good lo k) {ops : List (KernelOp T U I)}
    (hops : ∀ op ∈ ops, op.quiet = true)
    (h : ops.foldlM (fun k op => op.exec k) k = .ok k') (hu : (k.thread u).stat = .ready) :
    (k'.thread u).stat = .ready := by
  induction ops generalizing k with
  | nil =>
    simp only [List.foldlM_nil, exec_pure_ok] at h
    exact h ▸ hu
  | cons op ops ih =>
    simp only [List.foldlM_cons, exec_bind_ok] at h
    obtain ⟨k₁, hexec, hrest⟩ := h
    obtain ⟨σ, zs, hk⟩ := hg
    exact ih (Good.exec ⟨σ, zs, hk⟩ hexec) (fun op hmem => hops op (List.mem_cons_of_mem _ hmem))
      hrest (quiet_ready hk (hops op List.mem_cons_self) hexec hu)

/-- The timeout functions make quiet calls only. -/
def QuietTimers (cb : Callback T U I) : Prop := ∀ u k, ∀ op ∈ cb u k, op.quiet = true

theorem fire_ready (hcb : QuietTimers cb) {x : T ⊕ U} {rest : List (T ⊕ U)}
    (hk : Wf lo ∅ k σ (x :: rest)) (h : (host (timeoutFunc cb)).fire x k = .ok k')
    (hu : (k.thread u).stat = .ready) : (k'.thread u).stat = .ready := by
  cases x with
  | inl t =>
    obtain ⟨-, σ', zs', -, -, -, -, hthread, -⟩ := hk.fireThread (by simp) h
    rw [hthread]
    by_cases hut : u = t
    · subst hut
      rw [Function.update_self]
    · rw [Function.update_of_ne hut, hu]
  | inr v =>
    obtain ⟨k₁, hcall, hend⟩ := TimerHost.fire_cases h
    have hready := calls_ready ⟨σ, rest, hk.removeFront⟩ (hcb v _) hcall hu
    rcases hend with ⟨-, -, hstart⟩ | ⟨-, rfl⟩
    · obtain ⟨_, -, rfl⟩ := liftTimers_eq_ok.mp hstart
      exact hready
    · exact hready

/-! ## A tick -/

/-- In the midst of a tick the rotation has gone on by one, or a thread has woken. -/
theorem Turns.inTick (hcb : QuietTimers cb) (ht : Turns slice p s 0 k σ zs)
    (hv : s.Valid slice) (h : InTick cb k k') :
    (∀ u, (k.thread u).stat = .ready → (k'.thread u).stat = .ready) ∧
      ((∃ σ' zs', Turns slice p (s.tick slice) (-1) k' σ' zs') ∨
        ∃ u, (k.thread u).stat ≠ .ready ∧ (k'.thread u).stat = .ready) := by
  have hg : Good 0 k := ⟨σ, zs, ht.wf⟩
  induction h with
  | @check k₁ hbegin =>
    obtain ⟨σ', ht'⟩ := ht.tickBegin hv hbegin
    refine ⟨fun u hu => ?_, .inl ⟨σ', zs, ht'⟩⟩
    cases hcur : k.rtCurrentThread with
    | none => simp [State.rtTickBegin, rtThreadSelf, hcur] at hbegin
    | some c =>
      obtain ⟨-, -, -, -, hthread, -⟩ := ht.wf.rtTickBegin hcur hbegin
      obtain ⟨n, hn⟩ := hthread u
      rw [hn]
      exact hu
  | @fire k₁ k₂ x hin hnext _ hfired ih =>
    obtain ⟨hready, hor⟩ := ih
    obtain ⟨σ₁, zs₁, hk₁⟩ := hg.inTick hin
    obtain ⟨rest, hzs⟩ := Holds.next_head_eq_elem hk₁.sorted.linked hnext
    change zs₁ = x :: rest at hzs
    subst hzs
    have hstays := fun u => fire_ready (u := u) hcb hk₁ hfired
    refine ⟨fun u hu => hstays u (hready u hu), ?_⟩
    rcases hor with ⟨σ', zs', ht'⟩ | ⟨u, hbefore, hnow⟩
    · cases x with
      | inl t =>
        -- the timer of a thread wakes it
        obtain ⟨hstat, -, -, -, -, -, -, hthread, -⟩ := hk₁.fireThread (by simp) hfired
        refine .inr ⟨t, fun hbefore => ?_, by rw [hthread, Function.update_self]⟩
        rw [hready t hbefore] at hstat
        cases hstat
      | inr v =>
        obtain ⟨rest', hzs'⟩ := Holds.next_head_eq_elem ht'.wf.sorted.linked hnext
        change zs' = .inr v :: rest' at hzs'
        subst hzs'
        exact .inl (ht'.fire (hcb v _) hfired)
    · exact .inr ⟨u, hbefore, hstays u hnow⟩

/-- A tick in which no thread wakes. -/
theorem Turns.tick (hcb : QuietTimers cb) (ht : Turns slice p s 0 k σ zs) (hv : s.Valid slice)
    {fuel : Nat} (h : k.rtTickIncrease (timeoutFunc cb) fuel = .ok k')
    (hwakes : ∀ t, (k'.thread t).stat = .ready → (k.thread t).stat = .ready) :
    ∃ σ' zs', Turns slice p (s.tick slice) 0 k' σ' zs' := by
  obtain ⟨hin, hfront⟩ := inTick_of_rtTickIncrease h
  rcases (ht.inTick hcb hv hin).2 with ⟨σ', zs', ht'⟩ | ⟨u, hbefore, hnow⟩
  · exact ⟨σ', zs', { ht' with wf := ht'.wf.mono fun x hx => hfront x (ht'.wf.next_timer hx) }⟩
  · exact absurd (hwakes u hnow) hbefore

/-! ## Runs of ticks -/

/-- Tick interrupts in a row in which no thread wakes, with the states that they leave. -/
inductive TickRun (cb : Callback T U I) : State T U I → List (State T U I) → Prop
  | nil {k : State T U I} : TickRun cb k []
  | cons {k k' : State T U I} {ks : List (State T U I)} {fuel : Nat}
      (tick : k.rtTickIncrease (timeoutFunc cb) fuel = .ok k')
      (wakes : ∀ t, (k'.thread t).stat = .ready → (k.thread t).stat = .ready)
      (run : TickRun cb k' ks) : TickRun cb k (k' :: ks)

/-- The running threads are the runners of the rotation. -/
theorem Turns.run (hcb : QuietTimers cb) (ht : Turns slice p s 0 k σ zs) (hv : s.Valid slice)
    {ks : List (State T U I)} (h : TickRun cb k ks) :
    (k :: ks).map rtCurrentThread = (List.range (ks.length + 1)).map (s.runner slice) := by
  induction h generalizing s σ zs with
  | nil => simp [ht.current, Rotation.runner]
  | cons tick wakes run ih =>
    obtain ⟨σ', zs', ht'⟩ := ht.tick hcb hv tick wakes
    have hsucc : (s.runner slice ∘ Nat.succ) = (s.tick slice).runner slice :=
      funext fun i => Rotation.runner_succ i
    rw [List.map_cons, ih ht' hv.tick, List.length_cons, List.range_succ_eq_map (n := _ + 1),
      List.map_cons, List.map_map, hsucc, ht.current]
    rfl

/-- `queue` is the list of the highest ready priority, and its first thread runs. -/
structure HighestReady (queue : List T) (k : State T U I) : Prop where
  listed : ∃ (σ : ListHead I → List T) (p : Nat), Holds k.tlist σ ∧ σ (.ready p) = queue ∧
    ∀ q < p, σ (.ready q) = []
  nonempty : queue ≠ []
  running : k.rtCurrentThread = queue.head?

omit [DecidableEq U] [DecidableEq I] [Fintype T] [Fintype U] in
/-- So it is when `rt_schedule` has returned. -/
theorem Good.highestReady (hg : Good lo k) (hlock : k.rtSchedulerLockNest = 0)
    (h : k.rtSchedule = .ok k') : ∃ queue, HighestReady queue k' := by
  obtain ⟨σ, zs, hk⟩ := hg
  obtain ⟨c, p', rfl, -, hpick⟩ := rtSchedule_eq h
  obtain ⟨q, t, hready, rfl⟩ := hpick hlock
  obtain ⟨-, ⟨rest, hlist⟩, htop⟩ := hk.highestReady hready
  exact ⟨t :: rest, ⟨σ, q, hk.holds, hlist, htop⟩, by simp, rfl⟩

/-- The threads of the highest ready priority take turns in the order of their list, each for its
    `init_tick`, but for what is left of it at its first turn. -/
theorem rt_round_robin (history cb : Callback T U I) {k₀ k : State T U I} (hi : Initial k₀)
    (hr : Runs history k₀ k) {queue : List T} (hqueue : HighestReady queue k)
    (hlock : k.rtSchedulerLockNest = 0) (hslice : ∀ t ∈ queue, (k.thread t).initTick ≠ 0)
    (hcb : QuietTimers cb) {ks : List (State T U I)} (hrun : TickRun cb k ks) :
    Rotation.TakesTurns queue (fun t => (k.thread t).remainingTick.toNat)
      (fun t => (k.thread t).initTick.toNat) ((k :: ks).map rtCurrentThread) := by
  obtain ⟨σ, zs, hk⟩ := runs_good hi hr
  obtain ⟨σ', p, hholds, hlist, htop⟩ := hqueue.listed
  obtain rfl : σ = σ' := hk.holds.unique hholds
  have hsliced := runs_sliced hi hr
  let s : Rotation T := { queue := queue, left := fun t => (k.thread t).remainingTick.toNat }
  have ht : Turns (fun t => (k.thread t).initTick.toNat) p s 0 k σ zs :=
    ⟨hk, hlist, htop, hqueue.running, hlock, fun _ _ => rfl, fun _ _ => rfl⟩
  have hv : s.Valid fun t => (k.thread t).initTick.toNat :=
    ⟨by simpa only [s, ← hlist] using hk.holds.nodup _, fun t ht => (hsliced t (hslice t ht)).1,
      fun t ht => (hsliced t (hslice t ht)).2⟩
  rw [ht.run hcb hv hrun]
  exact hv.takesTurns hqueue.nonempty _

/-- The states that `n` ticks leave, as long as no thread wakes. -/
def ticks (cb : Callback T U I) : Nat → State T U I → Exec (List (State T U I))
  | 0, _ => pure []
  | n + 1, k => do
    let k' ← k.rtTickIncrease (timeoutFunc cb) (Fintype.card (T ⊕ U) + 1)
    rtAssert (∀ t, (k'.thread t).stat = .ready → (k.thread t).stat = .ready)
    let ks ← ticks cb n k'
    pure (k' :: ks)

theorem ticks_run {n : Nat} {ks : List (State T U I)} (h : ticks cb n k = .ok ks) :
    TickRun cb k ks := by
  induction n generalizing k ks with
  | zero =>
    simp only [ticks, exec_pure_ok] at h
    exact h ▸ .nil
  | succ n ih =>
    simp only [ticks, exec_bind_ok, exec_pure_ok, rtAssert_eq_ok] at h
    obtain ⟨k', htick, _, hwakes, ks', hks, rfl⟩ := h
    exact .cons htick hwakes (ih hks)

/-- Two threads of priority 10 with slices of five ticks, and the idle thread. -/
theorem rt_round_robin_two :
    ∃ (k : State (Fin 3) (Fin 0) (Fin 0)) (ks : List (State (Fin 3) (Fin 0) (Fin 0))),
      (k :: ks).map rtCurrentThread = List.replicate 5 (some 0) ++ List.replicate 5 (some 1) ++
        List.replicate 3 (some 0) ∧
      Rotation.TakesTurns [0, 1] (fun t => (k.thread t).remainingTick.toNat)
        (fun t => (k.thread t).initTick.toNat) ((k :: ks).map rtCurrentThread) := by
  let cb : Callback (Fin 3) (Fin 0) (Fin 0) := fun _ _ => []
  let run : Exec (State (Fin 3) (Fin 0) (Fin 0) × List (State (Fin 3) (Fin 0) (Fin 0))) := do
    let k ← booted [(2, 31), (0, 10), (1, 10)]
    let ks ← ticks cb 12 k
    pure (k, ks)
  obtain ⟨⟨k, ks⟩, hrun, hdata⟩ := exec_exists_ok (show
    run.map (fun r => decide ((r.1 :: r.2).map rtCurrentThread =
        List.replicate 5 (some 0) ++ List.replicate 5 (some 1) ++ List.replicate 3 (some 0) ∧
      r.1.rtSchedulerLockNest = 0 ∧ (∀ t, (r.1.thread t).initTick = 5) ∧
      (r.1.tlist.next (.inl (.ready 10)) = .inr 0 ∧ r.1.tlist.next (.inr 0) = .inr 1 ∧
        r.1.tlist.next (.inr 1) = .inl (.ready 10)) ∧
      ∀ q ∈ List.range 10, r.1.tlist.next (.inl (.ready q)) = .inl (.ready q))) = .ok true
      by decide +kernel)
  simp only [run, exec_bind_ok, exec_pure_ok, Prod.mk.injEq] at hrun
  obtain ⟨k, hbooted, ks, hticks, rfl, rfl⟩ := hrun
  simp only [decide_eq_true_eq, List.mem_range] at hdata
  obtain ⟨hran, hlock, hslice, ⟨hhead, hnext, hlast⟩, hempty⟩ := hdata
  obtain ⟨k₀, hi, hr⟩ : ∃ k₀, Initial k₀ ∧ Runs cb k₀ k := booted_reached hbooted
  obtain ⟨σ, zs, hk⟩ := runs_good hi hr
  -- the links of the ready list of priority 10
  have hlist : σ (.ready 10) = [0, 1] := by
    obtain ⟨rest, hrest⟩ := hk.holds.next_head_eq_elem hhead
    have hsecond := (hk.holds.adjacent (.ready 10) [0] rest hrest).1
    rw [show lastOr (ListHead.ready 10) [(0 : Fin 3)] = .inr 0 from rfl, hnext] at hsecond
    cases rest with
    | nil => cases hsecond
    | cons t rest =>
      obtain rfl : 1 = t := Sum.inr.inj hsecond
      have hthird := (hk.holds.adjacent (.ready 10) [0, 1] rest hrest).1
      rw [show lastOr (ListHead.ready 10) [(0 : Fin 3), 1] = .inr 1 from rfl, hlast] at hthird
      cases rest with
      | nil => exact hrest
      | cons t rest => cases hthird
  have hqueue : HighestReady [0, 1] k :=
    ⟨⟨σ, 10, hk.holds, hlist, fun q hq => (hk.holds.next_head_eq_self _).mp (hempty q hq)⟩,
      by simp, by simpa using congrArg List.head? hran⟩
  exact ⟨k, ks, hran, rt_round_robin cb cb hi hr hqueue hlock (fun t _ => by rw [hslice t]; decide)
    (fun _ _ _ h => by cases h) (ticks_run hticks)⟩

end State

end PandoraRobot.Kernel
