import PandoraRobot.Kernel.Ended

/-! # The critical sections of `rt_thread_delete`

`rt_thread_delete` and `rt_thread_detach` end another thread in four critical sections: they
remove it from the scheduler, detach its timer, change its state, and hand it over to the idle
thread.  The idle thread takes it from the defunct list in one more, and frees the stack and
the object after that.  Between any two of these steps other threads run, and the tick
interrupt comes.

The timer of the thread runs until it is detached.  If it expires in the window before, it
puts the thread back into a ready list.
-/

namespace PandoraRobot.Kernel

open PandoraRobot.RingList

/-- The call that ends a thread. -/
inductive EndCall where
  | detach
  | delete
  deriving DecidableEq, Repr

/-- Whether the call is for threads that `rt_thread_init` has made. -/
def EndCall.static : EndCall → Bool
  | .detach => true
  | .delete => false

/-- Where the call that ends a thread stands. -/
inductive EndPc where
  | outside
  | checked (call : EndCall)
  | removed (call : EndCall)
  | detached (call : EndCall)
  | closed (call : EndCall)
  deriving DecidableEq, Repr

/-- The thread is off the scheduler and not handed over yet. -/
def EndPc.Leaving : EndPc → Prop
  | .removed _ | .detached _ | .closed _ => True
  | _ => False

/-- Where the idle thread stands in `rt_thread_idle_excute`. -/
inductive IdlePc (T : Type) where
  | loop
  | freeStack (t : T)
  | deleteObject (t : T)
  deriving DecidableEq, Repr

/-- The thread that the idle thread has taken from the defunct list. -/
def IdlePc.taken {T : Type} : IdlePc T → Option T
  | .loop => none
  | .freeStack t | .deleteObject t => some t

/-- The steps that the idle thread still has to make about it. -/
def IdlePc.left {T : Type} : IdlePc T → Nat
  | .loop => 0
  | .freeStack _ => 2
  | .deleteObject _ => 1

/-- The kernel, the calls that are about to end threads, and the idle thread. -/
structure Endings (T U I : Type) where
  kernel : State T U I
  pc : T → EndPc
  idle : IdlePc T
  /-- How often the stack of a thread was freed since the thread was made last. -/
  stackFreed : T → Nat
  /-- How often the object of a thread was freed since the thread was made last. -/
  objectFreed : T → Nat

namespace Endings

variable {T U I : Type} [DecidableEq T] [DecidableEq U] [DecidableEq I]

def goto (t : T) (pc : EndPc) (e : Endings T U I) : Endings T U I :=
  { e with pc := Function.update e.pc t pc }

/-- The kernel goes on to `k`.  For a thread that has been made meanwhile, counting begins anew. -/
def withKernel (k : State T U I) (e : Endings T U I) : Endings T U I :=
  let made := fun t => (e.kernel.thread t).type = .null ∧ (k.thread t).type ≠ .null
  { e with
    kernel := k
    stackFreed := fun t => if made t then 0 else e.stackFreed t
    objectFreed := fun t => if made t then 0 else e.objectFreed t }

/-- The checks of `rt_thread_detach` or `rt_thread_delete`. -/
def check (call : EndCall) (t : T) (e : Endings T U I) : Exec (Endings T U I) := do
  rtAssert ((e.kernel.thread t).type ≠ .null)
  rtAssert (rtObjectIsSystemobject (e.kernel.thread t).type = call.static)
  pure (e.goto t (if (e.kernel.thread t).stat ≠ .init then .checked call else .removed call))

/-- The next critical section of the call that ends `t`. -/
def next (t : T) (e : Endings T U I) : Exec (Endings T U I) :=
  match e.pc t with
  | .outside => pure e
  | .checked call => do
    let k ← e.kernel.rtScheduleRemoveThread t
    pure ((e.goto t (.removed call)).withKernel k)
  | .removed call => do
    let k ← e.kernel.liftTimers (·.rtTimerDetach (.inl t)) id
    pure ((e.goto t (.detached call)).withKernel k)
  | .detached call => pure ((e.goto t (.closed call)).withKernel (e.kernel.setStat t .close))
  | .closed .detach => pure ((e.goto t .outside).withKernel (e.kernel.detachOrDefunct t))
  | .closed .delete => pure ((e.goto t .outside).withKernel (e.kernel.insertDefunct t))

/-- The next step of the idle thread.  The critical section that takes a thread detaches the
    object of a static one. -/
def idleStep (e : Endings T U I) : Exec (Endings T U I) :=
  match e.idle with
  | .loop =>
    match e.kernel.tlist.next (.inl .defunct) with
    | .inl _ => pure e
    | .inr t => do
      let k := (e.kernel.unlink t).rtEnterCritical
      if rtObjectIsSystemobject (k.thread t).type then
        let k ← (k.modifyThread t fun th => { th with type := .null }).rtExitCritical
        pure (e.withKernel k)
      else
        let k ← k.rtExitCritical
        pure { e.withKernel k with idle := .freeStack t }
  | .freeStack t =>
    pure { e with
      idle := .deleteObject t
      stackFreed := Function.update e.stackFreed t (e.stackFreed t + 1) }
  | .deleteObject t =>
    pure { e.withKernel (e.kernel.modifyThread t fun th => { th with type := .null }) with
      idle := .loop
      objectFreed := Function.update e.objectFreed t (e.objectFreed t + 1) }

/-! ## The calls as a whole -/

variable {e e' : Endings T U I} {t : T}

/-- The kernel of a call of `rt_thread_delete` that nothing comes between. -/
theorem rtThreadDelete_steps (hstat : (e.kernel.thread t).stat ≠ .init) :
    (do
      let e ← e.check .delete t
      let e ← e.next t
      let e ← e.next t
      let e ← e.next t
      let e ← e.next t
      pure e.kernel) = e.kernel.rtThreadDelete t := by
  simp only [check, next, State.rtThreadDelete, State.leaveScheduler, hstat, EndCall.static, goto,
    withKernel, ne_eq, not_false_eq_true, if_true, bind_assoc, pure_bind, Function.update_self]
  rfl

/-- The kernel of a call of `rt_thread_detach` that nothing comes between. -/
theorem rtThreadDetach_steps (hstat : (e.kernel.thread t).stat ≠ .init) :
    (do
      let e ← e.check .detach t
      let e ← e.next t
      let e ← e.next t
      let e ← e.next t
      let e ← e.next t
      pure e.kernel) = e.kernel.rtThreadDetach t := by
  simp only [check, next, State.rtThreadDetach, State.leaveScheduler, hstat, EndCall.static, goto,
    withKernel, ne_eq, not_false_eq_true, if_true, bind_assoc, pure_bind, Function.update_self]
  rfl

omit [DecidableEq U] in
/-- A pass of `rt_thread_idle_excute` over an allocated thread that nothing comes between. -/
theorem rtThreadIdleExcute_steps (hidle : e.idle = .loop)
    (hnext : e.kernel.tlist.next (.inl .defunct) = .inr t)
    (htype : rtObjectIsSystemobject (e.kernel.thread t).type = false) (fuel : Nat) :
    (do
      let e ← e.idleStep
      let e ← e.idleStep
      let e ← e.idleStep
      e.kernel.rtThreadIdleExcute fuel) = e.kernel.rtThreadIdleExcute (fuel + 1) := by
  have htype' : ((e.kernel.unlink t).rtEnterCritical.thread t).type = (e.kernel.thread t).type :=
    rfl
  rw [State.rtThreadIdleExcute]
  simp only [idleStep, hidle, hnext, htype', htype, if_false, Bool.false_eq_true, bind_assoc,
    pure_bind, withKernel]

/-! ## Runs -/

/-- The threads that calls have taken off the scheduler. -/
def leaving (e : Endings T U I) : Set T := {t | (e.pc t).Leaving}

/-- Those of them whose timer still runs. -/
def removed (e : Endings T U I) : Set T := {t | ∃ call, e.pc t = .removed call}

/-- A call or a step of the idle thread, or what goes on beside them. -/
inductive Move (T : Type) where
  | check (t : T)
  | next (t : T)
  | idle
  | other
  | tick

variable [Fintype T] [Fintype U]

/-- A call ends a thread other than the one that makes it, only one call ends a thread at a time,
    and no other call is about it from the first critical section on. -/
inductive Step (cb : State.Callback T U I) : Move T → Endings T U I → Endings T U I → Prop where
  | check {e e' : Endings T U I} (call : EndCall) (t : T) : e.pc t = .outside →
      e.kernel.rtCurrentThread ≠ some t → (e.kernel.thread t).stat ≠ .close →
      e.check call t = .ok e' → Step cb (.check t) e e'
  /-- A thread that is to be removed has not ended since the check. -/
  | next {e e' : Endings T U I} (t : T) : e.kernel.rtCurrentThread ≠ some t →
      (e.pc t).Leaving ∨ ((e.kernel.thread t).type ≠ .null ∧ (e.kernel.thread t).stat ≠ .close) →
      e.next t = .ok e' → Step cb (.next t) e e'
  | idle {e e' : Endings T U I} : e.idleStep = .ok e' → Step cb .idle e e'
  | call {e : Endings T U I} {k : State T U I} (op : KernelOp T U I) :
      (∀ t ∈ e.leaving, op.target ≠ some t) → op.exec e.kernel = .ok k →
      Step cb .other e (e.withKernel k)
  /-- The running thread blocks on an IPC object. -/
  | wait {e : Endings T U I} {k : State T U I} (i : I) (t : T) (flag : IpcFlag) (time : Tick) :
      e.kernel.rtCurrentThread = some t → (e.kernel.thread t).stat = .ready →
      e.kernel.waitOn i t flag time = .ok k → Step cb .other e (e.withKernel k)
  | start {e : Endings T U I} {k : State T U I} : e.kernel.rtSystemSchedulerStart = .ok k →
      Step cb .other e (e.withKernel k)
  | tick {e : Endings T U I} {k : State T U I} (fuel : Nat) :
      State.TickNames cb e.leaving e.kernel →
      e.kernel.rtTickIncrease (State.timeoutFunc cb) fuel = .ok k →
      Step cb .tick e (e.withKernel k)

/-- Before any thread exists. -/
structure Initial (e : Endings T U I) : Prop where
  kernel : State.Initial e.kernel
  pc : ∀ t, e.pc t = .outside
  idle : e.idle = .loop
  stackFreed : ∀ t, e.stackFreed t = 0
  objectFreed : ∀ t, e.objectFreed t = 0

def Runs (cb : State.Callback T U I) : Endings T U I → Endings T U I → Prop :=
  Relation.ReflTransGen fun e e' => ∃ move, Step cb move e e'

/-- Runs in which no timer expires in the window before it is detached. -/
def SparingRuns (cb : State.Callback T U I) : Endings T U I → Endings T U I → Prop :=
  Relation.ReflTransGen fun e e' => ∃ move, Step cb move e e' ∧
    (move = .tick → State.TickSpares cb e.removed e.kernel)

/-! ## The invariant -/

/-- Of a thread that is there, at most the stack has been freed, by the idle thread that is about
    to free the object. -/
structure Counted (e : Endings T U I) : Prop where
  present : ∀ t, (e.kernel.thread t).type ≠ .null →
    e.stackFreed t = (if e.idle = .deleteObject t then 1 else 0) ∧ e.objectFreed t = 0
  once : ∀ t, e.stackFreed t ≤ 1 ∧ e.objectFreed t ≤ 1

/-- Where `t` is: a thread that has ended is in the defunct list, is on its way there, or has been
    taken by the idle thread. -/
structure Placed (e : Endings T U I) (σ : ListHead I → List T) (zs : List (T ⊕ U)) (t : T) :
    Prop where
  sound : t ∈ e.leaving → (e.kernel.thread t).Sound ∧ (e.kernel.thread t).type ≠ .null
  timer : t ∈ e.leaving → t ∉ e.removed →
    .inl t ∉ zs ∧ (e.kernel.timers.timer (.inl t)).type = .null
  closed : ∀ call, e.pc t = .closed call → (e.kernel.thread t).stat = .close
  pending : t ∉ e.leaving → e.kernel.Ended t → e.idle.taken ≠ some t → t ∈ σ .defunct
  taken : e.idle.taken = some t → t ∉ e.leaving ∧ e.kernel.Ended t ∧
    (e.kernel.thread t).type = .allocated ∧ Fresh σ t

structure Inv (e : Endings T U I) (σ : ListHead I → List T) (zs : List (T ⊕ U)) : Prop where
  wf : State.Wf 0 e.leaving e.kernel σ zs
  away : ∀ t ∈ e.leaving, e.kernel.rtCurrentThread ≠ some t
  placed : ∀ t, Placed e σ zs t
  counted : Counted e

variable {k : State T U I} {σ σ' : ListHead I → List T} {zs zs' : List (T ⊕ U)} {u : T} {pc : EndPc}
  {cb : State.Callback T U I}

section

omit [DecidableEq T] [DecidableEq U] [DecidableEq I] [Fintype T] [Fintype U]

@[simp] theorem withKernel_kernel (e : Endings T U I) : (e.withKernel k).kernel = k := rfl
@[simp] theorem withKernel_pc (e : Endings T U I) : (e.withKernel k).pc = e.pc := rfl
@[simp] theorem withKernel_idle (e : Endings T U I) : (e.withKernel k).idle = e.idle := rfl
@[simp] theorem withKernel_leaving (e : Endings T U I) : (e.withKernel k).leaving = e.leaving := rfl
@[simp] theorem withKernel_removed (e : Endings T U I) : (e.withKernel k).removed = e.removed := rfl

end

section

omit [DecidableEq U] [DecidableEq I] [Fintype T] [Fintype U]

@[simp] theorem goto_kernel (e : Endings T U I) : (e.goto t pc).kernel = e.kernel := rfl
@[simp] theorem goto_idle (e : Endings T U I) : (e.goto t pc).idle = e.idle := rfl

end

omit [DecidableEq T] [DecidableEq U] [DecidableEq I] [Fintype T] [Fintype U] in
theorem mem_leaving : t ∈ e.leaving ↔ (e.pc t).Leaving := Iff.rfl

section

omit [DecidableEq U] [DecidableEq I] [Fintype T] [Fintype U]

@[simp] theorem mem_leaving_goto_self : t ∈ (e.goto t pc).leaving ↔ pc.Leaving := by
  simp [leaving, goto]

theorem mem_leaving_goto_other (hu : u ≠ t) : u ∈ (e.goto t pc).leaving ↔ u ∈ e.leaving := by
  simp [leaving, goto, hu]

theorem leaving_goto (pc : EndPc) (hpc : pc.Leaving) : (e.goto t pc).leaving = insert t e.leaving := by
  ext u
  by_cases hu : u = t
  · subst hu
    simp [hpc]
  · simp [mem_leaving_goto_other hu, hu]

theorem leaving_goto_not (pc : EndPc) (hpc : ¬ pc.Leaving) (ht : t ∉ e.leaving) :
    (e.goto t pc).leaving = e.leaving := by
  ext u
  by_cases hu : u = t
  · subst hu
    simp [hpc, ht]
  · simp [mem_leaving_goto_other hu]

theorem insert_leaving_goto (pc : EndPc) (ht : t ∈ e.leaving) :
    insert t (e.goto t pc).leaving = e.leaving := by
  ext u
  by_cases hu : u = t
  · subst hu
    simp [ht]
  · simp [mem_leaving_goto_other hu, hu]

end

omit [DecidableEq T] [DecidableEq U] [DecidableEq I] [Fintype T] [Fintype U] in
@[simp] theorem withKernel_self (e : Endings T U I) : e.withKernel e.kernel = e := by
  simp [withKernel]

section

omit [DecidableEq U] [DecidableEq I] [Fintype T] [Fintype U]

theorem Counted.withKernel (h : Counted e)
    (hobject : ∀ t, e.idle = .deleteObject t → (e.kernel.thread t).type ≠ .null) :
    Counted (e.withKernel k) := by
  refine ⟨fun t htype => ?_, fun t => ?_⟩
  · by_cases hnull : (e.kernel.thread t).type = .null
    · have hidle : e.idle ≠ .deleteObject t := fun hidle => hobject t hidle hnull
      simp [Endings.withKernel, hnull, hidle, show (k.thread t).type ≠ .null from htype]
    · obtain ⟨hstack, hobj⟩ := h.present t hnull
      rw [withKernel_idle, ← hstack, ← hobj]
      simp [Endings.withKernel, hnull]
  · have honce := h.once t
    simp only [Endings.withKernel]
    split <;> omega

theorem Inv.counted_withKernel (h : Inv e σ zs) : Counted (e.withKernel k) :=
  h.counted.withKernel fun t hidle => ((h.placed t).taken (by simp [hidle, IdlePc.taken])).2.1.2

/-! ## What goes on beside the calls -/

theorem Inv.goes (h : Inv e σ zs) (hgoes : State.Goes e.leaving e.kernel σ zs 0 k σ' zs') :
    Inv (e.withKernel k) σ' zs' := by
  refine ⟨hgoes.wf, fun t ht => hgoes.away t ht (h.away t ht), fun t => ?_, h.counted_withKernel⟩
  have hplaced := h.placed t
  by_cases ht : t ∈ e.leaving
  · obtain ⟨n, hn⟩ := hgoes.slice t ht
    constructor
    · intro _
      obtain ⟨hsound, htype⟩ := hplaced.sound ht
      rw [withKernel_kernel, hn]
      exact ⟨⟨hsound.null, hsound.initPriority, hsound.currentPriority, hsound.mask, hsound.masked⟩,
        htype⟩
    · intro _ hremoved
      obtain ⟨hlinked, htype⟩ := hplaced.timer ht hremoved
      rw [withKernel_kernel, hgoes.timer t ht, hgoes.linked t ht]
      exact ⟨hlinked, htype⟩
    · intro call hpc
      rw [withKernel_kernel, hn]
      exact hplaced.closed call hpc
    · exact fun hnot => absurd ht hnot
    · exact fun hidle => absurd ht (hplaced.taken hidle).1
  · constructor
    · exact fun hin => absurd hin ht
    · exact fun hin => absurd hin ht
    · intro call hpc
      rw [withKernel_pc] at hpc
      exact absurd (by simp [mem_leaving, hpc, EndPc.Leaving]) ht
    · intro _ hended hidle
      by_cases hbefore : e.kernel.Ended t
      · exact ((hgoes.stays t ht hbefore).2.2 .defunct).mpr (hplaced.pending ht hbefore hidle)
      · exact hgoes.ends t ht hbefore hended
    · intro hidle
      obtain ⟨-, hended, htype, hfresh⟩ := hplaced.taken hidle
      obtain ⟨hended', hsame, hlists⟩ := hgoes.stays t ht hended
      exact ⟨ht, hended', hsame.trans htype, fun head hm => hfresh head ((hlists head).mp hm)⟩

end

/-- A call that is about none of the threads that leave. -/
theorem Inv.call (h : Inv e σ zs) {op : KernelOp T U I}
    (hop : ∀ t ∈ e.leaving, op.target ≠ some t) (hexec : op.exec e.kernel = .ok k) :
    ∃ σ' zs', Inv (e.withKernel k) σ' zs' := by
  obtain ⟨σ', zs', hgoes⟩ := h.wf.goes_exec (fun t ht => KernelOp.subject_ne h.wf.holds
    (fun i => h.wf.outside t ht (.suspend i)) (hop t ht) fun _ => h.away t ht) hexec
  exact ⟨σ', zs', h.goes hgoes⟩

theorem Inv.wait (h : Inv e σ zs) {i : I} {flag : IpcFlag} {time : Tick}
    (hcur : e.kernel.rtCurrentThread = some t) (hstat : (e.kernel.thread t).stat = .ready)
    (hwait : e.kernel.waitOn i t flag time = .ok k) :
    ∃ σ' zs', Inv (e.withKernel k) σ' zs' := by
  obtain ⟨σ', zs', hgoes⟩ := h.wf.goes_wait (fun ht => h.away t ht hcur) hstat hwait
  exact ⟨σ', zs', h.goes hgoes⟩

/-- A timer that is linked and whose thread leaves has not been detached yet. -/
theorem Inv.tick (h : Inv e σ zs) (hspares : State.TickSpares cb e.removed e.kernel)
    (hnames : State.TickNames cb e.leaving e.kernel) {fuel : Nat}
    (htick : e.kernel.rtTickIncrease (State.timeoutFunc cb) fuel = .ok k) :
    ∃ σ' zs', Inv (e.withKernel k) σ' zs' := by
  have hspares' : State.TickSpares cb {t ∈ e.leaving | .inl t ∈ zs} e.kernel := by
    rintro k₁ t hin hnext hdue ⟨ht, hlinked⟩
    by_contra
    exact ((h.placed t).timer ht (hspares k₁ t hin hnext hdue)).1 hlinked
  obtain ⟨σ', zs', hgoes⟩ := h.wf.goes_tick h.away hspares' hnames htick
  exact ⟨σ', zs', h.goes hgoes⟩

/-! ## The calls that end threads -/

omit [DecidableEq T] [DecidableEq U] [DecidableEq I] [Fintype T] [Fintype U] in
theorem Placed.untouched (h : Placed e σ zs u)
    (huntouched : State.Untouched u e.kernel σ zs e'.kernel σ' zs') (hpc : e'.pc u = e.pc u)
    (hidle : e'.idle.taken = some u ↔ e.idle.taken = some u) : Placed e' σ' zs' u := by
  obtain ⟨n, hn⟩ := huntouched.thread
  have hleaving : u ∈ e'.leaving ↔ u ∈ e.leaving := by simp only [mem_leaving, hpc]
  have hremoved : u ∈ e'.removed ↔ u ∈ e.removed := by simp [removed, hpc]
  have hended : e'.kernel.Ended u ↔ e.kernel.Ended u := by rw [State.Ended, State.Ended, hn]
  constructor
  · intro ht
    obtain ⟨hsound, htype⟩ := h.sound (hleaving.mp ht)
    rw [hn]
    exact ⟨⟨hsound.null, hsound.initPriority, hsound.currentPriority, hsound.mask, hsound.masked⟩,
      htype⟩
  · rw [hleaving, hremoved, huntouched.linked, huntouched.timer]
    exact h.timer
  · rw [hpc, hn]
    exact h.closed
  · rw [hleaving, hended, ne_eq, hidle, huntouched.lists]
    exact h.pending
  · rw [hidle, hleaving, hended, hn]
    intro htaken
    obtain ⟨ht, hclosed, htype, hfresh⟩ := h.taken htaken
    exact ⟨ht, hclosed, htype, fun head hm => hfresh head ((huntouched.lists head).mp hm)⟩

section

omit [DecidableEq U] [DecidableEq I] [Fintype T] [Fintype U]

/-- A step of the call that ends `t`, which is left to the places of `t` itself. -/
theorem Inv.ending (h : Inv e σ zs) (hrun : e.kernel.rtCurrentThread ≠ some t)
    (hwf : State.Wf 0 (e.goto t pc).leaving k σ' zs')
    (htouch : State.Touches t e.kernel σ zs k σ' zs')
    (hcur : k.rtCurrentThread = e.kernel.rtCurrentThread)
    (hplaced : Placed ((e.goto t pc).withKernel k) σ' zs' t) :
    Inv ((e.goto t pc).withKernel k) σ' zs' := by
  have hcounted : Counted (e.goto t pc) := ⟨h.counted.present, h.counted.once⟩
  refine ⟨hwf, fun u hu => ?_, fun u => ?_, hcounted.withKernel fun u hidle => ?_⟩
  · rw [withKernel_kernel, hcur]
    by_cases hut : u = t
    · exact hut ▸ hrun
    · exact h.away u ((mem_leaving_goto_other hut).mp hu)
  · by_cases hut : u = t
    · exact hut ▸ hplaced
    · exact (h.placed u).untouched (htouch.untouched hut) (by simp [goto, hut]) Iff.rfl
  · exact ((h.placed u).taken (by simp [show e.idle = _ from hidle, IdlePc.taken])).2.1.2

/-- The places of a thread that is on its way, and that the idle thread has not taken. -/
theorem Placed.leaving (hpc : pc.Leaving)
    (hsound : (k.thread t).Sound ∧ (k.thread t).type ≠ .null)
    (htimer : (∀ call, pc ≠ .removed call) →
      .inl t ∉ zs ∧ (k.timers.timer (.inl t)).type = .null)
    (hclosed : ∀ call, pc = .closed call → (k.thread t).stat = .close)
    (hidle : e.idle.taken ≠ some t) : Placed ((e.goto t pc).withKernel k) σ zs t where
  sound _ := hsound
  timer _ hremoved := htimer fun call heq => hremoved ⟨call, by simp [goto, heq]⟩
  closed call heq := hclosed call (by simpa [goto] using heq)
  pending hnot := absurd (mem_leaving_goto_self.mpr hpc) hnot
  taken htaken := absurd htaken hidle

/-- The places of a thread that is not on its way, or has been handed over. -/
theorem Placed.settled (hpc : ¬ pc.Leaving) (hended : k.Ended t → t ∈ σ .defunct)
    (hidle : e.idle.taken ≠ some t) : Placed ((e.goto t pc).withKernel k) σ zs t where
  sound ht := absurd (mem_leaving_goto_self.mp ht) hpc
  timer ht := absurd (mem_leaving_goto_self.mp ht) hpc
  closed call heq := by
    have hclosed : pc = .closed call := by simpa [goto] using heq
    exact absurd (hclosed ▸ trivial) hpc
  pending _ hclosed _ := hended hclosed
  taken htaken := absurd htaken hidle

/-- The idle thread has not taken a thread that a call is about to end. -/
theorem Inv.not_taken (h : Inv e σ zs)
    (ht : t ∈ e.leaving ∨ (e.kernel.thread t).stat ≠ .close) : e.idle.taken ≠ some t := by
  intro htaken
  obtain ⟨hnot, hended, -⟩ := (h.placed t).taken htaken
  cases ht with
  | inl hin => exact hnot hin
  | inr hstat => exact hstat hended.1

theorem Inv.check (h : Inv e σ zs) {call : EndCall} (hpc : e.pc t = .outside)
    (hrun : e.kernel.rtCurrentThread ≠ some t) (hstat : (e.kernel.thread t).stat ≠ .close)
    (hcheck : e.check call t = .ok e') : Inv e' σ zs := by
  have ht : t ∉ e.leaving := by simp [mem_leaving, hpc, EndPc.Leaving]
  have hidle := h.not_taken (.inr hstat)
  simp only [Endings.check, exec_bind_ok, exec_pure_ok, rtAssert_eq_ok] at hcheck
  obtain ⟨_, htype, _, -, rfl⟩ := hcheck
  rw [← withKernel_self (e.goto t _), goto_kernel]
  split
  · have hwf := h.wf
    rw [← leaving_goto_not (.checked call) (by simp [EndPc.Leaving]) ht] at hwf
    exact h.ending hrun hwf (.refl t _ _ _) rfl (.settled (by simp [EndPc.Leaving])
      (fun hended => absurd hended.1 hstat) hidle)
  case isFalse hinit =>
    -- a thread that has not been started is in no list
    have hwf := h.wf.takeOut (h.wf.fresh_of_init (not_not.mp hinit))
    rw [← leaving_goto (.removed call) trivial] at hwf
    exact h.ending hrun hwf (.refl t _ _ _) rfl (.leaving trivial ⟨h.wf.sound t ht, htype⟩
      (fun hnot => absurd rfl (hnot call)) (by simp) hidle)

end

omit [Fintype T] [Fintype U] in
/-- The first critical section takes the thread out of its list. -/
theorem Inv.remove (h : Inv e σ zs) {call : EndCall} (hpc : e.pc t = .checked call)
    (hrun : e.kernel.rtCurrentThread ≠ some t) (htype : (e.kernel.thread t).type ≠ .null)
    (hstat : (e.kernel.thread t).stat ≠ .close) (hnext : e.next t = .ok e') :
    Inv e' (erase σ t) zs := by
  have ht : t ∉ e.leaving := by simp [mem_leaving, hpc, EndPc.Leaving]
  simp only [Endings.next, hpc, exec_bind_ok, exec_pure_ok] at hnext
  obtain ⟨k, hremove, rfl⟩ := hnext
  obtain ⟨-, rfl⟩ := State.rtScheduleRemoveThread_eq hremove
  have hwf := h.wf.removeThread ht
  rw [← leaving_goto (.removed call) trivial] at hwf
  exact h.ending hrun hwf (.ofThread (fun _ _ => rfl) (h.wf.holds.erase_erase t) rfl rfl) rfl
    (.leaving trivial ⟨h.wf.sound t ht, htype⟩ (fun hnot => absurd rfl (hnot call)) (by simp)
      (h.not_taken (.inr hstat)))

/-- The second one takes its timer out of the timer list. -/
theorem Inv.detach (h : Inv e σ zs) {call : EndCall} (hpc : e.pc t = .removed call)
    (hrun : e.kernel.rtCurrentThread ≠ some t) (hnext : e.next t = .ok e') :
    ∃ zs', Inv e' σ zs' := by
  have ht : t ∈ e.leaving := by simp [mem_leaving, hpc, EndPc.Leaving]
  simp only [Endings.next, hpc, exec_bind_ok, exec_pure_ok] at hnext
  obtain ⟨k, hdetach, rfl⟩ := hnext
  obtain ⟨s, hexec, rfl⟩ := State.liftTimers_eq_ok.mp hdetach
  have hout := h.wf
  rw [← insert_leaving_goto .outside ht] at hout
  have hexec' : (TimerOp.detach (.inl t)).exec e.kernel.timers = .ok s := hexec
  obtain ⟨zs', hwf, heff, hgone, htick⟩ := hout.detachTimer hexec'
  rw [insert_leaving_goto _ ht, ← Set.insert_eq_of_mem ht,
    ← leaving_goto (.detached call) trivial] at hwf
  exact ⟨zs', h.ending hrun hwf (.timerOp heff rfl htick) rfl
    (.leaving trivial ((h.placed t).sound ht) (fun _ => ⟨hgone, heff.own.2.2.1⟩) (by simp)
      (h.not_taken (.inl ht)))⟩

section

omit [Fintype T] [Fintype U]

theorem Inv.close (h : Inv e σ zs) {call : EndCall} (hpc : e.pc t = .detached call)
    (hrun : e.kernel.rtCurrentThread ≠ some t) (hnext : e.next t = .ok e') : Inv e' σ zs := by
  have ht : t ∈ e.leaving := by simp [mem_leaving, hpc, EndPc.Leaving]
  simp only [Endings.next, hpc, exec_pure_ok] at hnext
  subst hnext
  have hout := h.wf
  rw [← insert_leaving_goto .outside ht] at hout
  have hwf := hout.change fun th => { th with stat := .close }
  rw [insert_leaving_goto _ ht, ← Set.insert_eq_of_mem ht,
    ← leaving_goto (.closed call) trivial] at hwf
  obtain ⟨hsound, htype⟩ := (h.placed t).sound ht
  have hplaced : Placed ((e.goto t (.closed call)).withKernel (e.kernel.setStat t .close))
      σ zs t := by
    refine .leaving trivial ⟨?_, by simpa using htype⟩ (fun _ => ?_) (by simp)
      (h.not_taken (.inl ht))
    · simpa using hsound.restat .close (.inr (.inr rfl)) (by simp)
    · exact (h.placed t).timer ht fun hremoved => by simp [removed, hpc] at hremoved
  exact h.ending hrun hwf (.ofThread (fun u hu => by simp [hu]) rfl rfl rfl) rfl hplaced

/-- The last one hands the thread over. -/
theorem Inv.handOver (h : Inv e σ zs) {call : EndCall} (hpc : e.pc t = .closed call)
    (hrun : e.kernel.rtCurrentThread ≠ some t) (hnext : e.next t = .ok e') :
      ∃ σ' zs', Inv e' σ' zs' := by
  have ht : t ∈ e.leaving := by simp [mem_leaving, hpc, EndPc.Leaving]
  have houtside : t ∉ (e.goto t .outside).leaving := by simp [EndPc.Leaving]
  have hidle := h.not_taken (.inl ht)
  have hfresh := h.wf.outside t ht
  have hclose := (h.placed t).closed call hpc
  obtain ⟨hsound, htype⟩ := (h.placed t).sound ht
  obtain ⟨hunlinked, htimer⟩ := (h.placed t).timer ht fun hin => by simp [removed, hpc] at hin
  have hout := h.wf
  rw [← insert_leaving_goto .outside ht] at hout
  have hwf : State.Wf 0 (e.goto t .outside).leaving e.kernel σ zs :=
    hout.settle hsound (by simp [hclose]) (by simp [htimer, hclose])
      (fun hm => absurd hm hunlinked)
  cases call with
  | detach =>
    simp only [Endings.next, hpc, exec_pure_ok] at hnext
    subst hnext
    obtain ⟨σ', zs', hwf', htouch, -⟩ := hwf.detachOrDefunct houtside hfresh hclose htype
    exact ⟨σ', zs', h.ending hrun hwf' htouch State.detachOrDefunct_sameRun.1
      (.settled id (State.ended_detachOrDefunct hwf'.holds) hidle)⟩
  | delete =>
    simp only [Endings.next, hpc, exec_pure_ok] at hnext
    subst hnext
    obtain ⟨hwf', htouch⟩ := hwf.insertDefunct houtside hfresh hclose htype
    exact ⟨_, zs, h.ending hrun hwf' htouch rfl
      (.settled id (fun _ => State.mem_defunct hwf'.holds rfl) hidle)⟩

end

end Endings

end PandoraRobot.Kernel
