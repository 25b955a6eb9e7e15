import PandoraRobot.Kernel.Objects
import PandoraRobot.Lib.Trace

/-! # Pipes and work queues

`rt_pipe_create` and `rt_pipe_delete` of `pipe.c`, `rt_workqueue_create` and `rt_workqueue_destroy`
of `workqueue.c`: what they do to the object containers and to the memory.

A pipe and a work queue link objects in their own memory into the containers.  Some ways out free
the memory without taking these objects out again.
-/

namespace PandoraRobot.Kernel

open PandoraRobot.Trace

namespace Objects

variable (s : Objects)

/-- The bound that `rt_pipe_create` asserts of its buffer size. -/
def pipeBufszMax : Int := 0xFFFF

/-- `rt_pipe_create`. -/
def rtPipeCreate (name : ObjectName) (bufsz : Int) (heap : Allocator) :
    Exec (Objects × Option Nat) :=
  match heap.alloc s.block with
  | none => pure (s, none)
  | some pipe => do
    let s ← (s.rtStore pipe .pipe).rtMutexInit ⟨pipe, .lock⟩ name
    rtAssert (bufsz < pipeBufszMax)
    let (s, registered) ← s.rtDeviceRegister ⟨pipe, .parent⟩ name
    if registered = true then pure (s, some pipe) else pure (s.rtFree pipe, none)

/-- `rt_pipe_delete`, of a pipe that has no ring buffer: the result is whether it succeeds. -/
def rtPipeDelete (name : ObjectName) : Exec (Objects × Bool) :=
  match s.rtDeviceFind name with
  | none => pure (s, false)
  | some device =>
    if s.block device.block ≠ some .pipe then pure (s, false)
    else if s.refCount device ≠ 0 then pure (s, false)
    else do
      let s ← s.rtMutexDetach ⟨device.block, .lock⟩
      let s ← s.rtDeviceUnregister device
      pure (s.rtFree device.block, true)

/-- The name that `rt_workqueue_create` gives to the semaphore. -/
def wqueueName : ObjectName := "wqueue".toList.map fun c => BitVec.ofNat 8 c.toNat

/-- `rt_workqueue_create`. -/
def rtWorkqueueCreate (name : ObjectName) (heap : Allocator) : Exec (Objects × Option Nat) :=
  match heap.alloc s.block with
  | none => pure (s, none)
  | some queue => do
    let s ← (s.rtStore queue (.workqueue 0)).rtSemInit ⟨queue, .sem⟩ wqueueName
    let (s, workThread) ← s.rtThreadCreate name heap
    match workThread with
    | none => pure (s.rtFree queue, none)
    | some workThread => pure (s.rtStore queue (.workqueue workThread), some queue)

/-- `rt_workqueue_destroy`. -/
def rtWorkqueueDestroy (queue : Nat) : Exec Objects :=
  match s.block queue with
  | some (.workqueue workThread) => do
    let s ← s.rtThreadDelete workThread
    pure (s.rtFree queue)
  | _ => .error .useAfterFree

/-! ## What the functions do -/

variable {s} {s' : Objects} {name : ObjectName} {bufsz : Int} {heap : Allocator}
variable {pipe queue workThread : Nat}

/-- A pipe that has its lock in the containers. -/
def pipeLocked (s : Objects) (pipe : Nat) (name : ObjectName) : Objects :=
  (s.rtStore pipe .pipe).insert ⟨pipe, .lock⟩ .mutex true name

theorem rtDeviceFind_pipeLocked (h : s.Inv) (hpipe : s.block pipe = none) (name' : ObjectName) :
    (s.pipeLocked pipe name).rtDeviceFind name' = none ↔ s.rtDeviceFind name' = none := by
  have hname : ∀ node ∈ s.container .device,
      (s.pipeLocked pipe name).object node = s.object node := by
    intro node hmem
    refine insert_object_ne ?_
    rintro rfl
    exact h.fresh hpipe .lock .device hmem
  have hcontainer : (s.pipeLocked pipe name).container .device = s.container .device := by
    simp [pipeLocked, insert, rtStore]
  simp only [rtDeviceFind, hcontainer, List.find?_eq_none]
  constructor
  · intro hnone node hmem
    have := hnone node hmem
    rwa [hname node hmem] at this
  · intro hnone node hmem
    rw [hname node hmem]
    exact hnone node hmem

theorem rtPipeCreate_eq (h : s.Inv) (halloc : heap.alloc s.block = some pipe)
    (hbufsz : bufsz < pipeBufszMax) : s.rtPipeCreate name bufsz heap =
      (s.pipeLocked pipe name).rtDeviceRegister ⟨pipe, .parent⟩ name >>= fun (s, registered) =>
        if registered = true then pure (s, some pipe) else pure (s.rtFree pipe, none) := by
  have hlock : (s.rtStore pipe .pipe).rtMutexInit ⟨pipe, .lock⟩ name =
      .ok (s.pipeLocked pipe name) :=
    rtObjectInit_ok (h.fresh (heap.free _ _ halloc) .lock .mutex)
  simp only [rtPipeCreate, halloc, hlock, rtAssert, if_pos hbufsz]
  rfl

/-- The name is taken: the memory is freed, and the lock stays in its container. -/
theorem rtPipeCreate_taken (h : s.Inv) (halloc : heap.alloc s.block = some pipe)
    (hbufsz : bufsz < pipeBufszMax) (hfind : s.rtDeviceFind name ≠ none) :
    s.rtPipeCreate name bufsz heap = .ok ((s.pipeLocked pipe name).rtFree pipe, none) := by
  have hpipe := heap.free _ _ halloc
  obtain ⟨device, hdevice⟩ := Option.ne_none_iff_exists'.mp
    (fun hnone => hfind ((rtDeviceFind_pipeLocked h hpipe name).mp hnone))
  rw [rtPipeCreate_eq h halloc hbufsz, rtDeviceRegister, hdevice]
  rfl

/-- A node in memory that has been freed. -/
theorem not_nodesLive {node : ObjectNode} {type : ObjectClass} (hmem : node ∈ s.container type)
    (hfree : s.block node.block = none) : ¬ s.NodesLive :=
  fun hlive => hlive type node hmem hfree

theorem rtPipeCreate_ok (h : s.Inv) (halloc : heap.alloc s.block = some pipe)
    (hbufsz : bufsz < pipeBufszMax) (hfind : s.rtDeviceFind name = none) :
    ∃ s', s.rtPipeCreate name bufsz heap = .ok (s', some pipe) ∧ s'.Inv := by
  have hpipe := heap.free _ _ halloc
  have hnew : (⟨pipe, .parent⟩ : ObjectNode) ∉ (s.pipeLocked pipe name).container .device := by
    intro hmem
    obtain ⟨hnode, -⟩ | hold := mem_insert.mp hmem
    · cases hnode
    · exact h.fresh hpipe .parent .device hold
  let s₁ := (s.pipeLocked pipe name).insert ⟨pipe, .parent⟩ .device true name
  have hmem : ∀ part type, ⟨pipe, part⟩ ∈ s₁.container type →
      (part, type) ∈ [(Part.lock, ObjectClass.mutex), (.parent, .device)] := by
    intro part type hmem
    obtain ⟨hnode, rfl⟩ | hmem := mem_insert.mp hmem
    · cases hnode
      exact List.mem_cons_of_mem _ (List.mem_singleton_self _)
    · obtain ⟨hnode, rfl⟩ | hold := mem_insert.mp hmem
      · cases hnode
        exact List.mem_cons_self
      · exact absurd hold (h.fresh hpipe part type)
  refine ⟨{ s₁ with refCount := Function.update s₁.refCount ⟨pipe, .parent⟩ 0 }, ?_,
    h.change (· = pipe) (fun b hb => ?_) ?_ ?_ h.defunct⟩
  · rw [rtPipeCreate_eq h halloc hbufsz, rtDeviceRegister,
      (rtDeviceFind_pipeLocked h hpipe name).mpr hfind, rtObjectInit_ok hnew]
    rfl
  · have hsame : Same s s₁ b := ((same_rtStore hb).trans (same_insert hb)).trans (same_insert hb)
    exact ⟨hsame.block, hsame.mem, hsame.type, hsame.defunct⟩
  · rintro b owner rfl hheld
    rw [hpipe] at hheld
    cases hheld
  · rintro b rfl
    have hheld : s₁.block b = some .pipe := Function.update_self ..
    have hne : (⟨b, .lock⟩ : ObjectNode) ≠ ⟨b, .parent⟩ := by simp
    simp only [hheld]
    exact ⟨hmem, (insert_type_ne hne).trans insert_type, insert_type, h.fresh_defunct hpipe⟩

variable (name) in
theorem rtPipeDelete_ok (h : s.Inv) :
    ∃ s' deleted, s.rtPipeDelete name = .ok (s', deleted) ∧ s'.Inv := by
  unfold rtPipeDelete
  cases hfind : s.rtDeviceFind name with
  | none => exact ⟨s, false, rfl, h⟩
  | some device =>
    simp only
    by_cases hblock : s.block device.block ≠ some .pipe
    · exact ⟨s, false, by rw [if_pos hblock]; rfl, h⟩
    rw [if_neg hblock]
    rw [not_not] at hblock
    by_cases hopen : s.refCount device ≠ 0
    · exact ⟨s, false, by rw [if_pos hopen]; rfl, h⟩
    rw [if_neg hopen]
    have hpipe := h.block device.block
    rw [hblock] at hpipe
    obtain ⟨honly, hlock, hparent, hdefunct⟩ := hpipe
    have hmem : device ∈ s.container .device := List.mem_of_find?_eq_some hfind
    obtain ⟨pipe, part⟩ := device
    have hpart := honly part .device hmem
    simp only [List.mem_cons, Prod.mk.injEq, reduceCtorEq, and_false, List.not_mem_nil, or_false,
      false_or, and_true] at hpart
    subst hpart
    -- the mutex is detached first, and the device then
    have hdevice : ((s.rtObjectDetach ⟨pipe, .lock⟩).object ⟨pipe, .parent⟩).type =
        some (.device, true) := (rtObjectDetach_type_ne (by simp)).trans hparent
    refine ⟨((s.rtObjectDetach ⟨pipe, .lock⟩).rtObjectDetach ⟨pipe, .parent⟩).rtFree pipe, true, ?_,
      h.change (· = pipe) (fun b hb => ?_) ?_ ?_ h.defunct⟩
    · simp only [rtMutexDetach, rtDeviceUnregister, assertType, rtAssert, if_pos hlock,
        bind, Except.bind, pure, Except.pure, if_pos hdevice]
    · exact ((same_rtObjectDetach hb).trans (same_rtObjectDetach hb)).trans (same_rtFree hb)
    · rintro b owner rfl hheld
      rw [hblock] at hheld
      cases hheld
    · rintro b rfl
      have hfreed : (((s.rtObjectDetach ⟨b, .lock⟩).rtObjectDetach ⟨b, .parent⟩).rtFree b).block b =
          none := Function.update_self ..
      rw [hfreed]
      -- no node of the freed block is left in a container
      refine ⟨fun part type hmem => ?_, hdefunct⟩
      obtain ⟨hmem, hnotParent⟩ := mem_rtObjectDetach.mp hmem
      obtain ⟨hmem, hnotLock⟩ := mem_rtObjectDetach.mp hmem
      have hpart := honly part type hmem
      simp only [List.mem_cons, Prod.mk.injEq, List.not_mem_nil, or_false] at hpart
      obtain ⟨rfl, -⟩ | ⟨rfl, -⟩ := hpart
      · exact absurd rfl hnotLock
      · exact absurd rfl hnotParent

/-- A work queue that has its semaphore in the containers, and no thread yet. -/
def queueReady (s : Objects) (queue : Nat) : Objects :=
  (s.rtStore queue (.workqueue 0)).insert ⟨queue, .sem⟩ .semaphore true wqueueName

theorem Inv.queueReady (h : s.Inv) (hqueue : s.block queue = none) : (s.queueReady queue).Inv := by
  refine h.change (· = queue) (fun b hb => (same_rtStore hb).trans (same_insert hb)) ?_ ?_ h.defunct
  · rintro b owner rfl hheld
    rw [hqueue] at hheld
    cases hheld
  · rintro b rfl
    have hheld : (s.queueReady b).block b = some (.workqueue 0) := Function.update_self ..
    rw [hheld]
    refine ⟨fun part type hmem => ?_, mem_insert.mpr (.inl ⟨rfl, rfl⟩), h.fresh_defunct hqueue⟩
    obtain ⟨hnode, rfl⟩ | hold := mem_insert.mp hmem
    · cases hnode
      exact List.mem_singleton_self _
    · exact absurd hold (h.fresh hqueue part type)

/-- A work queue gets its thread. -/
theorem Inv.withThread (h : s.Inv) (hqueue : s.block queue = some (.workqueue 0))
    (workThread : Nat) : (s.rtStore queue (.workqueue workThread)).Inv := by
  have hready := h.block queue
  rw [hqueue] at hready
  refine h.change (· = queue) (fun b hb => same_rtStore hb) ?_ ?_ h.defunct
  · rintro b owner rfl hheld
    rw [hqueue] at hheld
    cases hheld
  · rintro b rfl
    have hheld : (s.rtStore b (.workqueue workThread)).block b = some (.workqueue workThread) :=
      Function.update_self ..
    rw [hheld]
    exact hready

theorem rtWorkqueueCreate_eq (h : s.Inv) (halloc : heap.alloc s.block = some queue) :
    s.rtWorkqueueCreate name heap =
      (s.queueReady queue).rtThreadCreate name heap >>= fun (s, workThread) =>
        match workThread with
        | none => pure (s.rtFree queue, none)
        | some workThread => pure (s.rtStore queue (.workqueue workThread), some queue) := by
  have hsem : (s.rtStore queue (.workqueue 0)).rtSemInit ⟨queue, .sem⟩ wqueueName =
      .ok (s.queueReady queue) :=
    rtObjectInit_ok (h.fresh (heap.free _ _ halloc) .sem .semaphore)
  simp only [rtWorkqueueCreate, halloc, hsem]
  rfl

variable (name) in
theorem rtWorkqueueCreate_ok (h : s.Inv) (halloc : heap.alloc s.block = some queue)
    (hfits : ThreadFits heap (s.queueReady queue).block) :
    ∃ s', s.rtWorkqueueCreate name heap = .ok (s', some queue) ∧ s'.Inv := by
  have hready := h.queueReady (heap.free _ _ halloc)
  obtain ⟨s', workThread, hcreate, h', hsame⟩ := rtThreadCreate_fits name hready hfits
  have hheld : (s.queueReady queue).block queue = some (.workqueue 0) := Function.update_self ..
  have hqueue : s'.block queue = some (.workqueue 0) := by
    rw [(hsame queue (by simp [hheld])).block, hheld]
  refine ⟨s'.rtStore queue (.workqueue workThread), ?_, h'.withThread hqueue workThread⟩
  rw [rtWorkqueueCreate_eq h halloc, hcreate]
  rfl

variable (name) in
/-- There is no room for the thread: the memory is freed, and the semaphore stays in its
    container. -/
theorem rtWorkqueueCreate_dangles (h : s.Inv) (halloc : heap.alloc s.block = some queue)
    (hfits : ¬ ThreadFits heap (s.queueReady queue).block) :
    ∃ s', s.rtWorkqueueCreate name heap = .ok (s', none) ∧ ¬ s'.NodesLive := by
  have hready := h.queueReady (heap.free _ _ halloc)
  obtain ⟨s', hcreate, -, hcontainer, -⟩ := rtThreadCreate_fails name hready hfits
  have hmem : ⟨queue, .sem⟩ ∈ (s'.rtFree queue).container .semaphore := by
    have hkept : s'.container .semaphore = (s.queueReady queue).container .semaphore := by
      rw [hcontainer]
    exact hkept ▸ mem_insert.mpr (.inl ⟨rfl, rfl⟩)
  refine ⟨s'.rtFree queue, ?_, not_nodesLive hmem (Function.update_self ..)⟩
  rw [rtWorkqueueCreate_eq h halloc, hcreate]
  rfl

/-- `rt_workqueue_destroy` never takes the semaphore out of its container. -/
theorem rtWorkqueueDestroy_dangles (h : s.Inv)
    (hqueue : s.block queue = some (.workqueue workThread))
    (hdestroy : s.rtWorkqueueDestroy queue = .ok s') : ¬ s'.NodesLive := by
  have hsem := h.block queue
  rw [hqueue] at hsem
  simp only [rtWorkqueueDestroy, hqueue, rtThreadDelete, rtTimerDetach, assertType, exec_bind_ok,
    exec_pure_ok] at hdestroy
  obtain ⟨_, ⟨-, -, s₁, ⟨-, -, hdetach⟩, rfl⟩, rfl⟩ := hdestroy
  have hmem : ⟨queue, .sem⟩ ∈ s₁.container .semaphore := by
    rw [← hdetach]
    exact mem_rtObjectDetach.mpr ⟨hsem.2.1, by simp⟩
  exact not_nodesLive hmem (Function.update_self ..)

end Objects

/-! ## Calls -/

/-- A call that creates or destroys, with the allocator that it finds. -/
inductive ObjectCall where
  | pipeCreate (name : ObjectName) (bufsz : Int) (heap : Allocator)
  | pipeDelete (name : ObjectName)
  | workqueueCreate (name : ObjectName) (heap : Allocator)
  | workqueueDestroy (queue : Nat)
  /-- `rt_sem_create`, `rt_mutex_create` and `rt_timer_create` -/
  | create (type : ObjectClass) (name : ObjectName) (heap : Allocator)
  | delete (type : ObjectClass) (a : Nat)
  | threadCreate (name : ObjectName) (heap : Allocator)
  | threadDelete (thread : Nat)
  /-- a pass of the idle thread -/
  | idle
  /-- a device has been opened or closed -/
  | deviceUse (device : ObjectNode) (refCount : BitVec 8)

namespace ObjectCall

/-- A call that creates something, and what it returns otherwise. -/
def step : ObjectCall → Objects → Except Stuck (Objects × Option Nat)
  | .pipeCreate name bufsz heap, s => s.rtPipeCreate name bufsz heap
  | .pipeDelete name, s => (s.rtPipeDelete name).map fun (s, _) => (s, none)
  | .workqueueCreate name heap, s => s.rtWorkqueueCreate name heap
  | .workqueueDestroy queue, s => (s.rtWorkqueueDestroy queue).map fun s => (s, none)
  | .create type name heap, s => .ok (s.rtObjectAllocate type name heap)
  | .delete type a, s => (s.rtDelete type a).map fun s => (s, none)
  | .threadCreate name heap, s => s.rtThreadCreate name heap
  | .threadDelete thread, s => (s.rtThreadDelete thread).map fun s => (s, none)
  | .idle, s => s.rtThreadIdleExcute.map fun s => (s, none)
  | .deviceUse device refCount, s =>
    .ok ({ s with refCount := Function.update s.refCount device refCount }, none)

/-- The call is one that creates. -/
def Creates : ObjectCall → Prop
  | .pipeCreate .. => True
  | .workqueueCreate .. => True
  | .create .. => True
  | .threadCreate .. => True
  | _ => False

/-- What the caller owes: a buffer size as it is asserted, and for a deletion something that it has
    created and not deleted. -/
def Allowed : ObjectCall → Objects → Prop
  | .pipeCreate _ bufsz _, _ => bufsz < Objects.pipeBufszMax
  | .workqueueDestroy queue, s => ∃ workThread, s.block queue = some (.workqueue workThread)
  | .create type .., _ => type = .semaphore ∨ type = .mutex ∨ type = .timer
  | .delete type a, s => s.block a = some (.object type)
  | .threadDelete thread, s =>
    (∃ stackAddr, s.block thread = some (.thread stackAddr)) ∧ thread ∉ s.defunct
  | _, _ => True

/-- What should hold after a call: the nodes are in live memory, and a failure to create has left
    the containers alone. -/
def Right (call : ObjectCall) (s : Objects) : Prop :=
  ∃ s' created, step call s = .ok (s', created) ∧ s'.NodesLive ∧
    (call.Creates → created = none → s'.container = s.container)

/-- The call does not free memory that has a node in it: no pipe is created under the name of a
    device, a work queue that gets its memory gets its thread as well, and none is destroyed. -/
def Meets : ObjectCall → Objects → Prop
  | .pipeCreate name _ heap, s => heap.alloc s.block ≠ none → s.rtDeviceFind name = none
  | .workqueueCreate _ heap, s => ∀ queue, heap.alloc s.block = some queue →
    Objects.ThreadFits heap (Function.update s.block queue (some (.workqueue 0)))
  | .workqueueDestroy _, _ => False
  | _, _ => True

variable {call : ObjectCall} {s s' : Objects} {created : Option Nat}

/-- The use of a device changes no container and no memory. -/
theorem inv_deviceUse (h : s.Inv) (device : ObjectNode) (refCount : BitVec 8) :
    Objects.Inv { s with refCount := Function.update s.refCount device refCount } :=
  h.change (fun _ => False) (fun _ _ => ⟨rfl, fun _ _ => Iff.rfl, fun _ => rfl, Iff.rfl⟩)
    (fun _ _ hfalse => hfalse.elim) (fun _ hfalse => hfalse.elim) h.defunct

/-- A call that frees no memory with a node in it keeps the invariant, and fails without a
    trace. -/
theorem Meets.step_ok (hmeets : Meets call s) (h : s.Inv) (hallowed : Allowed call s) :
    ∃ s' created, step call s = .ok (s', created) ∧ s'.Inv ∧
      (call.Creates → created = none → s'.container = s.container) := by
  -- a call that cannot allocate changes nothing, and the others keep the invariant by their own
  -- lemmas
  cases call with
  | pipeCreate name bufsz heap =>
    cases halloc : heap.alloc s.block with
    | none => exact ⟨s, none, by simp only [step, Objects.rtPipeCreate, halloc]; rfl, h,
        fun _ _ => rfl⟩
    | some pipe =>
      obtain ⟨s', hcreate, h'⟩ := Objects.rtPipeCreate_ok h halloc hallowed
        (hmeets (by simp [halloc]))
      exact ⟨s', some pipe, hcreate, h', fun _ hnone => nomatch hnone⟩
  | pipeDelete name =>
    obtain ⟨s', deleted, hdelete, h'⟩ := Objects.rtPipeDelete_ok name h
    exact ⟨s', none, by simp only [step, hdelete]; rfl, h', False.elim⟩
  | workqueueCreate name heap =>
    cases halloc : heap.alloc s.block with
    | none => exact ⟨s, none, by simp only [step, Objects.rtWorkqueueCreate, halloc]; rfl, h,
        fun _ _ => rfl⟩
    | some queue =>
      obtain ⟨s', hcreate, h'⟩ := Objects.rtWorkqueueCreate_ok name h halloc
        (hmeets queue halloc)
      exact ⟨s', some queue, hcreate, h', fun _ hnone => nomatch hnone⟩
  | workqueueDestroy queue => exact hmeets.elim
  | create type name heap =>
    cases halloc : heap.alloc s.block with
    | none => exact ⟨s, none, by simp only [step, Objects.rtObjectAllocate, halloc], h,
        fun _ _ => rfl⟩
    | some a =>
      exact ⟨_, some a, by simp only [step, Objects.rtObjectAllocate, halloc],
        h.allocated (heap.free _ _ halloc) type name, fun _ hnone => nomatch hnone⟩
  | delete type a =>
    exact ⟨_, none, by simp only [step, Objects.rtDelete_ok h hallowed]; rfl, h.deleted hallowed,
      False.elim⟩
  | threadCreate name heap =>
    by_cases hfits : Objects.ThreadFits heap s.block
    · obtain ⟨s', thread, hcreate, h', -⟩ := Objects.rtThreadCreate_fits name h hfits
      exact ⟨s', some thread, hcreate, h', fun _ hnone => nomatch hnone⟩
    · obtain ⟨s', hcreate, h', hcontainer, -⟩ :=
        Objects.rtThreadCreate_fails name h hfits
      exact ⟨s', none, hcreate, h', fun _ _ => hcontainer⟩
  | threadDelete thread =>
    obtain ⟨⟨stackAddr, hblock⟩, hrunning⟩ := hallowed
    obtain ⟨s', hdelete, h'⟩ := Objects.rtThreadDelete_ok h hblock hrunning
    exact ⟨s', none, by simp only [step, hdelete]; rfl, h', False.elim⟩
  | idle =>
    obtain ⟨s', hidle, h'⟩ := Objects.rtThreadIdleExcute_ok h
    exact ⟨s', none, by simp only [step, hidle]; rfl, h', False.elim⟩
  | deviceUse device refCount =>
    exact ⟨_, none, rfl, inv_deviceUse h device refCount, False.elim⟩

/-- A call that does not meet the condition leaves a node in freed memory. -/
theorem not_right (h : s.Inv) (hallowed : Allowed call s) (hmeets : ¬ Meets call s) :
    ¬ Right call s := by
  rintro ⟨s', created, hstep, hlive, -⟩
  cases call with
  | pipeCreate name bufsz heap =>
    simp only [Meets, not_forall] at hmeets
    obtain ⟨hsome, hfind⟩ := hmeets
    obtain ⟨pipe, halloc⟩ := Option.ne_none_iff_exists'.mp hsome
    rw [step, Objects.rtPipeCreate_taken h halloc hallowed hfind] at hstep
    cases hstep
    have hlock : ⟨pipe, .lock⟩ ∈ (s.pipeLocked pipe name).container .mutex :=
      Objects.mem_insert.mpr (.inl ⟨rfl, rfl⟩)
    have hfreed : ((s.pipeLocked pipe name).rtFree pipe).block pipe = none :=
      Function.update_self ..
    exact hlive .mutex _ hlock hfreed
  | workqueueCreate name heap =>
    simp only [Meets, not_forall] at hmeets
    obtain ⟨queue, halloc, hfits⟩ := hmeets
    obtain ⟨s₁, hcreate, hdangles⟩ := Objects.rtWorkqueueCreate_dangles name h halloc hfits
    rw [step, hcreate] at hstep
    cases hstep
    exact hdangles hlive
  | workqueueDestroy queue =>
    obtain ⟨workThread, hqueue⟩ := hallowed
    cases hdestroy : s.rtWorkqueueDestroy queue with
    | error e =>
      rw [step, hdestroy] at hstep
      cases hstep
    | ok s₁ =>
      rw [step, hdestroy] at hstep
      cases hstep
      exact Objects.rtWorkqueueDestroy_dangles h hqueue hdestroy hlive
  | pipeDelete name => exact hmeets trivial
  | create type name heap => exact hmeets trivial
  | delete type a => exact hmeets trivial
  | threadCreate name heap => exact hmeets trivial
  | threadDelete thread => exact hmeets trivial
  | idle => exact hmeets trivial
  | deviceUse device refCount => exact hmeets trivial

theorem right_iff_meets (h : s.Inv) (hallowed : Allowed call s) : Right call s ↔ Meets call s := by
  constructor
  · intro hright
    by_contra hmeets
    exact not_right h hallowed hmeets hright
  · intro hmeets
    obtain ⟨s', created, hstep, h', hfailed⟩ := hmeets.step_ok h hallowed
    exact ⟨s', created, hstep, h'.nodesLive, hfailed⟩

/-! ## From the start -/

/-- Before anything has been created: the objects that there are were initialized in memory that is
    never freed. -/
structure Booted (s : Objects) : Prop where
  block : ∀ a, s.block a = none ∨ s.block a = some .static
  node : ∀ type node, node ∈ s.container type →
    s.block node.block = some .static ∧ (s.object node).type = some (type, true)
  defunct : s.defunct = []

theorem Booted.inv (h : Booted s) : s.Inv := by
  refine ⟨fun a => ?_, by simp [h.defunct]⟩
  have hrunning : a ∉ s.defunct := by simp [h.defunct]
  obtain hnone | hstatic := h.block a
  · rw [hnone]
    refine ⟨fun part type hmem => ?_, hrunning⟩
    have hheld := (h.node type _ hmem).1
    rw [hnone] at hheld
    cases hheld
  · rw [hstatic]
    exact ⟨fun part type hmem => (h.node type _ hmem).2, hrunning⟩

/-- Along the calls that create and destroy: after each of them every node is in live memory, and
    one that fails to create leaves the containers as they were, if and only if every call meets
    the condition. -/
theorem rt_object_nodes_live (h : Booted s) {calls : List ObjectCall}
    (hallowed : Along step Allowed calls s) :
    Along step Right calls s ↔ Along step Meets calls s := by
  refine along_iff (I := Objects.Inv) (V := Allowed) (fun call s hs => right_iff_meets hs) ?_ h.inv
    hallowed
  intro call s s' created hs hvalid hright hstep
  obtain ⟨s₁, created₁, hstep₁, h₁, -⟩ := ((right_iff_meets hs hvalid).mp hright).step_ok hs hvalid
  rw [hstep₁] at hstep
  cases hstep
  exact h₁

/-- An allocator that has `n` blocks, and takes the first one that is free. -/
def firstOf (n : Nat) : Allocator where
  alloc block := (List.range n).find? fun a => (block a).isNone
  free block a halloc := by simpa using List.find?_some halloc

/-- `"uart"`. -/
def uart : ObjectName := [0x75, 0x61, 0x72, 0x74]

/-- A start with a device. -/
def oneDevice : Objects where
  block a := if a = 0 then some .static else none
  container type := if type = .device then [⟨0, .self⟩] else []
  object _ := ⟨some (.device, true), uart⟩
  refCount _ := 0
  defunct := []

theorem oneDevice_booted : Booted oneDevice := by
  refine ⟨fun a => ?_, fun type node hmem => ?_, rfl⟩
  · by_cases ha : a = 0 <;> simp [oneDevice, ha]
  · cases type <;> simp [oneDevice] at hmem ⊢
    simp [hmem]

/-- A pipe and a work queue, where there is room. -/
theorem rt_object_nodes_live_oneDevice :
    Along step Right [.pipeCreate [0x70] 64 (firstOf 8), .workqueueCreate [0x71] (firstOf 8),
      .pipeDelete [0x70]] oneDevice := by
  refine (rt_object_nodes_live oneDevice_booted ?_).mpr ?_
  · rw [along_cons (by rfl), along_cons (by rfl), along_cons (by rfl)]
    exact ⟨show (64 : Int) < Objects.pipeBufszMax by decide, trivial, trivial, trivial⟩
  · rw [along_cons (by rfl), along_cons (by rfl), along_cons (by rfl)]
    refine ⟨fun _ => by decide, fun queue halloc => ?_, trivial, trivial⟩
    have hqueue : queue = 2 := (Option.some.inj halloc).symm
    subst hqueue
    exact ⟨3, by decide, by decide⟩

/-- The lock of a pipe whose name is taken, the semaphore of a work queue whose thread has no room,
    and the semaphore of one that is destroyed: each stays in its container. -/
theorem rt_object_nodes_dangle :
    Booted oneDevice ∧
      (Along step Allowed [.pipeCreate uart 64 (firstOf 8)] oneDevice ∧
        ¬ Along step Right [.pipeCreate uart 64 (firstOf 8)] oneDevice) ∧
      (Along step Allowed [.workqueueCreate uart (firstOf 2)] oneDevice ∧
        ¬ Along step Right [.workqueueCreate uart (firstOf 2)] oneDevice) ∧
      Along step Allowed [.workqueueCreate uart (firstOf 8), .workqueueDestroy 1] oneDevice ∧
        ¬ Along step Right [.workqueueCreate uart (firstOf 8), .workqueueDestroy 1] oneDevice := by
  refine ⟨oneDevice_booted, ⟨?_, ?_⟩, ⟨?_, ?_⟩, ?_, ?_⟩
  · rw [along_cons (by rfl)]
    exact ⟨show (64 : Int) < Objects.pipeBufszMax by decide, trivial⟩
  · rintro ⟨⟨s', created, hstep, hlive, -⟩, -⟩
    cases hstep
    exact hlive .mutex ⟨1, .lock⟩ (by decide) (by decide)
  · rw [along_cons (by rfl)]
    exact ⟨trivial, trivial⟩
  · rintro ⟨⟨s', created, hstep, hlive, -⟩, -⟩
    cases hstep
    exact hlive .semaphore ⟨1, .sem⟩ (by decide) (by decide)
  · rw [along_cons (by rfl), along_cons (by rfl)]
    exact ⟨trivial, ⟨2, by decide⟩, trivial⟩
  · rw [along_cons (by rfl)]
    rintro ⟨-, ⟨s', created, hstep, hlive, -⟩, -⟩
    cases hstep
    exact hlive .semaphore ⟨1, .sem⟩ (by decide) (by decide)

end ObjectCall

end PandoraRobot.Kernel
