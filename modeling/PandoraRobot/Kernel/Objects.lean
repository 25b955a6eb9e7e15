import PandoraRobot.Kernel.Service
import Mathlib.Logic.Function.Basic

/-! # Object containers

`rt_object_init`, `rt_object_detach`, `rt_object_allocate` and `rt_object_delete` of `object.c`, and
what the functions that create and delete semaphores, mutexes, timers, threads and devices do with
them: to the containers, to the memory of the objects, and to nothing else.  The threads that wait
on an object, the scheduler and the timer list are left out.

An object stands in a block of memory, of its own or of a larger structure that it is a part of.
The container links the object and knows nothing about the block.
-/

namespace PandoraRobot.Kernel

/-- `enum rt_object_class_type`, the classes that are used here. -/
inductive ObjectClass where
  | thread
  | semaphore
  | mutex
  | device
  | timer
  deriving DecidableEq, Repr

/-- The part of a block that an object is. -/
inductive Part where
  /-- the object at the start of its own block -/
  | self
  /-- `lock` of a pipe -/
  | lock
  /-- `parent` of a pipe -/
  | parent
  /-- `sem` of a work queue -/
  | sem
  /-- `thread_timer` of a thread -/
  | threadTimer
  deriving DecidableEq, Repr

/-- Where an object is. -/
structure ObjectNode where
  block : Nat
  part : Part
  deriving DecidableEq, Repr

/-- What a block of memory holds. -/
inductive MemBlock where
  /-- memory that is never freed -/
  | static
  | object (type : ObjectClass)
  | thread (stackAddr : Nat)
  /-- the stack of a thread -/
  | stack (owner : Nat)
  | pipe
  | workqueue (workThread : Nat)
  deriving DecidableEq, Repr

abbrev ObjectName := List (BitVec 8)

/-- `RT_NAME_MAX`. -/
def rtNameMax : Nat := 8

/-- `struct rt_object`.  The type is the class and the static bit; `none` is 0. -/
structure RtObject where
  type : Option (ObjectClass × Bool)
  name : ObjectName
  deriving DecidableEq, Repr

/-- `rt_object_container`, the objects, and the memory they are in. -/
structure Objects where
  /-- `none` where no block is allocated -/
  block : Nat → Option MemBlock
  container : ObjectClass → List ObjectNode
  object : ObjectNode → RtObject
  /-- `ref_count` of a device -/
  refCount : ObjectNode → BitVec 8
  /-- `rt_thread_defunct` -/
  defunct : List Nat

/-- The allocator: where it puts a block, if it can.  It is an address that is free. -/
structure Allocator where
  alloc : (Nat → Option MemBlock) → Option Nat
  free : ∀ block a, alloc block = some a → block a = none

namespace Objects

variable (s : Objects)

/-! ## `object.c` -/

/-- `RT_KERNEL_FREE`. -/
def rtFree (a : Nat) : Objects := { s with block := Function.update s.block a none }

/-- What the memory at `a` holds from now on. -/
def rtStore (a : Nat) (block : MemBlock) : Objects :=
  { s with block := Function.update s.block a (some block) }

/-- The object gets a type and a name, and becomes the first of its container. -/
def insert (node : ObjectNode) (type : ObjectClass) (isStatic : Bool) (name : ObjectName) :
    Objects :=
  { s with
    object := Function.update s.object node ⟨some (type, isStatic), name.take rtNameMax⟩
    container := Function.update s.container type (node :: s.container type) }

/-- `rt_object_init`. -/
def rtObjectInit (node : ObjectNode) (type : ObjectClass) (name : ObjectName) : Exec Objects := do
  rtAssert (node ∉ s.container type)
  pure (s.insert node type true name)

/-- `rt_object_detach`. -/
def rtObjectDetach (node : ObjectNode) : Objects :=
  { s with
    object := Function.update s.object node { s.object node with type := none }
    container := fun type => (s.container type).filter (· ≠ node) }

/-- `rt_object_allocate`. -/
def rtObjectAllocate (type : ObjectClass) (name : ObjectName) (heap : Allocator) :
    Objects × Option Nat :=
  match heap.alloc s.block with
  | none => (s, none)
  | some a => ((s.rtStore a (.object type)).insert ⟨a, .self⟩ type false name, some a)

/-- `rt_object_delete`. -/
def rtObjectDelete (a : Nat) : Exec Objects := do
  rtAssert ((s.object ⟨a, .self⟩).type.map Prod.snd ≠ some true)
  pure ((s.rtObjectDetach ⟨a, .self⟩).rtFree a)

/-- `rt_object_get_type` and `rt_object_is_systemobject`, as they are asserted. -/
def assertType (node : ObjectNode) (type : ObjectClass) (isStatic : Bool) : Exec Unit :=
  rtAssert ((s.object node).type = some (type, isStatic))

/-! ## The kernel objects -/

/-- `rt_sem_init`, `rt_mutex_init` and `rt_timer_init`. -/
def rtSemInit (node : ObjectNode) (name : ObjectName) : Exec Objects :=
  s.rtObjectInit node .semaphore name

def rtMutexInit (node : ObjectNode) (name : ObjectName) : Exec Objects :=
  s.rtObjectInit node .mutex name

def rtTimerInit (node : ObjectNode) (name : ObjectName) : Exec Objects :=
  s.rtObjectInit node .timer name

/-- `rt_mutex_detach`. -/
def rtMutexDetach (node : ObjectNode) : Exec Objects := do
  s.assertType node .mutex true
  pure (s.rtObjectDetach node)

/-- `rt_timer_detach`. -/
def rtTimerDetach (node : ObjectNode) : Exec Objects := do
  s.assertType node .timer true
  pure (s.rtObjectDetach node)

/-- `rt_sem_delete`, `rt_mutex_delete` and `rt_timer_delete`, by the class. -/
def rtDelete (type : ObjectClass) (a : Nat) : Exec Objects := do
  s.assertType ⟨a, .self⟩ type false
  s.rtObjectDelete a

/-- `rt_thread_create`. -/
def rtThreadCreate (name : ObjectName) (heap : Allocator) : Exec (Objects × Option Nat) :=
  match s.rtObjectAllocate .thread name heap with
  | (s, none) => pure (s, none)
  | (s, some thread) =>
    match heap.alloc s.block with
    | none => do
      let s ← s.rtObjectDelete thread
      pure (s, none)
    | some stackAddr => do
      let s := (s.rtStore stackAddr (.stack thread)).rtStore thread (.thread stackAddr)
      let s ← s.rtTimerInit ⟨thread, .threadTimer⟩ name
      pure (s, some thread)

/-- `rt_thread_delete`. -/
def rtThreadDelete (thread : Nat) : Exec Objects := do
  s.assertType ⟨thread, .self⟩ .thread false
  let s ← s.rtTimerDetach ⟨thread, .threadTimer⟩
  pure { s with defunct := thread :: s.defunct }

/-- A pass of the loop of `rt_thread_idle_excute`: the first defunct thread, if there is one. -/
def rtThreadIdleExcute : Exec Objects :=
  match s.defunct with
  | [] => pure s
  | thread :: defunct =>
    match s.block thread with
    | some (.thread stackAddr) =>
      let s := { s with defunct }
      if (s.object ⟨thread, .self⟩).type.map Prod.snd = some true then
        pure (s.rtObjectDetach ⟨thread, .self⟩)
      else (s.rtFree stackAddr).rtObjectDelete thread
    | _ => .error .useAfterFree

/-- `rt_device_find`. -/
def rtDeviceFind (name : ObjectName) : Option ObjectNode :=
  (s.container .device).find? fun node =>
    (s.object node).name.take rtNameMax = name.take rtNameMax

/-- `rt_device_register`: the result is whether it succeeds. -/
def rtDeviceRegister (node : ObjectNode) (name : ObjectName) : Exec (Objects × Bool) :=
  match s.rtDeviceFind name with
  | some _ => pure (s, false)
  | none => do
    let s ← s.rtObjectInit node .device name
    pure ({ s with refCount := Function.update s.refCount node 0 }, true)

/-- `rt_device_unregister`. -/
def rtDeviceUnregister (node : ObjectNode) : Exec Objects := do
  s.assertType node .device true
  pure (s.rtObjectDetach node)

/-! ## What the updates change -/

variable {s} {s' s'' : Objects} {node node' : ObjectNode} {type type' : ObjectClass}
variable {isStatic : Bool} {name : ObjectName} {a : Nat} {held : MemBlock}

theorem mem_insert : node' ∈ (s.insert node type isStatic name).container type' ↔
    node' = node ∧ type' = type ∨ node' ∈ s.container type' := by
  by_cases htype : type' = type
  · subst htype
    simp [insert]
  · simp [insert, htype]

theorem mem_rtObjectDetach : node' ∈ (s.rtObjectDetach node).container type' ↔
    node' ∈ s.container type' ∧ node' ≠ node := by
  simp [rtObjectDetach]

theorem insert_type : ((s.insert node type isStatic name).object node).type =
    some (type, isStatic) := by
  simp [insert]

theorem insert_object_ne (hne : node' ≠ node) :
    (s.insert node type isStatic name).object node' = s.object node' := by
  simp [insert, hne]

theorem insert_type_ne (hne : node' ≠ node) :
    ((s.insert node type isStatic name).object node').type = (s.object node').type :=
  congrArg RtObject.type (insert_object_ne hne)

theorem rtObjectDetach_type_ne (hne : node' ≠ node) :
    ((s.rtObjectDetach node).object node').type = (s.object node').type := by
  simp [rtObjectDetach, hne]

/-- `s'` is like `s`, as far as the block `a` and the objects in it are concerned. -/
structure Same (s s' : Objects) (a : Nat) : Prop where
  block : s'.block a = s.block a
  mem : ∀ part type, ⟨a, part⟩ ∈ s'.container type ↔ ⟨a, part⟩ ∈ s.container type
  type : ∀ part, (s'.object ⟨a, part⟩).type = (s.object ⟨a, part⟩).type
  defunct : a ∈ s'.defunct ↔ a ∈ s.defunct

theorem Same.refl (s : Objects) (a : Nat) : Same s s a :=
  ⟨rfl, fun _ _ => Iff.rfl, fun _ => rfl, Iff.rfl⟩

theorem Same.trans (h : Same s s' a) (h' : Same s' s'' a) : Same s s'' a :=
  ⟨h'.block.trans h.block, fun part type => (h'.mem part type).trans (h.mem part type),
    fun part => (h'.type part).trans (h.type part), h'.defunct.trans h.defunct⟩

theorem same_rtFree {b : Nat} (hne : a ≠ b) : Same s (s.rtFree b) a :=
  ⟨Function.update_of_ne hne _ _, fun _ _ => Iff.rfl, fun _ => rfl, Iff.rfl⟩

theorem same_rtStore {b : Nat} (hne : a ≠ b) : Same s (s.rtStore b held) a :=
  ⟨Function.update_of_ne hne _ _, fun _ _ => Iff.rfl, fun _ => rfl, Iff.rfl⟩

theorem same_insert (hne : a ≠ node.block) : Same s (s.insert node type isStatic name) a := by
  have hnode : ∀ part, (⟨a, part⟩ : ObjectNode) ≠ node :=
    fun part heq => hne (congrArg ObjectNode.block heq)
  refine ⟨rfl, fun part type' => ?_, fun part => insert_type_ne (hnode part), Iff.rfl⟩
  rw [mem_insert]
  simp [hnode part]

theorem same_rtObjectDetach (hne : a ≠ node.block) : Same s (s.rtObjectDetach node) a := by
  have hnode : ∀ part, (⟨a, part⟩ : ObjectNode) ≠ node :=
    fun part heq => hne (congrArg ObjectNode.block heq)
  refine ⟨rfl, fun part type' => ?_, fun part => rtObjectDetach_type_ne (hnode part), Iff.rfl⟩
  rw [mem_rtObjectDetach]
  simp [hnode part]

/-! ## The invariant -/

/-- The objects in the block `a` that can be in a container. -/
def OnlyNodes (s : Objects) (a : Nat) (nodes : List (Part × ObjectClass)) : Prop :=
  ∀ part type, ⟨a, part⟩ ∈ s.container type → (part, type) ∈ nodes

/-- What a block holds is what the containers know of it. -/
def BlockOk (s : Objects) (a : Nat) : Option MemBlock → Prop
  | none => s.OnlyNodes a [] ∧ a ∉ s.defunct
  | some .static =>
    (∀ part type, ⟨a, part⟩ ∈ s.container type →
      (s.object ⟨a, part⟩).type = some (type, true)) ∧ a ∉ s.defunct
  | some (.object type) =>
    s.OnlyNodes a [(.self, type)] ∧ (s.object ⟨a, .self⟩).type = some (type, false) ∧
      a ∉ s.defunct
  | some (.thread stackAddr) =>
    s.OnlyNodes a [(.self, .thread), (.threadTimer, .timer)] ∧
      (s.object ⟨a, .self⟩).type = some (.thread, false) ∧ s.block stackAddr = some (.stack a) ∧
      (a ∉ s.defunct → (s.object ⟨a, .threadTimer⟩).type = some (.timer, true)) ∧
      (a ∈ s.defunct → ⟨a, .threadTimer⟩ ∉ s.container .timer)
  | some (.stack _) => s.OnlyNodes a [] ∧ a ∉ s.defunct
  | some .pipe =>
    s.OnlyNodes a [(.lock, .mutex), (.parent, .device)] ∧
      (s.object ⟨a, .lock⟩).type = some (.mutex, true) ∧
      (s.object ⟨a, .parent⟩).type = some (.device, true) ∧ a ∉ s.defunct
  | some (.workqueue _) =>
    s.OnlyNodes a [(.sem, .semaphore)] ∧ ⟨a, .sem⟩ ∈ s.container .semaphore ∧ a ∉ s.defunct

structure Inv (s : Objects) : Prop where
  block : ∀ a, s.BlockOk a (s.block a)
  defunct : s.defunct.Nodup

theorem OnlyNodes.same {nodes : List (Part × ObjectClass)} (h : s.OnlyNodes a nodes)
    (hsame : Same s s' a) : s'.OnlyNodes a nodes :=
  fun part type hmem => h part type ((hsame.mem part type).mp hmem)

/-- A block that stays as it was, with the stack that it refers to. -/
theorem BlockOk.same (h : s.BlockOk a (s.block a)) (hsame : Same s s' a)
    (hstack : ∀ stackAddr, s.block stackAddr = some (.stack a) →
      s'.block stackAddr = some (.stack a)) :
    s'.BlockOk a (s'.block a) := by
  have hdefunct : a ∉ s.defunct → a ∉ s'.defunct := fun h h' => h (hsame.defunct.mp h')
  rw [hsame.block]
  cases hblock : s.block a with
  | none =>
    rw [hblock] at h
    exact ⟨h.1.same hsame, hdefunct h.2⟩
  | some held =>
    rw [hblock] at h
    cases held with
    | static =>
      refine ⟨fun part type hmem => ?_, hdefunct h.2⟩
      rw [hsame.type]
      exact h.1 part type ((hsame.mem part type).mp hmem)
    | object type => exact ⟨h.1.same hsame, (hsame.type _).trans h.2.1, hdefunct h.2.2⟩
    | thread stackAddr =>
      obtain ⟨honly, htype, hheld, hrunning, hclosed⟩ := h
      exact ⟨honly.same hsame, (hsame.type _).trans htype, hstack stackAddr hheld,
        fun hnot => (hsame.type _).trans (hrunning fun hin => hnot (hsame.defunct.mpr hin)),
        fun hin hmem => hclosed (hsame.defunct.mp hin) ((hsame.mem _ _).mp hmem)⟩
    | stack owner => exact ⟨h.1.same hsame, hdefunct h.2⟩
    | pipe =>
      exact ⟨h.1.same hsame, (hsame.type _).trans h.2.1, (hsame.type _).trans h.2.2.1,
        hdefunct h.2.2.2⟩
    | workqueue workThread =>
      exact ⟨h.1.same hsame, (hsame.mem _ _).mpr h.2.1, hdefunct h.2.2⟩

/-- A change to a few blocks, and to no stack of a thread in another one. -/
theorem Inv.change (h : s.Inv) (changed : Nat → Prop) (hsame : ∀ a, ¬ changed a → Same s s' a)
    (hstack : ∀ a owner, changed a → s.block a = some (.stack owner) → changed owner)
    (hchanged : ∀ a, changed a → s'.BlockOk a (s'.block a)) (hdefunct : s'.defunct.Nodup) :
    s'.Inv := by
  refine ⟨fun a => ?_, hdefunct⟩
  by_cases ha : changed a
  · exact hchanged a ha
  · refine (h.block a).same (hsame a ha) fun stackAddr hheld => ?_
    have hkept : ¬ changed stackAddr := fun hc => ha (hstack stackAddr a hc hheld)
    rw [(hsame stackAddr hkept).block, hheld]

/-- Every node in a container is in memory that is live. -/
def NodesLive (s : Objects) : Prop :=
  ∀ type node, node ∈ s.container type → s.block node.block ≠ none

theorem Inv.nodesLive (h : s.Inv) : s.NodesLive := by
  intro type node hmem hnone
  have hblock := h.block node.block
  rw [hnone] at hblock
  exact absurd (hblock.1 node.part type hmem) List.not_mem_nil

/-- A free address has no node. -/
theorem Inv.fresh (h : s.Inv) (ha : s.block a = none) (part : Part) (type : ObjectClass) :
    ⟨a, part⟩ ∉ s.container type :=
  fun hmem => h.nodesLive type _ hmem ha

theorem Inv.fresh_defunct (h : s.Inv) (ha : s.block a = none) : a ∉ s.defunct := by
  have hblock := h.block a
  rw [ha] at hblock
  exact hblock.2

/-! ## What the functions do -/

/-- An object alone in a new block. -/
theorem Inv.allocated (h : s.Inv) (ha : s.block a = none) (type : ObjectClass) (name : ObjectName) :
    ((s.rtStore a (.object type)).insert ⟨a, .self⟩ type false name).Inv := by
  refine h.change (· = a) (fun b hb => (same_rtStore hb).trans (same_insert hb)) ?_ ?_ h.defunct
  · rintro b owner rfl hheld
    rw [ha] at hheld
    cases hheld
  · rintro b rfl
    have hblock : ((s.rtStore b (.object type)).insert ⟨b, .self⟩ type false name).block b =
        some (.object type) := Function.update_self ..
    rw [hblock]
    refine ⟨fun part type' hmem => ?_, insert_type, h.fresh_defunct ha⟩
    obtain ⟨hnode, rfl⟩ | hold := mem_insert.mp hmem
    · cases hnode
      exact List.mem_singleton_self _
    · exact absurd hold (h.fresh ha part type')

/-- An object leaves the containers, and its block is freed. -/
theorem Inv.deleted (h : s.Inv) (hblock : s.block a = some (.object type)) :
    ((s.rtObjectDetach ⟨a, .self⟩).rtFree a).Inv := by
  have hobject := h.block a
  rw [hblock] at hobject
  refine h.change (· = a) (fun b hb => (same_rtObjectDetach hb).trans (same_rtFree hb)) ?_ ?_
    h.defunct
  · rintro b owner rfl hheld
    rw [hblock] at hheld
    cases hheld
  · rintro b rfl
    have hfreed : ((s.rtObjectDetach ⟨b, .self⟩).rtFree b).block b = none :=
      Function.update_self ..
    rw [hfreed]
    refine ⟨fun part type' hmem => ?_, hobject.2.2⟩
    obtain ⟨hold, hne⟩ := mem_rtObjectDetach.mp hmem
    have honly := hobject.1 part type' hold
    simp only [List.mem_singleton, Prod.mk.injEq] at honly
    exact absurd (by rw [honly.1]) hne

theorem rtObjectDelete_ok (htype : (s.object ⟨a, .self⟩).type = some (type, false)) :
    s.rtObjectDelete a = .ok ((s.rtObjectDetach ⟨a, .self⟩).rtFree a) := by
  simp [rtObjectDelete, rtAssert, htype, bind, Except.bind, pure, Except.pure]

theorem rtDelete_ok (h : s.Inv) (hblock : s.block a = some (.object type)) :
    s.rtDelete type a = .ok ((s.rtObjectDetach ⟨a, .self⟩).rtFree a) := by
  have hobject := h.block a
  rw [hblock] at hobject
  rw [rtDelete, rtObjectDelete_ok hobject.2.1, assertType, rtAssert, if_pos hobject.2.1]
  rfl

theorem rtObjectInit_ok (hnew : node ∉ s.container type) :
    s.rtObjectInit node type name = .ok (s.insert node type true name) := by
  rw [rtObjectInit, rtAssert, if_pos hnew]
  rfl

/-- What was inserted and is detached leaves the containers as they were. -/
theorem container_detach_insert (hnew : ∀ type, node ∉ s.container type) :
    ((s.insert node type isStatic name).rtObjectDetach node).container = s.container := by
  funext type'
  have hkept : (s.container type').filter (· ≠ node) = s.container type' :=
    List.filter_eq_self.mpr fun node' hmem => by
      simpa using fun heq : node' = node => hnew type' (heq ▸ hmem)
  by_cases htype : type' = type
  · subst htype
    simpa [rtObjectDetach, insert] using hkept
  · simpa [rtObjectDetach, insert, htype] using hkept

/-- A new thread with its stack, where there is room for both. -/
def ThreadFits (heap : Allocator) (block : Nat → Option MemBlock) : Prop :=
  ∃ thread, heap.alloc block = some thread ∧
    heap.alloc (Function.update block thread (some (.object .thread))) ≠ none

/-- The thread object, before it has a stack. -/
def threadObject (s : Objects) (thread : Nat) (name : ObjectName) : Objects :=
  (s.rtStore thread (.object .thread)).insert ⟨thread, .self⟩ .thread false name

theorem rtThreadCreate_eq {heap : Allocator} {thread : Nat}
    (halloc : heap.alloc s.block = some thread) : s.rtThreadCreate name heap =
      match heap.alloc (s.threadObject thread name).block with
      | none => (s.threadObject thread name).rtObjectDelete thread >>= fun s => pure (s, none)
      | some stackAddr =>
        (((s.threadObject thread name).rtStore stackAddr (.stack thread)).rtStore thread
          (.thread stackAddr)).rtTimerInit ⟨thread, .threadTimer⟩ name >>= fun s =>
            pure (s, some thread) := by
  simp only [rtThreadCreate, rtObjectAllocate, halloc]
  rfl

variable (name) in
/-- `rt_thread_create` that fails leaves the containers and the memory as they were. -/
theorem rtThreadCreate_fails (h : s.Inv) {heap : Allocator} (hfits : ¬ ThreadFits heap s.block) :
    ∃ s', s.rtThreadCreate name heap = .ok (s', none) ∧ s'.Inv ∧
      s'.container = s.container ∧ s'.block = s.block := by
  cases halloc : heap.alloc s.block with
  | none =>
    refine ⟨s, ?_, h, rfl, rfl⟩
    simp only [rtThreadCreate, rtObjectAllocate, halloc]
    rfl
  | some thread =>
    have hfree := heap.free _ _ halloc
    have hallocated := h.allocated hfree .thread name
    have hnone : heap.alloc (s.threadObject thread name).block = none := by
      by_contra hsome
      exact hfits ⟨thread, halloc, hsome⟩
    have hdelete : (s.threadObject thread name).rtObjectDelete thread = .ok _ :=
      rtObjectDelete_ok insert_type
    refine ⟨_, ?_, hallocated.deleted (Function.update_self ..), ?_, ?_⟩
    · rw [rtThreadCreate_eq halloc, hnone, hdelete]
      rfl
    · exact container_detach_insert fun type => h.fresh hfree .self type
    · funext b
      by_cases hb : b = thread
      · subst hb
        rw [hfree]
        exact Function.update_self ..
      · simp [rtFree, rtObjectDetach, insert, rtStore, hb]

/-- The thread object with its stack and its timer. -/
def threadCreated (s : Objects) (thread stackAddr : Nat) (name : ObjectName) : Objects :=
  (((s.threadObject thread name).rtStore stackAddr (.stack thread)).rtStore thread
    (.thread stackAddr)).insert ⟨thread, .threadTimer⟩ .timer true name

theorem same_threadCreated {thread stackAddr b : Nat} (hthread : b ≠ thread)
    (hstack : b ≠ stackAddr) : Same s (s.threadCreated thread stackAddr name) b :=
  ((((same_rtStore hthread).trans (same_insert hthread)).trans (same_rtStore hstack)).trans
    (same_rtStore hthread)).trans (same_insert hthread)

theorem mem_threadCreated {thread stackAddr : Nat} :
    node ∈ (s.threadCreated thread stackAddr name).container type ↔
      node = ⟨thread, .threadTimer⟩ ∧ type = .timer ∨ node = ⟨thread, .self⟩ ∧ type = .thread ∨
        node ∈ s.container type := by
  have hobject : node ∈ (s.threadObject thread name).container type ↔
      node = ⟨thread, .self⟩ ∧ type = .thread ∨ node ∈ s.container type := mem_insert
  rw [← hobject]
  exact mem_insert

theorem Inv.threadCreated (h : s.Inv) {thread stackAddr : Nat} (hthread : s.block thread = none)
    (hstack : s.block stackAddr = none) (hne : stackAddr ≠ thread) (name : ObjectName) :
    (s.threadCreated thread stackAddr name).Inv := by
  have hthreadHeld : (s.threadCreated thread stackAddr name).block thread =
      some (.thread stackAddr) := Function.update_self ..
  have hstackHeld : (s.threadCreated thread stackAddr name).block stackAddr =
      some (.stack thread) := by
    simp [Objects.threadCreated, insert, rtStore, hne]
  refine h.change (fun b => b = thread ∨ b = stackAddr) (fun b hb => ?_) ?_ ?_ h.defunct
  · obtain ⟨hb, hb'⟩ := not_or.mp hb
    exact same_threadCreated hb hb'
  · rintro b owner (rfl | rfl) hheld
    · rw [hthread] at hheld
      cases hheld
    · rw [hstack] at hheld
      cases hheld
  · rintro b (rfl | rfl)
    · rw [hthreadHeld]
      refine ⟨fun part type hmem => ?_, ?_, hstackHeld, fun _ => insert_type,
        fun hin => absurd hin (h.fresh_defunct hthread)⟩
      · obtain ⟨hnode, rfl⟩ | ⟨hnode, rfl⟩ | hold := mem_threadCreated.mp hmem
        · cases hnode
          exact List.mem_cons_of_mem _ (List.mem_singleton_self _)
        · cases hnode
          exact List.mem_cons_self
        · exact absurd hold (h.fresh hthread part type)
      · have hself : (⟨b, .self⟩ : ObjectNode) ≠ ⟨b, .threadTimer⟩ := by simp
        exact (insert_type_ne hself).trans insert_type
    · rw [hstackHeld]
      refine ⟨fun part type hmem => ?_, h.fresh_defunct hstack⟩
      obtain ⟨hnode, -⟩ | ⟨hnode, -⟩ | hold := mem_threadCreated.mp hmem
      · exact absurd (congrArg ObjectNode.block hnode) hne
      · exact absurd (congrArg ObjectNode.block hnode) hne
      · exact absurd hold (h.fresh hstack part type)

variable (name) in
/-- `rt_thread_create` that succeeds: two new blocks. -/
theorem rtThreadCreate_fits (h : s.Inv) {heap : Allocator} (hfits : ThreadFits heap s.block) :
    ∃ s' thread, s.rtThreadCreate name heap = .ok (s', some thread) ∧ s'.Inv ∧
      ∀ b, s.block b ≠ none → Same s s' b := by
  obtain ⟨thread, halloc, hsome⟩ := hfits
  obtain ⟨stackAddr, hstack⟩ := Option.ne_none_iff_exists'.mp hsome
  have hthread := heap.free _ _ halloc
  have hfree := heap.free _ _ hstack
  have hne : stackAddr ≠ thread := by
    rintro rfl
    rw [Function.update_self] at hfree
    cases hfree
  rw [Function.update_of_ne hne] at hfree
  have hinit : (((s.threadObject thread name).rtStore stackAddr (.stack thread)).rtStore thread
      (.thread stackAddr)).rtTimerInit ⟨thread, .threadTimer⟩ name =
        .ok (s.threadCreated thread stackAddr name) := by
    apply rtObjectInit_ok
    intro hmem
    have hobject : (⟨thread, .threadTimer⟩ : ObjectNode) ∈
        (s.threadObject thread name).container .timer := hmem
    obtain ⟨hnode, -⟩ | hold := mem_insert.mp hobject
    · cases hnode
    · exact h.fresh hthread .threadTimer .timer hold
  refine ⟨_, thread, ?_, h.threadCreated hthread hfree hne name, fun b hb => same_threadCreated ?_ ?_⟩
  · rw [rtThreadCreate_eq halloc, show heap.alloc (s.threadObject thread name).block =
      some stackAddr from hstack]
    simp only [hinit]
    rfl
  · rintro rfl
    exact hb hthread
  · rintro rfl
    exact hb hfree

/-- `rt_thread_delete`: the timer leaves its container, the thread waits for the idle thread. -/
theorem rtThreadDelete_ok (h : s.Inv) {thread stackAddr : Nat}
    (hblock : s.block thread = some (.thread stackAddr)) (hrunning : thread ∉ s.defunct) :
    ∃ s', s.rtThreadDelete thread = .ok s' ∧ s'.Inv := by
  have hthread := h.block thread
  rw [hblock] at hthread
  obtain ⟨honly, hself, hstack, htimer, -⟩ := hthread
  have htimer := htimer hrunning
  let s' : Objects := { s.rtObjectDetach ⟨thread, .threadTimer⟩ with
    defunct := thread :: s.defunct }
  have hsame : ∀ b, b ≠ thread → Same s s' b := by
    intro b hb
    have hdetach : Same s (s.rtObjectDetach ⟨thread, .threadTimer⟩) b := same_rtObjectDetach hb
    exact ⟨hdetach.block, hdetach.mem, hdetach.type, by simp [s', hb]⟩
  refine ⟨s', ?_, h.change (· = thread) hsame ?_ ?_ (List.nodup_cons.mpr ⟨hrunning, h.defunct⟩)⟩
  · rw [rtThreadDelete, assertType, rtAssert, if_pos hself, rtTimerDetach, assertType, rtAssert,
      if_pos htimer]
    rfl
  · rintro b owner rfl hheld
    rw [hblock] at hheld
    cases hheld
  · rintro b rfl
    have hheld : s'.block b = some (.thread stackAddr) := hblock
    have hne : (⟨b, .self⟩ : ObjectNode) ≠ ⟨b, .threadTimer⟩ := by simp
    rw [hheld]
    refine ⟨fun part type hmem => honly part type (mem_rtObjectDetach.mp hmem).1,
      (rtObjectDetach_type_ne hne).trans hself, hstack,
      fun hnot => absurd List.mem_cons_self hnot, fun _ hmem => ?_⟩
    exact (mem_rtObjectDetach.mp hmem).2 rfl

theorem Inv.defunct_thread (h : s.Inv) (hin : a ∈ s.defunct) :
    ∃ stackAddr, s.block a = some (.thread stackAddr) := by
  have hblock := h.block a
  cases hheld : s.block a with
  | none =>
    rw [hheld] at hblock
    exact absurd hin hblock.2
  | some held =>
    rw [hheld] at hblock
    cases held with
    | static => exact absurd hin hblock.2
    | object type => exact absurd hin hblock.2.2
    | thread stackAddr => exact ⟨stackAddr, rfl⟩
    | stack owner => exact absurd hin hblock.2
    | pipe => exact absurd hin hblock.2.2.2
    | workqueue workThread => exact absurd hin hblock.2.2

/-- A pass of the idle thread frees the stack and the object of a defunct thread. -/
theorem rtThreadIdleExcute_ok (h : s.Inv) :
    ∃ s', s.rtThreadIdleExcute = .ok s' ∧ s'.Inv := by
  cases hdefunct : s.defunct with
  | nil => exact ⟨s, by rw [rtThreadIdleExcute, hdefunct]; rfl, h⟩
  | cons thread defunct =>
    have hin : thread ∈ s.defunct := by
      rw [hdefunct]
      exact List.mem_cons_self
    have hnodup := h.defunct
    rw [hdefunct, List.nodup_cons] at hnodup
    obtain ⟨stackAddr, hheld⟩ := h.defunct_thread hin
    have hthread := h.block thread
    rw [hheld] at hthread
    obtain ⟨honly, hself, hstack, -, hclosed⟩ := hthread
    have hstackOk := h.block stackAddr
    rw [hstack] at hstackOk
    -- the stack is a block of its own
    have hne : stackAddr ≠ thread := by
      rintro rfl
      rw [hheld] at hstack
      cases hstack
    let s₁ : Objects := { s with defunct }.rtFree stackAddr
    have hdelete : s₁.rtObjectDelete thread = .ok ((s₁.rtObjectDetach ⟨thread, .self⟩).rtFree thread) :=
      rtObjectDelete_ok hself
    -- nothing changes but these two blocks
    have hsame : ∀ b, ¬ (b = thread ∨ b = stackAddr) →
        Same s ((s₁.rtObjectDetach ⟨thread, .self⟩).rtFree thread) b := by
      intro b hb
      obtain ⟨hb, hb'⟩ := not_or.mp hb
      have hdefunct' : Same s { s with defunct } b :=
        ⟨rfl, fun _ _ => Iff.rfl, fun _ => rfl, by simp [hdefunct, hb]⟩
      exact ((hdefunct'.trans (same_rtFree hb')).trans (same_rtObjectDetach hb)).trans
        (same_rtFree hb)
    refine ⟨_, ?_, h.change (fun b => b = thread ∨ b = stackAddr) hsame ?_ ?_ hnodup.2⟩
    · simp only [rtThreadIdleExcute, hdefunct, hheld, hself, Option.map_some, Option.some.injEq,
        Bool.false_eq_true, if_false]
      exact hdelete
    -- no other thread has the stack
    · rintro b owner (rfl | rfl) hstack'
      · rw [hheld] at hstack'
        cases hstack'
      · rw [hstack] at hstack'
        cases hstack'
        exact .inl rfl
    · rintro b (rfl | rfl)
      · have hfreed : ((s₁.rtObjectDetach ⟨b, .self⟩).rtFree b).block b = none :=
          Function.update_self ..
        rw [hfreed]
        refine ⟨fun part type hmem => ?_, hnodup.1⟩
        obtain ⟨hold, hnode⟩ := mem_rtObjectDetach.mp hmem
        have hpart := honly part type hold
        simp only [List.mem_cons, Prod.mk.injEq, List.not_mem_nil, or_false] at hpart
        obtain ⟨rfl, rfl⟩ | ⟨rfl, rfl⟩ := hpart
        · exact absurd rfl hnode
        · exact absurd hold (hclosed hin)
      · have hfreed : ((s₁.rtObjectDetach ⟨thread, .self⟩).rtFree thread).block b = none := by
          simp [s₁, rtFree, rtObjectDetach, hne]
        rw [hfreed]
        refine ⟨fun part type hmem => hstackOk.1 part type (mem_rtObjectDetach.mp hmem).1,
          fun hmem => hstackOk.2 ?_⟩
        rw [hdefunct]
        exact List.mem_cons_of_mem _ hmem

end Objects

end PandoraRobot.Kernel
