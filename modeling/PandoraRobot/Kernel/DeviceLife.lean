import PandoraRobot.Kernel.Objects
import Mathlib.Logic.Relation

/-! # The life of a device on the heap

`rt_device_create` and `rt_device_destroy` of `device.c`, with any use of the device by
`rt_device_register` and `rt_device_unregister` in between.

The device has a type byte of 0 until it is registered, that of a static object while it is
registered, and 0 again afterwards.  `rt_device_destroy` wants a device that is not static.
-/

namespace PandoraRobot.Kernel

namespace Objects

variable (s : Objects)

/-- `rt_device_create`.  `heap` is what `rt_malloc` does for the device and its user data. -/
def rtDeviceCreate (heap : Allocator) : Objects × Option Nat :=
  match heap.alloc s.block with
  | none => (s, none)
  | some dev =>
    -- `rt_memset` leaves a type of 0 and an empty name
    ({ s.rtStore dev (.object .device) with
      object := Function.update s.object ⟨dev, .self⟩ ⟨none, List.replicate rtNameMax 0⟩
      refCount := Function.update s.refCount ⟨dev, .self⟩ 0 }, some dev)

/-- `rt_device_destroy`. -/
def rtDeviceDestroy (dev : Nat) : Exec Objects := do
  s.assertType ⟨dev, .self⟩ .device false
  pure ((s.rtObjectDetach ⟨dev, .self⟩).rtFree dev)

/-- A step of the system while the device lives. -/
inductive LifeStep (dev : Nat) : Objects → Objects → Prop where
  | register {s s' : Objects} {name : ObjectName} {done : Bool} :
      s.rtDeviceRegister ⟨dev, .self⟩ name = .ok (s', done) → LifeStep dev s s'
  | unregister {s s' : Objects} : s.rtDeviceUnregister ⟨dev, .self⟩ = .ok s' → LifeStep dev s s'
  /-- What goes on elsewhere. -/
  | others {s s' : Objects} : Same s s' dev → LifeStep dev s s'

/-- The device has been created, and has lived from then on. -/
def Lived (dev : Nat) (s : Objects) : Prop :=
  ∃ s₀ heap s₁, rtDeviceCreate s₀ heap = (s₁, some dev) ∧
    Relation.ReflTransGen (LifeStep dev) s₁ s

/-- `rt_device_destroy` frees the device, which has not been freed before, and no container
    refers to it. -/
def EndsLife (dev : Nat) (s : Objects) : Prop :=
  ∃ s', s.rtDeviceDestroy dev = .ok s' ∧ s.block dev ≠ none ∧ s'.block dev = none ∧
    ∀ part type, ⟨dev, part⟩ ∉ s'.container type

/-- The types a device can have. -/
def Typed (dev : Nat) (s : Objects) : Prop :=
  (s.object ⟨dev, .self⟩).type = none ∨ (s.object ⟨dev, .self⟩).type = some (.device, true)

variable {s} {s' : Objects} {dev : Nat} {name : ObjectName} {heap : Allocator}

theorem typed_of_create (h : s.rtDeviceCreate heap = (s', some dev)) : s'.Typed dev := by
  cases halloc : heap.alloc s.block with
  | none => simp [rtDeviceCreate, halloc] at h
  | some a =>
    simp only [rtDeviceCreate, halloc, Prod.mk.injEq, Option.some.injEq] at h
    obtain ⟨rfl, rfl⟩ := h
    exact .inl (by simp)

/-- A device that is registered gets the type of a static object. -/
theorem Typed.register {done : Bool} (h : s.Typed dev)
    (hstep : s.rtDeviceRegister ⟨dev, .self⟩ name = .ok (s', done)) : s'.Typed dev := by
  cases hfind : s.rtDeviceFind name with
  | some node =>
    simp only [rtDeviceRegister, hfind, exec_pure_ok, Prod.mk.injEq] at hstep
    exact hstep.1 ▸ h
  | none =>
    simp only [rtDeviceRegister, hfind, rtObjectInit, exec_bind_ok, exec_pure_ok,
      Prod.mk.injEq] at hstep
    obtain ⟨_, ⟨_, -, rfl⟩, rfl, -⟩ := hstep
    exact .inr insert_type

theorem Typed.unregister (hstep : s.rtDeviceUnregister ⟨dev, .self⟩ = .ok s') :
    s'.Typed dev := by
  simp only [rtDeviceUnregister, exec_bind_ok, exec_pure_ok] at hstep
  obtain ⟨_, -, rfl⟩ := hstep
  exact .inl (by simp [rtObjectDetach])

theorem Typed.step (h : s.Typed dev) (hstep : LifeStep dev s s') : s'.Typed dev := by
  cases hstep with
  | register hregister => exact h.register hregister
  | unregister hunregister => exact Typed.unregister hunregister
  | others hsame =>
    rw [Typed, hsame.type]
    exact h

theorem Lived.typed (h : Lived dev s) : s.Typed dev := by
  obtain ⟨s₀, heap, s₁, hcreate, hlife⟩ := h
  induction hlife with
  | refl => exact typed_of_create hcreate
  | tail _ hstep ih => exact ih.step hstep

theorem Typed.destroy_asserts (h : s.Typed dev) : s.rtDeviceDestroy dev = .error .assertion := by
  have htype : (s.object ⟨dev, .self⟩).type ≠ some (.device, false) := by
    rcases h with h | h <;> simp [h]
  rw [rtDeviceDestroy, assertType, rtAssert, if_neg htype]
  rfl

/-- No device on the heap can be destroyed, whatever has been done with it. -/
theorem rt_device_destroy_asserts (dev : Nat) (s : Objects) (hlived : Lived dev s) :
    ¬ EndsLife dev s := by
  rintro ⟨s', hdestroy, -⟩
  rw [hlived.typed.destroy_asserts] at hdestroy
  cases hdestroy

/-! ## A device that is created, registered and unregistered -/

/-- No block and no object. -/
def empty : Objects where
  block _ := none
  container _ := []
  object _ := ⟨none, []⟩
  refCount _ := 0
  defunct := []

/-- The allocator that has room for one block, at address 0. -/
def oneBlock : Allocator where
  alloc block := if block 0 = none then some 0 else none
  free block a h := by
    split at h
    · next hfree => exact Option.some.inj h ▸ hfree
    · cases h

/-- A device with a name that is not taken. -/
theorem register_new (hname : s.rtDeviceFind name = none)
    (hnew : ⟨dev, .self⟩ ∉ s.container .device) :
    ∃ s', s.rtDeviceRegister ⟨dev, .self⟩ name = .ok (s', true) ∧
      (s'.object ⟨dev, .self⟩).type = some (.device, true) ∧ s'.block = s.block := by
  refine ⟨{ s.insert ⟨dev, .self⟩ .device true name with
    refCount := Function.update s.refCount ⟨dev, .self⟩ 0 }, ?_, insert_type, rfl⟩
  simp only [rtDeviceRegister, hname, rtObjectInit_ok hnew]
  rfl

/-- A device is created, registered and unregistered. -/
theorem exists_unregistered : ∃ s, Lived 0 s ∧ s.block 0 = some (.object .device) ∧
    (s.object ⟨0, .self⟩).type = none := by
  have hname : (empty.rtDeviceCreate oneBlock).1.rtDeviceFind [0x75] = none := rfl
  obtain ⟨registered, hregister, htype, hblock⟩ :=
    register_new hname (show (⟨0, .self⟩ : ObjectNode) ∉ [] from List.not_mem_nil)
  have hunregister : registered.rtDeviceUnregister ⟨0, .self⟩ =
      .ok (registered.rtObjectDetach ⟨0, .self⟩) := by
    simp only [rtDeviceUnregister, assertType, rtAssert, if_pos htype]
    rfl
  refine ⟨_, ⟨empty, oneBlock, _, rfl, .tail (.single (.register hregister))
    (.unregister hunregister)⟩, congrFun hblock 0, ?_⟩
  simp [rtObjectDetach]

theorem rt_device_destroy_asserts_unregistered : ∃ s, Lived 0 s ∧ ¬ EndsLife 0 s := by
  obtain ⟨s, hlived, -⟩ := exists_unregistered
  exact ⟨s, hlived, rt_device_destroy_asserts 0 s hlived⟩

/-- Memory that is never given back: the device is there, no container refers to it, and it
    cannot be destroyed. -/
theorem rt_device_destroy_leaks : ∃ s, Lived 0 s ∧ s.block 0 = some (.object .device) ∧
    s.rtDeviceDestroy 0 = .error .assertion ∧ ¬ EndsLife 0 s := by
  obtain ⟨s, hlived, hblock, -⟩ := exists_unregistered
  have hasserts := hlived.typed.destroy_asserts
  refine ⟨s, hlived, hblock, hasserts, ?_⟩
  rintro ⟨s', hdestroy, -⟩
  rw [hasserts] at hdestroy
  cases hdestroy

end Objects

end PandoraRobot.Kernel
