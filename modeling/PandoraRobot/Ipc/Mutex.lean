import PandoraRobot.Kernel.Priority

/-! # Mutexes

`rt_mutex_take` and `rt_mutex_release` of `ipc.c`, on any number of mutexes.  A stretch of code
without interrupts is one step, and so is what a take does after its `rt_schedule`.

A thread that has to wait lends its priority to the owner.  The release that gives the mutex away
puts back the priority that the owner had when it got it.
-/

namespace PandoraRobot.Ipc

open PandoraRobot.Kernel

/-- `struct rt_mutex`, less its wait list. -/
structure Mutex (T : Type) where
  value : BitVec 16
  originalPriority : Nat
  hold : BitVec 8
  owner : Option T
  flag : IpcFlag
  deriving DecidableEq, Repr

/-- `rt_mutex_init`. -/
def rtMutexInit {T : Type} (flag : IpcFlag) : Mutex T where
  value := 1
  originalPriority := 0xff
  hold := 0
  owner := none
  flag := flag

section Code

variable {T U I : Type} [DecidableEq T] [DecidableEq U] [DecidableEq I] [Fintype T] [Fintype U]

/-- The owner gets the priority of the thread that waits, if it is more urgent. -/
def changeOwnerPriority (thread owner : T) (k : State T U I) : Exec (State T U I) :=
  if (k.thread thread).currentPriority < (k.thread owner).currentPriority then
    k.rtThreadControl owner (.changePriority (k.thread thread).currentPriority)
  else pure k

/-- The owner gets back the priority that is stored in the mutex. -/
def changeToOriginalPriority (owner : T) (priority : Nat) (k : State T U I) : Exec (State T U I) :=
  if priority ≠ (k.thread owner).currentPriority then
    k.rtThreadControl owner (.changePriority priority)
  else pure k

/-- `rt_mutex_take` from `__again` up to `rt_schedule`.  The result is what the call returns, or
    `none` where its thread has to wait. -/
def rtMutexTakeAgain (thread : T) (i : I) (time : Tick) (mutex : Mutex T) (k : State T U I) :
    Exec (State T U I × Mutex T × Option Err) :=
  if 0 < mutex.value then
    pure (k, { mutex with
      value := mutex.value - 1
      owner := some thread
      originalPriority := (k.thread thread).currentPriority
      hold := mutex.hold + 1 }, some .eok)
  else if time = 0 then pure (k.setError thread .etimeout, mutex, some .etimeout)
  else
    match mutex.owner with
    | none => throw .wildPointer
    | some owner => do
      let k ← changeOwnerPriority thread owner k
      let k ← k.waitOn i thread mutex.flag time
      pure (k, mutex, none)

/-- `rt_mutex_take` up to `rt_schedule`, called by the running thread. -/
def rtMutexTake (thread : T) (i : I) (time : Tick) (mutex : Mutex T) (k : State T U I) :
    Exec (State T U I × Mutex T × Option Err) :=
  let k := k.setError thread .eok
  if mutex.owner = some thread then pure (k, { mutex with hold := mutex.hold + 1 }, some .eok)
  else rtMutexTakeAgain thread i time mutex k

/-- What follows `rt_schedule` in `rt_mutex_take`. -/
def rtMutexTakeReturn (thread : T) (i : I) (time : Tick) (mutex : Mutex T) (k : State T U I) :
    Exec (State T U I × Mutex T × Option Err) :=
  if (k.thread thread).error ≠ .eok then
    if (k.thread thread).error = .eintr then rtMutexTakeAgain thread i time mutex k
    else pure (k, mutex, some (k.thread thread).error)
  else pure (k, mutex, some .eok)

/-- `rt_mutex_release`, called by the running thread, up to the `rt_schedule` that follows where a
    thread was resumed. -/
def rtMutexRelease (thread : T) (i : I) (mutex : Mutex T) (k : State T U I) :
    Exec (State T U I × Mutex T × Err) :=
  if mutex.owner ≠ some thread then pure (k.setError thread .error, mutex, .error)
  else
    let mutex := { mutex with hold := mutex.hold - 1 }
    if mutex.hold ≠ 0 then pure (k, mutex, .eok)
    else do
      let k ← changeToOriginalPriority thread mutex.originalPriority k
      match k.tlist.next (.inl (.suspend i)) with
      | .inl _ =>
        pure (k, { mutex with
          value := mutex.value + 1, owner := none, originalPriority := 0xff }, .eok)
      | .inr waiter =>
        let mutex := { mutex with
          owner := some waiter
          originalPriority := (k.thread waiter).currentPriority
          hold := mutex.hold + 1 }
        let k ← k.rtIpcListResume i
        pure (k, mutex, .eok)

end Code

namespace Mutex

variable {T : Type}

/-- What the calls do to a mutex. -/
def nest (mutex : Mutex T) : Mutex T := { mutex with hold := mutex.hold + 1 }

def unnest (mutex : Mutex T) : Mutex T := { mutex with hold := mutex.hold - 1 }

def acquire (t : T) (priority : Nat) (mutex : Mutex T) : Mutex T :=
  { mutex with
    value := mutex.value - 1
    owner := some t
    originalPriority := priority
    hold := mutex.hold + 1 }

def free (mutex : Mutex T) : Mutex T :=
  { mutex with
    value := mutex.value + 1
    owner := none
    originalPriority := 0xff
    hold := mutex.hold - 1 }

def handOver (t : T) (priority : Nat) (mutex : Mutex T) : Mutex T :=
  { mutex with
    owner := some t
    originalPriority := priority
    hold := mutex.hold - 1 + 1 }

end Mutex

/-- The kernel, the mutexes, and where threads wait in `rt_mutex_take`. -/
structure Mutexes (T U I : Type) where
  kernel : State T U I
  mutex : I → Mutex T
  place : T → Option I
  /-- The waiting time of the call that a thread waits in. -/
  time : T → Tick
  /-- How many takes of a thread have returned `RT_EOK`. -/
  taken : I → T → Nat
  /-- How many releases of a thread have returned `RT_EOK`. -/
  released : I → T → Nat
  /-- The priority of a thread before it held any mutex. -/
  base : T → Nat
  /-- The owner had another priority than that when it got the mutex. -/
  boosted : I → Bool

/-- A call, or what else goes on. -/
inductive MutexCall (T U I : Type) where
  | take (t : T) (i : I) (time : Tick)
  /-- `rt_schedule` returns to a thread that waited. -/
  | returns (t : T)
  | release (t : T) (i : I)
  | changePriority (t : T) (priority : Fin rtThreadPriorityMax)
  | elsewhere (k : State T U I)

namespace Mutexes

variable {T U I : Type} [DecidableEq T] [DecidableEq I]

/-- A mutex and the kernel after a stretch of a call; a new owner is noted. -/
def store (i : I) (mutex : Mutex T) (k : State T U I) (s : Mutexes T U I) : Mutexes T U I :=
  { s with
    kernel := k
    mutex := Function.update s.mutex i mutex
    boosted :=
      match mutex.owner with
      | none => s.boosted
      | some t =>
        if (s.mutex i).owner = some t then s.boosted
        else Function.update s.boosted i
          (decide ((s.kernel.thread t).currentPriority ≠ s.base t)) }

/-- What follows from a stretch of `rt_mutex_take`. -/
def taking (t : T) (i : I) (time : Tick) (out : State T U I × Mutex T × Option Err)
    (s : Mutexes T U I) : Mutexes T U I :=
  let (k, mutex, err) := out
  let s := s.store i mutex k
  match err with
  | none => { s with
    place := Function.update s.place t (some i)
    time := Function.update s.time t time }
  | some .eok => { s with
    place := Function.update s.place t none
    taken := Function.update s.taken i (Function.update (s.taken i) t (s.taken i t + 1)) }
  | some _ => { s with place := Function.update s.place t none }

section

variable [DecidableEq U] [Fintype T] [Fintype U]

def take (t : T) (i : I) (time : Tick) (s : Mutexes T U I) : Exec (Mutexes T U I) := do
  let out ← rtMutexTake t i time (s.mutex i) s.kernel
  pure (s.taking t i time out)

def returns (t : T) (i : I) (s : Mutexes T U I) : Exec (Mutexes T U I) := do
  let out ← rtMutexTakeReturn t i (s.time t) (s.mutex i) s.kernel
  pure (s.taking t i (s.time t) out)

/-- What follows from `rt_mutex_release`. -/
def releasing (t : T) (i : I) (out : State T U I × Mutex T × Err) (s : Mutexes T U I) :
    Mutexes T U I :=
  let (k, mutex, err) := out
  let s := s.store i mutex k
  if err = .eok then
    { s with
      released := Function.update s.released i
        (Function.update (s.released i) t (s.released i t + 1)) }
  else s

def release (t : T) (i : I) (s : Mutexes T U I) : Exec (Mutexes T U I) := do
  let out ← rtMutexRelease t i (s.mutex i) s.kernel
  pure (s.releasing t i out)

/-- `t` runs and is in no call. -/
def Free (s : Mutexes T U I) (t : T) : Prop := s.kernel.Running t ∧ s.place t = none

instance (s : Mutexes T U I) (t : T) : Decidable (s.Free t) := by
  unfold Free State.Running
  infer_instance

inductive Step (cb : State.Callback T U I) (s : Mutexes T U I) :
    MutexCall T U I → Mutexes T U I → Prop where
  | take {s' : Mutexes T U I} (t : T) (i : I) (time : Tick) : s.Free t →
      s.take t i time = .ok s' → Step cb s (.take t i time) s'
  | returns {s' : Mutexes T U I} (t : T) (i : I) : s.kernel.Running t → s.place t = some i →
      s.returns t i = .ok s' → Step cb s (.returns t) s'
  | release {s' : Mutexes T U I} (t : T) (i : I) : s.Free t → s.release t i = .ok s' →
      Step cb s (.release t i) s'
  | changePriority {k : State T U I} (t : T) (priority : Fin rtThreadPriorityMax) :
      s.kernel.rtThreadControl t (.changePriority priority) = .ok k →
      Step cb s (.changePriority t priority) { s with kernel := k }
  | elsewhere {k : State T U I} : State.Elsewhere cb (fun t => s.place t ≠ none) s.kernel k →
      Step cb s (.elsewhere k) { s with kernel := k }

/-- Runs of calls that `may` allows at the state they come in. -/
abbrev Runs (cb : State.Callback T U I) (may : Mutexes T U I → MutexCall T U I → Prop) :
    Mutexes T U I → Mutexes T U I → Prop :=
  Relation.ReflTransGen fun s s' => ∃ call, may s call ∧ Step cb s call s'

/-- Any kernel state a run reaches in which no thread waits for a mutex, and mutexes as
    `rt_mutex_init` leaves them. -/
structure Initial (cb : State.Callback T U I) (s : Mutexes T U I) : Prop where
  reached : ∃ k₀, State.Initial k₀ ∧ State.Runs cb k₀ s.kernel
  empty : ∀ i, rtListIsempty (.inl (.suspend i)) s.kernel.tlist = true
  mutex : ∀ i, ∃ flag, s.mutex i = rtMutexInit flag
  place : ∀ t, s.place t = none
  taken : ∀ i t, s.taken i t = 0
  released : ∀ i t, s.released i t = 0
  base : ∀ t, s.base t = (s.kernel.thread t).currentPriority

end

section Fields

variable (s : Mutexes T U I) (t : T) (i : I) (time : Tick) (k : State T U I) (mutex : Mutex T)
  (out : Option Err) (err : Err)

@[simp] theorem taking_kernel : (s.taking t i time (k, mutex, out)).kernel = k := by
  simp only [taking]
  split <;> rfl

@[simp] theorem taking_mutex :
    (s.taking t i time (k, mutex, out)).mutex = Function.update s.mutex i mutex := by
  simp only [taking]
  split <;> rfl

@[simp] theorem taking_place : (s.taking t i time (k, mutex, out)).place =
    Function.update s.place t (if out = none then some i else none) := by
  simp only [taking]
  split <;> simp [store]

@[simp] theorem taking_taken : (s.taking t i time (k, mutex, out)).taken =
    if out = some .eok then
      Function.update s.taken i (Function.update (s.taken i) t (s.taken i t + 1))
    else s.taken := by
  simp only [taking]
  split <;> simp_all [store]

@[simp] theorem taking_released : (s.taking t i time (k, mutex, out)).released = s.released := by
  simp only [taking]
  split <;> rfl

@[simp] theorem taking_base : (s.taking t i time (k, mutex, out)).base = s.base := by
  simp only [taking]
  split <;> rfl

@[simp] theorem taking_boosted :
    (s.taking t i time (k, mutex, out)).boosted = (s.store i mutex k).boosted := by
  simp only [taking]
  split <;> rfl

@[simp] theorem releasing_kernel : (s.releasing t i (k, mutex, err)).kernel = k := by
  simp only [releasing]
  split <;> rfl

@[simp] theorem releasing_mutex :
    (s.releasing t i (k, mutex, err)).mutex = Function.update s.mutex i mutex := by
  simp only [releasing]
  split <;> rfl

@[simp] theorem releasing_place : (s.releasing t i (k, mutex, err)).place = s.place := by
  simp only [releasing]
  split <;> rfl

@[simp] theorem releasing_taken : (s.releasing t i (k, mutex, err)).taken = s.taken := by
  simp only [releasing]
  split <;> rfl

@[simp] theorem releasing_released : (s.releasing t i (k, mutex, err)).released =
    if err = .eok then
      Function.update s.released i (Function.update (s.released i) t (s.released i t + 1))
    else s.released := by
  simp only [releasing]
  split <;> rfl

@[simp] theorem releasing_base : (s.releasing t i (k, mutex, err)).base = s.base := by
  simp only [releasing]
  split <;> rfl

@[simp] theorem releasing_boosted :
    (s.releasing t i (k, mutex, err)).boosted = (s.store i mutex k).boosted := by
  simp only [releasing]
  split <;> rfl

end Fields

/-! ## What the calls do -/

section Outcomes

variable (mutex : Mutex T) (v : View T I) (t : T) (i : I)

/-- What a stretch of `rt_mutex_take` does, to the mutex and to what the objects see of the
    kernel. -/
inductive TakeOut (time : Tick) : Mutex T → Option Err → View T I → Prop where
  | nested : mutex.owner = some t → TakeOut time mutex.nest (some .eok) (v.setError t .eok)
  | acquired : mutex.owner ≠ some t → 0 < mutex.value →
      TakeOut time (mutex.acquire t (v.thread t).currentPriority) (some .eok) (v.setError t .eok)
  | refused : mutex.owner ≠ some t → ¬ 0 < mutex.value → time = 0 →
      TakeOut time mutex (some .etimeout) (v.setError t .etimeout)
  | blocked (o : T) (xs ys : List T) : mutex.owner = some o → o ≠ t → ¬ 0 < mutex.value →
      time ≠ 0 → v.waits i = xs ++ ys →
      State.View.Position mutex.flag ((v.setError t .eok).boost o (v.thread t).currentPriority) t xs ys →
      TakeOut time mutex none
        (((v.setError t .eok).boost o (v.thread t).currentPriority).enqueue i xs t ys)

/-- What `rt_mutex_release` does. -/
inductive ReleaseOut : Mutex T → Err → View T I → Prop where
  | denied : mutex.owner ≠ some t → ReleaseOut mutex .error (v.setError t .error)
  | unnested : mutex.owner = some t → mutex.hold - 1 ≠ 0 → ReleaseOut mutex.unnest .eok v
  | freed : mutex.owner = some t → mutex.hold - 1 = 0 → v.waits i = [] →
      ReleaseOut mutex.free .eok (v.restore t mutex.originalPriority)
  | handed (u : T) (rest : List T) : mutex.owner = some t → mutex.hold - 1 = 0 →
      v.waits i = u :: rest → u ≠ t →
      ReleaseOut (mutex.handOver u (v.thread u).currentPriority) .eok
        ((v.restore t mutex.originalPriority).wake u)

end Outcomes

variable [DecidableEq U] {lo : Int} {k k' : State T U I} {v v' : View T I} {t : T} {i : I}
  {time : Tick} {mutex mutex' : Mutex T} {out : Option Err} {err : Err}

theorem changeOwnerPriority_shows (hs : State.Shows lo k v) {o : T}
    (h : changeOwnerPriority t o k = .ok k') :
    State.Shows lo k' (v.boost o (v.thread t).currentPriority) := by
  unfold changeOwnerPriority at h
  unfold View.boost
  rw [hs.thread] at h
  split at h
  case isTrue hlt =>
    rw [if_pos hlt]
    exact hs.changePriority (hs.priority_lt t) h
  case isFalse hge =>
    rw [if_neg hge]
    simp only [exec_pure_ok] at h
    exact h ▸ hs

/-- A ready thread gets no priority that there is no ready list for. -/
theorem changeToOriginalPriority_shows (hs : State.Shows lo k v)
    (hready : (v.thread t).stat = .ready) {priority : Nat}
    (h : changeToOriginalPriority t priority k = .ok k') :
    State.Shows lo k' (v.restore t priority) := by
  unfold changeToOriginalPriority at h
  unfold View.restore
  rw [hs.thread] at h
  split at h
  case isTrue hne =>
    have hlt : priority < rtThreadPriorityMax := by
      have hcontrol := h
      simp only [State.rtThreadControl, exec_bind_ok] at hcontrol
      obtain ⟨_, -, hcontrol⟩ := hcontrol
      rw [if_pos (by simpa [hs.thread] using hready)] at hcontrol
      simp only [exec_bind_ok] at hcontrol
      obtain ⟨k₁, -, hinsert⟩ := hcontrol
      simpa using (State.rtScheduleInsertThread_eq hinsert).1
    rw [if_pos hne]
    exact hs.changePriority hlt h
  case isFalse hsame =>
    rw [if_neg hsame]
    simp only [exec_pure_ok] at h
    exact h ▸ hs

variable [Fintype T] [Fintype U]

theorem rtMutexTake_out (hs : State.Shows lo k v) (hready : (v.thread t).stat = .ready)
    (h : rtMutexTake t i time mutex k = .ok (k', mutex', out)) :
    ∃ v', State.Shows lo k' v' ∧ TakeOut mutex v t i time mutex' out v' := by
  have hs₁ : State.Shows lo (k.setError t .eok) (v.setError t .eok) := hs.setError .eok
  have hpriority : ∀ u, ((k.setError t .eok).thread u).currentPriority =
      (v.thread u).currentPriority := by
    intro u
    rw [hs₁.thread, View.setError_priority]
  simp only [rtMutexTake, rtMutexTakeAgain] at h
  split at h
  case isTrue howner =>
    simp only [exec_pure_ok, Prod.mk.injEq] at h
    obtain ⟨rfl, rfl, rfl⟩ := h
    exact ⟨_, hs₁, .nested howner⟩
  case isFalse howner =>
    split at h
    case isTrue hpos =>
      simp only [exec_pure_ok, Prod.mk.injEq, hpriority] at h
      obtain ⟨rfl, rfl, rfl⟩ := h
      exact ⟨_, hs₁, .acquired howner hpos⟩
    case isFalse hzero =>
      split at h
      case isTrue htime =>
        -- no waiting
        simp only [exec_pure_ok, Prod.mk.injEq] at h
        obtain ⟨rfl, rfl, rfl⟩ := h
        have hs₂ := hs₁.setError (t := t) .etimeout
        have hsame : (v.setError t .eok).modifyThread t (fun th => { th with error := .etimeout }) =
            v.setError t .etimeout := by
          simp [View.setError, View.modifyThread]
        exact ⟨_, hsame ▸ hs₂, .refused howner hzero htime⟩
      case isFalse htime =>
        cases ho : mutex.owner with
        | none => simp [ho] at h
        | some o =>
          simp only [ho, exec_bind_ok, exec_pure_ok, Prod.mk.injEq] at h
          obtain ⟨k₁, hboost, k₂, hwait, rfl, rfl, rfl⟩ := h
          have hs₂ := changeOwnerPriority_shows hs₁ hboost
          rw [View.setError_priority] at hs₂
          obtain ⟨xs, ys, hsplit, hposition, hs₃⟩ := hs₂.waitOn (by simpa using hready) hwait
          rw [View.boost_waits, View.setError_waits] at hsplit
          refine ⟨_, hs₃, .blocked o xs ys ho ?_ hzero htime hsplit hposition⟩
          rintro rfl
          exact howner ho

theorem rtMutexRelease_out (hs : State.Shows lo k v) (hready : (v.thread t).stat = .ready)
    (h : rtMutexRelease t i mutex k = .ok (k', mutex', err)) :
    ∃ v', State.Shows lo k' v' ∧ ReleaseOut mutex v t i mutex' err v' := by
  simp only [rtMutexRelease] at h
  split at h
  case isTrue howner =>
    simp only [exec_pure_ok, Prod.mk.injEq] at h
    obtain ⟨rfl, rfl, rfl⟩ := h
    exact ⟨_, hs.setError .error, .denied howner⟩
  case isFalse howner =>
    rw [not_not] at howner
    split at h
    case isTrue hnested =>
      simp only [exec_pure_ok, Prod.mk.injEq] at h
      obtain ⟨rfl, rfl, rfl⟩ := h
      exact ⟨v, hs, .unnested howner hnested⟩
    case isFalse hlast =>
      rw [not_not] at hlast
      simp only [exec_bind_ok] at h
      obtain ⟨k₁, hrestore, h⟩ := h
      have hs₁ := changeToOriginalPriority_shows hs hready hrestore
      rw [hs₁.next_head i, View.restore_waits] at h
      cases hlist : v.waits i with
      | nil =>
        simp only [hlist, RingList.firstOr_nil, exec_pure_ok, Prod.mk.injEq] at h
        obtain ⟨rfl, rfl, rfl⟩ := h
        exact ⟨_, hs₁, .freed howner hlast hlist⟩
      | cons u rest =>
        simp only [hlist, RingList.firstOr_cons, exec_bind_ok, exec_pure_ok, Prod.mk.injEq] at h
        obtain ⟨k₂, hresume, rfl, rfl, rfl⟩ := h
        have hu : (v.thread u).stat = .suspend := hs.suspended (i := i) (by simp [hlist])
        have hne : u ≠ t := by
          rintro rfl
          rw [hready] at hu
          cases hu
        obtain ⟨w, rest', hlist', hs₂⟩ := hs₁.rtIpcListResume hresume
        rw [View.restore_waits, hlist, List.cons.injEq] at hlist'
        obtain ⟨rfl, rfl⟩ := hlist'
        have hpriority : (k₁.thread u).currentPriority = (v.thread u).currentPriority := by
          rw [hs₁.thread, View.restore_priority, if_neg hne]
        rw [hpriority]
        exact ⟨_, hs₂, .handed u rest howner hlast hlist hne⟩

end Mutexes

end PandoraRobot.Ipc
