import PandoraRobot.Ipc.Mutex
import PandoraRobot.Kernel.WaitOrder

/-! # Waiting by priority

The threads that wait on IPC objects.  The objects of `ipc.c` put the running thread into their
wait list, resume the thread in front, a thread of their choice or all threads, and change the
errors of threads; mutexes change priorities as well, and their calls are here as they are, with
whatever a mutex has in its fields.
-/

namespace PandoraRobot.Ipc

open PandoraRobot.Kernel PandoraRobot.RankedList

/-- The kernel, and when threads began to wait. -/
structure Waiters (T U I : Type) where
  kernel : State T U I
  /-- How many waits have begun. -/
  begun : Nat
  /-- How many had begun before the last one of a thread. -/
  since : T → Nat
  /-- Whether the priority of a thread has changed since it began to wait. -/
  changed : T → Bool

/-- What the calls on IPC objects are made of, and what else goes on. -/
inductive WaitCall (T U I : Type) where
  | kernel (op : KernelOp T U I)
  | setError (t : T) (err : Err)
  /-- `rt_ipc_list_suspend` of the running thread, whose timer is started. -/
  | suspend (i : I) (t : T) (time : Tick)
  | resumeAll (i : I)
  | take (t : T) (i : I) (time : Tick) (mutex : Mutex T)
  | takeReturn (t : T) (i : I) (time : Tick) (mutex : Mutex T)
  | release (t : T) (i : I) (mutex : Mutex T)
  | idle (fuel : Nat)
  | tick (fuel : Nat)
  | start

section Code

variable {T U I : Type} [DecidableEq T] [DecidableEq U] [DecidableEq I] [Fintype T] [Fintype U]

namespace WaitCall

/-- Where a call of `rt_mutex_take` leaves the kernel, and whether its thread waits. -/
def taken (t : T) (out : State T U I × Mutex T × Option Err) : State T U I × Option T :=
  (out.1, if out.2.2 = none then some t else none)

/-- The kernel after a call, and the thread that begins to wait. -/
def exec (cb : State.Callback T U I) (flag : I → IpcFlag) (k : State T U I) :
    WaitCall T U I → Exec (State T U I × Option T)
  | kernel op => do
    let k ← op.exec k
    pure (k, none)
  | setError t err => pure (k.setError t err, none)
  | suspend i t time => do
    let k ← k.waitOn i t (flag i) time
    pure (k, some t)
  | resumeAll i => do
    let k ← State.rtIpcListResumeAll i (Fintype.card T + 1) k
    pure (k, none)
  | take t i time mutex => do
    let out ← rtMutexTake t i time mutex k
    pure (taken t out)
  | takeReturn t i time mutex => do
    let out ← rtMutexTakeReturn t i time mutex k
    pure (taken t out)
  | release t i mutex => do
    let (k, _, _) ← rtMutexRelease t i mutex k
    pure (k, none)
  | idle fuel => do
    let k ← k.rtThreadIdleExcute fuel
    pure (k, none)
  | tick fuel => do
    let k ← k.rtTickIncrease (State.timeoutFunc cb) fuel
    pure (k, none)
  | start => do
    let k ← k.rtSystemSchedulerStart
    pure (k, none)

/-- Calls of objects are made by the running thread, and the flag of an object stays. -/
def Legal (flag : I → IpcFlag) (k : State T U I) : WaitCall T U I → Prop
  | suspend _ t _ => k.Running t
  | take t i _ mutex | takeReturn t i _ mutex | release t i mutex =>
    k.Running t ∧ mutex.flag = flag i
  | _ => True

/-- A thread that has to wait for a mutex lends its priority to the owner. -/
def Lends (t owner : T) (time : Tick) (mutex : Mutex T) (k : State T U I) : Prop :=
  mutex.owner = some owner ∧ ¬ 0 < mutex.value ∧ time ≠ 0 ∧ k.priority t < k.priority owner

/-- The call moves no thread that waits by priority past its neighbours. -/
def Orderly (cb : State.Callback T U I) (flag : I → IpcFlag) (k : State T U I) :
    WaitCall T U I → Prop
  | kernel op => op.Orderly flag k
  | take t _ time mutex =>
    ∀ owner, owner ≠ t → Lends t owner time mutex k → k.InPlace flag owner (k.priority t)
  | takeReturn t _ time mutex =>
    (k.thread t).error = .eintr →
      ∀ owner, Lends t owner time mutex k → k.InPlace flag owner (k.priority t)
  | tick _ => k.TickOrderly cb flag
  | _ => True

end WaitCall

namespace Waiters

/-- What is known of a thread after a call: it begins to wait, or its priority may have
    changed. -/
def after (k : State T U I) (begins : Option T) (w : Waiters T U I) : Waiters T U I where
  kernel := k
  begun := if begins = none then w.begun else w.begun + 1
  since t := if begins = some t then w.begun else w.since t
  changed t :=
    if begins = some t then false
    else w.changed t || decide (k.priority t ≠ w.kernel.priority t)

inductive Step (cb : State.Callback T U I) (flag : I → IpcFlag) (w : Waiters T U I)
    (call : WaitCall T U I) : Waiters T U I → Prop where
  | call {k : State T U I} {begins : Option T} : call.Legal flag w.kernel →
      call.exec cb flag w.kernel = .ok (k, begins) → Step cb flag w call (w.after k begins)

/-- Runs of calls that `may` allows at the state they come in. -/
abbrev Runs (cb : State.Callback T U I) (flag : I → IpcFlag)
    (may : Waiters T U I → WaitCall T U I → Prop) : Waiters T U I → Waiters T U I → Prop :=
  Relation.ReflTransGen fun w w' => ∃ call, may w call ∧ Step cb flag w call w'

def priority (w : Waiters T U I) (t : T) : Nat := w.kernel.priority t

/-- The threads in the wait list of `i`. -/
def waiters (i : I) (w : Waiters T U I) : List T := w.kernel.waiters i

/-- The wait list of `i` is in the order of the priorities. -/
def Ordered (w : Waiters T U I) (i : I) : Prop := Ranked w.priority (w.waiters i)

/-- `rt_ipc_list_resume` resumes a thread that is as urgent as any other that waits, and none that
    is as urgent waits for longer, if neither has changed its priority meanwhile. -/
def WakesMostUrgent (w : Waiters T U I) (i : I) : Prop :=
  w.waiters i ≠ [] → ∃ t ∈ w.waiters i, ∃ k, w.kernel.rtIpcListResume i = .ok k ∧
    (k.thread t).stat = .ready ∧ k.waiters i = (w.waiters i).erase t ∧
      ∀ u ∈ w.waiters i, w.priority t ≤ w.priority u ∧
        (u ≠ t → w.priority t = w.priority u → w.changed t = false → w.changed u = false →
          w.since t < w.since u)

end Waiters

/-! ## What the calls do -/

/-- Threads leave the wait lists, and a thread that begins to wait goes into one. -/
inductive Waits (flag : I → IpcFlag) (v : View T I) : Option T → View T I → Prop where
  | narrows {v' : View T I} : v.Narrows flag v' → Waits flag v none v'
  | enqueues {v₁ : View T I} (i : I) (t : T) (xs ys : List T) : (v.thread t).stat = .ready →
      v.Narrows flag v₁ → v₁.waits i = xs ++ ys → State.View.Position (flag i) v₁ t xs ys →
      Waits flag v (some t) (v₁.enqueue i xs t ys)

variable {cb : State.Callback T U I} {flag : I → IpcFlag} {lo : Int} {k k' : State T U I}
  {v v' : View T I} {t : T} {i : I} {time : Tick} {mutex mutex' : Mutex T} {out : Option Err}
  {err : Err} {begins : Option T}

omit [Fintype T] in
theorem Waits.after {v₁ : View T I} (hn : v.Narrows flag v₁)
    (hstat : ∀ t, (v₁.thread t).stat = .ready → (v.thread t).stat = .ready)
    (h : Waits flag v₁ begins v') : Waits flag v begins v' := by
  cases h with
  | narrows hn' => exact .narrows (hn.trans hn')
  | enqueues i t xs ys hready hn' hsplit hposition =>
    exact .enqueues i t xs ys (hstat t hready) (hn.trans hn') hsplit hposition

omit [DecidableEq I] [Fintype T] in
theorem narrows_setError (t : T) (err : Err) : v.Narrows flag (v.setError t err) := .modify rfl

/-- `rt_mutex_take` from `__again` on. -/
theorem rtMutexTakeAgain_waits (hs : State.Shows lo k v) (hready : (v.thread t).stat = .ready)
    (hflag : mutex.flag = flag i)
    (hplace : ∀ owner, WaitCall.Lends t owner time mutex k → k.InPlace flag owner (k.priority t))
    (h : rtMutexTakeAgain t i time mutex k = .ok (k', mutex', out)) :
    ∃ v', State.Shows lo k' v' ∧ Waits flag v (if out = none then some t else none) v' := by
  rw [rtMutexTakeAgain] at h
  split at h
  case isTrue hpos =>
    simp only [exec_pure_ok, Prod.mk.injEq] at h
    obtain ⟨rfl, -, rfl⟩ := h
    exact ⟨v, hs, .narrows (.refl v)⟩
  case isFalse hzero =>
    split at h
    case isTrue htime =>
      simp only [exec_pure_ok, Prod.mk.injEq] at h
      obtain ⟨rfl, -, rfl⟩ := h
      exact ⟨_, hs.setError .etimeout, .narrows (narrows_setError t .etimeout)⟩
    case isFalse htime =>
      cases howner : mutex.owner with
      | none => simp [howner] at h
      | some owner =>
        simp only [howner, exec_bind_ok, exec_pure_ok, Prod.mk.injEq] at h
        obtain ⟨k₁, hlend, k₂, hwait, rfl, -, rfl⟩ := h
        have hs₁ := Mutexes.changeOwnerPriority_shows hs hlend
        obtain ⟨xs, ys, hsplit, hposition, hs₂⟩ := hs₁.waitOn (by simpa using hready) hwait
        rw [hflag] at hposition
        refine ⟨_, hs₂, .enqueues i t xs ys hready ?_ hsplit hposition⟩
        -- the owner is in order where it waits, if it gets the priority
        unfold View.boost
        split
        case isTrue hless =>
          have hlends : WaitCall.Lends t owner time mutex k := by
            refine ⟨howner, hzero, htime, ?_⟩
            rw [hs.priority]
            exact hless
          have hfits := hs.inPlace_iff.mp (hplace owner hlends)
          rw [hs.priority] at hfits
          exact .setPriority hs.nodup hfits
        case isFalse => exact .refl v

theorem rtMutexTake_waits (hs : State.Shows lo k v) (hready : (v.thread t).stat = .ready)
    (hflag : mutex.flag = flag i)
    (hplace : ∀ owner, owner ≠ t → WaitCall.Lends t owner time mutex k →
      k.InPlace flag owner (k.priority t))
    (h : rtMutexTake t i time mutex k = .ok (k', mutex', out)) :
    ∃ v', State.Shows lo k' v' ∧ Waits flag v (if out = none then some t else none) v' := by
  have hs₁ : State.Shows lo (k.setError t .eok) (v.setError t .eok) := hs.setError .eok
  rw [rtMutexTake] at h
  split at h
  case isTrue howner =>
    simp only [exec_pure_ok, Prod.mk.injEq] at h
    obtain ⟨rfl, -, rfl⟩ := h
    exact ⟨_, hs₁, .narrows (narrows_setError t .eok)⟩
  case isFalse howner =>
    have hlends : ∀ owner, WaitCall.Lends t owner time mutex (k.setError t .eok) →
        (k.setError t .eok).InPlace flag owner ((k.setError t .eok).priority t) := by
      rintro owner ⟨ho, hrest⟩
      have hne : owner ≠ t := by
        rintro rfl
        exact howner ho
      rw [hs.priority_setError] at hrest ⊢
      exact hs.inPlace_setError.mpr (hplace owner hne ⟨ho, hrest⟩)
    obtain ⟨v', hs', hw⟩ := rtMutexTakeAgain_waits hs₁ (by simpa using hready) hflag hlends h
    exact ⟨v', hs', hw.after (narrows_setError t .eok) (by simp)⟩

theorem rtMutexTakeReturn_waits (hs : State.Shows lo k v) (hready : (v.thread t).stat = .ready)
    (hflag : mutex.flag = flag i)
    (hplace : (k.thread t).error = .eintr → ∀ owner, WaitCall.Lends t owner time mutex k →
      k.InPlace flag owner (k.priority t))
    (h : rtMutexTakeReturn t i time mutex k = .ok (k', mutex', out)) :
    ∃ v', State.Shows lo k' v' ∧ Waits flag v (if out = none then some t else none) v' := by
  rw [rtMutexTakeReturn] at h
  split at h
  case isTrue herror =>
    split at h
    case isTrue hintr => exact rtMutexTakeAgain_waits hs hready hflag (hplace hintr) h
    case isFalse =>
      simp only [exec_pure_ok, Prod.mk.injEq] at h
      obtain ⟨rfl, -, rfl⟩ := h
      exact ⟨v, hs, .narrows (.refl v)⟩
  case isFalse =>
    simp only [exec_pure_ok, Prod.mk.injEq] at h
    obtain ⟨rfl, -, rfl⟩ := h
    exact ⟨v, hs, .narrows (.refl v)⟩

omit [DecidableEq U] [DecidableEq I] [Fintype T] [Fintype U] in
theorem narrows_restore (hs : State.Shows lo k v) (hready : (v.thread t).stat = .ready)
    (priority : Nat) : v.Narrows flag (v.restore t priority) := by
  refine .ofSub (fun i => ?_) fun i u hu => ?_
  · rw [View.restore_waits]
  · have hne : u ≠ t := by
      rintro rfl
      rw [View.restore_waits] at hu
      rw [hs.suspended hu] at hready
      cases hready
    rw [View.priority, View.restore_priority, if_neg hne, View.priority]

theorem rtMutexRelease_narrows (hs : State.Shows lo k v) (hready : (v.thread t).stat = .ready)
    (h : rtMutexRelease t i mutex k = .ok (k', mutex', err)) :
    ∃ v', State.Shows lo k' v' ∧ v.Narrows flag v' := by
  obtain ⟨v', hs', hout⟩ := Mutexes.rtMutexRelease_out hs hready h
  refine ⟨v', hs', ?_⟩
  cases hout with
  | denied => exact narrows_setError t .error
  | unnested => exact .refl v
  | freed => exact narrows_restore hs hready _
  | handed u => exact (narrows_restore hs hready _).trans (.wake u)

theorem rtIpcListResumeAll_narrows (hs : State.Shows lo k v)
    (h : State.rtIpcListResumeAll i (Fintype.card T + 1) k = .ok k') :
    ∃ v', State.Shows lo k' v' ∧ v.Narrows flag v' := by
  have hfuel : (v.waits i).length < Fintype.card T + 1 :=
    Nat.lt_succ_of_le (hs.nodup i).length_le_card
  obtain ⟨k₁, v', hall, hs', -, hsteps⟩ := hs.rtIpcListResumeAll hfuel
  obtain rfl : k₁ = k' := by simpa [h] using hall.symm
  refine ⟨v', hs', ?_⟩
  clear hs' hall
  induction hsteps with
  | refl => exact .refl v
  | tail _ hstep ih =>
    cases hstep with
    | abort t hm => exact (ih.trans (.wake t)).trans (.modify rfl)

/-- What a call does to the wait lists. -/
theorem exec_waits {cb : State.Callback T U I} (hs : State.Shows 0 k v) {call : WaitCall T U I}
    (hlegal : call.Legal flag k) (horder : call.Orderly cb flag k)
    (h : call.exec cb flag k = .ok (k', begins)) :
    ∃ v', State.Shows 0 k' v' ∧ Waits flag v begins v' := by
  -- only the calls that wait put a thread in a list, and the others take some out
  cases call with
  | kernel op =>
    simp only [WaitCall.exec, exec_bind_ok, exec_pure_ok, Prod.mk.injEq] at h
    obtain ⟨k₁, hexec, rfl, rfl⟩ := h
    obtain ⟨v', hs', hn⟩ := hs.exec horder hexec
    exact ⟨v', hs', .narrows hn⟩
  | setError t err =>
    simp only [WaitCall.exec, exec_pure_ok, Prod.mk.injEq] at h
    obtain ⟨rfl, rfl⟩ := h
    exact ⟨_, hs.setError err, .narrows (narrows_setError t err)⟩
  | suspend i t time =>
    have hready : (v.thread t).stat = .ready := hs.thread ▸ hlegal.2
    simp only [WaitCall.exec, exec_bind_ok, exec_pure_ok, Prod.mk.injEq] at h
    obtain ⟨k₁, hwait, rfl, rfl⟩ := h
    obtain ⟨xs, ys, hsplit, hposition, hs'⟩ := hs.waitOn hready hwait
    exact ⟨_, hs', .enqueues i t xs ys hready (.refl v) hsplit hposition⟩
  | resumeAll i =>
    simp only [WaitCall.exec, exec_bind_ok, exec_pure_ok, Prod.mk.injEq] at h
    obtain ⟨k₁, hall, rfl, rfl⟩ := h
    obtain ⟨v', hs', hn⟩ := rtIpcListResumeAll_narrows hs hall
    exact ⟨v', hs', .narrows hn⟩
  | take t i time mutex =>
    have hready : (v.thread t).stat = .ready := hs.thread ▸ hlegal.1.2
    simp only [WaitCall.exec, exec_bind_ok, exec_pure_ok] at h
    obtain ⟨⟨k₁, mutex₁, err⟩, htake, heq⟩ := h
    obtain ⟨rfl, rfl⟩ := Prod.mk.inj heq
    exact rtMutexTake_waits hs hready hlegal.2 horder htake
  | takeReturn t i time mutex =>
    have hready : (v.thread t).stat = .ready := hs.thread ▸ hlegal.1.2
    simp only [WaitCall.exec, exec_bind_ok, exec_pure_ok] at h
    obtain ⟨⟨k₁, mutex₁, err⟩, htake, heq⟩ := h
    obtain ⟨rfl, rfl⟩ := Prod.mk.inj heq
    exact rtMutexTakeReturn_waits hs hready hlegal.2 horder htake
  | release t i mutex =>
    have hready : (v.thread t).stat = .ready := hs.thread ▸ hlegal.1.2
    simp only [WaitCall.exec, exec_bind_ok, exec_pure_ok, Prod.mk.injEq] at h
    obtain ⟨⟨k₁, mutex₁, err⟩, hrelease, rfl, rfl⟩ := h
    obtain ⟨v', hs', hn⟩ := rtMutexRelease_narrows hs hready hrelease
    exact ⟨v', hs', .narrows hn⟩
  | idle fuel =>
    simp only [WaitCall.exec, exec_bind_ok, exec_pure_ok, Prod.mk.injEq] at h
    obtain ⟨k₁, hidle, rfl, rfl⟩ := h
    obtain ⟨v', hs', hn⟩ := hs.idle hidle
    exact ⟨v', hs', .narrows hn⟩
  | tick fuel =>
    simp only [WaitCall.exec, exec_bind_ok, exec_pure_ok, Prod.mk.injEq] at h
    obtain ⟨k₁, htick, rfl, rfl⟩ := h
    obtain ⟨v', hs', hn⟩ := hs.tick horder htick
    exact ⟨v', hs', .narrows hn⟩
  | start =>
    simp only [WaitCall.exec, exec_bind_ok, exec_pure_ok, Prod.mk.injEq] at h
    obtain ⟨k₁, hstart, rfl, rfl⟩ := h
    exact ⟨v, hs.start hstart, .narrows (.refl v)⟩

/-! ## A change of a priority out of place -/

/-- The wait lists by priority are in order. -/
def AllRanked (flag : I → IpcFlag) (k : State T U I) : Prop :=
  ∀ i, flag i = .prio → Ranked k.priority (k.waiters i)

omit [DecidableEq U] [DecidableEq I] [Fintype U] in
theorem changePriority_inPlace (hs : State.Shows lo k v) (hr : AllRanked flag k) {priority : Nat}
    (hs' : State.Shows lo k' (v.setPriority t priority)) (hr' : AllRanked flag k') :
    k.InPlace flag t priority := by
  refine hs.inPlace_iff.mpr fun i hflag => ?_
  have hbefore : Ranked v.priority (v.waits i) := by
    rw [← hs.priority, ← hs.waiters]
    exact hr i hflag
  have hafter : Ranked (v.setPriority t priority).priority (v.waits i) := by
    have hwaiters : k'.waiters i = v.waits i := hs'.waiters i
    rw [← hs'.priority, ← hwaiters]
    exact hr' i hflag
  exact (View.ranked_setPriority_iff (hs.nodup i) hbefore).mp hafter

theorem rtMutexTakeAgain_inPlace (hs : State.Shows lo k v) (hready : (v.thread t).stat = .ready)
    (hr : AllRanked flag k) (h : rtMutexTakeAgain t i time mutex k = .ok (k', mutex', out))
    (hr' : AllRanked flag k') {owner : T} (hlends : WaitCall.Lends t owner time mutex k) :
    k.InPlace flag owner (k.priority t) := by
  obtain ⟨howner, hzero, htime, hless⟩ := hlends
  rw [rtMutexTakeAgain, if_neg hzero, if_neg htime] at h
  simp only [howner, exec_bind_ok, exec_pure_ok, Prod.mk.injEq] at h
  obtain ⟨k₁, hlend, k₂, hwait, rfl, -, -⟩ := h
  have hs₁ := Mutexes.changeOwnerPriority_shows hs hlend
  obtain ⟨xs, ys, hsplit, -, hs₂⟩ := hs₁.waitOn (by simpa using hready) hwait
  -- the lists are in order before the thread is in one of them
  have hr₁ : AllRanked flag k₁ := by
    intro j hflag
    have hin := hr' j hflag
    rw [hs₂.priority, hs₂.waiters] at hin
    rw [hs₁.priority, hs₁.waiters]
    exact View.ranked_of_enqueue hsplit hin
  have hboost : v.boost owner (v.thread t).currentPriority =
      v.setPriority owner (v.thread t).currentPriority := by
    rw [hs.priority] at hless
    exact if_pos hless
  rw [hboost] at hs₁
  rw [hs.priority]
  exact changePriority_inPlace hs hr hs₁ hr₁

/-- A call that leaves the lists in order has moved no thread past its neighbours. -/
theorem exec_orderly {cb : State.Callback T U I} (hs : State.Shows 0 k v) {call : WaitCall T U I}
    (hlegal : call.Legal flag k) (htick : ∀ fuel, call ≠ .tick fuel) (hr : AllRanked flag k)
    (h : call.exec cb flag k = .ok (k', begins)) (hr' : AllRanked flag k') :
    call.Orderly cb flag k := by
  cases call with
  | kernel op =>
    simp only [WaitCall.exec, exec_bind_ok, exec_pure_ok, Prod.mk.injEq] at h
    obtain ⟨k₁, hexec, rfl, -⟩ := h
    cases op with
    | changePriority t priority =>
      exact changePriority_inPlace hs hr (hs.changePriority priority.isLt hexec) hr'
    | _ => trivial
  | take t i time mutex =>
    have hready : (v.thread t).stat = .ready := hs.thread ▸ hlegal.1.2
    simp only [WaitCall.exec, exec_bind_ok, exec_pure_ok] at h
    obtain ⟨⟨k₁, mutex₁, err⟩, htake, heq⟩ := h
    obtain ⟨rfl, -⟩ := Prod.mk.inj heq
    rintro owner hne ⟨howner, hrest⟩
    have hs₁ : State.Shows 0 (k.setError t .eok) (v.setError t .eok) := hs.setError .eok
    have hr₁ : AllRanked flag (k.setError t .eok) := by
      intro j hflag
      rw [hs.priority_setError, hs₁.waiters, View.setError_waits, ← hs.waiters]
      exact hr j hflag
    have hother : mutex.owner ≠ some t := by
      rw [howner]
      exact fun heq => hne (Option.some.inj heq)
    rw [rtMutexTake, if_neg hother] at htake
    rw [← hs.priority_setError (t := t)] at hrest ⊢
    exact hs.inPlace_setError.mp
      (rtMutexTakeAgain_inPlace hs₁ (by simpa using hready) hr₁ htake hr' ⟨howner, hrest⟩)
  | takeReturn t i time mutex =>
    have hready : (v.thread t).stat = .ready := hs.thread ▸ hlegal.1.2
    simp only [WaitCall.exec, exec_bind_ok, exec_pure_ok] at h
    obtain ⟨⟨k₁, mutex₁, err⟩, htake, heq⟩ := h
    obtain ⟨rfl, -⟩ := Prod.mk.inj heq
    intro hintr owner hlends
    rw [rtMutexTakeReturn, if_pos (by simp [hintr]), if_pos hintr] at htake
    exact rtMutexTakeAgain_inPlace hs hready hr htake hr' hlends
  | tick fuel => exact absurd rfl (htick fuel)
  | _ => trivial

namespace Waiters

/-! ## Runs -/

/-- What holds between two calls, of what the objects see of the kernel. -/
structure Inv (flag : I → IpcFlag) (w : Waiters T U I) (v : View T I) : Prop where
  shows_ : State.Shows 0 w.kernel v
  queued : ∀ i, flag i = .prio → Queued v.priority w.since w.changed (v.waits i)
  since : ∀ i, ∀ t ∈ v.waits i, w.since t < w.begun

variable {cb : State.Callback T U I} {w₀ w w' : Waiters T U I} {call : WaitCall T U I}

omit [DecidableEq T] [DecidableEq U] [DecidableEq I] [Fintype T] [Fintype U] in
theorem Inv.initial (hi : State.Initial w.kernel) : ∃ v, Inv flag w v := by
  obtain ⟨v, hs⟩ := hi.good.shows
  have hnil : ∀ i, v.waits i = [] := by
    intro i
    obtain ⟨σ, zs, hk, hwaits, -⟩ := hs
    rw [← hwaits i, RingList.Holds.unique hk.holds hi.tlist]
  refine ⟨v, hs, fun i _ => ?_, fun i t ht => ?_⟩
  · rw [hnil i]
    exact List.Pairwise.nil
  · rw [hnil i] at ht
    cases ht

section

omit [DecidableEq U] [DecidableEq I] [Fintype T] [Fintype U]

theorem after_since (ht : begins ≠ some t) : (w.after k begins).since t = w.since t := if_neg ht

theorem after_changed (ht : begins ≠ some t) : (w.after k begins).changed t =
    (w.changed t || decide (k.priority t ≠ w.kernel.priority t)) := if_neg ht

/-- The threads that go on waiting keep their order. -/
theorem Inv.kept (h : Inv flag w v) {v₁ : View T I} (hn : v.Narrows flag v₁)
    (hpriority : k.priority = v₁.priority) (hout : ∀ i, ∀ t ∈ v₁.waits i, begins ≠ some t)
    (hflag : flag i = .prio) :
    Queued v₁.priority (w.after k begins).since (w.after k begins).changed (v₁.waits i) := by
  refine (h.queued i hflag).narrow (hn.sub i) (hn.ranked i hflag (h.queued i hflag).ranked)
    (fun t ht => after_since (hout i t ht)) fun t ht hsame => ?_
  rw [after_changed (hout i t ht), Bool.or_eq_false_iff, decide_eq_false_iff_not, not_not] at hsame
  rwa [← hpriority, ← h.shows_.priority]

end

omit [DecidableEq U] [Fintype T] [Fintype U] in
theorem Inv.waits (h : Inv flag w v) (hs' : State.Shows 0 k' v') (hw : Waits flag v begins v') :
    Inv flag (w.after k' begins) v' := by
  cases hw with
  | narrows hn =>
    have hout : ∀ i, ∀ t ∈ v'.waits i, none ≠ some t := fun _ _ _ hne => nomatch hne
    exact ⟨hs', fun i hflag => h.kept hn hs'.priority hout hflag,
      fun i t ht => h.since i t ((hn.sub i).subset ht)⟩
  | @enqueues v₁ i t xs ys hready hn hsplit hposition =>
    -- a thread that is ready waits nowhere
    have hnot : ∀ j, ∀ u ∈ v₁.waits j, u ≠ t := by
      rintro j u hu rfl
      have hsuspended := h.shows_.suspended ((hn.sub j).subset hu)
      rw [hready] at hsuspended
      cases hsuspended
    have hout : ∀ j, ∀ u ∈ v₁.waits j, some t ≠ some u := fun j u hu heq =>
      hnot j u hu (Option.some.inj heq).symm
    have henqueue : (v₁.enqueue i xs t ys).priority = v₁.priority := by
      funext u
      exact View.enqueue_priority
    have hpriority : k'.priority = v₁.priority := hs'.priority.trans henqueue
    have hbegun : (w.after k' (some t)).since t = w.begun := if_pos rfl
    have hearlier : ∀ j, ∀ u ∈ v₁.waits j, (w.after k' (some t)).since u < w.begun := by
      intro j u hu
      rw [after_since (hout j u hu)]
      exact h.since j u ((hn.sub j).subset hu)
    refine ⟨hs', fun j hflag => ?_, fun j u hu => ?_⟩
    · have hkept := h.kept hn hpriority hout hflag
      rw [henqueue]
      by_cases hj : j = i
      · subst hj
        rw [hsplit] at hkept
        rw [hflag] at hposition
        rw [View.enqueue_waits, Function.update_self]
        refine hkept.insert hposition.1 hposition.2 fun x hx => ?_
        rw [hbegun]
        exact hearlier j x (by simp [hsplit, hx])
      · rwa [View.enqueue_waits, Function.update_of_ne hj]
    · have hin : u = t ∨ u ∈ v₁.waits j := by
        rw [View.enqueue_waits] at hu
        by_cases hj : j = i
        · subst hj
          simpa [hsplit, or_left_comm] using hu
        · exact .inr (by simpa [hj] using hu)
      show (w.after k' (some t)).since u < w.begun + 1
      obtain rfl | hin := hin
      · rw [hbegun]
        exact Nat.lt_succ_self _
      · exact Nat.lt_succ_of_lt (hearlier j u hin)

theorem Inv.step (h : Inv flag w v) (horder : call.Orderly cb flag w.kernel)
    (hstep : Step cb flag w call w') : ∃ v', Inv flag w' v' := by
  obtain ⟨hlegal, hexec⟩ := hstep
  obtain ⟨v', hs', hw⟩ := exec_waits h.shows_ hlegal horder hexec
  exact ⟨v', h.waits hs' hw⟩

theorem Runs.inv (hi : State.Initial w₀.kernel)
    (hr : Runs cb flag (fun w call => call.Orderly cb flag w.kernel) w₀ w) : ∃ v, Inv flag w v := by
  induction hr with
  | refl => exact Inv.initial hi
  | tail _ hstep ih =>
    obtain ⟨v, hinv⟩ := ih
    obtain ⟨call, horder, hstep⟩ := hstep
    exact hinv.step horder hstep

omit [DecidableEq T] [DecidableEq U] [DecidableEq I] [Fintype U] in
theorem Inv.ordered (h : Inv flag w v) (hflag : flag i = .prio) : w.Ordered i := by
  show Ranked w.kernel.priority (w.kernel.waiters i)
  rw [h.shows_.priority, h.shows_.waiters]
  exact (h.queued i hflag).ranked

theorem Inv.wakesMostUrgent (h : Inv flag w v) (hflag : flag i = .prio) : w.WakesMostUrgent i := by
  have hwaiters : w.waiters i = v.waits i := h.shows_.waiters i
  have hpriority : w.priority = v.priority := h.shows_.priority
  rw [WakesMostUrgent, hwaiters, hpriority]
  intro hne
  cases hlist : v.waits i with
  | nil => exact absurd hlist hne
  | cons t rest =>
    have ht : t ∈ v.waits i := by simp [hlist]
    obtain ⟨k', hresume, hs'⟩ := h.shows_.rtThreadResume_returns (h.shows_.suspended ht)
    have hlistResume : w.kernel.rtIpcListResume i = .ok k' := by
      rw [State.rtIpcListResume, h.shows_.next_head i, hlist]
      simp [hresume, bind, Except.bind, pure, Except.pure]
    refine ⟨t, by simp, k', hlistResume, ?_, ?_, fun u hu => ?_⟩
    · simp [hs'.thread]
    · rw [hs'.waiters, View.wake_waits, hlist]
    · have hqueued := h.queued i hflag
      rw [hlist] at hqueued
      exact hqueued.front hu

omit [DecidableEq T] [DecidableEq U] [DecidableEq I] [Fintype U] in
theorem Inv.allRanked (h : Inv flag w v) : AllRanked flag w.kernel := fun _ => h.ordered

/-- As long as no change of a priority moves a thread past its neighbours in a wait list, the wait
    lists by priority stay in order, and a wake-up takes the most urgent thread.  A call about one
    priority keeps the order only then. -/
theorem rt_ipc_prio_order (hi : State.Initial w₀.kernel)
    (hr : Runs cb flag (fun w call => call.Orderly cb flag w.kernel) w₀ w) :
    (∀ i, flag i = .prio → w.Ordered i ∧ w.WakesMostUrgent i) ∧
      ∀ call w', Step cb flag w call w' → (∀ fuel, call ≠ .tick fuel) →
        ((∀ i, flag i = .prio → w'.Ordered i) ↔ call.Orderly cb flag w.kernel) := by
  obtain ⟨v, hinv⟩ := Runs.inv hi hr
  refine ⟨fun i hflag => ⟨hinv.ordered hflag, hinv.wakesMostUrgent hflag⟩,
    fun call w' hstep htick => ⟨fun hordered => ?_, fun horder i hflag => ?_⟩⟩
  · obtain ⟨hlegal, hexec⟩ := hstep
    exact exec_orderly hinv.shows_ hlegal htick hinv.allRanked hexec hordered
  · obtain ⟨v', hinv'⟩ := hinv.step horder hstep
    exact hinv'.ordered hflag

section Script

variable [Fintype I]

instance (call : WaitCall T U I) : Decidable (call.Legal flag k) := by
  unfold WaitCall.Legal State.Running
  split <;> infer_instance

instance (op : KernelOp T U I) : Decidable (op.Orderly flag k) := by
  unfold KernelOp.Orderly State.InPlace
  split <;> infer_instance

/-- Timers without functions move no thread. -/
instance (call : WaitCall T U I) : Decidable (call.Orderly (fun _ _ => []) flag k) :=
  match call with
  | .kernel op => inferInstanceAs (Decidable (op.Orderly flag k))
  | .take t i time mutex | .takeReturn t i time mutex => by
    unfold WaitCall.Orderly WaitCall.Lends State.InPlace
    infer_instance
  | .tick _ => .isTrue fun _ _ _ _ _ => trivial
  | .setError _ _ | .suspend _ _ _ | .resumeAll _ | .release _ _ _ | .idle _ | .start =>
    .isTrue trivial

/-- A call of a script, at a state where it may come. -/
def play (flag : I → IpcFlag) (may : Waiters T U I → WaitCall T U I → Prop)
    [∀ w call, Decidable (may w call)] (w : Waiters T U I) (call : WaitCall T U I) :
    Exec (Waiters T U I) := do
  rtAssert (may w call ∧ call.Legal flag w.kernel)
  let (k, begins) ← call.exec (fun _ _ => []) flag w.kernel
  pure (w.after k begins)

omit [Fintype I] in
theorem play_step {may : Waiters T U I → WaitCall T U I → Prop} [∀ w call, Decidable (may w call)]
    (h : play flag may w call = .ok w') :
    ∃ call, may w call ∧ Step (fun _ _ => []) flag w call w' := by
  simp only [play, exec_bind_ok, rtAssert_eq_ok, exec_pure_ok] at h
  obtain ⟨_, ⟨hmay, hlegal⟩, ⟨k, begins⟩, hexec, rfl⟩ := h
  exact ⟨call, hmay, .call hlegal hexec⟩

def init (k : State T U I) : Waiters T U I where
  kernel := k
  begun := 0
  since := fun _ => 0
  changed := fun _ => false

end Script

/-- Threads of priority 10 and 20 wait, and then the second one gets another priority. -/
def overtaking (idle first second : T) (i : I) (priority : Fin rtThreadPriorityMax) :
    List (WaitCall T U I) :=
  [.kernel (.init idle 31 5), .kernel (.startup idle), .kernel (.init second 20 5),
    .kernel (.startup second), .kernel (.init first 10 5), .kernel (.startup first), .start,
    .suspend i first 0xffffffff, .kernel .schedule, .suspend i second 0xffffffff,
    .kernel .schedule, .kernel (.changePriority second priority)]

/-- A priority that fits. -/
theorem rt_ipc_prio_order_fits :
    ∃ w₀ w : Waiters (Fin 3) (Fin 0) (Fin 1), State.Initial w₀.kernel ∧
      Runs (fun _ _ => []) (fun _ => .prio)
        (fun w call => call.Orderly (fun _ _ => []) (fun _ => .prio) w.kernel) w₀ w ∧
      w.waiters 0 = [2, 1] ∧ w.priority 1 = 15 ∧ w.Ordered 0 ∧ w.WakesMostUrgent 0 := by
  obtain ⟨w, hplay, hdata⟩ := exec_exists_ok (show
    ((overtaking (0 : Fin 3) 2 1 (0 : Fin 1) ⟨15, by decide⟩).foldlM (play (fun _ => .prio)
      fun w call => call.Orderly (fun _ _ => []) (fun _ => .prio) w.kernel)
      (init (State.boot : State _ (Fin 0) _))).map (fun w => (w.waiters 0, w.priority 1)) =
      .ok ([2, 1], 15) by decide +kernel)
  simp only [Prod.mk.injEq] at hdata
  have hruns : Runs (fun _ _ => []) (fun _ => .prio)
      (fun w call => call.Orderly (fun _ _ => []) (fun _ => .prio) w.kernel) (init State.boot) w :=
    foldlM_runs (fun _ _ _ => play_step) hplay
  have hkept := (rt_ipc_prio_order State.boot_initial hruns).1 0 rfl
  exact ⟨init State.boot, w, State.boot_initial, hruns, hdata.1, hdata.2, hkept⟩

/-- The thread that has waited for less gets priority 5, and the other one is resumed first. -/
theorem rt_ipc_prio_order_lost :
    ∃ w₀ w : Waiters (Fin 3) (Fin 0) (Fin 1), State.Initial w₀.kernel ∧
      Runs (fun _ _ => []) (fun _ => .prio) (fun _ _ => True) w₀ w ∧
      w.waiters 0 = [2, 1] ∧ w.priority 2 = 10 ∧ w.priority 1 = 5 ∧
      ¬ w.Ordered 0 ∧ ¬ w.WakesMostUrgent 0 := by
  obtain ⟨w, hplay, hdata⟩ := exec_exists_ok (show
    ((overtaking (0 : Fin 3) 2 1 (0 : Fin 1) ⟨5, by decide⟩).foldlM
      (play (fun _ => .prio) fun _ _ => True) (init (State.boot : State _ (Fin 0) _))).map
        (fun w => (w.waiters 0, w.priority 2, w.priority 1,
          (w.kernel.rtIpcListResume 0).map fun k => k.waiters 0)) =
      .ok ([2, 1], 10, 5, .ok [1]) by decide +kernel)
  simp only [Prod.mk.injEq] at hdata
  obtain ⟨hwaiters, htwo, hone, hresumed⟩ := hdata
  have hruns : Runs (fun _ _ => []) (fun _ => .prio) (fun _ _ => True) (init State.boot) w :=
    foldlM_runs (fun _ _ _ => play_step) hplay
  refine ⟨init State.boot, w, State.boot_initial, hruns, hwaiters, htwo, hone, fun hordered => ?_,
    fun hwakes => ?_⟩
  · rw [Ordered, hwaiters] at hordered
    simp [Ranked, htwo, hone] at hordered
  · obtain ⟨t, ht, k, hresume, -, hrest, hurgent⟩ := hwakes (by simp [hwaiters])
    rw [hwaiters] at ht hrest hurgent
    have htwo_resumed : k.waiters 0 = [1] := by simpa [hresume, Except.map] using hresumed
    have h2 : t = 2 := by
      simp only [List.mem_cons, List.not_mem_nil, or_false] at ht
      obtain rfl | rfl := ht
      · rfl
      · rw [htwo_resumed] at hrest
        exact absurd hrest (by decide)
    subst h2
    have hle := (hurgent 1 (by simp)).1
    omega

end Waiters

end Code

end PandoraRobot.Ipc
