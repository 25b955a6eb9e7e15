import PandoraRobot.Kernel.Blocking

/-! # Priorities

`RT_THREAD_CTRL_CHANGE_PRIORITY`, as the IPC objects see it.  A thread that waits gets its new
priority where it is: its wait list stays as it was.
-/

namespace PandoraRobot.Kernel

namespace View

variable {T I : Type} [DecidableEq T]

def setError (t : T) (err : Err) (v : View T I) : View T I :=
  v.modifyThread t fun th => { th with error := err }

def setPriority (t : T) (priority : Nat) (v : View T I) : View T I :=
  v.modifyThread t (·.withPriority priority)

/-- `t` gets the priority if it is more urgent than its own. -/
def boost (t : T) (priority : Nat) (v : View T I) : View T I :=
  if priority < (v.thread t).currentPriority then v.setPriority t priority else v

/-- `t` gets the priority if it is another one than its own. -/
def restore (t : T) (priority : Nat) (v : View T I) : View T I :=
  if priority ≠ (v.thread t).currentPriority then v.setPriority t priority else v

variable {v : View T I} {t u : T} {err : Err} {priority : Nat} {place : T → Option I}

@[simp] theorem setError_waits : (v.setError t err).waits = v.waits := rfl
@[simp] theorem setPriority_waits : (v.setPriority t priority).waits = v.waits := rfl

@[simp] theorem boost_waits : (v.boost t priority).waits = v.waits := by
  unfold boost
  split <;> rfl

@[simp] theorem restore_waits : (v.restore t priority).waits = v.waits := by
  unfold restore
  split <;> rfl

@[simp] theorem setError_stat : ((v.setError t err).thread u).stat = (v.thread u).stat := by
  by_cases hu : u = t
  · subst hu
    simp [setError]
  · simp [setError, hu]

@[simp] theorem setError_priority :
    ((v.setError t err).thread u).currentPriority = (v.thread u).currentPriority := by
  by_cases hu : u = t
  · subst hu
    simp [setError]
  · simp [setError, hu]

theorem setError_error : ((v.setError t err).thread u).error =
    if u = t then err else (v.thread u).error := by
  by_cases hu : u = t
  · subst hu
    simp [setError]
  · simp [setError, hu]

@[simp] theorem setPriority_stat :
    ((v.setPriority t priority).thread u).stat = (v.thread u).stat := by
  by_cases hu : u = t
  · subst hu
    simp [setPriority, Thread.withPriority]
  · simp [setPriority, hu]

@[simp] theorem setPriority_error :
    ((v.setPriority t priority).thread u).error = (v.thread u).error := by
  by_cases hu : u = t
  · subst hu
    simp [setPriority, Thread.withPriority]
  · simp [setPriority, hu]

theorem setPriority_priority : ((v.setPriority t priority).thread u).currentPriority =
    if u = t then priority else (v.thread u).currentPriority := by
  by_cases hu : u = t
  · subst hu
    simp [setPriority, Thread.withPriority]
  · simp [setPriority, hu]

@[simp] theorem boost_stat : ((v.boost t priority).thread u).stat = (v.thread u).stat := by
  unfold boost
  split <;> simp

@[simp] theorem boost_error : ((v.boost t priority).thread u).error = (v.thread u).error := by
  unfold boost
  split <;> simp

theorem boost_priority : ((v.boost t priority).thread u).currentPriority =
    if u = t then min priority (v.thread t).currentPriority else (v.thread u).currentPriority := by
  unfold boost
  split
  case isTrue hlt => rw [setPriority_priority, min_eq_left hlt.le]
  case isFalse hge =>
    rw [min_eq_right (Nat.not_lt.mp hge)]
    split
    case isTrue hu => rw [hu]
    case isFalse => rfl

@[simp] theorem restore_stat : ((v.restore t priority).thread u).stat = (v.thread u).stat := by
  unfold restore
  split <;> simp

@[simp] theorem restore_error : ((v.restore t priority).thread u).error = (v.thread u).error := by
  unfold restore
  split <;> simp

theorem restore_priority : ((v.restore t priority).thread u).currentPriority =
    if u = t then priority else (v.thread u).currentPriority := by
  unfold restore
  split
  case isTrue => exact setPriority_priority
  case isFalse hsame =>
    rw [not_not] at hsame
    split
    case isTrue hu => rw [hu, hsame]
    case isFalse => rfl

variable [DecidableEq I] in
@[simp] theorem enqueue_priority {i : I} {xs ys : List T} :
    ((v.enqueue i xs t ys).thread u).currentPriority = (v.thread u).currentPriority := by
  by_cases hu : u = t
  · subst hu
    simp
  · simp [hu]

@[simp] theorem wake_priority :
    ((v.wake t).thread u).currentPriority = (v.thread u).currentPriority := by
  by_cases hu : u = t
  · subst hu
    simp
  · simp [hu]

/-- A change of priorities does not matter to who waits where. -/
theorem Kept.setPriority (h : Kept place v) : Kept place (v.setPriority t priority) :=
  h.modify rfl (h.error t)

theorem Kept.boost (h : Kept place v) : Kept place (v.boost t priority) := by
  unfold View.boost
  split
  · exact h.setPriority
  · exact h

theorem Kept.restore (h : Kept place v) : Kept place (v.restore t priority) := by
  unfold View.restore
  split
  · exact h.setPriority
  · exact h

end View

namespace State

variable {T U I : Type}
variable {lo : Int} {k k' : State T U I} {v : View T I} {t : T} {priority : Nat}

theorem Shows.priority_lt (hs : Shows lo k v) (t : T) :
    (v.thread t).currentPriority < rtThreadPriorityMax := by
  obtain ⟨σ, zs, hk, -, hthread⟩ := hs
  rw [← hthread]
  exact (hk.sound t (Set.notMem_empty t)).currentPriority

variable [DecidableEq T] [DecidableEq I] [DecidableEq U]

theorem Shows.changePriority (hs : Shows lo k v) (hp : priority < rtThreadPriorityMax)
    (h : k.rtThreadControl t (.changePriority priority) = .ok k') :
    Shows lo k' (v.setPriority t priority) := by
  obtain ⟨σ, zs, hk, hwaits, hthread⟩ := hs
  obtain ⟨σ', hk', -, hfields, -, -, hlists⟩ := hk.changePriority (Set.notMem_empty t) hp h
  refine ⟨σ', zs, hk', fun i => (hlists i).trans (hwaits i), ?_⟩
  rw [hfields, hthread]
  rfl

end State

end PandoraRobot.Kernel
