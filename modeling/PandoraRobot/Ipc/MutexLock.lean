import PandoraRobot.Ipc.MutexRuns
import PandoraRobot.Lib.RecursiveLock

/-! # Mutexes as locks

What the thread that takes and releases a mutex sees of it: who has it, and how often.
-/

namespace PandoraRobot.Ipc

open PandoraRobot.Kernel PandoraRobot.RecursiveLock

/-- Who has the mutex, and how often, in 8 bits. -/
def Mutex.lock {T : Type} (mutex : Mutex T) : Lock 8 T :=
  mutex.owner.elim .free fun owner => .held owner mutex.hold

namespace Mutexes

variable {T U I : Type} [DecidableEq U] [Fintype U] {v v' : View T I} {t : T} {i : I} {time : Tick}
  {mutex mutex' : Mutex T} {err : Err}

theorem lock_of_owner {mutex : Mutex T} {o : T} (h : mutex.owner = some o) :
    mutex.lock = .held o mutex.hold := by
  rw [Mutex.lock, h, Option.elim_some]

theorem lock_of_none {mutex : Mutex T} (h : mutex.owner = none) : mutex.lock = .free := by
  rw [Mutex.lock, h, Option.elim_none]

variable [DecidableEq T] [DecidableEq I]

/-- A take that returns at once takes the lock. -/
theorem lock_take (hok : MutexOk mutex)
    (h : TakeOut mutex v t i time mutex' (some .eok) v') :
    mutex.lock.take t = some mutex'.lock := by
  cases h with
  | nested howner =>
    have hnest : mutex.nest.lock = .held t (mutex.hold + 1) := lock_of_owner howner
    rw [lock_of_owner howner, hnest]
    simp [Lock.take]
  | acquired _ hvalue =>
    cases howner : mutex.owner with
    | none =>
      rw [lock_of_none howner]
      simp [Lock.take, Mutex.lock, Mutex.acquire, (hok.free howner).2]
    | some o =>
      rw [(hok.owned o howner).1] at hvalue
      exact absurd hvalue (by decide)

/-- A take that suspends its thread has to wait for the lock. -/
theorem lock_take_waits (h : TakeOut mutex v t i time mutex' none v') :
    mutex.lock.take t = none := by
  cases h with
  | blocked o xs ys howner hne =>
    rw [lock_of_owner howner]
    simp [Lock.take, hne]

omit [DecidableEq I] in
/-- A release gives the lock to the first thread that waits. -/
theorem lock_release (h : ReleaseOut mutex v t i mutex' err v') :
    mutex'.lock = mutex.lock.release t (v.waits i).head? := by
  cases h with
  | denied howner =>
    cases hnone : mutex.owner with
    | none => rw [lock_of_none hnone, Lock.release]
    | some o =>
      have hne : o ≠ t := fun h => howner (h ▸ hnone)
      rw [lock_of_owner hnone, Lock.release, if_pos hne]
  | unnested howner hmore =>
    have hunnest : mutex.unnest.lock = .held t (mutex.hold - 1) := lock_of_owner howner
    rw [lock_of_owner howner, hunnest, Lock.release, if_neg (not_not.mpr rfl), if_pos hmore]
  | freed howner hlast hnone =>
    rw [lock_of_owner howner, Lock.release, if_neg (not_not.mpr rfl),
      if_neg (not_not.mpr hlast), hnone]
    rfl
  | handed u rest howner hlast hwaits =>
    rw [lock_of_owner howner, Lock.release, if_neg (not_not.mpr rfl),
      if_neg (not_not.mpr hlast), hwaits]
    show Lock.held u (mutex.hold - 1 + 1) = Lock.held u 1
    rw [hlast, zero_add]

end Mutexes

end PandoraRobot.Ipc
