import PandoraRobot.Ipc.MutexRuns
import PandoraRobot.Lib.PriorityLock

/-! # Priority inheritance

What mutexes do to the priorities of their owners: a waiter lends its priority to the owner, and
the release puts back the one that is stored in the mutex.  Neither looks at another mutex that
the owner holds or waits for.
-/

namespace PandoraRobot.Ipc

open PandoraRobot.Kernel
open PandoraRobot.PriorityLock

namespace Mutexes

variable {T U I : Type} [DecidableEq T]

/-- The mutexes as locks, and nothing else. -/
def locks (s : Mutexes T U I) (v : View T I) : Locks T I Nat where
  owner i := (s.mutex i).owner
  saved i := (s.mutex i).originalPriority
  waits := v.waits
  priority t := (v.thread t).currentPriority

/-- What a call is to the locks, if it is anything. -/
def act (s : Mutexes T U I) : MutexCall T U I → Option (Act T I Nat)
  | .take t i time =>
    if (s.mutex i).owner = some t then none
    else if 0 < (s.mutex i).value then some (.acquire t i)
    else if time = 0 then none
    else some (.block t i)
  | .returns _ => none
  | .release t i =>
    if (s.mutex i).owner = some t ∧ (s.mutex i).hold - 1 = 0 then some (.release t i) else none
  | .changePriority t priority => some (.setPriority t priority)
  | .elsewhere k => some (.elsewhere fun t => (k.thread t).currentPriority)

/-- Nobody but the mutexes changes the priority of an owner. -/
def Quiet (s : Mutexes T U I) : MutexCall T U I → Prop
  | .elsewhere k => ∀ i t, (s.mutex i).owner = some t →
    (k.thread t).currentPriority = (s.kernel.thread t).currentPriority
  | _ => True

variable {cb : State.Callback T U I} {s s' s₀ : Mutexes T U I} {v v' : View T I}
  {call : MutexCall T U I} {t : T} {i : I}

section

omit [DecidableEq T]

theorem Linked.waiting (h : Linked s v) : (s.locks v).Waiting := h.waits

/-- A thread that runs is in no wait list. -/
theorem Linked.not_waits (h : Linked s v) (hplace : s.place t = none) (i : I) : t ∉ v.waits i := by
  intro hm
  have := ((h.kept.member i t).mp hm).1
  rw [hplace] at this
  cases this

end

theorem env_priority {busy : T → Prop} (hsteps : Relation.ReflTransGen (View.Env busy) v v')
    (hbusy : busy t) : (v'.thread t).currentPriority = (v.thread t).currentPriority := by
  induction hsteps with
  | refl => rfl
  | tail _ hstep ih =>
    rw [← ih]
    cases hstep with
    | other hthread _ =>
      obtain ⟨n, hn⟩ := hthread t hbusy
      rw [hn]
    | timeout u =>
      by_cases htu : t = u
      · subst htu
        simp
      · simp [htu]

variable [DecidableEq I]

section

omit [DecidableEq T]

/-- The locks after one mutex has changed. -/
theorem locks_update {mutex : Mutex T} (hmutex : s'.mutex = Function.update s.mutex i mutex) :
    s'.locks v' = {
      owner := Function.update (s.locks v).owner i mutex.owner
      saved := Function.update (s.locks v).saved i mutex.originalPriority
      waits := v'.waits
      priority := fun t => (v'.thread t).currentPriority } := by
  simp only [locks, hmutex, Locks.mk.injEq, and_true]
  refine ⟨?_, ?_⟩
  · exact Function.comp_update Mutex.owner s.mutex i mutex
  · exact Function.comp_update Mutex.originalPriority s.mutex i mutex

/-- Locks that have not changed. -/
theorem locks_same {mutex : Mutex T} (hmutex : s'.mutex = Function.update s.mutex i mutex)
    (howner : mutex.owner = (s.mutex i).owner)
    (hsaved : mutex.originalPriority = (s.mutex i).originalPriority) (hwaits : v'.waits = v.waits)
    (hpriority : ∀ u, (v'.thread u).currentPriority = (v.thread u).currentPriority) :
    s'.locks v' = s.locks v := by
  have howners : Function.update (s.locks v).owner i mutex.owner = (s.locks v).owner := by
    rw [howner]
    exact Function.update_eq_self i _
  have hsaveds : Function.update (s.locks v).saved i mutex.originalPriority = (s.locks v).saved := by
    rw [hsaved]
    exact Function.update_eq_self i _
  rw [locks_update (v := v) hmutex, howners, hsaveds, hwaits, funext hpriority]
  rfl

end

theorem Linked.locks_take (h : Linked s v) {k : State T U I} {mutex : Mutex T} {time : Tick}
    {out : Option Err} (hplace : s.place t = none)
    (hout : TakeOut (s.mutex i) v t i time mutex out v') :
    (∀ act, s.act (.take t i time) = some act →
        (s.locks v).Step act ((s.taking t i time (k, mutex, out)).locks v')) ∧
      (s.act (.take t i time) = none →
        (s.taking t i time (k, mutex, out)).locks v' = s.locks v) := by
  have hmutex := taking_mutex s t i time k mutex out
  cases hout with
  | nested howner =>
    simp only [Mutexes.act, if_pos howner, reduceCtorEq, false_implies, implies_true, true_and,
      forall_const]
    exact locks_same hmutex rfl rfl rfl (by simp)
  | acquired howner hpos =>
    have hfree : (s.mutex i).owner = none := by
      by_contra hne
      obtain ⟨o, ho⟩ := Option.ne_none_iff_exists'.mp hne
      rw [((h.mutex i).owned o ho).1] at hpos
      exact absurd hpos (by decide)
    simp only [Mutexes.act, if_neg howner, if_pos hpos, Option.some.injEq, forall_eq', reduceCtorEq,
      false_implies, and_true]
    rw [locks_update (v := v) hmutex]
    have hstep := Locks.Step.acquire (s := s.locks v) t i hfree
    simpa [locks, Mutex.acquire] using hstep
  | refused howner hzero htime =>
    simp only [Mutexes.act, if_neg howner, if_neg hzero, if_pos htime, reduceCtorEq, false_implies,
      implies_true, true_and, forall_const]
    exact locks_same hmutex rfl rfl rfl (by simp)
  | blocked o xs ys ho hne hzero htime hsplit =>
    have howner : (s.mutex i).owner ≠ some t := by
      rw [ho]
      simpa using hne
    simp only [Mutexes.act, if_neg howner, if_neg hzero, if_neg htime, Option.some.injEq,
      forall_eq', reduceCtorEq, false_implies, and_true]
    have hstep : (s.locks v).Step (.block t i) _ :=
      .block t i o xs ys ho hne hsplit (h.not_waits hplace)
    convert hstep using 1
    rw [locks_update (v := v) hmutex, Locks.mk.injEq]
    refine ⟨Function.update_eq_self i _, Function.update_eq_self i _, by simp [locks], ?_⟩
    funext u
    rw [View.enqueue_priority, View.boost_priority, View.setError_priority, View.setError_priority]
    simp [Function.update_apply, locks]

theorem Linked.locks_release (h : Linked s v) {k : State T U I} {mutex : Mutex T} {err : Err}
    (hplace : s.place t = none) (hout : ReleaseOut (s.mutex i) v t i mutex err v') :
    (∀ act, s.act (.release t i) = some act →
        (s.locks v).Step act ((s.releasing t i (k, mutex, err)).locks v')) ∧
      (s.act (.release t i) = none →
        (s.releasing t i (k, mutex, err)).locks v' = s.locks v) := by
  have hmutex := releasing_mutex s t i k mutex err
  have hnot := h.not_waits hplace
  have hrestored : ∀ {w : View T I},
      (∀ u, (w.thread u).currentPriority =
        ((v.restore t (s.mutex i).originalPriority).thread u).currentPriority) →
      (fun u => (w.thread u).currentPriority) =
        Function.update (s.locks v).priority t ((s.locks v).saved i) := by
    intro w hw
    funext u
    rw [hw, View.restore_priority, Function.update_apply]
    rfl
  cases hout with
  | denied howner =>
    have hact : s.act (.release t i) = none := if_neg fun hboth => howner hboth.1
    simp only [hact, reduceCtorEq, false_implies, implies_true, true_and, forall_const]
    exact locks_same hmutex rfl rfl rfl (by simp)
  | unnested howner hmore =>
    have hact : s.act (.release t i) = none := if_neg fun hboth => hmore hboth.2
    simp only [hact, reduceCtorEq, false_implies, implies_true, true_and, forall_const]
    exact locks_same hmutex rfl rfl rfl (by simp)
  | freed howner hlast hnil =>
    have hact : s.act (.release t i) = some (.release t i) := if_pos ⟨howner, hlast⟩
    simp only [hact, Option.some.injEq, forall_eq', reduceCtorEq, false_implies, and_true]
    have hstep : (s.locks v).Step (.release t i) _ := .free t i 0xff howner hnil hnot
    convert hstep using 1
    rw [locks_update (v := v) hmutex, Locks.mk.injEq]
    exact ⟨rfl, rfl, by simp [locks], hrestored fun _ => rfl⟩
  | handed u rest howner hlast hlist hne =>
    have hact : s.act (.release t i) = some (.release t i) := if_pos ⟨howner, hlast⟩
    simp only [hact, Option.some.injEq, forall_eq', reduceCtorEq, false_implies, and_true]
    have hstep : (s.locks v).Step (.release t i) _ := .handOver t i u rest howner hlist hnot
    convert hstep using 1
    rw [locks_update (v := v) hmutex, Locks.mk.injEq]
    refine ⟨rfl, rfl, ?_, hrestored fun w => View.wake_priority⟩
    -- the waiter is in no other list
    funext j
    have hmem : u ∈ v.waits i := by simp [hlist]
    rw [View.wake_waits, View.restore_waits]
    by_cases hj : j = i
    · subst hj
      simp [hlist]
    · have hnotj : u ∉ v.waits j := fun hm => hj (h.shows_.disjoint hm hmem)
      simp [locks, hj, List.erase_of_not_mem hnotj]

/-- A change is a step of the locks, or nothing to them. -/
theorem Linked.locks_change (h : Linked s v) (h' : Linked s' v') (hquiet : s.Quiet call)
    (hchange : Change s v call s' v') :
    (∀ act, s.act call = some act → (s.locks v).Step act (s'.locks v')) ∧
      (s.act call = none → s'.locks v' = s.locks v) := by
  cases hchange with
  | take t i time hplace _ hout => exact h.locks_take hplace hout
  | returns t i hplace hready =>
    refine ⟨fun _ hact => (nomatch hact), fun _ => ?_⟩
    exact locks_same (i := i) (taking_mutex ..) rfl rfl rfl fun _ => rfl
  | release t i hplace _ hout => exact h.locks_release hplace hout
  | changePriority t priority =>
    refine ⟨fun act hact => ?_, fun hnone => nomatch hnone⟩
    obtain rfl := Option.some.inj hact
    have hstep : (s.locks v).Step (.setPriority t priority) _ := .setPriority t priority.val
    convert hstep using 1
    simp only [locks, View.setPriority_waits, Locks.mk.injEq, true_and]
    funext u
    rw [View.setPriority_priority, Function.update_apply]
  | @elsewhere k v' hsteps =>
    refine ⟨fun act hact => ?_, fun hnone => nomatch hnone⟩
    obtain rfl := Option.some.inj hact
    have hthread : k.thread = v'.thread := h'.shows_.thread
    have hstep : (s.locks v).Step (.elsewhere fun t => (k.thread t).currentPriority) _ :=
      .elsewhere v'.waits _ (env_sublist hsteps) fun i t hin => ?_
    · convert hstep using 1
      simp [locks, hthread]
    · obtain howner | hm := hin
      · have hsame := hquiet i t howner
        rwa [h.shows_.thread] at hsame
      · have hplace := ((h'.kept.member i t).mp hm).1
        show (k.thread t).currentPriority = (v.thread t).currentPriority
        rw [hthread]
        exact env_priority hsteps (by simpa using fun hnone => by simp [hnone] at hplace)

/-! ## Inversion of priorities -/

def priority (s : Mutexes T U I) (t : T) : Nat := (s.kernel.thread t).currentPriority

/-- `t` is suspended in a take of `i`. -/
def Waits (s : Mutexes T U I) (i : I) (t : T) : Prop :=
  s.place t = some i ∧ (s.kernel.thread t).stat = .suspend

/-- `t` is the first in the wait list of `i`. -/
def First (s : Mutexes T U I) (i : I) (t : T) : Prop :=
  s.kernel.tlist.next (.inl (.suspend i)) = .inr t

/-- No owner is less urgent than a thread that waits for it. -/
def NoInversion (s : Mutexes T U I) : Prop :=
  ∀ i o, (s.mutex i).owner = some o → ∀ w, s.Waits i w → s.priority o ≤ s.priority w

/-- A thread that blocks boosts no owner that waits itself, for an owner that is less urgent than
    it; a release puts no priority back below that of a waiter of another mutex of the thread, and
    hands the mutex to the most urgent waiter; and so on for a change of priority. -/
def Propagates (s : Mutexes T U I) : MutexCall T U I → Prop
  | .take t i time => time ≠ 0 → ∀ o, (s.mutex i).owner = some o → o ≠ t →
    s.priority t < s.priority o →
    ∀ j o', s.Waits j o → (s.mutex j).owner = some o' → s.priority o' ≤ s.priority t
  | .release t i => (s.mutex i).owner = some t → (s.mutex i).hold = 1 →
    (∀ j, j ≠ i → (s.mutex j).owner = some t → ∀ w, s.Waits j w →
      (s.mutex i).originalPriority ≤ s.priority w) ∧
      ∀ u, s.First i u → ∀ w, s.Waits i w → s.priority u ≤ s.priority w
  | .changePriority t priority =>
    (∀ i, (s.mutex i).owner = some t → ∀ w, s.Waits i w → priority.val ≤ s.priority w) ∧
      ∀ i o, s.Waits i t → (s.mutex i).owner = some o → s.priority o ≤ priority.val
  | _ => True

section Decide

variable [Fintype T] [Fintype I]

instance (s : Mutexes T U I) (call : MutexCall T U I) : Decidable (s.Quiet call) :=
  match call with
  | .elsewhere k => inferInstanceAs (Decidable (∀ i t, (s.mutex i).owner = some t →
      (k.thread t).currentPriority = (s.kernel.thread t).currentPriority))
  | .take _ _ _ | .returns _ | .release _ _ | .changePriority _ _ => inferInstanceAs (Decidable True)

instance (s : Mutexes T U I) (i : I) (t : T) : Decidable (s.Waits i t) := by
  unfold Waits
  infer_instance

instance (s : Mutexes T U I) (i : I) (t : T) : Decidable (s.First i t) := by
  unfold First
  infer_instance

instance (s : Mutexes T U I) : Decidable s.NoInversion := by
  unfold NoInversion
  infer_instance

instance (s : Mutexes T U I) (call : MutexCall T U I) : Decidable (s.Propagates call) :=
  match call with
  | .take t i time => inferInstanceAs (Decidable (time ≠ 0 → ∀ o, (s.mutex i).owner = some o →
      o ≠ t → s.priority t < s.priority o →
      ∀ j o', s.Waits j o → (s.mutex j).owner = some o' → s.priority o' ≤ s.priority t))
  | .release t i => inferInstanceAs (Decidable ((s.mutex i).owner = some t →
      (s.mutex i).hold = 1 → (∀ j, j ≠ i → (s.mutex j).owner = some t → ∀ w, s.Waits j w →
        (s.mutex i).originalPriority ≤ s.priority w) ∧
      ∀ u, s.First i u → ∀ w, s.Waits i w → s.priority u ≤ s.priority w))
  | .changePriority t priority => inferInstanceAs (Decidable (
      (∀ i, (s.mutex i).owner = some t → ∀ w, s.Waits i w → priority.val ≤ s.priority w) ∧
        ∀ i o, s.Waits i t → (s.mutex i).owner = some o → s.priority o ≤ priority.val))
  | .returns _ | .elsewhere _ => inferInstanceAs (Decidable True)

end Decide

section

omit [DecidableEq T] [DecidableEq I]

theorem Linked.waits_iff (h : Linked s v) : s.Waits i t ↔ t ∈ v.waits i := by
  rw [h.kept.member, Waits, h.shows_.thread]

theorem Linked.first_iff (h : Linked s v) : s.First i t ↔ ∃ rest, v.waits i = t :: rest := by
  rw [First, h.shows_.next_head]
  cases v.waits i with
  | nil => simp
  | cons u rest => simp

theorem Linked.priority_eq (h : Linked s v) : s.priority = (s.locks v).priority := by
  funext u
  rw [priority, h.shows_.thread]
  rfl

theorem Linked.noInversion_iff (h : Linked s v) : s.NoInversion ↔ (s.locks v).NoInversion := by
  simp only [NoInversion, h.waits_iff, h.priority_eq]
  rfl

end

omit [DecidableEq I] in
/-- What a call has to find is what its act on the locks has to. -/
theorem Linked.propagates_iff (h : Linked s v) :
    s.Propagates call ↔ ∀ act, s.act call = some act → (s.locks v).Propagates act := by
  cases call with
  | take t i time =>
    simp only [Propagates, h.waits_iff, h.priority_eq]
    constructor
    · intro hcond act hact
      simp only [Mutexes.act] at hact
      split at hact
      · cases hact
      split at hact
      · obtain rfl := Option.some.inj hact
        trivial
      split at hact
      · cases hact
      case isFalse howner _ htime =>
        obtain rfl := Option.some.inj hact
        intro o ho hlt l' o' hm ho'
        refine hcond htime o ho ?_ hlt l' o' hm ho'
        rintro rfl
        exact howner ho
    · intro hcond htime o ho hne hlt
      -- the call blocks only on a mutex that another thread has
      have hact : s.act (.take t i time) = some (.block t i) := by
        have howner : (s.mutex i).owner ≠ some t := by
          rw [ho]
          simpa using hne
        have hzero : ¬ 0 < (s.mutex i).value := by
          rw [((h.mutex i).owned o ho).1]
          decide
        rw [Mutexes.act, if_neg howner, if_neg hzero, if_neg htime]
      exact hcond _ hact o ho hlt
  | returns t => exact iff_of_true trivial fun _ hact => nomatch hact
  | release t i =>
    -- the mutex is handed over with the last hold
    have hlast : (s.mutex i).hold = 1 ↔ (s.mutex i).hold - 1 = 0 := sub_eq_zero.symm
    simp only [Propagates, h.waits_iff, h.priority_eq, h.first_iff, hlast]
    constructor
    · intro hcond act hact
      simp only [Mutexes.act] at hact
      split at hact
      case isTrue hboth =>
        obtain rfl := Option.some.inj hact
        obtain ⟨hothers, hfirst⟩ := hcond hboth.1 hboth.2
        refine ⟨hothers, fun u rest hlist w hm => hfirst u ⟨rest, hlist⟩ w ?_⟩
        have hlist' : v.waits i = u :: rest := hlist
        simp [hlist', hm]
      case isFalse => cases hact
    · intro hcond howner hone
      obtain ⟨hothers, hfirst⟩ := hcond (.release t i) (if_pos ⟨howner, hone⟩)
      -- the first waiter need not be compared with itself
      refine ⟨hothers, fun u ⟨rest, hlist⟩ w hm => ?_⟩
      rw [hlist, List.mem_cons] at hm
      obtain rfl | hm := hm
      · exact le_rfl
      · exact hfirst u rest hlist w hm
  | changePriority t priority =>
    simp only [Propagates, h.waits_iff, h.priority_eq]
    constructor
    · intro hcond act hact
      obtain rfl := Option.some.inj hact
      exact hcond
    · exact fun hcond => hcond _ rfl
  | elsewhere k =>
    refine iff_of_true trivial fun act hact => ?_
    obtain rfl := Option.some.inj hact
    trivial

/-- A step inverts no priorities if and only if it finds what it has to. -/
theorem Linked.noInversion_step (h : Linked s v) (h' : Linked s' v') (hquiet : s.Quiet call)
    (hchange : Change s v call s' v') (hno : s.NoInversion) :
    s'.NoInversion ↔ s.Propagates call := by
  obtain ⟨hstep, hsame⟩ := h.locks_change h' hquiet hchange
  rw [h'.noInversion_iff, h.propagates_iff]
  rw [h.noInversion_iff] at hno
  cases hact : s.act call with
  | none =>
    rw [hsame hact]
    exact iff_of_true hno fun _ hsome => nomatch hsome
  | some act =>
    rw [hno.step_iff h.waiting (hstep act hact)]
    simp

section

variable [DecidableEq U] [Fintype T] [Fintype U]

/-- As long as every call finds what it has to, no owner is less urgent than a thread that waits
    for it; and a call that comes next keeps it so if and only if it finds that. -/
theorem rt_mutex_no_inversion (cb : State.Callback T U I) (hi : Initial cb s₀)
    (hr : Runs cb (fun s call => s.Quiet call ∧ s.Propagates call) s₀ s) :
    s.NoInversion ∧ ∀ call s', s.Quiet call → Step cb s call s' →
      (s'.NoInversion ↔ s.Propagates call) := by
  obtain ⟨v, hl, hno⟩ := hi.run (P := fun s _ => s.NoInversion)
    (fun v hl hnil i o _ w hw => by simp [hl.waits_iff, hnil] at hw)
    (fun hl hl' hno hmay hchange => (hl.noInversion_step hl' hmay.1 hchange hno).mpr hmay.2) hr
  refine ⟨hno, fun call s' hquiet hstep => ?_⟩
  obtain ⟨v', hs', hchange⟩ := hl.change hstep
  exact hl.noInversion_step (hl.step hs' hchange) hquiet hchange hno

/-- A thread of priority 5 waits for one of priority 20 and gets the mutex from it. -/
theorem rt_mutex_no_inversion_handed :
    ∃ s₀ s : Mutexes (Fin 3) (Fin 0) (Fin 2), Initial (fun _ _ => []) s₀ ∧
      Runs (fun _ _ => []) (fun s call => s.Quiet call ∧ s.Propagates call) s₀ s ∧
      s.taken 0 1 = 1 ∧ s.taken 0 2 = 1 ∧ s.NoInversion := by
  obtain ⟨s₀, s, hi, hr, htaken, htaken'⟩ := script_runs (T := Fin 3) (U := Fin 0) (I := Fin 2)
    (fun s call => s.Quiet call ∧ s.Propagates call) .fifo [(0, 31), (1, 20), (2, 5)]
    [.sleep 1, .take 1 0 0xffffffff, .tick, .take 2 0 0xffffffff, .schedule,
      .release 1 0, .schedule, .returns 2]
    (fun _ s => s.taken 0 1 = 1 ∧ s.taken 0 2 = 1) (by decide +kernel)
  exact ⟨s₀, s, hi, hr, htaken, htaken', (rt_mutex_no_inversion _ hi hr).1⟩

end

/-- A thread of priority 20 takes two mutexes, and is boosted by one of priority 5 that waits for
    the first.  It releases the second one, and is at priority 20 again. -/
theorem rt_mutex_inversion :
    ∃ s₀ s : Mutexes (Fin 3) (Fin 0) (Fin 2), Initial (fun _ _ => []) s₀ ∧
      Runs (fun _ _ => []) (fun s call => s.Quiet call) s₀ s ∧ ¬ s.NoInversion :=
  script_runs (fun s call => s.Quiet call) .fifo [(0, 31), (1, 20), (2, 5)]
    [.sleep 1, .take 1 0 0xffffffff, .take 1 1 0xffffffff, .tick,
      .take 2 0 0xffffffff, .schedule, .release 1 1]
    (fun _ s => ¬ s.NoInversion) (by decide +kernel)

/-! ## Residues -/

/-- `t` holds no mutex. -/
def Idle (s : Mutexes T U I) (t : T) : Prop := ∀ i, (s.mutex i).owner ≠ some t

/-- A thread that holds no mutex has its own priority. -/
def NoResidue (s : Mutexes T U I) : Prop := ∀ t, s.Idle t → s.priority t = s.base t

/-- Nobody but the mutexes changes a priority. -/
def Unchanged (s : Mutexes T U I) : MutexCall T U I → Prop
  | .changePriority _ _ => False
  | .elsewhere k => ∀ t, (k.thread t).currentPriority = s.priority t
  | _ => True

/-- The mutex that a thread gives away last was got at the thread's own priority. -/
def LastUnboosted (s : Mutexes T U I) : MutexCall T U I → Prop
  | .release t i => (s.mutex i).owner = some t → (s.mutex i).hold = 1 →
    (∀ j, j ≠ i → (s.mutex j).owner ≠ some t) → s.boosted i = false
  | _ => True

/-- The priority in a mutex is that of its owner, or it is noted that it was boosted. -/
def Marked (s : Mutexes T U I) : Prop :=
  ∀ i t, (s.mutex i).owner = some t →
    (s.boosted i = false ↔ (s.mutex i).originalPriority = s.base t)

section Decide

variable [Fintype T] [Fintype I]

instance (s : Mutexes T U I) (t : T) : Decidable (s.Idle t) := by
  unfold Idle
  infer_instance

instance (s : Mutexes T U I) (call : MutexCall T U I) : Decidable (s.Unchanged call) :=
  match call with
  | .changePriority _ _ => inferInstanceAs (Decidable False)
  | .elsewhere k =>
    inferInstanceAs (Decidable (∀ t, (k.thread t).currentPriority = s.priority t))
  | .take _ _ _ | .returns _ | .release _ _ => inferInstanceAs (Decidable True)

instance (s : Mutexes T U I) (call : MutexCall T U I) : Decidable (s.LastUnboosted call) :=
  match call with
  | .release t i => inferInstanceAs (Decidable ((s.mutex i).owner = some t →
      (s.mutex i).hold = 1 → (∀ j, j ≠ i → (s.mutex j).owner ≠ some t) → s.boosted i = false))
  | .take _ _ _ | .returns _ | .changePriority _ _ | .elsewhere _ => inferInstanceAs (Decidable True)

end Decide

omit [DecidableEq T] [DecidableEq I] in
theorem Unchanged.quiet (h : s.Unchanged call) : s.Quiet call := by
  cases call with
  | elsewhere k => exact fun _ t _ => h t
  | _ => trivial

/-- A mutex keeps its owner and the priority with it, or a new owner comes with its own. -/
theorem Marked.store (h : s.Marked) {mutex : Mutex T} {k : State T U I}
    (hsame : mutex.owner = (s.mutex i).owner →
      mutex.originalPriority = (s.mutex i).originalPriority)
    (hnew : ∀ u, mutex.owner = some u → (s.mutex i).owner ≠ some u →
      mutex.originalPriority = s.priority u)
    (hmutex : s'.mutex = Function.update s.mutex i mutex) (hbase : s'.base = s.base)
    (hboosted : s'.boosted = (s.store i mutex k).boosted) : s'.Marked := by
  intro j u howner
  rw [hmutex] at howner ⊢
  rw [hbase, hboosted]
  by_cases hj : j = i
  · subst hj
    rw [Function.update_self] at howner ⊢
    simp only [Mutexes.store, howner]
    by_cases hkept : (s.mutex j).owner = some u
    · rw [if_pos hkept, hsame (howner.trans hkept.symm)]
      exact h j u hkept
    · rw [if_neg hkept, hnew u howner hkept, Function.update_self, decide_eq_false_iff_not, not_not]
      rfl
  · rw [Function.update_of_ne hj] at howner ⊢
    have hother : (s.store i mutex k).boosted j = s.boosted j := by
      unfold Mutexes.store
      cases mutex.owner with
      | none => rfl
      | some w =>
        by_cases hw : (s.mutex i).owner = some w
        · simp [hw]
        · simp [hw, hj]
    rw [hother]
    exact h j u howner

theorem Marked.step (h : s.Marked) (hl : Linked s v) (hchange : Change s v call s' v') :
    s'.Marked := by
  have hpriority : ∀ u, s.priority u = (v.thread u).currentPriority := by
    intro u
    rw [priority, hl.shows_.thread]
  cases hchange with
  | @take k mutex out _ t i time _ _ hout =>
    refine h.store ?_ ?_ (taking_mutex s t i time k mutex out) (taking_base ..) (taking_boosted ..)
    · intro hsame
      cases hout with
      | acquired howner => exact absurd hsame.symm howner
      | _ => rfl
    · intro u hu hne
      cases hout with
      | acquired howner =>
        obtain rfl : t = u := Option.some.inj hu
        exact (hpriority t).symm
      | _ => exact absurd hu hne
  | returns t i =>
    exact h.store (fun _ => rfl) (fun u hu hne => absurd hu hne) (taking_mutex ..) (taking_base ..)
      (taking_boosted ..)
  | @release k mutex err _ t i _ _ hout =>
    refine h.store ?_ ?_ (releasing_mutex s t i k mutex err) (releasing_base ..)
      (releasing_boosted ..)
    · intro hsame
      cases hout with
      | freed howner =>
        rw [howner] at hsame
        cases hsame
      | handed u rest howner _ _ hne =>
        rw [howner] at hsame
        exact absurd (Option.some.inj hsame) hne
      | _ => rfl
    · intro u hu hne
      cases hout with
      | denied => exact absurd hu hne
      | unnested => exact absurd hu hne
      | freed => cases hu
      | handed w rest =>
        obtain rfl : w = u := Option.some.inj hu
        exact (hpriority w).symm
  | changePriority => exact h
  | elsewhere => exact h

omit [DecidableEq T] [DecidableEq I] in
theorem Linked.noResidue_iff (h : Linked s v) :
    s.NoResidue ↔ (s.locks v).NoResidue s.base := by
  simp only [NoResidue, h.priority_eq]
  rfl

omit [DecidableEq I] in
/-- What a call has to find is what its act on the locks has to. -/
theorem Marked.restores_iff (hmarked : s.Marked) (v : View T I) (hsame : s.Unchanged call)
    (hno : s.NoResidue) :
    s.LastUnboosted call ↔ ∀ act, s.act call = some act → (s.locks v).Restores s.base act := by
  cases call with
  | take t i time =>
    refine iff_of_true trivial fun act hact => ?_
    simp only [Mutexes.act] at hact
    split at hact
    · cases hact
    split at hact
    · obtain rfl := Option.some.inj hact
      trivial
    split at hact
    · cases hact
    · obtain rfl := Option.some.inj hact
      trivial
  | returns t => exact iff_of_true trivial fun _ hact => nomatch hact
  | release t i =>
    have hlast : (s.mutex i).hold = 1 ↔ (s.mutex i).hold - 1 = 0 := sub_eq_zero.symm
    constructor
    · intro hcond act hact
      simp only [Mutexes.act] at hact
      split at hact
      case isTrue hboth =>
        obtain rfl := Option.some.inj hact
        exact fun hothers =>
          (hmarked i t hboth.1).mp (hcond hboth.1 (hlast.mpr hboth.2) hothers)
      case isFalse => cases hact
    · intro hcond howner hone hothers
      have hsaved := hcond (.release t i) (if_pos ⟨howner, hlast.mp hone⟩) hothers
      exact (hmarked i t howner).mpr hsaved
  | changePriority => exact hsame.elim
  | elsewhere k =>
    refine iff_of_true trivial fun act hact => ?_
    obtain rfl := Option.some.inj hact
    intro t hidle
    exact (hsame t).trans (hno t hidle)

theorem Change.base (hchange : Change s v call s' v') : s'.base = s.base := by
  cases hchange with
  | take => exact taking_base ..
  | returns => exact taking_base ..
  | release => exact releasing_base ..
  | changePriority => rfl
  | elsewhere => rfl

/-- A step leaves no residue if and only if it finds what it has to. -/
theorem Linked.noResidue_step (h : Linked s v) (h' : Linked s' v') (hmarked : s.Marked)
    (hsame : s.Unchanged call) (hchange : Change s v call s' v') (hno : s.NoResidue) :
    s'.NoResidue ↔ s.LastUnboosted call := by
  obtain ⟨hstep, hkept⟩ := h.locks_change h' hsame.quiet hchange
  rw [h'.noResidue_iff, hmarked.restores_iff v hsame hno, hchange.base]
  rw [h.noResidue_iff] at hno
  cases hact : s.act call with
  | none =>
    rw [hkept hact]
    exact iff_of_true hno fun _ hsome => nomatch hsome
  | some act =>
    rw [hno.step_iff (hstep act hact)]
    simp

variable [DecidableEq U] [Fintype T] [Fintype U]

/-- As long as each thread gives away last a mutex that it got at its own priority, it has that
    priority whenever it holds none; and a call that comes next keeps it so if and only if it does
    that. -/
theorem rt_mutex_no_residue (cb : State.Callback T U I) (hi : Initial cb s₀)
    (hr : Runs cb (fun s call => s.Unchanged call ∧ s.LastUnboosted call) s₀ s) :
    (∀ t, s.Idle t → s.priority t = s₀.priority t) ∧
      ∀ call s', s.Unchanged call → Step cb s call s' →
        ((∀ t, s'.Idle t → s'.priority t = s₀.priority t) ↔ s.LastUnboosted call) := by
  have hstart : s₀.base = s₀.priority := funext hi.base
  have hfree : s₀.Marked := by
    intro i t howner
    obtain ⟨flag, hflag⟩ := hi.mutex i
    simp [hflag, rtMutexInit] at howner
  obtain ⟨v, hl, hbase, hmarked, hno⟩ := hi.run
    (P := fun s _ => s.base = s₀.priority ∧ s.Marked ∧ s.NoResidue)
    (fun v hl hnil => ⟨hstart, hfree, fun t _ => (congrFun hstart t).symm⟩)
    (fun hl hl' hp hmay hchange => ⟨hchange.base.trans hp.1, hp.2.1.step hl hchange,
      (hl.noResidue_step hl' hp.2.1 hmay.1 hchange hp.2.2).mpr hmay.2⟩) hr
  rw [← hbase]
  refine ⟨hno, fun call s' hsame hstep => ?_⟩
  obtain ⟨v', hs', hchange⟩ := hl.change hstep
  rw [← hl.noResidue_step (hl.step hs' hchange) hmarked hsame hchange hno, NoResidue, hchange.base]

/-- A thread of priority 20 takes a mutex, is boosted, and releases it. -/
theorem rt_mutex_no_residue_boosted :
    ∃ s₀ s : Mutexes (Fin 3) (Fin 0) (Fin 2), Initial (fun _ _ => []) s₀ ∧
      Runs (fun _ _ => []) (fun s call => s.Unchanged call ∧ s.LastUnboosted call) s₀ s ∧
      s.released 0 1 = 1 ∧ ∀ t, s.Idle t → s.priority t = s₀.priority t := by
  obtain ⟨s₀, s, hi, hr, hreleased⟩ := script_runs (T := Fin 3) (U := Fin 0) (I := Fin 2)
    (fun s call => s.Unchanged call ∧ s.LastUnboosted call) .fifo [(0, 31), (1, 20), (2, 5)]
    [.sleep 1, .take 1 0 0xffffffff, .tick, .take 2 0 0xffffffff, .schedule,
      .release 1 0]
    (fun _ s => s.released 0 1 = 1) (by decide +kernel)
  exact ⟨s₀, s, hi, hr, hreleased, (rt_mutex_no_residue _ hi hr).1⟩

/-- A thread of priority 20 takes a mutex, is boosted to priority 5, takes another one, releases
    the first and then the second.  It holds none, and is at priority 5 for good. -/
theorem rt_mutex_residue :
    ∃ s₀ s : Mutexes (Fin 3) (Fin 0) (Fin 2), Initial (fun _ _ => []) s₀ ∧
      Runs (fun _ _ => []) (fun s call => s.Unchanged call) s₀ s ∧
      s.Idle 1 ∧ s₀.priority 1 = 20 ∧ s.priority 1 = 5 :=
  script_runs (fun s call => s.Unchanged call) .fifo [(0, 31), (1, 20), (2, 5)]
    [.sleep 1, .take 1 0 0xffffffff, .tick, .take 2 0 0xffffffff, .schedule,
      .take 1 1 0, .release 1 0, .schedule, .returns 2, .release 2 0, .sleep 5, .release 1 1]
    (fun s₀ s => s.Idle 1 ∧ s₀.priority 1 = 20 ∧ s.priority 1 = 5) (by decide +kernel)

end Mutexes

end PandoraRobot.Ipc
