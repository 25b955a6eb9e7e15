import PandoraRobot.Kernel.ThreadLife

/-! # Wait lists

`rt_ipc_list_suspend` puts a thread at the back of the wait list of an object or,
under `RT_IPC_FLAG_PRIO`, before the first thread that is less urgent; and
`rt_ipc_list_resume` takes the thread at the front.
-/

namespace PandoraRobot.Kernel

open PandoraRobot.RingList

namespace State

variable {T U I : Type} [DecidableEq T] [DecidableEq I]

variable {lo : Int} {out : Set T} {k k' : State T U I} {σ : ListHead I → List T}
  {zs : List (T ⊕ U)} {t : T} {i : I}

/-- A thread of the given priority waits behind `u`. -/
def waitsBehind (k : State T U I) (priority : Nat) (u : T) : Bool :=
  ¬ priority < (k.thread u).currentPriority

/-- The walk of `rt_ipc_list_suspend` stops before the first less urgent thread. -/
theorem rtIpcListSeek_eq (hholds : Holds k.tlist σ) (priority : Nat) :
    ∀ {fuel : Nat} {xs ys : List T}, σ (.suspend i) = xs ++ ys → ys.length < fuel →
      k.rtIpcListSeek i priority fuel (firstOr (.suspend i) ys) =
        .ok (firstOr (.suspend i) (ys.dropWhile (k.waitsBehind priority))) := by
  intro fuel
  induction fuel with
  | zero => intro xs ys _ hfuel; omega
  | succ fuel ih =>
    intro xs ys hσ hfuel
    cases ys with
    | nil => simp [rtIpcListSeek, pure, Except.pure]
    | cons y ys =>
      have hnext := (hholds.adjacent (.suspend i) (xs ++ [y]) ys (by simp [hσ])).1
      rw [lastOr_concat] at hnext
      rw [firstOr_cons, rtIpcListSeek]
      simp only [hnext]
      split
      case isTrue hlt => simp [waitsBehind, hlt, pure, Except.pure]
      case isFalse hge =>
        rw [ih (show σ (.suspend i) = (xs ++ [y]) ++ ys by simp [hσ]) (by simp at hfuel; omega)]
        simp [waitsBehind, hge]

/-- Where `rt_ipc_list_suspend` puts a thread of the given priority in the list `xs ++ ys`. -/
def WaitPosition (flag : IpcFlag) (k : State T U I) (priority : Nat) (xs ys : List T) : Prop :=
  match flag with
  | .fifo => ys = []
  | .prio => (∀ x ∈ xs, (k.thread x).currentPriority ≤ priority) ∧
      ∀ y ∈ ys.head?, priority < (k.thread y).currentPriority

omit [DecidableEq T] [DecidableEq I] in
theorem waitPosition_split (flag : IpcFlag) (k : State T U I) (priority : Nat) (xs : List T) :
    flag = .prio → WaitPosition flag k priority (xs.takeWhile (k.waitsBehind priority))
      (xs.dropWhile (k.waitsBehind priority)) := by
  intro hflag
  subst hflag
  refine ⟨?_, ?_⟩
  · intro x hx
    have := List.mem_takeWhile_imp hx
    simpa [waitsBehind] using this
  · intro y hy
    have hstop := List.head?_dropWhile_not (k.waitsBehind priority) xs
    rw [Option.mem_def.mp hy] at hstop
    simpa [waitsBehind] using hstop

variable [DecidableEq U] [Fintype T] [Fintype U]

/-- A ready thread goes into a wait list. -/
theorem Wf.rtIpcListSuspend (hk : Wf lo out k σ zs) (ht : t ∉ out)
    (hstat : (k.thread t).stat = .ready) {flag : IpcFlag}
    (h : k.rtIpcListSuspend i t flag = .ok k') :
    ∃ xs ys zs', σ (.suspend i) = xs ++ ys ∧
      WaitPosition flag k (k.thread t).currentPriority xs ys ∧ .inl t ∉ zs' ∧
      Wf lo out k' (insertAt (erase σ t) (.suspend i) xs t ys) zs' ∧
      Touches t k σ zs k' (insertAt (erase σ t) (.suspend i) xs t ys) zs' ∧
      k'.thread = Function.update k.thread t { k.thread t with stat := .suspend } ∧
      k'.rtCurrentThread = k.rtCurrentThread := by
  simp only [State.rtIpcListSuspend, exec_bind_ok] at h
  obtain ⟨⟨k₁, err⟩, hsuspend, h⟩ := h
  obtain ⟨-, ⟨-, -, hne⟩ | ⟨-, -, s, zs', rfl, hgone, hk₁, htouch⟩⟩ :=
    hk.rtThreadSuspend ht hsuspend
  · exact absurd hstat hne
  have hfresh : Fresh (erase σ t) t := hk.holds.fresh_erase t
  have hsame : erase σ t (.suspend i) = σ (.suspend i) := by
    refine erase_of_notMem fun hm => ?_
    have := hk.suspended i t hm
    simp [hstat] at this
  -- wherever the thread goes, the two lists are the same but for it
  have hput : ∀ {xs ys : List T} {tlist : Links (ListHead I ⊕ T)},
      σ (.suspend i) = xs ++ ys →
      Holds tlist (insertAt (erase σ t) (.suspend i) xs t ys) →
      k' = { ((k.removedThread t).setStat t .suspend).withTimers s with tlist := tlist } →
      Wf lo out k' (insertAt (erase σ t) (.suspend i) xs t ys) zs' ∧
      Touches t k σ zs k' (insertAt (erase σ t) (.suspend i) xs t ys) zs' ∧
      k'.thread = Function.update k.thread t { k.thread t with stat := .suspend } ∧
      k'.rtCurrentThread = k.rtCurrentThread := by
    intro xs ys tlist hσ hholds heq
    subst heq
    refine ⟨hk₁.enlist ht (by rw [hsame, hσ]) hholds (by simp) (by simp) (by simp), ?_, rfl, rfl⟩
    refine htouch.trans (.ofThread (fun _ _ => rfl) ?_ rfl rfl)
    rw [erase_insertAt hfresh (by rw [hsame, hσ]), erase_of_fresh hfresh]
  cases flag with
  | fifo =>
    simp only [exec_pure_ok] at h
    refine ⟨σ (.suspend i), [], zs', by simp, rfl, hgone, hput (by simp) ?_ h.symm⟩
    have hholds := hk₁.holds.insertBefore_head (.suspend i) hfresh
    rw [pushBack, hsame] at hholds
    exact hholds
  | prio =>
    simp only [exec_bind_ok, exec_pure_ok] at h
    obtain ⟨n, hseek, heq⟩ := h
    let k₁ := ((k.removedThread t).setStat t .suspend).withTimers s
    have hfuel : (σ (.suspend i)).length < Fintype.card T + 1 :=
      Nat.lt_succ_of_le (hk.holds.nodup _).length_le_card
    have hwalk := rtIpcListSeek_eq (i := i) hk₁.holds (k₁.thread t).currentPriority
      (show erase σ t (.suspend i) = [] ++ σ (.suspend i) by rw [hsame]; rfl) hfuel
    have hfirst := hk₁.holds.next_head (.suspend i)
    rw [hsame] at hfirst
    rw [hfirst, hwalk, Except.ok.injEq] at hseek
    have hprio : ∀ u, (k₁.thread u).currentPriority = (k.thread u).currentPriority := by
      intro u
      by_cases hut : u = t
      · subst hut
        simp [k₁]
      · simp [k₁, hut]
    have hbehind : k₁.waitsBehind (k₁.thread t).currentPriority =
        k.waitsBehind (k.thread t).currentPriority := by
      funext u
      simp only [waitsBehind, hprio]
    rw [hbehind] at hseek
    refine ⟨(σ (.suspend i)).takeWhile (k.waitsBehind (k.thread t).currentPriority),
      (σ (.suspend i)).dropWhile (k.waitsBehind (k.thread t).currentPriority), zs',
      List.takeWhile_append_dropWhile.symm, waitPosition_split .prio k _ _ rfl, hgone,
      hput List.takeWhile_append_dropWhile.symm ?_ heq.symm⟩
    rw [← hseek]
    exact hk₁.holds.insertBefore (by rw [hsame, List.takeWhile_append_dropWhile]) hfresh

/-- The thread at the front of a wait list is resumed. -/
theorem Wf.rtIpcListResume (hk : Wf lo out k σ zs) (h : k.rtIpcListResume i = .ok k') :
    ∃ t rest zs' σ', t ∉ out ∧ σ (.suspend i) = t :: rest ∧ .inl t ∉ zs' ∧
      σ' = pushBack (erase σ t) (.ready (k.thread t).currentPriority) t ∧
      Wf lo out k' σ' zs' ∧ Touches t k σ zs k' σ' zs' ∧
      k'.thread = Function.update k.thread t { k.thread t with stat := .ready } ∧
      k'.rtCurrentThread = k.rtCurrentThread := by
  unfold State.rtIpcListResume at h
  cases hnext : k.tlist.next (.inl (.suspend i)) with
  | inl head => simp [hnext] at h
  | inr t =>
    simp only [hnext, exec_bind_ok, exec_pure_ok] at h
    obtain ⟨⟨k₁, err⟩, hresume, rfl⟩ := h
    obtain ⟨rest, hσ⟩ := hk.holds.next_head_eq_elem hnext
    have hmem : t ∈ σ (.suspend i) := by simp [hσ]
    have ht : t ∉ out := fun hout => hk.outside t hout _ hmem
    have hstat := hk.suspended i t hmem
    obtain ⟨-, ⟨-, -, hne⟩ | ⟨-, -, s, zs', σ', rfl, hgone, hσ', hk', htouch⟩⟩ :=
      hk.rtThreadResume ht hresume
    · exact absurd hstat hne
    · exact ⟨t, rest, zs', σ', ht, hσ, hgone, hσ', hk', htouch, rfl, rfl⟩

end State

end PandoraRobot.Kernel
