import PandoraRobot.Kernel.Deletion

/-! # Threads end once

The idle thread takes the threads that have ended from the defunct list, whatever comes between
its steps.  Over whole runs no thread that has ended is in a ready list, and the stack and the
object of an allocated one are freed once.
-/

namespace PandoraRobot.Kernel

open PandoraRobot.RingList

namespace Endings

variable {T U I : Type} [DecidableEq T]

variable {e e' : Endings T U I} {k : State T U I} {σ σ' : ListHead I → List T}
  {zs zs' : List (T ⊕ U)} {t u : T} {cb : State.Callback T U I}

/-! ## The idle thread -/

/-- What the idle thread does with a thread that has ended. -/
theorem Inv.reaping (h : Inv e σ zs) (hpc : e'.pc = e.pc) (ht : t ∉ e.leaving)
    (hwf : State.Wf 0 e.leaving e'.kernel σ' zs)
    (haway : ∀ u ∈ e.leaving, e'.kernel.rtCurrentThread ≠ some u)
    (hothers : ∀ u, u ≠ t → State.Untouched u e.kernel σ zs e'.kernel σ' zs)
    (hbefore : ∀ u, e.idle.taken = some u → u = t) (hafter : ∀ u, e'.idle.taken = some u → u = t)
    (hends : e'.kernel.Ended t → e'.idle.taken = some t ∧
      (e'.kernel.thread t).type = .allocated ∧ Fresh σ' t)
    (htaken : e'.idle.taken = some t → e'.kernel.Ended t) (hcounted : Counted e') :
    Inv e' σ' zs := by
  have hleaving : e'.leaving = e.leaving := by simp only [leaving, hpc]
  refine ⟨hleaving ▸ hwf, hleaving ▸ haway, fun u => ?_, hcounted⟩
  by_cases hut : u = t
  · subst hut
    constructor
    · exact fun hin => absurd (hleaving ▸ hin) ht
    · exact fun hin => absurd (hleaving ▸ hin) ht
    · intro call heq
      rw [hpc] at heq
      exact absurd (by simp [mem_leaving, heq, EndPc.Leaving]) ht
    · exact fun _ hended hnot => absurd (hends hended).1 hnot
    · intro hidle
      obtain ⟨-, htype, hfresh⟩ := hends (htaken hidle)
      exact ⟨hleaving ▸ ht, htaken hidle, htype, hfresh⟩
  · exact (h.placed u).untouched (hothers u hut) (congrFun hpc u)
      ⟨fun hidle => absurd (hafter u hidle) hut, fun hidle => absurd (hbefore u hidle) hut⟩

variable [DecidableEq I] in
theorem idleStep_cases (h : e.idleStep = .ok e') :
    (e.idle = .loop ∧ (∃ head, e.kernel.tlist.next (.inl .defunct) = .inl head) ∧ e' = e) ∨
    (∃ t k, e.idle = .loop ∧ e.kernel.tlist.next (.inl .defunct) = .inr t ∧
      (((e.kernel.unlink t).rtEnterCritical).modifyThread t
        fun th => { th with type := .null }).rtExitCritical = .ok k ∧ e' = e.withKernel k ∧
      (e.kernel.thread t).type = .static) ∨
    (∃ t k, e.idle = .loop ∧ e.kernel.tlist.next (.inl .defunct) = .inr t ∧
      ((e.kernel.unlink t).rtEnterCritical).rtExitCritical = .ok k ∧
      e' = { e.withKernel k with idle := .freeStack t } ∧ (e.kernel.thread t).type ≠ .static) ∨
    (∃ t, e.idle = .freeStack t ∧ e' = { e with
      idle := .deleteObject t
      stackFreed := Function.update e.stackFreed t (e.stackFreed t + 1) }) ∨
    (∃ t, e.idle = .deleteObject t ∧
      e' = { e.withKernel (e.kernel.modifyThread t fun th => { th with type := .null }) with
        idle := .loop
        objectFreed := Function.update e.objectFreed t (e.objectFreed t + 1) }) := by
  unfold idleStep at h
  cases hidle : e.idle with
  | freeStack t =>
    simp only [hidle, exec_pure_ok] at h
    exact .inr (.inr (.inr (.inl ⟨t, rfl, h.symm⟩)))
  | deleteObject t =>
    simp only [hidle, exec_pure_ok] at h
    exact .inr (.inr (.inr (.inr ⟨t, rfl, h.symm⟩)))
  | loop =>
    simp only [hidle] at h
    cases hnext : e.kernel.tlist.next (.inl .defunct) with
    | inl head =>
      simp only [hnext, exec_pure_ok] at h
      exact .inl ⟨rfl, ⟨head, rfl⟩, h.symm⟩
    | inr t =>
      simp only [hnext] at h
      split at h
      case isTrue htype =>
        simp only [exec_bind_ok, exec_pure_ok] at h
        obtain ⟨k, hexit, rfl⟩ := h
        exact .inr (.inl ⟨t, k, rfl, rfl, hexit, rfl, of_decide_eq_true htype⟩)
      case isFalse htype =>
        simp only [exec_bind_ok, exec_pure_ok] at h
        obtain ⟨k, hexit, rfl⟩ := h
        exact .inr (.inr (.inl ⟨t, k, rfl, rfl, hexit, rfl,
          fun heq => htype (decide_eq_true heq)⟩))

/-- An allocated thread that has ended, or whose stack and object have been freed. -/
def Reaping (e : Endings T U I) (t : T) : Prop :=
  ((e.kernel.thread t).type = .allocated ∧ e.kernel.Ended t ∧ t ∉ e.leaving) ∨
    ((e.kernel.thread t).type = .null ∧ e.stackFreed t = 1 ∧ e.objectFreed t = 1)

/-- What a step of the idle thread gets done. -/
structure Reaps (e : Endings T U I) (σ : ListHead I → List T) (e' : Endings T U I)
    (σ' : ListHead I → List T) : Prop where
  fewer : 3 * (σ' .defunct).length + e'.idle.left < 3 * (σ .defunct).length + e.idle.left
  pc : e'.pc = e.pc
  ready : ∀ u, (e.kernel.thread u).stat = .ready → (e'.kernel.thread u).stat = .ready
  reaping : ∀ u, Reaping e u → Reaping e' u

/-- Whom the idle thread lets run is in a ready list. -/
theorem Inv.away_exit (h : Inv e σ zs) (k₀ : State T U I) (hwf : State.Wf 0 e.leaving k σ' zs)
    (hcur : k₀.rtCurrentThread = e.kernel.rtCurrentThread) (hexit : k₀.rtExitCritical = .ok k) :
    ∀ u ∈ e.leaving, k.rtCurrentThread ≠ some u := fun u hu =>
  hwf.away_exitCritical hexit hu (hcur ▸ h.away u hu)

/-- The front of the defunct list. -/
theorem Inv.front (h : Inv e σ zs) (hnext : e.kernel.tlist.next (.inl .defunct) = .inr t) :
    t ∉ e.leaving ∧ e.kernel.Ended t ∧ ∃ rest, σ .defunct = t :: rest ∧
      erase σ t .defunct = rest := by
  obtain ⟨rest, hσ⟩ := h.wf.holds.next_head_eq_elem hnext
  have hmem : t ∈ σ .defunct := by simp [hσ]
  exact ⟨fun hin => h.wf.outside t hin _ hmem, h.wf.defunct t hmem, rest, hσ,
    by simp [erase, hσ]⟩

/-- Of the threads, only the one the idle thread is about changes. -/
theorem Reaps.about (hpc : e'.pc = e.pc) (hended : e.kernel.Ended t)
    (ht : t ∉ e.leaving) (hthread : ∀ u, u ≠ t → e'.kernel.thread u = e.kernel.thread u ∧
      e'.stackFreed u = e.stackFreed u ∧ e'.objectFreed u = e.objectFreed u)
    (hreaping : (e.kernel.thread t).type = .allocated → Reaping e' t)
    (hfewer : 3 * (σ' .defunct).length + e'.idle.left < 3 * (σ .defunct).length + e.idle.left) :
    Reaps e σ e' σ' := by
  refine ⟨hfewer, hpc, fun u hready => ?_, fun u hu => ?_⟩
  · have hut : u ≠ t := by
      rintro rfl
      exact absurd (hended.1.symm.trans hready) (by decide)
    rwa [(hthread u hut).1]
  · by_cases hut : u = t
    · subst hut
      cases hu with
      | inl hlives => exact hreaping hlives.1
      | inr hfreed => exact absurd hfreed.1 hended.2
    · obtain ⟨hsame, hstack, hobject⟩ := hthread u hut
      rw [Reaping, State.Ended, hsame, hstack, hobject, mem_leaving, hpc]
      exact hu

theorem exitCritical_keeps {k₀ : State T U I} (h : k₀.rtExitCritical = .ok k) :
    k.thread = k₀.thread ∧ k.timers = k₀.timers := by
  obtain ⟨n, c, p, rfl⟩ := State.rtExitCritical_eq h
  exact ⟨rfl, rfl⟩

omit [DecidableEq T] in
/-- A thread that keeps its object keeps its counts. -/
theorem withKernel_freed (hsame : k.thread u = e.kernel.thread u) :
    (e.withKernel k).stackFreed u = e.stackFreed u ∧
      (e.withKernel k).objectFreed u = e.objectFreed u := by
  have hnot : ¬ ((e.kernel.thread u).type = .null ∧ (k.thread u).type ≠ .null) := by
    rw [hsame]
    exact fun hmade => hmade.2 hmade.1
  exact ⟨if_neg hnot, if_neg hnot⟩

variable [DecidableEq I]

theorem Inv.take_static (h : Inv e σ zs) (hidle : e.idle = .loop)
    (hnext : e.kernel.tlist.next (.inl .defunct) = .inr t)
    (hexit : (((e.kernel.unlink t).rtEnterCritical).modifyThread t
      fun th => { th with type := .null }).rtExitCritical = .ok k)
    (htype : (e.kernel.thread t).type = .static) :
    Inv (e.withKernel k) (erase σ t) zs ∧ Reaps e σ (e.withKernel k) (erase σ t) := by
  obtain ⟨ht, hended, rest, hσ, hrest⟩ := h.front hnext
  have hwf := (h.wf.reap hσ).rtEnterCritical.rtExitCritical hexit
  have haway := h.away_exit (((e.kernel.unlink t).rtEnterCritical).modifyThread t
    fun th => { th with type := .null }) hwf rfl hexit
  obtain ⟨hthread, htimers⟩ := exitCritical_keeps hexit
  have hfields : ∀ u, u ≠ t → k.thread u = e.kernel.thread u := fun u hu => by
    rw [hthread, State.modifyThread_thread, Function.update_of_ne hu]
    rfl
  have hothers : ∀ u, u ≠ t → State.Untouched u e.kernel σ zs k (erase σ t) zs := fun u hu =>
    ⟨⟨_, hfields u hu⟩, by rw [htimers]; rfl, Iff.rfl, fun head => List.mem_erase_of_ne hu,
      by rw [htimers]; rfl⟩
  have hnull : (k.thread t).type = .null := by simp [hthread]
  constructor
  · exact h.reaping rfl ht hwf haway hothers (by simp [hidle, IdlePc.taken])
      (by simp [hidle, IdlePc.taken]) (fun hstill => absurd hnull hstill.2)
      (by simp [hidle, IdlePc.taken]) h.counted_withKernel
  · refine .about rfl hended ht (fun u hu => ⟨hfields u hu, withKernel_freed (hfields u hu)⟩)
      (by simp [htype]) ?_
    rw [hrest, hσ, withKernel_idle, List.length_cons]
    omega

theorem Inv.take_allocated (h : Inv e σ zs) (hidle : e.idle = .loop)
    (hnext : e.kernel.tlist.next (.inl .defunct) = .inr t)
    (hexit : ((e.kernel.unlink t).rtEnterCritical).rtExitCritical = .ok k)
    (htype : (e.kernel.thread t).type ≠ .static) (he' : e' = { e.withKernel k with
      idle := .freeStack t }) : Inv e' (erase σ t) zs ∧ Reaps e σ e' (erase σ t) := by
  obtain ⟨ht, hended, rest, hσ, hrest⟩ := h.front hnext
  have hallocated : (e.kernel.thread t).type = .allocated := by
    cases hsome : (e.kernel.thread t).type with
    | null => exact absurd hsome hended.2
    | static => exact absurd hsome htype
    | allocated => rfl
  obtain ⟨hthread, htimers⟩ := exitCritical_keeps hexit
  have hunlinked : State.Wf 0 e.leaving (e.kernel.unlink t) (erase σ t) zs :=
    (h.wf.unlink (h.wf.not_ready (t := t) (by simp [hended.1]))).settle (h.wf.sound t ht)
      (by simp [State.unlink, hended.1]) (h.wf.closed t ht) (h.wf.waiting t ht)
  have hwf := hunlinked.rtEnterCritical.rtExitCritical hexit
  have haway := h.away_exit (e.kernel.unlink t).rtEnterCritical hwf rfl hexit
  have hfields : ∀ u, k.thread u = e.kernel.thread u := fun u => by rw [hthread]; rfl
  have hothers : ∀ u, u ≠ t → State.Untouched u e.kernel σ zs k (erase σ t) zs := fun u hu =>
    ⟨⟨_, hfields u⟩, by rw [htimers]; rfl, Iff.rfl, fun head => List.mem_erase_of_ne hu,
      by rw [htimers]; rfl⟩
  have hended' : k.Ended t := by rwa [State.Ended, hfields]
  subst he'
  have hcounted : Counted { e.withKernel k with idle := .freeStack t } := by
    refine ⟨fun u hsome => ?_, (h.counted_withKernel (k := k)).once⟩
    simpa [hidle] using (h.counted_withKernel (k := k)).present u hsome
  constructor
  · exact h.reaping rfl ht hwf haway hothers (by simp [hidle, IdlePc.taken])
      (by simp [IdlePc.taken]) (fun _ => ⟨rfl, by rw [← hallocated, ← hfields]; rfl,
        h.wf.holds.fresh_erase t⟩) (fun _ => hended') hcounted
  · refine .about rfl hended ht (fun u _ => ⟨hfields u, withKernel_freed (hfields u)⟩)
      (fun _ => .inl ⟨by rw [← hallocated, ← hfields]; rfl, hended', ht⟩) ?_
    rw [hrest, hσ, hidle, List.length_cons]
    simp only [IdlePc.left]
    omega

section

omit [DecidableEq I]

theorem Inv.freeStack (h : Inv e σ zs) (hidle : e.idle = .freeStack t) (he' : e' = { e with
      idle := .deleteObject t
      stackFreed := Function.update e.stackFreed t (e.stackFreed t + 1) }) :
    Inv e' σ zs ∧ Reaps e σ e' σ := by
  obtain ⟨ht, hended, htype, hfresh⟩ := (h.placed t).taken (by simp [hidle, IdlePc.taken])
  have hcounted : Counted e' := by
    subst he'
    have hcount := (h.counted.present t hended.2)
    rw [hidle] at hcount
    refine ⟨fun u hsome => ?_, fun u => ?_⟩
    · by_cases hut : u = t
      · subst hut
        simpa using hcount
      · have hother := h.counted.present u hsome
        simpa [hut, hidle, Ne.symm hut] using hother
    · by_cases hut : u = t
      · subst hut
        simp only [reduceCtorEq, if_false] at hcount
        simp [hcount.1, hcount.2]
      · simpa [hut] using h.counted.once u
  subst he'
  constructor
  · exact h.reaping rfl ht h.wf h.away (fun _ _ => .refl rfl rfl)
      (by simp [hidle, IdlePc.taken, eq_comm]) (by simp [IdlePc.taken, eq_comm])
      (fun _ => ⟨rfl, htype, hfresh⟩) (fun _ => hended) hcounted
  · exact .about rfl hended ht (fun u hu => ⟨rfl, by simp [hu], rfl⟩)
      (fun _ => .inl ⟨htype, hended, ht⟩) (by simp [hidle, IdlePc.left])

theorem Inv.deleteObject (h : Inv e σ zs) (hidle : e.idle = .deleteObject t)
    (he' : e' = { e.withKernel (e.kernel.modifyThread t fun th => { th with type := .null }) with
      idle := .loop
      objectFreed := Function.update e.objectFreed t (e.objectFreed t + 1) }) :
    Inv e' σ zs ∧ Reaps e σ e' σ := by
  obtain ⟨ht, hended, htype, hfresh⟩ := (h.placed t).taken (by simp [hidle, IdlePc.taken])
  have hs := h.wf.sound t ht
  -- the timer of a closed thread is not registered, so nothing holds on to the object
  have hwf : State.Wf 0 e.leaving (e.kernel.modifyThread t fun th => { th with type := .null })
      σ zs := by
    refine ((h.wf.takeOut hfresh).change fun th => { th with type := .null }).settle ?_
      (by simp [hended.1]) (by simp [(h.wf.closed t ht).mpr (.inl hended.1)]) fun hm => ?_
    · constructor <;> simp [hended.1, hs.initPriority, hs.currentPriority]
      exact hs.mask
    · cases h.wf.waiting t ht hm with
      | _ hwaits => simp [hended.1] at hwaits
  have hfields : ∀ u, u ≠ t → (e.kernel.modifyThread t
      fun th => { th with type := .null }).thread u = e.kernel.thread u := fun u hu => by simp [hu]
  obtain ⟨hstack, hobject⟩ := h.counted.present t hended.2
  rw [if_pos hidle] at hstack
  have hother : ∀ u, u ≠ t → e'.kernel.thread u = e.kernel.thread u ∧
      e'.stackFreed u = e.stackFreed u ∧ e'.objectFreed u = e.objectFreed u := by
    intro u hu
    have hstack' := (withKernel_freed (hfields u hu)).1
    subst he'
    exact ⟨hfields u hu, hstack', by simp [hu]⟩
  have hself : (e'.kernel.thread t).type = .null ∧ e'.stackFreed t = 1 ∧ e'.objectFreed t = 1 := by
    subst he'
    refine ⟨by simp, ?_, by simp [hobject]⟩
    rw [← hstack]
    exact if_neg fun hmade => hended.2 hmade.1
  have hcounted : Counted e' := by
    refine ⟨fun u hsome => ?_, fun u => ?_⟩
    · by_cases hut : u = t
      · exact absurd (hut ▸ hself.1) hsome
      · obtain ⟨hsame, hstack', hobject'⟩ := hother u hut
        rw [hsame] at hsome
        obtain ⟨hfreed, hkept⟩ := h.counted.present u hsome
        rw [hidle, if_neg (by simpa using Ne.symm hut)] at hfreed
        rw [hstack', hobject', hfreed, hkept, if_neg (by simp [he'])]
        exact ⟨rfl, rfl⟩
    · by_cases hut : u = t
      · rw [hut]
        omega
      · obtain ⟨-, hstack', hobject'⟩ := hother u hut
        rw [hstack', hobject']
        exact h.counted.once u
  have hpc : e'.pc = e.pc := by rw [he', withKernel_pc]
  have hidle' : e'.idle = .loop := by rw [he']
  have hkernel : e'.kernel = e.kernel.modifyThread t fun th => { th with type := .null } := by
    rw [he', withKernel_kernel]
  have hothers : ∀ u, u ≠ t → State.Untouched u e.kernel σ zs e'.kernel σ zs := fun u hu => by
    rw [hkernel]
    exact ⟨⟨_, hfields u hu⟩, rfl, Iff.rfl, fun _ => Iff.rfl, rfl⟩
  constructor
  · exact h.reaping hpc ht (hkernel ▸ hwf) (hkernel ▸ h.away) hothers
      (by simp [hidle, IdlePc.taken, eq_comm]) (by simp [hidle', IdlePc.taken])
      (fun hstill => absurd hself.1 hstill.2) (by simp [hidle', IdlePc.taken]) hcounted
  · exact .about hpc hended ht hother (fun _ => .inr hself) (by simp [hidle, hidle', IdlePc.left])

end

/-- A step of the idle thread keeps the invariant, and gets something done unless there is nothing
    to do. -/
theorem Inv.idleStep (h : Inv e σ zs) (hstep : e.idleStep = .ok e') :
    ∃ σ', Inv e' σ' zs ∧
      ((e.idle = .loop ∧ σ .defunct = [] ∧ e' = e) ∨ Reaps e σ e' σ') := by
  obtain ⟨hidle, ⟨head, hnext⟩, rfl⟩ | ⟨t, k, hidle, hnext, hexit, rfl, htype⟩ |
    ⟨t, k, hidle, hnext, hexit, he', htype⟩ | ⟨t, hidle, he'⟩ | ⟨t, hidle, he'⟩ :=
    idleStep_cases hstep
  · refine ⟨σ, h, .inl ⟨hidle, ?_, rfl⟩⟩
    cases hσ : σ .defunct with
    | nil => rfl
    | cons u rest => simp [h.wf.holds.next_head, hσ] at hnext
  · obtain ⟨hinv, hreaps⟩ := h.take_static hidle hnext hexit htype
    exact ⟨_, hinv, .inr hreaps⟩
  · obtain ⟨hinv, hreaps⟩ := h.take_allocated hidle hnext hexit htype he'
    exact ⟨_, hinv, .inr hreaps⟩
  · obtain ⟨hinv, hreaps⟩ := h.freeStack hidle he'
    exact ⟨_, hinv, .inr hreaps⟩
  · obtain ⟨hinv, hreaps⟩ := h.deleteObject hidle he'
    exact ⟨_, hinv, .inr hreaps⟩

/-- While a thread is ready, the idle thread can go on. -/
theorem Inv.idleStep_returns (h : Inv e σ zs) (hu : u ∉ e.leaving)
    (hready : (e.kernel.thread u).stat = .ready) : ∃ e', e.idleStep = .ok e' := by
  have hexits : ∀ {k₀ : State T U I} {σ₀ : ListHead I → List T}, State.Wf 0 e.leaving k₀ σ₀ zs →
      (k₀.thread u).stat = .ready → ∃ k, k₀.rtEnterCritical.rtExitCritical = .ok k := by
    intro k₀ σ₀ hwf hstat
    simp only [State.rtExitCritical]
    split
    · split
      case isTrue hsome => exact State.Wf.rtSchedule_total { hwf with } hu hstat hsome
      · exact ⟨_, rfl⟩
    · exact ⟨_, rfl⟩
  unfold Endings.idleStep
  cases hidle : e.idle with
  | freeStack t => exact ⟨_, rfl⟩
  | deleteObject t => exact ⟨_, rfl⟩
  | loop =>
    cases hnext : e.kernel.tlist.next (.inl .defunct) with
    | inl head => exact ⟨_, rfl⟩
    | inr t =>
      obtain ⟨ht, hended, rest, hσ, -⟩ := h.front hnext
      have hut : u ≠ t := by
        rintro rfl
        exact absurd (hended.1.symm.trans hready) (by decide)
      simp only
      split
      · obtain ⟨k, hk⟩ := hexits (h.wf.reap hσ) (by simpa [hut, State.unlink] using hready)
        exact ⟨_, by rw [show State.modifyThread t _ (State.unlink t e.kernel).rtEnterCritical =
          ((e.kernel.unlink t).modifyThread t _).rtEnterCritical from rfl, hk]; rfl⟩
      · have hunlinked : State.Wf 0 e.leaving (e.kernel.unlink t) (erase σ t) zs :=
          (h.wf.unlink (h.wf.not_ready (t := t) (by simp [hended.1]))).settle (h.wf.sound t ht)
            (by simp [State.unlink, hended.1]) (h.wf.closed t ht) (h.wf.waiting t ht)
        obtain ⟨k, hk⟩ := hexits hunlinked hready
        exact ⟨_, by rw [hk]; rfl⟩

/-- `n` steps of the idle thread. -/
def idleSteps : Nat → Endings T U I → Exec (Endings T U I)
  | 0, e => pure e
  | n + 1, e => do
    let e ← e.idleStep
    e.idleSteps n

/-- While a thread is ready, the idle thread empties the defunct list. -/
theorem Inv.idle_empties (h : Inv e σ zs) (hu : u ∉ e.leaving)
    (hready : (e.kernel.thread u).stat = .ready) :
    ∃ n e' σ', e.idleSteps n = .ok e' ∧ Inv e' σ' zs ∧ e'.idle = .loop ∧ σ' .defunct = [] ∧
      e'.pc = e.pc ∧ ∀ t, Reaping e t → Reaping e' t := by
  induction hleft : 3 * (σ .defunct).length + e.idle.left using Nat.strong_induction_on
    generalizing e σ with
  | _ left ih =>
    obtain ⟨e₁, hstep⟩ := h.idleStep_returns hu hready
    obtain ⟨σ₁, h₁, ⟨hidle, hempty, -⟩ | hreaps⟩ := h.idleStep hstep
    · exact ⟨0, e, σ, rfl, h, hidle, hempty, rfl, fun _ => id⟩
    · have hu₁ : u ∉ e₁.leaving := by rwa [mem_leaving, hreaps.pc]
      obtain ⟨n, e', σ', hsteps, h', hidle, hempty, hpc, hreaping⟩ :=
        ih _ (hleft ▸ hreaps.fewer) h₁ hu₁ (hreaps.ready u hready) rfl
      refine ⟨n + 1, e', σ', ?_, h', hidle, hempty, hpc.trans hreaps.pc,
        fun t ht => hreaping t (hreaps.reaping t ht)⟩
      rw [idleSteps, hstep]
      exact hsteps

/-! ## Runs -/

variable [DecidableEq U] [Fintype T] [Fintype U]

theorem Inv.step (h : Inv e σ zs) {move : Move T} (hstep : Step cb move e e')
    (hspares : move = .tick → State.TickSpares cb e.removed e.kernel) :
    ∃ σ' zs', Inv e' σ' zs' := by
  cases hstep with
  | check call t hpc hrun hstat hcheck => exact ⟨σ, zs, h.check hpc hrun hstat hcheck⟩
  | next t hrun halive hnext =>
    cases hpc : e.pc t with
    | outside =>
      simp only [Endings.next, hpc, exec_pure_ok] at hnext
      exact ⟨σ, zs, hnext ▸ h⟩
    | checked call =>
      obtain ⟨htype, hstat⟩ := halive.resolve_left (by simp [hpc, EndPc.Leaving])
      exact ⟨_, zs, h.remove hpc hrun htype hstat hnext⟩
    | removed call =>
      obtain ⟨zs', h'⟩ := h.detach hpc hrun hnext
      exact ⟨σ, zs', h'⟩
    | detached call => exact ⟨σ, zs, h.close hpc hrun hnext⟩
    | closed call => exact h.handOver hpc hrun hnext
  | idle hstep =>
    obtain ⟨σ', h', -⟩ := h.idleStep hstep
    exact ⟨σ', zs, h'⟩
  | call op hop hexec => exact h.call hop hexec
  | wait i t flag time hcur hstat hwait => exact h.wait hcur hstat hwait
  | start hstart => exact ⟨σ, zs, h.goes (h.wf.goes_start hstart)⟩
  | tick fuel hnames htick => exact h.tick (hspares rfl) hnames htick

omit [DecidableEq U] [DecidableEq I] [Fintype T] [Fintype U] in
theorem Initial.inv (hi : Initial e) : ∃ σ zs, Inv e σ zs := by
  obtain ⟨σ, zs, hwf⟩ := hi.kernel.good
  have hleaving : e.leaving = ∅ := by
    ext t
    simp [mem_leaving, hi.pc, EndPc.Leaving]
  have hnull : ∀ t, (e.kernel.thread t).type = .null := fun t => by rw [hi.kernel.thread]
  refine ⟨σ, zs, hleaving ▸ hwf, by simp [hleaving], fun t => ?_, ⟨fun t htype => ?_, fun t => ?_⟩⟩
  · constructor
    · simp [hleaving]
    · simp [hleaving]
    · simp [hi.pc]
    · exact fun _ hended => absurd (hnull t) hended.2
    · simp [hi.idle, IdlePc.taken]
  · exact absurd (hnull t) htype
  · simp [hi.stackFreed, hi.objectFreed]

theorem Inv.runs {e₀ : Endings T U I} (hi : Initial e₀) (hr : SparingRuns cb e₀ e) :
    ∃ σ zs, Inv e σ zs := by
  induction hr with
  | refl => exact hi.inv
  | tail _ hstep ih =>
    obtain ⟨move, hstep, hspares⟩ := hstep
    obtain ⟨σ, zs, h⟩ := ih
    exact h.step hstep hspares

/-- Threads that have ended do not run again, and are disposed of once. -/
structure EndsOnce (e : Endings T U I) : Prop where
  /-- No closed thread and no thread of the defunct list is in a ready list. -/
  apart : ∃ σ, Holds e.kernel.tlist σ ∧ ∀ t p,
    (e.kernel.thread t).stat = .close ∨ t ∈ σ .defunct → t ∉ σ (.ready p)
  once : ∀ t, e.stackFreed t ≤ 1 ∧ e.objectFreed t ≤ 1
  /-- As long as a thread is not closed, its stack and its object are there. -/
  kept : ∀ t, (e.kernel.thread t).type ≠ .null → (e.kernel.thread t).stat ≠ .close →
    e.stackFreed t = 0 ∧ e.objectFreed t = 0
  /-- When the idle thread gets to run, it frees the stack and the object of every allocated thread
      that has ended. -/
  reaped : ∀ u ∉ e.leaving, (e.kernel.thread u).stat = .ready →
    ∃ n e', e.idleSteps n = .ok e' ∧ (∀ t ∉ e.leaving, ¬ e'.kernel.Ended t) ∧
      ∀ t ∉ e.leaving, e.kernel.Ended t → (e.kernel.thread t).type = .allocated →
        e'.stackFreed t = 1 ∧ e'.objectFreed t = 1

omit [DecidableEq U] [Fintype T] [Fintype U] in
theorem Inv.endsOnce (h : Inv e σ zs) : EndsOnce e := by
  refine ⟨⟨σ, h.wf.holds, fun t p hended hready => ?_⟩, h.counted.once, fun t htype hstat => ?_,
    fun u hu hready => ?_⟩
  · have ht : t ∉ e.leaving := fun hin => h.wf.outside t hin _ hready
    have hstat := ((h.wf.ready t ht p).mp hready).1
    cases hended with
    | inl hclose => exact absurd (hclose.symm.trans hstat) (by decide)
    | inr hmem => exact absurd ((h.wf.defunct t hmem).1.symm.trans hstat) (by decide)
  · obtain ⟨hstack, hobject⟩ := h.counted.present t htype
    have hidle : e.idle ≠ .deleteObject t := fun hidle =>
      hstat ((h.placed t).taken (by simp [hidle, IdlePc.taken])).2.1.1
    exact ⟨by rw [hstack, if_neg hidle], hobject⟩
  · obtain ⟨n, e', σ', hsteps, h', hidle, hempty, hpc, hreaping⟩ := h.idle_empties hu hready
    have hgone : ∀ t ∉ e.leaving, ¬ e'.kernel.Ended t := by
      intro t ht hended
      have hmem := (h'.placed t).pending (by rwa [mem_leaving, hpc]) hended
        (by simp [hidle, IdlePc.taken])
      rw [hempty] at hmem
      cases hmem
    refine ⟨n, e', hsteps, hgone, fun t ht hended htype => ?_⟩
    cases hreaping t (.inl ⟨htype, hended, ht⟩) with
    | inl hlives => exact absurd hlives.2.1 (hgone t ht)
    | inr hfreed => exact hfreed.2

/-- Wherever ticks, calls and other threads come between the critical sections of calls that end
    threads, as long as no timer expires between the first two of them. -/
theorem ended_threads_freed_once (cb : State.Callback T U I) {e₀ e : Endings T U I}
    (hi : Initial e₀) (hr : SparingRuns cb e₀ e) : EndsOnce e := by
  obtain ⟨σ, zs, h⟩ := Inv.runs hi hr
  exact h.endsOnce

/-- The steps of a run without timeout functions. -/
inductive Event (T U I : Type) where
  | check (call : EndCall) (t : T)
  | next (t : T)
  | idle
  | call (op : KernelOp T U I)
  | start
  | tick

/-- A tick comes when no thread is in the window, and calls name no thread that leaves. -/
def event (e : Endings T U I) : Event T U I → Exec (Endings T U I)
  | .check call t => do
    rtAssert (e.pc t = .outside ∧ e.kernel.rtCurrentThread ≠ some t ∧
      (e.kernel.thread t).stat ≠ .close)
    e.check call t
  | .next t => do
    rtAssert (e.kernel.rtCurrentThread ≠ some t ∧ (e.kernel.thread t).type ≠ .null)
    rtAssert (e.pc t = .closed .delete ∨ (e.kernel.thread t).stat ≠ .close)
    e.next t
  | .idle => e.idleStep
  | .call op => do
    rtAssert (∀ t, op.target = some t → e.pc t = .outside)
    let k ← op.exec e.kernel
    pure (e.withKernel k)
  | .start => do
    let k ← e.kernel.rtSystemSchedulerStart
    pure (e.withKernel k)
  | .tick => do
    rtAssert (∀ t, e.pc t ≠ .removed .detach ∧ e.pc t ≠ .removed .delete)
    let k ← e.kernel.rtTickIncrease (State.timeoutFunc fun _ _ => []) (Fintype.card (T ⊕ U) + 1)
    pure (e.withKernel k)

theorem tickNames_nil (out : Set T) (k : State T U I) :
    State.TickNames (fun _ _ => []) out k := by
  intro _ _ _ _ _ op hop
  cases hop

theorem event_step {event : Event T U I} (h : e.event event = .ok e') :
    SparingRuns (fun _ _ => []) e e' := by
  apply Relation.ReflTransGen.single
  cases event with
  | check call t =>
    simp only [Endings.event, exec_bind_ok, rtAssert_eq_ok] at h
    obtain ⟨_, ⟨hpc, hrun, hstat⟩, hcheck⟩ := h
    exact ⟨_, .check call t hpc hrun hstat hcheck, by simp⟩
  | next t =>
    simp only [Endings.event, exec_bind_ok, rtAssert_eq_ok] at h
    obtain ⟨_, ⟨hrun, htype⟩, _, halive, hnext⟩ := h
    refine ⟨_, .next t hrun ?_ hnext, by simp⟩
    cases halive with
    | inl hpc => exact .inl (by simp [hpc, EndPc.Leaving])
    | inr hstat => exact .inr ⟨htype, hstat⟩
  | idle => exact ⟨_, .idle h, by simp⟩
  | call op =>
    simp only [Endings.event, exec_bind_ok, rtAssert_eq_ok, exec_pure_ok] at h
    obtain ⟨_, hop, k, hexec, rfl⟩ := h
    refine ⟨_, .call op (fun t ht htarget => ?_) hexec, by simp⟩
    rw [mem_leaving, hop t htarget] at ht
    exact ht
  | start =>
    simp only [Endings.event, exec_bind_ok, exec_pure_ok] at h
    obtain ⟨k, hstart, rfl⟩ := h
    exact ⟨_, .start hstart, by simp⟩
  | tick =>
    simp only [Endings.event, exec_bind_ok, rtAssert_eq_ok, exec_pure_ok] at h
    obtain ⟨_, hnone, k, htick, rfl⟩ := h
    refine ⟨_, .tick _ (tickNames_nil _ _) htick, fun _ k₁ t _ _ _ hremoved => ?_⟩
    obtain ⟨call, hpc⟩ := hremoved
    cases call with
    | detach => exact (hnone t).1 hpc
    | delete => exact (hnone t).2 hpc

def script (events : List (Event T U I)) (e : Endings T U I) : Exec (Endings T U I) :=
  events.foldlM event e

theorem script_runs {events : List (Event T U I)} (h : e.script events = .ok e') :
    SparingRuns (fun _ _ => []) e e' := by
  induction events generalizing e with
  | nil =>
    simp only [script, List.foldlM_nil, exec_pure_ok] at h
    exact h ▸ .refl
  | cons event events ih =>
    simp only [script, List.foldlM_cons, exec_bind_ok] at h
    obtain ⟨e₁, hevent, hrest⟩ := h
    exact (event_step hevent).trans (ih hrest)

def boot : Endings T U I := ⟨State.boot, fun _ => .outside, .loop, fun _ => 0, fun _ => 0⟩

omit [DecidableEq T] [DecidableEq U] [DecidableEq I] [Fintype T] [Fintype U] in
theorem boot_initial : Initial (boot : Endings T U I) :=
  ⟨State.boot_initial, fun _ => rfl, rfl, fun _ => rfl, fun _ => rfl⟩

/-- A thread of priority 20 sleeps for a tick, and one of priority 10 begins to delete it. -/
def half (idle sleeper caller : T) : List (Event T U I) :=
  [.call (.init idle 31 5), .call (.startup idle), .call (.create sleeper 20 5),
    .call (.startup sleeper), .start, .call (.sleep 1), .call (.init caller 10 5),
    .call (.startup caller), .check .delete sleeper]

/-- The thread wakes up between the check and its removal.  Later the idle thread frees it. -/
theorem ended_threads_freed_once_after_tick :
    ∃ e₀ e : Endings (Fin 3) (Fin 0) (Fin 0), Initial e₀ ∧ SparingRuns (fun _ _ => []) e₀ e ∧
      e.stackFreed 1 = 1 ∧ e.objectFreed 1 = 1 ∧ EndsOnce e := by
  let events : List (Event (Fin 3) (Fin 0) (Fin 0)) := half 0 1 2 ++
    [.tick, .next 1, .next 1, .next 1, .tick, .next 1, .call (.sleep 5), .idle, .idle, .idle]
  obtain ⟨e, he, hdata⟩ := exec_exists_ok (show
    (boot.script events).map (fun e : Endings _ _ _ => (e.stackFreed 1, e.objectFreed 1)) =
      .ok (1, 1) by decide +kernel)
  simp only [Prod.mk.injEq] at hdata
  exact ⟨boot, e, boot_initial, script_runs he, hdata.1, hdata.2,
    ended_threads_freed_once _ boot_initial (script_runs he)⟩

theorem SparingRuns.all (h : SparingRuns cb e e') : Runs cb e e' := by
  induction h with
  | refl => exact .refl
  | tail _ hstep ih =>
    obtain ⟨move, hstep, -⟩ := hstep
    exact ih.tail ⟨move, hstep⟩

/-- The timer expires between the removal and its detachment: the thread is closed, and in its
    ready list. -/
theorem tick_in_window_revives :
    ∃ e₀ e : Endings (Fin 3) (Fin 0) (Fin 0), Initial e₀ ∧ Runs (fun _ _ => []) e₀ e ∧
      (e.kernel.thread 1).stat = .close ∧
      ∀ σ : ListHead (Fin 0) → List (Fin 3), Holds e.kernel.tlist σ → 1 ∈ σ (.ready 20) := by
  let tick : Endings (Fin 3) (Fin 0) (Fin 0) → Exec (Endings (Fin 3) (Fin 0) (Fin 0)) := fun e => do
    let k ← e.kernel.rtTickIncrease (State.timeoutFunc fun _ _ => []) 4
    pure (e.withKernel k)
  let run : Exec (Endings (Fin 3) (Fin 0) (Fin 0)) := do
    let e ← boot.script (half 0 1 2 ++ [.next 1])
    let e ← tick e
    e.script [.next 1, .next 1]
  obtain ⟨e, he, hdata⟩ := exec_exists_ok (show
    run.map (fun e : Endings _ _ _ => ((e.kernel.thread 1).stat,
      decide (e.kernel.tlist.next (.inl (.ready 20)) = .inr 1))) = .ok (.close, true)
      by decide +kernel)
  simp only [run, tick, exec_bind_ok, exec_pure_ok] at he
  obtain ⟨e₁, hbefore, e₂, ⟨k, htick, rfl⟩, hafter⟩ := he
  simp only [Prod.mk.injEq] at hdata
  have hruns : Runs (fun _ _ => []) boot e :=
    ((SparingRuns.all (script_runs hbefore)).tail
      ⟨.tick, .tick 4 (tickNames_nil _ _) htick⟩).trans (SparingRuns.all (script_runs hafter))
  refine ⟨boot, e, boot_initial, hruns, hdata.1, fun σ hσ => ?_⟩
  obtain ⟨rest, hlist⟩ := hσ.next_head_eq_elem (of_decide_eq_true hdata.2)
  simp [hlist]

end Endings

end PandoraRobot.Kernel
