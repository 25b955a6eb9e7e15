import PandoraRobot.Memory.MemPool

/-! # Runs of memory pools

What every step of a system of memory pools keeps, and from it what holds in every
state a run reaches: the blocks of a pool are divided into the free ones and the
allocated ones, and `suspend_thread_count` counts the waiting threads and, besides
them, every wait that has timed out.
-/

namespace PandoraRobot.Memory

open PandoraRobot.Kernel PandoraRobot.Chain PandoraRobot.RingList

namespace Pools

variable {T U P : Type} [DecidableEq T]

/-- Which wait list each thread is in, while it is suspended. -/
def waiting (place : T → Place P) (t : T) : Option P := (place t).waits

/-- The blocks of every pool are its own, and divided into free and allocated ones. -/
structure Divided (own : P → List Nat) (m : PoolMemory P) (live : P → List Nat) : Prop where
  blocks : ∀ p, (m.pool p).blocks = own p
  apart : ∀ p q, p ≠ q → ∀ b ∈ own p, b ∉ own q
  splits : ∀ p, ∃ free, Splits m live p free

structure Inv (own : P → List Nat) (s : Pools T U P) (v : View T P) : Prop where
  shows_ : State.Shows 0 s.kernel v
  kept : View.Kept (waiting s.place) v
  counted : ∀ p, (s.memory.pool p).suspendThreadCount =
    BitVec.ofNat 32 ((v.waits p).length + s.expired p)
  divided : Divided own s.memory s.live

variable {cb : State.Callback T U P} {s s' : Pools T U P} {v v' : View T P} {t : T} {p q : P}
  {m m' : PoolMemory P} {live live' own : P → List Nat} {xs : List Nat}
  {b : Nat}

theorem waiting_update (place : T → Place P) (t : T) (a : Place P) :
    waiting (Function.update place t a) = Function.update (waiting place) t a.waits := by
  funext u
  by_cases hu : u = t
  · subst hu
    simp [waiting]
  · simp [waiting, hu]

/-- A thread that is in no wait list goes on to another place where it is in none. -/
theorem waiting_same {place : T → Place P} {a : Place P} (h : (place t).waits = none)
    (ha : a.waits = none) : waiting (Function.update place t a) = waiting place := by
  rw [waiting_update, Function.update_eq_self_iff, ha]
  exact h.symm

omit [DecidableEq T] in
theorem outside_of_waiting {place : T → Place P} (h : waiting place t ≠ none) :
    place t ≠ .outside := by
  intro hplace
  simp [waiting, hplace, Place.waits] at h

/-! ## The memory -/

variable [DecidableEq U] [DecidableEq P] [Fintype T] [Fintype U]

/-- When one pool changes and its blocks alone do, the others stay as they are. -/
theorem Divided.change (h : Divided own m live) (hsplits : Splits m' live' p xs)
    (hblocks : (m'.pool p).blocks = (m.pool p).blocks)
    (hpool : ∀ q, q ≠ p → m'.pool q = m.pool q)
    (hword : ∀ b, b ∉ (m.pool p).blocks → m'.word b = m.word b)
    (hlive : ∀ q, q ≠ p → live' q = live q) : Divided own m' live' := by
  apply Divided.mk
  · intro q
    by_cases hq : q = p
    · rw [hq, hblocks, h.blocks]
    · rw [hpool q hq, h.blocks]
  · exact h.apart
  · intro q
    by_cases hq : q = p
    · exact hq ▸ ⟨xs, hsplits⟩
    · obtain ⟨free, hsplits'⟩ := h.splits q
      refine ⟨free, hsplits'.frame (hpool q hq) (fun b hb => hword b ?_) (hlive q hq)⟩
      rw [h.blocks] at hb ⊢
      exact h.apart q p hq b hb

/-- The count of suspended threads is no matter of the blocks. -/
theorem Divided.recount (h : Divided own m live) (n : BitVec 32) :
    Divided own (m.setPool p { m.pool p with suspendThreadCount := n }) live := by
  obtain ⟨free, hsplits⟩ := h.splits p
  have hframe : Splits (m.setPool p { m.pool p with suspendThreadCount := n }) live p free := by
    apply hsplits.frame (n := n)
    · simp
    · simp
    · rfl
  apply h.change hframe
  · simp [Mempool.blocks, Mempool.block]
  · intro q hq
    simp [hq]
  · simp
  · simp

/-- A pool whose count is not zero has a free block, which can be allocated. -/
theorem Divided.take (h : Divided own m live) (hcount : (m.pool p).blockFreeCount ≠ 0) :
    ∃ b rest, (m.pool p).blockList = some b ∧ m.word b = .next (List.head? rest) ∧
      Divided own ((m.setPool p { m.pool p with
          blockFreeCount := (m.pool p).blockFreeCount - 1, blockList := rest.head? }).setWord b
        (.pool p)) (Function.update live p (b :: live p)) := by
  obtain ⟨free, hsplits⟩ := h.splits p
  cases free with
  | nil => exact absurd (BitVec.eq_of_toNat_eq hsplits.count) hcount
  | cons b rest =>
    refine ⟨b, rest, hsplits.first, hsplits.linked.1, ?_⟩
    have hmem : b ∈ (m.pool p).blocks := (hsplits.blocks b).mpr (.inl (by simp))
    apply h.change (hsplits.take rfl)
    · simp [Mempool.blocks, Mempool.block]
    · intro q hq
      simp [hq]
    · intro c hc
      have hne : c ≠ b := by
        rintro rfl
        exact hc hmem
      simp [hne]
    · intro q hq
      simp [hq]

/-- An allocated block is given back to its pool, whose word it still holds. -/
theorem Divided.put (h : Divided own m live) (hb : b ∈ live p) (n : BitVec 32) :
    Divided own (m.freed b p n) (fun q => (live q).erase b) := by
  obtain ⟨free, hsplits⟩ := h.splits p
  have hmem : b ∈ (m.pool p).blocks := (hsplits.blocks b).mpr (.inr hb)
  have hput : Splits (m.freed b p n) (fun q => (live q).erase b) p (b :: free) :=
    hsplits.put hb rfl
  apply h.change hput
  · simp
  · intro q hq
    simp [hq]
  · intro c hc
    have hne : c ≠ b := by
      rintro rfl
      exact hc hmem
    simp [hne]
  · intro q hq
    -- the block of one pool is no block of another
    obtain ⟨free', hsplits'⟩ := h.splits q
    apply List.erase_of_not_mem
    intro hm
    have hother := (hsplits'.blocks b).mpr (.inr hm)
    rw [h.blocks] at hmem hother
    exact h.apart p q (Ne.symm hq) b hmem hother

/-! ## The steps -/

/-- A running thread goes to the front of the wait list. -/
theorem rtMpSuspend_shows {k k' : State T U P} (hs : State.Shows 0 k v)
    (hstat : (v.thread t).stat = .ready) {time : Tick} (h : rtMpSuspend p t time k = .ok k') :
    State.Shows 0 k' (v.enqueue p [] t (v.waits p)) := by
  simp only [rtMpSuspend, exec_bind_ok] at h
  obtain ⟨⟨k₁, err⟩, hsuspend, htimer⟩ := h
  obtain ⟨σ, zs, hk, hwaits, hthread⟩ := hs
  rw [← hthread] at hstat
  obtain ⟨-, ⟨-, -, hne⟩ | ⟨-, -, s, zs', rfl, -, hk₁, -⟩⟩ := hk.rtThreadSuspend (by simp) hsuspend
  · exact absurd hstat hne
  have hnot : ∀ q, erase σ t (.suspend q) = v.waits q := by
    intro q
    rw [erase_of_notMem, hwaits q]
    intro hm
    simp [hk.suspended q t hm] at hstat
  have hholds := hk₁.holds.insertAfter_head (.suspend p) (hk.holds.fresh_erase t)
  have hk₂ := hk₁.enlist (by simp) (List.nil_append _).symm hholds (by simp) (by simp) (by simp)
  have hs' := hk₂.shows (v := v.enqueue p [] t (v.waits p))
    (fun q => by
      by_cases hq : q = p
      · subst hq
        simp [hnot]
      · simp [insertAt_other, hq, hnot])
    (by simp [hthread])
  split at htimer
  · exact hs'.startThreadTimer (by simp) htimer
  · simp only [exec_pure_ok] at htimer
    exact htimer ▸ hs'

section

omit [DecidableEq U] [DecidableEq P] [Fintype T] [Fintype U]

/-- A caller that waits in no list goes on to another place outside. -/
theorem Inv.move (hi : Inv own s v) {a : Place P} (h : waiting s.place t = none)
    (ha : a.waits = none) : Inv own { s with place := Function.update s.place t a } v :=
  ⟨hi.shows_, waiting_same h ha ▸ hi.kept, hi.counted, hi.divided⟩

theorem Inv.setErrno (hi : Inv own s v) {caller : Option T} (err : Err)
    (hcaller : ∀ t, caller = some t → waiting s.place t = none) :
    ∃ v', Inv own { s with kernel := rtSetErrno caller err s.kernel } v' := by
  cases caller with
  | none => exact ⟨v, hi.shows_, hi.kept, hi.counted, hi.divided⟩
  | some t =>
    have hkept := hi.kept.modify (t := t) (f := fun th => { th with error := err }) rfl
      (fun hne => absurd (hcaller t rfl) hne)
    exact ⟨_, hi.shows_.setError err, hkept, hi.counted, hi.divided⟩

end

/-- A thread waits for a block. -/
theorem Inv.wait (hi : Inv own s v) {k : State T U P} {time beforeSleep : Tick}
    (hrunning : s.kernel.Running t) (hplace : waiting s.place t = none)
    (hsuspend : rtMpSuspend p t time (s.kernel.setError t .eok) = .ok k) :
    ∃ v', Inv own { s with
      kernel := k
      memory := s.memory.setPool p { s.memory.pool p with
        suspendThreadCount := (s.memory.pool p).suspendThreadCount + 1 }
      place := Function.update s.place t (.waiting p time beforeSleep) } v' := by
  have hstat := hrunning.2
  rw [hi.shows_.thread] at hstat
  have hs := rtMpSuspend_shows (hi.shows_.setError (t := t) .eok) (by simpa using hstat) hsuspend
  have hkept := hi.kept.modify (t := t) (f := fun th => { th with error := .eok }) rfl
    (fun _ _ => rfl)
  refine ⟨_, hs, ?_, fun q => ?_, hi.divided.recount _⟩
  · rw [waiting_update]
    exact hkept.enqueue hplace (List.nil_append _).symm (by simp)
  · have hcounted := hi.counted q
    by_cases hq : q = p
    · subst hq
      simp only [setPool_pool, Function.update_self, View.enqueue_waits, View.modifyThread_waits,
        List.nil_append, List.length_cons]
      rw [hcounted, Nat.add_right_comm, BitVec.ofNat_add (n := 32) _ 1]
      rfl
    · simpa [hq] using hcounted

theorem Inv.alloc (hi : Inv own s v) {caller : Option T} {time : Tick}
    (hcaller : ∀ t, caller = some t → s.kernel.Running t ∧ waiting s.place t = none)
    (h : s.alloc caller p time = .ok s') : ∃ v', Inv own s' v' := by
  simp only [Pools.alloc, rtMpAlloc, exec_bind_ok] at h
  obtain ⟨⟨k, m, out⟩, halloc, h⟩ := h
  split at halloc
  case isTrue hnone =>
    split at halloc
    · -- no waiting
      simp only [exec_pure_ok, Prod.mk.injEq] at halloc
      obtain ⟨rfl, rfl, rfl⟩ := halloc
      simp only [exec_pure_ok] at h
      subst h
      obtain ⟨v', hi'⟩ := hi.setErrno .etimeout fun t ht => (hcaller t ht).2
      cases caller with
      | none => exact ⟨v', hi'⟩
      | some t => exact ⟨v', hi'.move (hcaller t rfl).2 rfl⟩
    · cases caller with
      | none => simp at halloc
      | some t =>
        obtain ⟨hrunning, hplace⟩ := hcaller t rfl
        simp only [exec_bind_ok, exec_pure_ok, Prod.mk.injEq] at halloc
        obtain ⟨k₁, hsuspend, rfl, rfl, rfl⟩ := halloc
        simp only [exec_pure_ok] at h
        subst h
        exact hi.wait hrunning hplace hsuspend
  case isFalse hsome =>
    obtain ⟨b, rest, hlist, hword, hdivided⟩ := hi.divided.take hsome
    simp only [hlist, hword, Word.read_next, exec_bind_ok, exec_pure_ok, Prod.mk.injEq,
      Except.ok.injEq, exists_eq_left'] at halloc
    obtain ⟨rfl, rfl, rfl⟩ := halloc
    simp only [exec_pure_ok] at h
    subst h
    have hinv : Inv own { s with
        memory := (s.memory.setPool p { s.memory.pool p with
          blockFreeCount := (s.memory.pool p).blockFreeCount - 1
          blockList := rest.head? }).setWord b (.pool p)
        live := Function.update s.live p (b :: s.live p) } v := by
      refine ⟨hi.shows_, hi.kept, fun q => ?_, hdivided⟩
      by_cases hq : q = p
      · subst hq
        simpa using hi.counted q
      · simpa [hq] using hi.counted q
    cases caller with
    | none => exact ⟨v, hinv⟩
    | some t => exact ⟨v, hinv.move (hcaller t rfl).2 rfl⟩

omit [DecidableEq U] [DecidableEq P] [Fintype T] [Fintype U] in
theorem Inv.resumed (hi : Inv own s v) {time beforeSleep : Tick} (hrunning : s.kernel.Running t) :
    Inv own (s.resumed t p time beforeSleep) v := by
  have hstat := hrunning.2
  rw [hi.shows_.thread] at hstat
  have hleave : ∀ a : Place P, a.waits = none →
      View.Kept (waiting (Function.update s.place t a)) v := by
    intro a ha
    rw [waiting_update, ha]
    exact hi.kept.leave (by simp [hstat])
  unfold Pools.resumed
  split
  · exact ⟨hi.shows_, hleave .outside rfl, hi.counted, hi.divided⟩
  case h_2 time' _ => exact ⟨hi.shows_, hleave (.woken p time') rfl, hi.counted, hi.divided⟩

omit [Fintype T] [Fintype U] in
theorem rtMpFree_eq {k : State T U P} (hword : m.word b = .pool p) :
    rtMpFree b m k = if (m.pool p).suspendThreadCount = 0 then
        .ok (k, m.freed b p (m.pool p).suspendThreadCount)
      else
        match k.tlist.next (.inl (.suspend p)) with
        | .inl _ => .error .wildPointer
        | .inr thread =>
          ((k.setError thread .eok).rtThreadResume thread).map fun x =>
            (x.1, m.freed b p ((m.pool p).suspendThreadCount - 1)) := by
  unfold rtMpFree
  rw [hword]
  by_cases hcount : (m.pool p).suspendThreadCount = 0
  · simp [hcount, PoolMemory.freed, pure, Except.pure]
  · have hpos : (0 : BitVec 32) < (m.pool p).suspendThreadCount := by bv_omega
    simp only [hpos, if_true, if_neg hcount]
    cases k.tlist.next (.inl (.suspend p)) with
    | inl head => rfl
    | inr thread => rfl

/-- What `rt_mp_free` of an allocated block does to the wait list of its pool: nothing, if the
    count of suspended threads is zero, and else the first of them is resumed.  If there is none,
    it is stuck. -/
theorem Inv.free_cases (hi : Inv own s v) (hb : b ∈ s.live p) :
    ((s.memory.pool p).suspendThreadCount = 0 ∧
      ∃ s', s.free b = .ok s' ∧ Inv own s' v ∧ s'.kernel = s.kernel) ∨
    ((s.memory.pool p).suspendThreadCount ≠ 0 ∧ ∃ t rest s', v.waits p = t :: rest ∧
      s.free b = .ok s' ∧
      Inv own s' ((v.modifyThread t fun th => { th with error := .eok }).wake t)) ∨
    ((s.memory.pool p).suspendThreadCount ≠ 0 ∧ v.waits p = [] ∧
      s.free b = .error .wildPointer) := by
  obtain ⟨free, hsplits⟩ := hi.divided.splits p
  have hfree := rtMpFree_eq (k := s.kernel) (hsplits.owner b hb)
  -- the other pools keep their counts
  have hcounted : ∀ n q, q ≠ p → ((s.memory.freed b p n).pool q).suspendThreadCount =
      BitVec.ofNat 32 ((v.waits q).length + s.expired q) := by
    intro n q hq
    rw [freed_other hq]
    exact hi.counted q
  by_cases hcount : (s.memory.pool p).suspendThreadCount = 0
  · rw [if_pos hcount] at hfree
    refine .inl ⟨hcount, { s with
      memory := s.memory.freed b p (s.memory.pool p).suspendThreadCount
      live := fun q => (s.live q).erase b }, by rw [Pools.free, hfree]; rfl,
      ⟨hi.shows_, hi.kept, fun q => ?_, hi.divided.put hb _⟩, rfl⟩
    by_cases hq : q = p
    · subst hq
      simpa using hi.counted q
    · exact hcounted _ q hq
  -- the source trusts the count, and takes the first of the list without a look
  · rw [if_neg hcount, hi.shows_.next_head] at hfree
    cases hlist : v.waits p with
    | nil =>
      rw [hlist] at hfree
      exact .inr (.inr ⟨hcount, rfl, by rw [Pools.free, hfree]; rfl⟩)
    | cons t rest =>
      have hmem : t ∈ v.waits p := by simp [hlist]
      have hs := hi.shows_.setError (t := t) .eok
      obtain ⟨k', hresume, hs'⟩ := hs.rtThreadResume_returns (t := t)
        (by simpa using hi.shows_.suspended hmem)
      rw [hlist, firstOr_cons] at hfree
      simp only [hresume, Except.map] at hfree
      have hkept := hi.kept.modify (t := t) (f := fun th => { th with error := .eok }) rfl
        (fun _ _ => rfl)
      refine .inr (.inl ⟨hcount, t, rest, { s with
        kernel := k'
        memory := s.memory.freed b p ((s.memory.pool p).suspendThreadCount - 1)
        live := fun q => (s.live q).erase b }, rfl, by rw [Pools.free, hfree]; rfl,
        ⟨hs', hkept.wake, fun q => ?_, hi.divided.put hb _⟩⟩)
      by_cases hq : q = p
      · subst hq
        have hcountedp := hi.counted q
        have hlength : (v.waits q).length = rest.length + 1 := by simp [hlist]
        simp only [freed_suspended, View.wake_waits, View.modifyThread_waits, hlist,
          List.erase_cons_head]
        rw [hcountedp, hlength, Nat.add_right_comm, BitVec.ofNat_add (n := 32) _ 1]
        exact add_sub_cancel_right _ _
      · -- the thread waits for no other pool
        have hnot : t ∉ v.waits q := fun hm => hq (hi.shows_.disjoint hm hmem)
        simpa [List.erase_of_not_mem hnot] using hcounted _ q hq

theorem Inv.free (hi : Inv own s v) (hb : b ∈ s.live p) (h : s.free b = .ok s') :
    ∃ v', Inv own s' v' := by
  obtain ⟨-, s₁, hfree, hi', -⟩ | ⟨-, t, rest, s₁, -, hfree, hi'⟩ | ⟨-, -, hfree⟩ :=
    hi.free_cases hb
  · exact ⟨_, Except.ok.inj (hfree.symm.trans h) ▸ hi'⟩
  · exact ⟨_, Except.ok.inj (hfree.symm.trans h) ▸ hi'⟩
  · rw [hfree] at h
    cases h

/-- Of the threads that waited, those that time out do so no more. -/
theorem Inv.elsewhere (hi : Inv own s v) {k : State T U P}
    (h : State.Elsewhere cb (fun t => s.place t ≠ .outside) s.kernel k) :
    ∃ v', Inv own (s.elsewhere k) v' := by
  have hbusy : ∀ t, waiting s.place t ≠ none → s.place t ≠ .outside :=
    fun _ => outside_of_waiting
  obtain ⟨v', hsteps, hs'⟩ := hi.shows_.elsewhere (hi.kept.members_busy hbusy) h
  have hkept := hi.kept.envs hbusy hsteps
  refine ⟨v', hs', hkept, fun p => ?_, hi.divided⟩
  let W (v : View T P) := Finset.univ.filter fun t =>
    waiting s.place t = some p ∧ (v.thread t).stat = .suspend
  have hmem : ∀ w t, t ∈ W w ↔ waiting s.place t = some p ∧ (w.thread t).stat = .suspend := by
    simp [W]
  have hsub : W v' ⊆ W v := by
    intro t ht
    rw [hmem] at ht ⊢
    exact ⟨ht.1, View.Env.suspended hsteps (hbusy t (by simp [ht.1])) ht.2⟩
  have hexpired : (Finset.univ.filter fun t => s.Waits p t ∧ (k.thread t).stat ≠ .suspend) =
      W v \ W v' := by
    ext t
    rw [Finset.mem_sdiff, hmem, hmem, Finset.mem_filter, Waits, hi.shows_.thread, hs'.thread]
    simp only [waiting, Finset.mem_univ, true_and]
    tauto
  have hcard := Finset.card_sdiff_add_card_eq_card hsub
  rw [hkept.card_waits, hi.kept.card_waits] at hcard
  have hcounted := hi.counted p
  simp only [Pools.elsewhere, hexpired]
  rw [hcounted]
  congr 1
  omega

theorem Inv.step (hi : Inv own s v) (h : Step cb s s') : ∃ v', Inv own s' v' := by
  cases h with
  | alloc caller p time hcaller halloc =>
    apply hi.alloc _ halloc
    intro t ht
    obtain ⟨hrunning, hplace⟩ := hcaller t ht
    exact ⟨hrunning, by simp [waiting, hplace, Place.waits]⟩
  | resumed t p time beforeSleep hrunning _ => exact ⟨v, hi.resumed hrunning⟩
  | again t p time hrunning hplace halloc =>
    apply hi.alloc _ halloc
    intro u hu
    cases hu
    exact ⟨hrunning, by simp [waiting, hplace, Place.waits]⟩
  | free b p hb hfree => exact hi.free hb hfree
  | elsewhere helse => exact hi.elsewhere helse

theorem Initial.inv (h : Initial cb s) :
    ∃ v, Inv (fun p => (s.memory.pool p).blocks) s v := by
  obtain ⟨k₀, hboot, hruns⟩ := h.reached
  obtain ⟨v, hs⟩ := (State.runs_good hboot hruns).shows
  have hnil : ∀ p, v.waits p = [] := by
    intro p
    have := h.empty p
    rw [hs.isempty] at this
    simpa using this
  have hinitialised : ∀ p, Initialised s.memory p := by
    intro p
    obtain ⟨start, size, blockSize, m, m', hinit, hpool, hword⟩ := h.init p
    have hm' := rtMpInit_initialised hinit
    constructor <;> rw [hpool]
    · exact hm'.first
    · exact hm'.linked.congr hword
    · exact hm'.nodup
    · exact hm'.count
    · exact hm'.suspended
    · exact hm'.within
  refine ⟨v, hs, ?_, fun p => ?_, fun _ => rfl, fun p q hpq b hp hq => ?_,
    fun p => ⟨(s.memory.pool p).blocks, ?_⟩⟩
  · constructor <;> simp [hnil, h.place, waiting, Place.waits]
  · simp [(hinitialised p).suspended, hnil, h.expired]
  · have hbp := (hinitialised p).within b hp
    have hbq := (hinitialised q).within b hq
    have hapart := h.apart p q hpq
    omega
  · have hp := hinitialised p
    exact ⟨hp.first, hp.linked, by simp [h.live], by simpa [h.live] using hp.nodup,
      by simp [h.live], hp.count⟩

theorem Runs.inv {s₀ : Pools T U P} (hi : Initial cb s₀) (hr : Runs cb s₀ s) :
    ∃ v, Inv (fun p => (s₀.memory.pool p).blocks) s v := by
  induction hr with
  | refl => exact hi.inv
  | tail _ hstep ih =>
    obtain ⟨v, hv⟩ := ih
    exact hv.step hstep

/-! ## What every run keeps -/

omit [Fintype T] [Fintype U] in
theorem free_memory (hword : s.memory.word b = .pool p) (h : s.free b = .ok s') :
    ∃ n, s'.memory = s.memory.freed b p n ∧ s'.live = fun q => (s.live q).erase b := by
  simp only [Pools.free, rtMpFree_eq hword, exec_bind_ok, exec_pure_ok] at h
  obtain ⟨⟨k, m⟩, hfree, rfl⟩ := h
  split at hfree
  · simp only [Except.ok.injEq, Prod.mk.injEq] at hfree
    exact ⟨_, hfree.2.symm, rfl⟩
  · split at hfree
    · cases hfree
    · obtain ⟨x, -, hx⟩ := exec_exists_ok hfree
      simp only [Prod.mk.injEq] at hx
      exact ⟨_, hx.2.symm, rfl⟩

/-- In every state a run reaches, the blocks of a pool, which are those it was initialised with,
    are divided into the free and the allocated ones.  A block that is freed goes back to the
    free list of the pool it was allocated from. -/
theorem blocks_partitioned (cb : State.Callback T U P) {s₀ s : Pools T U P} (hi : Initial cb s₀)
    (hr : Runs cb s₀ s) (p : P) :
    ∃ free, Splits s.memory s.live p free ∧
      (s.memory.pool p).blocks = (s₀.memory.pool p).blocks ∧
      (∀ b ∈ s.live p, ∀ q, q ≠ p → b ∉ s.live q) ∧
      ∀ b ∈ s.live p, (s.expired p = 0 → ∃ s', s.free b = .ok s') ∧
        ∀ s', s.free b = .ok s' → Splits s'.memory s'.live p (b :: free) := by
  obtain ⟨v, hv⟩ := hr.inv hi
  obtain ⟨free, hsplits⟩ := hv.divided.splits p
  refine ⟨free, hsplits, hv.divided.blocks p, fun b hb q hq hm => ?_, fun b hb => ⟨fun hnone => ?_,
    fun s' hfree => ?_⟩⟩
  · obtain ⟨free', hsplits'⟩ := hv.divided.splits q
    have hown := (hsplits.blocks b).mpr (.inr hb)
    have hother := (hsplits'.blocks b).mpr (.inr hm)
    rw [hv.divided.blocks] at hown hother
    exact hv.divided.apart p q (Ne.symm hq) b hown hother
  · obtain ⟨-, s', hfree, -⟩ | ⟨-, t, rest, s', -, hfree, -⟩ | ⟨hcount, hnil, -⟩ := hv.free_cases hb
    · exact ⟨s', hfree⟩
    · exact ⟨s', hfree⟩
    · -- no wait has timed out, so the count is right
      rw [hv.counted, hnil, hnone] at hcount
      simp at hcount
  · obtain ⟨n, hmemory, hlive⟩ := free_memory (hsplits.owner b hb) hfree
    rw [hmemory]
    exact hsplits.put hb (congrFun hlive p)

/-- The links of `mp->suspend_thread` spell out `ts`. -/
def SuspendThread (s : Pools T U P) (p : P) (ts : List T) : Prop :=
  ∃ σ : ListHead P → List T, Holds s.kernel.tlist σ ∧ σ (.suspend p) = ts

/-- `suspend_thread_count` is the length of the suspend list, and `rt_mp_free` resumes one of the
    threads there if there are any. -/
structure CountedAs (s : Pools T U P) (p : P) (ts : List T) : Prop where
  list : s.SuspendThread p ts
  count : (s.memory.pool p).suspendThreadCount.toNat = ts.length
  frees : ∀ b ∈ s.live p, ∃ s', s.free b = .ok s' ∧
    ((∃ t ∈ ts, (s'.kernel.thread t).stat = .ready) ↔ ts ≠ [])

def Counted (s : Pools T U P) (p : P) : Prop := ∃ ts, s.CountedAs p ts

section

omit [DecidableEq T] [DecidableEq U] [DecidableEq P] [Fintype T] [Fintype U]

theorem Inv.suspendThread (hi : Inv own s v) (p : P) : s.SuspendThread p (v.waits p) := by
  obtain ⟨σ, zs, hk, hwaits, -⟩ := hi.shows_
  exact ⟨σ, hk.holds, hwaits p⟩

theorem SuspendThread.unique {ts ts' : List T} (h : s.SuspendThread p ts)
    (h' : s.SuspendThread p ts') : ts = ts' := by
  obtain ⟨σ, hσ, rfl⟩ := h
  obtain ⟨σ', hσ', rfl⟩ := h'
  rw [hσ.unique hσ']

end

/-- The count is right exactly as long as no wait has timed out, give or take the width of the
    counter.  Threads are objects in an address space of 32 bits. -/
theorem suspend_count_exact (cb : State.Callback T U P) (hthreads : Fintype.card T < 2 ^ 32)
    {s₀ s : Pools T U P} (hi : Initial cb s₀) (hr : Runs cb s₀ s) (p : P) :
    Counted s p ↔ 2 ^ 32 ∣ s.expired p := by
  obtain ⟨v, hv⟩ := hr.inv hi
  have hlt : (v.waits p).length < 2 ^ 32 :=
    (hv.shows_.nodup p).length_le_card.trans_lt hthreads
  have hcount : (s.memory.pool p).suspendThreadCount.toNat =
      ((v.waits p).length + s.expired p) % 2 ^ 32 := by
    rw [hv.counted, BitVec.toNat_ofNat]
  constructor
  · rintro ⟨ts, hcounted⟩
    have hlength := hcounted.count
    rw [hcount, hcounted.list.unique (hv.suspendThread p)] at hlength
    omega
  · intro hexpired
    have hexact : (s.memory.pool p).suspendThreadCount.toNat = (v.waits p).length := by omega
    refine ⟨v.waits p, hv.suspendThread p, hexact, fun b hb => ?_⟩
    obtain ⟨hzero, s', hfree, -, hsame⟩ | ⟨-, t, rest, s', hlist, hfree, hi'⟩ |
      ⟨hpos, hnil, -⟩ := hv.free_cases hb
    · have hnone : v.waits p = [] := by
        rw [← List.length_eq_zero_iff, ← hexact, hzero]
        rfl
      refine ⟨s', hfree, ?_⟩
      simp [hnone]
    · refine ⟨s', hfree, fun _ => by simp [hlist], fun _ => ⟨t, by simp [hlist], ?_⟩⟩
      rw [hi'.shows_.thread]
      simp
    · rw [hnil] at hexact
      exact absurd (BitVec.eq_of_toNat_eq hexact) hpos

/-! ## Runs, event by event -/

inductive Event (T : Type) where
  | alloc (t : T) (time : Tick)
  | resumed (t : T)
  | again (t : T)
  | free (b : Nat)
  | schedule
  | tick

def play (s : Pools T U Unit) : Event T → Exec (Pools T U Unit)
  | .alloc t time => do
    rtAssert (s.kernel.rtCurrentThread = some t ∧ (s.kernel.thread t).stat = .ready ∧
      s.place t = .outside)
    s.alloc (some t) () time
  | .resumed t =>
    match s.place t with
    | .waiting p time beforeSleep => do
      rtAssert (s.kernel.rtCurrentThread = some t ∧ (s.kernel.thread t).stat = .ready)
      pure (s.resumed t p time beforeSleep)
    | _ => throw .assertion
  | .again t =>
    match s.place t with
    | .woken p time => do
      rtAssert (s.kernel.rtCurrentThread = some t ∧ (s.kernel.thread t).stat = .ready)
      s.alloc (some t) p time
    | _ => throw .assertion
  | .free b => do
    rtAssert (b ∈ s.live ())
    s.free b
  | .schedule => do
    let k ← s.kernel.rtSchedule
    pure (s.elsewhere k)
  | .tick => do
    let k ← s.kernel.rtTickIncrease (State.timeoutFunc fun _ _ => []) (Fintype.card (T ⊕ U) + 1)
    pure (s.elsewhere k)

theorem play_step {s s' : Pools T U Unit} {event : Event T} (h : s.play event = .ok s') :
    Step (fun _ _ => []) s s' := by
  cases event with
  | alloc t time =>
    simp only [play, exec_bind_ok, rtAssert_eq_ok] at h
    obtain ⟨_, ⟨hcur, hready, hplace⟩, halloc⟩ := h
    exact .alloc (some t) () time (fun u hu => Option.some.inj hu ▸ ⟨⟨hcur, hready⟩, hplace⟩) halloc
  | resumed t =>
    cases hplace : s.place t with
    | waiting p time beforeSleep =>
      simp only [play, hplace, exec_bind_ok, rtAssert_eq_ok, exec_pure_ok] at h
      obtain ⟨_, hrunning, rfl⟩ := h
      exact .resumed t p time beforeSleep hrunning hplace
    | _ => simp [play, hplace] at h
  | again t =>
    cases hplace : s.place t with
    | woken p time =>
      simp only [play, hplace, exec_bind_ok, rtAssert_eq_ok] at h
      obtain ⟨_, hrunning, halloc⟩ := h
      exact .again t p time hrunning hplace halloc
    | _ => simp [play, hplace] at h
  | free b =>
    simp only [play, exec_bind_ok, rtAssert_eq_ok] at h
    obtain ⟨_, hb, hfree⟩ := h
    exact .free b () hb hfree
  | schedule =>
    simp only [play, exec_bind_ok, exec_pure_ok] at h
    obtain ⟨k, hschedule, rfl⟩ := h
    exact .elsewhere (.call .schedule (by simp [State.Foreign, KernelOp.target])
      (by simp [KernelOp.own]) hschedule)
  | tick =>
    simp only [play, exec_bind_ok, exec_pure_ok] at h
    obtain ⟨k, htick, rfl⟩ := h
    exact .elsewhere (.tick _ (by simp) htick)

/-- One pool, after `rt_mp_init`. -/
def init (size blockSize : BitVec 32) (k : State T U Unit) : Exec (Pools T U Unit) := do
  let m ← rtMpInit () 0x20000000 size blockSize ⟨fun _ => ⟨0, 0, 0, none, 0, 0, 0⟩, fun _ => .null⟩
  pure ⟨k, m, fun _ => .outside, fun _ => [], fun _ => 0⟩

theorem init_initial {cb : State.Callback T U Unit} {threads : List (T × Nat)}
    {k : State T U Unit} (hk : State.booted threads = .ok k)
    (hempty : rtListIsempty (.inl (.suspend ())) k.tlist = true) {size blockSize : BitVec 32}
    {s : Pools T U Unit} (h : init size blockSize k = .ok s) : Initial cb s := by
  simp only [init, exec_bind_ok, exec_pure_ok] at h
  obtain ⟨m, hinit, rfl⟩ := h
  exact ⟨State.booted_reached hk, fun _ => hempty, fun _ => rfl,
    fun _ => ⟨_, _, _, _, _, hinit, rfl, fun _ _ => rfl⟩, fun _ _ hpq => absurd rfl hpq,
    fun _ => rfl, fun _ => rfl⟩

/-- The threads of priority 31 and 10 run, and a pool of one block of 8 bytes is initialised. -/
def oneBlock : Exec (State Bool Empty Unit × Pools Bool Empty Unit) := do
  let k ← State.booted [(false, 31), (true, 10)]
  let s ← init 12 8 k
  pure (k, s)

theorem oneBlock_initial {k : State Bool Empty Unit} {s : Pools Bool Empty Unit}
    (h : oneBlock = .ok (k, s)) : Initial (fun _ _ => []) s := by
  have hempty : oneBlock.map (fun x => rtListIsempty (.inl (.suspend ())) x.1.tlist) =
      .ok true := by decide +kernel
  rw [h] at hempty
  simp only [oneBlock, exec_bind_ok, exec_pure_ok, Prod.mk.injEq] at h
  obtain ⟨k', hk, s', hinit, rfl, rfl⟩ := h
  exact init_initial hk (Except.ok.inj hempty) hinit

def playOneBlock (events : List (Event Bool)) :
    Exec (Pools Bool Empty Unit × Pools Bool Empty Unit) := do
  let (_, s₀) ← oneBlock
  let s ← events.foldlM play s₀
  pure (s₀, s)

theorem playOneBlock_runs {events : List (Event Bool)} {s₀ s : Pools Bool Empty Unit}
    (h : playOneBlock events = .ok (s₀, s)) :
    Initial (fun _ _ => []) s₀ ∧ Runs (fun _ _ => []) s₀ s := by
  simp only [playOneBlock, exec_bind_ok, exec_pure_ok, Prod.mk.injEq] at h
  obtain ⟨⟨k, s₀⟩, hblock, s, hplay, rfl, rfl⟩ := h
  exact ⟨oneBlock_initial hblock, foldlM_runs (fun _ _ _ => play_step) hplay⟩

/-- A thread takes the only block and waits for another one, until the first is freed. -/
def waitsForFree : List (Event Bool) :=
  [.alloc true 0xffffffff, .alloc true 0xffffffff, .schedule, .free 0x20000000, .schedule, .resumed true,
    .again true]

theorem waitsForFree_live : (playOneBlock waitsForFree).map
    (fun x => (x.2.live (), x.2.expired ())) = .ok ([0x20000000], 0) := by decide +kernel

theorem blocks_partitioned_after_wait :
    ∃ s₀ s : Pools Bool Empty Unit, s.live () = [0x20000000] ∧ ∃ free,
      Splits s.memory s.live () free ∧
      (s.memory.pool ()).blocks = (s₀.memory.pool ()).blocks ∧
      (∀ b ∈ s.live (), ∀ q, q ≠ () → b ∉ s.live q) ∧
      ∀ b ∈ s.live (), (s.expired () = 0 → ∃ s', s.free b = .ok s') ∧
        ∀ s', s.free b = .ok s' → Splits s'.memory s'.live () (b :: free) := by
  obtain ⟨⟨s₀, s⟩, hplay, hdata⟩ := exec_exists_ok waitsForFree_live
  obtain ⟨hinitial, hruns⟩ := playOneBlock_runs hplay
  simp only [Prod.mk.injEq] at hdata
  exact ⟨s₀, s, hdata.1, blocks_partitioned _ hinitial hruns ()⟩

theorem suspend_count_exact_after_wait :
    ∃ s : Pools Bool Empty Unit, s.live () = [0x20000000] ∧ Counted s () := by
  obtain ⟨⟨s₀, s⟩, hplay, hdata⟩ := exec_exists_ok waitsForFree_live
  obtain ⟨hinitial, hruns⟩ := playOneBlock_runs hplay
  simp only [Prod.mk.injEq] at hdata
  obtain ⟨hlive, hexpired⟩ := hdata
  exact ⟨s, hlive, (suspend_count_exact _ (by decide) hinitial hruns ()).mpr (by simp [hexpired])⟩

/-- A thread takes the only block and waits one tick for another one.  When it frees the block
    after that, `rt_mp_free` reads the head of the empty wait list as a thread. -/
theorem free_after_timeout :
    ∃ s₀ s : Pools Bool Empty Unit, Initial (fun _ _ => []) s₀ ∧
      Runs (fun _ _ => []) s₀ s ∧ (∀ t, ¬ s.Waits () t) ∧
      (s.memory.pool ()).suspendThreadCount = 1 ∧ 0x20000000 ∈ s.live () ∧
      s.free 0x20000000 = .error .wildPointer ∧ ¬ Counted s () := by
  let events : List (Event Bool) :=
    [.alloc true 0, .alloc true 1, .schedule, .tick, .schedule, .resumed true]
  obtain ⟨⟨s₀, s⟩, hplay, hdata⟩ := exec_exists_ok (show
    (playOneBlock events).map (fun x => decide ((∀ t, ¬ x.2.Waits () t) ∧
      (x.2.memory.pool ()).suspendThreadCount = 1 ∧ 0x20000000 ∈ x.2.live () ∧
      (x.2.free 0x20000000).map (fun _ => ()) = .error .wildPointer)) = .ok true by decide +kernel)
  obtain ⟨hinitial, hruns⟩ := playOneBlock_runs hplay
  obtain ⟨hnone, hcount, hlive, hfree⟩ := of_decide_eq_true hdata
  have hstuck : s.free 0x20000000 = .error .wildPointer := by
    cases hout : s.free 0x20000000 with
    | ok s' => simp [hout, Except.map] at hfree
    | error e => simpa [hout, Except.map] using hfree
  refine ⟨s₀, s, hinitial, hruns, hnone, hcount, hlive, hstuck, fun hcounted => ?_⟩
  obtain ⟨ts, hcounted⟩ := hcounted
  obtain ⟨s', hfree', -⟩ := hcounted.frees 0x20000000 hlive
  rw [hstuck] at hfree'
  cases hfree'

end Pools

end PandoraRobot.Memory
