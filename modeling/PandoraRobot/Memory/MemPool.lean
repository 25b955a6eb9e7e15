import PandoraRobot.Kernel.Blocking
import PandoraRobot.Lib.Chain

/-! # Memory pools

`rt_mp_init`, `rt_mp_alloc` and `rt_mp_free` of `mempool.c`, on any number of pools.
The first word of a block links it to the next free block, or points to the pool it
was allocated from.  A stretch of code between `rt_hw_interrupt_disable` and
`rt_hw_interrupt_enable` is one step; what an allocation does between its
`rt_schedule` and the next test of its loop is another.

Whatever the threads do, no block is lost or handed out twice.  But a wait that times
out leaves `suspend_thread_count` too high.
-/

namespace PandoraRobot.Memory

open PandoraRobot.Kernel PandoraRobot.Chain PandoraRobot.RingList

/-- The first word of a block, at an address or in the hands of a pool. -/
inductive Word (P : Type) where
  | null
  | block (b : Nat)
  | pool (p : P)
  deriving DecidableEq, Repr

/-- The link in the first word of a free block. -/
def Word.next {P : Type} : Option Nat → Word P
  | none => .null
  | some b => .block b

/-- The word is read as the link of a free block. -/
def Word.read {P : Type} : Word P → Exec (Option Nat)
  | .null => pure none
  | .block b => pure (some b)
  | .pool _ => throw .wildPointer

@[simp] theorem Word.read_next {P : Type} (b : Option Nat) :
    (Word.next b : Word P).read = .ok b := by
  cases b <;> rfl

/-- `struct rt_mempool`, less its wait list. -/
structure Mempool where
  startAddress : Nat
  size : BitVec 32
  blockSize : BitVec 32
  blockList : Option Nat
  blockTotalCount : BitVec 32
  blockFreeCount : BitVec 32
  suspendThreadCount : BitVec 32
  deriving DecidableEq, Repr

/-- The address of a block, by its number. -/
def Mempool.block (mp : Mempool) (offset : Nat) : Nat :=
  mp.startAddress + offset * (mp.blockSize + 4).toNat

/-- The addresses of all blocks. -/
def Mempool.blocks (mp : Mempool) : List Nat :=
  (List.range mp.blockTotalCount.toNat).map mp.block

/-- The pools, and the first words of their blocks. -/
structure PoolMemory (P : Type) where
  pool : P → Mempool
  word : Nat → Word P

section Code

variable {T U P : Type} [DecidableEq T] [DecidableEq U] [DecidableEq P] [Fintype T] [Fintype U]

def PoolMemory.setPool (p : P) (mp : Mempool) (m : PoolMemory P) : PoolMemory P :=
  { m with pool := Function.update m.pool p mp }

def PoolMemory.setWord (b : Nat) (w : Word P) (m : PoolMemory P) : PoolMemory P :=
  { m with word := Function.update m.word b w }

/-- `rt_mp_init`. -/
def rtMpInit (p : P) (start : Nat) (size blockSize : BitVec 32) (m : PoolMemory P) :
    Exec (PoolMemory P) := do
  let size := size &&& ~~~3
  let blockSize := (blockSize + 4 - 1) &&& ~~~3
  -- a division by zero
  if blockSize + 4 = 0 then throw .outOfBounds
  let total := size / (blockSize + 4)
  let mp : Mempool := ⟨start, size, blockSize, some start, total, total, 0⟩
  let m := (List.range total.toNat).foldl
    (fun m offset => m.setWord (mp.block offset) (.block (mp.block (offset + 1)))) m
  -- the null link of no block is written before the pool
  if total = 0 then throw .outOfBounds
  let m := m.setWord (mp.block (total.toNat - 1)) .null
  pure (m.setPool p mp)

/-- What `rt_mp_alloc` does in one stretch: it returns a block or `RT_NULL`, or its thread
    waits, from a tick on. -/
inductive AllocOut where
  | returned (block : Option Nat)
  | waits (beforeSleep : Tick)
  deriving DecidableEq, Repr

/-- `rt_set_errno`, called by a thread or, for `none`, in an interrupt. -/
def rtSetErrno (caller : Option T) (err : Err) (k : State T U P) : State T U P :=
  match caller with
  | none => k
  | some thread => k.setError thread err

/-- The thread is suspended at the front of the wait list and, with a waiting time, its timer is
    started. -/
def rtMpSuspend (p : P) (thread : T) (time : Tick) (k : State T U P) : Exec (State T U P) := do
  let (k, _) ← k.rtThreadSuspend thread
  let k := { k with tlist := rtListInsertAfter (.inl (.suspend p)) (.inr thread) k.tlist }
  if 0 < time.toInt then k.startThreadTimer thread time else pure k

/-- `rt_mp_alloc` from the test of its loop on, up to `rt_schedule`, called by a thread or, for
    `none`, in an interrupt. -/
def rtMpAlloc (caller : Option T) (p : P) (time : Tick) (m : PoolMemory P) (k : State T U P) :
    Exec (State T U P × PoolMemory P × AllocOut) := do
  let mp := m.pool p
  if mp.blockFreeCount = 0 then
    if time = 0 then pure (rtSetErrno caller .etimeout k, m, .returned none)
    else
      match caller with
      -- `RT_DEBUG_NOT_IN_INTERRUPT`
      | none => throw .assertion
      | some thread =>
        let beforeSleep := k.timers.rtTick
        let k ← rtMpSuspend p thread time (k.setError thread .eok)
        let m := m.setPool p { mp with suspendThreadCount := mp.suspendThreadCount + 1 }
        pure (k, m, .waits beforeSleep)
  else
    let mp := { mp with blockFreeCount := mp.blockFreeCount - 1 }
    match mp.blockList with
    | none => throw .assertion
    | some b =>
      let next ← (m.word b).read
      let m := m.setPool p { mp with blockList := next }
      pure (k, m.setWord b (.pool p), .returned (some b))

/-- `rt_mp_alloc` after `rt_schedule`, up to the test of its loop: the time left, or `none` where
    it returns `RT_NULL`. -/
def rtMpAllocResumed (thread : T) (time beforeSleep : Tick) (k : State T U P) : Option Tick :=
  if (k.thread thread).error ≠ .eok then none
  else some (k.timeLeft time beforeSleep)

/-- `rt_mp_free`, up to the `rt_schedule` that follows where a thread was resumed. -/
def rtMpFree (b : Nat) (m : PoolMemory P) (k : State T U P) : Exec (State T U P × PoolMemory P) :=
  match m.word b with
  | .null | .block _ => throw .wildPointer
  | .pool p => do
    let mp := m.pool p
    let m := m.setWord b (.next mp.blockList)
    let mp := { mp with blockFreeCount := mp.blockFreeCount + 1, blockList := some b }
    if (0 : BitVec 32) < mp.suspendThreadCount then
      match k.tlist.next (.inl (.suspend p)) with
      | .inl _ => throw .wildPointer
      | .inr thread =>
        let (k, _) ← (k.setError thread .eok).rtThreadResume thread
        let mp := { mp with suspendThreadCount := mp.suspendThreadCount - 1 }
        pure (k, m.setPool p mp)
    else pure (k, m.setPool p mp)

end Code

/-- Where a thread is in `rt_mp_alloc`. -/
inductive Place (P : Type) where
  | outside
  /-- In `rt_schedule`. -/
  | waiting (p : P) (time beforeSleep : Tick)
  /-- Before it tests its loop again. -/
  | woken (p : P) (time : Tick)
  deriving DecidableEq, Repr

/-- The wait list a thread is in while it is suspended. -/
def Place.waits {P : Type} : Place P → Option P
  | .waiting p _ _ => some p
  | _ => none

/-- The kernel, the pools, and where threads are in `rt_mp_alloc`. -/
structure Pools (T U P : Type) where
  kernel : State T U P
  memory : PoolMemory P
  place : T → Place P
  /-- The blocks that calls for a pool have returned, and that have not been freed since. -/
  live : P → List Nat
  /-- How many waits for a block of a pool have timed out. -/
  expired : P → Nat

namespace Pools

variable {T U P : Type} [DecidableEq T] [DecidableEq U] [DecidableEq P] [Fintype T] [Fintype U]

/-- `t` waits for a block of `p`. -/
def Waits (s : Pools T U P) (p : P) (t : T) : Prop :=
  (s.place t).waits = some p ∧ (s.kernel.thread t).stat = .suspend

instance (s : Pools T U P) (p : P) (t : T) : Decidable (s.Waits p t) := by
  unfold Waits
  infer_instance

/-- `rt_mp_alloc` by a caller that is at the test of the loop. -/
def alloc (caller : Option T) (p : P) (time : Tick) (s : Pools T U P) : Exec (Pools T U P) := do
  let (k, m, out) ← rtMpAlloc caller p time s.memory s.kernel
  let s := { s with kernel := k, memory := m }
  let goes := fun place => match caller with
    | none => s
    | some t => { s with place := Function.update s.place t place }
  match out with
  | .waits beforeSleep => pure (goes (.waiting p time beforeSleep))
  | .returned none => pure (goes .outside)
  | .returned (some b) =>
    pure { goes .outside with live := Function.update s.live p (b :: s.live p) }

def resumed (t : T) (p : P) (time beforeSleep : Tick) (s : Pools T U P) : Pools T U P :=
  match rtMpAllocResumed t time beforeSleep s.kernel with
  | none => { s with place := Function.update s.place t .outside }
  | some time => { s with place := Function.update s.place t (.woken p time) }

def free (b : Nat) (s : Pools T U P) : Exec (Pools T U P) := do
  let (k, m) ← rtMpFree b s.memory s.kernel
  pure { s with kernel := k, memory := m, live := fun p => (s.live p).erase b }

/-- The kernel goes on elsewhere.  A thread that waits no more has timed out. -/
def elsewhere (k : State T U P) (s : Pools T U P) : Pools T U P :=
  { s with
    kernel := k
    expired := fun p => s.expired p +
      (Finset.univ.filter fun t => s.Waits p t ∧ (k.thread t).stat ≠ .suspend).card }

inductive Step (cb : State.Callback T U P) : Pools T U P → Pools T U P → Prop where
  | alloc {s s' : Pools T U P} (caller : Option T) (p : P) (time : Tick) :
      (∀ t, caller = some t → s.kernel.Running t ∧ s.place t = .outside) →
      s.alloc caller p time = .ok s' → Step cb s s'
  /-- `rt_schedule` has returned to a thread that waited. -/
  | resumed {s : Pools T U P} (t : T) (p : P) (time beforeSleep : Tick) :
      s.kernel.Running t → s.place t = .waiting p time beforeSleep →
      Step cb s (s.resumed t p time beforeSleep)
  | again {s s' : Pools T U P} (t : T) (p : P) (time : Tick) : s.kernel.Running t →
      s.place t = .woken p time → s.alloc (some t) p time = .ok s' → Step cb s s'
  | free {s s' : Pools T U P} (b : Nat) (p : P) : b ∈ s.live p → s.free b = .ok s' → Step cb s s'
  | elsewhere {s : Pools T U P} {k : State T U P} :
      State.Elsewhere cb (fun t => s.place t ≠ .outside) s.kernel k → Step cb s (s.elsewhere k)

abbrev Runs (cb : State.Callback T U P) : Pools T U P → Pools T U P → Prop :=
  Relation.ReflTransGen (Step cb)

/-- Any kernel state a run reaches in which no thread waits for a block, and each pool as
    `rt_mp_init` leaves it, over memory that is no other pool's. -/
structure Initial (cb : State.Callback T U P) (s : Pools T U P) : Prop where
  reached : ∃ k₀, State.Initial k₀ ∧ State.Runs cb k₀ s.kernel
  empty : ∀ p, rtListIsempty (.inl (.suspend p)) s.kernel.tlist = true
  place : ∀ t, s.place t = .outside
  init : ∀ p, ∃ start size blockSize m m', rtMpInit p start size blockSize m = .ok m' ∧
    s.memory.pool p = m'.pool p ∧ ∀ b ∈ (m'.pool p).blocks, s.memory.word b = m'.word b
  apart : ∀ p q, p ≠ q →
    (s.memory.pool p).startAddress + (s.memory.pool p).size.toNat ≤
      (s.memory.pool q).startAddress ∨
    (s.memory.pool q).startAddress + (s.memory.pool q).size.toNat ≤
      (s.memory.pool p).startAddress
  live : ∀ p, s.live p = []
  expired : ∀ p, s.expired p = 0

end Pools

/-! ## The blocks of a pool -/

section Blocks

variable {P : Type} [DecidableEq P]

/-- The blocks of `p` are those of its free list and those that are allocated. -/
structure Splits (m : PoolMemory P) (live : P → List Nat) (p : P) (free : List Nat) : Prop where
  first : (m.pool p).blockList = free.head?
  linked : Linked Word.next m.word free
  owner : ∀ b ∈ live p, m.word b = .pool p
  nodup : (free ++ live p).Nodup
  blocks : ∀ b, b ∈ (m.pool p).blocks ↔ b ∈ free ∨ b ∈ live p
  count : (m.pool p).blockFreeCount.toNat = free.length

variable {m m' : PoolMemory P} {live live' : P → List Nat} {p q : P} {free : List Nat} {b : Nat}

@[simp] theorem setPool_word (mp : Mempool) : (m.setPool p mp).word = m.word := rfl
@[simp] theorem setPool_pool (mp : Mempool) :
    (m.setPool p mp).pool = Function.update m.pool p mp := rfl

section

omit [DecidableEq P]

@[simp] theorem setWord_pool (w : Word P) : (m.setWord b w).pool = m.pool := rfl
@[simp] theorem setWord_word (w : Word P) :
    (m.setWord b w).word = Function.update m.word b w := rfl

/-- A pool does not change when others do, nor by its count of suspended threads. -/
theorem Splits.frame (h : Splits m live p free) {n : BitVec 32}
    (hpool : m'.pool p = { m.pool p with suspendThreadCount := n })
    (hword : ∀ b ∈ (m.pool p).blocks, m'.word b = m.word b) (hlive : live' p = live p) :
    Splits m' live' p free := by
  apply Splits.mk
  · rw [hpool]
    exact h.first
  · exact h.linked.congr fun b hb => hword b ((h.blocks b).mpr (.inl hb))
  · intro b hb
    rw [hlive] at hb
    rw [hword b ((h.blocks b).mpr (.inr hb)), h.owner b hb]
  · rw [hlive]
    exact h.nodup
  · rw [hlive, hpool]
    exact h.blocks
  · rw [hpool]
    exact h.count

/-- There are no more blocks than the pool has been divided into. -/
theorem Splits.length_le (h : Splits m live p free) :
    free.length + (live p).length ≤ (m.pool p).blockTotalCount.toNat := by
  have hsub : free ++ live p ⊆ (m.pool p).blocks := by
    intro b hb
    rw [h.blocks]
    exact List.mem_append.mp hb
  have hle := (List.subperm_of_subset h.nodup hsub).length_le
  simpa [Mempool.blocks] using hle

end

/-- The first free block is allocated. -/
theorem Splits.take (h : Splits m live p (b :: free)) {mp : Mempool}
    (hmp : mp = { m.pool p with
      blockFreeCount := (m.pool p).blockFreeCount - 1, blockList := free.head? }) :
    Splits ((m.setPool p mp).setWord b (.pool p)) (Function.update live p (b :: live p)) p
      free := by
  have hnodup := h.nodup
  have hcount := h.count
  rw [List.cons_append, List.nodup_cons, List.mem_append, not_or] at hnodup
  obtain ⟨⟨hfree, hlive⟩, hrest⟩ := hnodup
  apply Splits.mk
  · simp [hmp]
  · exact h.linked.2.update hfree
  · intro c hc
    by_cases hcb : c = b
    · simp [hcb]
    · have hmem : c ∈ live p := by simpa [hcb] using hc
      simpa [hcb] using h.owner c hmem
  · simp only [Function.update_self]
    rw [List.nodup_middle, List.nodup_cons, List.mem_append, not_or]
    exact ⟨⟨hfree, hlive⟩, hrest⟩
  · intro c
    have hblocks : ((m.setPool p mp).pool p).blocks = (m.pool p).blocks := by
      simp [hmp, Mempool.blocks, Mempool.block]
    rw [setWord_pool, hblocks, h.blocks]
    simp only [Function.update_self, List.mem_cons]
    tauto
  · have hpos : (m.pool p).blockFreeCount.toNat = free.length + 1 := by simpa using hcount
    simp only [setWord_pool, setPool_pool, Function.update_self, hmp]
    bv_omega

/-- The memory after `b` has been freed, the count of suspended threads being `n`. -/
def PoolMemory.freed (b : Nat) (p : P) (n : BitVec 32) (m : PoolMemory P) : PoolMemory P :=
  (m.setWord b (.next (m.pool p).blockList)).setPool p { m.pool p with
    blockFreeCount := (m.pool p).blockFreeCount + 1
    blockList := some b
    suspendThreadCount := n }

@[simp] theorem freed_word {n : BitVec 32} :
    (m.freed b p n).word = Function.update m.word b (.next (m.pool p).blockList) := rfl
@[simp] theorem freed_other {n : BitVec 32} (hq : q ≠ p) :
    (m.freed b p n).pool q = m.pool q := by
  simp [PoolMemory.freed, hq]
@[simp] theorem freed_suspended {n : BitVec 32} :
    ((m.freed b p n).pool p).suspendThreadCount = n := by
  simp [PoolMemory.freed]
@[simp] theorem freed_blocks {n : BitVec 32} :
    ((m.freed b p n).pool p).blocks = (m.pool p).blocks := by
  simp [PoolMemory.freed, Mempool.blocks, Mempool.block]

/-- An allocated block goes to the front of the free list of its pool. -/
theorem Splits.put (h : Splits m live p free) (hb : b ∈ live p) {n : BitVec 32}
    (hlive : live' p = (live p).erase b) : Splits (m.freed b p n) live' p (b :: free) := by
  have hnodup := h.nodup
  have hcount := h.count
  have hlength := h.length_le
  have hlt := (m.pool p).blockTotalCount.isLt
  have hpos := List.length_pos_of_mem hb
  rw [List.nodup_append] at hnodup
  obtain ⟨hfree, hnd, hdisjoint⟩ := hnodup
  have hnot : b ∉ free := fun hm => hdisjoint b hm b hb rfl
  apply Splits.mk
  · simp [PoolMemory.freed]
  · rw [freed_word, h.first]
    exact h.linked.push hnot
  · intro c hc
    rw [hlive, hnd.mem_erase_iff] at hc
    simpa [hc.1] using h.owner c hc.2
  · rw [hlive, List.cons_append, List.nodup_cons, List.mem_append, not_or, List.nodup_append]
    exact ⟨⟨hnot, hnd.not_mem_erase⟩, hfree, hnd.erase b,
      fun c hc d hd => hdisjoint c hc d (List.mem_of_mem_erase hd)⟩
  · intro c
    rw [freed_blocks, h.blocks, hlive, hnd.mem_erase_iff, List.mem_cons]
    by_cases hcb : c = b
    · simp [hcb, hb]
    · simp [hcb]
  · simp only [PoolMemory.freed, setPool_pool, Function.update_self, List.length_cons]
    bv_omega

/-! ## Initialisation -/

theorem block_injective {mp : Mempool} (hstride : mp.blockSize + 4 ≠ 0) :
    Function.Injective mp.block := by
  intro i j h
  have hpos : 0 < (mp.blockSize + 4).toNat := by bv_omega
  simp only [Mempool.block, Nat.add_left_cancel_iff] at h
  exact Nat.eq_of_mul_eq_mul_right hpos h

section

omit [DecidableEq P]

/-- The loop of `rt_mp_init` links each block to the next. -/
theorem link_blocks {mp : Mempool} (hstride : mp.blockSize + 4 ≠ 0) (n : Nat) :
    let m' := (List.range n).foldl
      (fun m offset => m.setWord (mp.block offset) (.block (mp.block (offset + 1)))) m
    m'.pool = m.pool ∧ ∀ i < n, m'.word (mp.block i) = .block (mp.block (i + 1)) := by
  induction n with
  | zero => simp
  | succ n ih =>
    obtain ⟨hpool, hword⟩ := ih
    simp only [List.range_succ, List.foldl_append, List.foldl_cons, List.foldl_nil]
    refine ⟨hpool, fun i hi => ?_⟩
    by_cases hin : i = n
    · simp [hin]
    · have hne : mp.block i ≠ mp.block n := fun h => hin (block_injective hstride h)
      simp [hne, hword i (by omega)]

/-- Blocks that are linked one to the next, the last of them to none, are a list. -/
theorem linked_blocks {mp : Mempool} {word : Nat → Word P} {n : Nat} :
    ∀ {i : Nat}, (∀ j, i ≤ j → j < i + n → word (mp.block j) = .block (mp.block (j + 1))) →
      word (mp.block (i + n)) = .null →
      Linked Word.next word ((List.range' i (n + 1)).map mp.block) := by
  induction n with
  | zero =>
    intro i _ hlast
    exact ⟨hlast, trivial⟩
  | succ n ih =>
    intro i hnext hlast
    rw [List.range'_succ, List.map_cons]
    refine ⟨?_, ih (fun j hij hj => hnext j (by omega) (by omega)) ?_⟩
    · rw [hnext i le_rfl (by omega), List.range'_succ]
      rfl
    · rwa [Nat.add_right_comm, Nat.add_assoc]

end

/-- What `rt_mp_init` has done to its pool. -/
structure Initialised (m : PoolMemory P) (p : P) : Prop where
  first : (m.pool p).blockList = (m.pool p).blocks.head?
  linked : Linked Word.next m.word (m.pool p).blocks
  nodup : (m.pool p).blocks.Nodup
  count : (m.pool p).blockFreeCount.toNat = (m.pool p).blocks.length
  suspended : (m.pool p).suspendThreadCount = 0
  within : ∀ b ∈ (m.pool p).blocks, (m.pool p).startAddress ≤ b ∧
    b < (m.pool p).startAddress + (m.pool p).size.toNat

/-- A pool whose blocks have been linked is initialised. -/
theorem initialised {mp : Mempool} {n : Nat} (hstride : mp.blockSize + 4 ≠ 0)
    (htotal : mp.blockTotalCount.toNat = n + 1)
    (hfit : (n + 1) * (mp.blockSize + 4).toNat ≤ mp.size.toNat)
    (hlist : mp.blockList = some mp.startAddress) (hfree : mp.blockFreeCount = mp.blockTotalCount)
    (hsuspended : mp.suspendThreadCount = 0) :
    Initialised ((((List.range (n + 1)).foldl
      (fun m offset => m.setWord (mp.block offset) (.block (mp.block (offset + 1)))) m).setWord
        (mp.block n) .null).setPool p mp) p := by
  obtain ⟨-, hword⟩ := link_blocks (m := m) hstride (n + 1)
  have hblocks : mp.blocks = (List.range' 0 (n + 1)).map mp.block := by
    rw [Mempool.blocks, List.range_eq_range', htotal]
  apply Initialised.mk
  · simp [hblocks, hlist, List.range'_succ, Mempool.block]
  · simp only [setPool_pool, Function.update_self, setPool_word, setWord_word, hblocks]
    apply linked_blocks
    · intro j _ hj
      have hne : mp.block j ≠ mp.block n := fun h =>
        absurd (block_injective hstride h) (by omega)
      rw [Function.update_of_ne hne]
      exact hword j (by omega)
    · simp
  · simp only [setPool_pool, Function.update_self]
    exact List.nodup_range.map (block_injective hstride)
  · simp [Mempool.blocks, hfree]
  · simpa using hsuspended
  · simp only [setPool_pool, Function.update_self, Mempool.blocks, List.mem_map, List.mem_range,
      htotal]
    rintro _ ⟨i, hi, rfl⟩
    have hpos : 0 < (mp.blockSize + 4).toNat := by bv_omega
    have hnext : (i + 1) * (mp.blockSize + 4).toNat ≤ (n + 1) * (mp.blockSize + 4).toNat :=
      Nat.mul_le_mul_right _ hi
    rw [Nat.succ_mul] at hnext
    simp only [Mempool.block]
    omega

theorem rtMpInit_initialised {start : Nat} {size blockSize : BitVec 32}
    (h : rtMpInit p start size blockSize m = .ok m') : Initialised m' p := by
  unfold rtMpInit at h
  simp only at h
  split at h
  case isTrue => simp [bind, Except.bind] at h
  case isFalse hstride =>
    split at h
    case isTrue => simp [bind, Except.bind] at h
    case isFalse htotal =>
      simp only [exec_pure_ok] at h
      subst h
      obtain ⟨n, hn⟩ : ∃ n, ((size &&& ~~~3) / (((blockSize + 4 - 1) &&& ~~~3) + 4)).toNat = n + 1 :=
        Nat.exists_eq_succ_of_ne_zero fun hzero => htotal (BitVec.eq_of_toNat_eq hzero)
      have hfit : (n + 1) * (((blockSize + 4 - 1) &&& ~~~3) + 4).toNat ≤
          (size &&& ~~~3).toNat := by
        rw [← hn, BitVec.toNat_udiv]
        exact Nat.div_mul_le_self _ _
      rw [hn]
      exact initialised hstride hn hfit rfl rfl rfl

end Blocks

end PandoraRobot.Memory
