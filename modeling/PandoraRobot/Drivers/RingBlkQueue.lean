import Mathlib.Data.List.Chain
import Mathlib.Data.List.Perm.Subperm
import PandoraRobot.Drivers.RingBlkBufRuns

/-! # Queues of a ring block buffer

What `rt_rbb_blk_queue_get` takes from a ring block buffer, and what the functions on the queue
make of its first block and its count.

The first block is taken whatever its size, and a block is taken behind another one if it is not
below it.  The queue has the blocks by their places in the block set, which need not follow each
other as the blocks do in the list.
-/

namespace PandoraRobot.Drivers

open PandoraRobot.Kernel PandoraRobot.Trace PandoraRobot.BlockRing

namespace RtRbb

/-! ## The functions on queues -/

/-- `rt_rbb_blk_queue_len`. -/
def rtRbbBlkQueueLen (blkQueue : RtRbbBlkQueue) (rbb : RtRbb) : Exec Nat :=
  (List.range' blkQueue.blocks blkQueue.blkNum).foldlM
    (fun (len : Nat) i => if i < rbb.blkMaxNum then pure (rtSize (len + (rbb.blkSet i).size))
      else throw .outOfBounds) 0

/-- The loop of `rt_rbb_next_blk_queue_len` over the nodes that are left. -/
def nextLenLoop (rbb : RtRbb) : List Nat → Option Nat → Nat → Nat
  | [], _, dataLen => dataLen
  | node :: nodes, none, dataLen =>
    let block := rbb.blkSet node
    if block.status = .put then nextLenLoop rbb nodes (some node) (rtSize (dataLen + block.size))
    -- the first block must be put status
    else nextLenLoop rbb nodes none dataLen
  | node :: nodes, some lastBlock, dataLen =>
    let block := rbb.blkSet node
    if block.status ≠ .put ∨ block.buf < (rbb.blkSet lastBlock).buf then dataLen
    else nextLenLoop rbb nodes (some node) (rtSize (dataLen + block.size))

/-- `rt_rbb_next_blk_queue_len`. -/
def rtRbbNextBlkQueueLen (rbb : RtRbb) : Nat := nextLenLoop rbb rbb.blkList none 0

/-! ## What is meant -/

/-- The bytes of blocks. -/
def sizes (rbb : RtRbb) (blks : List Nat) : Nat := (blks.map fun i => (rbb.blkSet i).size).sum

/-- The second block starts where the first one ends. -/
def Adjoins (rbb : RtRbb) (a b : Nat) : Prop :=
  (rbb.blkSet b).buf = (rbb.blkSet a).buf + (rbb.blkSet a).size

instance (rbb : RtRbb) : DecidableRel rbb.Adjoins := fun _ _ => inferInstanceAs (Decidable (_ = _))

/-- What is taken is a run of the list from the first block on that has been put, without gaps and
    of the length that is returned and that the queue has.  The queue is freed as a whole. -/
structure QueueRight (queueDataLen : Nat) (blkQueue : RtRbbBlkQueue) (rbb : RtRbb) : Prop where
  first : (rbb.rtRbbBlkQueueGet queueDataLen blkQueue).taken.head? =
    rbb.blkList.find? fun i => (rbb.blkSet i).status = .put
  run : (rbb.rtRbbBlkQueueGet queueDataLen blkQueue).taken <:+: rbb.blkList
  put : ∀ i ∈ (rbb.rtRbbBlkQueueGet queueDataLen blkQueue).taken, (rbb.blkSet i).status = .put
  contiguous : (rbb.rtRbbBlkQueueGet queueDataLen blkQueue).taken.IsChain rbb.Adjoins
  size : (rbb.rtRbbBlkQueueGet queueDataLen blkQueue).dataTotalSize =
    rbb.sizes (rbb.rtRbbBlkQueueGet queueDataLen blkQueue).taken
  size_le : rbb.sizes (rbb.rtRbbBlkQueueGet queueDataLen blkQueue).taken ≤ queueDataLen
  queueLen : ∀ q, q = rbb.rtRbbBlkQueueGet queueDataLen blkQueue →
    q.rbb.rtRbbBlkQueueLen q.blkQueue = .ok q.dataTotalSize
  queueFree : ∀ q, q = rbb.rtRbbBlkQueueGet queueDataLen blkQueue →
    ∃ rbb', q.rbb.rtRbbBlkQueueFree q.blkQueue = .ok rbb' ∧ rbb'.blkList = q.rbb.blkList ∧
      ∀ i, rbb'.blkSet i =
        if i ∈ q.taken then { q.rbb.blkSet i with status := .unused } else q.rbb.blkSet i
  nextLen : rbb.rtRbbNextBlkQueueLen =
    (rbb.rtRbbBlkQueueGet (2 ^ 32 - 1) blkQueue).dataTotalSize

/-- The blocks of the list that the tests of the loop let follow a block. -/
def followers (rbb : RtRbb) (queueDataLen : Nat) : Nat → Nat → List Nat → List Nat
  | _, _, [] => []
  | last, total, node :: nodes =>
    if (rbb.blkSet node).status = .put ∧ (rbb.blkSet last).buf ≤ (rbb.blkSet node).buf ∧
        total + (rbb.blkSet node).size ≤ queueDataLen then
      node :: followers rbb queueDataLen node (total + (rbb.blkSet node).size) nodes
    else []

/-- The first block that has been put, and those that follow it. -/
def putRun (queueDataLen : Nat) (rbb : RtRbb) : List Nat :=
  match rbb.blkList.dropWhile fun i => (rbb.blkSet i).status ≠ .put with
  | [] => []
  | first :: nodes =>
    first :: followers rbb queueDataLen first (rbb.blkSet first).size nodes

/-- The first block that has been put is no longer than the queue may be, each block that is put
    and not below the one before starts where that one ends, as far as the length goes, and they
    are next to each other in the block set.  Without a block that has been put, the queue passed
    in is empty. -/
structure QueueMeets (queueDataLen : Nat) (blkQueue : RtRbbBlkQueue) (rbb : RtRbb) : Prop where
  none : (rbb.blkList.find? fun i => (rbb.blkSet i).status = .put) = none → blkQueue.blkNum = 0
  first : ∀ first, (rbb.blkList.find? fun i => (rbb.blkSet i).status = .put) = some first →
    (rbb.blkSet first).size ≤ queueDataLen ∧
      (rbb.putRun queueDataLen).IsChain rbb.Adjoins ∧
      ∀ i ∈ rbb.putRun queueDataLen, first ≤ i ∧ i < first + (rbb.putRun queueDataLen).length

/-- The list has blocks of the set, each once, and they fit into a buffer. -/
structure Wf (rbb : RtRbb) : Prop where
  nodup : rbb.blkList.Nodup
  bound : ∀ i ∈ rbb.blkList, i < rbb.blkMaxNum
  room : rbb.sizes rbb.blkList < 2 ^ 32

/-! ## The blocks taken -/

variable {rbb rbb' : RtRbb} {q q' : QueueLoop} {blks nodes : List Nat} {b last total : Nat}
  {queueDataLen : Nat} {blkQueue : RtRbbBlkQueue}

theorem sizes_cons : rbb.sizes (b :: blks) = (rbb.blkSet b).size + rbb.sizes blks := by
  simp [sizes]

theorem sizes_congr (h : ∀ i ∈ blks, (rbb'.blkSet i).size = (rbb.blkSet i).size) :
    rbb'.sizes blks = rbb.sizes blks := by
  rw [sizes, sizes, List.map_congr_left h]

theorem sizes_sublist (h : blks.Sublist nodes) : rbb.sizes blks ≤ rbb.sizes nodes := by
  induction h with
  | slnil => exact le_rfl
  | cons b _ ih =>
    rw [sizes_cons]
    omega
  | cons_cons b _ ih =>
    rw [sizes_cons, sizes_cons]
    omega

theorem sizes_perm (h : blks.Perm nodes) : rbb.sizes blks = rbb.sizes nodes := by
  induction h with
  | nil => rfl
  | cons b _ ih => rw [sizes_cons, sizes_cons, ih]
  | swap a b blks =>
    simp only [sizes_cons]
    omega
  | trans _ _ ih₁ ih₂ => exact ih₁.trans ih₂

/-- From `q` on, the loop has taken the blocks. -/
structure Took (q : QueueLoop) (blks : List Nat) (q' : QueueLoop) : Prop where
  taken : q'.taken = q.taken ++ blks
  dataTotalSize : q'.dataTotalSize = q.dataTotalSize + q.rbb.sizes blks
  blkQueue : q'.blkQueue = ⟨q.blkQueue.blocks, q.blkQueue.blkNum + blks.length⟩
  blkSet : ∀ i, q'.rbb.blkSet i =
    if i ∈ blks then { q.rbb.blkSet i with status := .get } else q.rbb.blkSet i
  blkList : q'.rbb.blkList = q.rbb.blkList.diff blks
  blkMaxNum : q'.rbb.blkMaxNum = q.rbb.blkMaxNum

theorem Took.refl (q : QueueLoop) : Took q [] q where
  taken := (List.append_nil _).symm
  dataTotalSize := by simp [sizes]
  blkQueue := rfl
  blkSet i := by simp
  blkList := rfl
  blkMaxNum := rfl

theorem take_blkSet (i : Nat) : (q.take b).rbb.blkSet i =
    if i = b then { q.rbb.blkSet b with status := .get } else q.rbb.blkSet i := by
  unfold QueueLoop.take
  by_cases hi : i = b
  · rw [if_pos hi, hi, setStatus_self, remove_blkSet]
  · rw [if_neg hi, setStatus_of_ne _ _ hi, remove_blkSet]

theorem take_size (i : Nat) : ((q.take b).rbb.blkSet i).size = (q.rbb.blkSet i).size := by
  rw [take_blkSet]
  split
  next hi => rw [hi]
  next => rfl

theorem Took.cons (h : Took (q.take b) blks q')
    (hroom : q.dataTotalSize + (q.rbb.blkSet b).size < 2 ^ 32) : Took q (b :: blks) q' where
  taken := by
    rw [h.taken, QueueLoop.take, List.append_assoc, List.singleton_append]
  dataTotalSize := by
    have hsame : (q.take b).rbb.sizes blks = q.rbb.sizes blks :=
      sizes_congr fun i _ => take_size i
    have hfirst : (q.take b).dataTotalSize = q.dataTotalSize + (q.rbb.blkSet b).size := by
      rw [QueueLoop.take, ← Nat.cast_add, rtSize_of_lt hroom]
    rw [h.dataTotalSize, hsame, hfirst, sizes_cons, Nat.add_assoc]
  blkQueue := by
    rw [h.blkQueue]
    simp only [QueueLoop.take, List.length_cons]
    congr 1
    omega
  blkSet i := by
    rw [h.blkSet, take_blkSet]
    by_cases hi : i = b
    · simp [hi]
    · simp [hi]
  blkList := by
    rw [h.blkList, List.diff_cons]
    rfl
  blkMaxNum := h.blkMaxNum

theorem followers_prefix : followers rbb queueDataLen last total nodes <+: nodes := by
  induction nodes generalizing last total with
  | nil => exact List.prefix_rfl
  | cons node nodes ih =>
    rw [followers]
    split
    next => exact List.cons_prefix_cons.mpr ⟨rfl, ih⟩
    next => exact List.nil_prefix

/-- Once a block has been taken, the loop takes those that follow it. -/
theorem queueGetLoop_took (hlast : q.lastBlock = some last)
    (hsame : ∀ i ∈ nodes, q.rbb.blkSet i = rbb.blkSet i)
    (hbuf : (q.rbb.blkSet last).buf = (rbb.blkSet last).buf) (hnodup : nodes.Nodup)
    (hroom : q.dataTotalSize + rbb.sizes nodes < 2 ^ 32) :
    Took q (followers rbb queueDataLen last q.dataTotalSize nodes)
      (queueGetLoop queueDataLen nodes q) := by
  -- `last` is the block taken last, whose place is compared
  induction nodes generalizing q last with
  | nil =>
    rw [queueGetLoop, followers]
    exact .refl q
  | cons node nodes ih =>
    obtain ⟨hnode, hnodup'⟩ := List.nodup_cons.mp hnodup
    have hblock := hsame node List.mem_cons_self
    rw [sizes_cons] at hroom
    -- the sum does not wrap, since all blocks are in the buffer
    have hfits : rtSize (q.dataTotalSize + (rbb.blkSet node).size) =
        q.dataTotalSize + (rbb.blkSet node).size := by
      rw [← Nat.cast_add, rtSize_of_lt (by omega)]
    rw [queueGetLoop, followers, hlast]
    simp only [hblock, hbuf, hfits]
    by_cases hgo : (rbb.blkSet node).status = .put ∧
        (rbb.blkSet last).buf ≤ (rbb.blkSet node).buf ∧
        q.dataTotalSize + (rbb.blkSet node).size ≤ queueDataLen
    · obtain ⟨hput, hle, hlen⟩ := hgo
      have hstop : ¬ ((rbb.blkSet node).status ≠ .put ∨
          (rbb.blkSet node).buf < (rbb.blkSet last).buf ∨
          queueDataLen < q.dataTotalSize + (rbb.blkSet node).size) := by
        rw [not_or, not_or, not_not]
        exact ⟨hput, by omega, by omega⟩
      have htotal : (q.take node).dataTotalSize =
          q.dataTotalSize + (rbb.blkSet node).size := by
        rw [QueueLoop.take, hblock, hfits]
      rw [if_neg hstop, if_pos ⟨hput, hle, hlen⟩, ← htotal]
      refine Took.cons (ih rfl (fun i hi => ?_) ?_ hnodup' ?_) ?_
      · have hne : i ≠ node := fun h => hnode (h ▸ hi)
        rw [take_blkSet, if_neg hne]
        exact hsame i (List.mem_cons_of_mem _ hi)
      · rw [take_blkSet, if_pos rfl, hblock]
      · rw [htotal]
        omega
      · rw [hblock]
        omega
    · have hstop : (rbb.blkSet node).status ≠ .put ∨
          (rbb.blkSet node).buf < (rbb.blkSet last).buf ∨
          queueDataLen < q.dataTotalSize + (rbb.blkSet node).size := by
        by_contra hnot
        rw [not_or, not_or, not_not] at hnot
        exact hgo ⟨hnot.1, by omega, by omega⟩
      rw [if_pos hstop, if_neg hgo]
      exact .refl q

/-- Up to the first block that has been put, the loop takes nothing. -/
theorem queueGetLoop_none (hlast : q.lastBlock = none) :
    queueGetLoop queueDataLen nodes q =
      match nodes.dropWhile fun i => (q.rbb.blkSet i).status ≠ .put with
      | [] => q
      | first :: rest =>
        queueGetLoop queueDataLen rest ({ q with blkQueue := ⟨first, 0⟩ }.take first) := by
  induction nodes with
  | nil => rfl
  | cons node nodes ih =>
    rw [queueGetLoop, hlast]
    by_cases hput : (q.rbb.blkSet node).status = .put
    · simp [hput]
    · simp [hput, ih, hlast]

theorem find?_put_eq : (nodes.find? fun i => (rbb.blkSet i).status = .put) =
    (nodes.dropWhile fun i => (rbb.blkSet i).status ≠ .put).head? := by
  induction nodes with
  | nil => rfl
  | cons node nodes ih =>
    by_cases hput : (rbb.blkSet node).status = .put
    · simp [hput]
    · simp [hput, ih]

theorem mem_followers {i : Nat} (h : i ∈ followers rbb queueDataLen last total nodes) :
    (rbb.blkSet i).status = .put := by
  induction nodes generalizing last total with
  | nil => cases h
  | cons node nodes ih =>
    rw [followers] at h
    split at h
    next hgo =>
      obtain rfl | hi := List.mem_cons.mp h
      · exact hgo.1
      · exact ih hi
    next => cases h

/-- Those that follow do not go beyond the length. -/
theorem sizes_followers_le (h : total ≤ queueDataLen) :
    total + rbb.sizes (followers rbb queueDataLen last total nodes) ≤ queueDataLen := by
  induction nodes generalizing last total with
  | nil => simpa [followers, sizes] using h
  | cons node nodes ih =>
    rw [followers]
    split
    next hgo =>
      have hrest := @ih node (total + (rbb.blkSet node).size) hgo.2.2
      rw [sizes_cons]
      omega
    next => simpa [sizes] using h

/-- The run, as it stands in the list. -/
inductive RunIs (queueDataLen : Nat) (rbb : RtRbb) : List Nat → Prop where
  | none (hrun : rbb.putRun queueDataLen = [])
    (hfind : (rbb.blkList.find? fun i => (rbb.blkSet i).status = .put) = none)
    (hget : ∀ blkQueue, rbb.rtRbbBlkQueueGet queueDataLen blkQueue =
      ⟨rbb, .none, 0, blkQueue, []⟩) : RunIs queueDataLen rbb []
  | some {first : Nat} {more : List Nat} (hrun : rbb.putRun queueDataLen = first :: more)
    (hfind : (rbb.blkList.find? fun i => (rbb.blkSet i).status = .put) = .some first)
    (hin : (first :: more) <:+: rbb.blkList)
    (hput : ∀ i ∈ first :: more, (rbb.blkSet i).status = .put)
    (hle : (rbb.blkSet first).size ≤ queueDataLen →
      rbb.sizes (first :: more) ≤ queueDataLen)
    (hget : ∀ blkQueue, Took ⟨rbb, .none, 0, ⟨first, 0⟩, []⟩ (first :: more)
      (rbb.rtRbbBlkQueueGet queueDataLen blkQueue)) : RunIs queueDataLen rbb (first :: more)

theorem Wf.runIs (hwf : rbb.Wf) (queueDataLen : Nat) :
    RunIs queueDataLen rbb (rbb.putRun queueDataLen) := by
  have hfind := @find?_put_eq rbb rbb.blkList
  have hget := fun blkQueue =>
    @queueGetLoop_none ⟨rbb, none, 0, blkQueue, []⟩ rbb.blkList queueDataLen rfl
  obtain ⟨behind, hbehind⟩ : ∃ behind,
      (rbb.blkList.dropWhile fun i => (rbb.blkSet i).status ≠ .put) = behind := ⟨_, rfl⟩
  have hsuffix : behind <:+ rbb.blkList := hbehind ▸ List.dropWhile_suffix _
  simp only [hbehind] at hget
  rw [hbehind] at hfind
  -- the loop passes the blocks that are not put, up to the first one
  cases behind with
  | nil =>
    have hrun : rbb.putRun queueDataLen = [] := by rw [putRun, hbehind]
    rw [hrun]
    exact .none hrun hfind hget
  | cons first nodes =>
    have hrun : rbb.putRun queueDataLen =
        first :: followers rbb queueDataLen first (rbb.blkSet first).size nodes := by
      rw [putRun, hbehind]
    have hfirst : (rbb.blkSet first).status = .put := by
      simpa using List.find?_some hfind
    have hnodup := hwf.nodup.sublist hsuffix.sublist
    obtain ⟨hnot, hnodes⟩ := List.nodup_cons.mp hnodup
    have hroom := lt_of_le_of_lt (sizes_sublist hsuffix.sublist) hwf.room
    rw [sizes_cons] at hroom
    rw [hrun]
    refine .some hrun hfind ?_ ?_ (fun hle => ?_) fun blkQueue => ?_
    · exact (List.cons_prefix_cons.mpr ⟨rfl, followers_prefix⟩).isInfix.trans hsuffix.isInfix
    · intro i hi
      obtain rfl | hi := List.mem_cons.mp hi
      · exact hfirst
      · exact mem_followers hi
    · rw [sizes_cons]
      exact sizes_followers_le hle
    · have htotal : (QueueLoop.take first ⟨rbb, none, 0, ⟨first, 0⟩, []⟩).dataTotalSize =
          (rbb.blkSet first).size := by
        show rtSize (((0 : Nat) : Int) + (rbb.blkSet first).size) = _
        rw [← Nat.cast_add, rtSize_of_lt (by omega), Nat.zero_add]
      rw [rtRbbBlkQueueGet, hget, ← htotal]
      refine Took.cons (queueGetLoop_took rfl (fun i hi => ?_) ?_ hnodes ?_)
        (show 0 + (rbb.blkSet first).size < 2 ^ 32 by omega)
      · have hne : i ≠ first := fun h => hnot (h ▸ hi)
        rw [take_blkSet, if_neg hne]
      · rw [take_blkSet, if_pos rfl]
      · rw [htotal]
        exact hroom

/-! ## The next queue -/

theorem nextLenLoop_some (hroom : total + rbb.sizes nodes < 2 ^ 32) :
    nextLenLoop rbb nodes (some last) total =
      total + rbb.sizes (followers rbb (2 ^ 32 - 1) last total nodes) := by
  induction nodes generalizing last total with
  | nil => simp [nextLenLoop, followers, sizes]
  | cons node nodes ih =>
    rw [sizes_cons] at hroom
    have hfits : rtSize (total + (rbb.blkSet node).size) = total + (rbb.blkSet node).size := by
      rw [← Nat.cast_add, rtSize_of_lt (by omega)]
    rw [nextLenLoop, followers]
    simp only [hfits]
    by_cases hgo : (rbb.blkSet node).status = .put ∧
        (rbb.blkSet last).buf ≤ (rbb.blkSet node).buf
    · rw [if_neg (by rw [not_or, not_not]; exact ⟨hgo.1, by omega⟩),
        if_pos ⟨hgo.1, hgo.2, by omega⟩, ih (by omega), sizes_cons, Nat.add_assoc]
    · rw [if_pos (by by_contra hnot; rw [not_or, not_not] at hnot; exact hgo ⟨hnot.1, by omega⟩),
        if_neg fun hall => hgo ⟨hall.1, hall.2.1⟩]
      simp [sizes]

theorem nextLenLoop_none :
    nextLenLoop rbb nodes none 0 =
      match nodes.dropWhile fun i => (rbb.blkSet i).status ≠ .put with
      | [] => 0
      | first :: rest => nextLenLoop rbb rest (some first) (rtSize (rbb.blkSet first).size) := by
  induction nodes with
  | nil => rfl
  | cons node nodes ih =>
    rw [nextLenLoop]
    by_cases hput : (rbb.blkSet node).status = .put
    · simp [hput]
    · simp [hput, ih]

theorem Wf.next_eq (hwf : rbb.Wf) :
    rbb.rtRbbNextBlkQueueLen = rbb.sizes (rbb.putRun (2 ^ 32 - 1)) := by
  rw [rtRbbNextBlkQueueLen, nextLenLoop_none, putRun]
  cases hbehind : rbb.blkList.dropWhile fun i => (rbb.blkSet i).status ≠ .put with
  | nil => rfl
  | cons first nodes =>
    have hsuffix : first :: nodes <:+ rbb.blkList := hbehind ▸ List.dropWhile_suffix _
    have hroom := lt_of_le_of_lt (sizes_sublist hsuffix.sublist) hwf.room
    rw [sizes_cons] at hroom
    simp only
    rw [rtSize_of_lt (by omega), nextLenLoop_some hroom, sizes_cons]

/-! ## The blocks by their places -/

theorem queueLen_foldlM (hbound : ∀ i ∈ blks, i < rbb.blkMaxNum)
    (hroom : total + rbb.sizes blks < 2 ^ 32) :
    blks.foldlM (fun (len : Nat) i => if i < rbb.blkMaxNum then
      (pure (rtSize (len + (rbb.blkSet i).size)) : Exec Nat) else throw .outOfBounds) total =
      .ok (total + rbb.sizes blks) := by
  induction blks generalizing total with
  | nil => simp [sizes, pure, Except.pure]
  | cons b blks ih =>
    rw [sizes_cons] at hroom
    have hfits : rtSize (total + (rbb.blkSet b).size) = total + (rbb.blkSet b).size := by
      rw [← Nat.cast_add, rtSize_of_lt (by omega)]
    rw [List.foldlM_cons, if_pos (hbound b List.mem_cons_self), hfits, sizes_cons]
    have hrest := @ih (total + (rbb.blkSet b).size)
      (fun i hi => hbound i (List.mem_cons_of_mem _ hi)) (by omega)
    rw [Nat.add_assoc] at hrest
    exact hrest

/-- Blocks that are in use and on no list are freed. -/
theorem queueFree_foldlM (hnodup : blks.Nodup) (hbound : ∀ i ∈ blks, i < rbb.blkMaxNum)
    (hused : ∀ i ∈ blks, (rbb.blkSet i).status ≠ .unused) (hoff : ∀ i ∈ blks, i ∉ rbb.blkList) :
    ∃ rbb', blks.foldlM (fun rbb i => if i < rbb.blkMaxNum then rbb.rtRbbBlkFree i
      else throw .outOfBounds) rbb = .ok rbb' ∧ rbb'.blkList = rbb.blkList ∧
      ∀ i, rbb'.blkSet i =
        if i ∈ blks then { rbb.blkSet i with status := .unused } else rbb.blkSet i := by
  induction blks generalizing rbb with
  | nil => exact ⟨rbb, rfl, rfl, fun i => by simp⟩
  | cons b blks ih =>
    obtain ⟨hnot, hnodup'⟩ := List.nodup_cons.mp hnodup
    have hlist : (rbb.remove b).blkList = rbb.blkList :=
      List.erase_of_not_mem (hoff b List.mem_cons_self)
    have hfree : rbb.rtRbbBlkFree b = .ok ((rbb.remove b).setStatus b .unused) := by
      simp only [rtRbbBlkFree, exec_bind_ok, rtAssert_eq_ok, exec_pure_ok]
      exact ⟨(), hused b List.mem_cons_self, trivial⟩
    have hother : ∀ i ∈ blks, ((rbb.remove b).setStatus b .unused).blkSet i = rbb.blkSet i :=
      fun i hi => setStatus_of_ne _ _ fun h => hnot (h ▸ hi)
    obtain ⟨rbb', hrest, hlist', hset⟩ := @ih ((rbb.remove b).setStatus b .unused) hnodup'
      (fun i hi => hbound i (List.mem_cons_of_mem _ hi))
      (fun i hi => by rw [hother i hi]; exact hused i (List.mem_cons_of_mem _ hi))
      (fun i hi => by
        rw [setStatus_blkList, hlist]
        exact hoff i (List.mem_cons_of_mem _ hi))
    refine ⟨rbb', ?_, ?_, fun i => ?_⟩
    · rw [List.foldlM_cons, if_pos (hbound b List.mem_cons_self), hfree]
      exact hrest
    · rw [hlist', setStatus_blkList, hlist]
    · rw [hset]
      by_cases hi : i = b
      · subst hi
        rw [if_neg hnot, setStatus_self, if_pos List.mem_cons_self]
        rfl
      · rw [setStatus_of_ne _ _ hi, remove_blkSet]
        simp [hi]

/-- Blocks that have been freed were in use. -/
theorem used_of_queueFree
    (h : blks.foldlM (fun rbb i => if i < rbb.blkMaxNum then rbb.rtRbbBlkFree i
      else throw .outOfBounds) rbb = .ok rbb') :
    (∀ i, (rbb.blkSet i).status = .unused → (rbb'.blkSet i).status = .unused) ∧
      ∀ i ∈ blks, (rbb.blkSet i).status ≠ .unused ∧ (rbb'.blkSet i).status = .unused := by
  induction blks generalizing rbb with
  | nil =>
    simp only [List.foldlM_nil, exec_pure_ok] at h
    subst h
    exact ⟨fun _ hunused => hunused, by simp⟩
  | cons b blks ih =>
    simp only [List.foldlM_cons, exec_bind_ok] at h
    obtain ⟨rbb₁, hfree, hrest⟩ := h
    split at hfree
    case isFalse => simp at hfree
    simp only [rtRbbBlkFree, exec_bind_ok, rtAssert_eq_ok, exec_pure_ok] at hfree
    obtain ⟨_, hused, rfl⟩ := hfree
    obtain ⟨hkeep, hfreed⟩ := ih hrest
    have hself : (((rbb.remove b).setStatus b .unused).blkSet b).status = .unused := by
      rw [setStatus_self]
    have hother : ∀ i, i ≠ b →
        ((rbb.remove b).setStatus b .unused).blkSet i = rbb.blkSet i :=
      fun i hi => setStatus_of_ne _ _ hi
    refine ⟨fun i hunused => ?_, fun i hi => ?_⟩
    · by_cases hb : i = b
      · exact hkeep i (by rw [hb]; exact hself)
      · exact hkeep i (by rw [hother i hb]; exact hunused)
    · obtain rfl | hi := List.mem_cons.mp hi
      · exact ⟨hused, hkeep i hself⟩
      · obtain ⟨hbefore, hafter⟩ := hfreed i hi
        have hb : i ≠ b := fun hb => hbefore (by rw [hb]; exact hself)
        rw [hother i hb] at hbefore
        exact ⟨hbefore, hafter⟩

/-- The blocks of a run have the places from the first one on, in some order. -/
theorem slots_iff_perm {first : Nat} {run : List Nat} (hnodup : run.Nodup) :
    (∀ i ∈ run, first ≤ i ∧ i < first + run.length) ↔
      (List.range' first run.length).Perm run := by
  constructor
  · intro h
    have hsub : run ⊆ List.range' first run.length := fun i hi =>
      List.mem_range'_1.mpr (h i hi)
    exact ((List.subperm_of_subset hnodup hsub).perm_of_length_le
      (by rw [List.length_range'])).symm
  · intro h i hi
    exact List.mem_range'_1.mp (h.mem_iff.mpr hi)

/-! ## What a queue is -/

section Taken

variable {first : Nat} {run : List Nat}

/-- A queue whose blocks have their places next to each other has their length, and its free is
    theirs. -/
theorem Wf.queue_of_perm (hwf : rbb.Wf) (hin : run <:+: rbb.blkList)
    (hq : Took ⟨rbb, none, 0, ⟨first, 0⟩, []⟩ run q)
    (hperm : (List.range' first run.length).Perm run) :
    q.rbb.rtRbbBlkQueueLen q.blkQueue = .ok (rbb.sizes run) ∧
      ∃ rbb', q.rbb.rtRbbBlkQueueFree q.blkQueue = .ok rbb' ∧ rbb'.blkList = q.rbb.blkList ∧
        ∀ i, rbb'.blkSet i =
          if i ∈ run then { q.rbb.blkSet i with status := .unused } else q.rbb.blkSet i := by
  have hblkQueue : q.blkQueue = ⟨first, run.length⟩ := by
    rw [hq.blkQueue, Nat.zero_add]
  have hbound : ∀ i ∈ List.range' first run.length, i < q.rbb.blkMaxNum := fun i hi => by
    rw [hq.blkMaxNum]
    exact hwf.bound i (hin.subset (hperm.mem_iff.mp hi))
  have hsizes : q.rbb.sizes (List.range' first run.length) = rbb.sizes run := by
    have hsame : q.rbb.sizes (List.range' first run.length) =
        rbb.sizes (List.range' first run.length) := by
      refine sizes_congr fun i _ => ?_
      rw [hq.blkSet]
      split <;> rfl
    rw [hsame]
    exact sizes_perm hperm
  have hroom := lt_of_le_of_lt (sizes_sublist hin.sublist) hwf.room
  refine ⟨?_, ?_⟩
  · rw [rtRbbBlkQueueLen, hblkQueue, queueLen_foldlM hbound (by rw [hsizes]; omega), hsizes,
      Nat.zero_add]
  · obtain ⟨rbb', hfree, hlist, hset⟩ := queueFree_foldlM List.nodup_range' hbound
      (fun i hi => by
        rw [hq.blkSet, if_pos (hperm.mem_iff.mp hi)]
        simp)
      (fun i hi hmem => by
        rw [hq.blkList] at hmem
        exact ((List.Nodup.mem_sdiff_iff hwf.nodup).mp hmem).2 (hperm.mem_iff.mp hi))
    refine ⟨rbb', ?_, hlist, fun i => ?_⟩
    · rw [rtRbbBlkQueueFree, hblkQueue]
      exact hfree
    · rw [hset]
      simp only [hperm.mem_iff]

/-- A free of a queue that frees the blocks of a run has their places next to each other. -/
theorem mem_of_queueFree {i : Nat} (hfree : q.rbb.rtRbbBlkQueueFree q.blkQueue = .ok rbb')
    (hset : ∀ i, rbb'.blkSet i =
      if i ∈ run then { q.rbb.blkSet i with status := .unused } else q.rbb.blkSet i)
    (hi : i ∈ List.range' q.blkQueue.blocks q.blkQueue.blkNum) : i ∈ run := by
  obtain ⟨hbefore, hafter⟩ := (used_of_queueFree hfree).2 i hi
  by_contra hnot
  rw [hset, if_neg hnot] at hafter
  exact hbefore hafter

end Taken

/-- The queue is right exactly if the first block is short enough, the run has no gaps, and its
    blocks are next to each other in the block set. -/
theorem rt_rbb_blk_queue_exact (queueDataLen : Nat) (blkQueue : RtRbbBlkQueue) (rbb : RtRbb)
    (hwf : rbb.Wf) :
    QueueRight queueDataLen blkQueue rbb ↔ QueueMeets queueDataLen blkQueue rbb := by
  -- the length that is announced is that of a queue without a limit
  have hnext : rbb.rtRbbNextBlkQueueLen =
      (rbb.rtRbbBlkQueueGet (2 ^ 32 - 1) blkQueue).dataTotalSize := by
    rw [hwf.next_eq]
    have hunlimited := hwf.runIs (2 ^ 32 - 1)
    generalize rbb.putRun (2 ^ 32 - 1) = run at hunlimited
    cases hunlimited with
    | none _ _ hget =>
      rw [hget]
      rfl
    | some _ _ _ _ _ hget => rw [(hget blkQueue).dataTotalSize, Nat.zero_add]
  -- either there is no put block, or the run begins with the first of them
  have hrun := hwf.runIs queueDataLen
  generalize hputRun : rbb.putRun queueDataLen = run at hrun
  cases hrun with
  | none _ hfind hget =>
    have hq := hget blkQueue
    constructor
    · intro h
      refine ⟨fun _ => ?_,
        fun _ hfirst => absurd (hfirst.symm.trans hfind) (Option.some_ne_none _)⟩
      obtain ⟨rbb', hfree, -, hset⟩ := h.queueFree _ rfl
      have hempty := fun i => @mem_of_queueFree rbb' _ _ i hfree hset
      rw [hq] at hempty
      by_contra hne
      exact absurd (hempty blkQueue.blocks
        (List.mem_range'_1.mpr ⟨le_rfl, Nat.lt_add_of_pos_right (Nat.pos_of_ne_zero hne)⟩))
        List.not_mem_nil
    · intro h
      have hzero := h.none hfind
      refine ⟨?_, ?_, ?_, ?_, ?_, ?_, ?_, ?_, hnext⟩
      · rw [hq, hfind]
        rfl
      · rw [hq]
        exact List.nil_infix
      · rw [hq]
        simp
      · rw [hq]
        exact .nil
      · rw [hq]
        rfl
      · rw [hq]
        exact Nat.zero_le _
      · rintro q rfl
        rw [hq, rtRbbBlkQueueLen, hzero]
        rfl
      · rintro q rfl
        rw [hq, rtRbbBlkQueueFree, hzero]
        exact ⟨rbb, rfl, rfl, fun i => by simp⟩
  | @some first more _ hfind hin hput hle hget =>
    have hq := hget blkQueue
    have htaken : (rbb.rtRbbBlkQueueGet queueDataLen blkQueue).taken = first :: more := hq.taken
    have hnodup := hwf.nodup.sublist hin.sublist
    constructor
    · intro h
      refine ⟨fun hnone => absurd (hfind.symm.trans hnone) (Option.some_ne_none _),
        fun first' hfirst => ?_⟩
      obtain rfl : first = first' := Option.some.inj (hfind.symm.trans hfirst)
      have hsize := h.size_le
      rw [htaken, sizes_cons] at hsize
      obtain ⟨rbb', hfree, -, hset⟩ := h.queueFree _ rfl
      have hsub := fun i => @mem_of_queueFree rbb' _ _ i hfree hset
      rw [htaken, hq.blkQueue, Nat.zero_add] at hsub
      rw [hputRun]
      refine ⟨by omega, htaken ▸ h.contiguous, ?_⟩
      exact (slots_iff_perm hnodup).mpr
        ((List.subperm_of_subset List.nodup_range' hsub).perm_of_length_le
          (by rw [List.length_range']))
    · intro h
      obtain ⟨hfits, hchain, hslots⟩ := h.first first hfind
      rw [hputRun] at hchain hslots
      obtain ⟨hlen, hfree⟩ := hwf.queue_of_perm hin hq ((slots_iff_perm hnodup).mp hslots)
      have hsize : (rbb.rtRbbBlkQueueGet queueDataLen blkQueue).dataTotalSize =
          rbb.sizes (first :: more) := by
        rw [hq.dataTotalSize, Nat.zero_add]
      refine ⟨?_, ?_, ?_, ?_, ?_, ?_, ?_, ?_, hnext⟩
      · rw [htaken, hfind]
        rfl
      · rwa [htaken]
      · rwa [htaken]
      · rwa [htaken]
      · rw [htaken, hsize]
      · rw [htaken]
        exact hle hfits
      · rintro q rfl
        rw [hlen, hsize]
      · rintro q rfl
        rw [htaken]
        exact hfree

/-- Two blocks of four bytes that have been put, one behind the other. -/
def twoPut : RtRbb :=
  { bufSize := 8
    blkSet := fun i =>
      if i = 0 then ⟨.put, 4, 0⟩ else if i = 1 then ⟨.put, 4, 4⟩ else ⟨.unused, 0, 0⟩
    blkMaxNum := 4
    blkList := [0, 1] }

theorem rt_rbb_blk_queue_exact_two :
    twoPut.Wf ∧ (QueueRight 8 ⟨0, 0⟩ twoPut ↔ QueueMeets 8 ⟨0, 0⟩ twoPut) := by
  have hwf : twoPut.Wf := ⟨by decide, by decide, by decide⟩
  exact ⟨hwf, rt_rbb_blk_queue_exact 8 ⟨0, 0⟩ twoPut hwf⟩

end RtRbb

namespace RingBlocks

variable {s s' : RingBlocks} {call : RbbCall} {out : Option Nat}

/-! ## The states of a run -/

/-- The blocks in use are blocks of the set. -/
def InSet (s : RingBlocks) : Prop := ∀ i ∈ s.live.map LiveBlk.blk, i < s.rbb.blkMaxNum

theorem InSet.wf (h : s.InSet) (hi : s.Inv) : s.rbb.Wf := by
  have hsub : ((s.live.filter LiveBlk.linked).map LiveBlk.blk).Sublist (s.live.map LiveBlk.blk) :=
    List.filter_sublist.map _
  refine ⟨?_, fun i hmem => ?_, ?_⟩
  · rw [hi.list]
    exact hi.nodup.sublist hsub
  · rw [hi.list] at hmem
    exact h i (hsub.subset hmem)
  · have hall : s.rbb.sizes (s.live.map LiveBlk.blk) =
        ((s.live.map LiveBlk.span).map Span.size).sum := by
      rw [RtRbb.sizes, List.map_map, List.map_map]
      exact congrArg List.sum (List.map_congr_left fun l hl => (hi.entry l hl).size)
    have hle : s.rbb.sizes s.rbb.blkList ≤ s.rbb.sizes (s.live.map LiveBlk.blk) := by
      rw [hi.list]
      exact RtRbb.sizes_sublist hsub
    have hsum := hi.laid.sum_size_le
    have hsize := hi.bufSize
    omega

theorem InSet.marked {mark : LiveBlk → LiveBlk} {blks : List Nat} {queues : List GotQueue}
    {rbb : RtRbb} (h : s.InSet) (hblk : ∀ l, (mark l).blk = l.blk)
    (hmax : rbb.blkMaxNum = s.rbb.blkMaxNum) :
    InSet ⟨rbb, marked blks mark s.live, queues⟩ := by
  intro i hi
  rw [marked_blk hblk] at hi
  show i < rbb.blkMaxNum
  rw [hmax]
  exact h i hi

theorem InSet.freed {blks : List Nat} {rbb : RtRbb} (h : s.InSet)
    (hmax : rbb.blkMaxNum = s.rbb.blkMaxNum) : (freed blks rbb s).InSet := by
  intro i hi
  show i < rbb.blkMaxNum
  rw [hmax]
  exact h i ((List.filter_sublist.map _).subset hi)

theorem queueGetLoop_blkMaxNum {queueDataLen : Nat} {nodes : List Nat} {q : RtRbb.QueueLoop} :
    (RtRbb.queueGetLoop queueDataLen nodes q).rbb.blkMaxNum = q.rbb.blkMaxNum := by
  induction nodes generalizing q with
  | nil => rfl
  | cons node nodes ih =>
    rw [RtRbb.queueGetLoop]
    split
    · split
      · exact ih
      · exact ih
    · dsimp only
      split
      · rfl
      · exact ih

theorem queueFree_blkMaxNum {blks : List Nat} {rbb rbb' : RtRbb}
    (h : blks.foldlM (fun rbb i => if i < rbb.blkMaxNum then rbb.rtRbbBlkFree i
      else throw .outOfBounds) rbb = .ok rbb') : rbb'.blkMaxNum = rbb.blkMaxNum := by
  induction blks generalizing rbb with
  | nil =>
    simp only [List.foldlM_nil, exec_pure_ok] at h
    rw [h]
  | cons b blks ih =>
    simp only [List.foldlM_cons, exec_bind_ok] at h
    obtain ⟨rbb₁, hfree, hrest⟩ := h
    split at hfree
    case isFalse => simp at hfree
    simp only [RtRbb.rtRbbBlkFree, exec_bind_ok, rtAssert_eq_ok, exec_pure_ok] at hfree
    obtain ⟨_, -, rfl⟩ := hfree
    rw [ih hrest]
    rfl

theorem InSet.step (h : s.InSet) (hstep : step call s = .ok (s', out)) : s'.InSet := by
  cases call with
  | alloc blkSize =>
    simp only [RingBlocks.step, exec_bind_ok] at hstep
    obtain ⟨⟨rbb, new⟩, halloc, hstep⟩ := hstep
    obtain ⟨rfl, rfl⟩ | ⟨new, buf, rfl, rfl, hnew, -, -⟩ := RtRbb.rtRbbBlkAlloc_cases halloc
    · simp only [exec_pure_ok, Prod.mk.injEq] at hstep
      exact hstep.1 ▸ h
    · simp only [exec_pure_ok, Prod.mk.injEq] at hstep
      rw [← hstep.1]
      intro i hi
      rw [List.map_append, List.mem_append] at hi
      obtain hi | hi := hi
      · exact h i hi
      · obtain rfl : i = new := by simpa using hi
        exact hnew
  | put n =>
    simp only [RingBlocks.step] at hstep
    split at hstep
    case h_1 l hl =>
      simp only [RtRbb.rtRbbBlkPut, exec_bind_ok, exec_pure_ok, Prod.mk.injEq] at hstep
      obtain ⟨rbb, ⟨_, -, rfl⟩, rfl, -⟩ := hstep
      exact h.marked (fun _ => rfl) rfl
    case h_2 =>
      simp only [exec_pure_ok, Prod.mk.injEq] at hstep
      exact hstep.1 ▸ h
  | get =>
    simp only [RingBlocks.step, exec_pure_ok, Prod.mk.injEq] at hstep
    refine hstep.1 ▸ h.marked (fun _ => rfl) ?_
    unfold RtRbb.rtRbbBlkGet
    split <;> rfl
  | free n =>
    simp only [RingBlocks.step] at hstep
    split at hstep
    case h_1 l _ =>
      simp only [RtRbb.rtRbbBlkFree, exec_bind_ok, exec_pure_ok, Prod.mk.injEq] at hstep
      obtain ⟨rbb, ⟨_, -, rfl⟩, rfl, -⟩ := hstep
      exact h.freed rfl
    case h_2 =>
      simp only [exec_pure_ok, Prod.mk.injEq] at hstep
      exact hstep.1 ▸ h
  | queueGet queueDataLen =>
    simp only [RingBlocks.step, exec_pure_ok, Prod.mk.injEq] at hstep
    rw [← hstep.1]
    exact h.marked (fun _ => rfl) queueGetLoop_blkMaxNum
  | queueFree n =>
    simp only [RingBlocks.step] at hstep
    split at hstep
    case h_1 q _ =>
      simp only [exec_bind_ok, exec_pure_ok, Prod.mk.injEq] at hstep
      obtain ⟨rbb, hfree, rfl, -⟩ := hstep
      exact h.freed (queueFree_blkMaxNum hfree)
    case h_2 =>
      simp only [exec_pure_ok, Prod.mk.injEq] at hstep
      exact hstep.1 ▸ h

/-- Along the calls of a buffer that has been initialised, its list is in order. -/
theorem Initialised.along_wf (h : s.Initialised) {calls : List RbbCall}
    (hmeets : Along RingBlocks.step Meets calls s) :
    Along RingBlocks.step (fun _ s => s.rbb.Wf) calls s :=
  along_of (I := fun s => s.Inv ∧ s.InSet) (fun _ _ hi _ => hi.2.wf hi.1)
    (fun _ _ _ _ hi hm hstep => ⟨hi.1.step hm hstep, hi.2.step hstep⟩)
    ⟨h.inv, by simp [InSet, h.live]⟩ hmeets

/-! ## Queues that are not right -/

/-- A block of four bytes is taken for a queue of two. -/
theorem rt_rbb_blk_queue_too_long :
    ∃ s, runExcept step [.alloc 4, .put 0] eightBytes = .ok (s, [some 0, none]) ∧ s.rbb.Wf ∧
      ¬ RtRbb.QueueRight 2 ⟨0, 0⟩ s.rbb := by
  refine ⟨_, rfl, ⟨by decide, by decide, by decide⟩, fun h => ?_⟩
  have hle := h.size_le
  revert hle
  decide

/-- The block in the middle has been freed, and the queue has the blocks to both of its sides. -/
theorem rt_rbb_blk_queue_gap :
    ∃ s outs, runExcept step [.alloc 2, .alloc 2, .alloc 2, .put 0, .put 2, .free 1] eightBytes =
      .ok (s, outs) ∧ s.rbb.Wf ∧ ¬ RtRbb.QueueRight 8 ⟨0, 0⟩ s.rbb := by
  refine ⟨_, _, rfl, ⟨by decide, by decide, by decide⟩, fun h => ?_⟩
  have hchain := h.contiguous
  revert hchain
  decide

/-- The blocks of the queue are 1 and 0 of the set, and it has the length of 1 and 2. -/
theorem rt_rbb_blk_queue_places :
    ∃ s outs, runExcept step [.alloc 2, .alloc 2, .free 0, .alloc 3, .put 0, .put 1] eightBytes =
      .ok (s, outs) ∧ s.rbb.Wf ∧ ¬ RtRbb.QueueRight 8 ⟨0, 0⟩ s.rbb := by
  refine ⟨_, _, rfl, ⟨by decide, by decide, by decide⟩, fun h => ?_⟩
  have hlen := h.queueLen _ rfl
  revert hlen
  decide

end RingBlocks

end PandoraRobot.Drivers
