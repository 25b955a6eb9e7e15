import Mathlib.Data.List.Nodup
import Mathlib.Data.List.Range
import Mathlib.Logic.Function.Basic
import PandoraRobot.Kernel.Service
import PandoraRobot.Lib.BlockRing
import PandoraRobot.Lib.Trace

/-! # Ring block buffers

`ringblk_buf.c`.  Blocks of any size are allocated one behind the other in a ring, and
freed in any order.  The free space is read off from the first and the last block of the
list, which holds as long as the list has every block that is in use.

`rt_rbb_blk_queue_get` takes blocks off the list while their memory is in use.
-/

namespace PandoraRobot.Drivers

open PandoraRobot.Kernel PandoraRobot.Trace PandoraRobot.BlockRing

/-! ## The code -/

/-- A difference of addresses as an `rt_size_t`. -/
def rtSize (x : Int) : Nat := (x % 2 ^ 32).toNat

inductive RtRbbStatus where
  | unused
  | inited
  | put
  | get
  deriving DecidableEq, Repr

/-- `struct rt_rbb_blk`, where `buf` counts from `rbb->buf`. -/
structure RtRbbBlk where
  status : RtRbbStatus
  size : Nat
  buf : Nat
  deriving DecidableEq, Repr

/-- `struct rt_rbb_blk_queue`, where `blocks` is an index of the block set. -/
structure RtRbbBlkQueue where
  blocks : Nat
  blkNum : Nat
  deriving DecidableEq, Repr

/-- `struct rt_rbb`.  The list has the indices of its blocks in the block set. -/
structure RtRbb where
  bufSize : Nat
  blkSet : Nat → RtRbbBlk
  blkMaxNum : Nat
  blkList : List Nat

namespace RtRbb

/-- `block->status = status`. -/
def setStatus (block : Nat) (status : RtRbbStatus) (rbb : RtRbb) : RtRbb :=
  { rbb with blkSet := Function.update rbb.blkSet block { rbb.blkSet block with status } }

/-- `rt_slist_remove`. -/
def remove (block : Nat) (rbb : RtRbb) : RtRbb :=
  { rbb with blkList := rbb.blkList.erase block }

def findEmptyBlkInSet (rbb : RtRbb) : Option Nat :=
  (List.range rbb.blkMaxNum).find? fun i => (rbb.blkSet i).status = .unused

/-- The block `new` is appended to the list. -/
def append (new buf size : Nat) (rbb : RtRbb) : RtRbb :=
  { rbb with
    blkSet := Function.update rbb.blkSet new ⟨.inited, size, buf⟩
    blkList := rbb.blkList ++ [new] }

/-- `rt_rbb_blk_alloc`. -/
def rtRbbBlkAlloc (blkSize : Nat) (rbb : RtRbb) : Exec (RtRbb × Option Nat) := do
  rtAssert (blkSize < 2 ^ 24)
  match rbb.findEmptyBlkInSet with
  | none => pure (rbb, none)
  | some new =>
    if rbb.blkList.length < rbb.blkMaxNum then
      match rbb.blkList.head?, rbb.blkList.getLast? with
      | some head, some tail =>
        let head := rbb.blkSet head
        let tail := rbb.blkSet tail
        if head.buf ≤ tail.buf then
          let empty1 := rtSize (rbb.bufSize - (tail.buf + tail.size))
          let empty2 := rtSize head.buf
          if blkSize ≤ empty1 then pure (rbb.append new (tail.buf + tail.size) blkSize, some new)
          else if blkSize ≤ empty2 then pure (rbb.append new 0 blkSize, some new)
          -- no space
          else pure (rbb, none)
        else
          let empty1 := rtSize (head.buf - (tail.buf + tail.size))
          if blkSize ≤ empty1 then pure (rbb.append new (tail.buf + tail.size) blkSize, some new)
          else pure (rbb, none)
      -- the list is empty
      | _, _ => pure (rbb.append new 0 blkSize, some new)
    else pure (rbb, none)

/-- `rt_rbb_blk_put`. -/
def rtRbbBlkPut (block : Nat) (rbb : RtRbb) : Exec RtRbb := do
  rtAssert ((rbb.blkSet block).status = .inited)
  pure (rbb.setStatus block .put)

/-- `rt_rbb_blk_get`. -/
def rtRbbBlkGet (rbb : RtRbb) : RtRbb × Option Nat :=
  match rbb.blkList.find? fun i => (rbb.blkSet i).status = .put with
  | some block => (rbb.setStatus block .get, some block)
  | none => (rbb, none)

/-- `rt_rbb_blk_free`. -/
def rtRbbBlkFree (block : Nat) (rbb : RtRbb) : Exec RtRbb := do
  rtAssert ((rbb.blkSet block).status ≠ .unused)
  pure ((rbb.remove block).setStatus block .unused)

/-- The variables of the loop in `rt_rbb_blk_queue_get`, and the blocks it has taken. -/
structure QueueLoop where
  rbb : RtRbb
  lastBlock : Option Nat
  dataTotalSize : Nat
  blkQueue : RtRbbBlkQueue
  taken : List Nat

/-- The end of the body of the loop. -/
def QueueLoop.take (block : Nat) (q : QueueLoop) : QueueLoop where
  rbb := (q.rbb.remove block).setStatus block .get
  lastBlock := some block
  dataTotalSize := rtSize (q.dataTotalSize + (q.rbb.blkSet block).size)
  blkQueue := { q.blkQueue with blkNum := q.blkQueue.blkNum + 1 }
  taken := q.taken ++ [block]

/-- The loop over the nodes that are left. -/
def queueGetLoop (queueDataLen : Nat) : List Nat → QueueLoop → QueueLoop
  | [], q => q
  | node :: nodes, q =>
    match q.lastBlock with
    | none =>
      if (q.rbb.blkSet node).status = .put then
        -- save the first put status block to queue
        queueGetLoop queueDataLen nodes ({ q with blkQueue := ⟨node, 0⟩ }.take node)
      else queueGetLoop queueDataLen nodes q
    | some lastBlock =>
      let block := q.rbb.blkSet node
      if block.status ≠ .put ∨ block.buf < (q.rbb.blkSet lastBlock).buf ∨
          queueDataLen < rtSize (q.dataTotalSize + block.size) then q
      else queueGetLoop queueDataLen nodes (q.take node)

/-- `rt_rbb_blk_queue_get`.  The queue is written only when a block is taken. -/
def rtRbbBlkQueueGet (queueDataLen : Nat) (blkQueue : RtRbbBlkQueue) (rbb : RtRbb) : QueueLoop :=
  queueGetLoop queueDataLen rbb.blkList ⟨rbb, none, 0, blkQueue, []⟩

/-- `rt_rbb_blk_queue_free`: the blocks of the set that follow the first one of the queue. -/
def rtRbbBlkQueueFree (blkQueue : RtRbbBlkQueue) (rbb : RtRbb) : Exec RtRbb :=
  (List.range' blkQueue.blocks blkQueue.blkNum).foldlM
    (fun rbb i => if i < rbb.blkMaxNum then rbb.rtRbbBlkFree i else throw .outOfBounds) rbb


/-! ## What the calls do -/

@[simp] theorem setStatus_blkList (block : Nat) (status : RtRbbStatus) (rbb : RtRbb) :
    (rbb.setStatus block status).blkList = rbb.blkList := rfl
@[simp] theorem setStatus_bufSize (block : Nat) (status : RtRbbStatus) (rbb : RtRbb) :
    (rbb.setStatus block status).bufSize = rbb.bufSize := rfl
@[simp] theorem setStatus_blkMaxNum (block : Nat) (status : RtRbbStatus) (rbb : RtRbb) :
    (rbb.setStatus block status).blkMaxNum = rbb.blkMaxNum := rfl
@[simp] theorem setStatus_self (block : Nat) (status : RtRbbStatus) (rbb : RtRbb) :
    (rbb.setStatus block status).blkSet block = { rbb.blkSet block with status } := by
  simp [setStatus]
theorem setStatus_of_ne {block i : Nat} (status : RtRbbStatus) (rbb : RtRbb) (h : i ≠ block) :
    (rbb.setStatus block status).blkSet i = rbb.blkSet i := by
  simp [setStatus, h]
@[simp] theorem remove_blkSet (block : Nat) (rbb : RtRbb) :
    (rbb.remove block).blkSet = rbb.blkSet := rfl
@[simp] theorem remove_blkList (block : Nat) (rbb : RtRbb) :
    (rbb.remove block).blkList = rbb.blkList.erase block := rfl
@[simp] theorem remove_bufSize (block : Nat) (rbb : RtRbb) :
    (rbb.remove block).bufSize = rbb.bufSize := rfl
@[simp] theorem remove_blkMaxNum (block : Nat) (rbb : RtRbb) :
    (rbb.remove block).blkMaxNum = rbb.blkMaxNum := rfl

theorem rtSize_of_lt {x : Nat} (h : x < 2 ^ 32) : rtSize x = x := by
  unfold rtSize
  omega

theorem rtSize_sub {x y : Nat} (hle : y ≤ x) (h : x < 2 ^ 32) : rtSize (x - y) = x - y := by
  unfold rtSize
  omega

variable {rbb rbb' : RtRbb} {blkSize : Nat} {out : Option Nat}

/-- The places where a block of `blkSize` bytes is allocated. -/
inductive Place (rbb : RtRbb) (blkSize : Nat) : Nat → Prop where
  | empty : rbb.blkList = [] → Place rbb blkSize 0
  | behind {head tail : Nat} : rbb.blkList.head? = some head → rbb.blkList.getLast? = some tail →
      (rbb.blkSet head).buf ≤ (rbb.blkSet tail).buf →
      blkSize ≤ rtSize (rbb.bufSize - ((rbb.blkSet tail).buf + (rbb.blkSet tail).size)) →
      Place rbb blkSize ((rbb.blkSet tail).buf + (rbb.blkSet tail).size)
  | start {head tail : Nat} : rbb.blkList.head? = some head → rbb.blkList.getLast? = some tail →
      (rbb.blkSet head).buf ≤ (rbb.blkSet tail).buf →
      rtSize (rbb.bufSize - ((rbb.blkSet tail).buf + (rbb.blkSet tail).size)) < blkSize →
      blkSize ≤ rtSize (rbb.blkSet head).buf → Place rbb blkSize 0
  | below {head tail : Nat} : rbb.blkList.head? = some head → rbb.blkList.getLast? = some tail →
      (rbb.blkSet tail).buf < (rbb.blkSet head).buf →
      blkSize ≤ rtSize ((rbb.blkSet head).buf - ((rbb.blkSet tail).buf + (rbb.blkSet tail).size)) →
      Place rbb blkSize ((rbb.blkSet tail).buf + (rbb.blkSet tail).size)

theorem findEmptyBlkInSet_spec {new : Nat} (h : rbb.findEmptyBlkInSet = some new) :
    new < rbb.blkMaxNum ∧ (rbb.blkSet new).status = .unused := by
  unfold findEmptyBlkInSet at h
  exact ⟨List.mem_range.mp (List.mem_of_find?_eq_some h), by simpa using List.find?_some h⟩

/-- An allocation fails and changes nothing, or it appends an unused block at one of its places. -/
theorem rtRbbBlkAlloc_cases (h : rbb.rtRbbBlkAlloc blkSize = .ok (rbb', out)) :
    (out = none ∧ rbb' = rbb) ∨
      ∃ new buf, out = some new ∧ rbb' = rbb.append new buf blkSize ∧ new < rbb.blkMaxNum ∧
        (rbb.blkSet new).status = .unused ∧ Place rbb blkSize buf := by
  simp only [rtRbbBlkAlloc, exec_bind_ok, rtAssert_eq_ok] at h
  obtain ⟨_, -, h⟩ := h
  cases hempty : rbb.findEmptyBlkInSet with
  | none =>
    simp only [hempty, exec_pure_ok, Prod.mk.injEq] at h
    exact .inl ⟨h.2.symm, h.1.symm⟩
  | some new =>
    obtain ⟨hbound, hunused⟩ := findEmptyBlkInSet_spec hempty
    -- all branches that find a place append the block there
    have hmade : ∀ buf, Place rbb blkSize buf →
        (rbb.append new buf blkSize, some new) = (rbb', out) →
        ∃ new buf, out = some new ∧ rbb' = rbb.append new buf blkSize ∧ new < rbb.blkMaxNum ∧
          (rbb.blkSet new).status = .unused ∧ Place rbb blkSize buf := by
      intro buf hplace heq
      cases heq
      exact ⟨new, buf, rfl, rfl, hbound, hunused, hplace⟩
    simp only [hempty] at h
    split at h
    case isFalse =>
      simp only [exec_pure_ok, Prod.mk.injEq] at h
      exact .inl ⟨h.2.symm, h.1.symm⟩
    case isTrue =>
      split at h
      -- the list is empty
      case h_2 hnone =>
        have hnil : rbb.blkList = [] := by
          cases hlist : rbb.blkList with
          | nil => rfl
          | cons head rest =>
            exact (hnone head (rest.getLast?.getD head) (by simp [hlist])
              (by simp [hlist, List.getLast?_cons])).elim
        simp only [exec_pure_ok] at h
        exact .inr (hmade 0 (.empty hnil) h)
      -- the last block is behind the first one, or below it since the buffer wrapped
      case h_1 head tail hhead htail =>
        split at h
        case isTrue hle =>
          split at h
          case isTrue hroom =>
            simp only [exec_pure_ok] at h
            exact .inr (hmade _ (.behind hhead htail hle hroom) h)
          case isFalse hroom =>
            split at h
            case isTrue hstart =>
              simp only [exec_pure_ok] at h
              exact .inr (hmade _ (.start hhead htail hle (by omega) hstart) h)
            case isFalse =>
              simp only [exec_pure_ok, Prod.mk.injEq] at h
              exact .inl ⟨h.2.symm, h.1.symm⟩
        case isFalse hlt =>
          split at h
          case isTrue hroom =>
            simp only [exec_pure_ok] at h
            exact .inr (hmade _ (.below hhead htail (by omega) hroom) h)
          case isFalse =>
            simp only [exec_pure_ok, Prod.mk.injEq] at h
            exact .inl ⟨h.2.symm, h.1.symm⟩

end RtRbb

end PandoraRobot.Drivers
