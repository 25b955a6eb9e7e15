import PandoraRobot.Lib.LinkedRing
import PandoraRobot.Memory.HeapOps

/-! # Memory heaps

`rt_memheap_init`, `rt_memheap_alloc`, `rt_memheap_realloc` and `rt_memheap_free` of
`memheap.c`.  The calls hold `heap->lock`, so one call is one step.

Of the memory the model has the items, each at its address; callers write between them
only.  An item that is built over an old one makes something else of it.
-/

namespace PandoraRobot.Memory

open PandoraRobot.Kernel

/-! ## Configuration -/

def rtMemheapMagic : BitVec 32 := 0x1ea01ea0
def rtMemheapMask : BitVec 32 := 0xfffffffe
def rtMemheapUsed : BitVec 32 := 0x01
def rtMemheapMinialloc : BitVec 32 := 12
/-- `RT_MEMHEAP_SIZE`; `struct rt_memheap_item` has six words. -/
def rtMemheapSize : BitVec 32 := rtAlign 24 rtAlignSize

/-! ## Data -/

/-- An item without its links in the free list. -/
structure ItemHead where
  magic : BitVec 32
  poolPtr : BitVec 32
  next : BitVec 32
  prev : BitVec 32
  deriving DecidableEq, Repr

/-- `struct rt_memheap_item`. -/
structure RtMemheapItem extends ItemHead where
  nextFree : BitVec 32
  prevFree : BitVec 32
  deriving DecidableEq, Repr

/-- `struct rt_memheap`. -/
structure RtMemheap where
  /-- The item at each address, `free_header` among them. -/
  mem : Nat → RtMemheapItem
  /-- What there is at an address after an item was built over a part of it. -/
  stale : Nat → RtMemheapItem
  /-- The address of the heap. -/
  heapAddr : BitVec 32
  /-- The address of `free_header`. -/
  freeHeader : BitVec 32
  startAddr : BitVec 32
  poolSize : BitVec 32
  availableSize : BitVec 32
  maxUsedSize : BitVec 32
  freeList : BitVec 32

namespace RtMemheap

def get (ptr : BitVec 32) (h : RtMemheap) : RtMemheapItem := h.mem ptr.toNat

def modify (ptr : BitVec 32) (f : RtMemheapItem → RtMemheapItem) (h : RtMemheap) : RtMemheap :=
  { h with mem := Function.update h.mem ptr.toNat (f (h.get ptr)) }

def modifyHead (ptr : BitVec 32) (f : ItemHead → ItemHead) (h : RtMemheap) : RtMemheap :=
  h.modify ptr fun m => { m with toItemHead := f m.toItemHead }

def setNext (ptr next : BitVec 32) : RtMemheap → RtMemheap :=
  modifyHead ptr fun m => { m with next }

def setPrev (ptr prev : BitVec 32) : RtMemheap → RtMemheap :=
  modifyHead ptr fun m => { m with prev }

def setNextFree (ptr nextFree : BitVec 32) : RtMemheap → RtMemheap :=
  modify ptr fun m => { m with nextFree }

def setPrevFree (ptr prevFree : BitVec 32) : RtMemheap → RtMemheap :=
  modify ptr fun m => { m with prevFree }

/-- The first fields of an item are written where no item is.  What overlaps it is lost. -/
def build (ptr : BitVec 32) (m : ItemHead) (h : RtMemheap) : RtMemheap :=
  { h with mem := fun a =>
      if a = ptr.toNat then { h.mem a with toItemHead := m }
      else if a < ptr.toNat + rtMemheapSize.toNat ∧ ptr.toNat < a + rtMemheapSize.toNat then
        h.stale a
      else h.mem a }

/-- `RT_MEMHEAP_IS_USED`. -/
def isUsed (ptr : BitVec 32) (h : RtMemheap) : Bool :=
  decide ((h.get ptr).magic &&& rtMemheapUsed ≠ 0)

/-- `MEMITEM_SIZE`. -/
def memitemSize (ptr : BitVec 32) (h : RtMemheap) : BitVec 32 :=
  (h.get ptr).next - ptr - rtMemheapSize

/-! ## The code -/

/-- The available size changes, and `max_used_size` with it. -/
def setAvailable (availableSize : BitVec 32) (h : RtMemheap) : RtMemheap :=
  { h with
    availableSize
    maxUsedSize :=
      if h.maxUsedSize < h.poolSize - availableSize then h.poolSize - availableSize
      else h.maxUsedSize }

/-- A new item is built inside of another one, and the two are linked. -/
def splitItem (headerPtr newPtr : BitVec 32) (h : RtMemheap) : RtMemheap :=
  let next := (h.get headerPtr).next
  let h := h.build newPtr ⟨rtMemheapMagic, h.heapAddr, next, headerPtr⟩
  let h := h.setPrev (h.get headerPtr).next newPtr
  h.setNext headerPtr newPtr

/-- An item is removed from the free list. -/
def removeFree (ptr : BitVec 32) (h : RtMemheap) : RtMemheap :=
  let h := h.setPrevFree (h.get ptr).nextFree (h.get ptr).prevFree
  h.setNextFree (h.get ptr).prevFree (h.get ptr).nextFree

/-- An item is inserted into the free list. -/
def insertFree (ptr : BitVec 32) (h : RtMemheap) : RtMemheap :=
  let h := h.setNextFree ptr (h.get h.freeList).nextFree
  let h := h.setPrevFree ptr h.freeList
  let h := h.setPrevFree (h.get h.freeList).nextFree ptr
  h.setNextFree h.freeList ptr

/-- The free list has its header only. -/
def initHeader (h : RtMemheap) : RtMemheap :=
  h.modify h.freeHeader fun _ => ⟨⟨rtMemheapMagic, h.heapAddr, 0, 0⟩, h.freeHeader, h.freeHeader⟩

/-- The first big memory block. -/
def initBlock (tail : BitVec 32) (h : RtMemheap) : RtMemheap :=
  h.modify h.startAddr fun _ =>
    ⟨⟨rtMemheapMagic, h.heapAddr, tail, tail⟩, h.startAddr, h.startAddr⟩

/-- A small tailer block. -/
def initTail (tail : BitVec 32) (h : RtMemheap) : RtMemheap :=
  h.modify tail fun _ =>
    ⟨⟨rtMemheapMagic ||| rtMemheapUsed, h.heapAddr, h.startAddr, h.startAddr⟩, 0, 0⟩

/-- `rt_memheap_init`. -/
def rtMemheapInit (startAddr size : BitVec 32) (h : RtMemheap) : RtMemheap :=
  let poolSize := rtAlignDown size rtAlignSize
  let availableSize := poolSize - 2 * rtMemheapSize
  let h := { h with
    startAddr
    poolSize
    availableSize
    maxUsedSize := poolSize - availableSize
    freeList := h.freeHeader }
  let tail := startAddr + availableSize + rtMemheapSize
  ((h.initHeader.initBlock tail).insertFree startAddr).initTail tail

/-- An item is taken out of the circle of items. -/
def unlinkItem (ptr : BitVec 32) (h : RtMemheap) : RtMemheap :=
  let h := h.setPrev (h.get ptr).next (h.get ptr).prev
  h.setNext (h.get ptr).prev (h.get ptr).next

/-- An item is merged with its right neighbour, which is free. -/
def mergeNext (ptr : BitVec 32) (h : RtMemheap) : RtMemheap :=
  let nextPtr := (h.get ptr).next
  let h := h.setPrev (h.get nextPtr).next ptr
  let h := h.setNext ptr (h.get nextPtr).next
  h.removeFree nextPtr

/-- The links of an item in the free list are `RT_NULL`. -/
def clearFree (ptr : BitVec 32) (h : RtMemheap) : RtMemheap :=
  (h.setNextFree ptr 0).setPrevFree ptr 0

/-- A request is aligned, and at least `RT_MEMHEAP_MINIALLOC`. -/
def requestSize (size : BitVec 32) : BitVec 32 :=
  let size := rtAlign size rtAlignSize
  if size < rtMemheapMinialloc then rtMemheapMinialloc else size

/-- There are no more items than bytes. -/
def fuel (h : RtMemheap) : Nat := h.poolSize.toNat + 2

/-- The search on the free list: the item where it ends, and its size. -/
def findFree (size : BitVec 32) (h : RtMemheap) :
    Nat → BitVec 32 → BitVec 32 → Exec (BitVec 32 × BitVec 32)
  | 0, _, _ => throw .outOfFuel
  | fuel + 1, headerPtr, freeSize =>
    if headerPtr ≠ h.freeList ∧ freeSize < size then
      let freeSize := h.memitemSize headerPtr
      findFree size h fuel
        (if freeSize < size then (h.get headerPtr).nextFree else headerPtr) freeSize
    else pure (headerPtr, freeSize)

/-- The item that was found is cut to `size` bytes, and the rest of it is a free item. -/
def allocSplit (headerPtr size : BitVec 32) (h : RtMemheap) : RtMemheap :=
  let newPtr := headerPtr + size + rtMemheapSize
  let h := h.splitItem headerPtr newPtr
  let h := (h.removeFree headerPtr).clearFree headerPtr
  let h := h.insertFree newPtr
  h.setAvailable (h.availableSize - size - rtMemheapSize)

/-- All of the item that was found is taken. -/
def allocWhole (headerPtr freeSize : BitVec 32) (h : RtMemheap) : RtMemheap :=
  let h := h.setAvailable (h.availableSize - freeSize)
  (h.removeFree headerPtr).clearFree headerPtr

/-- `rt_memheap_alloc`. -/
def rtMemheapAlloc (size : BitVec 32) (h : RtMemheap) :
    Exec (RtMemheap × Option (BitVec 32)) := do
  let size := requestSize size
  if size < h.availableSize then
    let (headerPtr, freeSize) ← h.findFree size h.fuel (h.get h.freeList).nextFree 0
    if size ≤ freeSize then
      let h :=
        if size + rtMemheapSize + rtMemheapMinialloc ≤ freeSize then h.allocSplit headerPtr size
        else h.allocWhole headerPtr freeSize
      let h := h.modifyHead headerPtr fun m => { m with magic := m.magic ||| rtMemheapUsed }
      pure (h, some (headerPtr + rtMemheapSize))
    else pure (h, none)
  else pure (h, none)

/-- An item is merged with its left neighbour, which is free. -/
def mergePrev (headerPtr : BitVec 32) (h : RtMemheap) : RtMemheap :=
  let h := h.setNext (h.get headerPtr).prev (h.get headerPtr).next
  h.setPrev (h.get headerPtr).next (h.get headerPtr).prev

/-- A free left neighbour takes an item in.  The result tells where the item starts now, and
    whether it is still to be inserted into the free list. -/
def mergeLeft (headerPtr : BitVec 32) (h : RtMemheap) : RtMemheap × BitVec 32 × Bool :=
  if h.isUsed (h.get headerPtr).prev then (h, headerPtr, true)
  else
    ({ h.mergePrev headerPtr with availableSize := h.availableSize + rtMemheapSize },
      (h.get headerPtr).prev, false)

/-- An item takes a free right neighbour in. -/
def mergeRight (headerPtr : BitVec 32) (h : RtMemheap) : RtMemheap :=
  if h.isUsed (h.get headerPtr).next then h
  else { h.mergeNext headerPtr with availableSize := h.availableSize + rtMemheapSize }

/-- `rt_memheap_free`. -/
def rtMemheapFree (ptr : Option (BitVec 32)) (h : RtMemheap) : Exec RtMemheap :=
  match ptr with
  | none => pure h
  | some ptr => do
    let headerPtr := ptr - rtMemheapSize
    rtAssert ((h.get headerPtr).magic &&& rtMemheapMask = rtMemheapMagic)
    rtAssert ((h.get headerPtr).magic &&& rtMemheapUsed ≠ 0)
    rtAssert ((h.get (h.get headerPtr).next).magic &&& rtMemheapMask = rtMemheapMagic)
    -- this is the heap that `pool_ptr` leads to
    rtAssert ((h.get headerPtr).poolPtr = h.heapAddr)
    let h := h.modifyHead headerPtr fun m => { m with magic := m.magic &&& ~~~rtMemheapUsed }
    let h := { h with availableSize := h.availableSize + h.memitemSize headerPtr }
    let (h, headerPtr, insertHeader) := h.mergeLeft headerPtr
    let h := h.mergeRight headerPtr
    pure (if insertHeader then h.insertFree headerPtr else h)

/-- An item grows into its right neighbour, which is free and is built again behind it. -/
def growItem (headerPtr oldsize newsize : BitVec 32) (h : RtMemheap) : RtMemheap :=
  let nextPtr := (h.get headerPtr).next
  let h := h.setAvailable (h.availableSize - (newsize - oldsize))
  let h := (h.removeFree nextPtr).unlinkItem nextPtr
  let newPtr := headerPtr + rtMemheapSize + newsize
  (h.splitItem headerPtr newPtr).insertFree newPtr

/-- A new item takes a free right neighbour in, the bytes of which are not available any more. -/
def absorbNext (ptr : BitVec 32) (h : RtMemheap) : RtMemheap :=
  let nextPtr := (h.get ptr).next
  if h.isUsed nextPtr then h
  else { h.mergeNext ptr with availableSize := h.availableSize - h.memitemSize nextPtr }

/-- A new item is inserted into the free list, and its bytes are available. -/
def releaseItem (ptr : BitVec 32) (h : RtMemheap) : RtMemheap :=
  let h := h.insertFree ptr
  { h with availableSize := h.availableSize + h.memitemSize ptr }

/-- An item is cut to `newsize` bytes, and the rest of it is merged with a free neighbour. -/
def shrinkItem (headerPtr newsize : BitVec 32) (h : RtMemheap) : RtMemheap :=
  let newPtr := headerPtr + newsize + rtMemheapSize
  ((h.splitItem headerPtr newPtr).absorbNext newPtr).releaseItem newPtr

/-- A block is allocated, and the old one is freed. -/
def moveItem (addr newsize : BitVec 32) (h : RtMemheap) :
    Exec (RtMemheap × Option (BitVec 32)) := do
  let (h, newPtr) ← h.rtMemheapAlloc newsize
  match newPtr with
  | none => pure (h, none)
  | some _ =>
    let h ← h.rtMemheapFree (some addr)
    pure (h, newPtr)

/-- `rt_memheap_realloc`. -/
def rtMemheapRealloc (ptr : Option (BitVec 32)) (newsize : BitVec 32) (h : RtMemheap) :
    Exec (RtMemheap × Option (BitVec 32)) := do
  if newsize = 0 then
    let h ← h.rtMemheapFree ptr
    pure (h, none)
  else
    let newsize := requestSize newsize
    match ptr with
    | none => h.rtMemheapAlloc newsize
    | some addr =>
      let headerPtr := addr - rtMemheapSize
      let oldsize := h.memitemSize headerPtr
      if oldsize < newsize then
        let nextPtr := (h.get headerPtr).next
        rtAssert (headerPtr < nextPtr)
        -- that `next_ptr` is not null, which is asserted next, holds by now
        if h.isUsed nextPtr = false ∧
            newsize + rtMemheapMinialloc < h.memitemSize nextPtr + oldsize then
          pure (h.growItem headerPtr oldsize newsize, ptr)
        else h.moveItem addr newsize
      else if oldsize ≤ newsize + rtMemheapSize + rtMemheapMinialloc then pure (h, ptr)
      else pure (h.shrinkItem headerPtr newsize, ptr)

end RtMemheap

end PandoraRobot.Memory
