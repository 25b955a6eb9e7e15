import PandoraRobot.Kernel.Service
import PandoraRobot.Lib.Tiling

/-! # The heap

`rt_malloc`, `rt_realloc`, `rt_calloc` and `rt_free` of `mem.c`, the small memory manager,
and `rt_malloc_align` of `kservice.c`.  The calls hold `heap_sem`, so one call is one step.

Pointers into the heap (`lfree`, `heap_end`, `mem`) are kept as what the code computes of
them, their offsets from `heap_ptr`; what callers hold are addresses.  Of the memory the
model has the block headers; callers write between them only.
-/

namespace PandoraRobot.Memory

open PandoraRobot.Kernel PandoraRobot.Tiling

/-! ## Configuration -/

/-- `RT_ALIGN`. -/
def rtAlign (size align : BitVec 32) : BitVec 32 := (size + align - 1) &&& ~~~(align - 1)

/-- `RT_ALIGN_DOWN`. -/
def rtAlignDown (size align : BitVec 32) : BitVec 32 := size &&& ~~~(align - 1)

/-- `RT_ALIGN_SIZE`. -/
def rtAlignSize : BitVec 32 := 4
def heapMagic : BitVec 16 := 0x1ea0
def minSize : BitVec 32 := 12
def minSizeAligned : BitVec 32 := rtAlign minSize rtAlignSize
/-- `SIZEOF_STRUCT_MEM`; `struct heap_mem` has two half words and two words. -/
def sizeofStructMem : BitVec 32 := rtAlign 12 rtAlignSize

/-! ## Data -/

/-- `struct heap_mem`. -/
structure HeapMem where
  magic : BitVec 16
  used : BitVec 16
  next : BitVec 32
  prev : BitVec 32
  deriving DecidableEq, Repr

namespace HeapMem

def setUsed (used : BitVec 16) (m : HeapMem) : HeapMem := { m with used }

def setNext (next : BitVec 32) (m : HeapMem) : HeapMem := { m with next }

def setPrev (prev : BitVec 32) (m : HeapMem) : HeapMem := { m with prev }

end HeapMem

structure Heap where
  /-- The header at each offset from `heap_ptr`. -/
  mem : Nat → HeapMem
  heapPtr : BitVec 32
  heapEnd : BitVec 32
  /-- The lowest free block, as far as it is known. -/
  lfree : BitVec 32
  memSizeAligned : BitVec 32
  usedMem : BitVec 32
  maxMem : BitVec 32

namespace Heap

/-- `heap_ptr[ptr]`. -/
def get (ptr : BitVec 32) (h : Heap) : HeapMem := h.mem ptr.toNat

def put (ptr : BitVec 32) (m : HeapMem) (h : Heap) : Heap :=
  { h with mem := Function.update h.mem ptr.toNat m }

def modify (ptr : BitVec 32) (f : HeapMem → HeapMem) (h : Heap) : Heap := h.put ptr (f (h.get ptr))

/-- `used_mem` grows, and `max_mem` with it. -/
def use (size : BitVec 32) (h : Heap) : Heap :=
  let usedMem := h.usedMem + size
  { h with usedMem, maxMem := if h.maxMem < usedMem then usedMem else h.maxMem }

/-! ## The code -/

/-- `rt_system_heap_init`; there is no heap where it prints an error. -/
def rtSystemHeapInit (beginAddr endAddr : BitVec 32) (h : Heap) : Option Heap :=
  let beginAlign := rtAlign beginAddr rtAlignSize
  let endAlign := rtAlignDown endAddr rtAlignSize
  if 2 * sizeofStructMem < endAlign ∧ beginAlign ≤ endAlign - 2 * sizeofStructMem then
    let memSizeAligned := endAlign - beginAlign - 2 * sizeofStructMem
    let last := memSizeAligned + sizeofStructMem
    let h := h.put 0 ⟨heapMagic, 0, last, 0⟩
    let h := h.put last ⟨heapMagic, 1, last, last⟩
    some { h with heapPtr := beginAlign, heapEnd := last, lfree := 0, memSizeAligned }
  else none

/-- The block `nmem` goes into the block `mem` before it. -/
def joinBlocks (mem nmem : BitVec 32) (h : Heap) : Heap :=
  let h := { h with lfree := if h.lfree = nmem then mem else h.lfree }
  let next := (h.get nmem).next
  let h := h.modify mem (.setNext next)
  h.modify next (.setPrev mem)

/-- `plug_holes`: forward, then backward. -/
def plugHoles (mem : BitVec 32) (h : Heap) : Exec Heap := do
  rtAssert (0 ≤ mem)
  rtAssert (mem < h.heapEnd)
  rtAssert ((h.get mem).used = 0)
  let nmem := (h.get mem).next
  let h := if mem ≠ nmem ∧ (h.get nmem).used = 0 ∧ nmem ≠ h.heapEnd then h.joinBlocks mem nmem
    else h
  let pmem := (h.get mem).prev
  pure (if pmem ≠ mem ∧ (h.get pmem).used = 0 then h.joinBlocks pmem mem else h)

/-- The block `ptr` is cut to `size` bytes of data, and a free block is made of the rest. -/
def splitBlock (ptr size : BitVec 32) (h : Heap) : Heap :=
  let ptr2 := ptr + sizeofStructMem + size
  let next := (h.get ptr).next
  let h := h.put ptr2 ⟨heapMagic, 0, next, ptr⟩
  let h := h.modify ptr (.setNext ptr2)
  if next ≠ h.memSizeAligned + sizeofStructMem then h.modify next (.setPrev ptr2)
  else h

/-- The bytes of data of the block `ptr`. -/
def dataSize (ptr : BitVec 32) (h : Heap) : BitVec 32 := (h.get ptr).next - (ptr + sizeofStructMem)

/-- The loop of `rt_malloc` over the blocks, from `ptr` on. -/
def firstFit (size : BitVec 32) (h : Heap) : Nat → BitVec 32 → Exec (Option (BitVec 32))
  | 0, _ => throw .outOfFuel
  | fuel + 1, ptr =>
    if ptr < h.memSizeAligned - size then
      if (h.get ptr).used = 0 ∧ size ≤ h.dataSize ptr then pure (some ptr)
      else firstFit size h fuel (h.get ptr).next
    else pure none

/-- The loop of `rt_malloc` that moves `lfree` on. -/
def nextFree (h : Heap) : Nat → BitVec 32 → Exec (BitVec 32)
  | 0, _ => throw .outOfFuel
  | fuel + 1, lfree =>
    if (h.get lfree).used ≠ 0 ∧ lfree ≠ h.heapEnd then nextFree h fuel (h.get lfree).next
    else pure lfree

/-- There are no more blocks than bytes. -/
def fuel (h : Heap) : Nat := h.heapEnd.toNat + 1

/-- What `rt_malloc` does with the block it has found. -/
def takeBlock (ptr size : BitVec 32) (h : Heap) : Heap :=
  let h :=
    if size + sizeofStructMem + minSizeAligned ≤ h.dataSize ptr then
      ((h.splitBlock ptr size).modify ptr (.setUsed 1)).use
        (size + sizeofStructMem)
    else
      let h := h.modify ptr (.setUsed 1)
      h.use ((h.get ptr).next - ptr)
  h.modify ptr fun m => { m with magic := heapMagic }

/-- `lfree` after the block `mem` has been taken. -/
def lfreeAfter (mem : BitVec 32) (h : Heap) : Exec (BitVec 32) :=
  if mem = h.lfree then do
    let lfree ← h.nextFree h.fuel h.lfree
    rtAssert (lfree = h.heapEnd ∨ (h.get lfree).used = 0)
    pure lfree
  else pure h.lfree

/-- The size that `rt_malloc` looks for: every block has at least `MIN_SIZE_ALIGNED` bytes. -/
def mallocSize (size : BitVec 32) : BitVec 32 :=
  let size := rtAlign size rtAlignSize
  if size < minSizeAligned then minSizeAligned else size

/-- `rt_malloc`. -/
def rtMalloc (size : BitVec 32) (h : Heap) : Exec (Heap × Option (BitVec 32)) := do
  if size = 0 then pure (h, none)
  else
    if h.memSizeAligned < rtAlign size rtAlignSize then pure (h, none)
    else
      let size := mallocSize size
      match ← h.firstFit size h.fuel h.lfree with
      | none => pure (h, none)
      | some mem =>
        let h := h.takeBlock mem size
        let lfree ← h.lfreeAfter mem
        let h := { h with lfree }
        let addr := h.heapPtr + mem
        rtAssert (addr + sizeofStructMem + size ≤ h.heapPtr + h.heapEnd)
        rtAssert ((addr + sizeofStructMem) % rtAlignSize = 0)
        rtAssert (addr &&& (rtAlignSize - 1) = 0)
        pure (h, some (addr + sizeofStructMem))

/-- `rt_free`. -/
def rtFree (rmem : Option (BitVec 32)) (h : Heap) : Exec Heap :=
  match rmem with
  | none => pure h
  | some rmem => do
    rtAssert (rmem &&& (rtAlignSize - 1) = 0)
    -- the code checks this once more and returns
    rtAssert (h.heapPtr ≤ rmem ∧ rmem < h.heapPtr + h.heapEnd)
    let mem := rmem - sizeofStructMem - h.heapPtr
    rtAssert ((h.get mem).used ≠ 0)
    rtAssert ((h.get mem).magic = heapMagic)
    let h := h.modify mem fun m => { m with used := 0, magic := heapMagic }
    let h := { h with lfree := if mem < h.lfree then mem else h.lfree }
    let h := { h with usedMem := h.usedMem - ((h.get mem).next - mem) }
    h.plugHoles mem

/-- `rt_realloc`. -/
def rtRealloc (rmem : Option (BitVec 32)) (newsize : BitVec 32) (h : Heap) :
    Exec (Heap × Option (BitVec 32)) := do
  let newsize := rtAlign newsize rtAlignSize
  if h.memSizeAligned < newsize then pure (h, none)
  else if newsize = 0 then
    let h ← h.rtFree rmem
    pure (h, none)
  else
    match rmem with
    | none => h.rtMalloc newsize
    | some addr =>
      if addr < h.heapPtr ∨ h.heapPtr + h.heapEnd ≤ addr then pure (h, rmem)
      else
        let ptr := addr - sizeofStructMem - h.heapPtr
        let size := (h.get ptr).next - ptr - sizeofStructMem
        if size = newsize then pure (h, rmem)
        else if newsize + sizeofStructMem + minSize < size then
          let h := { h with usedMem := h.usedMem - (size - newsize) }
          let h ← (h.splitBlock ptr newsize).plugHoles (ptr + sizeofStructMem + newsize)
          pure (h, rmem)
        else
          let (h, nmem) ← h.rtMalloc newsize
          match nmem with
          | none => pure (h, none)
          | some _ =>
            let h ← h.rtFree rmem
            pure (h, nmem)

/-- `rt_calloc`. -/
def rtCalloc (count size : BitVec 32) (h : Heap) : Exec (Heap × Option (BitVec 32)) :=
  h.rtMalloc (count * size)

/-- The place in the block `ptr` that `rt_malloc_align` returns. -/
def alignPtr (ptr align : BitVec 32) : BitVec 32 :=
  if ptr &&& (align - 1) = 0 then ptr + align else (ptr + (align - 1)) &&& ~~~(align - 1)

/-- `rt_malloc_align`: the result, and the address of the block, which is kept in the word before
    the result. -/
def rtMallocAlign (size align : BitVec 32) (h : Heap) :
    Exec (Heap × Option (BitVec 32 × BitVec 32)) := do
  let align := (align + 0x03) &&& ~~~0x03
  let alignSize := ((size + 0x03) &&& ~~~0x03) + align
  match ← h.rtMalloc alignSize with
  | (h, none) => pure (h, none)
  | (h, some ptr) => pure (h, some (alignPtr ptr align, ptr))

end Heap

end PandoraRobot.Memory
