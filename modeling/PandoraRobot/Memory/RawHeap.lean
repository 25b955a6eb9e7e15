import PandoraRobot.Kernel.Memmove
import PandoraRobot.Memory.HeapOps

/-! # The heap in memory

The calls of `mem.c` once more, on the bytes of the memory.  The header of a block is the twelve
bytes in front of its data, and `rt_realloc` copies data with `rt_memcpy`.

As long as the headers that a call reads and writes do not overlap, it does to them what it does to
the headers of a `Heap`, and it writes to no other byte.
-/

namespace PandoraRobot.Memory

open PandoraRobot.Kernel PandoraRobot.MemoryBlocks PandoraRobot.Tiling

namespace HeapMem

/-- `struct heap_mem` in memory, the least significant byte first. -/
def bits (m : HeapMem) : BitVec 96 := m.prev ++ m.next ++ m.used ++ m.magic

def ofBits (x : BitVec 96) : HeapMem where
  magic := x.extractLsb' 0 16
  used := x.extractLsb' 16 16
  next := x.extractLsb' 32 32
  prev := x.extractLsb' 64 32

end HeapMem

/-- The memory, and the variables of `mem.c`. -/
structure RawHeap where
  memory : ByteMemory
  heapPtr : BitVec 32
  heapEnd : BitVec 32
  lfree : BitVec 32
  memSizeAligned : BitVec 32
  usedMem : BitVec 32
  maxMem : BitVec 32

namespace RawHeap

/-- `heap_ptr[ptr]`. -/
def get (ptr : BitVec 32) (r : RawHeap) : HeapMem :=
  .ofBits (loadWord 96 12 r.memory (r.heapPtr + ptr))

def put (ptr : BitVec 32) (m : HeapMem) (r : RawHeap) : RawHeap :=
  { r with memory := storeWord 12 r.memory (r.heapPtr + ptr) m.bits }

def modify (ptr : BitVec 32) (f : HeapMem → HeapMem) (r : RawHeap) : RawHeap :=
  r.put ptr (f (r.get ptr))

def use (size : BitVec 32) (r : RawHeap) : RawHeap :=
  let usedMem := r.usedMem + size
  { r with usedMem, maxMem := if r.maxMem < usedMem then usedMem else r.maxMem }

/-! ## The code -/

/-- `rt_system_heap_init`. -/
def rtSystemHeapInit (beginAddr endAddr : BitVec 32) (r : RawHeap) : Option RawHeap :=
  let beginAlign := rtAlign beginAddr rtAlignSize
  let endAlign := rtAlignDown endAddr rtAlignSize
  if 2 * sizeofStructMem < endAlign ∧ beginAlign ≤ endAlign - 2 * sizeofStructMem then
    let memSizeAligned := endAlign - beginAlign - 2 * sizeofStructMem
    let last := memSizeAligned + sizeofStructMem
    let r := { r with heapPtr := beginAlign, heapEnd := last, lfree := 0, memSizeAligned }
    let r := r.put 0 ⟨heapMagic, 0, last, 0⟩
    some (r.put last ⟨heapMagic, 1, last, last⟩)
  else none

def joinBlocks (mem nmem : BitVec 32) (r : RawHeap) : RawHeap :=
  let r := { r with lfree := if r.lfree = nmem then mem else r.lfree }
  let next := (r.get nmem).next
  let r := r.modify mem (.setNext next)
  r.modify next (.setPrev mem)

/-- `plug_holes`. -/
def plugHoles (mem : BitVec 32) (r : RawHeap) : Exec RawHeap := do
  rtAssert (0 ≤ mem)
  rtAssert (mem < r.heapEnd)
  rtAssert ((r.get mem).used = 0)
  let nmem := (r.get mem).next
  let r := if mem ≠ nmem ∧ (r.get nmem).used = 0 ∧ nmem ≠ r.heapEnd then r.joinBlocks mem nmem
    else r
  let pmem := (r.get mem).prev
  pure (if pmem ≠ mem ∧ (r.get pmem).used = 0 then r.joinBlocks pmem mem else r)

def splitBlock (ptr size : BitVec 32) (r : RawHeap) : RawHeap :=
  let ptr2 := ptr + sizeofStructMem + size
  let next := (r.get ptr).next
  let r := r.put ptr2 ⟨heapMagic, 0, next, ptr⟩
  let r := r.modify ptr (.setNext ptr2)
  if next ≠ r.memSizeAligned + sizeofStructMem then r.modify next (.setPrev ptr2)
  else r

def dataSize (ptr : BitVec 32) (r : RawHeap) : BitVec 32 :=
  (r.get ptr).next - (ptr + sizeofStructMem)

def firstFit (size : BitVec 32) (r : RawHeap) : Nat → BitVec 32 → Exec (Option (BitVec 32))
  | 0, _ => throw .outOfFuel
  | fuel + 1, ptr =>
    if ptr < r.memSizeAligned - size then
      if (r.get ptr).used = 0 ∧ size ≤ r.dataSize ptr then pure (some ptr)
      else firstFit size r fuel (r.get ptr).next
    else pure none

def nextFree (r : RawHeap) : Nat → BitVec 32 → Exec (BitVec 32)
  | 0, _ => throw .outOfFuel
  | fuel + 1, lfree =>
    if (r.get lfree).used ≠ 0 ∧ lfree ≠ r.heapEnd then nextFree r fuel (r.get lfree).next
    else pure lfree

def fuel (r : RawHeap) : Nat := r.heapEnd.toNat + 1

def takeBlock (ptr size : BitVec 32) (r : RawHeap) : RawHeap :=
  let r :=
    if size + sizeofStructMem + minSizeAligned ≤ r.dataSize ptr then
      ((r.splitBlock ptr size).modify ptr (.setUsed 1)).use (size + sizeofStructMem)
    else
      let r := r.modify ptr (.setUsed 1)
      r.use ((r.get ptr).next - ptr)
  r.modify ptr fun m => { m with magic := heapMagic }

def lfreeAfter (mem : BitVec 32) (r : RawHeap) : Exec (BitVec 32) :=
  if mem = r.lfree then do
    let lfree ← r.nextFree r.fuel r.lfree
    rtAssert (lfree = r.heapEnd ∨ (r.get lfree).used = 0)
    pure lfree
  else pure r.lfree

/-- `rt_malloc`. -/
def rtMalloc (size : BitVec 32) (r : RawHeap) : Exec (RawHeap × Option (BitVec 32)) := do
  if size = 0 then pure (r, none)
  else
    if r.memSizeAligned < rtAlign size rtAlignSize then pure (r, none)
    else
      let size := Heap.mallocSize size
      match ← r.firstFit size r.fuel r.lfree with
      | none => pure (r, none)
      | some mem =>
        let r := r.takeBlock mem size
        let lfree ← r.lfreeAfter mem
        let r := { r with lfree }
        let addr := r.heapPtr + mem
        rtAssert (addr + sizeofStructMem + size ≤ r.heapPtr + r.heapEnd)
        rtAssert ((addr + sizeofStructMem) % rtAlignSize = 0)
        rtAssert (addr &&& (rtAlignSize - 1) = 0)
        pure (r, some (addr + sizeofStructMem))

/-- `rt_free`. -/
def rtFree (rmem : Option (BitVec 32)) (r : RawHeap) : Exec RawHeap :=
  match rmem with
  | none => pure r
  | some rmem => do
    rtAssert (rmem &&& (rtAlignSize - 1) = 0)
    -- the code checks this once more and returns
    rtAssert (r.heapPtr ≤ rmem ∧ rmem < r.heapPtr + r.heapEnd)
    let mem := rmem - sizeofStructMem - r.heapPtr
    rtAssert ((r.get mem).used ≠ 0)
    rtAssert ((r.get mem).magic = heapMagic)
    let r := r.modify mem fun m => { m with used := 0, magic := heapMagic }
    let r := { r with lfree := if mem < r.lfree then mem else r.lfree }
    let r := { r with usedMem := r.usedMem - ((r.get mem).next - mem) }
    r.plugHoles mem

/-- `rt_realloc`. -/
def rtRealloc (rmem : Option (BitVec 32)) (newsize : BitVec 32) (r : RawHeap) :
    Exec (RawHeap × Option (BitVec 32)) := do
  let newsize := rtAlign newsize rtAlignSize
  if r.memSizeAligned < newsize then pure (r, none)
  else if newsize = 0 then
    let r ← r.rtFree rmem
    pure (r, none)
  else
    match rmem with
    | none => r.rtMalloc newsize
    | some addr =>
      if addr < r.heapPtr ∨ r.heapPtr + r.heapEnd ≤ addr then pure (r, rmem)
      else
        let ptr := addr - sizeofStructMem - r.heapPtr
        let size := (r.get ptr).next - ptr - sizeofStructMem
        if size = newsize then pure (r, rmem)
        else if newsize + sizeofStructMem + minSize < size then
          let r := { r with usedMem := r.usedMem - (size - newsize) }
          let r ← (r.splitBlock ptr newsize).plugHoles (ptr + sizeofStructMem + newsize)
          pure (r, rmem)
        else
          let (r, nmem) ← r.rtMalloc newsize
          match nmem with
          | none => pure (r, none)
          | some addr' =>
            let r := { r with
              memory := rtMemcpy r.memory addr' addr (if size < newsize then size else newsize) }
            let r ← r.rtFree rmem
            pure (r, nmem)

/-! ## The headers -/

/-- The heap with these headers. -/
def withHeaders (r : RawHeap) (mem : Nat → HeapMem) : Heap where
  mem := mem
  heapPtr := r.heapPtr
  heapEnd := r.heapEnd
  lfree := r.lfree
  memSizeAligned := r.memSizeAligned
  usedMem := r.usedMem
  maxMem := r.maxMem

/-- The heap whose headers are in memory. -/
def heap (r : RawHeap) : Heap := r.withHeaders fun o => r.get (BitVec.ofNat 32 o)

variable {r r' : RawHeap} {ptr ptr2 p q a size : BitVec 32} {m : HeapMem}

theorem heap_get : r.heap.get p = r.get p := by
  show r.get (BitVec.ofNat 32 p.toNat) = r.get p
  rw [BitVec.ofNat_toNat, BitVec.setWidth_eq]

theorem ofBits_bits (m : HeapMem) : HeapMem.ofBits m.bits = m := by
  obtain ⟨magic, used, next, prev⟩ := m
  rw [HeapMem.ofBits, HeapMem.mk.injEq]
  refine ⟨?_, ?_, ?_, ?_⟩
  all_goals
    apply BitVec.eq_of_getLsbD_eq
    intro i hi
    simp only [HeapMem.bits, BitVec.getLsbD_extractLsb', BitVec.getLsbD_append]
    grind

theorem get_put_self : (r.put p m).get p = m := by
  have hload : loadWord 96 12 (storeWord 12 r.memory (r.heapPtr + p) m.bits) (r.heapPtr + p) =
      m.bits := loadWord_storeWord rfl (by decide)
  exact (congrArg HeapMem.ofBits hload).trans (ofBits_bits m)

/-- A byte that is not one of the header. -/
theorem put_memory_of_le (h : 12 ≤ (a - (r.heapPtr + p)).toNat) :
    (r.put p m).memory a = r.memory a := written_of_le h

/-- A header that does not overlap with one that is written. -/
theorem get_put_of_apart (h : 12 ≤ (q - p).toNat) (h' : 12 ≤ (p - q).toNat) :
    (r.put p m).get q = r.get q := by
  rw [get, get]
  congr 1
  refine loadWord_congr fun k hk => put_memory_of_le ?_
  show 12 ≤ (r.heapPtr + q + BitVec.ofNat 32 k - (r.heapPtr + p)).toNat
  bv_omega

theorem get_put_same {h : Heap} : (h.put p m).get p = m := Function.update_self _ _ _

theorem get_put_other {h : Heap} (hne : q ≠ p) : (h.put p m).get q = h.get q :=
  Function.update_of_ne (fun heq => hne (BitVec.eq_of_toNat_eq heq)) _ _

/-- No two of these headers overlap. -/
def Spaced (S : BitVec 32 → Prop) : Prop := ∀ p q, S p → S q → p ≠ q → 12 ≤ (q - p).toNat

/-- There may be a header at one place more. -/
structure Grows (S S' : BitVec 32 → Prop) (place : BitVec 32) : Prop where
  spaced : Spaced S'
  sub : ∀ p, S p → S' p
  new : S' place
  only : ∀ q, S' q → q ≠ place → S q

/-- The headers at the places in `S` are those of a heap, and lead to places in `S` only; and other
    bytes are as before. -/
structure Follows (S : BitVec 32 → Prop) (before : ByteMemory) (r : RawHeap) (h : Heap) : Prop where
  same : h = r.withHeaders h.mem
  headers : ∀ p, S p → r.get p = h.get p
  next : ∀ p, S p → S (h.get p).next
  prev : ∀ p, S p → p ≠ h.heapEnd → S (h.get p).prev
  kept : ∀ a, (∀ p, S p → 12 ≤ (a - (r.heapPtr + p)).toNat) → r.memory a = before a

section Follows

variable {S S' : BitVec 32 → Prop} {before : ByteMemory} {h h' : Heap} {f : HeapMem → HeapMem}
  {mem nmem : BitVec 32}

theorem Follows.lfree (hf : Follows S before r h) : r.lfree = h.lfree :=
  (congrArg Heap.lfree hf.same).symm

theorem Follows.heapEnd (hf : Follows S before r h) : r.heapEnd = h.heapEnd :=
  (congrArg Heap.heapEnd hf.same).symm

theorem Follows.heapPtr (hf : Follows S before r h) : r.heapPtr = h.heapPtr :=
  (congrArg Heap.heapPtr hf.same).symm

theorem Follows.memSizeAligned (hf : Follows S before r h) :
    r.memSizeAligned = h.memSizeAligned :=
  (congrArg Heap.memSizeAligned hf.same).symm

theorem Follows.usedMem (hf : Follows S before r h) : r.usedMem = h.usedMem :=
  (congrArg Heap.usedMem hf.same).symm

theorem Follows.maxMem (hf : Follows S before r h) : r.maxMem = h.maxMem :=
  (congrArg Heap.maxMem hf.same).symm

/-- A header is written, perhaps at a new place. -/
theorem Follows.insert (hf : Follows S before r h) (hg : Grows S S' p) (hnext : S' m.next)
    (hprev : p ≠ h.heapEnd → S' m.prev) : Follows S' before (r.put p m) (h.put p m) where
  same := congrArg (Heap.put p m) hf.same
  headers q hq := by
    by_cases heq : q = p
    · subst heq
      rw [get_put_self, get_put_same]
    · rw [get_put_of_apart (hg.spaced p q hg.new hq (Ne.symm heq)) (hg.spaced q p hq hg.new heq),
        get_put_other heq]
      exact hf.headers q (hg.only q hq heq)
  next q hq := by
    by_cases heq : q = p
    · subst heq
      rwa [get_put_same]
    · rw [get_put_other heq]
      exact hg.sub _ (hf.next q (hg.only q hq heq))
  prev q hq hend := by
    by_cases heq : q = p
    · subst heq
      rw [get_put_same]
      exact hprev hend
    · rw [get_put_other heq]
      exact hg.sub _ (hf.prev q (hg.only q hq heq) hend)
  kept a haway := by
    have haway' : 12 ≤ (a - (r.heapPtr + p)).toNat := haway p hg.new
    rw [put_memory_of_le haway']
    exact hf.kept a fun q hq => haway q (hg.sub q hq)

theorem Follows.put (hf : Follows S before r h) (hs : Spaced S) (hp : S p) (hnext : S m.next)
    (hprev : p ≠ h.heapEnd → S m.prev) : Follows S before (r.put p m) (h.put p m) :=
  hf.insert ⟨hs, fun _ => id, hp, fun _ hq _ => hq⟩ hnext hprev

theorem Follows.modify (hf : Follows S before r h) (hs : Spaced S) (hp : S p)
    (hnext : S (f (h.get p)).next) (hprev : p ≠ h.heapEnd → S (f (h.get p)).prev) :
    Follows S before (r.modify p f) (h.modify p f) := by
  rw [RawHeap.modify, Heap.modify, hf.headers p hp]
  exact hf.put hs hp hnext hprev

theorem Follows.setLfree (hf : Follows S before r h) (lfree : BitVec 32) :
    Follows S before { r with lfree } { h with lfree } where
  same := congrArg (fun h : Heap => { h with lfree }) hf.same
  headers := hf.headers
  next := hf.next
  prev := hf.prev
  kept := hf.kept

theorem Follows.setUsedMem (hf : Follows S before r h) (usedMem : BitVec 32) :
    Follows S before { r with usedMem } { h with usedMem } where
  same := congrArg (fun h : Heap => { h with usedMem }) hf.same
  headers := hf.headers
  next := hf.next
  prev := hf.prev
  kept := hf.kept

theorem Follows.use (hf : Follows S before r h) (size : BitVec 32) :
    Follows S before (r.use size) (h.use size) where
  same := congrArg (Heap.use size) hf.same
  headers := hf.headers
  next := hf.next
  prev := hf.prev
  kept := hf.kept

theorem Follows.setNext (hf : Follows S before r h) (hs : Spaced S) (hp : S p) (hq : S q) :
    Follows S before (r.modify p (.setNext q)) (h.modify p (.setNext q)) :=
  hf.modify hs hp hq (hf.prev p hp)

theorem Follows.setPrev (hf : Follows S before r h) (hs : Spaced S) (hp : S p) (hq : S q) :
    Follows S before (r.modify p (.setPrev q)) (h.modify p (.setPrev q)) :=
  hf.modify hs hp (hf.next p hp) fun _ => hq

/-- A header is written that leads to the same places. -/
theorem Follows.mark (hf : Follows S before r h) (hs : Spaced S) (hp : S p)
    (hlinks : ∀ m, (f m).next = m.next ∧ (f m).prev = m.prev) :
    Follows S before (r.modify p f) (h.modify p f) := by
  refine hf.modify hs hp ?_ fun hend => ?_
  · rw [(hlinks _).1]
    exact hf.next p hp
  · rw [(hlinks _).2]
    exact hf.prev p hp hend

theorem Follows.joinBlocks (hf : Follows S before r h) (hs : Spaced S) (hmem : S mem)
    (hnmem : S nmem) : Follows S before (r.joinBlocks mem nmem) (h.joinBlocks mem nmem) := by
  have hfree := hf.setLfree (if h.lfree = nmem then mem else h.lfree)
  have hnext := hf.next nmem hnmem
  rw [RawHeap.joinBlocks, Heap.joinBlocks, hf.lfree]
  simp only [hfree.headers nmem hnmem]
  exact (hfree.setNext hs hmem hnext).setPrev hs hnext hmem

theorem Follows.plugHoles (hf : Follows S before r h) (hs : Spaced S) (hmem : S mem)
    (hplug : h.plugHoles mem = .ok h') :
    ∃ r', r.plugHoles mem = .ok r' ∧ Follows S before r' h' := by
  simp only [Heap.plugHoles, exec_bind_ok, rtAssert_eq_ok, exec_pure_ok] at hplug
  obtain ⟨-, hlow, -, hend, -, hused, rfl⟩ := hplug
  have hne : mem ≠ h.heapEnd := BitVec.ne_of_lt hend
  have hget := hf.headers mem hmem
  have hnmem := hf.next mem hmem
  obtain ⟨r₁, hr₁, hforward⟩ : ∃ r₁, r₁ =
      (if mem ≠ (r.get mem).next ∧ (r.get (r.get mem).next).used = 0 ∧ (r.get mem).next ≠ r.heapEnd
        then r.joinBlocks mem (r.get mem).next else r) ∧ Follows S before r₁
      (if mem ≠ (h.get mem).next ∧ (h.get (h.get mem).next).used = 0 ∧ (h.get mem).next ≠ h.heapEnd
        then h.joinBlocks mem (h.get mem).next else h) := by
    refine ⟨_, rfl, ?_⟩
    rw [hget, hf.headers _ hnmem, hf.heapEnd]
    split
    · exact hf.joinBlocks hs hmem hnmem
    · exact hf
  refine ⟨_, exec_bind_ok.mpr ⟨(), rtAssert_eq_ok.mpr hlow, exec_bind_ok.mpr
    ⟨(), rtAssert_eq_ok.mpr (by rwa [hf.heapEnd]), exec_bind_ok.mpr
      ⟨(), rtAssert_eq_ok.mpr (by rwa [hget]), rfl⟩⟩⟩, ?_⟩
  rw [← hr₁]
  generalize hh₁ : (if mem ≠ (h.get mem).next ∧ (h.get (h.get mem).next).used = 0 ∧
    (h.get mem).next ≠ h.heapEnd then h.joinBlocks mem (h.get mem).next else h) = h₁ at hforward ⊢
  have hend₁ : h₁.heapEnd = h.heapEnd := by
    rw [← hh₁]
    split
    · rfl
    · rfl
  have hpmem := hforward.prev mem hmem (by rwa [hend₁])
  rw [hforward.headers mem hmem, hforward.headers _ hpmem]
  split
  · exact hforward.joinBlocks hs hpmem hmem
  · exact hforward

/-- A block is split, with a header at a new place. -/
theorem Follows.splitBlock (hf : Follows S before r h) (hptr : S ptr)
    (hg : Grows S S' (ptr + sizeofStructMem + size)) :
    Follows S' before (r.splitBlock ptr size) (h.splitBlock ptr size) := by
  have hnext := hg.sub _ (hf.next ptr hptr)
  rw [RawHeap.splitBlock, Heap.splitBlock]
  generalize ptr + sizeofStructMem + size = ptr2 at hg ⊢
  have hput : Follows S' before (r.put ptr2 ⟨heapMagic, 0, (h.get ptr).next, ptr⟩)
      (h.put ptr2 ⟨heapMagic, 0, (h.get ptr).next, ptr⟩) :=
    hf.insert hg hnext fun _ => hg.sub _ hptr
  have hcut := hput.setNext hg.spaced (hg.sub _ hptr) hg.new
  simp only [hf.headers ptr hptr]
  have hsize : r.memSizeAligned = h.memSizeAligned := hf.memSizeAligned
  show Follows S' before (if (h.get ptr).next ≠ r.memSizeAligned + sizeofStructMem then _ else _)
    (if (h.get ptr).next ≠ h.memSizeAligned + sizeofStructMem then _ else _)
  rw [hsize]
  split
  · exact hcut.setPrev hg.spaced hnext hg.new
  · exact hcut

theorem Follows.dataSize (hf : Follows S before r h) (hptr : S ptr) :
    r.dataSize ptr = h.dataSize ptr := by
  rw [RawHeap.dataSize, Heap.dataSize, hf.headers ptr hptr]

theorem Follows.firstFit (hf : Follows S before r h) {fuel : Nat} (hptr : S ptr) :
    r.firstFit size fuel ptr = h.firstFit size fuel ptr ∧
      ∀ mem, h.firstFit size fuel ptr = .ok (some mem) → S mem := by
  induction fuel generalizing ptr with
  | zero => exact ⟨rfl, fun mem hfound => by simp [Heap.firstFit] at hfound⟩
  | succ fuel ih =>
    obtain ⟨hrest, hplace⟩ := ih (hf.next ptr hptr)
    rw [RawHeap.firstFit, Heap.firstFit, hf.headers ptr hptr, hf.dataSize hptr, hf.memSizeAligned,
      hrest]
    refine ⟨rfl, fun mem hfound => ?_⟩
    split at hfound
    case isFalse => simp at hfound
    case isTrue =>
      split at hfound
      case isTrue =>
        simp only [exec_pure_ok, Option.some.injEq] at hfound
        exact hfound ▸ hptr
      case isFalse => exact hplace mem hfound

theorem Follows.nextFree (hf : Follows S before r h) {fuel : Nat} (hptr : S ptr) :
    r.nextFree fuel ptr = h.nextFree fuel ptr ∧
      ∀ lfree, h.nextFree fuel ptr = .ok lfree → S lfree := by
  induction fuel generalizing ptr with
  | zero => exact ⟨rfl, fun lfree hfound => by simp [Heap.nextFree] at hfound⟩
  | succ fuel ih =>
    obtain ⟨hrest, hplace⟩ := ih (hf.next ptr hptr)
    rw [RawHeap.nextFree, Heap.nextFree, hf.headers ptr hptr, hf.heapEnd, hrest]
    refine ⟨rfl, fun lfree hfound => ?_⟩
    split at hfound
    case isTrue => exact hplace lfree hfound
    case isFalse =>
      rw [exec_pure_ok] at hfound
      exact hfound ▸ hptr

theorem Follows.lfreeAfter (hf : Follows S before r h) (hmem : S mem) {lfree : BitVec 32}
    (hafter : h.lfreeAfter mem = .ok lfree) : r.lfreeAfter mem = .ok lfree := by
  rw [RawHeap.lfreeAfter, hf.lfree]
  rw [Heap.lfreeAfter] at hafter
  split
  case isTrue hat =>
    rw [if_pos hat] at hafter
    simp only [exec_bind_ok, rtAssert_eq_ok, exec_pure_ok] at hafter ⊢
    obtain ⟨free, hnext, u, hfree, rfl⟩ := hafter
    obtain ⟨hsame, hplace⟩ := @Follows.nextFree _ _ _ _ _ hf h.fuel (hat ▸ hmem)
    refine ⟨free, ?_, u, ?_, rfl⟩
    · rw [RawHeap.fuel, hf.heapEnd]
      exact hsame.trans hnext
    · rwa [hf.heapEnd, hf.headers _ (hplace _ hnext)]
  case isFalse hat => rwa [if_neg hat] at hafter

/-- `rt_malloc` takes a block, where a place for the header of the rest is new. -/
theorem Follows.takeBlock (hf : Follows S before r h) (hs : Spaced S) (hptr : S ptr)
    (hg : size + sizeofStructMem + minSizeAligned ≤ h.dataSize ptr →
      Grows S S' (ptr + sizeofStructMem + size)) :
    Follows (if size + sizeofStructMem + minSizeAligned ≤ h.dataSize ptr then S' else S) before
      (r.takeBlock ptr size) (h.takeBlock ptr size) := by
  rw [RawHeap.takeBlock, Heap.takeBlock, hf.dataSize hptr]
  split
  case isTrue hrest =>
    have hptr' := (hg hrest).sub _ hptr
    have hsplit := hf.splitBlock hptr (hg hrest)
    have hused : Follows S' before ((r.splitBlock ptr size).modify ptr (.setUsed 1))
        ((h.splitBlock ptr size).modify ptr (.setUsed 1)) :=
      hsplit.mark (hg hrest).spaced hptr' fun m => ⟨rfl, rfl⟩
    exact (hused.use _).mark (hg hrest).spaced hptr' fun m => ⟨rfl, rfl⟩
  case isFalse hrest =>
    have hused : Follows S before (r.modify ptr (.setUsed 1)) (h.modify ptr (.setUsed 1)) :=
      hf.mark hs hptr fun m => ⟨rfl, rfl⟩
    simp only [hused.headers ptr hptr]
    exact (hused.use _).mark hs hptr fun m => ⟨rfl, rfl⟩

end Follows

end RawHeap

end PandoraRobot.Memory
