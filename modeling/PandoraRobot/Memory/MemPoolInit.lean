import PandoraRobot.Lib.Chain
import PandoraRobot.Memory.HeapSizes

/-! # How a memory pool is set up

What `rt_mp_init` and `rt_mp_create` of `mempool.c` store to link the blocks of a pool, with
addresses and sizes of 32 bits.  The words that one call stores are a multiple of four bytes apart,
so the memory is one of words, each under the address of its first byte.
-/

namespace PandoraRobot.Memory

open PandoraRobot.Kernel PandoraRobot.Chain

/-! ## The code -/

abbrev WordStore := BitVec 32 × BitVec 32

/-- `struct rt_mempool`, as far as it describes the blocks. -/
structure PoolBlocks where
  startAddress : BitVec 32
  size : BitVec 32
  blockSize : BitVec 32
  blockList : BitVec 32
  blockTotalCount : BitVec 32
  blockFreeCount : BitVec 32
  deriving DecidableEq, Repr

namespace PoolBlocks

/-- The bytes from one block to the next. -/
def stride (mp : PoolBlocks) : BitVec 32 := mp.blockSize + 4

def blockPtr (mp : PoolBlocks) (offset : BitVec 32) : BitVec 32 :=
  mp.startAddress + offset * mp.stride

/-- The stores of the loop, and the one behind it. -/
def linkBlocks (mp : PoolBlocks) : List WordStore :=
  (List.range mp.blockTotalCount.toNat).map (fun offset =>
    (mp.blockPtr (BitVec.ofNat 32 offset), mp.blockPtr (BitVec.ofNat 32 offset + 1))) ++
  [(mp.blockPtr (mp.blockTotalCount - 1), 0)]

/-- `rt_mp_init`: the pool, and the stores. -/
def rtMpInit (start size blockSize : BitVec 32) : Exec (PoolBlocks × List WordStore) := do
  let size := rtAlignDown size rtAlignSize
  let blockSize := rtAlign blockSize rtAlignSize
  -- a division by zero
  if blockSize + 4 = 0 then throw .outOfBounds
  let total := size / (blockSize + 4)
  let mp : PoolBlocks := ⟨start, size, blockSize, start, total, total⟩
  pure (mp, mp.linkBlocks)

def sizeofStructMempool : BitVec 32 := 56

/-- `rt_mp_create`: the heap, and, if it returns a pool, this and the stores. -/
def rtMpCreate (blockCount blockSize : BitVec 32) (h : Heap) :
    Exec (Heap × Option (PoolBlocks × List WordStore)) := do
  let (h, object) ← h.rtMalloc sizeofStructMempool
  match object with
  | none => pure (h, none)
  | some object =>
    let blockSize := rtAlign blockSize rtAlignSize
    let size := (blockSize + 4) * blockCount
    let (h, start) ← h.rtMalloc size
    match start with
    | none =>
      -- `rt_object_delete`
      let h ← h.rtFree (some object)
      pure (h, none)
    | some start =>
      let mp : PoolBlocks := ⟨start, size, blockSize, start, blockCount, blockCount⟩
      pure (h, some (mp, mp.linkBlocks))

end PoolBlocks

/-! ## What a pool is -/

/-- The memory after stores. -/
def storeWords (stores : List WordStore) (word : BitVec 32 → BitVec 32) : BitVec 32 → BitVec 32 :=
  stores.foldl (fun word store => Function.update word store.1 store.2) word

/-- A link, which is `RT_NULL` at the end. -/
def linkWord (next : Option (BitVec 32)) : BitVec 32 := next.getD 0

/-- The bytes are within `size` bytes from `start` on. -/
structure Within (start : BitVec 32) (size : Nat) (addr : BitVec 32) (bytes : Nat) : Prop where
  lower : start.toNat ≤ addr.toNat
  upper : addr.toNat + bytes ≤ start.toNat + size
  addressed : addr.toNat + bytes ≤ 2 ^ 32

/-- The stores are within the pool, and leave a list of as many blocks as the pool counts, all of
    which are within it. -/
structure PoolBlocks.Built (mp : PoolBlocks) (size : Nat) (stores : List WordStore) : Prop where
  stored : ∀ store ∈ stores, Within mp.startAddress size store.1 4
  listed : ∀ word, ∃ blocks : List (BitVec 32), blocks.length = mp.blockTotalCount.toNat ∧
    mp.blockList = linkWord blocks.head? ∧ Linked linkWord (storeWords stores word) blocks ∧
    ∀ b ∈ blocks, b ≠ 0 ∧ Within mp.startAddress size b (mp.blockSize.toNat + 4)

/-! ## The stores -/

variable {mp : PoolBlocks} {word : BitVec 32 → BitVec 32} {size : Nat}

theorem storeWords_append (stores stores' : List WordStore) (word : BitVec 32 → BitVec 32) :
    storeWords (stores ++ stores') word = storeWords stores' (storeWords stores word) :=
  List.foldl_append

/-- Where what is stored depends on the address alone, it does not matter how often it is. -/
theorem storeWords_eq {f : BitVec 32 → BitVec 32} {stores : List WordStore}
    (hf : ∀ store ∈ stores, store.2 = f store.1) {a : BitVec 32}
    (ha : a ∈ stores.map Prod.fst ∨ word a = f a) : storeWords stores word a = f a := by
  induction stores generalizing word with
  | nil => exact ha.resolve_left List.not_mem_nil
  | cons store stores ih =>
    show storeWords stores (Function.update word store.1 store.2) a = f a
    refine ih (fun s hs => hf s (List.mem_cons_of_mem _ hs)) ?_
    by_cases heq : a = store.1
    · right
      rw [heq, Function.update_self]
      exact hf store List.mem_cons_self
    · rw [List.map_cons, List.mem_cons, or_iff_right heq] at ha
      rwa [Function.update_of_ne heq]

namespace PoolBlocks

/-- The block with a number. -/
def block (mp : PoolBlocks) (k : Nat) : BitVec 32 := mp.blockPtr (BitVec.ofNat 32 k)

theorem block_zero : mp.block 0 = mp.startAddress := by
  rw [block, blockPtr]
  simp

theorem block_succ (k : Nat) : mp.block (k + 1) = mp.block k + mp.stride := by
  rw [block, block, blockPtr, blockPtr, BitVec.ofNat_add, BitVec.add_mul, BitVec.add_assoc]
  congr 2
  exact BitVec.one_mul _

theorem toNat_block (k : Nat) :
    (mp.block k).toNat = (mp.startAddress.toNat + k * mp.stride.toNat) % 2 ^ 32 := by
  rw [block, blockPtr, BitVec.toNat_add, BitVec.toNat_mul, BitVec.toNat_ofNat, Nat.add_mod_mod,
    Nat.add_mod, Nat.mod_mul_mod, ← Nat.add_mod]

theorem linkBlocks_eq (htotal : mp.blockTotalCount ≠ 0) : mp.linkBlocks =
    (List.range mp.blockTotalCount.toNat).map (fun k => (mp.block k, mp.block k + mp.stride)) ++
      [(mp.block (mp.blockTotalCount.toNat - 1), 0)] := by
  have hpos : mp.blockTotalCount.toNat ≠ 0 := fun h => htotal (BitVec.eq_of_toNat_eq h)
  have hlast : BitVec.ofNat 32 (mp.blockTotalCount.toNat - 1) = mp.blockTotalCount - 1 := by
    bv_omega
  rw [linkBlocks, block, hlast]
  congr 1
  refine List.map_congr_left fun k _ => ?_
  rw [← block_succ, block, block, BitVec.ofNat_add]
  rfl

/-- The links: from each block to the next, and none from the last one. -/
theorem storeWords_linkBlocks (htotal : mp.blockTotalCount ≠ 0) {k : Nat}
    (hk : k < mp.blockTotalCount.toNat) : storeWords mp.linkBlocks word (mp.block k) =
      if mp.block k = mp.block (mp.blockTotalCount.toNat - 1) then 0 else mp.block (k + 1) := by
  rw [linkBlocks_eq htotal, storeWords_append]
  show Function.update _ _ _ _ = _
  split
  case isTrue heq => rw [heq, Function.update_self]
  case isFalse hne =>
    rw [Function.update_of_ne hne, block_succ]
    refine storeWords_eq (f := fun a => a + mp.stride) ?_ (.inl ?_)
    · intro store hstore
      obtain ⟨j, -, rfl⟩ := List.mem_map.mp hstore
      rfl
    · rw [List.map_map]
      exact List.mem_map.mpr ⟨k, List.mem_range.mpr hk, rfl⟩

/-! ## The list -/

/-- A list that starts at a block goes through the blocks behind it. -/
theorem block_mem_of_linked (htotal : mp.blockTotalCount ≠ 0) {blocks : List (BitVec 32)} {k : Nat}
    (hlen : k + blocks.length ≤ mp.blockTotalCount.toNat)
    (hlinked : Linked linkWord (storeWords mp.linkBlocks word) blocks)
    (hfirst : ∀ b ∈ blocks.head?, b = mp.block k) (hnull : ∀ b ∈ blocks, b ≠ 0) :
    ∀ j < blocks.length, mp.block (k + j) ∈ blocks := by
  induction blocks generalizing k with
  | nil => exact fun j hj => absurd hj (Nat.not_lt_zero j)
  | cons b rest ih =>
    obtain ⟨hword, hrest⟩ := hlinked
    rw [List.length_cons] at hlen
    have hb : b = mp.block k := hfirst b rfl
    have hnext : ∀ c ∈ rest.head?, c = mp.block (k + 1) := by
      intro c hc
      rw [hb, storeWords_linkBlocks htotal (by omega), Option.mem_def.mp hc] at hword
      have hmem : c ∈ rest := List.mem_of_mem_head? hc
      split at hword
      · exact absurd hword.symm (hnull c (List.mem_cons_of_mem b hmem))
      · exact hword.symm
    intro j hj
    cases j with
    | zero =>
      rw [Nat.add_zero, ← hb]
      exact List.mem_cons_self
    | succ j =>
      have hmem := ih (by omega) hrest hnext (fun c hc => hnull c (List.mem_cons_of_mem b hc)) j
        (Nat.lt_of_succ_lt_succ hj)
      rw [Nat.add_right_comm, Nat.add_assoc] at hmem
      exact List.mem_cons_of_mem b hmem

/-- The blocks from one on, where all have different addresses. -/
theorem linked_blocks (htotal : mp.blockTotalCount ≠ 0)
    (hapart : ∀ j k, j < mp.blockTotalCount.toNat → k < mp.blockTotalCount.toNat →
      mp.block j = mp.block k → j = k) {n k : Nat} (hsum : k + n = mp.blockTotalCount.toNat) :
    Linked linkWord (storeWords mp.linkBlocks word) ((List.range' k n).map mp.block) := by
  induction n generalizing k with
  | zero => trivial
  | succ n ih =>
    rw [List.range'_succ, List.map_cons]
    refine ⟨?_, ih (by omega)⟩
    rw [storeWords_linkBlocks htotal (by omega)]
    cases n with
    | zero => rw [if_pos (by congr 1; omega)]; rfl
    | succ n =>
      rw [if_neg]
      · rfl
      · intro heq
        have := hapart k (mp.blockTotalCount.toNat - 1) (by omega) (by omega) heq
        omega

/-! ## When a pool is built -/

theorem toNat_stride (hstride : mp.stride ≠ 0) (halign : mp.blockSize.toNat % 4 = 0) :
    mp.stride.toNat = mp.blockSize.toNat + 4 := by
  have hne : mp.stride.toNat ≠ 0 := fun h => hstride (BitVec.eq_of_toNat_eq h)
  have hlt := mp.blockSize.isLt
  have hsum : mp.stride.toNat = (mp.blockSize.toNat + 4) % 2 ^ 32 := BitVec.toNat_add ..
  omega

/-- With blocks, the pool is built exactly where they are within the memory, which is not at
    address 0. -/
theorem built_iff (hlist : mp.blockList = mp.startAddress) (hstride : mp.stride ≠ 0)
    (halign : mp.blockSize.toNat % 4 = 0) (htotal : mp.blockTotalCount ≠ 0) :
    mp.Built size mp.linkBlocks ↔ mp.startAddress ≠ 0 ∧
      mp.startAddress.toNat + mp.blockTotalCount.toNat * mp.stride.toNat ≤ 2 ^ 32 ∧
      mp.blockTotalCount.toNat * mp.stride.toNat ≤ size := by
  have hpos : mp.blockTotalCount.toNat ≠ 0 := fun h => htotal (BitVec.eq_of_toNat_eq h)
  have hbytes := toNat_stride hstride halign
  obtain ⟨last, hlast⟩ := Nat.exists_eq_succ_of_ne_zero hpos
  constructor
  · rintro ⟨-, hlisted⟩
    obtain ⟨blocks, hlen, hhead, hlinked, hblocks⟩ := hlisted fun _ => 0
    have hfirst : ∀ b ∈ blocks.head?, b = mp.block 0 := by
      intro b hb
      rw [hlist, Option.mem_def.mp hb] at hhead
      rw [block_zero, hhead]
      rfl
    have hall : ∀ k < mp.blockTotalCount.toNat, mp.block k ≠ 0 ∧
        Within mp.startAddress size (mp.block k) (mp.blockSize.toNat + 4) := by
      intro k hk
      have hmem := block_mem_of_linked htotal (by omega) hlinked hfirst
        (fun b hb => (hblocks b hb).1) k (by omega)
      rw [Nat.zero_add] at hmem
      exact hblocks _ hmem
    -- block after block, none of the addresses wraps
    have hup : ∀ k ≤ mp.blockTotalCount.toNat,
        mp.startAddress.toNat + k * mp.stride.toNat ≤ 2 ^ 32 := by
      intro k
      induction k with
      | zero =>
        intro _
        have := mp.startAddress.isLt
        omega
      | succ k ih =>
        intro hk
        have hle := ih (Nat.le_of_succ_le hk)
        obtain ⟨hnull, hwithin⟩ := hall k hk
        have hat := mp.toNat_block k
        have hne : (mp.block k).toNat ≠ 0 := fun h => hnull (BitVec.eq_of_toNat_eq h)
        have haddressed := hwithin.addressed
        rw [Nat.succ_mul]
        omega
    have hbound := hup _ (Nat.le_refl _)
    obtain ⟨hnull, hwithin⟩ := hall last (by omega)
    have hat := mp.toNat_block last
    have hne : (mp.block last).toNat ≠ 0 := fun h => hnull (BitVec.eq_of_toNat_eq h)
    have hupper := hwithin.upper
    refine ⟨?_, hbound, ?_⟩
    · have hstart := (hall 0 (by omega)).1
      rwa [block_zero] at hstart
    · rw [hlast, Nat.succ_mul] at hbound ⊢
      omega
  · rintro ⟨hstart, hbound, hsize⟩
    have hat : ∀ k < mp.blockTotalCount.toNat, (mp.block k).toNat =
        mp.startAddress.toNat + k * mp.stride.toNat ∧
          k * mp.stride.toNat + mp.stride.toNat ≤
            mp.blockTotalCount.toNat * mp.stride.toNat := by
      intro k hk
      have hmul : (k + 1) * mp.stride.toNat ≤ mp.blockTotalCount.toNat * mp.stride.toNat :=
        Nat.mul_le_mul_right _ hk
      rw [Nat.succ_mul] at hmul
      refine ⟨?_, hmul⟩
      rw [toNat_block]
      exact Nat.mod_eq_of_lt (by omega)
    have hwithin : ∀ k < mp.blockTotalCount.toNat, ∀ bytes ≤ mp.stride.toNat,
        Within mp.startAddress size (mp.block k) bytes := by
      intro k hk bytes hle
      obtain ⟨hk, hmul⟩ := hat k hk
      exact ⟨by omega, by omega, by omega⟩
    constructor
    · intro store hstore
      rw [linkBlocks_eq htotal] at hstore
      obtain hstore | hstore := List.mem_append.mp hstore
      · obtain ⟨k, hk, rfl⟩ := List.mem_map.mp hstore
        exact hwithin k (List.mem_range.mp hk) 4 (by omega)
      · rw [List.mem_singleton.mp hstore]
        exact hwithin _ (by omega) 4 (by omega)
    · intro word
      refine ⟨(List.range' 0 mp.blockTotalCount.toNat).map mp.block, ?_, ?_, ?_, ?_⟩
      · rw [List.length_map, List.length_range']
      · rw [hlist, hlast, List.range'_succ, List.map_cons, block_zero]
        rfl
      · refine linked_blocks htotal (fun j k hj hk heq => ?_) (Nat.zero_add _)
        obtain ⟨hj', -⟩ := hat j hj
        obtain ⟨hk', -⟩ := hat k hk
        rw [heq, hk'] at hj'
        exact (Nat.eq_of_mul_eq_mul_right (by omega) (Nat.add_left_cancel hj')).symm
      · intro b hb
        obtain ⟨k, hk, rfl⟩ := List.mem_map.mp hb
        rw [List.mem_range'_1] at hk
        refine ⟨fun hnull => ?_, hwithin k (by omega) _ (by omega)⟩
        obtain ⟨hk', -⟩ := hat k (by omega)
        rw [hnull] at hk'
        have hzero : (0 : BitVec 32).toNat = 0 := rfl
        exact hstart (BitVec.eq_of_toNat_eq (by omega))

/-- Without blocks, the null link goes in front of the pool, and the list is that of a pool at
    address 0. -/
theorem built_iff_none (hlist : mp.blockList = mp.startAddress) (hstride : mp.stride ≠ 0)
    (halign : mp.blockSize.toNat % 4 = 0) (htotal : mp.blockTotalCount = 0) :
    mp.Built size mp.linkBlocks ↔
      mp.startAddress = 0 ∧ 2 ^ 32 - mp.stride.toNat + 4 ≤ size := by
  have hbytes := toNat_stride hstride halign
  have hlt := mp.stride.isLt
  have hcount : mp.blockTotalCount.toNat = 0 := by rw [htotal]; rfl
  have hstores : mp.linkBlocks = [(mp.startAddress - mp.stride, 0)] := by
    have hlast : mp.blockPtr (mp.blockTotalCount - 1) = mp.startAddress - mp.stride := by
      rw [htotal, blockPtr, BitVec.sub_eq_add_neg mp.startAddress]
      congr 1
      show -1#32 * mp.stride = -mp.stride
      rw [BitVec.neg_mul, BitVec.one_mul]
    rw [linkBlocks, hcount, hlast]
    rfl
  have hzero : (0 : BitVec 32).toNat = 0 := rfl
  have hnone (hstart : mp.startAddress = 0) :
      (mp.startAddress - mp.stride).toNat = 2 ^ 32 - mp.stride.toNat := by
    rw [hstart, BitVec.toNat_sub, hzero]
    omega
  constructor
  · rintro ⟨hstored, hlisted⟩
    obtain ⟨blocks, hlen, hhead, -⟩ := hlisted fun _ => 0
    rw [List.length_eq_zero_iff.mp (hlen.trans hcount), hlist] at hhead
    have hstart : mp.startAddress = 0 := hhead
    have hupper := (hstored (mp.startAddress - mp.stride, 0) (by simp [hstores])).upper
    rw [hnone hstart, hstart, hzero] at hupper
    exact ⟨hstart, by omega⟩
  · rintro ⟨hstart, hsize⟩
    have hat := hnone hstart
    constructor
    · intro store hstore
      rw [hstores, List.mem_singleton] at hstore
      subst hstore
      refine ⟨?_, ?_, ?_⟩
      · rw [hstart, hzero]
        exact Nat.zero_le _
      · show (mp.startAddress - mp.stride).toNat + 4 ≤ _
        rw [hat, hstart, hzero]
        omega
      · show (mp.startAddress - mp.stride).toNat + 4 ≤ _
        rw [hat]
        omega
    · exact fun word => ⟨[], hcount.symm, by rw [hlist, hstart]; rfl, trivial, by simp⟩

/-! ## The two calls -/

/-- What `rt_mp_init` is given makes a pool: there are blocks, in memory that does not begin at
    address 0 or wrap.  (At address 0, there may also be none, in memory so large that the null
    link in front of it wraps into it.) -/
def InitBuilds (start size blockSize : BitVec 32) : Prop :=
  let bytes := (rtAlign blockSize rtAlignSize).toNat + 4
  let size' := size.toNat / 4 * 4
  bytes < 2 ^ 32 ∧
    (bytes ≤ size' ∧ start ≠ 0 ∧ start.toNat + size' / bytes * bytes ≤ 2 ^ 32 ∨
      size' < bytes ∧ start = 0 ∧ 2 ^ 32 - bytes + 4 ≤ size.toNat)

theorem rtMpInit_built (start size blockSize : BitVec 32) :
    (∃ mp stores, rtMpInit start size blockSize = .ok (mp, stores) ∧ mp.startAddress = start ∧
      mp.Built size.toNat stores) ↔ InitBuilds start size blockSize := by
  have hround := toNat_rtAlign blockSize
  have hdown := toNat_rtAlignDown size
  have hlt := (rtAlign blockSize rtAlignSize).isLt
  -- a block of 2 ^ 32 - 4 bytes and its header are 0 bytes, by which the size is divided
  have hwraps : rtAlign blockSize rtAlignSize + 4 = 0 ↔
      ¬ (rtAlign blockSize rtAlignSize).toNat + 4 < 2 ^ 32 := by
    rw [← BitVec.toNat_inj, BitVec.toNat_add]
    show ((rtAlign blockSize rtAlignSize).toNat + 4) % 2 ^ 32 = 0 ↔ _
    omega
  rw [InitBuilds]
  by_cases hzero : rtAlign blockSize rtAlignSize + 4 = 0
  · constructor
    · rintro ⟨mp, stores, hrun, -⟩
      rw [rtMpInit, if_pos hzero] at hrun
      cases hrun
    · rintro ⟨hbytes, -⟩
      exact absurd hbytes (hwraps.mp hzero)
  obtain ⟨mp, hmp⟩ : ∃ mp : PoolBlocks, mp = ⟨start, rtAlignDown size rtAlignSize,
      rtAlign blockSize rtAlignSize, start,
      rtAlignDown size rtAlignSize / (rtAlign blockSize rtAlignSize + 4),
      rtAlignDown size rtAlignSize / (rtAlign blockSize rtAlignSize + 4)⟩ := ⟨_, rfl⟩
  have hrun : rtMpInit start size blockSize = .ok (mp, mp.linkBlocks) := by
    rw [rtMpInit, if_neg hzero, hmp]
    rfl
  have hstride : mp.stride ≠ 0 := by rwa [hmp]
  have halign : mp.blockSize.toNat % 4 = 0 := by
    rw [hmp]
    show (rtAlign blockSize rtAlignSize).toNat % 4 = 0
    omega
  have hbytes := toNat_stride hstride halign
  have hblockSize : mp.blockSize = rtAlign blockSize rtAlignSize := by rw [hmp]
  have hstart : mp.startAddress = start := by rw [hmp]
  have hcount : mp.blockTotalCount.toNat = size.toNat / 4 * 4 / mp.stride.toNat := by
    rw [← hdown, hmp]
    exact BitVec.toNat_udiv
  have hlist : mp.blockList = mp.startAddress := by rw [hmp]
  -- the stores are those of one loop, so that it is about its pool alone
  have hexists : (∃ mp stores, rtMpInit start size blockSize = .ok (mp, stores) ∧
      mp.startAddress = start ∧ mp.Built size.toNat stores) ↔
        mp.Built size.toNat mp.linkBlocks := by
    constructor
    · rintro ⟨mp', stores, hrun', -, hbuilt⟩
      rw [hrun, Except.ok.injEq, Prod.mk.injEq] at hrun'
      obtain ⟨rfl, rfl⟩ := hrun'
      exact hbuilt
    · exact fun hbuilt => ⟨mp, _, hrun, hstart, hbuilt⟩
  rw [hexists, ← hblockSize, ← hbytes]
  have hstride_lt := mp.stride.isLt
  -- without a block the loop is not run, but the last header is written all the same
  by_cases htotal : mp.blockTotalCount = 0
  · have hnone : size.toNat / 4 * 4 < mp.stride.toNat := by
      rw [htotal] at hcount
      exact (Nat.div_eq_zero_iff_lt (by omega)).mp hcount.symm
    rw [built_iff_none hlist hstride halign htotal, hstart]
    constructor
    · exact fun h => ⟨hstride_lt, .inr ⟨hnone, h⟩⟩
    · rintro ⟨-, ⟨hsome, -⟩ | ⟨-, h⟩⟩
      · omega
      · exact h
  · have hsome : mp.stride.toNat ≤ size.toNat / 4 * 4 := by
      by_contra hnone
      refine htotal (BitVec.eq_of_toNat_eq ?_)
      rw [hcount]
      exact Nat.div_eq_of_lt (Nat.lt_of_not_le hnone)
    have hfits := Nat.div_mul_le_self (size.toNat / 4 * 4) mp.stride.toNat
    rw [built_iff hlist hstride halign htotal, hstart, hcount]
    constructor
    · exact fun h => ⟨hstride_lt, .inl ⟨hsome, h.1, h.2.1⟩⟩
    · rintro ⟨-, ⟨-, hnull, hbound⟩ | ⟨hnone, -⟩⟩
      · exact ⟨hnull, hbound, by omega⟩
      · omega

end PoolBlocks

section Create

variable {s : Heaps} {h : Heap} {bytes addr : BitVec 32}

theorem Reached.malloc {r : Option (BitVec 32)} (hs : Reached s)
    (hrun : s.heap.rtMalloc bytes = .ok (h, r)) : Reached ⟨h, Heaps.grant r bytes s.live⟩ := by
  obtain ⟨s₀, hi, hr⟩ := hs
  exact ⟨s₀, hi, hr.tail ⟨.malloc bytes, rfl, exec_bind_ok.mpr ⟨_, hrun, rfl⟩⟩⟩

/-- What `rt_malloc` returns is not `RT_NULL`. -/
theorem Reached.malloc_pos (hs : Reached s) (hrun : s.heap.rtMalloc bytes = .ok (h, some addr)) :
    0 < addr.toNat := by
  obtain ⟨s₀, hi, hr⟩ := hs
  by_cases hroom : s₀.HasRoom
  · obtain ⟨bs, hbs⟩ := hr.inv hi hroom
    obtain hnone | ⟨h', bs', o, n, hsome, hi', -, hsame, hhas, -⟩ :=
      hbs.heap.rtMalloc hbs.room bytes
    · rw [hnone] at hrun
      cases hrun
    · rw [hsome] at hrun
      cases hrun
      have hdata := (hi'.room_eq hhas).1
      rw [Heap.dataAt, hsame.heapPtr, ← Heap.dataAt] at hdata
      omega
  · obtain ⟨-, -, hnone, hsame, -⟩ := hr.small hi hroom
    rw [hsame] at hrun
    exact absurd (hnone _ _ _ hrun).2 (by simp)

/-- A pool that `rt_mp_create` returns is in a block of the heap, and is built exactly where the
    product of the count and the size has not wrapped. -/
theorem rtMpCreate_built {mp : PoolBlocks} {stores : List WordStore} (hs : Reached s)
    {blockCount blockSize : BitVec 32}
    (hrun : PoolBlocks.rtMpCreate blockCount blockSize s.heap = .ok (h, some (mp, stores))) :
    mp.size.toNat ≤ (h.room mp.startAddress).toNat ∧ (mp.Built mp.size.toNat stores ↔
      blockCount.toNat * ((rtAlign blockSize rtAlignSize).toNat + 4) < 2 ^ 32) := by
  obtain ⟨⟨h₁, object⟩, hobject, hrun⟩ := exec_bind_ok.mp hrun
  cases object with
  | none => cases hrun
  | some object =>
    obtain ⟨⟨h₂, start⟩, hstart, hrun⟩ := exec_bind_ok.mp hrun
    cases start with
    | none =>
      obtain ⟨h₃, -, hrun⟩ := exec_bind_ok.mp hrun
      cases hrun
    | some start =>
      cases hrun
      have hs' := hs.malloc hobject
      have hgrant := hs'.mallocGrant hstart
      have hpos := hs'.malloc_pos hstart
      obtain ⟨mp, hmp⟩ : ∃ mp : PoolBlocks, mp = ⟨start, (rtAlign blockSize rtAlignSize + 4) *
          blockCount, rtAlign blockSize rtAlignSize, start, blockCount, blockCount⟩ := ⟨_, rfl⟩
      rw [← hmp]
      have hstart : mp.startAddress = start := by rw [hmp]
      have hcount : mp.blockTotalCount = blockCount := by rw [hmp]
      have hblockSize : mp.blockSize = rtAlign blockSize rtAlignSize := by rw [hmp]
      have hsize : mp.size = mp.stride * mp.blockTotalCount := by rw [hmp]; rfl
      have hlist : mp.blockList = mp.startAddress := by rw [hmp]
      have hgrant : MallocGrant mp.size start h := by rwa [hmp]
      have halign : mp.blockSize.toNat % 4 = 0 := by
        rw [hblockSize, toNat_rtAlign]
        omega
      -- no pool is returned for a size of 0
      have hnonzero := hgrant.grantable.1
      have hstride : mp.stride ≠ 0 := by
        intro hzero
        rw [hsize, hzero] at hnonzero
        exact hnonzero BitVec.zero_mul
      have htotal : mp.blockTotalCount ≠ 0 := by
        intro hzero
        rw [hsize, hzero] at hnonzero
        exact hnonzero BitVec.mul_zero
      have hbytes := PoolBlocks.toNat_stride hstride halign
      have hproduct : mp.size.toNat = mp.blockTotalCount.toNat * mp.stride.toNat % 2 ^ 32 := by
        rw [hsize, BitVec.toNat_mul, Nat.mul_comm]
      have hmod : mp.blockTotalCount.toNat * mp.stride.toNat % 4 = 0 :=
        Nat.mod_eq_zero_of_dvd (Nat.dvd_mul_left_of_dvd (Nat.dvd_of_mod_eq_zero (by omega)) _)
      have henough := hgrant.enough (by omega)
      have hinside := hgrant.inside
      have hnull : start ≠ 0 := by
        rintro rfl
        exact absurd hpos (Nat.lt_irrefl 0)
      rw [PoolBlocks.built_iff hlist hstride halign htotal, hstart, ← hblockSize, ← hbytes,
        ← hcount]
      refine ⟨henough, ?_⟩
      generalize mp.blockTotalCount.toNat * mp.stride.toNat = product at *
      constructor
      · rintro ⟨-, hbound, -⟩
        omega
      · intro hfits
        exact ⟨hnull, by omega, by omega⟩

/-- The free list of a pool is built within its memory exactly where `rt_mp_init` finds a block in
    memory that does not wrap, and where the size that `rt_mp_create` computes has not wrapped. -/
theorem free_list_built (hs : Reached s) (start size blockSize blockCount : BitVec 32) :
    ((∃ mp stores, PoolBlocks.rtMpInit start size blockSize = .ok (mp, stores) ∧
      mp.startAddress = start ∧ mp.Built size.toNat stores) ↔
        PoolBlocks.InitBuilds start size blockSize) ∧
    ∀ h mp stores, PoolBlocks.rtMpCreate blockCount blockSize s.heap = .ok (h, some (mp, stores)) →
      mp.size.toNat ≤ (h.room mp.startAddress).toNat ∧ (mp.Built mp.size.toNat stores ↔
        blockCount.toNat * ((rtAlign blockSize rtAlignSize).toNat + 4) < 2 ^ 32) :=
  ⟨PoolBlocks.rtMpInit_built start size blockSize, fun _ _ _ hrun => rtMpCreate_built hs hrun⟩

/-- `rt_mp_create` returns a pool from a small heap. -/
theorem exists_rtMpCreate {blockCount blockSize : BitVec 32}
    (hrun : (Heaps.start 0x1000 0x1200).map (fun s =>
      ((PoolBlocks.rtMpCreate blockCount blockSize s.heap).toOption.bind Prod.snd).isSome) =
        .ok true) : ∃ s h mp stores, Reached s ∧
      PoolBlocks.rtMpCreate blockCount blockSize s.heap = .ok (h, some (mp, stores)) := by
  obtain ⟨s, hstart, hsome⟩ := exec_exists_ok hrun
  cases hcreate : PoolBlocks.rtMpCreate blockCount blockSize s.heap with
  | error e =>
    rw [hcreate] at hsome
    cases hsome
  | ok created =>
    obtain ⟨h, pool⟩ := created
    rw [hcreate] at hsome
    obtain ⟨⟨mp, stores⟩, hpool⟩ := Option.isSome_iff_exists.mp hsome
    have hpool : pool = some (mp, stores) := hpool
    rw [hpool] at hcreate
    exact ⟨s, h, mp, stores, ⟨s, Heaps.start_initial hstart, .refl⟩, hcreate⟩

/-- A pool of three blocks in 64 bytes, and one of four in a heap. -/
theorem free_list_built_small :
    (∃ mp stores, PoolBlocks.rtMpInit 0x20000000 64 13 = .ok (mp, stores) ∧
      mp.startAddress = 0x20000000 ∧ mp.Built 64 stores) ∧
    ∃ s h mp stores, Reached s ∧
      PoolBlocks.rtMpCreate 4 13 s.heap = .ok (h, some (mp, stores)) ∧
        mp.Built mp.size.toNat stores := by
  obtain ⟨s, h, mp, stores, hs, hcreate⟩ :=
    @exists_rtMpCreate 4 13 (by decide +kernel)
  obtain ⟨hinit, hbuilt⟩ := free_list_built hs 0x20000000 64 13 4
  exact ⟨hinit.mpr ⟨by decide, .inl (by decide)⟩, s, h, mp, stores, hs, hcreate,
    (hbuilt h mp stores hcreate).2.mpr (by decide)⟩

/-- With no room for a block, the null link goes in front of the pool; and a size that wraps is
    granted for blocks that reach far beyond it. -/
theorem free_list_outside :
    (∃ mp, PoolBlocks.rtMpInit 0x20000000 8 8 = .ok (mp, [(0x1ffffff4, 0)]) ∧
      mp.startAddress = 0x20000000 ∧ mp.blockTotalCount = 0 ∧
        ¬ mp.Built 8 [(0x1ffffff4, 0)]) ∧
    ∃ s h mp stores, Reached s ∧
      PoolBlocks.rtMpCreate 0x20000001 4 s.heap = .ok (h, some (mp, stores)) ∧
        ¬ mp.Built mp.size.toNat stores := by
  constructor
  · refine ⟨⟨0x20000000, 8, 8, 0x20000000, 0, 0⟩, rfl, rfl, rfl, fun hbuilt => ?_⟩
    have hlower := (hbuilt.stored (0x1ffffff4, 0) (List.mem_singleton_self _)).lower
    exact absurd hlower (by decide)
  · obtain ⟨s, h, mp, stores, hs, hcreate⟩ :=
      @exists_rtMpCreate 0x20000001 4 (by decide +kernel)
    refine ⟨s, h, mp, stores, hs, hcreate, fun hbuilt => ?_⟩
    exact absurd ((rtMpCreate_built hs hcreate).2.mp hbuilt) (by decide)

end Create

end PandoraRobot.Memory
