import PandoraRobot.Memory.Heap

/-! # The blocks of the heap

The headers of a heap tile it.  Each way in which the code changes headers changes one
place in the list of blocks: `joinBlocks` and `splitBlock`, and the writes of `used`.
-/

namespace PandoraRobot.Memory

open PandoraRobot.Kernel PandoraRobot.Tiling

theorem sizeofStructMem_eq : sizeofStructMem = 12 := by decide

theorem minSizeAligned_eq : minSizeAligned = 12 := by decide

structure IsHeader (m : HeapMem) (prev next : Nat) (used : Bool) : Prop where
  magic : m.magic = heapMagic
  used : m.used = if used then 1 else 0
  next : m.next.toNat = next
  prev : m.prev.toNat = prev

/-- The end marker is in use, and its next block is itself. -/
structure IsEnd (m : HeapMem) (heapEnd : BitVec 32) : Prop where
  magic : m.magic = heapMagic
  used : m.used = 1
  next : m.next = heapEnd

/-- The headers of a heap, without the rest of it. -/
structure Layout (mem : Nat → HeapMem) (heapPtr heapEnd memSizeAligned : BitVec 32)
    (bs : List Block) : Prop where
  tiled : Tiled IsHeader mem 0 0 bs
  total_eq : total bs = heapEnd.toNat
  last : IsEnd (mem heapEnd.toNat) heapEnd
  end_eq : heapEnd.toNat = memSizeAligned.toNat + 12
  size : ∀ b ∈ bs, 12 ≤ b.size ∧ b.size % 4 = 0
  aligned : heapPtr.toNat % 4 = 0
  room : heapPtr.toNat + heapEnd.toNat + 12 < 2 ^ 32

theorem IsHeader.used_eq_zero {m : HeapMem} {prev next : Nat} {u : Bool}
    (hm : IsHeader m prev next u) : m.used = 0 ↔ u = false := by
  rw [hm.used]
  cases u <;> simp

theorem IsEnd.update {m : Nat → HeapMem} {e : BitVec 32} {o : Nat} {w : HeapMem}
    (hm : IsEnd (m e.toNat) e) (hw : o = e.toNat → IsEnd w e) :
    IsEnd (Function.update m o w e.toNat) e := by
  by_cases ho : o = e.toNat
  · rw [ho, Function.update_self]
    exact hw ho
  · rwa [Function.update_of_ne (Ne.symm ho)]

namespace Heap

abbrev Tiles (h : Heap) (bs : List Block) : Prop :=
  Layout h.mem h.heapPtr h.heapEnd h.memSizeAligned bs

variable {h : Heap} {bs xs ys : List Block} {b : Block} {s n : Nat} {u v : Bool}
  {ptr mem nmem size : BitVec 32}

theorem Tiles.pos (ht : h.Tiles bs) : ∀ b ∈ bs, 0 < b.size := by
  intro b hb
  have := (ht.size b hb).1
  omega

/-- The parts of a tiled heap, around one block. -/
theorem Tiles.parts (ht : h.Tiles (xs ++ b :: ys)) :
    Tiled IsHeader h.mem 0 0 xs ∧
      IsHeader (h.mem (total xs)) (lastStart 0 0 xs) (total xs + b.size) b.used ∧
      Tiled IsHeader h.mem (total xs) (total xs + b.size) ys := by
  have hparts := tiled_append.mp ht.tiled
  rwa [Nat.zero_add, tiled_cons] at hparts

theorem Tiles.header (ht : h.Tiles (xs ++ b :: ys)) (hptr : ptr.toNat = total xs) :
    IsHeader (h.get ptr) (lastStart 0 0 xs) (total xs + b.size) b.used := by
  rw [get, hptr]
  exact ht.parts.2.1

theorem Tiles.total_lt (ht : h.Tiles (xs ++ b :: ys)) :
    total xs + b.size + total ys = h.heapEnd.toNat := by
  have := ht.total_eq
  simp only [total_append, total_cons] at this
  omega

/-- A block gets another header. -/
theorem Tiles.mark (ht : h.Tiles (xs ++ ⟨s, u⟩ :: ys)) (hptr : ptr.toNat = total xs)
    {f : HeapMem → HeapMem}
    (hf : ∀ prev next, IsHeader (h.get ptr) prev next u → IsHeader (f (h.get ptr)) prev next v) :
    (h.modify ptr f).Tiles (xs ++ ⟨s, v⟩ :: ys) := by
  have hlt := ht.total_lt
  have hsize := (ht.size ⟨s, u⟩ (by simp)).1
  simp only at hlt hsize
  refine ⟨?_, ?_, ?_, ht.end_eq, ?_, ht.aligned, ht.room⟩
  · have hmark := ht.tiled.mark (b := ⟨s, u⟩) (c := ⟨s, v⟩) (w := f (h.get ptr)) ht.pos rfl (by
      rw [Nat.zero_add, ← hptr]
      exact hf)
    rwa [Nat.zero_add, ← hptr] at hmark
  · have := ht.total_eq
    simp only [total_append, total_cons] at this ⊢
    exact this
  · exact ht.last.update (fun heq => by omega)
  · intro b hb
    simp only [List.mem_append, List.mem_cons] at hb
    obtain hb | rfl | hb := hb
    · exact ht.size b (by simp [hb])
    · exact ht.size ⟨s, u⟩ (by simp)
    · exact ht.size b (by simp [hb])

theorem joinBlocks_mem (h : Heap) (mem : BitVec 32) {nmem next : BitVec 32} (hnext : next = (h.get nmem).next) (hne : next ≠ mem) :
    (h.joinBlocks mem nmem).mem =
      Function.update (Function.update h.mem mem.toNat ((h.get mem).setNext next))
        next.toNat ((h.get next).setPrev mem) := by
  have hne' : next.toNat ≠ mem.toNat := fun heq => hne (BitVec.eq_of_toNat_eq heq)
  subst hnext
  simp [joinBlocks, modify, put, get] at hne' ⊢
  simp [hne']

/-- Two blocks are joined. -/
theorem Tiles.join (ht : h.Tiles (xs ++ ⟨s, u⟩ :: ⟨n, v⟩ :: ys)) (hmem : mem.toNat = total xs)
    (hnmem : nmem.toNat = total xs + s) : (h.joinBlocks mem nmem).Tiles (xs ++ ⟨s + n, u⟩ :: ys) := by
  obtain ⟨hxs, hb, hn, hys⟩ := ht.parts
  have hlt := ht.total_lt
  have hsize := ht.size ⟨s, u⟩ (by simp)
  have hsize' := ht.size ⟨n, v⟩ (by simp)
  have hpos : ∀ b ∈ xs ++ ys, 0 < b.size := fun b hb => ht.pos b (by
    simp only [List.mem_append, List.mem_cons] at hb ⊢
    tauto)
  simp only [total_cons] at hlt hb hn hys hsize hsize'
  have hnext : (h.get nmem).next.toNat = total xs + s + n := by rw [get, hnmem, hn.next]
  -- the header of the first block and the one behind the second are written
  have hmem_eq := joinBlocks_mem h mem (Eq.refl (h.get nmem).next)
    (fun heq => by rw [heq] at hnext; omega)
  rw [hnext, hmem] at hmem_eq
  -- what is left is said of the blocks in front, of the joined one, and of those behind
  refine ⟨?_, ?_, ?_, ht.end_eq, ?_, ht.aligned, ht.room⟩
  · rw [hmem_eq]
    refine tiled_append.mpr ⟨?_, ?_, ?_⟩
    · exact (hxs.update (fun b hb => hpos b (by simp [hb])) (.inr (by omega))).update
        (fun b hb => hpos b (by simp [hb])) (.inr (by omega))
    · rw [Nat.zero_add, Function.update_of_ne (by omega), Function.update_self, ← Nat.add_assoc]
      rw [show h.get mem = h.mem (total xs) by rw [get, hmem]]
      exact ⟨hb.magic, hb.used, hnext, hb.prev⟩
    · rw [Nat.zero_add, ← Nat.add_assoc]
      apply hys.relink (fun b hb => hpos b (by simp [hb]))
      · intro _ next used hhead
        rw [Function.update_self]
        rw [← hnext] at hhead
        exact ⟨hhead.magic, hhead.used, hhead.next, hmem⟩
      · intro x hlo _
        rw [Function.update_of_ne (by omega), Function.update_of_ne (by omega)]
  · simp only [total_append, total_cons]
    show _ = h.heapEnd.toNat
    omega
  · rw [hmem_eq]
    refine (ht.last.update fun heq => by omega).update fun heq => ?_
    have hlast := ht.last
    rw [← heq, ← hnext] at hlast
    exact ⟨hlast.magic, hlast.used, hlast.next⟩
  · intro b hb
    simp only [List.mem_append, List.mem_cons] at hb
    obtain hb | rfl | hb := hb
    · exact ht.size b (by simp [hb])
    · show 12 ≤ s + n ∧ (s + n) % 4 = 0
      omega
    · exact ht.size b (by simp [hb])

/-- Only headers are written. -/
theorem splitBlock_same (h : Heap) (ptr size : BitVec 32) :
    ∃ mem, h.splitBlock ptr size = { h with mem } := by
  unfold splitBlock
  dsimp only
  split
  · exact ⟨_, rfl⟩
  · exact ⟨_, rfl⟩

theorem splitBlock_eq (h : Heap) (ptr size : BitVec 32) {ptr2 next : BitVec 32} (hptr2 : ptr2 = ptr + sizeofStructMem + size)
    (hnext : next = (h.get ptr).next) (hne : ptr2 ≠ ptr) (hne' : next ≠ ptr2) (hne'' : next ≠ ptr) :
    h.splitBlock ptr size =
      let mem := Function.update (Function.update h.mem ptr2.toNat ⟨heapMagic, 0, next, ptr⟩)
        ptr.toNat ((h.get ptr).setNext ptr2)
      { h with mem :=
        if next = h.memSizeAligned + sizeofStructMem then mem
        else Function.update mem next.toNat ((h.get next).setPrev ptr2) } := by
  have hne := fun heq => hne (BitVec.eq_of_toNat_eq heq)
  have hne' := fun heq => hne' (BitVec.eq_of_toNat_eq heq)
  have hne'' := fun heq => hne'' (BitVec.eq_of_toNat_eq heq)
  simp only [splitBlock, modify, put, get, ← hptr2, Function.update_of_ne (Ne.symm hne)] at hnext ⊢
  rw [← hnext]
  by_cases hlast : next = h.memSizeAligned + sizeofStructMem
  · rw [if_pos hlast, if_neg (not_not.mpr hlast)]
  · rw [if_neg hlast, if_pos hlast, Function.update_of_ne hne'', Function.update_of_ne hne']

/-- A block is split in two. -/
theorem Tiles.split (ht : h.Tiles (xs ++ ⟨n + s, u⟩ :: ys)) (hptr : ptr.toNat = total xs)
    (hsize : size.toNat + 12 = n) (hmod : n % 4 = 0) (hs : 12 ≤ s) :
    (h.splitBlock ptr size).Tiles (xs ++ ⟨n, u⟩ :: ⟨s, false⟩ :: ys) := by
  obtain ⟨hxs, hb, hys⟩ := ht.parts
  have hlt := ht.total_lt
  have hsizes := (ht.size ⟨n + s, u⟩ (by simp)).2
  have hpos : ∀ b ∈ xs ++ ys, 0 < b.size := fun b hb => ht.pos b (by
    simp only [List.mem_append, List.mem_cons] at hb ⊢
    tauto)
  have hroom := ht.room
  have hend := ht.end_eq
  simp only at hlt hb hys hsizes
  have hnext : (h.get ptr).next.toNat = total xs + n + s := by
    rw [get, hptr, hb.next]
    omega
  have hptr2 : (ptr + sizeofStructMem + size).toNat = total xs + n := by
    rw [sizeofStructMem_eq]
    bv_omega
  have hlast : h.memSizeAligned + sizeofStructMem = h.heapEnd := by
    rw [sizeofStructMem_eq]
    bv_omega
  have heq := splitBlock_eq h ptr size rfl rfl
    (by intro heq; rw [heq] at hptr2; omega) (by intro heq; rw [heq] at hnext; omega)
    (by intro heq; rw [heq] at hnext; omega)
  rw [hlast, hnext, hptr2, hptr] at heq
  -- the headers of the block, of the rest of it and of the block after it are written
  have hblock : (h.splitBlock ptr size).mem (total xs) =
      (h.mem (total xs)).setNext (ptr + sizeofStructMem + size) := by
    rw [heq]
    simp only
    split
    · rw [Function.update_self, get, hptr]
    · rw [Function.update_of_ne (by omega), Function.update_self, get, hptr]
  have hrest : (h.splitBlock ptr size).mem (total xs + n) =
      ⟨heapMagic, 0, (h.get ptr).next, ptr⟩ := by
    rw [heq]
    simp only
    split
    · rw [Function.update_of_ne (by omega), Function.update_self]
    · rw [Function.update_of_ne (by omega), Function.update_of_ne (by omega), Function.update_self]
  have hafter : (h.splitBlock ptr size).mem (total xs + n + s) = h.mem (total xs + n + s) ∧
      (h.get ptr).next = h.heapEnd ∨
      (h.splitBlock ptr size).mem (total xs + n + s) =
        (h.mem (total xs + n + s)).setPrev (ptr + sizeofStructMem + size) := by
    rw [heq]
    simp only
    split
    case isTrue hlast =>
      rw [Function.update_of_ne (by omega), Function.update_of_ne (by omega)]
      exact .inl ⟨rfl, hlast⟩
    case isFalse =>
      rw [Function.update_self, get, hnext]
      exact .inr rfl
  have helse : ∀ o, o ≠ total xs → o ≠ total xs + n → o ≠ total xs + n + s →
      (h.splitBlock ptr size).mem o = h.mem o := by
    intro o ho ho' ho''
    rw [heq]
    simp only
    split
    · rw [Function.update_of_ne ho, Function.update_of_ne ho']
    · rw [Function.update_of_ne ho'', Function.update_of_ne ho, Function.update_of_ne ho']
  obtain ⟨mem, hsame⟩ := splitBlock_same h ptr size
  rw [hsame] at hblock hrest hafter helse ⊢
  refine ⟨tiled_append.mpr ⟨?_, ?_, ?_, ?_⟩, ?_, ?_, ht.end_eq, ?_, ht.aligned, ht.room⟩
  · apply hxs.congr (fun b hb => hpos b (by simp [hb]))
    intro o _ ho
    exact helse o (by omega) (by omega) (by omega)
  · rw [Nat.zero_add, hblock]
    exact ⟨hb.magic, hb.used, hptr2, hb.prev⟩
  · rw [Nat.zero_add, hrest]
    exact ⟨rfl, rfl, hnext, hptr⟩
  · rw [Nat.zero_add]
    rw [← Nat.add_assoc] at hys
    apply hys.relink (fun b hb => hpos b (by simp [hb]))
    · intro hne next used hhead
      obtain ⟨-, hnil⟩ | hafter := hafter
      · -- there is a block after it, so this is not the end
        obtain ⟨c, cs, rfl⟩ := List.exists_cons_of_ne_nil hne
        have hc := hpos c (by simp)
        rw [hnil] at hnext
        simp only [total_cons] at hlt
        omega
      · rw [hafter]
        exact ⟨hhead.magic, hhead.used, hhead.next, hptr2⟩
    · intro x hlo _
      exact helse x (by omega) (by omega) (by omega)
  · simp only [total_append, total_cons]
    omega
  · by_cases hat : h.heapEnd.toNat = total xs + n + s
    · have hlast := ht.last
      rw [hat] at hlast ⊢
      obtain ⟨hafter, -⟩ | hafter := hafter
      · rwa [hafter]
      · rw [hafter]
        exact ⟨hlast.magic, hlast.used, hlast.next⟩
    · rw [helse _ (by omega) (by omega) hat]
      exact ht.last
  · intro b hb
    simp only [List.mem_append, List.mem_cons] at hb
    obtain hb | rfl | rfl | hb := hb
    · exact ht.size b (by simp [hb])
    · show 12 ≤ n ∧ n % 4 = 0
      omega
    · show 12 ≤ s ∧ s % 4 = 0
      omega
    · exact ht.size b (by simp [hb])

/-! ## The lowest free block -/

/-- `lfree` is a free block, or the end. -/
def Hinted (h : Heap) (bs : List Block) : Prop :=
  h.lfree = h.heapEnd ∨ ∃ s, Has 0 bs h.lfree.toNat ⟨s, false⟩

/-- No free block is below `lfree`. -/
def Lowest (h : Heap) (bs : List Block) : Prop :=
  ∀ o s, Has 0 bs o ⟨s, false⟩ → h.lfree.toNat ≤ o

/-- No free block but the one at `o'` is below `lfree`. -/
def LowestBut (h : Heap) (bs : List Block) (o' : Nat) : Prop :=
  ∀ o s, Has 0 bs o ⟨s, false⟩ → o ≠ o' → h.lfree.toNat ≤ o

/-- What stays when free blocks are joined. -/
structure Joined (h : Heap) (bs : List Block) (h' : Heap) (bs' : List Block) : Prop where
  tiles : h'.Tiles bs'
  hinted : h.Hinted bs → h'.Hinted bs'
  lowest : h.Lowest bs → h'.Lowest bs'
  usedTotal_eq : usedTotal bs' = usedTotal bs
  inUse : ∀ o s, Has 0 bs' o ⟨s, true⟩ ↔ Has 0 bs o ⟨s, true⟩
  usedMem : h'.usedMem = h.usedMem
  heapPtr : h'.heapPtr = h.heapPtr
  heapEnd : h'.heapEnd = h.heapEnd
  memSizeAligned : h'.memSizeAligned = h.memSizeAligned

theorem Joined.refl (ht : h.Tiles bs) : Joined h bs h bs :=
  ⟨ht, id, id, rfl, fun _ _ => Iff.rfl, rfl, rfl, rfl, rfl⟩

theorem Joined.trans {h' h'' : Heap} {bs' bs'' : List Block} (hj : Joined h bs h' bs')
    (hj' : Joined h' bs' h'' bs'') : Joined h bs h'' bs'' where
  tiles := hj'.tiles
  hinted := hj'.hinted ∘ hj.hinted
  lowest := hj'.lowest ∘ hj.lowest
  usedTotal_eq := hj'.usedTotal_eq.trans hj.usedTotal_eq
  inUse o s := (hj'.inUse o s).trans (hj.inUse o s)
  usedMem := hj'.usedMem.trans hj.usedMem
  heapPtr := hj'.heapPtr.trans hj.heapPtr
  heapEnd := hj'.heapEnd.trans hj.heapEnd
  memSizeAligned := hj'.memSizeAligned.trans hj.memSizeAligned

theorem joinBlocks_lfree :
    (h.joinBlocks mem nmem).lfree = if h.lfree = nmem then mem else h.lfree := rfl

/-- Two free blocks are joined. -/
theorem Tiles.joined (ht : h.Tiles (xs ++ ⟨s, false⟩ :: ⟨n, false⟩ :: ys))
    (hmem : mem.toNat = total xs) (hnmem : nmem.toNat = total xs + s) :
    Joined h (xs ++ ⟨s, false⟩ :: ⟨n, false⟩ :: ys)
      (h.joinBlocks mem nmem) (xs ++ ⟨s + n, false⟩ :: ys) where
  tiles := ht.join hmem hnmem
  hinted := by
    rintro (hend | ⟨k, hhas⟩)
    · left
      have hlt := ht.total_lt
      have hsize := (ht.size ⟨n, false⟩ (by simp)).1
      simp only [total_cons] at hlt hsize
      rw [joinBlocks_lfree, if_neg]
      · exact hend
      · rw [hend]
        rintro rfl
        omega
    · right
      rw [joinBlocks_lfree]
      split
      case isTrue =>
        rw [hmem]
        exact ⟨s + n, by simp⟩
      case isFalse hne =>
        have hne : h.lfree.toNat ≠ total xs + s := by
          rw [← hnmem]
          exact fun heq => hne (BitVec.eq_of_toNat_eq heq)
        simp only [has_append, has_cons, Nat.zero_add, Block.mk.injEq] at hhas
        -- `lfree` pointed in front of the two, to one of them, or behind
        obtain hxs | ⟨heq, -⟩ | ⟨heq, -⟩ | hys := hhas
        · exact ⟨k, by simp [hxs]⟩
        · exact ⟨s + n, by simp [heq]⟩
        · exact absurd heq hne
        · exact ⟨k, by simp [← Nat.add_assoc, hys]⟩
  lowest hlow := by
    -- the join moves `lfree` down only
    have hle : (h.joinBlocks mem nmem).lfree.toNat ≤ h.lfree.toNat := by
      rw [joinBlocks_lfree]
      split
      case isTrue heq =>
        rw [heq]
        omega
      case isFalse => exact Nat.le_refl _
    intro o k hhas
    simp only [has_append, has_cons, Nat.zero_add, Block.mk.injEq, ← Nat.add_assoc] at hhas
    obtain hxs | ⟨heq, -⟩ | hys := hhas
    · exact hle.trans (hlow o k (by simp [hxs]))
    · exact hle.trans (hlow o s (by simp [heq]))
    · exact hle.trans (hlow o k (by simp [hys]))
  usedTotal_eq := by simp
  inUse o k := by simp [← Nat.add_assoc]
  usedMem := rfl
  heapPtr := rfl
  heapEnd := rfl
  memSizeAligned := rfl

/-- Where `lfree` is joined to the block before it, it moves there. -/
theorem Tiles.joined_lowest (ht : h.Tiles (xs ++ ⟨s, false⟩ :: ⟨n, false⟩ :: ys))
    (hmem : mem.toNat = total xs) (hlfree : h.lfree = nmem)
    (hlow : h.LowestBut (xs ++ ⟨s, false⟩ :: ⟨n, false⟩ :: ys) (total xs))
    (hnmem : nmem.toNat = total xs + s) :
    (h.joinBlocks mem nmem).Lowest (xs ++ ⟨s + n, false⟩ :: ys) := by
  intro o k hhas
  rw [joinBlocks_lfree, if_pos hlfree, hmem]
  simp only [has_append, has_cons, Nat.zero_add, Block.mk.injEq, ← Nat.add_assoc] at hhas
  obtain hxs | ⟨heq, -⟩ | hys := hhas
  · have hbounds := hxs.bounds
    have hsize := (ht.size _ (List.mem_append_left _ hxs.member)).1
    simp only at hbounds hsize
    have hle := hlow o k (by simp [hxs]) (by omega)
    rw [hlfree, hnmem] at hle
    omega
  · exact heq.ge
  · have := hys.bounds.1
    omega

/-! ## `plug_holes` -/

theorem Tiles.lt_heapEnd (ht : h.Tiles (xs ++ b :: ys)) (hptr : ptr.toNat = total xs) :
    ptr < h.heapEnd := by
  have hlt := ht.total_lt
  have hsize := (ht.size b (by simp)).1
  rw [BitVec.lt_def]
  omega

theorem Tiles.next (ht : h.Tiles (xs ++ b :: ys)) (hptr : ptr.toNat = total xs) :
    (h.get ptr).next.toNat = total (xs ++ [b]) := by
  rw [(ht.header hptr).next]
  simp

/-- A free block takes in a free block after it. -/
theorem Tiles.plugForward (ht : h.Tiles (xs ++ ⟨s, false⟩ :: ys)) (hmem : mem.toNat = total xs)
    (hys : Coalesced ys) :
    ∃ n zs,
      Joined h (xs ++ ⟨s, false⟩ :: ys)
        (if mem ≠ (h.get mem).next ∧ (h.get (h.get mem).next).used = 0 ∧
            (h.get mem).next ≠ h.heapEnd then h.joinBlocks mem (h.get mem).next
          else h) (xs ++ ⟨n, false⟩ :: zs) ∧
      Coalesced zs ∧ (∀ c ∈ zs.head?, c.used = true) ∧
      (h.Hinted (xs ++ ⟨s, false⟩ :: ys) → h.lfree = (h.get mem).next → h.lfree ≠ h.heapEnd →
        h.LowestBut (xs ++ ⟨s, false⟩ :: ys) (total xs) →
        (if mem ≠ (h.get mem).next ∧ (h.get (h.get mem).next).used = 0 ∧
            (h.get mem).next ≠ h.heapEnd then h.joinBlocks mem (h.get mem).next
          else h).Lowest (xs ++ ⟨n, false⟩ :: zs)) := by
  have hnext := ht.next hmem
  have hlt := ht.total_lt
  have hsize := (ht.size ⟨s, false⟩ (by simp)).1
  simp only [total_append, total_cons, total_nil, Nat.add_zero] at hnext hlt hsize
  cases ys with
  | nil =>
    -- the block is the last one
    have hend : (h.get mem).next = h.heapEnd := by
      apply BitVec.eq_of_toNat_eq
      rw [hnext, ← hlt, total_nil, Nat.add_zero]
    refine ⟨s, [], ?_, hys, by simp, fun _ hlfree hne => absurd (hlfree.trans hend) hne⟩
    rw [if_neg (by simp [hend])]
    exact Joined.refl ht
  | cons c cs =>
    have ht' : h.Tiles ((xs ++ [⟨s, false⟩]) ++ c :: cs) := by simpa using ht
    have hnmem : (h.get mem).next.toNat = total (xs ++ [⟨s, false⟩]) := by simp [hnext]
    have hused := (ht'.header hnmem).used_eq_zero
    have hend : (h.get mem).next ≠ h.heapEnd := BitVec.ne_of_lt (ht'.lt_heapEnd hnmem)
    have hne : mem ≠ (h.get mem).next := by
      intro heq
      rw [← heq] at hnext
      omega
    cases hc : c.used with
    | true =>
      have hnot : (h.get (h.get mem).next).used ≠ 0 := by
        rw [Ne, hused, hc]
        simp
      refine ⟨s, c :: cs, ?_, hys, by simp [hc], fun hhint hlfree hend' => ?_⟩
      · rw [if_neg fun hcond => hnot hcond.2.1]
        exact Joined.refl ht
      · -- `lfree` is not in use
        obtain ⟨k, hhas⟩ := hhint.resolve_left hend'
        rw [hlfree, hnext] at hhas
        have hat : Has 0 (xs ++ ⟨s, false⟩ :: c :: cs) (total xs + s) c := by simp
        have := hat.unique hhas ht.pos
        simp [this] at hc
    | false =>
      obtain ⟨n, f⟩ := c
      simp only at hc
      subst hc
      obtain ⟨hcs, hhead⟩ := coalesced_cons.mp hys
      refine ⟨s + n, cs, ?_, hcs, hhead rfl, fun _ hlfree _ hlow => ?_⟩
      · rw [if_pos ⟨hne, hused.mpr rfl, hend⟩]
        exact ht.joined hmem hnext
      · rw [if_pos ⟨hne, hused.mpr rfl, hend⟩]
        exact ht.joined_lowest hmem hlfree hlow hnext

/-- A free block goes into a free block before it. -/
theorem Tiles.plugBackward (ht : h.Tiles (xs ++ ⟨s, false⟩ :: ys)) (hmem : mem.toNat = total xs)
    (hxs : Coalesced xs) (hys : Coalesced ys) (hhead : ∀ c ∈ ys.head?, c.used = true) :
    ∃ bs',
      Joined h (xs ++ ⟨s, false⟩ :: ys)
        (if (h.get mem).prev ≠ mem ∧ (h.get (h.get mem).prev).used = 0 then
          h.joinBlocks (h.get mem).prev mem else h) bs' ∧ Coalesced bs' := by
  have hprev := (ht.header hmem).prev
  obtain rfl | ⟨ws, a, rfl⟩ := List.eq_nil_or_concat' xs
  · -- the block is the first one
    have heq : (h.get mem).prev = mem := by
      apply BitVec.eq_of_toNat_eq
      rw [hprev, hmem]
      rfl
    refine ⟨[] ++ ⟨s, false⟩ :: ys, ?_, coalesced_append.mpr ⟨hxs, hys, fun _ => ⟨by simp, hhead⟩⟩⟩
    rw [if_neg (by simp [heq])]
    exact Joined.refl ht
  · rw [lastStart_snoc, Nat.zero_add] at hprev
    have ht' : h.Tiles (ws ++ a :: ⟨s, false⟩ :: ys) := by simpa using ht
    have hused := (ht'.header hprev).used_eq_zero
    have hsize := (ht'.size a (by simp)).1
    simp only [total_append, total_cons, total_nil, Nat.add_zero] at hmem
    have hne : (h.get mem).prev ≠ mem := by
      intro heq
      rw [heq] at hprev
      omega
    obtain ⟨hws, -, hlast⟩ := coalesced_append.mp hxs
    cases ha : a.used with
    | true =>
      have hnot : (h.get (h.get mem).prev).used ≠ 0 := by
        rw [Ne, hused, ha]
        simp
      refine ⟨ws ++ [a] ++ ⟨s, false⟩ :: ys, ?_,
        coalesced_append.mpr ⟨hxs, hys, fun _ => ⟨by simp [ha], hhead⟩⟩⟩
      rw [if_neg fun hcond => hnot hcond.2]
      exact Joined.refl ht
    | false =>
      obtain ⟨n, f⟩ := a
      simp only at ha
      subst ha
      refine ⟨ws ++ ⟨n + s, false⟩ :: ys, ?_,
        coalesced_append.mpr ⟨hws, hys, fun _ => ⟨(hlast rfl).1, hhead⟩⟩⟩
      rw [if_pos ⟨hne, hused.mpr rfl⟩]
      have hjoined := ht'.joined hprev hmem
      simpa using hjoined

theorem Tiles.plugHoles (ht : h.Tiles (xs ++ ⟨s, false⟩ :: ys)) (hmem : mem.toNat = total xs)
    (hxs : Coalesced xs) (hys : Coalesced ys) :
    ∃ h' bs', h.plugHoles mem = .ok h' ∧ Joined h (xs ++ ⟨s, false⟩ :: ys) h' bs' ∧
      Coalesced bs' ∧
      (h.Hinted (xs ++ ⟨s, false⟩ :: ys) → h.lfree = (h.get mem).next → h.lfree ≠ h.heapEnd →
        h.LowestBut (xs ++ ⟨s, false⟩ :: ys) (total xs) → h'.Lowest bs') := by
  obtain ⟨n, zs, hforward, hzs, hhead, hlowest⟩ := ht.plugForward hmem hys
  obtain ⟨bs', hbackward, hbs'⟩ := hforward.tiles.plugBackward hmem hxs hzs hhead
  have hused := (ht.header hmem).used_eq_zero.mpr rfl
  refine ⟨_, bs', ?_, hforward.trans hbackward, hbs', fun hhint hlfree hend hlow =>
    hbackward.lowest (hlowest hhint hlfree hend hlow)⟩
  refine exec_bind_ok.mpr ⟨(), rtAssert_eq_ok.mpr (BitVec.le_def.mpr (Nat.zero_le _)), ?_⟩
  refine exec_bind_ok.mpr ⟨(), rtAssert_eq_ok.mpr (ht.lt_heapEnd hmem), ?_⟩
  exact exec_bind_ok.mpr ⟨(), rtAssert_eq_ok.mpr hused, rfl⟩

end Heap

end PandoraRobot.Memory
