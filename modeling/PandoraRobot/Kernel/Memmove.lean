import PandoraRobot.Lib.MemoryBlocks

/-! # Blocks of memory

`rt_memset`, `rt_memcpy` and `rt_memmove` of `kservice.c`, for a `long` of 4 bytes with the least
significant one first.  Each also returns its first argument.

On aligned addresses, `rt_memset` and `rt_memcpy` take four words a turn, then single words, and
leave the rest to a loop over bytes.
-/

namespace PandoraRobot.Kernel

open PandoraRobot.MemoryBlocks

abbrev ByteMemory := BitVec 32 → BitVec 8

/-! ## The code -/

/-- The loop over bytes of `rt_memset`. -/
def setBytes (memory : ByteMemory) (m : BitVec 32) (d : BitVec 8) : Nat → ByteMemory
  | 0 => memory
  | count + 1 => setBytes (Function.update memory m d) (m + 1) d count

/-- The loop over bytes of `rt_memcpy`, and that of `rt_memmove` from the front. -/
def copyBytes (memory : ByteMemory) (dst src : BitVec 32) : Nat → ByteMemory
  | 0 => memory
  | len + 1 => copyBytes (Function.update memory dst (memory src)) (dst + 1) (src + 1) len

/-- The loop of `rt_memmove` from the back. -/
def copyBytesBack (memory : ByteMemory) (tmp s : BitVec 32) : Nat → ByteMemory
  | 0 => memory
  | n + 1 =>
    copyBytesBack (Function.update memory (tmp - 1) (memory (s - 1))) (tmp - 1) (s - 1) n

/-- `sizeof (long)`: `LBLOCKSIZE`, and `LITTLEBLOCKSIZE`. -/
def littleBlockSize : BitVec 32 := 4

def bigBlockSize : BitVec 32 := littleBlockSize <<< 2

/-- `UNALIGNED`. -/
def unaligned (x : BitVec 32) : BitVec 32 := x &&& (littleBlockSize - 1)

/-- A loop that goes on while a block is left, and takes a block a turn. -/
def whileBlocks {S : Type} (size : BitVec 32) (turn : S → S) (s : S) (count : BitVec 32) :
    S × BitVec 32 :=
  if size ≠ 0 ∧ count ≥ size then whileBlocks size turn (turn s) (count - size) else (s, count)
termination_by count.toNat
decreasing_by bv_omega

/-- The memory, and `aligned_addr` of `rt_memset`. -/
structure SetAt where
  memory : ByteMemory
  addr : BitVec 32

def SetAt.word (buffer : BitVec 32) (s : SetAt) : SetAt where
  memory := storeWord 4 s.memory s.addr buffer
  addr := s.addr + 4

/-- Four words. -/
def SetAt.block (buffer : BitVec 32) (s : SetAt) : SetAt :=
  (((s.word buffer).word buffer).word buffer).word buffer

/-- `buffer` of `rt_memset`. -/
def memsetBuffer (d : BitVec 32) : BitVec 32 :=
  let buffer := d <<< 8 ||| d
  buffer ||| buffer <<< 16

/-- Words, as long as there are any, and what is left of `count`. -/
def setWords (buffer : BitVec 32) (s : SetAt) (count : BitVec 32) : SetAt × BitVec 32 :=
  let (s, count) := whileBlocks bigBlockSize (SetAt.block buffer) s count
  whileBlocks littleBlockSize (SetAt.word buffer) s count

def rtMemset (memory : ByteMemory) (s c count : BitVec 32) : ByteMemory :=
  let d := c &&& 0xff
  let rest :=
    if ¬ count < littleBlockSize ∧ unaligned s = 0 then
      setWords (memsetBuffer d) ⟨memory, s⟩ count
    else (⟨memory, s⟩, count)
  setBytes rest.1.memory rest.1.addr (d.setWidth 8) rest.2.toNat

/-- The memory, and `aligned_dst` and `aligned_src` of `rt_memcpy`. -/
structure CopyAt where
  memory : ByteMemory
  dst : BitVec 32
  src : BitVec 32

def CopyAt.word (s : CopyAt) : CopyAt where
  memory := storeWord 4 s.memory s.dst (loadWord 32 4 s.memory s.src)
  dst := s.dst + 4
  src := s.src + 4

/-- Four words. -/
def CopyAt.block (s : CopyAt) : CopyAt := s.word.word.word.word

/-- Words, as long as there are any, and what is left of `len`. -/
def copyWords (s : CopyAt) (len : BitVec 32) : CopyAt × BitVec 32 :=
  let (s, len) := whileBlocks bigBlockSize CopyAt.block s len
  whileBlocks littleBlockSize CopyAt.word s len

/-- `len` is signed, but the sizes that it is compared with are not, and so it is unsigned there. -/
def rtMemcpy (memory : ByteMemory) (dst src count : BitVec 32) : ByteMemory :=
  let rest :=
    if ¬ count < bigBlockSize ∧ unaligned src ||| unaligned dst = 0 then
      copyWords ⟨memory, dst, src⟩ count
    else (⟨memory, dst, src⟩, count)
  copyBytes rest.1.memory rest.1.dst rest.1.src rest.2.toNat

def rtMemmove (memory : ByteMemory) (dest src n : BitVec 32) : ByteMemory :=
  if src < dest ∧ dest < src + n then copyBytesBack memory (dest + n) (src + n) n.toNat
  else copyBytes memory dest src n.toNat

/-! ## What they are to do -/

/-- The destination is what the source has been, and no other byte has changed. -/
structure MovesBlock (memory memory' : ByteMemory) (dest src : BitVec 32) (n : Nat) : Prop where
  moved : ∀ k < n, memory' (dest + BitVec.ofNat 32 k) = memory (src + BitVec.ofNat 32 k)
  kept : ∀ a, (∀ k < n, a ≠ dest + BitVec.ofNat 32 k) → memory' a = memory a

/-- Two blocks do not overlap. -/
def BlocksApart (dst src : BitVec 32) (n : Nat) : Prop :=
  ∀ i < n, ∀ j < n, dst + BitVec.ofNat 32 i ≠ src + BitVec.ofNat 32 j

/-! ## The loops over bytes -/

section Bytes

variable {memory : ByteMemory} {dst src : BitVec 32} {d : BitVec 8} {n : Nat}

theorem setBytes_eq (h : n ≤ 2 ^ 32) :
    setBytes memory dst d n = written memory dst (fun _ => d) n := by
  induction n generalizing memory dst with
  | zero => rfl
  | succ n ih =>
    rw [setBytes, ih (by omega), ← @written_one 32 _ memory dst (fun _ => d), Nat.add_comm n 1]
    exact filled_add (by omega)

theorem copyBytes_eq (h : (src - dst).toNat + n ≤ 2 ^ 32) :
    copyBytes memory dst src n = copied memory dst src n := by
  induction n generalizing memory dst src with
  | zero => rfl
  | succ n ih =>
    have hsame : (src + 1 - (dst + 1)).toNat = (src - dst).toNat := by rw [add_sub_add_right_eq_sub]
    rw [copyBytes, ih (by rw [hsame]; omega), ← copied_one, Nat.add_comm n 1]
    exact copied_add (by omega)

theorem copyBytesBack_eq (h : (dst - src).toNat + n ≤ 2 ^ 32) :
    copyBytesBack memory (dst + BitVec.ofNat 32 n) (src + BitVec.ofNat 32 n) n =
      copied memory dst src n := by
  induction n generalizing memory with
  | zero => rfl
  | succ n ih =>
    have hback : ∀ a : BitVec 32, a + BitVec.ofNat 32 (n + 1) - 1 = a + BitVec.ofNat 32 n := by
      intro a
      rw [BitVec.ofNat_add, ← add_assoc]
      exact add_sub_cancel_right _ _
    rw [copyBytesBack, hback, hback, ih (by omega), ← copied_one]
    exact copied_add_back h

end Bytes

/-! ## The loops over words -/

section Words

variable {S : Type} {memory : ByteMemory} {dst src buffer : BitVec 32} {d : BitVec 8} {total i : Nat}

/-- If each turn does a block more, the loop does all blocks that it takes from `count`. -/
theorem whileBlocks_done {P : Nat → S → Prop} {size : BitVec 32} {turn : S → S}
    (hturn : ∀ i s, i + size.toNat ≤ total → P i s → P (i + size.toNat) (turn s)) {s : S}
    {count : BitVec 32} (h : P i s) (hcount : i + count.toNat = total) :
    ∃ i', P i' (whileBlocks size turn s count).1 ∧
      i' + (whileBlocks size turn s count).2.toNat = total := by
  induction hleft : count.toNat using Nat.strongRecOn generalizing s i count with
  | ind left ih =>
    rw [whileBlocks]
    by_cases hmore : size ≠ 0 ∧ count ≥ size
    · have hsize : size.toNat ≤ count.toNat := hmore.2
      have hnext : (count - size).toNat = count.toNat - size.toNat := BitVec.toNat_sub_of_le hmore.2
      have hpos : 0 < size.toNat := Nat.pos_of_ne_zero fun hzero =>
        hmore.1 (BitVec.eq_of_toNat_eq hzero)
      rw [if_pos hmore]
      exact ih _ (by omega) (hturn i s (by omega) h) (by omega) rfl
    · rw [if_neg hmore]
      exact ⟨i, h, hcount⟩

/-- `i` bytes are set. -/
structure SetAt.Done (memory : ByteMemory) (dst : BitVec 32) (d : BitVec 8) (i : Nat) (s : SetAt) :
    Prop where
  memory : s.memory = written memory dst (fun _ => d) i
  addr : s.addr = dst + BitVec.ofNat 32 i

theorem SetAt.Done.word {s : SetAt} (h : s.Done memory dst d i)
    (hbuffer : ∀ k < 4, byteAt buffer k = d) (hfits : i + 4 ≤ 2 ^ 32) :
    (s.word buffer).Done memory dst d (i + 4) where
  memory := by
    rw [SetAt.word, storeWord, written_congr hbuffer, h.memory, h.addr]
    exact filled_add hfits
  addr := by
    rw [SetAt.word, h.addr, add_assoc, BitVec.ofNat_add]
    rfl

theorem SetAt.Done.block {s : SetAt} (h : s.Done memory dst d i)
    (hbuffer : ∀ k < 4, byteAt buffer k = d) (hfits : i + 16 ≤ 2 ^ 32) :
    (s.block buffer).Done memory dst d (i + 16) :=
  (((h.word hbuffer (by omega)).word hbuffer (by omega)).word hbuffer (by omega)).word hbuffer hfits

theorem setWords_done (hbuffer : ∀ k < 4, byteAt buffer k = d) (count : BitVec 32) :
    ∃ i, (setWords buffer ⟨memory, dst⟩ count).1.Done memory dst d i ∧
      i + (setWords buffer ⟨memory, dst⟩ count).2.toNat = count.toNat := by
  have hstart : SetAt.Done memory dst d 0 ⟨memory, dst⟩ := ⟨rfl, by simp⟩
  have hfits := count.isLt
  have hblock : ∀ i (s : SetAt), i + bigBlockSize.toNat ≤ count.toNat → s.Done memory dst d i →
      (s.block buffer).Done memory dst d (i + bigBlockSize.toNat) := by
    intro i s hle h
    have hle' : i + 16 ≤ count.toNat := hle
    exact h.block hbuffer (by omega)
  have hword : ∀ i (s : SetAt), i + littleBlockSize.toNat ≤ count.toNat → s.Done memory dst d i →
      (s.word buffer).Done memory dst d (i + littleBlockSize.toNat) := by
    intro i s hle h
    have hle' : i + 4 ≤ count.toNat := hle
    exact h.word hbuffer (by omega)
  obtain ⟨i, hbig, hleft⟩ := whileBlocks_done hblock hstart (Nat.zero_add _)
  exact whileBlocks_done hword hbig hleft

/-- `i` bytes are copied. -/
structure CopyAt.Done (memory : ByteMemory) (dst src : BitVec 32) (i : Nat) (s : CopyAt) : Prop where
  memory : s.memory = copied memory dst src i
  dst : s.dst = dst + BitVec.ofNat 32 i
  src : s.src = src + BitVec.ofNat 32 i

theorem CopyAt.Done.word {s : CopyAt} (h : s.Done memory dst src i)
    (hfits : (src - dst).toNat + (i + 4) ≤ 2 ^ 32) : s.word.Done memory dst src (i + 4) where
  memory := by
    rw [CopyAt.word, storeWord_loadWord (Nat.le_refl _), h.memory, h.dst, h.src]
    exact copied_add hfits
  dst := by
    rw [CopyAt.word, h.dst, add_assoc, BitVec.ofNat_add]
    rfl
  src := by
    rw [CopyAt.word, h.src, add_assoc, BitVec.ofNat_add]
    rfl

theorem CopyAt.Done.block {s : CopyAt} (h : s.Done memory dst src i)
    (hfits : (src - dst).toNat + (i + 16) ≤ 2 ^ 32) : s.block.Done memory dst src (i + 16) :=
  (((h.word (by omega)).word (by omega)).word (by omega)).word hfits

theorem copyWords_done {len : BitVec 32} (hfits : (src - dst).toNat + len.toNat ≤ 2 ^ 32) :
    ∃ i, (copyWords ⟨memory, dst, src⟩ len).1.Done memory dst src i ∧
      i + (copyWords ⟨memory, dst, src⟩ len).2.toNat = len.toNat := by
  have hstart : CopyAt.Done memory dst src 0 ⟨memory, dst, src⟩ := ⟨rfl, by simp, by simp⟩
  have hblock : ∀ i (s : CopyAt), i + bigBlockSize.toNat ≤ len.toNat → s.Done memory dst src i →
      s.block.Done memory dst src (i + bigBlockSize.toNat) := by
    intro i s hle h
    have hle' : i + 16 ≤ len.toNat := hle
    exact h.block (by omega)
  have hword : ∀ i (s : CopyAt), i + littleBlockSize.toNat ≤ len.toNat → s.Done memory dst src i →
      s.word.Done memory dst src (i + littleBlockSize.toNat) := by
    intro i s hle h
    have hle' : i + 4 ≤ len.toNat := hle
    exact h.word (by omega)
  obtain ⟨i, hbig, hleft⟩ := whileBlocks_done hblock hstart (Nat.zero_add _)
  exact whileBlocks_done hword hbig hleft

end Words

/-! ## The functions -/

section Functions

variable {memory : ByteMemory} {dst src : BitVec 32} {n : Nat}

theorem memsetBuffer_bytes (d : BitVec 8) {k : Nat} (hk : k < 4) :
    byteAt (memsetBuffer (d.setWidth 32)) k = d := by
  apply BitVec.eq_of_getLsbD_eq
  intro i hi
  obtain rfl | rfl | rfl | rfl : k = 0 ∨ k = 1 ∨ k = 2 ∨ k = 3 := by omega
  all_goals
    simp only [byteAt, memsetBuffer, BitVec.getLsbD_extractLsb', BitVec.getLsbD_or,
      BitVec.getLsbD_shiftLeft, BitVec.getLsbD_setWidth]
    grind

/-- `d` of `rt_memset` is a byte. -/
theorem and_ff (c : BitVec 32) : c &&& 0xff = (c.setWidth 8).setWidth 32 := by
  have hmask : (0xff : BitVec 32).toNat = 2 ^ 8 - 1 := rfl
  apply BitVec.eq_of_toNat_eq
  rw [BitVec.toNat_and, BitVec.toNat_setWidth, BitVec.toNat_setWidth, hmask,
    Nat.and_two_pow_sub_one_eq_mod]
  omega

theorem rtMemset_eq (memory : ByteMemory) (s c count : BitVec 32) :
    rtMemset memory s c count = written memory s (fun _ => c.setWidth 8) count.toNat := by
  have hbyte : ((c.setWidth 8).setWidth 32).setWidth 8 = c.setWidth 8 :=
    BitVec.setWidth_setWidth_of_le _ (by decide)
  have hfits := count.isLt
  rw [rtMemset, and_ff, hbyte]
  by_cases hwords : ¬ count < littleBlockSize ∧ unaligned s = 0
  case pos =>
    rw [if_pos hwords]
    obtain ⟨i, hdone, hleft⟩ := @setWords_done memory s _ (c.setWidth 8)
      (fun k hk => memsetBuffer_bytes _ hk) count
    rw [setBytes_eq (by omega), hdone.memory, hdone.addr, filled_add (by omega), hleft]
  case neg =>
    rw [if_neg hwords]
    exact setBytes_eq (by omega)

theorem rtMemcpy_eq {count : BitVec 32} (h : (src - dst).toNat + count.toNat ≤ 2 ^ 32) :
    rtMemcpy memory dst src count = copied memory dst src count.toNat := by
  rw [rtMemcpy]
  by_cases hwords : ¬ count < bigBlockSize ∧ unaligned src ||| unaligned dst = 0
  case pos =>
    rw [if_pos hwords]
    obtain ⟨i, hdone, hleft⟩ := @copyWords_done memory dst src count h
    have hsame : (src + BitVec.ofNat 32 i - (dst + BitVec.ofNat 32 i)).toNat =
        (src - dst).toNat := by rw [add_sub_add_right_eq_sub]
    rw [hdone.memory, hdone.dst, hdone.src, copyBytes_eq (by rw [hsame]; omega),
      copied_add (by omega), hleft]
  case neg =>
    rw [if_neg hwords]
    exact copyBytes_eq h

/-- The source of blocks that do not overlap does not end inside the destination. -/
theorem BlocksApart.fits (h : BlocksApart dst src n) (hn : n ≤ 2 ^ 32) :
    (src - dst).toNat + n ≤ 2 ^ 32 := by
  by_contra hover
  have hlt := (src - dst).isLt
  -- the source comes round to the start of the destination
  refine h 0 (by omega) (2 ^ 32 - (src - dst).toNat) (by omega) ?_
  bv_omega

theorem rtMemmove_eq {m : BitVec 32} (hdest : dst.toNat + m.toNat ≤ 2 ^ 32)
    (hsrc : src.toNat + m.toNat ≤ 2 ^ 32) :
    rtMemmove memory dst src m = copied memory dst src m.toNat := by
  have hsame : ∀ a : BitVec 32, a + m = a + BitVec.ofNat 32 m.toNat := by
    intro a
    rw [BitVec.ofNat_toNat, BitVec.setWidth_eq]
  rw [rtMemmove]
  split
  case isTrue hover =>
    rw [hsame, hsame]
    refine copyBytesBack_eq ?_
    have hlt := BitVec.lt_def.mp hover.1
    rw [BitVec.toNat_sub_of_le (BitVec.le_def.mpr (Nat.le_of_lt hlt))]
    omega
  case isFalse hapart =>
    refine copyBytes_eq ?_
    by_cases hbefore : src < dst
    · have hbehind : ¬ dst < src + m := fun hover => hapart ⟨hbefore, hover⟩
      bv_omega
    · bv_omega

theorem moves_copied (hn : n ≤ 2 ^ 32) : MovesBlock memory (copied memory dst src n) dst src n where
  moved k hk := written_of_lt hk hn
  kept a haway := by
    refine written_of_le (Nat.le_of_not_lt fun hlt => haway _ hlt ?_)
    rw [BitVec.ofNat_toNat, BitVec.setWidth_eq, add_sub_cancel]

/-- `rt_memmove` moves a block, whether or not it overlaps its destination; and for `rt_memcpy`,
    where the blocks do not overlap, and `rt_memset`, the words make no difference to the bytes. -/
theorem rt_mem_blocks (memory : ByteMemory) :
    (∀ dest src n : BitVec 32, dest.toNat + n.toNat ≤ 2 ^ 32 → src.toNat + n.toNat ≤ 2 ^ 32 →
      MovesBlock memory (rtMemmove memory dest src n) dest src n.toNat) ∧
    (∀ dst src count : BitVec 32, BlocksApart dst src count.toNat →
      rtMemcpy memory dst src count = copyBytes memory dst src count.toNat) ∧
    ∀ s c count : BitVec 32,
      rtMemset memory s c count = setBytes memory s (c.setWidth 8) count.toNat := by
  refine ⟨fun dest src n hdest hsrc => ?_, fun dst src count hapart => ?_, fun s c count => ?_⟩
  · rw [rtMemmove_eq hdest hsrc]
    exact moves_copied (by have hlt := n.isLt; omega)
  · have hfits := hapart.fits (Nat.le_of_lt count.isLt)
    rw [rtMemcpy_eq hfits, copyBytes_eq hfits]
  · rw [rtMemset_eq, setBytes_eq (Nat.le_of_lt count.isLt)]

/-- A block that is moved up by a byte, and one that is copied in words. -/
theorem rt_mem_blocks_overlap :
    MovesBlock (fun a => a.setWidth 8) (rtMemmove (fun a => a.setWidth 8) 1 0 2) 1 0 2 ∧
      rtMemcpy (fun a => a.setWidth 8) 32 0 17 = copyBytes (fun a => a.setWidth 8) 32 0 17 := by
  have hblocks := rt_mem_blocks fun a => a.setWidth 8
  exact ⟨hblocks.1 1 0 2 (by decide) (by decide),
    hblocks.2.1 32 0 17 (by unfold BlocksApart; decide)⟩

end Functions

end PandoraRobot.Kernel
