import PandoraRobot.Lib.Alignment
import PandoraRobot.Memory.HeapBlocks

/-! # What the calls do to the blocks

One lemma for each loop and each call: which block it finds, and how it changes the
list of blocks.
-/

namespace PandoraRobot.Memory

open PandoraRobot.Kernel PandoraRobot.Tiling PandoraRobot.Alignment

theorem lowMask_two : rtAlignSize - 1 = lowMask 32 2 := by decide

theorem toNat_rtAlign (size : BitVec 32) :
    (rtAlign size rtAlignSize).toNat = (size.toNat + 3) % 2 ^ 32 / 4 * 4 := by
  have hadd : (size + rtAlignSize - 1).toNat = (size.toNat + 3) % 2 ^ 32 := by
    rw [rtAlignSize]
    bv_omega
  rw [rtAlign, lowMask_two, toNat_and_not_lowMask, hadd]
  norm_num

theorem toNat_rtAlignDown (size : BitVec 32) :
    (rtAlignDown size rtAlignSize).toNat = size.toNat / 4 * 4 := by
  rw [rtAlignDown, lowMask_two, toNat_and_not_lowMask]
  norm_num

/-- What is aligned stays. -/
theorem rtAlign_of_mod {size : BitVec 32} (h : size.toNat % 4 = 0) :
    rtAlign size rtAlignSize = size := by
  apply BitVec.eq_of_toNat_eq
  have hlt := size.isLt
  rw [toNat_rtAlign]
  omega

namespace Heap

variable {h h' : Heap} {bs xs ys : List Block} {b : Block} {s n o : Nat} {u v : Bool}
  {ptr mem nmem size : BitVec 32}

theorem Tiles.dataSize (ht : h.Tiles (xs ++ b :: ys)) (hptr : ptr.toNat = total xs) :
    (h.dataSize ptr).toNat + 12 = b.size := by
  have hnext := (ht.header hptr).next
  have hlt := ht.total_lt
  have hroom := ht.room
  have hsize := (ht.size b (by simp)).1
  rw [Heap.dataSize, sizeofStructMem_eq]
  bv_omega

theorem toNat_sub_size (h : Heap) {size : BitVec 32} (hsize : size ≤ h.memSizeAligned) :
    (h.memSizeAligned - size).toNat + size.toNat = h.memSizeAligned.toNat := by
  bv_omega

/-- The search for a block finds a free block that is large enough, if it finds one. -/
theorem Tiles.firstFit : ∀ {fuel : Nat} {xs ys : List Block} {ptr : BitVec 32},
    h.Tiles (xs ++ ys) → ptr.toNat = total xs → size ≤ h.memSizeAligned → ys.length < fuel →
    h.firstFit size fuel ptr = .ok none ∨
      ∃ us s ws mem, h.firstFit size fuel ptr = .ok (some mem) ∧ ys = us ++ ⟨s, false⟩ :: ws ∧
        mem.toNat = total (xs ++ us) ∧ size.toNat + 12 ≤ s ∧ size.toNat < h.memSizeAligned.toNat := by
  intro fuel
  induction fuel with
  | zero => intro xs ys ptr _ _ _ hfuel; omega
  | succ fuel ih =>
    intro xs ys ptr ht hptr hsize hfuel
    rw [Heap.firstFit]
    have hsub := toNat_sub_size h hsize
    have hend := ht.end_eq
    cases ys with
    | nil =>
      have htotal := ht.total_eq
      rw [List.append_nil] at htotal
      left
      rw [if_neg]
      · rfl
      -- the pointer is at the end of the heap, where the loop stops
      · rw [BitVec.lt_def]
        omega
    | cons b ys =>
      have hused := (ht.header hptr).used_eq_zero
      have hdata := ht.dataSize hptr
      split
      case isFalse => exact .inl rfl
      case isTrue hlt =>
        rw [BitVec.lt_def] at hlt
        split
        case isTrue hfits =>
          obtain ⟨hfree, hle⟩ := hfits
          obtain ⟨s, f⟩ := b
          simp only at hdata hused
          have hf := hused.mp hfree
          subst hf
          rw [BitVec.le_def] at hle
          exact .inr ⟨[], s, ys, ptr, rfl, rfl, by simpa using hptr, by omega, by omega⟩
        case isFalse =>
          have ht' : h.Tiles ((xs ++ [b]) ++ ys) := by simpa using ht
          have hlength : ys.length < fuel := by simpa using hfuel
          obtain hnone | ⟨us, s, ws, mem, hfound, rfl, hmem, hle, hstrict⟩ :=
            ih ht' (ht.next hptr) hsize hlength
          · exact .inl hnone
          · exact .inr ⟨b :: us, s, ws, mem, hfound, rfl, by simpa using hmem, hle, hstrict⟩

/-- `lfree` moves on to the first free block. -/
theorem Tiles.nextFree : ∀ {fuel : Nat} {xs ys : List Block} {ptr : BitVec 32},
    h.Tiles (xs ++ ys) → ptr.toNat = total xs → ys.length < fuel →
    ∃ us ws lfree, h.nextFree fuel ptr = .ok lfree ∧ ys = us ++ ws ∧
      lfree.toNat = total (xs ++ us) ∧ (∀ b ∈ us, b.used = true) ∧ ∀ b ∈ ws.head?, b.used = false := by
  intro fuel
  induction fuel with
  | zero => intro xs ys ptr _ _ hfuel; omega
  | succ fuel ih =>
    intro xs ys ptr ht hptr hfuel
    rw [Heap.nextFree]
    cases ys with
    | nil =>
      have htotal := ht.total_eq
      rw [List.append_nil, ← hptr] at htotal
      have heq : ptr = h.heapEnd := BitVec.eq_of_toNat_eq htotal
      rw [if_neg (by simp [heq])]
      exact ⟨[], [], ptr, rfl, rfl, by simpa using hptr, by simp, by simp⟩
    | cons b ys =>
      have hused := (ht.header hptr).used_eq_zero
      have hend : ptr ≠ h.heapEnd := BitVec.ne_of_lt (ht.lt_heapEnd hptr)
      cases hb : b.used with
      | false =>
        rw [if_neg fun hcond => hcond.1 (hused.mpr hb)]
        exact ⟨[], b :: ys, ptr, rfl, rfl, by simpa using hptr, by simp, by simp [hb]⟩
      | true =>
        rw [if_pos ⟨by rw [Ne, hused, hb]; simp, hend⟩]
        have ht' : h.Tiles ((xs ++ [b]) ++ ys) := by simpa using ht
        have hlength : ys.length < fuel := by simpa using hfuel
        obtain ⟨us, ws, lfree, hnext, rfl, hlfree, hus, hws⟩ := ih ht' (ht.next hptr) hlength
        exact ⟨b :: us, ws, lfree, hnext, rfl, by simpa using hlfree, by simpa [hb] using hus, hws⟩

/-- There are enough steps for the loops. -/
theorem Tiles.length_lt_fuel (ht : h.Tiles (xs ++ ys)) : ys.length < h.fuel := by
  have htotal := ht.total_eq
  have hle : ys.length ≤ total ys := length_le_total fun b hb => ht.pos b (by simp [hb])
  rw [total_append] at htotal
  rw [fuel]
  omega

theorem Tiles.setUsed (ht : h.Tiles (xs ++ ⟨s, u⟩ :: ys)) (hptr : ptr.toNat = total xs) :
    (h.modify ptr (.setUsed 1)).Tiles (xs ++ ⟨s, true⟩ :: ys) := by
  apply ht.mark hptr
  intro prev next hh
  exact ⟨hh.magic, rfl, hh.next, hh.prev⟩

theorem Tiles.setMagic (ht : h.Tiles (xs ++ ⟨s, u⟩ :: ys)) (hptr : ptr.toNat = total xs) :
    (h.modify ptr fun m => { m with magic := heapMagic }).Tiles (xs ++ ⟨s, u⟩ :: ys) := by
  apply ht.mark hptr
  intro prev next hh
  exact ⟨rfl, hh.used, hh.next, hh.prev⟩

/-- The block that is found is marked, and what is left of it becomes a free block if that is
    large enough. -/
theorem Tiles.takeBlock (ht : h.Tiles (xs ++ ⟨s, false⟩ :: ys)) (hptr : ptr.toNat = total xs)
    (hmod : size.toNat % 4 = 0) (hfits : size.toNat + 12 ≤ s) :
    ∃ n rest, size.toNat + 12 ≤ n ∧ n < size.toNat + 36 ∧ n + total rest = s ∧
      (rest = [] ∨ ∃ m, rest = [⟨m, false⟩]) ∧
      (h.takeBlock ptr size).Tiles (xs ++ ⟨n, true⟩ :: (rest ++ ys)) ∧
      ∃ mem maxMem, h.takeBlock ptr size =
        { h with mem, usedMem := h.usedMem + BitVec.ofNat 32 n, maxMem } := by
  have hdata := ht.dataSize hptr
  have hlt := ht.total_lt
  have hroom := ht.room
  have hnext := ht.next hptr
  simp only [total_append, total_cons, total_nil, Nat.add_zero] at hlt hdata hnext
  rw [Heap.takeBlock, sizeofStructMem_eq, minSizeAligned_eq]
  -- the block is divided, or taken as a whole
  split
  case isTrue hrest =>
    obtain ⟨r, rfl⟩ : ∃ r, s = size.toNat + 12 + r := ⟨s - (size.toNat + 12), by omega⟩
    have hr : 12 ≤ r := by
      rw [BitVec.le_def] at hrest
      bv_omega
    have hmarked := ((ht.split hptr rfl (by omega) hr).setUsed hptr).setMagic hptr
    obtain ⟨mem, hsame⟩ := splitBlock_same h ptr size
    have hsize : size + 12 = BitVec.ofNat 32 (size.toNat + 12) := by
      apply BitVec.eq_of_toNat_eq
      simp
    refine ⟨size.toNat + 12, [⟨r, false⟩], by omega, by omega, by simp, .inr ⟨r, rfl⟩, hmarked, ?_⟩
    rw [hsame, ← hsize]
    exact ⟨_, _, rfl⟩
  case isFalse hrest =>
    have hmarked := (ht.setUsed hptr).setMagic hptr
    have hn : s < size.toNat + 36 := by
      rw [BitVec.le_def] at hrest
      bv_omega
    have hsize : ((h.modify ptr (.setUsed 1)).get ptr).next - ptr = BitVec.ofNat 32 s := by
      have hs : s < 2 ^ 32 := by omega
      have hkept : ((h.modify ptr (.setUsed 1)).get ptr).next = (h.get ptr).next := by
        simp [modify, put, get, HeapMem.setUsed]
      rw [hkept]
      bv_omega
    refine ⟨s, [], by omega, hn, by simp, .inl rfl, hmarked, ?_⟩
    rw [← hsize]
    exact ⟨_, _, rfl⟩

/-! ## The calls -/

structure Inv (h : Heap) (bs : List Block) : Prop where
  tiles : h.Tiles bs
  coalesced : Coalesced bs
  hinted : h.Hinted bs
  usedMem : h.usedMem.toNat = usedTotal bs
  /-- A block in use has some data. -/
  data : ∀ o n, Has 0 bs o ⟨n, true⟩ → 16 ≤ n

/-- The address of the data of the block that starts at `o`. -/
def dataAt (h : Heap) (o : Nat) : BitVec 32 := BitVec.ofNat 32 (h.heapPtr.toNat + o + 12)

theorem Tiles.toNat_dataAt (ht : h.Tiles (xs ++ b :: ys)) :
    (h.dataAt (total xs)).toNat = h.heapPtr.toNat + total xs + 12 := by
  have hroom := ht.room
  have hlt := ht.total_lt
  rw [dataAt, BitVec.toNat_ofNat, Nat.mod_eq_of_lt (by omega)]

theorem Tiles.total_mod (ht : h.Tiles (xs ++ ys)) : total xs % 4 = 0 :=
  Tiling.total_mod fun b hb => (ht.size b (by simp [hb])).2

/-- The blocks after one has been taken. -/
theorem has_take {rest : List Block} {o : Nat} {c : Block} (hsize : n + total rest = s) :
    Has 0 (xs ++ ⟨n, true⟩ :: (rest ++ ys)) o c ↔ Has 0 xs o c ∨
      (o = total xs ∧ c = ⟨n, true⟩) ∨ Has (total xs + n) rest o c ∨ Has (total xs + s) ys o c := by
  simp only [has_append, has_cons, Nat.zero_add, Nat.add_assoc, hsize]

/-- Where `lfree` is after a block has been taken. -/
theorem Inv.lfreeAfter {rest : List Block} (hi : h.Inv (xs ++ ⟨s, false⟩ :: ys))
    (hmem : mem.toNat = total xs) (hsize : n + total rest = s)
    (hpos : 12 ≤ n)
    (ht : h'.Tiles (xs ++ ⟨n, true⟩ :: (rest ++ ys))) (hend : h'.heapEnd = h.heapEnd)
    (hlfree : h'.lfree = h.lfree) :
    ∃ lfree, h'.lfreeAfter mem = .ok lfree ∧
      Hinted { h' with lfree } (xs ++ ⟨n, true⟩ :: (rest ++ ys)) ∧
      (h.Lowest (xs ++ ⟨s, false⟩ :: ys) →
        Lowest { h' with lfree } (xs ++ ⟨n, true⟩ :: (rest ++ ys))) := by
  rw [Heap.lfreeAfter]
  split
  case isTrue hat =>
    -- `lfree` was the block that is taken, and moves on to the next free block
    obtain ⟨us, ws, lfree, hnext, hsplit, hlfree', hus, hws⟩ :=
      ht.nextFree (hat ▸ hmem) ht.length_lt_fuel
    have ht' : h'.Tiles ((xs ++ us) ++ ws) := by
      rw [List.append_assoc, ← hsplit]
      exact ht
    have hfree : lfree = h'.heapEnd ∨ ∃ c cs, ws = c :: cs ∧ c.used = false := by
      cases ws with
      | nil =>
        left
        have htotal := ht'.total_eq
        rw [List.append_nil, ← hlfree'] at htotal
        exact BitVec.eq_of_toNat_eq htotal
      | cons c cs => exact .inr ⟨c, cs, rfl, hws c (by simp)⟩
    refine ⟨lfree, ?_, ?_, ?_⟩
    · refine exec_bind_ok.mpr ⟨lfree, hnext, exec_bind_ok.mpr ⟨(), rtAssert_eq_ok.mpr ?_, rfl⟩⟩
      obtain hend | ⟨c, cs, rfl, hc⟩ := hfree
      · exact .inl hend
      · exact .inr ((ht'.header hlfree').used_eq_zero.mpr hc)
    · obtain hend | ⟨⟨m, f⟩, cs, rfl, hc⟩ := hfree
      · exact .inl hend
      · simp only at hc
        subst hc
        right
        refine ⟨m, ?_⟩
        rw [hsplit, hlfree', ← List.append_assoc]
        simp
    · intro hlow o m hhas
      rw [hsplit, ← List.append_assoc, has_append, has_append] at hhas
      obtain (hxs | hus') | hws' := hhas
      · -- there is no free block before the one that is taken
        have hle := hlow o m (by simp [hxs])
        have hbounds := hxs.bounds
        have hsize := (ht.size _ (List.mem_append_left _ hxs.member)).1
        rw [← hlfree, ← hat, hmem] at hle
        omega
      · have := hus _ hus'.member
        simp at this
      · have := hws'.bounds.1
        rw [hlfree']
        simpa using this
  case isFalse hne =>
    have hne : h'.lfree.toNat ≠ total xs := by
      rw [← hmem]
      exact fun heq => hne (BitVec.eq_of_toNat_eq heq.symm)
    refine ⟨h'.lfree, rfl, ?_, ?_⟩
    · obtain hold | ⟨m, hhas⟩ := hi.hinted
      · exact .inl (by rw [hlfree, hold, hend])
      · right
        refine ⟨m, (has_take hsize).mpr ?_⟩
        rw [hlfree] at hne ⊢
        simp only [has_append, has_cons, Nat.zero_add] at hhas
        obtain hxs | ⟨heq, -⟩ | hys := hhas
        · exact .inl hxs
        · exact absurd heq hne
        · exact .inr (.inr (.inr hys))
    · intro hlow o m hhas
      show h'.lfree.toNat ≤ o
      rw [hlfree]
      obtain hxs | ⟨-, heq⟩ | hrest' | hys := (has_take hsize).mp hhas
      · exact hlow o m (by simp [hxs])
      · simp at heq
      · have := hlow (total xs) s (by simp)
        have := hrest'.bounds.1
        omega
      · exact hlow o m (by simp [hys])

theorem mallocSize_spec (size : BitVec 32) :
    (mallocSize size).toNat % 4 = 0 ∧ 12 ≤ (mallocSize size).toNat ∧
      (rtAlign size rtAlignSize).toNat ≤ (mallocSize size).toNat ∧
      ((mallocSize size).toNat = 12 ∨ mallocSize size = rtAlign size rtAlignSize) := by
  have hmod : (rtAlign size rtAlignSize).toNat % 4 = 0 := by
    rw [toNat_rtAlign]
    omega
  rw [mallocSize, minSizeAligned_eq]
  split
  case isTrue hlt =>
    rw [BitVec.lt_def] at hlt
    exact ⟨rfl, by simp, by omega, .inl rfl⟩
  case isFalse hlt =>
    rw [BitVec.lt_def] at hlt
    exact ⟨hmod, by simpa using hlt, Nat.le_refl _, .inr rfl⟩

/-- What stays of a heap. -/
structure SameRegion (h h' : Heap) : Prop where
  heapPtr : h'.heapPtr = h.heapPtr
  heapEnd : h'.heapEnd = h.heapEnd
  memSizeAligned : h'.memSizeAligned = h.memSizeAligned

/-- A new heap is one free block. -/
theorem rtSystemHeapInit_inv {h₀ : Heap} {beginAddr endAddr : BitVec 32} (hused : h₀.usedMem = 0)
    (h_init : rtSystemHeapInit beginAddr endAddr h₀ = some h) :
    h.Inv [⟨h.memSizeAligned.toNat + 12, false⟩] ∧
      h.Lowest [⟨h.memSizeAligned.toNat + 12, false⟩] := by
  have hbegin := toNat_rtAlign beginAddr
  have hend := toNat_rtAlignDown endAddr
  simp only [rtSystemHeapInit, sizeofStructMem_eq] at h_init
  split at h_init
  case isFalse => simp at h_init
  case isTrue hcond =>
    obtain ⟨hlt, hle⟩ := hcond
    rw [BitVec.lt_def] at hlt
    rw [BitVec.le_def] at hle
    generalize rtAlign beginAddr rtAlignSize = b at hbegin h_init hle
    generalize rtAlignDown endAddr rtAlignSize = e at hend h_init hlt hle
    have hsub : (e - 2 * 12).toNat + 24 = e.toNat := by bv_omega
    have hsize : (e - b - 2 * 12).toNat + 24 + b.toNat = e.toNat := by bv_omega
    generalize e - b - 2 * 12 = size at hsize h_init
    have hlast : (size + 12).toNat = size.toNat + 12 := by bv_omega
    generalize size + 12 = last at hlast h_init
    have hb_mod : b.toNat % 4 = 0 := by omega
    have hsize_mod : size.toNat % 4 = 0 := by omega
    have hlt' := e.isLt
    obtain rfl := Option.some.inj h_init
    have hzero : (BitVec.toNat (0 : BitVec 32)) = 0 := rfl
    refine ⟨⟨⟨⟨?_, trivial⟩, ?_, ?_, hlast, ?_, hb_mod, ?_⟩, List.isChain_singleton _, ?_, ?_, ?_⟩, ?_⟩
    · simp only [put, hzero]
      rw [Function.update_of_ne (by omega), Function.update_self]
      exact ⟨rfl, rfl, by simpa using hlast, rfl⟩
    · simp [hlast]
    · simp only [put, Function.update_self]
      exact ⟨rfl, rfl, rfl⟩
    · simp only [List.mem_singleton, forall_eq]
      omega
    · show b.toNat + last.toNat + 12 < 2 ^ 32
      omega
    · right
      exact ⟨size.toNat + 12, by simp⟩
    · show h₀.usedMem.toNat = _
      simp [hused]
    · simp
    · intro o s _
      exact Nat.zero_le _

/-- `rt_malloc` finds nothing, or takes a block. -/
theorem Inv.rtMalloc_cases (hi : h.Inv bs) (hroom : 12 ≤ h.memSizeAligned.toNat)
    (size : BitVec 32) :
    (h.rtMalloc size = .ok (h, none) ∧ (size = 0 ∨ h.memSizeAligned < rtAlign size rtAlignSize ∨
      h.firstFit (mallocSize size) h.fuel h.lfree = .ok none)) ∨
    ∃ h' xs s ys n rest, h.rtMalloc size = .ok (h', some (h.dataAt (total xs))) ∧
      bs = xs ++ ⟨s, false⟩ :: ys ∧ n + total rest = s ∧ (rest = [] ∨ ∃ m, rest = [⟨m, false⟩]) ∧
      (mallocSize size).toNat + 12 ≤ n ∧ n < (mallocSize size).toNat + 36 ∧
      (mallocSize size).toNat < h.memSizeAligned.toNat ∧ h'.Inv (xs ++ ⟨n, true⟩ :: (rest ++ ys)) ∧
      (h.Lowest bs → h'.Lowest (xs ++ ⟨n, true⟩ :: (rest ++ ys))) ∧ h.SameRegion h' := by
  by_cases hzero : size = 0
  · refine .inl ⟨?_, .inl hzero⟩
    rw [Heap.rtMalloc, if_pos hzero]
    rfl
  by_cases hlarge : h.memSizeAligned < rtAlign size rtAlignSize
  · refine .inl ⟨?_, .inr (.inl hlarge)⟩
    rw [Heap.rtMalloc, if_neg hzero, if_pos hlarge]
    rfl
  obtain ⟨hmod, hmin, hle, hcases⟩ := mallocSize_spec size
  have hfits : mallocSize size ≤ h.memSizeAligned := by
    rw [BitVec.lt_def] at hlarge
    rw [BitVec.le_def]
    obtain heq | heq := hcases
    · omega
    · rw [heq]
      omega
  -- the blocks from `lfree` on
  obtain ⟨xs₀, ys₀, rfl, hlfree⟩ : ∃ xs ys, bs = xs ++ ys ∧ h.lfree.toNat = total xs := by
    obtain hend | ⟨s, hhas⟩ := hi.hinted
    · exact ⟨bs, [], by simp, by rw [hend, hi.tiles.total_eq]⟩
    · obtain ⟨xs, ys, hbs, heq⟩ := has_iff_split.mp hhas
      exact ⟨xs, _, hbs, by simpa using heq⟩
  obtain hnone | ⟨us, s, ws, mem, hfound, rfl, hmem, hdata, hstrict⟩ :=
    hi.tiles.firstFit hlfree hfits hi.tiles.length_lt_fuel
  · refine .inl ⟨?_, .inr (.inr hnone)⟩
    rw [Heap.rtMalloc, if_neg hzero, if_neg hlarge]
    exact exec_bind_ok.mpr ⟨none, hnone, rfl⟩
  · right
    rw [← List.append_assoc] at hi ⊢
    obtain ⟨n, rest, hn, hn', hsize, hrest, ht', mem', maxMem, htake⟩ :=
      hi.tiles.takeBlock hmem hmod hdata
    obtain ⟨lfree, hlfree', hhinted, hlowest⟩ := hi.lfreeAfter hmem hsize (by omega) ht'
      (by rw [htake]) (by rw [htake])
    obtain ⟨k, hk⟩ : ∃ k, k = h.takeBlock mem (mallocSize size) := ⟨_, rfl⟩
    rw [← hk] at ht' hlfree' hhinted hlowest htake
    have hdataAt := hi.tiles.toNat_dataAt
    have hlt := hi.tiles.total_lt
    have hroom' := hi.tiles.room
    have hmod' := hi.tiles.total_mod
    have haligned := hi.tiles.aligned
    simp only at hlt
    have haddr : h.heapPtr + mem + sizeofStructMem = h.dataAt (total (xs₀ ++ us)) := by
      rw [sizeofStructMem_eq]
      bv_omega
    refine ⟨{ k with lfree }, xs₀ ++ us, s, ws, n, rest, ?_, rfl, hsize, hrest, hn, hn', hstrict, ?_,
      hlowest, ?_⟩
    · rw [Heap.rtMalloc, if_neg hzero, if_neg hlarge]
      refine exec_bind_ok.mpr ⟨some mem, hfound, ?_⟩
      simp only [← hk]
      refine exec_bind_ok.mpr ⟨lfree, ?_, ?_⟩
      · exact hlfree'
      have hk_ptr : k.heapPtr = h.heapPtr := by rw [htake]
      have hk_end : k.heapEnd = h.heapEnd := by rw [htake]
      rw [hk_ptr, hk_end]
      refine exec_bind_ok.mpr ⟨(), rtAssert_eq_ok.mpr ?_, ?_⟩
      · rw [haddr, BitVec.le_def]
        bv_omega
      refine exec_bind_ok.mpr ⟨(), rtAssert_eq_ok.mpr ?_, ?_⟩
      · apply BitVec.eq_of_toNat_eq
        rw [haddr, BitVec.toNat_umod, hdataAt]
        show _ % 4 = 0
        omega
      refine exec_bind_ok.mpr ⟨(), rtAssert_eq_ok.mpr ?_, ?_⟩
      · rw [lowMask_two, and_lowMask_eq_zero]
        bv_omega
      rw [haddr]
      rfl
    · refine ⟨ht', hi.coalesced.take hrest, hhinted, ?_, fun o m hhas => ?_⟩
      case refine_2 =>
        obtain hxs | ⟨-, heq⟩ | hrest' | hys := (has_take hsize).mp hhas
        · exact hi.data o m (has_append.mpr (.inl hxs))
        · obtain rfl : m = n := by simpa using heq
          omega
        · obtain rfl | ⟨r, rfl⟩ := hrest <;> simp at hrest'
        · exact hi.data o m (has_append.mpr (.inr (.inr (by rwa [Nat.zero_add]))))
      have hused := hi.usedMem
      have hle := usedTotal_le (xs₀ ++ us ++ ⟨s, false⟩ :: ws)
      have htotal := hi.tiles.total_eq
      have hfree : usedTotal rest = 0 := by
        obtain rfl | ⟨m, rfl⟩ := hrest <;> simp
      simp only [usedTotal_append, usedTotal_cons, Bool.false_eq_true, if_false, if_true,
        hfree] at hused ⊢
      have husedMem : k.usedMem = h.usedMem + BitVec.ofNat 32 n := by rw [htake]
      show k.usedMem.toNat = _
      have hxs := usedTotal_le (xs₀ ++ us)
      have hws := usedTotal_le ws
      rw [usedTotal_append] at hxs
      rw [husedMem, BitVec.toNat_add, BitVec.toNat_ofNat]
      omega
    · rw [htake]
      exact ⟨rfl, rfl, rfl⟩

/-- `rt_malloc`: the blocks in use stay, and one more comes into use. -/
theorem Inv.rtMalloc (hi : h.Inv bs) (hroom : 12 ≤ h.memSizeAligned.toNat) (size : BitVec 32) :
    h.rtMalloc size = .ok (h, none) ∨
    ∃ h' bs' o n, h.rtMalloc size = .ok (h', some (h.dataAt o)) ∧ h'.Inv bs' ∧
      (h.Lowest bs → h'.Lowest bs') ∧ h.SameRegion h' ∧ Has 0 bs' o ⟨n, true⟩ ∧
      (mallocSize size).toNat + 12 ≤ n ∧ n < (mallocSize size).toNat + 36 ∧
      ∀ o' m, Has 0 bs o' ⟨m, true⟩ → o' ≠ o ∧ Has 0 bs' o' ⟨m, true⟩ := by
  obtain ⟨hnone, -⟩ | ⟨h', xs, s, ys, n, rest, hsome, rfl, hsize, hrest, hn, hn', -, hi', hlow, hsame⟩ :=
    hi.rtMalloc_cases hroom size
  · exact .inl hnone
  · refine .inr ⟨h', _, total xs, n, hsome, hi', hlow, hsame, by simp, hn, hn', ?_⟩
    intro o m hhas
    have hs := (hi.tiles.size ⟨s, false⟩ (by simp)).1
    simp only [has_append, has_cons, Nat.zero_add, Block.mk.injEq] at hhas
    obtain hxs | ⟨-, -, hused⟩ | hys := hhas
    · have hbounds := hxs.bounds
      have hm := (hi.tiles.size _ (List.mem_append_left _ hxs.member)).1
      refine ⟨?_, (has_take hsize).mpr (.inl hxs)⟩
      simp only at hbounds hm
      omega
    · exact absurd hused (by simp)
    · have hbounds := hys.bounds
      refine ⟨?_, (has_take hsize).mpr (.inr (.inr (.inr hys)))⟩
      simp only at hbounds hs
      omega

theorem Inv.dataAt (hi : h.Inv (xs ++ b :: ys)) :
    h.dataAt (total xs) - sizeofStructMem - h.heapPtr = BitVec.ofNat 32 (total xs) ∧
      (BitVec.ofNat 32 (total xs)).toNat = total xs := by
  have hdata := hi.tiles.toNat_dataAt
  have hroom := hi.tiles.room
  have hlt := hi.tiles.total_lt
  have hofNat : (BitVec.ofNat 32 (total xs)).toNat = total xs := by
    rw [BitVec.toNat_ofNat, Nat.mod_eq_of_lt (by omega)]
  refine ⟨?_, hofNat⟩
  rw [sizeofStructMem_eq]
  bv_omega

theorem Tiles.setFree (ht : h.Tiles (xs ++ ⟨s, u⟩ :: ys)) (hptr : ptr.toNat = total xs) :
    (h.modify ptr fun m => { m with used := 0, magic := heapMagic }).Tiles
      (xs ++ ⟨s, false⟩ :: ys) := by
  apply ht.mark hptr
  intro prev next hh
  exact ⟨rfl, rfl, hh.next, hh.prev⟩

/-- `rt_free` of a block in use: the other blocks in use stay. -/
theorem Inv.rtFree (hi : h.Inv bs) (hhas : Has 0 bs o ⟨s, true⟩) :
    ∃ h' bs', h.rtFree (some (h.dataAt o)) = .ok h' ∧ h'.Inv bs' ∧
      (h.Lowest bs → h'.Lowest bs') ∧ h.SameRegion h' ∧
      ∀ o' m, Has 0 bs' o' ⟨m, true⟩ ↔ Has 0 bs o' ⟨m, true⟩ ∧ o' ≠ o := by
  obtain ⟨xs, ys, rfl, ho⟩ := has_iff_split.mp hhas
  rw [Nat.zero_add] at ho
  subst ho
  obtain ⟨hmem, hmem_eq⟩ := hi.dataAt
  have hdata := hi.tiles.toNat_dataAt
  have hroom := hi.tiles.room
  have hlt := hi.tiles.total_lt
  have haligned := hi.tiles.aligned
  have hmod := hi.tiles.total_mod
  have hheader := hi.tiles.header hmem_eq
  have hsize := hi.data (total xs) s (by simp)
  simp only at hlt hheader
  obtain ⟨mem, hmem_def⟩ : ∃ mem, mem = BitVec.ofNat 32 (total xs) := ⟨_, rfl⟩
  rw [← hmem_def] at hmem hmem_eq hheader
  -- the heap that `plug_holes` finds
  obtain ⟨k, hk⟩ : ∃ k : Heap, k = { h.modify mem fun m => { m with used := 0, magic := heapMagic } with
      lfree := if mem < h.lfree then mem else h.lfree
      usedMem := h.usedMem - BitVec.ofNat 32 s } := ⟨_, rfl⟩
  have ht : k.Tiles (xs ++ ⟨s, false⟩ :: ys) := hk ▸ hi.tiles.setFree hmem_eq
  obtain ⟨hxs, hys, -⟩ := coalesced_append.mp hi.coalesced
  obtain ⟨h', bs', hplug, hjoined, hbs', -⟩ := ht.plugHoles hmem_eq hxs hys
  have hnext : ((h.modify mem fun m => { m with used := 0, magic := heapMagic }).get mem).next - mem =
      BitVec.ofNat 32 s := by
    have hkept : ((h.modify mem fun m => { m with used := 0, magic := heapMagic }).get mem).next =
        (h.get mem).next := by simp [modify, put, get]
    have hnext := hheader.next
    rw [hkept]
    bv_omega
  have hused : h.usedMem.toNat = usedTotal xs + (s + usedTotal ys) := by
    simpa using hi.usedMem
  refine ⟨h', bs', ?_, ?_, ?_, ?_, ?_⟩
  · rw [Heap.rtFree]
    refine exec_bind_ok.mpr ⟨(), rtAssert_eq_ok.mpr ?_, ?_⟩
    · rw [lowMask_two, and_lowMask_eq_zero, hdata]
      omega
    refine exec_bind_ok.mpr ⟨(), rtAssert_eq_ok.mpr ?_, ?_⟩
    · rw [BitVec.le_def, BitVec.lt_def, hdata, BitVec.toNat_add]
      omega
    simp only [hmem]
    refine exec_bind_ok.mpr ⟨(), rtAssert_eq_ok.mpr ?_, ?_⟩
    · rw [hheader.used]
      simp
    refine exec_bind_ok.mpr ⟨(), rtAssert_eq_ok.mpr hheader.magic, ?_⟩
    rw [← hplug, hk, ← hnext]
    rfl
  · have hk_used : k.usedMem.toNat = usedTotal (xs ++ ⟨s, false⟩ :: ys) := by
      have hs : s < 2 ^ 32 := by omega
      rw [hk]
      show (h.usedMem - BitVec.ofNat 32 s).toNat = _
      simp only [usedTotal_append, usedTotal_cons, Bool.false_eq_true, if_false]
      bv_omega
    refine ⟨hjoined.tiles, hbs', hjoined.hinted ?_, ?_, fun o m hhas => ?_⟩
    · rw [Hinted, hk]
      show (if mem < h.lfree then mem else h.lfree) = h.heapEnd ∨ ∃ s', Has 0 _
        (if mem < h.lfree then mem else h.lfree).toNat ⟨s', false⟩
      split
      case isTrue => exact .inr ⟨s, by simp [hmem_eq]⟩
      case isFalse =>
        refine hi.hinted.imp id ?_
        rintro ⟨m, hhas⟩
        refine ⟨m, ?_⟩
        simp only [has_append, has_cons, Block.mk.injEq, reduceCtorEq, and_false, false_or] at hhas ⊢
        exact hhas.imp_right .inr
    · rw [hjoined.usedMem, hjoined.usedTotal_eq, hk_used]
    · rw [hjoined.inUse] at hhas
      have hold : Has 0 (xs ++ ⟨s, true⟩ :: ys) o ⟨m, true⟩ := by
        simp only [has_append, has_cons, Block.mk.injEq, reduceCtorEq, and_false, false_or] at hhas ⊢
        exact hhas.imp_right .inr
      exact hi.data o m hold
  · intro hlow
    apply hjoined.lowest
    intro o m hhas
    rw [hk]
    show (if mem < h.lfree then mem else h.lfree).toNat ≤ o
    simp only [has_append, has_cons, Nat.zero_add, Block.mk.injEq] at hhas
    have hle : (if mem < h.lfree then mem else h.lfree).toNat ≤ mem.toNat ∧
        (if mem < h.lfree then mem else h.lfree).toNat ≤ h.lfree.toNat := by
      split
      case isTrue hlt => rw [BitVec.lt_def] at hlt; omega
      case isFalse hlt => rw [BitVec.lt_def] at hlt; omega
    obtain hxs | ⟨heq, -⟩ | hys := hhas
    · exact hle.2.trans (hlow o m (by simp [hxs]))
    · rw [heq, ← hmem_eq]
      exact hle.1
    · exact hle.2.trans (hlow o m (by simp [hys]))
  · have hk_same : h.SameRegion k := by
      rw [hk]
      exact ⟨rfl, rfl, rfl⟩
    exact ⟨hjoined.heapPtr.trans hk_same.heapPtr, hjoined.heapEnd.trans hk_same.heapEnd,
      hjoined.memSizeAligned.trans hk_same.memSizeAligned⟩
  · intro o m
    rw [hjoined.inUse, ← has_around hi.tiles.pos]
    simp

/-- A block in use is cut to `size` bytes of data, and a free block is made of the rest. -/
theorem Inv.shrink (hi : h.Inv bs) (hhas : Has 0 bs o ⟨n + s, true⟩) (hmem : mem.toNat = o)
    (hsize : size.toNat + 12 = n) (hmod : n % 4 = 0) (hn : 16 ≤ n) (hs : 12 ≤ s) :
    ∃ h' bs', ({ h with usedMem := h.usedMem - BitVec.ofNat 32 s }.splitBlock mem size).plugHoles
        (mem + sizeofStructMem + size) = .ok h' ∧ h'.Inv bs' ∧
      (h.Lowest bs → (h.lfree.toNat ≤ o ∨ h.lfree = (h.get mem).next ∧ h.lfree ≠ h.heapEnd) →
        h'.Lowest bs') ∧ h.SameRegion h' ∧
      ∀ o' m, Has 0 bs' o' ⟨m, true⟩ ↔ (Has 0 bs o' ⟨m, true⟩ ∧ o' ≠ o) ∨ (o' = o ∧ m = n) := by
  obtain ⟨xs, ys, rfl, ho⟩ := has_iff_split.mp hhas
  rw [Nat.zero_add] at ho
  subst ho
  have hlt := hi.tiles.total_lt
  have hroom := hi.tiles.room
  have hnext := hi.tiles.next hmem
  simp only [total_append, total_cons, total_nil, Nat.add_zero] at hlt hnext
  -- `k` is the heap after the split, before the holes are plugged
  obtain ⟨k, hk⟩ : ∃ k, k = { h with usedMem := h.usedMem - BitVec.ofNat 32 s }.splitBlock mem size :=
    ⟨_, rfl⟩
  have ht : k.Tiles ((xs ++ [⟨n, true⟩]) ++ ⟨s, false⟩ :: ys) := by
    rw [hk, List.append_assoc]
    exact Tiles.split (h := { h with usedMem := _ }) hi.tiles hmem hsize hmod hs
  obtain ⟨mem', hsame⟩ := splitBlock_same { h with usedMem := h.usedMem - BitVec.ofNat 32 s } mem size
  rw [← hk] at hsame ⊢
  have hk_lfree : k.lfree = h.lfree := by rw [hsame]
  have hk_end : k.heapEnd = h.heapEnd := by rw [hsame]
  have hmem2 : (mem + sizeofStructMem + size).toNat = total (xs ++ [⟨n, true⟩]) := by
    rw [total_append, sizeofStructMem_eq]
    simp only [total_cons, total_nil]
    bv_omega
  obtain ⟨hxs, hys, -⟩ := coalesced_append.mp hi.coalesced
  have hxs' : Coalesced (xs ++ [⟨n, true⟩]) :=
    coalesced_append.mpr ⟨hxs, List.isChain_nil, by simp⟩
  obtain ⟨h', bs', hplug, hjoined, hbs', hlowest⟩ := ht.plugHoles hmem2 hxs' hys
  -- the split makes one free block, and the blocks in use are as before but for the cut one
  have hfree : ∀ o m, Has 0 ((xs ++ [⟨n, true⟩]) ++ ⟨s, false⟩ :: ys) o ⟨m, false⟩ ↔
      Has 0 (xs ++ ⟨n + s, true⟩ :: ys) o ⟨m, false⟩ ∨
        (o = total (xs ++ [⟨n, true⟩]) ∧ m = s) := by
    intro o m
    simp only [has_append, has_cons, has_nil, Block.mk.injEq, reduceCtorEq, and_false, and_true,
      false_or, or_false, total_append, total_cons, total_nil, Nat.zero_add, Nat.add_zero,
      Nat.add_assoc]
    rw [← or_assoc, or_right_comm]
  have hhinted : k.Hinted ((xs ++ [⟨n, true⟩]) ++ ⟨s, false⟩ :: ys) := by
    rw [Hinted, hk_lfree, hk_end]
    refine hi.hinted.imp id ?_
    rintro ⟨m, hhas⟩
    exact ⟨m, (hfree _ m).mpr (.inl hhas)⟩
  have hinUse : ∀ o m, Has 0 bs' o ⟨m, true⟩ ↔ Has 0 xs o ⟨m, true⟩ ∨ (o = total xs ∧ m = n) ∨
      Has (total xs + (n + s)) ys o ⟨m, true⟩ := by
    intro o m
    rw [hjoined.inUse]
    simp [Nat.add_assoc]
  refine ⟨h', bs', hplug, ?_, ?_, ?_, fun o m => ?_⟩
  · refine ⟨hjoined.tiles, hbs', hjoined.hinted hhinted, ?_, fun o m hhas => ?_⟩
    -- `used_mem` goes down by the rest, which is no longer in use
    · have hused : h.usedMem.toNat = usedTotal xs + (n + s + usedTotal ys) := by
        simpa using hi.usedMem
      rw [hjoined.usedMem, hjoined.usedTotal_eq, hsame]
      show (h.usedMem - BitVec.ofNat 32 s).toNat = _
      have hs' : s < 2 ^ 32 := by omega
      simp only [usedTotal_append, usedTotal_cons, usedTotal_nil, Bool.false_eq_true, if_false,
        if_true]
      bv_omega
    · obtain hxs | ⟨rfl, rfl⟩ | hys := (hinUse o m).mp hhas
      · exact hi.data o m (by simp [hxs])
      · exact hn
      · exact hi.data o m (by simp [hys])
  · intro hlow hcond
    have hbut : k.LowestBut ((xs ++ [⟨n, true⟩]) ++ ⟨s, false⟩ :: ys) (total (xs ++ [⟨n, true⟩])) := by
      intro o m hhas hne
      rw [hk_lfree]
      obtain hold | ⟨heq, -⟩ := (hfree o m).mp hhas
      · exact hlow o m hold
      · exact absurd heq hne
    obtain hle | ⟨heq, hne⟩ := hcond
    · -- the new free block is above `lfree`
      apply hjoined.lowest
      intro o m hhas
      by_cases ho : o = total (xs ++ [⟨n, true⟩])
      · rw [hk_lfree, ho, total_append]
        omega
      · exact hbut o m hhas ho
    · -- it takes in `lfree`
      refine hlowest hhinted ?_ (by rwa [hk_lfree, hk_end]) hbut
      apply BitVec.eq_of_toNat_eq
      rw [ht.next hmem2, hk_lfree, heq, hnext]
      simp
  · exact ⟨by rw [hjoined.heapPtr, hsame], by rw [hjoined.heapEnd, hsame],
      by rw [hjoined.memSizeAligned, hsame]⟩
  · rw [hinUse, ← has_around hi.tiles.pos]
    rw [← or_assoc, or_right_comm]

/-- `rt_realloc` of the block at `addr` splits it in place. -/
def SplitsInPlace (h : Heap) (addr newsize : BitVec 32) : Prop :=
  let newsize := rtAlign newsize rtAlignSize
  let ptr := addr - sizeofStructMem - h.heapPtr
  newsize ≤ h.memSizeAligned ∧ newsize ≠ 0 ∧
    newsize + sizeofStructMem + minSize < (h.get ptr).next - ptr - sizeofStructMem

/-- `rt_realloc` makes a free block below `lfree` that does not take in the block of `lfree`. -/
def Hides (h : Heap) (addr newsize : BitVec 32) : Prop :=
  let ptr := addr - sizeofStructMem - h.heapPtr
  h.SplitsInPlace addr newsize ∧ ptr < h.lfree ∧ ¬ (h.lfree = (h.get ptr).next ∧ h.lfree ≠ h.heapEnd)

/-- What `rt_realloc` does with a block in use: it fails, frees the block, or grants one. -/
theorem Inv.rtRealloc (hi : h.Inv bs) (hroom : 12 ≤ h.memSizeAligned.toNat)
    (hhas : Has 0 bs o ⟨s, true⟩) (newsize : BitVec 32) :
    ∃ h' bs' r, h.rtRealloc (some (h.dataAt o)) newsize = .ok (h', r) ∧ h'.Inv bs' ∧
      (h.Lowest bs → ¬ h.Hides (h.dataAt o) newsize → h'.Lowest bs') ∧ h.SameRegion h' ∧
      ((r = none ∧ rtAlign newsize rtAlignSize ≠ 0 ∧ bs' = bs) ∨
        (r = none ∧ rtAlign newsize rtAlignSize = 0 ∧
          ∀ o' m, Has 0 bs' o' ⟨m, true⟩ ↔ Has 0 bs o' ⟨m, true⟩ ∧ o' ≠ o) ∨
        ∃ o₁ n, r = some (h.dataAt o₁) ∧ Has 0 bs' o₁ ⟨n, true⟩ ∧
          (rtAlign newsize rtAlignSize).toNat + 12 ≤ n ∧
          ∀ o' m, Has 0 bs o' ⟨m, true⟩ → o' ≠ o → o' ≠ o₁ ∧ Has 0 bs' o' ⟨m, true⟩) := by
  obtain ⟨xs, ys, hbs, ho⟩ := has_iff_split.mp hhas
  rw [Nat.zero_add] at ho
  have hi' := hi
  rw [hbs] at hi'
  obtain ⟨hmem, hmem_eq⟩ := hi'.dataAt
  have hdata := hi'.tiles.toNat_dataAt
  have hlt := hi'.tiles.total_lt
  have hroom' := hi'.tiles.room
  have hheader := hi'.tiles.header hmem_eq
  have hs := hi.data o s hhas
  have hs_mod := (hi.tiles.size _ hhas.member).2
  rw [← ho] at hmem hmem_eq hdata hheader hlt
  simp only at hlt hheader hs_mod
  -- the size is aligned here, and once more in `rt_malloc`
  obtain ⟨k, hk⟩ : ∃ k, k = rtAlign newsize rtAlignSize := ⟨_, rfl⟩
  have hk_mod : k.toNat % 4 = 0 := by
    rw [hk, toNat_rtAlign]
    omega
  have hk_le : k.toNat ≤ (mallocSize k).toNat := by
    have hle := (mallocSize_spec k).2.2.1
    rwa [rtAlign_of_mod hk_mod] at hle
  rw [← hk]
  obtain ⟨mem, hmem_def⟩ : ∃ mem, mem = BitVec.ofNat 32 o := ⟨_, rfl⟩
  rw [← hmem_def] at hmem hmem_eq hheader
  have hsize : ((h.get mem).next - mem - sizeofStructMem).toNat + 12 = s := by
    have hnext := hheader.next
    rw [sizeofStructMem_eq]
    bv_omega
  have hlegal : ¬ (h.dataAt o < h.heapPtr ∨ h.heapPtr + h.heapEnd ≤ h.dataAt o) := by
    rw [BitVec.lt_def, BitVec.le_def, hdata, BitVec.toNat_add]
    omega
  -- the branches come in the order of the source: too large, 0, the same size, a cut, a move
  by_cases hlarge : h.memSizeAligned < k
  · refine ⟨h, bs, none, ?_, hi, fun hlow _ => hlow, ⟨rfl, rfl, rfl⟩, .inl ⟨rfl, ?_, rfl⟩⟩
    · simp only [Heap.rtRealloc, ← hk, if_pos hlarge]
      rfl
    · intro hz
      rw [hz, BitVec.lt_def] at hlarge
      simp at hlarge
  by_cases hzero : k = 0
  · obtain ⟨h', bs', hfree, hi', hlow, hsame, hinUse⟩ := hi.rtFree hhas
    refine ⟨h', bs', none, ?_, hi', fun hl _ => hlow hl, hsame, .inr (.inl ⟨rfl, hzero, hinUse⟩)⟩
    simp only [Heap.rtRealloc, ← hk, if_neg hlarge, if_pos hzero]
    exact exec_bind_ok.mpr ⟨h', hfree, rfl⟩
  by_cases hequal : (h.get mem).next - mem - sizeofStructMem = k
  · refine ⟨h, bs, some (h.dataAt o), ?_, hi, fun hlow _ => hlow, ⟨rfl, rfl, rfl⟩,
      .inr (.inr ⟨o, s, rfl, hhas, ?_, fun o' m hold hne => ⟨hne, hold⟩⟩)⟩
    · simp only [Heap.rtRealloc, ← hk, if_neg hlarge, if_neg hzero, if_neg hlegal, hmem, if_pos hequal]
      rfl
    · rw [← hequal]
      omega
  -- the rest is large enough for a block of its own
  by_cases hsplit : k + sizeofStructMem + minSize < (h.get mem).next - mem - sizeofStructMem
  · have hlarge' : k ≤ h.memSizeAligned := BitVec.not_lt.mp hlarge
    have hend := hi.tiles.end_eq
    obtain ⟨r, hr, hr_min⟩ : ∃ r, s = k.toNat + 12 + r ∧ 12 ≤ r := by
      refine ⟨s - (k.toNat + 12), ?_, ?_⟩
      all_goals
        rw [sizeofStructMem_eq, minSize, BitVec.lt_def] at hsplit
        rw [sizeofStructMem_eq] at hsize
        rw [BitVec.le_def] at hlarge'
        bv_omega
    have hk_min : 16 ≤ k.toNat + 12 := by
      have : k.toNat ≠ 0 := fun heq => hzero (BitVec.eq_of_toNat_eq heq)
      omega
    obtain ⟨h', bs', hplug, hi₁, hlow, hsame, hinUse⟩ :=
      hi.shrink (hr ▸ hhas) hmem_eq rfl (by omega) hk_min hr_min
    have hrest : (h.get mem).next - mem - sizeofStructMem - k = BitVec.ofNat 32 r := by
      bv_omega
    refine ⟨h', bs', some (h.dataAt o), ?_, hi₁, fun hl hnot => hlow hl ?_, hsame,
      .inr (.inr ⟨o, k.toNat + 12, rfl, (hinUse _ _).mpr (.inr ⟨rfl, rfl⟩), Nat.le_refl _,
        fun o' m hold hne => ⟨hne, (hinUse _ _).mpr (.inl ⟨hold, hne⟩)⟩⟩)⟩
    · simp only [Heap.rtRealloc, ← hk, if_neg hlarge, if_neg hzero, if_neg hlegal, hmem,
        if_neg hequal, if_pos hsplit, hrest]
      exact exec_bind_ok.mpr ⟨h', hplug, rfl⟩
    -- `lfree` goes wrong only where the source forgets it: the rest is below it, not joined to it
    · by_contra hcond
      rw [not_or] at hcond
      refine hnot ⟨?_, ?_, ?_⟩
      · simp only [SplitsInPlace, ← hk, hmem]
        exact ⟨hlarge', hzero, hsplit⟩
      · rw [hmem, BitVec.lt_def]
        omega
      · rw [hmem]
        exact hcond.2
  -- `rt_malloc` grants another block, or the call fails and the old one stays
  · have hfails : h.rtMalloc k = .ok (h, none) →
        h.rtRealloc (some (h.dataAt o)) newsize = .ok (h, none) := by
      intro hnone
      simp only [Heap.rtRealloc, ← hk, if_neg hlarge, if_neg hzero, if_neg hlegal, hmem,
        if_neg hequal, if_neg hsplit]
      exact exec_bind_ok.mpr ⟨_, hnone, rfl⟩
    have hmoves : ∀ h₁ h₂ addr, h.rtMalloc k = .ok (h₁, some addr) →
        h₁.rtFree (some (h.dataAt o)) = .ok h₂ →
        h.rtRealloc (some (h.dataAt o)) newsize = .ok (h₂, some addr) := by
      intro h₁ h₂ addr hsome hfree
      simp only [Heap.rtRealloc, ← hk, if_neg hlarge, if_neg hzero, if_neg hlegal, hmem,
        if_neg hequal, if_neg hsplit]
      exact exec_bind_ok.mpr ⟨_, hsome, exec_bind_ok.mpr ⟨_, hfree, rfl⟩⟩
    obtain hnone | ⟨h₁, bs₁, o₁, n, hsome, hi₁, hlow₁, hsame₁, hhas₁, hn, -, hkept⟩ :=
      hi.rtMalloc hroom k
    · exact ⟨h, bs, none, hfails hnone, hi, fun hl _ => hl, ⟨rfl, rfl, rfl⟩,
        .inl ⟨rfl, hzero, rfl⟩⟩
    · obtain ⟨hne, hhas'⟩ := hkept o s hhas
      obtain ⟨h₂, bs₂, hfree, hi₂, hlow₂, hsame₂, hinUse⟩ := hi₁.rtFree hhas'
      have hdata₁ : h₁.dataAt o = h.dataAt o := by rw [Heap.dataAt, hsame₁.heapPtr, Heap.dataAt]
      rw [hdata₁] at hfree
      refine ⟨h₂, bs₂, some (h.dataAt o₁), hmoves _ _ _ hsome hfree, hi₂,
        fun hl _ => hlow₂ (hlow₁ hl), ⟨?_, ?_, ?_⟩,
        .inr (.inr ⟨o₁, n, rfl, (hinUse _ _).mpr ⟨hhas₁, hne.symm⟩, by omega, ?_⟩)⟩
      · rw [hsame₂.heapPtr, hsame₁.heapPtr]
      · rw [hsame₂.heapEnd, hsame₁.heapEnd]
      · rw [hsame₂.memSizeAligned, hsame₁.memSizeAligned]
      · intro o' m hold hne'
        obtain ⟨hne₁, hnew⟩ := hkept o' m hold
        exact ⟨hne₁, (hinUse _ _).mpr ⟨hnew, hne'⟩⟩

end Heap

end PandoraRobot.Memory
