import PandoraRobot.Memory.HeapSizes

/-! # The search of `rt_malloc`

Which block `rt_malloc` finds, where it looks for it, and whether it comes to an end.
The loop stops below `mem_size_aligned - size`, which is not where the last block ends.
-/

namespace PandoraRobot.Memory

open PandoraRobot.Kernel PandoraRobot.Tiling Heap

namespace Heap

/-- A free block of the chain that is large enough for a request. -/
def Fits (h : Heap) (size ptr : BitVec 32) : Prop :=
  ptr ∈ h.walk h.fuel 0 ∧ (h.get ptr).used = 0 ∧ mallocSize size ≤ h.dataSize ptr

/-- The first of them. -/
def FirstFitting (h : Heap) (size ptr : BitVec 32) : Prop :=
  h.Fits size ptr ∧ ∀ ptr', h.Fits size ptr' → ptr ≤ ptr'

/-- `rt_malloc` fails only where no free block is large enough, and takes the first that is. -/
structure FindsFirst (h : Heap) (size : BitVec 32) : Prop where
  none : ∀ h', h.rtMalloc size = .ok (h', none) → ∀ ptr, ¬ h.Fits size ptr
  some : ∀ h' addr, h.rtMalloc size = .ok (h', some addr) →
    ∃ ptr, addr = h.heapPtr + ptr + sizeofStructMem ∧ h.FirstFitting size ptr

variable {h h' : Heap} {bs xs ys : List Block} {size ptr mem addr : BitVec 32} {fuel s o : Nat}

/-! ## The region -/

theorem SameRegion.refl (h : Heap) : h.SameRegion h := ⟨rfl, rfl, rfl⟩

theorem SameRegion.trans {h₁ h₂ h₃ : Heap} (hr : h₁.SameRegion h₂) (hr' : h₂.SameRegion h₃) :
    h₁.SameRegion h₃ :=
  ⟨hr'.heapPtr.trans hr.heapPtr, hr'.heapEnd.trans hr.heapEnd,
    hr'.memSizeAligned.trans hr.memSizeAligned⟩

theorem splitBlock_region (h : Heap) (ptr size : BitVec 32) :
    h.SameRegion (h.splitBlock ptr size) := by
  obtain ⟨mem, hsame⟩ := splitBlock_same h ptr size
  rw [hsame]
  exact ⟨rfl, rfl, rfl⟩

theorem takeBlock_region (h : Heap) (ptr size : BitVec 32) :
    h.SameRegion (h.takeBlock ptr size) := by
  obtain ⟨heapPtr, heapEnd, hsize⟩ := splitBlock_region h ptr size
  rw [takeBlock]
  split
  · exact ⟨heapPtr, heapEnd, hsize⟩
  · exact ⟨rfl, rfl, rfl⟩

theorem plugHoles_region (hrun : h.plugHoles mem = .ok h') : h.SameRegion h' := by
  simp only [plugHoles, exec_bind_ok, exec_pure_ok] at hrun
  obtain ⟨_, _, _, _, _, _, rfl⟩ := hrun
  split <;> split <;> exact ⟨rfl, rfl, rfl⟩

theorem rtMalloc_region {r : Option (BitVec 32)} (hrun : h.rtMalloc size = .ok (h', r)) :
    h.SameRegion h' := by
  rw [Heap.rtMalloc] at hrun
  split at hrun
  case isTrue =>
    obtain ⟨rfl, -⟩ : h = h' ∧ none = r := by simpa using hrun
    exact .refl h
  case isFalse =>
    split at hrun
    case isTrue =>
      obtain ⟨rfl, -⟩ : h = h' ∧ none = r := by simpa using hrun
      exact .refl h
    case isFalse =>
      simp only [exec_bind_ok] at hrun
      obtain ⟨mem, -, hrun⟩ := hrun
      cases mem with
      | none =>
        obtain ⟨rfl, -⟩ : h = h' ∧ none = r := by simpa using hrun
        exact .refl h
      | some mem =>
        simp only [exec_bind_ok, exec_pure_ok, Prod.mk.injEq] at hrun
        obtain ⟨_, _, _, _, _, _, _, _, rfl, -⟩ := hrun
        obtain ⟨heapPtr, heapEnd, hsize⟩ := takeBlock_region h mem (mallocSize size)
        exact ⟨heapPtr, heapEnd, hsize⟩

theorem rtFree_region {rmem : Option (BitVec 32)} (hrun : h.rtFree rmem = .ok h') :
    h.SameRegion h' := by
  cases rmem with
  | none =>
    obtain rfl : h = h' := by simpa [Heap.rtFree] using hrun
    exact .refl h
  | some addr =>
    simp only [Heap.rtFree, exec_bind_ok] at hrun
    obtain ⟨_, _, _, _, _, _, _, _, hplug⟩ := hrun
    obtain ⟨heapPtr, heapEnd, hsize⟩ := plugHoles_region hplug
    exact ⟨heapPtr, heapEnd, hsize⟩

theorem rtRealloc_region {rmem r : Option (BitVec 32)}
    (hrun : h.rtRealloc rmem size = .ok (h', r)) : h.SameRegion h' := by
  simp only [Heap.rtRealloc] at hrun
  split at hrun
  case isTrue =>
    obtain ⟨rfl, -⟩ : h = h' ∧ none = r := by simpa using hrun
    exact .refl h
  case isFalse =>
    split at hrun
    case isTrue =>
      simp only [exec_bind_ok, exec_pure_ok, Prod.mk.injEq] at hrun
      obtain ⟨_, hfree, rfl, -⟩ := hrun
      exact rtFree_region hfree
    case isFalse =>
      cases rmem with
      | none => exact rtMalloc_region hrun
      | some addr =>
        simp only at hrun
        split at hrun
        case isTrue =>
          obtain ⟨rfl, -⟩ : h = h' ∧ some addr = r := by simpa using hrun
          exact .refl h
        case isFalse =>
          split at hrun
          case isTrue =>
            obtain ⟨rfl, -⟩ : h = h' ∧ some addr = r := by simpa using hrun
            exact .refl h
          case isFalse =>
            split at hrun
            case isTrue =>
              simp only [exec_bind_ok, exec_pure_ok, Prod.mk.injEq] at hrun
              obtain ⟨_, hplug, rfl, -⟩ := hrun
              obtain ⟨heapPtr, heapEnd, hsize⟩ := plugHoles_region hplug
              obtain ⟨heapPtr', heapEnd', hsize'⟩ := splitBlock_region _ _ _
              exact ⟨heapPtr.trans heapPtr', heapEnd.trans heapEnd', hsize.trans hsize'⟩
            case isFalse =>
              simp only [exec_bind_ok] at hrun
              obtain ⟨⟨h₁, nmem⟩, hmalloc, hrun⟩ := hrun
              cases nmem with
              | none =>
                obtain ⟨rfl, -⟩ : h₁ = h' ∧ none = r := by simpa using hrun
                exact rtMalloc_region hmalloc
              | some nmem =>
                simp only [exec_bind_ok, exec_pure_ok, Prod.mk.injEq] at hrun
                obtain ⟨_, hfree, rfl, -⟩ := hrun
                exact (rtMalloc_region hmalloc).trans (rtFree_region hfree)

/-! ## What the loop finds -/

theorem firstFit_some (hfound : h.firstFit size fuel ptr = .ok (some mem)) :
    mem < h.memSizeAligned - size ∧ (h.get mem).used = 0 ∧ size ≤ h.dataSize mem := by
  induction fuel generalizing ptr with
  | zero => simp [Heap.firstFit] at hfound
  | succ fuel ih =>
    rw [Heap.firstFit] at hfound
    split at hfound
    case isFalse => simp at hfound
    case isTrue hlt =>
      split at hfound
      case isTrue hfits =>
        obtain rfl : ptr = mem := by simpa using hfound
        exact ⟨hlt, hfits⟩
      case isFalse => exact ih hfound

/-- No block before the one that is found is large enough. -/
theorem Tiles.firstFit_first : ∀ {fuel : Nat} {xs ys : List Block} {ptr : BitVec 32},
    h.Tiles (xs ++ ys) → ptr.toNat = total xs → size ≤ h.memSizeAligned →
    h.firstFit size fuel ptr = .ok (some mem) →
    total xs ≤ mem.toNat ∧
      ∀ o s, Has (total xs) ys o ⟨s, false⟩ → o < mem.toNat → s < size.toNat + 12 := by
  intro fuel
  induction fuel with
  | zero => intro xs ys ptr _ _ _ hfound; simp [Heap.firstFit] at hfound
  | succ fuel ih =>
    intro xs ys ptr ht hptr hsize hfound
    rw [Heap.firstFit] at hfound
    split at hfound
    case isFalse => simp at hfound
    case isTrue hlt =>
      rw [BitVec.lt_def] at hlt
      split at hfound
      case isTrue =>
        obtain rfl : ptr = mem := by simpa using hfound
        -- nothing is between the pointer and the block it is at
        refine ⟨hptr.ge, fun o s hhas hless => ?_⟩
        have hlow := hhas.bounds.1
        omega
      case isFalse hnot =>
        cases ys with
        | nil =>
          -- the end of the heap is never reached as a block
          have htotal := ht.total_eq
          have hend := ht.end_eq
          have hsub := toNat_sub_size h hsize
          rw [List.append_nil] at htotal
          omega
        | cons b ys =>
          have hused := (ht.header hptr).used_eq_zero
          have hdata := ht.dataSize hptr
          have ht' : h.Tiles ((xs ++ [b]) ++ ys) := by simpa using ht
          obtain ⟨hle, hbefore⟩ := ih ht' (ht.next hptr) hsize hfound
          have hsum : total (xs ++ [b]) = total xs + b.size := by simp
          rw [hsum] at hle hbefore
          refine ⟨by omega, fun o s hhas hless => ?_⟩
          obtain ⟨rfl, rfl⟩ | hhas := hhas
          · by_contra hlarge
            refine hnot ⟨hused.mpr rfl, ?_⟩
            rw [BitVec.le_def]
            simp only at hdata
            omega
          · exact hbefore o s hhas hless

/-- A block that is large enough is missed only where the bound of the loop excludes it. -/
theorem Tiles.firstFit_none : ∀ {fuel : Nat} {xs ys : List Block} {ptr : BitVec 32},
    h.Tiles (xs ++ ys) → ptr.toNat = total xs → size ≤ h.memSizeAligned →
    h.firstFit size fuel ptr = .ok none →
    ∀ o s, Has (total xs) ys o ⟨s, false⟩ → size.toNat + 12 ≤ s →
      h.memSizeAligned.toNat ≤ o + size.toNat := by
  intro fuel
  induction fuel with
  | zero => intro xs ys ptr _ _ _ hfound; simp [Heap.firstFit] at hfound
  | succ fuel ih =>
    intro xs ys ptr ht hptr hsize hfound o s hhas hlarge
    rw [Heap.firstFit] at hfound
    split at hfound
    case isFalse hbound =>
      -- the blocks after it are excluded as well
      have hsub := toNat_sub_size h hsize
      have hlow := hhas.bounds.1
      rw [BitVec.lt_def] at hbound
      omega
    case isTrue =>
      split at hfound
      case isTrue => simp at hfound
      case isFalse hnot =>
        cases ys with
        | nil => exact absurd hhas has_nil
        | cons b ys =>
          have hused := (ht.header hptr).used_eq_zero
          have hdata := ht.dataSize hptr
          have ht' : h.Tiles ((xs ++ [b]) ++ ys) := by simpa using ht
          obtain ⟨rfl, rfl⟩ | hhas := hhas
          · refine absurd ⟨hused.mpr rfl, ?_⟩ hnot
            rw [BitVec.le_def]
            simp only at hdata
            omega
          · refine ih ht' (ht.next hptr) hsize hfound o s ?_ hlarge
            simpa using hhas

/-! ## What the call returns -/

theorem rtMalloc_some (hrun : h.rtMalloc size = .ok (h', some addr)) :
    size ≠ 0 ∧ ¬ h.memSizeAligned < rtAlign size rtAlignSize ∧
      ∃ mem, h.firstFit (mallocSize size) h.fuel h.lfree = .ok (some mem) ∧
        addr = h.heapPtr + mem + sizeofStructMem := by
  rw [Heap.rtMalloc] at hrun
  split at hrun
  case isTrue => simp at hrun
  case isFalse hzero =>
    split at hrun
    case isTrue => simp at hrun
    case isFalse hlarge =>
      simp only [exec_bind_ok] at hrun
      obtain ⟨mem, hfound, hrun⟩ := hrun
      cases mem with
      | none => simp at hrun
      | some mem =>
        simp only [exec_bind_ok, rtAssert_eq_ok, exec_pure_ok, Prod.mk.injEq,
          Option.some.injEq] at hrun
        obtain ⟨_, _, _, _, _, _, _, _, rfl, rfl⟩ := hrun
        exact ⟨hzero, hlarge, mem, hfound, by rw [(takeBlock_region h mem _).heapPtr]⟩

theorem Inv.lfree_split (hi : h.Inv bs) :
    ∃ xs ys, bs = xs ++ ys ∧ h.lfree.toNat = total xs := by
  obtain hend | ⟨s, hhas⟩ := hi.hinted
  · exact ⟨bs, [], by simp, by rw [hend, hi.tiles.total_eq]⟩
  · obtain ⟨xs, ys, hbs, heq⟩ := has_iff_split.mp hhas
    exact ⟨xs, _, hbs, by simpa using heq⟩

theorem Inv.size_mod (hi : h.Inv bs) : h.memSizeAligned.toNat % 4 = 0 := by
  have hend := hi.tiles.end_eq
  have htotal : total bs % 4 = 0 := Tiling.total_mod fun b hb => (hi.tiles.size b hb).2
  rw [hi.tiles.total_eq] at htotal
  omega

theorem mallocSize_le (hmod : h.memSizeAligned.toNat % 4 = 0) (hroom : 12 ≤ h.memSizeAligned.toNat)
    (hlarge : ¬ h.memSizeAligned < rtAlign size rtAlignSize) :
    mallocSize size ≤ h.memSizeAligned := by
  obtain ⟨-, -, -, heq | heq⟩ := mallocSize_spec size
  · rw [BitVec.le_def]
    omega
  · rw [heq]
    exact BitVec.not_lt.mp hlarge

theorem Tiles.fits_iff (ht : h.Tiles bs) :
    h.Fits size ptr ↔ ∃ s, Has 0 bs ptr.toNat ⟨s, false⟩ ∧ (mallocSize size).toNat + 12 ≤ s := by
  rw [Fits, ht.walk]
  constructor
  · rintro ⟨⟨⟨s, f⟩, hhas⟩, hused, hle⟩
    obtain ⟨xs, ys, rfl, heq⟩ := has_iff_split.mp hhas
    rw [Nat.zero_add] at heq
    have hf := (ht.header heq).used_eq_zero.mp hused
    have hdata := ht.dataSize heq
    simp only at hf hdata
    subst hf
    rw [BitVec.le_def] at hle
    exact ⟨s, hhas, by omega⟩
  · rintro ⟨s, hhas, hle⟩
    obtain ⟨xs, ys, rfl, heq⟩ := has_iff_split.mp hhas
    rw [Nat.zero_add] at heq
    have hdata := ht.dataSize heq
    refine ⟨⟨_, hhas⟩, (ht.header heq).used_eq_zero.mpr rfl, ?_⟩
    rw [BitVec.le_def]
    simp only at hdata
    omega

theorem Tiles.firstFit_fits (ht : h.Tiles (xs ++ ys)) (hptr : ptr.toNat = total xs)
    (hsize : mallocSize size ≤ h.memSizeAligned)
    (hfound : h.firstFit (mallocSize size) h.fuel ptr = .ok (some mem)) : h.Fits size mem := by
  obtain hnone | ⟨us, s, ws, mem', hfound', rfl, hmem, hle, -⟩ :=
    ht.firstFit hptr hsize ht.length_lt_fuel
  · rw [hnone] at hfound
    simp at hfound
  · obtain rfl : mem' = mem := by simpa [hfound'] using hfound
    refine ht.fits_iff.mpr ⟨s, ?_, hle⟩
    rw [hmem]
    simp

theorem Fits.exists_first (hfits : h.Fits size ptr) : ∃ ptr', h.FirstFitting size ptr' := by
  obtain ⟨ptr', hfirst, hleast⟩ :=
    (measure BitVec.toNat).wf.has_min {ptr | h.Fits size ptr} ⟨ptr, hfits⟩
  exact ⟨ptr', hfirst, fun other hother => BitVec.le_def.mpr (Nat.not_lt.mp (hleast other hother))⟩

/-- A block that is large enough and not found by the loop is one that ends where the heap does,
    with no byte to spare. -/
theorem Tiles.bound_iff (ht : h.Tiles (xs ++ ⟨s, false⟩ :: ys)) (hptr : ptr.toNat = total xs)
    (hle : (mallocSize size).toNat + 12 ≤ s) :
    ptr.toNat + (mallocSize size).toNat < h.memSizeAligned.toNat ↔
      ¬ ((h.get ptr).next = h.heapEnd ∧ h.dataSize ptr = mallocSize size) := by
  have hnext := ht.next hptr
  have hdata := ht.dataSize hptr
  have hlt := ht.total_lt
  have hend := ht.end_eq
  have hys := Nat.zero_le (total ys)
  simp only [total_append, total_cons, total_nil, Nat.add_zero] at hnext hdata hlt
  rw [← BitVec.toNat_inj, ← BitVec.toNat_inj]
  omega

/-- The first block that is large enough is found where the search starts before it, and it is not
    the last block with no byte to spare. -/
theorem Inv.findsFirst_iff (hi : h.Inv bs) (hroom : 12 ≤ h.memSizeAligned.toNat) :
    h.FindsFirst size ↔ ∀ ptr, h.FirstFitting size ptr →
      size ≠ 0 ∧ h.lfree ≤ ptr ∧ ¬ ((h.get ptr).next = h.heapEnd ∧ h.dataSize ptr = mallocSize size) := by
  have ht := hi.tiles
  have hmod := hi.size_mod
  -- the blocks from `lfree` on
  obtain ⟨xs, ys, hbs, hlfree⟩ := hi.lfree_split
  have ht' : h.Tiles (xs ++ ys) := hbs ▸ ht
  have hsearched {o s : Nat} (hhas : Has 0 bs o ⟨s, false⟩) (hle : h.lfree.toNat ≤ o) :
      Has (total xs) ys o ⟨s, false⟩ := by
    rw [hbs, has_append, Nat.zero_add] at hhas
    obtain hxs | hys := hhas
    · have hbounds := hxs.bounds
      have hpos := ht'.pos _ (List.mem_append_left _ hxs.member)
      omega
    · exact hys
  constructor
  · intro hfinds ptr hfirst
    have hfits := hfirst.1
    have hzero : size ≠ 0 := by
      rintro rfl
      exact hfinds.none h (by simp [Heap.rtMalloc, pure, Except.pure]) ptr hfits
    obtain ⟨hnone, -⟩ | ⟨h', _, _, _, _, _, hsome, -⟩ := hi.rtMalloc_cases hroom size
    · exact absurd hfits (hfinds.none h hnone ptr)
    · obtain ⟨ptr', haddr, hfirst'⟩ := hfinds.some _ _ hsome
      obtain ⟨-, hlarge, mem, hfound, haddr'⟩ := rtMalloc_some hsome
      have hsame : ptr' = ptr :=
        BitVec.le_antisymm (hfirst'.2 ptr hfits) (hfirst.2 ptr' hfirst'.1)
      have hmem : mem = ptr := by
        rw [← hsame]
        rw [haddr'] at haddr
        exact (BitVec.add_right_inj _).mp ((BitVec.add_left_inj _).mp haddr)
      subst hmem
      have hsize := mallocSize_le hmod hroom hlarge
      obtain ⟨hlow, -⟩ := ht'.firstFit_first hlfree hsize hfound
      obtain ⟨hbound, -⟩ := firstFit_some hfound
      obtain ⟨s, hhas, hle⟩ := ht.fits_iff.mp hfits
      obtain ⟨us, ws, rfl, heq⟩ := has_iff_split.mp hhas
      rw [Nat.zero_add] at heq
      have hsub := toNat_sub_size h hsize
      rw [BitVec.lt_def] at hbound
      refine ⟨hzero, ?_, (ht.bound_iff heq hle).mp (by omega)⟩
      rw [BitVec.le_def]
      omega
  · intro hcond
    have hbound {ptr : BitVec 32} {s : Nat} (hhas : Has 0 bs ptr.toNat ⟨s, false⟩)
        (hle : (mallocSize size).toNat + 12 ≤ s)
        (hlast : ¬ ((h.get ptr).next = h.heapEnd ∧ h.dataSize ptr = mallocSize size)) :
        ptr.toNat + (mallocSize size).toNat < h.memSizeAligned.toNat := by
      obtain ⟨us, ws, rfl, heq⟩ := has_iff_split.mp hhas
      rw [Nat.zero_add] at heq
      exact (ht.bound_iff heq hle).mpr hlast
    constructor
    · intro h' hnone ptr hfits
      obtain ⟨ptr, hfirst⟩ := hfits.exists_first
      obtain ⟨hzero, hlow, hlast⟩ := hcond ptr hfirst
      obtain ⟨s, hhas, hle⟩ := ht.fits_iff.mp hfirst.1
      have hlt := hbound hhas hle hlast
      obtain ⟨-, hreason⟩ | ⟨_, _, _, _, _, _, hsome, -⟩ := hi.rtMalloc_cases hroom size
      · obtain heq | hlarge | hnone := hreason
        · exact hzero heq
        · have hle' := (mallocSize_spec size).2.2.1
          rw [BitVec.lt_def] at hlarge
          omega
        · have hsize : mallocSize size ≤ h.memSizeAligned := by
            rw [BitVec.le_def]
            omega
          have hmissed := ht'.firstFit_none hlfree hsize hnone _ s
            (hsearched hhas (BitVec.le_def.mp hlow)) hle
          omega
      · rw [hsome] at hnone
        simp at hnone
    · intro h' addr hsome
      obtain ⟨-, hlarge, mem, hfound, haddr⟩ := rtMalloc_some hsome
      have hsize := mallocSize_le hmod hroom hlarge
      have hfits := ht'.firstFit_fits hlfree hsize hfound
      refine ⟨mem, haddr, hfits, fun other hother => ?_⟩
      obtain ⟨ptr, hfirst⟩ := hfits.exists_first
      obtain ⟨-, hlow, -⟩ := hcond ptr hfirst
      obtain ⟨s, hhas, hle⟩ := ht.fits_iff.mp hfirst.1
      refine BitVec.le_trans ?_ (hfirst.2 other hother)
      rw [BitVec.le_def]
      by_contra hless
      have hsmall := (ht'.firstFit_first hlfree hsize hfound).2 _ s
        (hsearched hhas (BitVec.le_def.mp hlow)) (by omega)
      omega

end Heap

variable {s : Heaps} {size : BitVec 32}

/-- No request fits a heap without room. -/
theorem not_fits_small {h : Heap} {ptr : BitVec 32}
    (hi : h.Inv [⟨h.memSizeAligned.toNat + 12, false⟩]) (hsmall : h.memSizeAligned.toNat < 12) :
    ¬ h.Fits size ptr := by
  intro hfits
  obtain ⟨n, hhas, hle⟩ := hi.tiles.fits_iff.mp hfits
  have hmin := (mallocSize_spec size).2.1
  obtain ⟨-, heq⟩ | hnil := hhas
  · have hn : n = h.memSizeAligned.toNat + 12 := congrArg Block.size heq
    omega
  · exact hnil

/-- `rt_malloc` takes the first free block that is large enough exactly where `lfree` is not past
    it, and it is not the last block of the heap with the very size that is asked for. -/
theorem malloc_finds_first (hs : Reached s) :
    s.heap.FindsFirst size ↔ ∀ ptr, s.heap.FirstFitting size ptr →
      size ≠ 0 ∧ s.heap.lfree ≤ ptr ∧
        ¬ ((s.heap.get ptr).next = s.heap.heapEnd ∧ s.heap.dataSize ptr = mallocSize size) := by
  obtain ⟨s₀, hi, hr⟩ := hs
  by_cases hroom : s₀.HasRoom
  · obtain ⟨bs, hbs⟩ := hr.inv hi hroom
    exact hbs.heap.findsFirst_iff hbs.room
  · obtain ⟨hinv, -, hmalloc, hsame, -⟩ := hr.small hi hroom
    rw [hsame]
    have hsmall : s₀.heap.memSizeAligned.toNat < 12 := by
      rwa [Heaps.HasRoom, minSizeAligned_eq, BitVec.not_le, BitVec.lt_def] at hroom
    constructor
    · intro _ ptr hfirst
      exact absurd hfirst.1 (not_fits_small hinv hsmall)
    · intro _
      refine ⟨fun _ _ _ => not_fits_small hinv hsmall, fun h' addr hsome => ?_⟩
      exact absurd (hmalloc _ _ _ hsome).2 (by simp)

/-- A block in a hole below another one is found. -/
theorem malloc_finds_first_hole :
    ∃ s, Reached s ∧ s.heap.FindsFirst 100 := by
  let run : Exec (Heaps × Heaps) := do
    let s₀ ← Heaps.start 0x1003 0x1203
    let s ← [HeapOp.malloc 100, .malloc 5, .free (some 0x1010)].foldlM Heaps.play s₀
    pure (s₀, s)
  obtain ⟨⟨s₀, s⟩, hrun, hdata⟩ := exec_exists_ok (show
    run.map (fun x => decide (x.2.heap.walk x.2.heap.fuel 0 = [0, 112, 136] ∧
      x.2.heap.lfree = 0 ∧ (x.2.heap.get 0).next ≠ x.2.heap.heapEnd ∧
      (x.2.heap.get 112).used ≠ 0 ∧ x.2.heap.dataSize 136 = 348)) = .ok true by decide +kernel)
  simp only [run, exec_bind_ok, exec_pure_ok, Prod.mk.injEq] at hrun
  obtain ⟨s₀, hstart, s, hplay, rfl, rfl⟩ := hrun
  obtain ⟨hwalk, hlfree, hnext, hused, hdata⟩ := of_decide_eq_true hdata
  have hruns : Heaps.Runs s₀ s := by
    apply foldlM_runs _ hplay
    intro s op s' h
    exact Heaps.play_step h
  have hs : Reached s := ⟨s₀, Heaps.start_initial hstart, hruns⟩
  refine ⟨s, hs, (malloc_finds_first hs).mpr fun ptr hfirst => ⟨by decide, ?_, ?_⟩⟩
  · rw [hlfree]
    exact BitVec.le_def.mpr (Nat.zero_le _)
  · rintro ⟨hlast, hsize⟩
    obtain ⟨hmem, hfree, -⟩ := hfirst.1
    simp only [hwalk, List.mem_cons, List.not_mem_nil, or_false] at hmem
    obtain rfl | rfl | rfl := hmem
    · exact hnext hlast
    · exact hused hfree
    · rw [hdata] at hsize
      exact absurd hsize (by decide)

/-- All of a new heap is one free block, and a request for it fails. -/
theorem malloc_misses_last :
    ∃ s, Reached s ∧ s.heap.memSizeAligned = 488 ∧ s.heap.rtMalloc 488 = .ok (s.heap, none) ∧
      s.heap.Fits 488 0 ∧ ¬ s.heap.FindsFirst 488 := by
  obtain ⟨s, hstart, hdata⟩ := exec_exists_ok (show
    (Heaps.start 0x1000 0x1200).map (fun s => decide (s.heap.memSizeAligned = 488 ∧
      s.heap.lfree = 0 ∧ s.heap.walk s.heap.fuel 0 = [0] ∧ (s.heap.get 0).used = 0 ∧
      s.heap.dataSize 0 = 488)) = .ok true by decide +kernel)
  obtain ⟨hsize, hlfree, hwalk, hused, hdata⟩ := of_decide_eq_true hdata
  have hfits : s.heap.Fits 488 0 := by
    refine ⟨by rw [hwalk]; exact List.mem_singleton_self 0, hused, ?_⟩
    rw [hdata]
    decide
  have hnone : s.heap.firstFit (mallocSize 488) s.heap.fuel s.heap.lfree = .ok none := by
    rw [fuel, Heap.firstFit, if_neg]
    · rfl
    · rw [hsize, hlfree]
      decide
  have hrun : s.heap.rtMalloc 488 = .ok (s.heap, none) := by
    rw [Heap.rtMalloc, if_neg (by decide), if_neg (by rw [hsize]; decide)]
    exact exec_bind_ok.mpr ⟨none, hnone, rfl⟩
  refine ⟨s, ⟨s, Heaps.start_initial hstart, .refl⟩, hsize, hrun, hfits, fun hfinds => ?_⟩
  exact hfinds.none _ hrun 0 hfits

end PandoraRobot.Memory
