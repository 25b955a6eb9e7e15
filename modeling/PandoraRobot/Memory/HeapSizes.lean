import PandoraRobot.Memory.HeapRuns

/-! # How much a caller gets

Four calls compute a size with 32 bits before they compare it with the heap: they round
it up, multiply, or add the slack for an alignment.  For each of them, the requests that
are granted in full by every heap that grants them at all.
-/

namespace PandoraRobot.Memory

open PandoraRobot.Kernel PandoraRobot.Tiling PandoraRobot.Alignment Heap

/-- The heap states that runs reach. -/
def Reached (s : Heaps) : Prop := ∃ s₀, Heaps.Initial s₀ ∧ Heaps.Runs s₀ s

/-- Where `rt_malloc` of `size` succeeds, there are `size` bytes. -/
def MallocEnough (size : BitVec 32) : Prop :=
  ∀ s h addr, Reached s → s.heap.rtMalloc size = .ok (h, some addr) →
    size.toNat ≤ (h.room addr).toNat

def ReallocEnough (newsize : BitVec 32) : Prop :=
  ∀ s rmem h addr, Reached s → s.holds rmem = true →
    s.heap.rtRealloc rmem newsize = .ok (h, some addr) → newsize.toNat ≤ (h.room addr).toNat

def CallocEnough (count size : BitVec 32) : Prop :=
  ∀ s h addr, Reached s → s.heap.rtCalloc count size = .ok (h, some addr) →
    count.toNat * size.toNat ≤ (h.room addr).toNat

/-- The bytes from the result on, and the word before it, are within the block. -/
def MallocAlignEnough (size align : BitVec 32) : Prop :=
  ∀ s h addr ptr, Reached s → s.heap.rtMallocAlign size align = .ok (h, some (addr, ptr)) →
    ptr.toNat + 4 ≤ addr.toNat ∧ addr.toNat + size.toNat ≤ ptr.toNat + (h.room ptr).toNat

/-- Some heap can grant `size` bytes: the largest heap there is has `0xffffffe4` bytes. -/
def Grantable (size : BitVec 32) : Prop := size ≠ 0 ∧ rtAlign size rtAlignSize ≤ 0xffffffe0

variable {s s₀ : Heaps} {h : Heap} {size addr : BitVec 32}

/-! ## What `rt_malloc` grants -/

/-- What is known of a block that `rt_malloc` has granted. -/
structure MallocGrant (size addr : BitVec 32) (h : Heap) : Prop where
  grantable : Grantable size
  lower : (mallocSize size).toNat ≤ (h.room addr).toNat
  upper : (h.room addr).toNat < (mallocSize size).toNat + 24
  inside : addr.toNat + (h.room addr).toNat + 12 < 2 ^ 32
  aligned : addr.toNat % 4 = 0

theorem Heap.Inv.mallocGrant {h' : Heap} {bs : List Block} (hi : h.Inv bs)
    (hroom : 12 ≤ h.memSizeAligned.toNat) (hrun : h.rtMalloc size = .ok (h', some addr)) :
    MallocGrant size addr h' := by
  have hnonzero : size ≠ 0 := by
    rintro rfl
    simp [Heap.rtMalloc, pure, Except.pure] at hrun
  obtain ⟨hnone, -⟩ | ⟨h₁, xs, s, ys, n, rest, hsome, rfl, hsize, hrest, hn, hn', hlt, hi', -, hsame⟩ :=
    hi.rtMalloc_cases hroom size
  · rw [hnone] at hrun
    simp at hrun
  · rw [hsome] at hrun
    simp only [Except.ok.injEq, Prod.mk.injEq, Option.some.injEq] at hrun
    obtain ⟨rfl, rfl⟩ := hrun
    have hdata : h.dataAt (total xs) = h₁.dataAt (total xs) := by
      rw [Heap.dataAt, ← hsame.heapPtr, Heap.dataAt]
    obtain ⟨haddr, hroom', -⟩ := hi'.room_eq (o := total xs) (n := n) (by simp)
    obtain ⟨hmod, hmin, hle, -⟩ := mallocSize_spec size
    have hspace := hi'.tiles.room
    have hend := hi.tiles.end_eq
    have htotal := hi'.tiles.total_lt
    have hblocks : h.heapEnd.toNat % 4 = 0 := by
      rw [← hi.tiles.total_eq]
      exact Tiling.total_mod fun b hb => (hi.tiles.size b hb).2
    have haligned := hi'.tiles.aligned
    have hxs := hi'.tiles.total_mod
    have hspace' := hi.tiles.room
    simp only at htotal
    rw [hdata]
    refine ⟨⟨hnonzero, ?_⟩, by omega, by omega, by omega, by omega⟩
    rw [BitVec.le_def]
    show _ ≤ 0xffffffe0
    omega

theorem Reached.mallocGrant {h' : Heap} (hs : Reached s)
    (hrun : s.heap.rtMalloc size = .ok (h', some addr)) : MallocGrant size addr h' := by
  obtain ⟨s₀, hi, hr⟩ := hs
  by_cases hroom : s₀.HasRoom
  · obtain ⟨bs, hbs⟩ := hr.inv hi hroom
    exact hbs.heap.mallocGrant hbs.room hrun
  · -- a heap without room grants nothing
    obtain ⟨-, -, hnone, hsame, -⟩ := hr.small hi hroom
    rw [hsame] at hrun
    exact absurd (hnone _ _ _ hrun).2 (by simp)

theorem MallocGrant.enough (hg : MallocGrant size addr h) (hsize : size.toNat ≤ 0xfffffffc) :
    size.toNat ≤ (h.room addr).toNat := by
  have hle := Heaps.le_rtAlign hsize
  have hle' := (mallocSize_spec size).2.2.1
  have hlower := hg.lower
  omega

/-- The largest heap grants what any heap can grant. -/
theorem Grantable.exists_grant (hg : Grantable size) :
    ∃ s h addr, Reached s ∧ s.heap.rtMalloc size = .ok (h, some addr) := by
  obtain ⟨s, hstart, hdata⟩ := exec_exists_ok (show
    (Heaps.start 0 0xffffffff).map (fun s => decide (s.heap.memSizeAligned = 0xffffffe4 ∧
      s.heap.lfree = 0)) = .ok true by decide +kernel)
  obtain ⟨hsize, hlfree⟩ := of_decide_eq_true hdata
  have hinitial := Heaps.start_initial hstart
  obtain ⟨beginAddr, endAddr, h₀, hused, hinit⟩ := hinitial.init
  obtain ⟨hi, -⟩ := rtSystemHeapInit_inv hused hinit
  obtain ⟨hnonzero, hle⟩ := hg
  have hmax : s.heap.memSizeAligned.toNat = 0xffffffe4 := by rw [hsize]; rfl
  rw [BitVec.le_def] at hle
  have hle : (rtAlign size rtAlignSize).toNat ≤ 0xffffffe0 := hle
  obtain ⟨-, hmin, -, hcases⟩ := mallocSize_spec size
  have hfits : (mallocSize size).toNat ≤ 0xffffffe0 := by
    obtain heq | heq := hcases
    · omega
    · rwa [heq]
  obtain ⟨-, hreason⟩ | ⟨h', xs, -, -, -, -, hsome, -⟩ := hi.rtMalloc_cases (by omega) size
  · exfalso
    obtain heq | hlt | hnone := hreason
    · exact hnonzero heq
    · rw [BitVec.lt_def] at hlt
      omega
    · -- the only block is large enough
      have ht : s.heap.Tiles ([] ++ ⟨s.heap.memSizeAligned.toNat + 12, false⟩ :: []) := hi.tiles
      have hzero : (0 : BitVec 32).toNat = total [] := rfl
      have hdata := ht.dataSize hzero
      have hheader := ht.header hzero
      simp only at hdata
      rw [hlfree, fuel, firstFit, if_pos, if_pos] at hnone
      · simp [pure, Except.pure] at hnone
      · refine ⟨hheader.used, ?_⟩
        rw [BitVec.le_def]
        omega
      · rw [BitVec.lt_def]
        have hsub := toNat_sub_size s.heap (show mallocSize size ≤ _ by
          rw [BitVec.le_def]
          omega)
        show 0 < _
        omega
  · exact ⟨s, h', _, ⟨s, hinitial, .refl⟩, hsome⟩

/-! ## The four calls -/

theorem rtAlign_zero (hsize : ¬ size.toNat ≤ 0xfffffffc) : rtAlign size rtAlignSize = 0 := by
  have hlt := size.isLt
  apply BitVec.eq_of_toNat_eq
  rw [toNat_rtAlign]
  show _ = 0
  omega

theorem mallocEnough_iff (size : BitVec 32) : MallocEnough size ↔ size.toNat ≤ 0xfffffffc := by
  constructor
  · intro henough
    by_contra hsize
    have hnonzero : size ≠ 0 := by
      rintro rfl
      simp at hsize
    have hgrantable : Grantable size := ⟨hnonzero, by rw [rtAlign_zero hsize]; decide⟩
    obtain ⟨s, h, addr, hs, hrun⟩ := hgrantable.exists_grant
    have hle := henough s h addr hs hrun
    have hinside := (hs.mallocGrant hrun).inside
    omega
  · intro hsize s h addr hs hrun
    exact (hs.mallocGrant hrun).enough hsize

theorem reallocEnough (newsize : BitVec 32) : ReallocEnough newsize := by
  intro s rmem h addr hs hholds hrun
  have hsize : newsize.toNat ≤ 0xfffffffc := by
    by_contra hlarge
    -- a size that is rounded to nothing is a `rt_free`
    simp only [Heap.rtRealloc, rtAlign_zero hlarge, if_true] at hrun
    split at hrun
    case isTrue => simp [pure, Except.pure] at hrun
    case isFalse =>
      simp only [exec_bind_ok, exec_pure_ok, Prod.mk.injEq, reduceCtorEq, and_false,
        exists_false] at hrun
  obtain ⟨s₀, hi, hr⟩ := hs
  have hexec : s.exec (.realloc rmem newsize) =
      .ok ⟨h, Heaps.grant (some addr) newsize (Heaps.drop rmem s.live)⟩ :=
    exec_bind_ok.mpr ⟨_, hrun, rfl⟩
  have hr' : Heaps.Runs s₀ ⟨h, Heaps.grant (some addr) newsize (Heaps.drop rmem s.live)⟩ :=
    hr.tail ⟨.realloc rmem newsize, hholds, hexec⟩
  by_cases hroom : s₀.HasRoom
  · obtain ⟨bs, hbs⟩ := hr'.inv hi hroom
    obtain ⟨o, n, hhas, haddr, hn⟩ := hbs.live addr newsize (by simp [Heaps.grant])
    have hroom' := (hbs.heap.room_eq hhas).2.1
    rw [← haddr] at hroom'
    have hle := hn hsize
    simp only at hroom'
    omega
  · -- nothing comes to be held
    obtain ⟨-, -, -, -, hlive⟩ := hr'.small hi hroom
    have hnone := hi.live addr
    rw [← hlive] at hnone
    simp [Heaps.grant] at hnone

theorem callocEnough_iff (count size : BitVec 32) : CallocEnough count size ↔
    count.toNat * size.toNat ≤ 0xfffffffc ∨ ¬ Grantable (count * size) := by
  constructor
  · intro henough
    by_contra hcond
    rw [not_or, not_not] at hcond
    obtain ⟨hlarge, hgrantable⟩ := hcond
    obtain ⟨s, h, addr, hs, hrun⟩ := hgrantable.exists_grant
    have hle := henough s h addr hs hrun
    have hinside := (hs.mallocGrant hrun).inside
    omega
  · intro hcond s h addr hs hrun
    have hgrant := hs.mallocGrant hrun
    obtain hsmall | hnot := hcond
    · have hproduct : (count * size).toNat = count.toNat * size.toNat := by
        rw [BitVec.toNat_mul, Nat.mod_eq_of_lt (by omega)]
      rw [← hproduct] at hsmall ⊢
      exact hgrant.enough hsmall
    · exact absurd hgrant.grantable hnot

/-- The alignment that `rt_malloc_align` goes by: at least that of every block. -/
def alignOf (k : Nat) : Nat := 2 ^ max k 2

theorem alignOf_spec {k : Nat} (hk : k < 32) :
    (2 ^ k + 3) / 4 * 4 = alignOf k ∧ alignOf k % 4 = 0 ∧ 4 ≤ alignOf k ∧ alignOf k ≤ 2 ^ 31 := by
  rw [alignOf]
  by_cases hsmall : k < 2
  · obtain rfl | rfl : k = 0 ∨ k = 1 := by omega
    · decide
    · decide
  · obtain ⟨j, rfl⟩ : ∃ j, k = j + 2 := ⟨k - 2, by omega⟩
    have hmax : max (j + 2) 2 = j + 2 := by omega
    have hle : 2 ^ (j + 2) ≤ 2 ^ 31 := Nat.pow_le_pow_right (by omega) (by omega)
    have hpos := Nat.two_pow_pos j
    rw [hmax]
    rw [Nat.pow_add] at hle ⊢
    omega

theorem roundFour (x : BitVec 32) : (x + 0x03) &&& ~~~0x03 = rtAlign x rtAlignSize := by
  rw [rtAlign]
  congr 1
  rw [rtAlignSize]
  bv_omega

/-- What `rt_malloc_align` asks `rt_malloc` for. -/
def alignSize (size align : BitVec 32) : BitVec 32 :=
  rtAlign size rtAlignSize + rtAlign align rtAlignSize

theorem toNat_alignSize (size : BitVec 32) {k : Nat} (hk : k < 32) :
    (rtAlign (BitVec.ofNat 32 (2 ^ k)) rtAlignSize).toNat = alignOf k ∧
      (alignSize size (BitVec.ofNat 32 (2 ^ k))).toNat =
        ((size.toNat + 3) / 4 * 4 + alignOf k) % 2 ^ 32 := by
  have hlt : 2 ^ k ≤ 2 ^ 31 := Nat.pow_le_pow_right (by omega) (by omega)
  have hsize := size.isLt
  obtain ⟨halign, -⟩ := alignOf_spec hk
  have halign' : (rtAlign (BitVec.ofNat 32 (2 ^ k)) rtAlignSize).toNat = alignOf k := by
    rw [toNat_rtAlign, BitVec.toNat_ofNat, Nat.mod_eq_of_lt (a := 2 ^ k) (by omega),
      Nat.mod_eq_of_lt (by omega), halign]
  refine ⟨halign', ?_⟩
  rw [alignSize, BitVec.toNat_add, halign', toNat_rtAlign]
  omega

theorem rtMallocAlign_ok {h' : Heap} {align ptr : BitVec 32}
    (hrun : h.rtMalloc (alignSize size align) = .ok (h', some ptr)) :
    h.rtMallocAlign size align =
      .ok (h', some (alignPtr ptr (rtAlign align rtAlignSize), ptr)) := by
  rw [rtMallocAlign]
  simp only [roundFour]
  exact exec_bind_ok.mpr ⟨_, hrun, rfl⟩

theorem rtMallocAlign_cases {h' : Heap} {align ptr : BitVec 32}
    (hrun : h.rtMallocAlign size align = .ok (h', some (addr, ptr))) :
    h.rtMalloc (alignSize size align) = .ok (h', some ptr) ∧
      addr = alignPtr ptr (rtAlign align rtAlignSize) := by
  rw [rtMallocAlign] at hrun
  simp only [roundFour, exec_bind_ok] at hrun
  obtain ⟨⟨h₁, r⟩, hmalloc, hrun⟩ := hrun
  cases r with
  | none => simp at hrun
  | some ptr' =>
    simp only [exec_pure_ok, Prod.mk.injEq, Option.some.injEq] at hrun
    obtain ⟨rfl, rfl, rfl⟩ := hrun
    exact ⟨hmalloc, rfl⟩

/-- Where the result of `rt_malloc_align` is in the block. -/
theorem alignPtr_bounds {k : Nat} {ptr : BitVec 32} (hk : k < 32) (hmod : ptr.toNat % 4 = 0)
    (hroom : ptr.toNat + alignOf k < 2 ^ 32) :
    ptr.toNat + 4 ≤ (alignPtr ptr (rtAlign (BitVec.ofNat 32 (2 ^ k)) rtAlignSize)).toNat ∧
      (alignPtr ptr (rtAlign (BitVec.ofNat 32 (2 ^ k)) rtAlignSize)).toNat ≤
        ptr.toNat + alignOf k := by
  obtain ⟨-, hmod', hmin, hmax⟩ := alignOf_spec hk
  obtain ⟨halign, -⟩ := toNat_alignSize 0 hk
  generalize rtAlign (BitVec.ofNat 32 (2 ^ k)) rtAlignSize = align at halign ⊢
  have hmask : align - 1 = lowMask 32 (max k 2) := by
    apply BitVec.eq_of_toNat_eq
    rw [lowMask, ← alignOf, BitVec.toNat_ofNat, Nat.mod_eq_of_lt (by omega)]
    bv_omega
  have hpow : 2 ^ max k 2 = alignOf k := rfl
  rw [alignPtr]
  split
  case isTrue => bv_omega
  case isFalse hnot =>
    rw [hmask, and_lowMask_eq_zero, hpow] at hnot
    have hsum : (ptr + (align - 1)).toNat = ptr.toNat + alignOf k - 1 := by bv_omega
    rw [hmask, toNat_and_not_lowMask, hpow, ← hmask, hsum]
    have hup := roundUp_of_mod (by omega) hnot
    have hlt := Nat.mod_lt ptr.toNat (y := alignOf k) (by omega)
    have hrest : ptr.toNat % alignOf k % 4 = 0 := by
      rw [Nat.mod_mod_of_dvd _ (Nat.dvd_of_mod_eq_zero hmod'), hmod]
    omega

theorem mallocAlignEnough_iff (size : BitVec 32) {k : Nat} (hk : k < 32) :
    MallocAlignEnough size (BitVec.ofNat 32 (2 ^ k)) ↔
      (size.toNat + 3) / 4 * 4 + alignOf k ≤ 2 ^ 32 := by
  obtain ⟨-, hmod, hmin, hmax⟩ := alignOf_spec hk
  obtain ⟨-, hsum⟩ := toNat_alignSize size hk
  have hsize := size.isLt
  have hw_mod : (alignSize size (BitVec.ofNat 32 (2 ^ k))).toNat % 4 = 0 := by omega
  obtain ⟨-, -, hle, hcases⟩ := mallocSize_spec (alignSize size (BitVec.ofNat 32 (2 ^ k)))
  rw [rtAlign_of_mod hw_mod] at hle hcases
  constructor
  · intro henough
    by_contra hlarge
    have hgrantable : Grantable (alignSize size (BitVec.ofNat 32 (2 ^ k))) := by
      refine ⟨fun hzero => ?_, ?_⟩
      · rw [hzero] at hsum
        change 0 = _ at hsum
        omega
      · rw [rtAlign_of_mod hw_mod, BitVec.le_def]
        show _ ≤ 0xffffffe0
        omega
    obtain ⟨s, h, ptr, hs, hrun⟩ := hgrantable.exists_grant
    have hupper := (hs.mallocGrant hrun).upper
    -- wherever the result is, the block is too small
    obtain ⟨hword, hdata⟩ := henough s h _ ptr hs (rtMallocAlign_ok hrun)
    obtain heq | heq := hcases
    · omega
    · rw [heq] at hupper
      omega
  · intro hcond s h addr ptr hs hrun
    obtain ⟨hmalloc, rfl⟩ := rtMallocAlign_cases hrun
    have hgrant := hs.mallocGrant hmalloc
    have hnonzero : (alignSize size (BitVec.ofNat 32 (2 ^ k))).toNat ≠ 0 :=
      fun hzero => hgrant.grantable.1 (BitVec.eq_of_toNat_eq hzero)
    have hlower := hgrant.lower
    have hinside := hgrant.inside
    obtain ⟨hword, hend⟩ := alignPtr_bounds hk hgrant.aligned (by omega)
    omega

/-- Which requests are granted in full by every heap that grants them: of `rt_malloc` all but
    those that are rounded up to nothing, of `rt_realloc` all, of `rt_calloc` those whose product
    is such a size, or wraps to one that no heap grants, and of `rt_malloc_align` those for which
    the sum of the rounded size and alignment is at most `2 ^ 32`. -/
theorem granted_in_full (count size : BitVec 32) (k : Fin 32) :
    (MallocEnough size ↔ size.toNat ≤ 0xfffffffc) ∧
    ReallocEnough size ∧
    (CallocEnough count size ↔
      count.toNat * size.toNat ≤ 0xfffffffc ∨ ¬ Grantable (count * size)) ∧
    (MallocAlignEnough size (BitVec.ofNat 32 (2 ^ k.val)) ↔
      (size.toNat + 3) / 4 * 4 + max 4 (2 ^ k.val) ≤ 2 ^ 32) := by
  refine ⟨mallocEnough_iff size, reallocEnough size, callocEnough_iff count size, ?_⟩
  have hmax : max 4 (2 ^ k.val) = alignOf k.val := by
    rw [alignOf]
    obtain hle | hle := Nat.le_total k.val 2
    · rw [Nat.max_eq_right hle]
      exact Nat.max_eq_left (Nat.pow_le_pow_right (by omega) hle)
    · rw [Nat.max_eq_left hle]
      exact Nat.max_eq_right (Nat.pow_le_pow_right (n := 2) (by omega) hle)
  rw [hmax]
  exact mallocAlignEnough_iff size k.isLt

/-- A size, a product and a sum that wrap, and are granted. -/
theorem wrapped_granted :
    ¬ MallocEnough 0xfffffffd ∧ ¬ CallocEnough 0x10000 0x10001 ∧
      ¬ MallocAlignEnough 0xfffffff0 32 := by
  refine ⟨?_, ?_, ?_⟩
  · rw [mallocEnough_iff]
    decide
  · rw [callocEnough_iff, Grantable]
    decide
  · have hiff := mallocAlignEnough_iff 0xfffffff0 (show 5 < 32 by decide)
    rw [show (32 : BitVec 32) = BitVec.ofNat 32 (2 ^ 5) from rfl, hiff]
    decide

end PandoraRobot.Memory
