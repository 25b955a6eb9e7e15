import PandoraRobot.Memory.HeapSearch

/-! # Where the search of `rt_malloc` ends

The regions in which every call of `rt_malloc` comes to an end, and which headers it reads.
-/

namespace PandoraRobot.Memory

open PandoraRobot.Kernel PandoraRobot.Tiling Heap

variable {s : Heaps} {size : BitVec 32}

/-! ## Runs -/

theorem Heaps.Runs.region {s₀ : Heaps} (hr : Heaps.Runs s₀ s) : s₀.heap.SameRegion s.heap := by
  induction hr with
  | refl => exact .refl _
  | tail _ hstep ih =>
    refine ih.trans ?_
    obtain ⟨op, -, hexec⟩ := hstep
    cases op with
    | malloc size =>
      simp only [Heaps.exec, exec_bind_ok, exec_pure_ok] at hexec
      obtain ⟨⟨h, r⟩, hrun, rfl⟩ := hexec
      exact rtMalloc_region hrun
    | realloc rmem newsize =>
      simp only [Heaps.exec, exec_bind_ok] at hexec
      obtain ⟨⟨h, r⟩, hrun, hexec⟩ := hexec
      cases r with
      | none =>
        obtain rfl := Except.ok.inj hexec
        exact rtRealloc_region hrun
      | some addr =>
        obtain rfl := Except.ok.inj hexec
        exact rtRealloc_region hrun
    | free rmem =>
      simp only [Heaps.exec, exec_bind_ok, exec_pure_ok] at hexec
      obtain ⟨h, hrun, rfl⟩ := hexec
      exact rtFree_region hrun

/-! ## What is read -/

namespace Heap

/-- The headers that the loop of `rt_malloc` reads. -/
def searched (size : BitVec 32) (h : Heap) : Nat → BitVec 32 → List (BitVec 32)
  | 0, _ => []
  | fuel + 1, ptr =>
    if ptr < h.memSizeAligned - size then
      ptr :: if (h.get ptr).used = 0 ∧ size ≤ h.dataSize ptr then []
        else searched size h fuel (h.get ptr).next
    else []

/-- The headers that the loop reads that moves `lfree` on. -/
def advanced (h : Heap) : Nat → BitVec 32 → List (BitVec 32)
  | 0, _ => []
  | fuel + 1, lfree =>
    lfree :: if (h.get lfree).used ≠ 0 ∧ lfree ≠ h.heapEnd then advanced h fuel (h.get lfree).next
      else []

/-- The headers that `rt_malloc` reads once it has found a block: of the block, of what is left of
    it, and those that `lfree` passes. -/
def headersTaken (mem size : BitVec 32) (h : Heap) : List (BitVec 32) :=
  mem :: (if size + sizeofStructMem + minSizeAligned ≤ h.dataSize mem then
      [mem + sizeofStructMem + size] else []) ++
    if mem = h.lfree then (h.takeBlock mem size).advanced h.fuel h.lfree else []

/-- The headers that `rt_malloc` reads. -/
def headersRead (size : BitVec 32) (h : Heap) : List (BitVec 32) :=
  if size = 0 ∨ h.memSizeAligned < rtAlign size rtAlignSize then []
  else
    let size := mallocSize size
    h.searched size h.fuel h.lfree ++
      match h.firstFit size h.fuel h.lfree with
      | .ok (some mem) => h.headersTaken mem size
      | _ => []

/-- The search of `rt_malloc` comes to an end, the call returns, and the headers it reads are in
    the region. -/
structure EndsInside (beginAddr endAddr size : BitVec 32) (h : Heap) : Prop where
  search : size ≠ 0 → ¬ h.memSizeAligned < rtAlign size rtAlignSize →
    ∃ fuel mem, h.firstFit (mallocSize size) fuel h.lfree = .ok mem
  returns : ∃ r, h.rtMalloc size = .ok r
  inside : ∀ ptr ∈ h.headersRead size, beginAddr.toNat ≤ h.heapPtr.toNat + ptr.toNat ∧
    h.heapPtr.toNat + ptr.toNat + sizeofStructMem.toNat ≤ endAddr.toNat

variable {h : Heap} {bs xs ys : List Block} {ptr mem beginAddr endAddr : BitVec 32}

theorem searched_lt {fuel : Nat} (hptr : ptr ∈ h.searched size fuel mem) :
    ptr < h.memSizeAligned - size := by
  induction fuel generalizing mem with
  | zero => simp [searched] at hptr
  | succ fuel ih =>
    rw [searched] at hptr
    split at hptr
    case isFalse => simp at hptr
    case isTrue hlt =>
      obtain rfl | hptr := List.mem_cons.mp hptr
      · exact hlt
      · split at hptr
        · simp at hptr
        · exact ih hptr

theorem Tiles.advanced_le : ∀ {fuel : Nat} {xs ys : List Block} {lfree : BitVec 32},
    h.Tiles (xs ++ ys) → lfree.toNat = total xs → ptr ∈ h.advanced fuel lfree →
    ptr.toNat ≤ h.heapEnd.toNat := by
  intro fuel
  induction fuel with
  | zero => intro xs ys lfree _ _ hptr; simp [advanced] at hptr
  | succ fuel ih =>
    intro xs ys lfree ht hlfree hptr
    have htotal := ht.total_eq
    rw [total_append] at htotal
    rw [advanced] at hptr
    obtain rfl | hptr := List.mem_cons.mp hptr
    · omega
    · split at hptr
      case isFalse => simp at hptr
      case isTrue hcond =>
        cases ys with
        | nil =>
          rw [total_nil, Nat.add_zero, ← hlfree] at htotal
          exact absurd (BitVec.eq_of_toNat_eq htotal) hcond.2
        | cons b ys =>
          have ht' : h.Tiles ((xs ++ [b]) ++ ys) := by simpa using ht
          exact ih ht' (ht.next hlfree) hptr

/-- The headers that are read when the block `mem` is taken are at most at the end. -/
theorem Inv.headersTaken_le {s : Nat} (hi : h.Inv (xs ++ ⟨s, false⟩ :: ys))
    (hmem : mem.toNat = total xs) (hmod : size.toNat % 4 = 0) (hfits : size.toNat + 12 ≤ s)
    (hptr : ptr ∈ h.headersTaken mem size) : ptr.toNat ≤ h.heapEnd.toNat := by
  have hlt := hi.tiles.total_lt
  simp only at hlt
  rw [headersTaken, List.mem_append, List.mem_cons] at hptr
  obtain (rfl | hrest) | hadvanced := hptr
  · omega
  · split at hrest
    case isFalse => simp at hrest
    case isTrue hsplit =>
      have hroom := hi.tiles.room
      obtain rfl := List.mem_singleton.mp hrest
      rw [sizeofStructMem_eq]
      bv_omega
  · split at hadvanced
    case isFalse => simp at hadvanced
    case isTrue hat =>
      obtain ⟨n, rest, -, -, -, -, ht, -⟩ := hi.tiles.takeBlock hmem hmod hfits
      have hle := ht.advanced_le (hat ▸ hmem) hadvanced
      rwa [(takeBlock_region h mem size).heapEnd] at hle

theorem Inv.headersRead_le (hi : h.Inv bs) (hroom : 12 ≤ h.memSizeAligned.toNat)
    (hptr : ptr ∈ h.headersRead size) : ptr.toNat ≤ h.heapEnd.toNat := by
  rw [headersRead] at hptr
  split at hptr
  case isTrue => simp at hptr
  case isFalse hcond =>
    rw [not_or] at hcond
    have hsize := mallocSize_le hi.size_mod hroom hcond.2
    have hend := hi.tiles.end_eq
    obtain hsearched | htaken := List.mem_append.mp hptr
    · have hlt := searched_lt hsearched
      have hsub := toNat_sub_size h hsize
      rw [BitVec.lt_def] at hlt
      omega
    · obtain ⟨xs, ys, rfl, hlfree⟩ := hi.lfree_split
      obtain hnone | ⟨us, s, ws, mem, hfound, rfl, hmem, hle, -⟩ :=
        hi.tiles.firstFit hlfree hsize hi.tiles.length_lt_fuel
      · simp [hnone] at htaken
      · simp only [hfound] at htaken
        rw [← List.append_assoc] at hi
        exact hi.headersTaken_le hmem (mallocSize_spec size).1 hle htaken

/-- With the least size of a heap, the search ends before it reads anything. -/
theorem headersRead_least (hsize : h.memSizeAligned = 12) : h.headersRead size = [] := by
  rw [headersRead]
  split
  case isTrue => rfl
  case isFalse hcond =>
    rw [not_or, hsize, BitVec.not_lt] at hcond
    have hmalloc : mallocSize size = 12 := by
      obtain ⟨-, hmin, -, heq | heq⟩ := mallocSize_spec size
      · exact BitVec.eq_of_toNat_eq heq
      · rw [← heq] at hcond
        exact BitVec.eq_of_toNat_eq (Nat.le_antisymm (BitVec.le_def.mp hcond.2) hmin)
    have hbound (ptr : BitVec 32) : ¬ ptr < h.memSizeAligned - 12 := by
      rw [hsize]
      exact BitVec.not_lt.mpr (BitVec.le_def.mpr (Nat.zero_le _))
    simp only [hmalloc, fuel, searched, Heap.firstFit, if_neg (hbound _)]
    rfl

theorem Inv.endsInside (hi : h.Inv bs) (hroom : 12 ≤ h.memSizeAligned.toNat)
    (hinside : ∀ ptr ∈ h.headersRead size, beginAddr.toNat ≤ h.heapPtr.toNat + ptr.toNat)
    (hend : h.heapPtr.toNat + h.heapEnd.toNat + 12 ≤ endAddr.toNat) :
    EndsInside beginAddr endAddr size h where
  search _ hlarge := by
    obtain ⟨xs, ys, rfl, hlfree⟩ := hi.lfree_split
    obtain hnone | ⟨_, _, _, mem, hfound, -⟩ :=
      hi.tiles.firstFit hlfree (mallocSize_le hi.size_mod hroom hlarge) hi.tiles.length_lt_fuel
    · exact ⟨_, _, hnone⟩
    · exact ⟨_, _, hfound⟩
  returns := by
    obtain hnone | ⟨_, _, _, _, hsome, -⟩ := hi.rtMalloc hroom size
    · exact ⟨_, hnone⟩
    · exact ⟨_, hsome⟩
  inside ptr hptr := by
    have hle := hi.headersRead_le hroom hptr
    have hheader : sizeofStructMem.toNat = 12 := rfl
    exact ⟨hinside ptr hptr, by omega⟩

/-- Where there is no room for a block, the bound of the loop wraps, and the end is its own next
    block. -/
theorem Inv.endless (hi : h.Inv [⟨h.memSizeAligned.toNat + 12, false⟩])
    (hsmall : h.memSizeAligned.toNat < 12) {fuel : Nat} (hptr : ptr = 0 ∨ ptr = h.heapEnd) :
    h.firstFit 12 fuel ptr = .error .outOfFuel := by
  have ht : h.Tiles ([] ++ ⟨h.memSizeAligned.toNat + 12, false⟩ :: []) := hi.tiles
  have hzero : (0 : BitVec 32).toNat = total [] := rfl
  have hdata := ht.dataSize hzero
  have hnext := ht.next hzero
  have htotal := ht.total_eq
  have hend := ht.end_eq
  simp only [List.nil_append, total_cons, total_nil, Nat.add_zero] at hdata hnext htotal
  induction fuel generalizing ptr with
  | zero => rfl
  | succ fuel ih =>
    have hbound : ptr < h.memSizeAligned - 12 := by
      rw [BitVec.lt_def]
      obtain rfl | rfl := hptr <;> bv_omega
    have hnot : ¬ ((h.get ptr).used = 0 ∧ 12 ≤ h.dataSize ptr) := by
      rintro ⟨hused, hle⟩
      obtain rfl | rfl := hptr
      · bv_omega
      · rw [Heap.get, hi.tiles.last.used] at hused
        simp at hused
    rw [Heap.firstFit, if_pos hbound, if_neg hnot]
    refine ih (.inr ?_)
    obtain rfl | rfl := hptr
    · exact BitVec.eq_of_toNat_eq (hnext.trans htotal)
    · rw [Heap.get, hi.tiles.last.next]

theorem rtSystemHeapInit_region {h₀ : Heap}
    (h_init : rtSystemHeapInit beginAddr endAddr h₀ = some h) :
    h.heapPtr = rtAlign beginAddr rtAlignSize ∧ h.lfree = 0 ∧
      h.heapPtr.toNat + h.memSizeAligned.toNat + 24 = (rtAlignDown endAddr rtAlignSize).toNat := by
  simp only [rtSystemHeapInit, sizeofStructMem_eq] at h_init
  split at h_init
  case isFalse => simp at h_init
  case isTrue hcond =>
    obtain ⟨hlt, hle⟩ := hcond
    obtain rfl := Option.some.inj h_init
    refine ⟨rfl, rfl, ?_⟩
    simp only
    generalize rtAlign beginAddr rtAlignSize = b at hle
    generalize rtAlignDown endAddr rtAlignSize = e at hlt hle
    rw [BitVec.lt_def] at hlt
    rw [BitVec.le_def] at hle
    bv_omega

end Heap

/-- Every call ends exactly where the region has room for a block, and its start does not wrap
    when it is aligned; with the least room, nothing is read. -/
theorem malloc_ends_inside {beginAddr endAddr : BitVec 32} {h₀ h : Heap} (hused : h₀.usedMem = 0)
    (hinit : rtSystemHeapInit beginAddr endAddr h₀ = some h) :
    (∀ s size, Heaps.Runs ⟨h, fun _ => none⟩ s → EndsInside beginAddr endAddr size s.heap) ↔
      let beginAlign := (rtAlign beginAddr rtAlignSize).toNat
      let endAlign := (rtAlignDown endAddr rtAlignSize).toNat
      let least := 2 * sizeofStructMem.toNat + minSizeAligned.toNat
      beginAlign + least ≤ endAlign ∧
        (beginAddr.toNat ≤ beginAlign ∨ endAlign = beginAlign + least) := by
  obtain ⟨hptr, hlfree, hregion⟩ := rtSystemHeapInit_region hinit
  obtain ⟨hinv, -⟩ := rtSystemHeapInit_inv hused hinit
  have hinitial : Heaps.Initial ⟨h, fun _ => none⟩ :=
    ⟨⟨beginAddr, endAddr, h₀, hused, hinit⟩, fun _ => rfl⟩
  have hleast : 2 * sizeofStructMem.toNat + minSizeAligned.toNat = 36 := by decide
  have hdown := toNat_rtAlignDown endAddr
  have hend := hinv.tiles.end_eq
  have hmod := hinv.size_mod
  dsimp only
  rw [hleast, ← hptr]
  constructor
  · intro hends
    have hroom : 12 ≤ h.memSizeAligned.toNat := by
      by_contra hsmall
      obtain ⟨fuel, mem, hfound⟩ := (hends _ 0xffffffff .refl).search (by decide)
        (BitVec.not_lt.mpr (BitVec.le_def.mpr (Nat.zero_le _)))
      rw [show mallocSize 0xffffffff = 12 by decide,
        hinv.endless (Nat.lt_of_not_le hsmall) (.inl hlfree)] at hfound
      simp at hfound
    refine ⟨by omega, ?_⟩
    by_contra hwraps
    rw [not_or] at hwraps
    -- the first header that is read is below the region
    have hread : 0 ∈ h.headersRead 1 := by
      have hone : ¬ ((1 : BitVec 32) = 0 ∨ h.memSizeAligned < rtAlign 1 rtAlignSize) := by
        rw [not_or, BitVec.lt_def]
        refine ⟨by decide, ?_⟩
        show ¬ h.memSizeAligned.toNat < 4
        omega
      have hbound : 0 < h.memSizeAligned - mallocSize 1 := by
        rw [show mallocSize 1 = 12 by decide]
        bv_omega
      rw [headersRead, if_neg hone, hlfree, fuel]
      simp only [searched, if_pos hbound]
      simp
    have hinside := ((hends _ 1 .refl).inside 0 hread).1
    exact hwraps.1 hinside
  · rintro ⟨hroom, hcond⟩ s size hr
    have hsame := hr.region
    obtain ⟨bs, hbs⟩ := hr.inv hinitial (by
      rw [Heaps.HasRoom, minSizeAligned_eq, BitVec.le_def]
      show 12 ≤ h.memSizeAligned.toNat
      omega)
    obtain ⟨hptr', hend', hsize'⟩ := hsame
    simp only at hptr' hend' hsize'
    refine hbs.heap.endsInside hbs.room (fun ptr hread => ?_) ?_
    · obtain hle | hmin := hcond
      · rw [hptr']
        omega
      · have htwelve : s.heap.memSizeAligned = 12 := by
          rw [hsize']
          exact BitVec.eq_of_toNat_eq (by show h.memSizeAligned.toNat = 12; omega)
        rw [headersRead_least htwelve] at hread
        exact absurd hread List.not_mem_nil
    · rw [hptr', hend']
      omega

/-- A region of 512 bytes, after some calls. -/
theorem malloc_ends_inside_region :
    ∃ h₀ h s, rtSystemHeapInit 0x1003 0x1203 h₀ = some h ∧ Heaps.Runs ⟨h, fun _ => none⟩ s ∧
      s.heap.lfree = 0 ∧ EndsInside 0x1003 0x1203 100 s.heap := by
  let run : Exec (Heaps × Heaps) := do
    let s₀ ← Heaps.start 0x1003 0x1203
    let s ← [HeapOp.malloc 100, .malloc 5, .free (some 0x1010)].foldlM Heaps.play s₀
    pure (s₀, s)
  obtain ⟨⟨s₀, s⟩, hrun, hdata⟩ := exec_exists_ok (show
    run.map (fun x => decide (x.2.heap.lfree = 0)) = .ok true by decide +kernel)
  simp only [run, exec_bind_ok, exec_pure_ok, Prod.mk.injEq] at hrun
  obtain ⟨s₀, hstart, s, hplay, rfl, rfl⟩ := hrun
  rw [Heaps.start] at hstart
  split at hstart
  case h_1 => simp at hstart
  case h_2 h hinit =>
    obtain rfl := exec_pure_ok.mp hstart
    have hruns : Heaps.Runs ⟨h, fun _ => none⟩ s := by
      apply foldlM_runs _ hplay
      intro s op s' h
      exact Heaps.play_step h
    exact ⟨_, h, s, hinit, hruns, of_decide_eq_true hdata,
      (malloc_ends_inside rfl hinit).mpr (by decide) s 100 hruns⟩

/-- A region of 32 bytes is accepted, and `rt_malloc` of one byte searches it for ever. -/
theorem malloc_endless :
    ∃ h₀ h, h₀.usedMem = 0 ∧ rtSystemHeapInit 0x1000 0x1020 h₀ = some h ∧
      (∀ fuel, h.firstFit (mallocSize 1) fuel h.lfree = .error .outOfFuel) ∧
      ¬ ∀ s size, Heaps.Runs ⟨h, fun _ => none⟩ s → EndsInside 0x1000 0x1020 size s.heap := by
  obtain ⟨h₀, hused⟩ : ∃ h₀ : Heap, h₀.usedMem = 0 := ⟨⟨fun _ => ⟨0, 0, 0, 0⟩, 0, 0, 0, 0, 0, 0⟩, rfl⟩
  obtain ⟨h, hinit⟩ : ∃ h, rtSystemHeapInit 0x1000 0x1020 h₀ = some h := ⟨_, rfl⟩
  obtain ⟨hinv, -⟩ := rtSystemHeapInit_inv hused hinit
  obtain ⟨hptr, hlfree, hregion⟩ := rtSystemHeapInit_region hinit
  have hsize : h.memSizeAligned = 8 := by
    have hstart : (rtAlign 0x1000 rtAlignSize).toNat = 0x1000 := by decide
    have hend : (rtAlignDown 0x1020 rtAlignSize).toNat = 0x1020 := by decide
    rw [hptr, hstart, hend] at hregion
    exact BitVec.eq_of_toNat_eq (by show h.memSizeAligned.toNat = 8; omega)
  have hendless (fuel : Nat) : h.firstFit (mallocSize 1) fuel h.lfree = .error .outOfFuel := by
    rw [show mallocSize 1 = 12 by decide]
    exact hinv.endless (by rw [hsize]; decide) (.inl hlfree)
  refine ⟨h₀, h, hused, hinit, hendless, fun hends => ?_⟩
  obtain ⟨fuel, mem, hfound⟩ := (hends _ 1 .refl).search (by decide) (by
    show ¬ h.memSizeAligned < rtAlign 1 rtAlignSize
    rw [hsize]
    decide)
  rw [hendless] at hfound
  simp at hfound

end PandoraRobot.Memory
