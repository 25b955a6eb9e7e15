import PandoraRobot.Memory.RawHeap

/-! # What `rt_realloc` does to the data

`rt_realloc` leaves a block where it is, cuts it, or moves its data to another block; and no call
touches the data of a block in use that it is not called for.
-/

namespace PandoraRobot.Memory

open PandoraRobot.Kernel PandoraRobot.MemoryBlocks PandoraRobot.Tiling

namespace Heap

variable {h h' : Heap} {bs bs' xs ys : List Block} {b : Block} {p q : BitVec 32} {o n s : Nat}

/-! ## The places of the headers -/

/-- A block starts there, or the end marker is there. -/
def Places (h : Heap) (bs : List Block) (p : BitVec 32) : Prop :=
  p = h.heapEnd ∨ ∃ b, Has 0 bs p.toNat b

theorem Tiles.place_lt (ht : h.Tiles bs) (hhas : Has 0 bs o b) :
    o + b.size ≤ h.heapEnd.toNat ∧ 12 ≤ b.size := by
  have hbounds := hhas.bounds
  have htotal := ht.total_eq
  have hsize := (ht.size b hhas.member).1
  omega

/-- Headers do not overlap. -/
theorem Tiles.spaced (ht : h.Tiles bs) : RawHeap.Spaced (h.Places bs) := by
  have hroom := ht.room
  intro p q hp hq hne
  have hnat : p.toNat ≠ q.toNat := fun heq => hne (BitVec.eq_of_toNat_eq heq)
  obtain rfl | ⟨b, hb⟩ := hp
  · obtain rfl | ⟨c, hc⟩ := hq
    · exact absurd rfl hne
    · have hlt := ht.place_lt hc
      bv_omega
  · have hlt := ht.place_lt hb
    obtain rfl | ⟨c, hc⟩ := hq
    · bv_omega
    · have hlt' := ht.place_lt hc
      obtain ⟨heq, -⟩ | hle | hle := hb.disjoint hc
      · exact absurd heq hnat
      · bv_omega
      · bv_omega

theorem Tiles.place_of_total (ht : h.Tiles (xs ++ ys)) (hp : p.toNat = total xs) :
    h.Places (xs ++ ys) p := by
  cases ys with
  | nil =>
    left
    have htotal := ht.total_eq
    rw [List.append_nil, ← hp] at htotal
    exact BitVec.eq_of_toNat_eq htotal
  | cons c ys =>
    right
    exact ⟨c, by rw [hp]; simp⟩

theorem Tiles.place_next (ht : h.Tiles bs) (hp : h.Places bs p) : h.Places bs (h.get p).next := by
  obtain rfl | ⟨b, hb⟩ := hp
  · left
    exact ht.last.next
  · obtain ⟨xs, ys, rfl, ho⟩ := has_iff_split.mp hb
    rw [Nat.zero_add] at ho
    have ht' : h.Tiles ((xs ++ [b]) ++ ys) := by simpa using ht
    simpa using ht'.place_of_total (ht.next ho)

theorem Tiles.place_prev (ht : h.Tiles bs) (hp : h.Places bs p) (hend : p ≠ h.heapEnd) :
    h.Places bs (h.get p).prev := by
  obtain rfl | ⟨b, hb⟩ := hp
  · exact absurd rfl hend
  · obtain ⟨xs, ys, rfl, ho⟩ := has_iff_split.mp hb
    rw [Nat.zero_add] at ho
    have hprev := (ht.header ho).prev
    obtain rfl | ⟨ws, a, rfl⟩ := List.eq_nil_or_concat' xs
    · exact @Tiles.place_of_total h [] (b :: ys) _ ht hprev
    · rw [lastStart_snoc, Nat.zero_add] at hprev
      have ht' : h.Tiles (ws ++ a :: b :: ys) := by simpa using ht
      simpa using ht'.place_of_total hprev

/-- Inside a block, there is space for a header. -/
theorem Tiles.grows (ht : h.Tiles bs) (hhas : Has 0 bs o b) (hlo : o + 12 ≤ q.toNat)
    (hhi : q.toNat + 12 ≤ o + b.size) :
    RawHeap.Grows (h.Places bs) (fun p => h.Places bs p ∨ p = q) q := by
  have hroom := ht.room
  have hlt := ht.place_lt hhas
  have hnew : ∀ p, h.Places bs p → 12 ≤ (q - p).toNat ∧ 12 ≤ (p - q).toNat := by
    rintro p (rfl | ⟨c, hc⟩)
    · bv_omega
    · have hlt' := ht.place_lt hc
      obtain ⟨heq, -⟩ | hle | hle := hhas.disjoint hc
      · bv_omega
      · bv_omega
      · bv_omega
  refine ⟨?_, fun p hp => .inl hp, .inr rfl, fun p hp hne => hp.resolve_right hne⟩
  rintro p p' (hp | rfl) (hp' | rfl) hne
  · exact ht.spaced p p' hp hp' hne
  · exact (hnew p hp).1
  · exact (hnew p' hp').2
  · exact absurd rfl hne

/-- A heap is in order if one with the same headers is. -/
theorem Inv.congr (hi : h.Inv bs) (hsame : h' = { h with mem := h'.mem })
    (hmem : ∀ p, h.Places bs p → h'.get p = h.get p) : h'.Inv bs := by
  obtain ⟨mem, rfl⟩ : ∃ mem, h' = { h with mem } := ⟨_, hsame⟩
  have htiles := hi.tiles
  refine ⟨⟨?_, htiles.total_eq, ?_, htiles.end_eq, htiles.size, htiles.aligned, htiles.room⟩,
    hi.coalesced, hi.hinted, hi.usedMem, hi.data⟩
  · refine htiles.tiled.congr_has fun o b hhas => ?_
    have hlt := htiles.place_lt hhas
    have hroom := htiles.room
    have ho : (BitVec.ofNat 32 o).toNat = o := by
      rw [BitVec.toNat_ofNat, Nat.mod_eq_of_lt (by omega)]
    have hget := hmem (BitVec.ofNat 32 o) (.inr ⟨b, by rwa [ho]⟩)
    simpa only [Heap.get, ho] using hget
  · have hget : mem h.heapEnd.toNat = h.mem h.heapEnd.toNat := hmem h.heapEnd (.inl rfl)
    show IsEnd (mem h.heapEnd.toNat) h.heapEnd
    rw [hget]
    exact htiles.last

end Heap

namespace RawHeap

variable {r r' : RawHeap} {h' : Heap} {bs bs' : List Block} {b : Block} {o n s : Nat}
  {p q size : BitVec 32} {S : BitVec 32 → Prop} {before : ByteMemory}

theorem follows_heap (hi : r.heap.Inv bs) : Follows (r.heap.Places bs) r.memory r r.heap where
  same := rfl
  headers _ _ := heap_get.symm
  next _ hp := hi.tiles.place_next hp
  prev _ hp hend := hi.tiles.place_prev hp hend
  kept _ _ := rfl

/-- Where the links of the headers lead from the first one on, all headers are. -/
theorem Follows.places (hf : Follows S before r' h') (ht : h'.Tiles bs') (hzero : S 0)
    (hend : S h'.heapEnd) (hp : h'.Places bs' p) : S p := by
  have hstart : ∀ xs ys, bs' = xs ++ ys → ∀ q : BitVec 32, q.toNat = total xs → S q := by
    intro xs
    induction xs using List.reverseRecOn with
    | nil =>
      intro ys _ q hq
      obtain rfl : q = 0 := BitVec.eq_of_toNat_eq hq
      exact hzero
    | append_singleton xs c ih =>
      intro ys hbs q hq
      have ht' : h'.Tiles (xs ++ c :: ys) := by simpa [hbs] using ht
      have hlt := ht'.total_lt
      have hroom := ht'.room
      have hnat : (BitVec.ofNat 32 (total xs)).toNat = total xs := by
        rw [BitVec.toNat_ofNat, Nat.mod_eq_of_lt (by omega)]
      have hnext := hf.next _ (ih (c :: ys) (by simpa using hbs) _ hnat)
      rwa [BitVec.eq_of_toNat_eq ((ht'.next hnat).trans hq.symm)] at hnext
  obtain rfl | ⟨b, hb⟩ := hp
  · exact hend
  · obtain ⟨xs, ys, hbs, ho⟩ := has_iff_split.mp hb
    exact hstart xs (b :: ys) hbs p (by simpa using ho)

/-- The heap in memory is in order after a call. -/
theorem Follows.inv (hf : Follows S before r' h') (hi : h'.Inv bs') (hzero : S 0)
    (hend : S h'.heapEnd) : r'.heap.Inv bs' := by
  refine hi.congr ?_ fun p hp => ?_
  · rw [hf.same]
    rfl
  · rw [heap_get]
    exact hf.headers p (hf.places hi.tiles hzero hend hp)

/-! ## Data -/

/-- `n` bytes from `addr'` on are what those from `addr` on have been. -/
def SameData (r r' : RawHeap) (addr addr' : BitVec 32) (n : Nat) : Prop :=
  ∀ k < n, r'.memory (addr' + BitVec.ofNat 32 k) = r.memory (addr + BitVec.ofNat 32 k)

/-- Data stays where no header is written. -/
theorem Follows.sameData (hf : Follows S r.memory r' h') (ht : r.heap.Tiles bs)
    (hptr : r'.heapPtr = r.heapPtr) (hhas : Has 0 bs o b) (hn : n + 12 ≤ b.size)
    (hS : ∀ q, S q → r.heap.Places bs q ∨
      q.toNat < r.heapEnd.toNat ∧ (q.toNat + 12 ≤ o ∨ o + n + 12 ≤ q.toNat)) :
    SameData r r' (r.heap.dataAt o) (r.heap.dataAt o) n := by
  have hroom : r.heapPtr.toNat + r.heapEnd.toNat + 12 < 2 ^ 32 := ht.room
  have hlt : o + b.size ≤ r.heapEnd.toNat ∧ 12 ≤ b.size := ht.place_lt hhas
  intro k hk
  refine hf.kept _ fun q hq => ?_
  rw [hptr]
  show 12 ≤ (BitVec.ofNat 32 (r.heapPtr.toNat + o + 12) + BitVec.ofNat 32 k -
    (r.heapPtr + q)).toNat
  obtain (rfl | ⟨c, hc⟩) | ⟨hend, hout⟩ := hS q hq
  · show 12 ≤ (BitVec.ofNat 32 (r.heapPtr.toNat + o + 12) + BitVec.ofNat 32 k -
      (r.heapPtr + r.heapEnd)).toNat
    bv_omega
  · have hlt' : q.toNat + c.size ≤ r.heapEnd.toNat ∧ 12 ≤ c.size := ht.place_lt hc
    obtain ⟨heq, -⟩ | hle | hle := hhas.disjoint hc
    · bv_omega
    · bv_omega
    · bv_omega
  · bv_omega

/-! ## The calls -/

theorem firstFit_some {h : Heap} {mem : BitVec 32} {fuel : Nat}
    (hfound : h.firstFit size fuel p = .ok (some mem)) :
    (h.get mem).used = 0 ∧ size ≤ h.dataSize mem := by
  induction fuel generalizing p with
  | zero => simp [Heap.firstFit] at hfound
  | succ fuel ih =>
    rw [Heap.firstFit] at hfound
    split at hfound
    case isFalse => simp at hfound
    case isTrue =>
      split at hfound
      case isTrue hfits =>
        simp only [exec_pure_ok, Option.some.injEq] at hfound
        exact hfound ▸ hfits
      case isFalse => exact ih hfound

theorem place_zero (ht : r.heap.Tiles bs) : r.heap.Places bs 0 :=
  @Heap.Tiles.place_of_total r.heap [] bs 0 ht rfl

theorem place_lfree (hi : r.heap.Inv bs) : r.heap.Places bs r.lfree := by
  obtain hend | ⟨s, hhas⟩ := hi.hinted
  · exact .inl hend
  · exact .inr ⟨_, hhas⟩

/-- The new headers of a call are at old places, or inside a block that was free. -/
def InFree (r : RawHeap) (bs : List Block) (q : BitVec 32) : Prop :=
  r.heap.Places bs q ∨ ∃ o s, Has 0 bs o ⟨s, false⟩ ∧ o + 12 ≤ q.toNat ∧ q.toNat + 12 ≤ o + s

/-- There is nothing for `rt_malloc` to take. -/
def NothingFits (h : Heap) (size : BitVec 32) : Prop :=
  size = 0 ∨ h.memSizeAligned < rtAlign size rtAlignSize ∨
    h.firstFit (Heap.mallocSize size) h.fuel h.lfree = .ok none

/-- What `rt_malloc` asserts of the block that it has taken. -/
def Asserted (heapPtr heapEnd mem size : BitVec 32) : Prop :=
  heapPtr + mem + sizeofStructMem + size ≤ heapPtr + heapEnd ∧
    (heapPtr + mem + sizeofStructMem) % rtAlignSize = 0 ∧
    heapPtr + mem &&& (rtAlignSize - 1) = 0

/-- `rt_malloc` takes the block `mem`. -/
structure Takes (h : Heap) (size mem lfree : BitVec 32) : Prop where
  nonzero : ¬ size = 0
  fits : ¬ h.memSizeAligned < rtAlign size rtAlignSize
  found : h.firstFit (Heap.mallocSize size) h.fuel h.lfree = .ok (some mem)
  after : (h.takeBlock mem (Heap.mallocSize size)).lfreeAfter mem = .ok lfree
  asserted : Asserted (h.takeBlock mem (Heap.mallocSize size)).heapPtr
    (h.takeBlock mem (Heap.mallocSize size)).heapEnd mem (Heap.mallocSize size)

theorem rtMalloc_inv {h : Heap} {result : Option (BitVec 32)}
    (hrun : h.rtMalloc size = .ok (h', result)) :
    (h' = h ∧ result = none ∧ NothingFits h size) ∨
      ∃ mem lfree, Takes h size mem lfree ∧
        h' = { h.takeBlock mem (Heap.mallocSize size) with lfree } ∧
        result =
          some ((h.takeBlock mem (Heap.mallocSize size)).heapPtr + mem + sizeofStructMem) := by
  rw [Heap.rtMalloc] at hrun
  split at hrun
  case isTrue hzero =>
    simp only [exec_pure_ok, Prod.mk.injEq] at hrun
    exact .inl ⟨hrun.1.symm, hrun.2.symm, .inl hzero⟩
  case isFalse hzero =>
    split at hrun
    case isTrue hlarge =>
      simp only [exec_pure_ok, Prod.mk.injEq] at hrun
      exact .inl ⟨hrun.1.symm, hrun.2.symm, .inr (.inl hlarge)⟩
    case isFalse hlarge =>
      simp only [exec_bind_ok] at hrun
      obtain ⟨found, hfound, hrun⟩ := hrun
      cases found with
      | none =>
        simp only [exec_pure_ok, Prod.mk.injEq] at hrun
        exact .inl ⟨hrun.1.symm, hrun.2.symm, .inr (.inr hfound)⟩
      | some mem =>
        simp only [exec_bind_ok, rtAssert_eq_ok, exec_pure_ok, Prod.mk.injEq] at hrun
        obtain ⟨lfree, hafter, -, hend, -, hmod, -, hand, hh, hresult⟩ := hrun
        exact .inr ⟨mem, lfree, ⟨hzero, hlarge, hfound, hafter, hend, hmod, hand⟩, hh.symm,
          hresult.symm⟩

theorem rtMalloc_nothing (hi : r.heap.Inv bs) (hnone : NothingFits r.heap size) :
    r.rtMalloc size = .ok (r, none) := by
  rw [RawHeap.rtMalloc]
  split
  case isTrue => rfl
  case isFalse hzero =>
    split
    case isTrue => rfl
    case isFalse hlarge =>
      have hfound := (hnone.resolve_left hzero).resolve_left hlarge
      have hsame := (@Follows.firstFit _ _ (Heap.mallocSize size) _ _ _ (follows_heap hi)
        r.heap.fuel (place_lfree hi)).1
      exact exec_bind_ok.mpr ⟨none, hsame.trans hfound, rfl⟩

/-- The block that `rt_malloc` takes is free, and is large enough. -/
theorem Takes.block {mem lfree : BitVec 32} (ht : Takes r.heap size mem lfree)
    (hi : r.heap.Inv bs) :
    ∃ s, Has 0 bs mem.toNat ⟨s, false⟩ ∧ (r.heap.dataSize mem).toNat + 12 = s ∧
      (Heap.mallocSize size).toNat + 12 ≤ s := by
  obtain ⟨hused, hfits⟩ := firstFit_some ht.found
  have hplace := (@Follows.firstFit _ _ (Heap.mallocSize size) _ _ _ (follows_heap hi) _
    (place_lfree hi)).2 mem ht.found
  obtain rfl | ⟨⟨s, u⟩, hhas⟩ := hplace
  · have hend := hi.tiles.last.used
    rw [Heap.get, hend] at hused
    exact absurd hused (by decide)
  · obtain ⟨xs, ys, rfl, ho⟩ := has_iff_split.mp hhas
    rw [Nat.zero_add] at ho
    have hdata := hi.tiles.dataSize ho
    obtain rfl : u = false := (hi.tiles.header ho).used_eq_zero.mp hused
    simp only at hdata
    rw [BitVec.le_def] at hfits
    exact ⟨s, hhas, hdata, by omega⟩

/-- `rt_malloc` on the memory. -/
theorem rtMalloc_follows (hi : r.heap.Inv bs) {result : Option (BitVec 32)}
    (hrun : r.heap.rtMalloc size = .ok (h', result)) :
    ∃ r' S, r.rtMalloc size = .ok (r', result) ∧ Follows S r.memory r' h' ∧
      (∀ q, r.heap.Places bs q → S q) ∧ (∀ q, S q → r.InFree bs q) ∧ (result = none → r' = r) := by
  have hf := follows_heap hi
  obtain ⟨rfl, rfl, hnone⟩ | ⟨mem, lfree, ht, rfl, rfl⟩ := rtMalloc_inv hrun
  · exact ⟨r, _, rtMalloc_nothing hi hnone, hf, fun _ => id, fun _ => .inl, fun _ => rfl⟩
  · obtain ⟨s, hhas, hdata, hsize⟩ := ht.block hi
    have hlt := hi.tiles.place_lt hhas
    have hroom := hi.tiles.room
    have hmem : r.heap.Places bs mem := .inr ⟨_, hhas⟩
    -- the rest of the block gets a header if it is large enough
    have hrest : Heap.mallocSize size + sizeofStructMem + minSizeAligned ≤ r.heap.dataSize mem →
        mem.toNat + 12 ≤ (mem + sizeofStructMem + Heap.mallocSize size).toNat ∧
          (mem + sizeofStructMem + Heap.mallocSize size).toNat + 12 ≤ mem.toNat + s := by
      intro hle
      rw [sizeofStructMem_eq] at hle ⊢
      rw [minSizeAligned_eq, BitVec.le_def] at hle
      bv_omega
    have htake := hf.takeBlock hi.tiles.spaced hmem fun hle =>
      hi.tiles.grows hhas (hrest hle).1 (hrest hle).2
    generalize hS : (if Heap.mallocSize size + sizeofStructMem + minSizeAligned ≤
      r.heap.dataSize mem then _ else _) = S at htake
    have hsub : ∀ q, r.heap.Places bs q → S q := by
      rw [← hS]
      split
      · exact fun q => .inl
      · exact fun q => id
    have honly : ∀ q, S q → r.InFree bs q := by
      rw [← hS]
      split
      case isTrue hle =>
        rintro q (hq | rfl)
        · exact .inl hq
        · exact .inr ⟨_, s, hhas, hrest hle⟩
      case isFalse => exact fun q => .inl
    refine ⟨{ r.takeBlock mem (Heap.mallocSize size) with lfree }, S, ?_, htake.setLfree lfree,
      hsub, honly, fun hnone => by simp at hnone⟩
    have hfound := (@Follows.firstFit _ _ (Heap.mallocSize size) _ _ _ hf r.heap.fuel
      (place_lfree hi)).1
    have hlarge : ¬ r.memSizeAligned < rtAlign size rtAlignSize := ht.fits
    have hasserted := ht.asserted
    rw [← htake.heapPtr, ← htake.heapEnd] at hasserted
    rw [RawHeap.rtMalloc, if_neg ht.nonzero, if_neg hlarge, ← htake.heapPtr]
    refine exec_bind_ok.mpr ⟨some mem, hfound.trans ht.found, ?_⟩
    dsimp only
    refine exec_bind_ok.mpr ⟨lfree, htake.lfreeAfter (hsub mem hmem) ht.after, ?_⟩
    simp only [exec_bind_ok, rtAssert_eq_ok, exists_const]
    exact ⟨hasserted.1, hasserted.2.1, hasserted.2.2, rfl⟩

/-- `rt_free` on the memory. -/
theorem rtFree_follows (hi : r.heap.Inv bs) (hhas : Has 0 bs o b)
    (hrun : r.heap.rtFree (some (r.heap.dataAt o)) = .ok h') :
    ∃ r', r.rtFree (some (r.heap.dataAt o)) = .ok r' ∧
      Follows (r.heap.Places bs) r.memory r' h' := by
  have hf := follows_heap hi
  have hs := hi.tiles.spaced
  obtain ⟨xs, ys, hbs, ho⟩ := has_iff_split.mp hhas
  rw [Nat.zero_add] at ho
  subst ho
  obtain ⟨hmem, hnat⟩ := (hbs ▸ hi : r.heap.Inv (xs ++ b :: ys)).dataAt
  have hplace : r.heap.Places bs (BitVec.ofNat 32 (total xs)) := .inr ⟨b, by rwa [hnat]⟩
  simp only [Heap.rtFree, exec_bind_ok, rtAssert_eq_ok, hmem] at hrun
  obtain ⟨-, haligned, -, hinside, -, hused, -, hmagic, hplug⟩ := hrun
  generalize BitVec.ofNat 32 (total xs) = mem at hmem hplace hused hmagic hplug
  have hmark : Follows (r.heap.Places bs) r.memory
      (r.modify mem fun m => { m with used := 0, magic := heapMagic })
      (r.heap.modify mem fun m => { m with used := 0, magic := heapMagic }) :=
    hf.mark hs hplace fun m => ⟨rfl, rfl⟩
  have hlow := hmark.setLfree (if mem < r.lfree then mem else r.lfree)
  have hless := hlow.setUsedMem (r.usedMem -
    (((r.heap.modify mem fun m => { m with used := 0, magic := heapMagic }).get mem).next - mem))
  obtain ⟨r', hr', hf'⟩ := hless.plugHoles hs hplace hplug
  refine ⟨r', ?_, hf'⟩
  rw [heap_get] at hused hmagic
  rw [← hmark.headers mem hplace] at hr'
  have hmem' : r.heap.dataAt (total xs) - sizeofStructMem - r.heapPtr = mem := hmem
  simp only [RawHeap.rtFree, exec_bind_ok, rtAssert_eq_ok, hmem']
  exact ⟨(), haligned, (), hinside, (), hused, (), hmagic, hr'⟩

/-- A heap in memory as it is between calls.  One without room for a block never grants one. -/
structure Ordered (r : RawHeap) (bs : List Block) : Prop where
  inv : r.heap.Inv bs
  room : 12 ≤ r.memSizeAligned.toNat

/-- A new heap is in order. -/
theorem rtSystemHeapInit_ordered {r₀ : RawHeap} {beginAddr endAddr : BitVec 32}
    (hused : r₀.usedMem = 0) (hinit : r₀.rtSystemHeapInit beginAddr endAddr = some r)
    (hroom : 12 ≤ r.memSizeAligned.toNat) :
    r.Ordered [⟨r.memSizeAligned.toNat + 12, false⟩] := by
  rw [RawHeap.rtSystemHeapInit] at hinit
  split at hinit
  case isFalse => simp at hinit
  case isTrue hcond =>
    obtain rfl := Option.some.inj hinit
    have hinit' : Heap.rtSystemHeapInit beginAddr endAddr r₀.heap = some _ := if_pos hcond
    have hi := (Heap.rtSystemHeapInit_inv hused hinit').1
    refine ⟨hi.congr rfl fun p hp => ?_, hroom⟩
    generalize hsize : rtAlignDown endAddr rtAlignSize - rtAlign beginAddr rtAlignSize -
      2 * sizeofStructMem = size at *
    have hlast : (size + sizeofStructMem).toNat = size.toNat + 12 := hi.tiles.end_eq
    have hroom' : _ + (size + sizeofStructMem).toNat + 12 < 2 ^ 32 := hi.tiles.room
    rw [heap_get]
    obtain rfl | ⟨b, hb⟩ := hp
    · exact get_put_self.trans get_put_same.symm
    · rw [has_cons] at hb
      have hp : p.toNat = 0 := by
        obtain ⟨heq, -⟩ | hnil := hb
        · exact heq
        · simp at hnil
      obtain rfl : p = 0 := BitVec.eq_of_toNat_eq hp
      have hne : (0 : BitVec 32) ≠ size + sizeofStructMem := fun heq => by
        rw [← heq] at hlast
        simp at hlast
      have hfirst : 12 ≤ (0 - (size + sizeofStructMem)).toNat := by bv_omega
      have hfirst' : 12 ≤ (size + sizeofStructMem - 0).toNat := by bv_omega
      exact ((get_put_of_apart hfirst hfirst').trans get_put_self).trans
        ((get_put_other hne).trans get_put_same).symm

/-- After a call that has left the region as it is. -/
theorem Ordered.after (ho : r.Ordered bs) (hf : Follows S before r' h') (hi : h'.Inv bs')
    (hsame : r.heap.SameRegion h') (hS : ∀ q, r.heap.Places bs q → S q) :
    r'.Ordered bs' ∧ r'.heapPtr = r.heapPtr := by
  refine ⟨⟨hf.inv hi (hS _ (place_zero ho.inv.tiles)) ?_, ?_⟩, hf.heapPtr.trans hsame.heapPtr⟩
  · rw [hsame.heapEnd]
    exact hS _ (.inl rfl)
  · rw [hf.memSizeAligned, hsame.memSizeAligned]
    exact ho.room

/-- The data of the blocks in use is as it has been. -/
def KeepsData (r r' : RawHeap) (bs : List Block) : Prop :=
  ∀ o n, Has 0 bs o ⟨n, true⟩ → SameData r r' (r.heap.dataAt o) (r.heap.dataAt o) (n - 12)

theorem Ordered.rtFree (ho : r.Ordered bs) (hhas : Has 0 bs o ⟨s, true⟩) :
    ∃ r' bs', r.rtFree (some (r.heap.dataAt o)) = .ok r' ∧ r'.Ordered bs' ∧
      r'.heapPtr = r.heapPtr ∧ r.KeepsData r' bs ∧
      ∀ o' m, Has 0 bs' o' ⟨m, true⟩ ↔ Has 0 bs o' ⟨m, true⟩ ∧ o' ≠ o := by
  obtain ⟨h', bs', hrun, hi', -, hsame, hinUse⟩ := ho.inv.rtFree hhas
  obtain ⟨r', hr', hf⟩ := rtFree_follows ho.inv hhas hrun
  obtain ⟨ho', hptr⟩ := ho.after hf hi' hsame fun _ => id
  refine ⟨r', bs', hr', ho', hptr, fun o' n hhas' => ?_, hinUse⟩
  have hsize := (ho.inv.tiles.place_lt hhas').2
  simp only at hsize
  exact hf.sameData ho.inv.tiles hptr hhas' (by simp only; omega) fun q hq => .inl hq

theorem Ordered.rtMalloc (ho : r.Ordered bs) (size : BitVec 32) :
    r.rtMalloc size = .ok (r, none) ∨
    ∃ r' bs' o n, r.rtMalloc size = .ok (r', some (r.heap.dataAt o)) ∧ r'.Ordered bs' ∧
      r'.heapPtr = r.heapPtr ∧ r.KeepsData r' bs ∧ Has 0 bs' o ⟨n, true⟩ ∧
      (Heap.mallocSize size).toNat + 12 ≤ n ∧
      ∀ o' m, Has 0 bs o' ⟨m, true⟩ → o' ≠ o ∧ Has 0 bs' o' ⟨m, true⟩ := by
  obtain hnone | ⟨h', bs', o, n, hsome, hi', -, hsame, hhas, hn, -, hkept⟩ :=
    ho.inv.rtMalloc ho.room size
  · obtain ⟨r', -, hr', -, -, -, hsame⟩ := rtMalloc_follows ho.inv hnone
    rw [hsame rfl] at hr'
    exact .inl hr'
  · obtain ⟨r', S, hr', hf, hsub, honly, -⟩ := rtMalloc_follows ho.inv hsome
    obtain ⟨ho', hptr⟩ := ho.after hf hi' hsame hsub
    refine .inr ⟨r', bs', o, n, hr', ho', hptr, fun o' m hhas' => ?_, hhas, hn, hkept⟩
    have hsize := ho.inv.tiles.place_lt hhas'
    simp only at hsize
    refine hf.sameData ho.inv.tiles hptr hhas' (by simp only; omega) fun q hq => ?_
    obtain hplace | ⟨o₁, s₁, hfree, hlo, hhi⟩ := honly q hq
    · exact .inl hplace
    · -- the free block is another one
      have hlt := ho.inv.tiles.place_lt hfree
      obtain ⟨-, heq⟩ | hle | hle := hhas'.disjoint hfree
      · simp at heq
      · simp only at hle hlt
        exact .inr ⟨by show q.toNat < r.heap.heapEnd.toNat; omega, .inr (by omega)⟩
      · simp only at hle hlt
        exact .inr ⟨by show q.toNat < r.heap.heapEnd.toNat; omega, .inl (by omega)⟩

/-- A block in use is cut to `size` bytes of data. -/
theorem Ordered.shrink (ho : r.Ordered bs) (hhas : Has 0 bs o ⟨n + s, true⟩) {mem : BitVec 32}
    (hmem : mem.toNat = o) (hsize : size.toNat + 12 = n) (hmod : n % 4 = 0) (hn : 16 ≤ n)
    (hs : 12 ≤ s) :
    ∃ r' bs', ({ r with usedMem := r.usedMem - BitVec.ofNat 32 s }.splitBlock mem size).plugHoles
        (mem + sizeofStructMem + size) = .ok r' ∧ r'.Ordered bs' ∧ r'.heapPtr = r.heapPtr ∧
      SameData r r' (r.heap.dataAt o) (r.heap.dataAt o) size.toNat ∧
      (∀ o' m, Has 0 bs o' ⟨m, true⟩ → o' ≠ o →
        SameData r r' (r.heap.dataAt o') (r.heap.dataAt o') (m - 12)) ∧
      ∀ o' m, Has 0 bs' o' ⟨m, true⟩ ↔ (Has 0 bs o' ⟨m, true⟩ ∧ o' ≠ o) ∨ (o' = o ∧ m = n) := by
  obtain ⟨h', bs', hplug, hi', -, hsame, hinUse⟩ := ho.inv.shrink hhas hmem hsize hmod hn hs
  have htiles := ho.inv.tiles
  have hroom := htiles.room
  have hlt := htiles.place_lt hhas
  simp only at hlt
  have hnew : (mem + sizeofStructMem + size).toNat = o + n := by
    rw [sizeofStructMem_eq]
    bv_omega
  have hgrows : Grows (r.heap.Places bs) _ (mem + sizeofStructMem + size) :=
    htiles.grows hhas (by omega) (by simp only; omega)
  have hplace : r.heap.Places bs mem := .inr ⟨_, hmem ▸ hhas⟩
  have hsplit := ((follows_heap ho.inv).setUsedMem
    (r.usedMem - BitVec.ofNat 32 s)).splitBlock hplace hgrows
  obtain ⟨r', hr', hf⟩ := hsplit.plugHoles hgrows.spaced hgrows.new hplug
  obtain ⟨ho', hptr⟩ := ho.after hf hi' hsame hgrows.sub
  have hend : (mem + sizeofStructMem + size).toNat < r.heapEnd.toNat := by
    show _ < r.heap.heapEnd.toNat
    omega
  refine ⟨r', bs', hr', ho', hptr, ?_, fun o' m hhas' hne => ?_, hinUse⟩
  · refine hf.sameData htiles hptr hhas (by simp only; omega) fun q hq => ?_
    obtain hq | rfl := hq
    · exact .inl hq
    · exact .inr ⟨hend, .inr (by omega)⟩
  · have hlt' := htiles.place_lt hhas'
    simp only at hlt'
    refine hf.sameData htiles hptr hhas' (by simp only; omega) fun q hq => ?_
    obtain hq | rfl := hq
    · exact .inl hq
    · refine .inr ⟨hend, ?_⟩
      obtain ⟨heq, -⟩ | hle | hle := hhas'.disjoint hhas
      · exact absurd heq hne
      · simp only at hle
        exact .inr (by omega)
      · simp only at hle
        exact .inl (by omega)

/-- Data is copied from one block in use to another. -/
theorem Ordered.copy (ho : r.Ordered bs) {o₁ : Nat} (hhas : Has 0 bs o ⟨s, true⟩)
    (hhas₁ : Has 0 bs o₁ ⟨n, true⟩) (hne : o ≠ o₁) {len : BitVec 32} (hlen : len.toNat + 12 ≤ s)
    (hlen₁ : len.toNat + 12 ≤ n)
    (hr : r' = { r with
      memory := rtMemcpy r.memory (r.heap.dataAt o₁) (r.heap.dataAt o) len }) :
    r'.Ordered bs ∧ SameData r r' (r.heap.dataAt o) (r.heap.dataAt o₁) len.toNat ∧
      ∀ o' m, Has 0 bs o' ⟨m, true⟩ → o' ≠ o₁ →
        SameData r r' (r.heap.dataAt o') (r.heap.dataAt o') (m - 12) := by
  subst hr
  have htiles := ho.inv.tiles
  have hroom : r.heapPtr.toNat + r.heapEnd.toNat + 12 < 2 ^ 32 := htiles.room
  have hlt : o + s ≤ r.heapEnd.toNat ∧ 12 ≤ s := htiles.place_lt hhas
  have hlt₁ : o₁ + n ≤ r.heapEnd.toNat ∧ 12 ≤ n := htiles.place_lt hhas₁
  have hdata : ∀ o, r.heap.dataAt o = BitVec.ofNat 32 (r.heapPtr.toNat + o + 12) := fun _ => rfl
  -- the two blocks do not overlap, so that the order of the bytes is all the same
  have hfits : (r.heap.dataAt o - r.heap.dataAt o₁).toNat + len.toNat ≤ 2 ^ 32 := by
    rw [hdata, hdata]
    obtain ⟨heq, -⟩ | hle | hle := hhas.disjoint hhas₁
    · exact absurd heq hne
    · simp only at hle
      bv_omega
    · simp only at hle
      bv_omega
  -- outside of the new block nothing is written
  have hfar : ∀ a : BitVec 32, len.toNat ≤ (a - r.heap.dataAt o₁).toNat →
      rtMemcpy r.memory (r.heap.dataAt o₁) (r.heap.dataAt o) len a = r.memory a := by
    intro a ha
    rw [rtMemcpy_eq hfits]
    exact written_of_le ha
  refine ⟨⟨ho.inv.congr rfl fun p hp => ?_, ho.room⟩, fun k hk => ?_,
    fun o' m hhas' hne' k hk => ?_⟩
  · rw [heap_get, heap_get, get, get]
    congr 1
    refine loadWord_congr fun k hk => hfar _ ?_
    show len.toNat ≤ (r.heapPtr + p + BitVec.ofNat 32 k - r.heap.dataAt o₁).toNat
    rw [hdata]
    obtain rfl | ⟨c, hc⟩ := hp
    · show len.toNat ≤ (r.heapPtr + r.heapEnd + BitVec.ofNat 32 k - _).toNat
      bv_omega
    · have hlt' : p.toNat + c.size ≤ r.heapEnd.toNat ∧ 12 ≤ c.size := htiles.place_lt hc
      obtain ⟨heq, -⟩ | hle | hle := hhas₁.disjoint hc
      · bv_omega
      · simp only at hle
        bv_omega
      · bv_omega
  · show rtMemcpy _ _ _ len _ = _
    rw [rtMemcpy_eq hfits]
    exact written_of_lt hk (Nat.le_of_lt len.isLt)
  · refine hfar _ ?_
    have hlt' : o' + m ≤ r.heapEnd.toNat ∧ 12 ≤ m := htiles.place_lt hhas'
    rw [hdata, hdata]
    obtain ⟨heq, -⟩ | hle | hle := hhas'.disjoint hhas₁
    · exact absurd heq hne'
    · simp only at hle
      bv_omega
    · simp only at hle
      bv_omega

/-! ## Three ways through `rt_realloc` -/

/-- What `rt_realloc` finds of a block in use at `addr`, with the header at `mem`. -/
structure LiveAt (r : RawHeap) (addr mem size : BitVec 32) (o s : Nat) : Prop where
  mem_eq : addr - sizeofStructMem - r.heapPtr = mem
  toNat : mem.toNat = o
  size_eq : (r.get mem).next - mem - sizeofStructMem = size
  size : size.toNat + 12 = s
  legal : ¬ (addr < r.heapPtr ∨ r.heapPtr + r.heapEnd ≤ addr)

theorem Ordered.liveAt (ho : r.Ordered bs) (hhas : Has 0 bs o ⟨s, true⟩) :
    ∃ mem size, r.LiveAt (r.heap.dataAt o) mem size o s := by
  have hdata := ho.inv.data o s hhas
  obtain ⟨xs, ys, rfl, heq⟩ := has_iff_split.mp hhas
  rw [Nat.zero_add] at heq
  subst heq
  obtain ⟨hmem, hnat⟩ := ho.inv.dataAt
  have hheader := ho.inv.tiles.header hnat
  have hlt : total xs + s + total ys = r.heapEnd.toNat := ho.inv.tiles.total_lt
  have hroom : r.heapPtr.toNat + r.heapEnd.toNat + 12 < 2 ^ 32 := ho.inv.tiles.room
  refine ⟨BitVec.ofNat 32 (total xs), _, hmem, hnat, rfl, ?_, ?_⟩
  · have hnext := hheader.next
    rw [heap_get] at hnext
    simp only at hnext
    rw [sizeofStructMem_eq]
    bv_omega
  · show ¬ (BitVec.ofNat 32 (r.heapPtr.toNat + total xs + 12) < r.heapPtr ∨
      r.heapPtr + r.heapEnd ≤ BitVec.ofNat 32 (r.heapPtr.toNat + total xs + 12))
    bv_omega

/-- A request for `k` bytes, which is not for more than there is. -/
structure Asks (r : RawHeap) (newsize k : BitVec 32) : Prop where
  align : rtAlign newsize rtAlignSize = k
  fits : ¬ r.memSizeAligned < k
  nonzero : ¬ k = 0

section Paths

variable {addr mem k newsize : BitVec 32}

/-- `rt_realloc` returns the block as it is. -/
theorem LiveAt.rtRealloc_same (hl : r.LiveAt addr mem k o s) (ha : r.Asks newsize k) :
    r.rtRealloc (some addr) newsize = .ok (r, some addr) := by
  simp only [RawHeap.rtRealloc, ha.align, if_neg ha.fits, if_neg ha.nonzero, if_neg hl.legal,
    hl.mem_eq, hl.size_eq, if_pos]
  rfl

/-- `rt_realloc` cuts the block. -/
theorem LiveAt.rtRealloc_cut (hl : r.LiveAt addr mem size o s) (ha : r.Asks newsize k)
    (hne : ¬ size = k) (hless : k + sizeofStructMem + minSize < size)
    (hplug : ({ r with usedMem := r.usedMem - (size - k) }.splitBlock mem k).plugHoles
      (mem + sizeofStructMem + k) = .ok r') :
    r.rtRealloc (some addr) newsize = .ok (r', some addr) := by
  simp only [RawHeap.rtRealloc, ha.align, if_neg ha.fits, if_neg ha.nonzero, if_neg hl.legal,
    hl.mem_eq, hl.size_eq, if_neg hne, if_pos hless]
  exact exec_bind_ok.mpr ⟨r', hplug, rfl⟩

/-- `rt_realloc` asks for another block, and gets none. -/
theorem LiveAt.rtRealloc_none (hl : r.LiveAt addr mem size o s) (ha : r.Asks newsize k)
    (hne : ¬ size = k) (hless : ¬ k + sizeofStructMem + minSize < size)
    (hmalloc : r.rtMalloc k = .ok (r', none)) :
    r.rtRealloc (some addr) newsize = .ok (r', none) := by
  simp only [RawHeap.rtRealloc, ha.align, if_neg ha.fits, if_neg ha.nonzero, if_neg hl.legal,
    hl.mem_eq, hl.size_eq, if_neg hne, if_neg hless]
  exact exec_bind_ok.mpr ⟨_, hmalloc, rfl⟩

/-- `rt_realloc` moves the data to another block. -/
theorem LiveAt.rtRealloc_moved {addr' : BitVec 32} {r₁ r₂ : RawHeap}
    (hl : r.LiveAt addr mem size o s) (ha : r.Asks newsize k) (hne : ¬ size = k)
    (hless : ¬ k + sizeofStructMem + minSize < size)
    (hmalloc : r.rtMalloc k = .ok (r₁, some addr'))
    (hcopy : r₂ = { r₁ with
      memory := rtMemcpy r₁.memory addr' addr (if size < k then size else k) })
    (hfree : r₂.rtFree (some addr) = .ok r') :
    r.rtRealloc (some addr) newsize = .ok (r', some addr') := by
  subst hcopy
  simp only [RawHeap.rtRealloc, ha.align, if_neg ha.fits, if_neg ha.nonzero, if_neg hl.legal,
    hl.mem_eq, hl.size_eq, if_neg hne, if_neg hless]
  exact exec_bind_ok.mpr ⟨_, hmalloc, exec_bind_ok.mpr ⟨r', hfree, rfl⟩⟩

end Paths

/-- The block has moved, or has been cut, or is as it was. -/
structure Reallocated (r r' : RawHeap) (bs' : List Block) (o s : Nat) (newsize : BitVec 32)
    (o₁ n : Nat) : Prop where
  live : Has 0 bs' o₁ ⟨n, true⟩
  enough : newsize.toNat + 12 ≤ n
  same : SameData r r' (r.heap.dataAt o) (r.heap.dataAt o₁) (min (s - 12) newsize.toNat)

/-- The other blocks in use stay, and so does their data. -/
def KeepsOthers (r r' : RawHeap) (bs bs' : List Block) (o : Nat) : Prop :=
  ∀ o' m, Has 0 bs o' ⟨m, true⟩ → o' ≠ o →
    Has 0 bs' o' ⟨m, true⟩ ∧ SameData r r' (r.heap.dataAt o') (r.heap.dataAt o') (m - 12)

theorem SameData.refl (r : RawHeap) (addr : BitVec 32) (n : Nat) : SameData r r addr addr n :=
  fun _ _ => rfl

theorem SameData.mono {r r' : RawHeap} {addr addr' : BitVec 32} {m n : Nat}
    (h : SameData r r' addr addr' n) (hle : m ≤ n) : SameData r r' addr addr' m :=
  fun k hk => h k (Nat.lt_of_lt_of_le hk hle)

theorem SameData.trans {r r' r'' : RawHeap} {addr addr' addr'' : BitVec 32} {n : Nat}
    (h : SameData r r' addr addr' n) (h' : SameData r' r'' addr' addr'' n) :
    SameData r r'' addr addr'' n :=
  fun k hk => (h' k hk).trans (h k hk)

/-- `rt_realloc` grants a block. -/
def Grants (r : RawHeap) (bs : List Block) (o s : Nat) (newsize : BitVec 32) : Prop :=
  ∃ r' bs' o₁ n, r.rtRealloc (some (r.heap.dataAt o)) newsize =
    .ok (r', some (r.heap.dataAt o₁)) ∧ r'.Ordered bs' ∧ r'.heapPtr = r.heapPtr ∧
      r.KeepsOthers r' bs bs' o ∧ Reallocated r r' bs' o s newsize o₁ n

section Paths

variable {k newsize : BitVec 32}

theorem Ordered.realloc_same (ho : r.Ordered bs) (hhas : Has 0 bs o ⟨s, true⟩)
    (ha : r.Asks newsize k) (hle : newsize.toNat ≤ k.toNat) (heq : k.toNat + 12 = s) :
    r.Grants bs o s newsize := by
  obtain ⟨mem, size, hl⟩ := ho.liveAt hhas
  have hsize : size = k := by
    apply BitVec.eq_of_toNat_eq
    have := hl.size
    omega
  subst hsize
  exact ⟨r, bs, o, s, hl.rtRealloc_same ha, ho, rfl,
    fun o' m hhas' _ => ⟨hhas', .refl _ _ _⟩, hhas, by omega, .refl _ _ _⟩

theorem Ordered.realloc_cut (ho : r.Ordered bs) (hhas : Has 0 bs o ⟨s, true⟩)
    (ha : r.Asks newsize k) (hle : newsize.toNat ≤ k.toNat) (hmod : k.toNat % 4 = 0)
    (hless : k.toNat + 36 < s) : r.Grants bs o s newsize := by
  obtain ⟨mem, size, hl⟩ := ho.liveAt hhas
  have hsize := hl.size
  have hnonzero : k.toNat ≠ 0 := fun heq => ha.nonzero (BitVec.eq_of_toNat_eq heq)
  have hne : ¬ size = k := by
    rintro rfl
    omega
  have hless' : k + sizeofStructMem + minSize < size := by
    rw [sizeofStructMem_eq, minSize]
    bv_omega
  -- what is cut off
  obtain ⟨t, hrest, ht⟩ : ∃ t, s = k.toNat + 12 + t ∧ 12 ≤ t :=
    ⟨s - (k.toNat + 12), by omega, by omega⟩
  have hfreed : size - k = BitVec.ofNat 32 t := by bv_omega
  obtain ⟨r', bs', hplug, ho', hptr, hsame, hothers, hinUse⟩ :=
    ho.shrink (hrest ▸ hhas) hl.toNat rfl (by omega) (by omega) ht
  rw [← hfreed] at hplug
  refine ⟨r', bs', o, k.toNat + 12, hl.rtRealloc_cut ha hne hless' hplug, ho', hptr,
    fun o' m hhas' hne' => ⟨(hinUse o' m).mpr (.inl ⟨hhas', hne'⟩), hothers o' m hhas' hne'⟩,
    (hinUse _ _).mpr (.inr ⟨rfl, rfl⟩), by omega, hsame.mono (by omega)⟩

/-- `rt_realloc` has to allocate. -/
theorem Ordered.realloc_moved (ho : r.Ordered bs) (hhas : Has 0 bs o ⟨s, true⟩)
    (ha : r.Asks newsize k) (hle : newsize.toNat ≤ k.toNat) (hmod : k.toNat % 4 = 0)
    (hne : k.toNat + 12 ≠ s) (hless : ¬ k.toNat + 36 < s) :
    r.rtRealloc (some (r.heap.dataAt o)) newsize = .ok (r, none) ∨ r.Grants bs o s newsize := by
  obtain ⟨mem, size, hl⟩ := ho.liveAt hhas
  have hsize := hl.size
  have hend : r.heapEnd.toNat = r.memSizeAligned.toNat + 12 := ho.inv.tiles.end_eq
  have hroom : r.heapPtr.toNat + r.heapEnd.toNat + 12 < 2 ^ 32 := ho.inv.tiles.room
  have hfits := ha.fits
  rw [BitVec.not_lt, BitVec.le_def] at hfits
  have hne' : ¬ size = k := by
    rintro rfl
    exact hne hsize
  have hless' : ¬ k + sizeofStructMem + minSize < size := by
    rw [sizeofStructMem_eq, minSize]
    bv_omega
  -- `r₁` is the memory behind `rt_malloc`, `r₂` behind `rt_memcpy` and `r₃` behind `rt_free`
  obtain hnone | ⟨r₁, bs₁, o₁, n, hmalloc, ho₁, hptr₁, hkeeps₁, hhas₁, hn, hkept₁⟩ := ho.rtMalloc k
  · exact .inl (hl.rtRealloc_none ha hne' hless' hnone)
  · right
    have hk : k.toNat + 12 ≤ n := by
      have hle := (Heap.mallocSize_spec k).2.2.1
      rw [rtAlign_of_mod hmod] at hle
      omega
    have hdata : ∀ r' : RawHeap, r'.heapPtr = r.heapPtr → r'.heap.dataAt = r.heap.dataAt :=
      fun r' hptr => funext fun o =>
        congrArg (fun p : BitVec 32 => BitVec.ofNat 32 (p.toNat + o + 12)) hptr
    obtain ⟨len, hlen⟩ : ∃ len, len = if size < k then size else k := ⟨_, rfl⟩
    -- as much is copied as both blocks have
    have hlen_eq : len.toNat = min (s - 12) k.toNat := by
      rw [hlen]
      split
      case isTrue hlt =>
        rw [BitVec.lt_def] at hlt
        omega
      case isFalse hlt =>
        rw [BitVec.lt_def] at hlt
        omega
    obtain ⟨hne₁, hlive₁⟩ := hkept₁ o s hhas
    obtain ⟨r₂, hr₂⟩ : ∃ r₂, r₂ = { r₁ with
        memory := rtMemcpy r₁.memory (r₁.heap.dataAt o₁) (r₁.heap.dataAt o) len } := ⟨_, rfl⟩
    obtain ⟨ho₂, hcopied, hothers₂⟩ := ho₁.copy hlive₁ hhas₁ hne₁ (by omega) (by omega) hr₂
    have hptr₂ : r₂.heapPtr = r.heapPtr := by rw [hr₂, ← hptr₁]
    obtain ⟨r₃, bs₃, hfree, ho₃, hptr₃, hkeeps₃, hinUse₃⟩ := ho₂.rtFree hlive₁
    rw [hdata r₁ hptr₁] at hr₂ hcopied hothers₂
    rw [hdata r₂ hptr₂] at hfree
    rw [KeepsData, hdata r₂ hptr₂] at hkeeps₃
    rw [hlen] at hr₂
    refine ⟨r₃, bs₃, o₁, n, hl.rtRealloc_moved ha hne' hless' hmalloc hr₂ hfree, ho₃,
      hptr₃.trans hptr₂, fun o' m hhas' hne'' => ?_,
      (hinUse₃ _ _).mpr ⟨hhas₁, hne₁.symm⟩, by omega, ?_⟩
    -- the other blocks keep their data in all three steps
    · obtain ⟨hother, hstays⟩ := hkept₁ o' m hhas'
      exact ⟨(hinUse₃ _ _).mpr ⟨hstays, hne''⟩,
        ((hkeeps₁ o' m hhas').trans (hothers₂ o' m hstays hother)).trans (hkeeps₃ o' m hstays)⟩
    -- and the data of the old block is in the new one after them
    · have hbefore := (hkeeps₁ o s hhas).mono (show len.toNat ≤ s - 12 by omega)
      have hafter := (hkeeps₃ o₁ n hhas₁).mono (show len.toNat ≤ n - 12 by omega)
      exact ((hbefore.trans hcopied).trans hafter).mono (by omega)

/-- `rt_realloc` of a size that is not 0 grants a block or does nothing, and it does nothing only if
    the block would have to move. -/
theorem Ordered.realloc_nonzero (ho : r.Ordered bs) (hhas : Has 0 bs o ⟨s, true⟩)
    (hk : rtAlign newsize rtAlignSize = k) (hle : newsize.toNat ≤ k.toNat) (hzero : ¬ k = 0) :
    r.Grants bs o s newsize ∨
      r.rtRealloc (some (r.heap.dataAt o)) newsize = .ok (r, none) ∧ k.toNat + 12 ≠ s ∧
        ¬ k.toNat + 36 < s := by
  have hend : r.heapEnd.toNat = r.memSizeAligned.toNat + 12 := ho.inv.tiles.end_eq
  have hlt : o + s ≤ r.heapEnd.toNat ∧ 12 ≤ s := ho.inv.tiles.place_lt hhas
  have hmod : k.toNat % 4 = 0 := by
    rw [← hk, toNat_rtAlign]
    omega
  by_cases hlarge : r.memSizeAligned < k
  · refine .inr ⟨?_, ?_⟩
    · simp only [RawHeap.rtRealloc, hk, if_pos hlarge]
      rfl
    · rw [BitVec.lt_def] at hlarge
      omega
  have ha : r.Asks newsize k := ⟨hk, hlarge, hzero⟩
  by_cases heq : k.toNat + 12 = s
  · exact .inl (ho.realloc_same hhas ha hle heq)
  by_cases hless : k.toNat + 36 < s
  · exact .inl (ho.realloc_cut hhas ha hle hmod hless)
  · obtain hnone | hgrants := ho.realloc_moved hhas ha hle hmod heq hless
    · exact .inr ⟨hnone, heq, hless⟩
    · exact .inl hgrants

end Paths

/-- `rt_realloc` of 0 frees the block, and of another size it keeps the data: in the block, or in
    another one, or it fails and does nothing.  It does not fail for as much as there is, or for
    so much less that the rest becomes a block. -/
theorem rt_realloc_contents {newsize : BitVec 32} (ho : r.Ordered bs)
    (hhas : Has 0 bs o ⟨s, true⟩) (hsize : newsize ≤ r.memSizeAligned) :
    ∃ r' result bs', r.rtRealloc (some (r.heap.dataAt o)) newsize = .ok (r', result) ∧
      r'.Ordered bs' ∧ r'.heapPtr = r.heapPtr ∧ r.KeepsOthers r' bs bs' o ∧
      (newsize = 0 → result = none ∧ ∀ n, ¬ Has 0 bs' o ⟨n, true⟩) ∧
      (newsize ≠ 0 → (result = none ∧ r' = r ∧ bs' = bs) ∨
        ∃ o₁ n, result = some (r.heap.dataAt o₁) ∧ Reallocated r r' bs' o s newsize o₁ n) ∧
      ((rtAlign newsize rtAlignSize).toNat + 12 = s ∨
        newsize ≠ 0 ∧ (rtAlign newsize rtAlignSize).toNat + 36 < s → result ≠ none) := by
  obtain ⟨k, hk⟩ : ∃ k, rtAlign newsize rtAlignSize = k := ⟨_, rfl⟩
  have hk_eq := toNat_rtAlign newsize
  have hend : r.heapEnd.toNat = r.memSizeAligned.toNat + 12 := ho.inv.tiles.end_eq
  have hroom : r.heapPtr.toNat + r.heapEnd.toNat + 12 < 2 ^ 32 := ho.inv.tiles.room
  have hlt : o + s ≤ r.heapEnd.toNat ∧ 12 ≤ s := ho.inv.tiles.place_lt hhas
  have hdata := ho.inv.data o s hhas
  rw [BitVec.le_def] at hsize
  rw [hk] at hk_eq ⊢
  have hzero_iff : newsize = 0 ↔ k = 0 := by
    bv_omega
  by_cases hzero : k = 0
  · obtain ⟨r', bs', hfree, ho', hptr, hkeeps, hinUse⟩ := ho.rtFree hhas
    refine ⟨r', none, bs', ?_, ho', hptr, fun o' m hhas' hne =>
      ⟨(hinUse o' m).mpr ⟨hhas', hne⟩, hkeeps o' m hhas'⟩,
      fun _ => ⟨rfl, fun n hlive => ((hinUse o n).mp hlive).2 rfl⟩,
      fun hne => absurd (hzero_iff.mpr hzero) hne, ?_⟩
    · have hfits : ¬ r.memSizeAligned < 0 := BitVec.not_lt_zero
      simp only [RawHeap.rtRealloc, hk.trans hzero, if_neg hfits, if_pos]
      exact exec_bind_ok.mpr ⟨r', hfree, rfl⟩
    · rintro (heq | ⟨hne, -⟩)
      · have hnat : k.toNat = 0 := congrArg BitVec.toNat hzero
        omega
      · exact absurd (hzero_iff.mpr hzero) hne
  have hnonzero : newsize ≠ 0 := fun heq => hzero (hzero_iff.mp heq)
  obtain ⟨r', bs', o₁, n, hrun, ho', hptr, hothers, hmoved⟩ | ⟨hrun, hne, hless⟩ :=
    ho.realloc_nonzero hhas hk (by omega) hzero
  · exact ⟨r', _, bs', hrun, ho', hptr, hothers, fun heq => absurd heq hnonzero,
      fun _ => .inr ⟨o₁, n, rfl, hmoved⟩, fun _ => by simp⟩
  · refine ⟨r, none, bs, hrun, ho, rfl, fun o' m hhas' _ => ⟨hhas', .refl _ _ _⟩,
      fun heq => absurd heq hnonzero, fun _ => .inl ⟨rfl, rfl, rfl⟩, ?_⟩
    rintro (heq | ⟨-, hless'⟩)
    · exact absurd heq hne
    · exact absurd hless' hless

/-- A heap with 16 bytes for data, all of them in a block in use. -/
def fullHeap : RawHeap :=
  let r : RawHeap := {
    memory := fun _ => 0
    heapPtr := 0x20001000
    heapEnd := 28
    lfree := 28
    memSizeAligned := 16
    usedMem := 28
    maxMem := 28 }
  (r.put 0 ⟨heapMagic, 1, 28, 0⟩).put 28 ⟨heapMagic, 1, 28, 28⟩

theorem fullHeap_ordered : fullHeap.Ordered [⟨28, true⟩] := by
  have hfirst : fullHeap.get 0 = ⟨heapMagic, 1, 28, 0⟩ :=
    (get_put_of_apart (by decide) (by decide)).trans get_put_self
  have hlast : fullHeap.get 28 = ⟨heapMagic, 1, 28, 28⟩ := get_put_self
  refine ⟨⟨⟨⟨?_, trivial⟩, rfl, ?_, rfl, ?_, rfl, by decide⟩, List.isChain_singleton _, .inl rfl,
    rfl, fun o n hhas => ?_⟩, by decide⟩
  · show IsHeader (fullHeap.get 0) 0 28 true
    rw [hfirst]
    exact ⟨rfl, rfl, rfl, rfl⟩
  · show IsEnd (fullHeap.get 28) 28
    rw [hlast]
    exact ⟨rfl, rfl, rfl⟩
  · simp
  · have hblock := hhas.member
    simp at hblock
    omega

/-- There is nowhere to move 12 of the 16 bytes to; and 0 bytes are none. -/
theorem rt_realloc_contents_wrong :
    fullHeap.Ordered [⟨28, true⟩] ∧ Has 0 [⟨28, true⟩] 0 ⟨28, true⟩ ∧
      12 + 12 ≤ 28 ∧ (12 : BitVec 32) ≤ fullHeap.memSizeAligned ∧
      fullHeap.rtRealloc (some (fullHeap.heap.dataAt 0)) 12 = .ok (fullHeap, none) ∧
      ∃ r bs, fullHeap.rtRealloc (some (fullHeap.heap.dataAt 0)) 0 = .ok (r, none) ∧
        r.Ordered bs ∧ ∀ n, ¬ Has 0 bs 0 ⟨n, true⟩ := by
  have ho := fullHeap_ordered
  have hhas : Has 0 [⟨28, true⟩] 0 ⟨28, true⟩ := by simp
  refine ⟨ho, hhas, by decide, by decide, ?_, ?_⟩
  · obtain ⟨mem, size, hl⟩ := ho.liveAt hhas
    have hsize : size = 16 := BitVec.eq_of_toNat_eq (Nat.add_right_cancel hl.size)
    subst hsize
    exact hl.rtRealloc_none ⟨rfl, by decide, by decide⟩ (by decide) (by decide)
      (rtMalloc_nothing ho.inv (.inr (.inr rfl)))
  · obtain ⟨r, bs, hfree, ho', -, -, hinUse⟩ := ho.rtFree hhas
    exact ⟨r, bs, exec_bind_ok.mpr ⟨r, hfree, rfl⟩, ho',
      fun n hlive => ((hinUse 0 n).mp hlive).2 rfl⟩

/-- A heap with two blocks in use, of 48 and of 16 bytes, and no free one. -/
def twoBlocks : RawHeap :=
  let r : RawHeap := {
    memory := fun addr => addr.setWidth 8
    heapPtr := 0x20001000
    heapEnd := 88
    lfree := 88
    memSizeAligned := 76
    usedMem := 88
    maxMem := 88 }
  ((r.put 0 ⟨heapMagic, 1, 60, 0⟩).put 60 ⟨heapMagic, 1, 88, 0⟩).put 88 ⟨heapMagic, 1, 88, 88⟩

theorem twoBlocks_ordered : twoBlocks.Ordered [⟨60, true⟩, ⟨28, true⟩] := by
  have hlast : twoBlocks.get 88 = ⟨heapMagic, 1, 88, 88⟩ := get_put_self
  have hsecond : twoBlocks.get 60 = ⟨heapMagic, 1, 88, 0⟩ :=
    (get_put_of_apart (by decide) (by decide)).trans get_put_self
  have hfirst : twoBlocks.get 0 = ⟨heapMagic, 1, 60, 0⟩ :=
    (get_put_of_apart (by decide) (by decide)).trans
      ((get_put_of_apart (by decide) (by decide)).trans get_put_self)
  refine ⟨⟨⟨⟨?_, ?_, trivial⟩, rfl, ?_, rfl, ?_, rfl, by decide⟩, ?_, .inl rfl, rfl,
    fun o n hhas => ?_⟩, by decide⟩
  · show IsHeader (twoBlocks.get 0) 0 60 true
    rw [hfirst]
    exact ⟨rfl, rfl, rfl, rfl⟩
  · show IsHeader (twoBlocks.get 60) 0 88 true
    rw [hsecond]
    exact ⟨rfl, rfl, rfl, rfl⟩
  · show IsEnd (twoBlocks.get 88) 88
    rw [hlast]
    exact ⟨rfl, rfl, rfl⟩
  · simp
  · simp [Coalesced]
  · have hblock := hhas.member
    simp at hblock
    omega

/-- The first block is cut to 8 bytes, and the second one stays. -/
theorem rt_realloc_contents_cut :
    ∃ r result bs o₁ n, twoBlocks.rtRealloc (some (twoBlocks.heap.dataAt 0)) 8 = .ok (r, result) ∧
      r.Ordered bs ∧ result = some (twoBlocks.heap.dataAt o₁) ∧ Has 0 bs o₁ ⟨n, true⟩ ∧ 20 ≤ n ∧
      SameData twoBlocks r (twoBlocks.heap.dataAt 0) (twoBlocks.heap.dataAt o₁) 8 ∧
      Has 0 bs 60 ⟨28, true⟩ ∧
      SameData twoBlocks r (twoBlocks.heap.dataAt 60) (twoBlocks.heap.dataAt 60) 16 := by
  obtain ⟨r, result, bs, hrun, ho, -, hothers, -, hdoes, hgrants⟩ :=
    rt_realloc_contents twoBlocks_ordered
      (show Has 0 [⟨60, true⟩, ⟨28, true⟩] 0 ⟨60, true⟩ by simp)
      (show 8 ≤ twoBlocks.memSizeAligned by decide)
  have hsome := hgrants (.inr ⟨by decide, by decide⟩)
  obtain ⟨hlive, hsame⟩ := hothers 60 28 (by simp) (by decide)
  obtain ⟨hnone, -, -⟩ | ⟨o₁, n, hresult, hmoved⟩ := hdoes (by decide)
  · exact absurd hnone hsome
  · exact ⟨r, result, bs, o₁, n, hrun, ho, hresult, hmoved.live, hmoved.enough, hmoved.same,
      hlive, hsame⟩

end RawHeap

end PandoraRobot.Memory
