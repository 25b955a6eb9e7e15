import PandoraRobot.Memory.MemheapItems

/-! # What the calls do to a memory heap

One lemma for each edit of the two lists, and one for each call: how the blocks and the free
list change.
-/

namespace PandoraRobot.Memory

open PandoraRobot.Kernel PandoraRobot.Tiling PandoraRobot.LinkedRing

namespace RtMemheap

variable {h h' : RtMemheap} {bs xs ys : List Block} {b : Block} {free us ws : List Nat}
  {s n k r : Nat} {u v : Bool} {p q size : BitVec 32}

/-- `free_header` is outside of the pool. -/
structure HeaderApart (freeList freeHeader startAddr poolSize : BitVec 32) : Prop where
  freeList : freeList = freeHeader
  outside : freeHeader.toNat + 24 ≤ startAddr.toNat ∨
    startAddr.toNat + poolSize.toNat ≤ freeHeader.toNat
  fits : freeHeader.toNat + 24 ≤ 2 ^ 32

abbrev Apart (h : RtMemheap) : Prop :=
  HeaderApart h.freeList h.freeHeader h.startAddr h.poolSize

/-- The two lists of a heap.  Which items are in the free list is left open. -/
structure Linked (h : RtMemheap) (bs : List Block) (free : List Nat) : Prop where
  tiles : h.Tiles bs
  ring : h.FreeRing free
  apart : h.Apart

/-- What stays of a heap. -/
structure SameRegion (h h' : RtMemheap) : Prop where
  heapAddr : h'.heapAddr = h.heapAddr
  freeHeader : h'.freeHeader = h.freeHeader
  startAddr : h'.startAddr = h.startAddr
  poolSize : h'.poolSize = h.poolSize

theorem SameRegion.refl (h : RtMemheap) : SameRegion h h := ⟨rfl, rfl, rfl, rfl⟩

theorem SameRegion.trans {h'' : RtMemheap} (hs : SameRegion h h') (hs' : SameRegion h' h'') :
    SameRegion h h'' :=
  ⟨hs'.heapAddr.trans hs.heapAddr, hs'.freeHeader.trans hs.freeHeader,
    hs'.startAddr.trans hs.startAddr, hs'.poolSize.trans hs.poolSize⟩

/-! ## Edits of the lists -/

/-- An address of the pool is not that of `free_header`. -/
theorem Linked.ne_header (hl : h.Linked (xs ++ b :: ys) free)
    (hp : p.toNat = h.startAddr.toNat + total xs) : p.toNat ≠ h.freeHeader.toNat := by
  have hstop := hl.tiles.stop_eq
  have hb := hl.tiles.size b (by simp)
  have houtside := hl.apart.outside
  omega

theorem Linked.available (hl : h.Linked bs free) (availableSize : BitVec 32) :
    Linked { h with availableSize } bs free := ⟨hl.tiles, hl.ring, hl.apart⟩

theorem Linked.setAvailable (hl : h.Linked bs free) (availableSize : BitVec 32) :
    (h.setAvailable availableSize).Linked bs free := ⟨hl.tiles, hl.ring, hl.apart⟩

theorem Linked.setUsed (hl : h.Linked (xs ++ ⟨s, u⟩ :: ys) free) (hys : ys ≠ [])
    (hp : p.toNat = h.startAddr.toNat + total xs) :
    Linked (h.modifyHead p fun m => { m with magic := m.magic ||| rtMemheapUsed })
      (xs ++ ⟨s, true⟩ :: ys) free := by
  refine ⟨hl.tiles.mark hys hp fun m prev next hitem => hitem.mark, ?_, hl.apart⟩
  have hring := hl.ring
  unfold FreeRing at *
  rwa [freeNext_modifyHead, freePrev_modifyHead]

theorem Linked.clearUsed (hl : h.Linked (xs ++ ⟨s, u⟩ :: ys) free) (hys : ys ≠ [])
    (hp : p.toNat = h.startAddr.toNat + total xs) :
    Linked (h.modifyHead p fun m => { m with magic := m.magic &&& ~~~rtMemheapUsed })
      (xs ++ ⟨s, false⟩ :: ys) free := by
  refine ⟨hl.tiles.mark hys hp fun m prev next hitem => hitem.unmark, ?_, hl.apart⟩
  have hring := hl.ring
  unfold FreeRing at *
  rwa [freeNext_modifyHead, freePrev_modifyHead]

theorem Linked.removeFree (hl : h.Linked bs (us ++ p.toNat :: ws)) :
    (h.removeFree p).Linked bs (us ++ ws) := by
  refine ⟨?_, hl.ring.removeFree, hl.apart⟩
  have htiles := hl.tiles
  unfold Tiles at *
  rwa [heads_removeFree]

theorem Linked.insertFree (hl : h.Linked (xs ++ b :: ys) free)
    (hp : p.toNat = h.startAddr.toNat + total xs) (hnot : p.toNat ∉ free) :
    (h.insertFree p).Linked (xs ++ b :: ys) (p.toNat :: free) := by
  have hne := hl.ne_header hp
  refine ⟨?_, hl.ring.insertFree hl.apart.freeList ?_, hl.apart⟩
  · have htiles := hl.tiles
    unfold Tiles at *
    rwa [heads_insertFree]
  · rw [List.mem_cons, not_or]
    exact ⟨hne, hnot⟩

/-- The links of an item that is not in the free list do not matter. -/
theorem Linked.clearFree (hl : h.Linked (xs ++ b :: ys) free)
    (hp : p.toNat = h.startAddr.toNat + total xs) (hnot : p.toNat ∉ free) :
    (h.clearFree p).Linked (xs ++ b :: ys) free := by
  have hne := hl.ne_header hp
  have hother (a : Nat) (ha : a ∈ h.freeHeader.toNat :: free) : a ≠ p.toNat := by
    rintro rfl
    rw [List.mem_cons] at ha
    exact ha.elim hne hnot
  refine ⟨?_, Ring.congr hl.ring (fun a ha => ?_) fun a ha => ?_, hl.apart⟩
  · have htiles := hl.tiles
    unfold Tiles at *
    rwa [heads_clearFree]
  · rw [RtMemheap.clearFree, freeNext_setPrevFree, freeNext_setNextFree,
      Function.update_of_ne (hother a ha)]
  · rw [RtMemheap.clearFree, freePrev_setPrevFree, freePrev_setNextFree,
      Function.update_of_ne (hother a ha)]

/-- Where the items of the free list are, seen from one block. -/
def Around (xs : List Block) (k : Nat) (h : RtMemheap) (free : List Nat) : Prop :=
  ∀ a ∈ free, a = h.startAddr.toNat + total xs ∨ a + 24 ≤ h.startAddr.toNat + total xs ∨
    h.startAddr.toNat + total xs + k ≤ a

theorem Linked.splitItem (hl : h.Linked (xs ++ ⟨n + s, u⟩ :: ys) free) (hys : ys ≠ [])
    (hn : 24 ≤ n) (hs : 24 ≤ s) (hp : p.toNat = h.startAddr.toNat + total xs)
    (hq : q.toNat = h.startAddr.toNat + total xs + n) (hfree : Around xs (n + s) h free) :
    (h.splitItem p q).Linked (xs ++ ⟨n, u⟩ :: ⟨s, false⟩ :: ys) free := by
  refine ⟨hl.tiles.splitItem hys hn hs hp hq, hl.ring.splitItem fun a ha => ?_, hl.apart⟩
  have hstop := hl.tiles.stop_eq
  have houtside := hl.apart.outside
  simp only at hstop
  rw [List.mem_cons] at ha
  obtain rfl | ha := ha
  · omega
  · have := hfree a ha
    omega

/-! ### Two neighbours -/

theorem Tiles.get_next (ht : h.Tiles (xs ++ ⟨n, u⟩ :: b :: ys))
    (hp : p.toNat = h.startAddr.toNat + total xs)
    (hq : q.toNat = h.startAddr.toNat + total xs + n) : (h.get p).next = q := by
  apply BitVec.eq_of_toNat_eq
  show (h.heads p.toNat).next.toNat = _
  rw [hp, hq]
  exact ht.next_eq (by simp)

theorem Tiles.get_prev (ht : h.Tiles (xs ++ ⟨n, u⟩ :: b :: ys))
    (hp : p.toNat = h.startAddr.toNat + total xs)
    (hq : q.toNat = h.startAddr.toNat + total xs + n) : (h.get q).prev = p := by
  apply BitVec.eq_of_toNat_eq
  show (h.heads q.toNat).prev.toNat = _
  rw [hp, hq]
  exact ht.parts_next.prev

theorem Tiles.second (ht : h.Tiles (xs ++ ⟨n, u⟩ :: b :: ys)) :
    h.Tiles ((xs ++ [⟨n, u⟩]) ++ b :: ys) := by simpa using ht

theorem Tiles.get_after (ht : h.Tiles (xs ++ ⟨n, u⟩ :: ⟨s, v⟩ :: ys)) (hys : ys ≠ [])
    (hq : q.toNat = h.startAddr.toNat + total xs + n) :
    (h.get q).next.toNat = h.startAddr.toNat + total xs + n + s := by
  show (h.heads q.toNat).next.toNat = _
  have := ht.second.next_eq hys
  simp only [total_append, total_cons, total_nil, Nat.add_zero, ← Nat.add_assoc] at this
  rwa [hq]

/-- Two neighbours are joined. -/
theorem Linked.join (hl : h.Linked (xs ++ ⟨n, u⟩ :: ⟨s, v⟩ :: ys) free) (hys : ys ≠ [])
    (hp : p.toNat = h.startAddr.toNat + total xs)
    (hq : q.toNat = h.startAddr.toNat + total xs + n) :
    ((h.setPrev (h.get q).next p).setNext p (h.get q).next).Linked (xs ++ ⟨n + s, u⟩ :: ys) free := by
  have hn := hl.tiles.size ⟨n, u⟩ (by simp)
  have hafter := hl.tiles.get_after hys hq
  simp only at hn
  refine ⟨hl.tiles.join hys hp hq ?_ rfl rfl rfl, ?_, hl.apart⟩
  · rw [setNext, heads_modifyHead, setPrev, heads_modifyHead, joinedHeads,
      Function.update_of_ne (by omega)]
  · have hring := hl.ring
    unfold FreeRing at *
    rwa [setNext, freeNext_modifyHead, freePrev_modifyHead, setPrev, freeNext_modifyHead,
      freePrev_modifyHead]

/-- The second one of two neighbours is inserted into the free list. -/
theorem Linked.insertSecond (hl : h.Linked (xs ++ ⟨n, u⟩ :: b :: ys) free)
    (hq : q.toNat = h.startAddr.toNat + total xs + n) (hnot : q.toNat ∉ free) :
    (h.insertFree q).Linked (xs ++ ⟨n, u⟩ :: b :: ys) (q.toNat :: free) := by
  have hsecond : h.Linked ((xs ++ [⟨n, u⟩]) ++ b :: ys) free := by simpa using hl
  have hinserted := hsecond.insertFree (p := q) (by simpa [← Nat.add_assoc] using hq) hnot
  simpa using hinserted

/-- The right neighbour of an item is joined to it, and leaves the free list. -/
theorem Linked.mergeNext (hl : h.Linked (xs ++ ⟨n, u⟩ :: ⟨s, false⟩ :: ys) (us ++ q.toNat :: ws))
    (hp : p.toNat = h.startAddr.toNat + total xs)
    (hq : q.toNat = h.startAddr.toNat + total xs + n) :
    (h.mergeNext p).Linked (xs ++ ⟨n + s, u⟩ :: ys) (us ++ ws) := by
  have hys : ys ≠ [] := hl.tiles.second.rest_ne_nil (by simp)
  have hs := hl.tiles.size ⟨s, false⟩ (by simp)
  have hafter := hl.tiles.get_after hys hq
  simp only at hs
  have hget : (h.setPrev (h.get q).next p).get q = h.get q := get_modifyHead_of_ne (by omega)
  have hcode : h.mergeNext p =
      ((h.setPrev (h.get q).next p).setNext p (h.get q).next).removeFree q := by
    rw [RtMemheap.mergeNext]
    simp only [hl.tiles.get_next hp hq, hget]
  rw [hcode]
  exact (hl.join hys hp hq).removeFree

/-- An item is joined to its left neighbour. -/
theorem Linked.mergePrev (hl : h.Linked (xs ++ ⟨n, u⟩ :: ⟨s, v⟩ :: ys) free) (hys : ys ≠ [])
    (hp : p.toNat = h.startAddr.toNat + total xs)
    (hq : q.toNat = h.startAddr.toNat + total xs + n) :
    (h.mergePrev q).Linked (xs ++ ⟨n + s, u⟩ :: ys) free := by
  have hn := hl.tiles.size ⟨n, u⟩ (by simp)
  have hafter := hl.tiles.get_after hys hq
  simp only at hn
  have hget : (h.setNext p (h.get q).next).get q = h.get q := get_modifyHead_of_ne (by omega)
  have hcode : h.mergePrev q = (h.setPrev (h.get q).next p).setNext p (h.get q).next := by
    rw [RtMemheap.mergePrev]
    simp only [hl.tiles.get_prev hp hq, hget]
    exact modifyHead_comm (by omega)
  rw [hcode]
  exact hl.join hys hp hq

/-- An item is taken out of the circle: it is joined to its left neighbour. -/
theorem Linked.unlinkItem (hl : h.Linked (xs ++ ⟨n, u⟩ :: ⟨s, v⟩ :: ys) free) (hys : ys ≠ [])
    (hp : p.toNat = h.startAddr.toNat + total xs)
    (hq : q.toNat = h.startAddr.toNat + total xs + n) :
    (h.unlinkItem q).Linked (xs ++ ⟨n + s, u⟩ :: ys) free := by
  have hs := hl.tiles.size ⟨s, v⟩ (by simp)
  have hafter := hl.tiles.get_after hys hq
  simp only at hs
  have hget : (h.setPrev (h.get q).next p).get q = h.get q := get_modifyHead_of_ne (by omega)
  have hcode : h.unlinkItem q = (h.setPrev (h.get q).next p).setNext p (h.get q).next := by
    rw [RtMemheap.unlinkItem]
    simp only [hl.tiles.get_prev hp hq, hget]
  rw [hcode]
  exact hl.join hys hp hq

/-! ## The state between two calls -/

structure Inv (h : RtMemheap) (bs : List Block) (free : List Nat) : Prop where
  linked : h.Linked bs free
  coalesced : Coalesced bs
  /-- The free list has the free items, in any order. -/
  perm : free.Perm (freeStarts h.startAddr.toNat bs)
  available : h.availableSize.toNat = freeData 24 bs

theorem Linked.pool_lt (hl : h.Linked bs free) : h.poolSize.toNat + 24 ≤ 2 ^ 32 := by
  have houtside := hl.apart.outside
  have hfits := hl.apart.fits
  have hroom := hl.tiles.room
  omega

theorem Linked.freeData_lt (hl : h.Linked bs free) : freeData 24 bs + 24 ≤ 2 ^ 32 := by
  have hle := freeData_le 24 bs
  have htotal := hl.tiles.total_eq
  have hpool := hl.pool_lt
  omega

theorem perm_drop {l us ws as cs : List Nat} {a : Nat}
    (h : (l ++ (us ++ a :: ws)).Perm (as ++ a :: cs)) : (l ++ (us ++ ws)).Perm (as ++ cs) := by
  rw [← List.append_assoc] at h ⊢
  exact (List.perm_middle.symm.trans (h.trans List.perm_middle)).cons_inv

/-- An item in the free list, and the others. -/
theorem perm_split {l as cs : List Nat} {a : Nat} (h : l.Perm (as ++ a :: cs)) :
    ∃ us ws, l = us ++ a :: ws ∧ (us ++ ws).Perm (as ++ cs) := by
  have hmem : a ∈ l := h.mem_iff.mpr (by simp)
  obtain ⟨us, ws, rfl⟩ := List.append_of_mem hmem
  exact ⟨us, ws, rfl, perm_drop (l := []) h⟩

/-- The free items of other blocks are around a block. -/
theorem Tiles.around (ht : h.Tiles (xs ++ b :: ys))
    (hfree : ∀ a ∈ free, a = h.startAddr.toNat + total xs ∨
      a ∈ freeStarts h.startAddr.toNat xs ++
        freeStarts (h.startAddr.toNat + total xs + b.size) ys) :
    Around xs b.size h free := by
  intro a ha
  obtain heq | hmem := hfree a ha
  · exact .inl heq
  · rw [List.mem_append, mem_freeStarts, mem_freeStarts] at hmem
    obtain ⟨s, hxs⟩ | ⟨s, hys⟩ := hmem
    · have hbounds := hxs.bounds
      have hs := ht.size ⟨s, false⟩ (List.mem_append_left _ hxs.member)
      simp only at hbounds hs
      omega
    · have hbounds := hys.bounds
      omega

theorem Tiles.starts_nodup (ht : h.Tiles bs) : (freeStarts h.startAddr.toNat bs).Nodup :=
  freeStarts_nodup ht.pos

/-! ## The search -/

/-- The search finds a member of the rest of the free list that is large enough, or it ends at
    `free_header`. -/
theorem findFree_path : ∀ {fuel : Nat} {rest : List Nat} {a : Nat} {ptr freeSize : BitVec 32},
    Path h.freeNext h.freePrev a rest h.freeList.toNat → h.freeList.toNat ∉ rest →
    ptr.toNat = rest.headD h.freeList.toNat → freeSize < size → rest.length + 2 ≤ fuel →
    ∃ ptr' freeSize', h.findFree size fuel ptr freeSize = .ok (ptr', freeSize') ∧
      (freeSize' < size ∨
        ptr'.toNat ∈ rest ∧ freeSize' = h.memitemSize ptr' ∧ size ≤ freeSize') := by
  intro fuel
  induction fuel with
  | zero => intro rest a ptr freeSize _ _ _ _ hfuel; omega
  | succ fuel ih =>
    intro rest a ptr freeSize hpath hnot hptr hsize hfuel
    rw [RtMemheap.findFree]
    cases rest with
    | nil =>
      have heq : ptr = h.freeList := BitVec.eq_of_toNat_eq hptr
      rw [if_neg fun hcond => hcond.1 heq]
      exact ⟨ptr, freeSize, rfl, .inl hsize⟩
    | cons x rest =>
      have hx : ptr.toNat = x := hptr
      rw [List.mem_cons, not_or] at hnot
      have hne : ptr ≠ h.freeList := by
        rintro rfl
        exact hnot.1 hx
      rw [if_pos ⟨hne, hsize⟩]
      by_cases hfits : h.memitemSize ptr < size
      · simp only [hfits, if_true]
        have hnext : (h.get ptr).nextFree.toNat = rest.headD h.freeList.toNat := by
          have := hpath.2.next_eq
          rwa [← hx] at this
        obtain ⟨ptr', freeSize', hfind, hcases⟩ := ih hpath.2 hnot.2 hnext hfits (by simpa using hfuel)
        refine ⟨ptr', freeSize', hfind, hcases.imp_right fun ⟨hmem, hrest⟩ => ⟨?_, hrest⟩⟩
        exact List.mem_cons_of_mem _ hmem
      · simp only [hfits, if_false]
        obtain ⟨fuel, rfl⟩ : ∃ n, fuel = n + 1 := ⟨fuel - 1, by simp at hfuel; omega⟩
        rw [RtMemheap.findFree, if_neg fun hcond => hfits hcond.2]
        exact ⟨ptr, h.memitemSize ptr, rfl, .inr ⟨by simp [hx], rfl, BitVec.not_lt.mp hfits⟩⟩

theorem Inv.findFree (hi : h.Inv bs free) (hsize : 0 < size) :
    ∃ ptr freeSize, h.findFree size h.fuel (h.get h.freeList).nextFree 0 = .ok (ptr, freeSize) ∧
      (freeSize < size ∨ ∃ xs k ys, bs = xs ++ ⟨k, false⟩ :: ys ∧
        ptr.toNat = h.startAddr.toNat + total xs ∧ freeSize.toNat + 24 = k ∧ size ≤ freeSize) := by
  have hlist := hi.linked.apart.freeList
  obtain ⟨hpath, hnodup⟩ := hi.linked.ring
  rw [← hlist] at hpath hnodup
  have hlength : free.length + 2 ≤ h.fuel := by
    have hperm := hi.perm.length_eq
    have hle := freeStarts_length_le h.startAddr.toNat bs
    have hbs := length_le_total hi.linked.tiles.pos
    have htotal := hi.linked.tiles.total_eq
    rw [RtMemheap.fuel]
    omega
  obtain ⟨ptr, freeSize, hfind, hcases⟩ := findFree_path hpath (List.nodup_cons.mp hnodup).1
    hpath.next_eq hsize hlength
  refine ⟨ptr, freeSize, hfind, hcases.imp_right ?_⟩
  rintro ⟨hmem, rfl, hle⟩
  obtain ⟨k, hhas⟩ := mem_freeStarts.mp (hi.perm.mem_iff.mp hmem)
  obtain ⟨xs, ys, rfl, hptr⟩ := has_iff_split.mp hhas
  have hys : ys ≠ [] := hi.linked.tiles.rest_ne_nil (by simp)
  exact ⟨xs, k, ys, rfl, hptr, hi.linked.tiles.memitemSize hys hptr, hle⟩

/-! ## `rt_memheap_alloc` -/

/-- The free list without the item that is taken. -/
theorem Inv.taken (hi : h.Inv (xs ++ ⟨k, false⟩ :: ys) free)
    (hp : p.toNat = h.startAddr.toNat + total xs) :
    ∃ us ws, free = us ++ p.toNat :: ws ∧ p.toNat ∉ us ++ ws ∧
      (us ++ ws).Perm (freeStarts h.startAddr.toNat xs ++
        freeStarts (h.startAddr.toNat + total xs + k) ys) := by
  have hperm := hi.perm
  have hnodup := hperm.nodup_iff.mpr hi.linked.tiles.starts_nodup
  rw [freeStarts_append, freeStarts_free, ← hp] at hperm
  obtain ⟨us, ws, rfl, hrest⟩ := perm_split hperm
  rw [hp] at hrest
  exact ⟨us, ws, rfl, (List.nodup_cons.mp (List.nodup_middle.mp hnodup)).1, hrest⟩

theorem Inv.allocWhole (hi : h.Inv (xs ++ ⟨k, false⟩ :: ys) free)
    (hp : p.toNat = h.startAddr.toNat + total xs) (hsize : size.toNat + 24 = k) :
    ∃ free', Inv ((h.allocWhole p size).modifyHead p fun m =>
      { m with magic := m.magic ||| rtMemheapUsed }) (xs ++ ⟨k, true⟩ :: ys) free' := by
  obtain ⟨us, ws, rfl, hnot, hperm⟩ := hi.taken hp
  have hys : ys ≠ [] := hi.linked.tiles.rest_ne_nil (by simp)
  have hlinked := hi.linked.setAvailable (h.availableSize - size)
  have hlinked := hlinked.removeFree.clearFree (p := p) hp hnot
  have hcoalesced : Coalesced (xs ++ ⟨k, true⟩ :: ([] ++ ys)) := hi.coalesced.take (.inl rfl)
  refine ⟨us ++ ws, hlinked.setUsed hys hp, hcoalesced, ?_, ?_⟩
  · show List.Perm _ (freeStarts h.startAddr.toNat _)
    simpa using hperm
  · have havailable := hi.available
    simp only [freeData_append, freeData_cons, Bool.false_eq_true, if_false, if_true] at havailable ⊢
    show (h.availableSize - size).toNat = _
    bv_omega

theorem Inv.allocSplit (hi : h.Inv (xs ++ ⟨n + s, false⟩ :: ys) free)
    (hp : p.toNat = h.startAddr.toNat + total xs) (hsize : size.toNat + 24 = n) (hs : 24 ≤ s) :
    ∃ free', Inv ((h.allocSplit p size).modifyHead p fun m =>
      { m with magic := m.magic ||| rtMemheapUsed })
      (xs ++ ⟨n, true⟩ :: ⟨s, false⟩ :: ys) free' := by
  obtain ⟨us, ws, rfl, hnot, hperm⟩ := hi.taken hp
  have hys : ys ≠ [] := hi.linked.tiles.rest_ne_nil (by simp)
  have hstop := hi.linked.tiles.stop_eq
  have hroom := hi.linked.tiles.room
  have hrest := hi.linked.tiles.rest_pos hys
  simp only at hstop
  -- `q` is the item of the rest
  let q := p + size + rtMemheapSize
  have hq : q.toNat = h.startAddr.toNat + total xs + n := by
    show (p + size + rtMemheapSize).toNat = _
    rw [rtMemheapSize_eq]
    bv_omega
  have haround : Around xs (n + s) h (us ++ p.toNat :: ws) := by
    refine hi.linked.tiles.around fun a ha => ?_
    rw [List.mem_append, List.mem_cons, or_left_comm] at ha
    refine ha.imp (fun heq => heq.trans hp) fun hmem => hperm.mem_iff.mp ?_
    exact List.mem_append.mpr hmem
  -- no item has begun there
  have hnew : q.toNat ∉ us ++ ws := by
    intro hmem
    have := haround q.toNat (by
      rw [List.mem_append] at hmem ⊢
      exact hmem.imp_right (List.mem_cons_of_mem _))
    omega
  -- the item is split, taken out of the free list, and the rest put in
  have hlinked := hi.linked.splitItem hys (by omega) hs hp hq haround
  have hlinked := hlinked.removeFree.clearFree (p := p) hp hnot
  have hlinked := hlinked.insertSecond hq hnew
  have hcoalesced : Coalesced (xs ++ ⟨n, true⟩ :: ([⟨s, false⟩] ++ ys)) :=
    hi.coalesced.take (.inr ⟨s, rfl⟩)
  refine ⟨q.toNat :: (us ++ ws), (hlinked.setAvailable _).setUsed (by simp) hp, hcoalesced, ?_, ?_⟩
  · show List.Perm _ (freeStarts h.startAddr.toNat _)
    rw [freeStarts_append, freeStarts_used, freeStarts_free, Nat.add_assoc _ n, ← hq]
    exact (hperm.cons _).trans List.perm_middle.symm
  · have havailable := hi.available
    simp only [freeData_append, freeData_cons, Bool.false_eq_true, if_false, if_true] at havailable ⊢
    show (h.availableSize - size - rtMemheapSize).toNat = _
    rw [rtMemheapSize_eq]
    bv_omega

theorem requestSize_spec (hsize : size.toNat + 24 ≤ 2 ^ 32) :
    12 ≤ (requestSize size).toNat ∧ size.toNat ≤ (requestSize size).toNat ∧
      (requestSize size).toNat + 24 ≤ 2 ^ 32 := by
  have halign := toNat_rtAlign size
  have hmin : rtMemheapMinialloc.toNat = 12 := rfl
  rw [requestSize]
  split
  case isTrue hlt =>
    rw [BitVec.lt_def, hmin] at hlt
    rw [hmin]
    omega
  case isFalse hge =>
    rw [BitVec.not_lt, BitVec.le_def, hmin] at hge
    omega

/-- The call grants the bytes behind the item at `o`, and the other items in use stay. -/
structure Grants (h : RtMemheap) (bs : List Block) (size addr : BitVec 32) (h' : RtMemheap)
    (bs' : List Block) (o n : Nat) : Prop where
  addr_eq : addr.toNat = o + 24
  has : Has h.startAddr.toNat bs' o ⟨n, true⟩
  enough : (requestSize size).toNat + 24 ≤ n
  same : SameRegion h h'
  others : ∀ o' n', Has h.startAddr.toNat bs o' ⟨n', true⟩ →
    o' ≠ o ∧ Has h.startAddr.toNat bs' o' ⟨n', true⟩

/-- A free block is taken, and a free block may be left of it. -/
theorem grants_of_take (rest : List Block) (ht : h.Tiles (xs ++ ⟨k, false⟩ :: ys))
    (hp : p.toNat = h.startAddr.toNat + total xs) (hk : n + total rest = k)
    (hn : (requestSize size).toNat + 24 ≤ n) (hsame : SameRegion h h') :
    Grants h (xs ++ ⟨k, false⟩ :: ys) size (p + rtMemheapSize) h'
      (xs ++ ⟨n, true⟩ :: (rest ++ ys)) p.toNat n := by
  have hstop := ht.stop_eq
  have hroom := ht.room
  have hk' := ht.size ⟨k, false⟩ (by simp)
  have hrest := ht.rest_pos (ht.rest_ne_nil (by simp))
  simp only at hstop hk'
  refine ⟨?_, by simp [hp], hn, hsame, fun o' n' hhas => ⟨?_, ?_⟩⟩
  · rw [rtMemheapSize_eq]
    bv_omega
  · rintro rfl
    have hfree : Has h.startAddr.toNat (xs ++ ⟨k, false⟩ :: ys) p.toNat ⟨k, false⟩ := by
      simp [hp]
    have := hhas.unique hfree ht.pos
    simp at this
  · simp only [has_append, has_cons, Block.mk.injEq, Bool.true_eq_false, and_false, false_or] at hhas ⊢
    rw [Nat.add_assoc _ n, hk]
    tauto

/-- `rt_memheap_alloc` finds nothing, or grants a block. -/
theorem Inv.rtMemheapAlloc (hi : h.Inv bs free) (hsize : size.toNat + 24 ≤ 2 ^ 32) :
    h.rtMemheapAlloc size = .ok (h, none) ∨
      ∃ h' bs' free' addr o n, h.rtMemheapAlloc size = .ok (h', some addr) ∧ h'.Inv bs' free' ∧
        Grants h bs size addr h' bs' o n := by
  obtain ⟨hmin, -, -⟩ := requestSize_spec hsize
  rw [RtMemheap.rtMemheapAlloc]
  generalize hrequest : requestSize size = request at hmin
  simp only
  split
  case isFalse => exact .inl rfl
  case isTrue havailable =>
    have hpos : 0 < request := by
      rw [BitVec.lt_def]
      exact Nat.lt_of_lt_of_le (by decide) hmin
    -- the search goes round the free list until a block is large enough
    obtain ⟨ptr, freeSize, hfind, hcases⟩ := hi.findFree hpos
    simp only [hfind, bind, Except.bind]
    obtain hnone | ⟨xs, k, ys, rfl, hp, hk, hle⟩ := hcases
    · rw [if_neg (BitVec.not_le.mpr hnone)]
      exact .inl rfl
    · right
      rw [if_pos hle]
      have ht := hi.linked.tiles
      have hstop := ht.stop_eq
      have hroom := hi.linked.pool_lt
      have hrest := ht.rest_pos (ht.rest_ne_nil (by simp))
      simp only at hstop
      rw [BitVec.le_def] at hle
      have hsum : (request + rtMemheapSize + rtMemheapMinialloc).toNat = request.toNat + 36 := by
        rw [rtMemheapSize_eq, show rtMemheapMinialloc = 12 from rfl]
        bv_omega
      -- the rest is large enough for an item of its own
      by_cases hsplit : request + rtMemheapSize + rtMemheapMinialloc ≤ freeSize
      · rw [if_pos hsplit]
        rw [BitVec.le_def, hsum] at hsplit
        obtain ⟨s, rfl⟩ : ∃ s, k = (request.toNat + 24) + s :=
          ⟨k - (request.toNat + 24), by omega⟩
        obtain ⟨free', hi'⟩ := hi.allocSplit hp rfl (by omega)
        refine ⟨_, _, free', _, ptr.toNat, request.toNat + 24, rfl, hi', ?_⟩
        exact grants_of_take [⟨s, false⟩] ht hp (by simp) (by rw [hrequest])
          ⟨rfl, rfl, rfl, rfl⟩
      · rw [if_neg hsplit]
        obtain ⟨free', hi'⟩ := hi.allocWhole hp hk
        refine ⟨_, _, free', _, ptr.toNat, k, rfl, hi', ?_⟩
        exact grants_of_take [] ht hp (by simp) (by rw [hrequest]; omega)
          ⟨rfl, rfl, rfl, rfl⟩

/-! ## Merging -/

/-- The free item `p` with its blocks, and the free list.  `p` itself is in the list, or it is
    `pending`. -/
structure Merging (h : RtMemheap) (xs : List Block) (k : Nat) (ys : List Block) (p : BitVec 32)
    (pending : Bool) (free : List Nat) : Prop where
  linked : h.Linked (xs ++ ⟨k, false⟩ :: ys) free
  at_ : p.toNat = h.startAddr.toNat + total xs
  perm : ((if pending then [p.toNat] else []) ++ free).Perm
    (freeStarts h.startAddr.toNat (xs ++ ⟨k, false⟩ :: ys))

variable {pending : Bool} {o : Nat}

theorem Merging.rest_ne_nil (hm : h.Merging xs k ys p pending free) : ys ≠ [] :=
  hm.linked.tiles.rest_ne_nil (by simp)

/-- The left neighbour takes the item in, if it is free. -/
theorem Merging.prev (hm : h.Merging xs k ys p true free) (hcoalesced : Coalesced xs) :
    (h.isUsed (h.get p).prev = true ∧ ∀ c ∈ xs.getLast?, c.used = true) ∨
      ∃ us m, xs = us ++ [⟨m, false⟩] ∧ h.isUsed (h.get p).prev = false ∧ Coalesced us ∧
        (∀ c ∈ us.getLast?, c.used = true) ∧
        (h.mergePrev p).Merging us (m + k) ys (h.get p).prev false free := by
  have ht := hm.linked.tiles
  obtain rfl | ⟨us, ⟨m, w⟩, rfl⟩ := xs.eq_nil_or_concat'
  · -- the item before the first one is the tail
    left
    obtain ⟨prev, next, htail⟩ := ht.tail_used
    have hprev : (h.get p).prev.toNat = h.startAddr.toNat + h.poolSize.toNat - 24 := by
      show (h.heads p.toNat).prev.toNat = _
      rw [hm.at_]
      exact ht.parts_first
    rw [← hprev] at htail
    exact ⟨isUsed_eq htail, by simp⟩
  · have ht' : h.Tiles (us ++ ⟨m, w⟩ :: ⟨k, false⟩ :: ys) := by simpa using ht
    obtain ⟨q, hq⟩ : ∃ q : BitVec 32, q.toNat = h.startAddr.toNat + total us := by
      have hstop := ht'.stop_eq
      have hroom := ht'.room
      have hm' := ht'.size ⟨m, w⟩ (by simp)
      simp only at hstop hm'
      exact ⟨BitVec.ofNat 32 (h.startAddr.toNat + total us), by
        rw [BitVec.toNat_ofNat, Nat.mod_eq_of_lt (by omega)]⟩
    have hp : p.toNat = h.startAddr.toNat + total us + m := by
      simpa [← Nat.add_assoc] using hm.at_
    have hprev : (h.get p).prev = q := ht'.get_prev hq hp
    have hitem := ht'.parts
    rw [← hq] at hitem
    have hused := isUsed_eq hitem
    rw [hprev, hused]
    cases w with
    | true => exact .inl ⟨rfl, by simp⟩
    | false =>
      have hsplit := coalesced_append.mp hcoalesced
      have hlinked : h.Linked (us ++ ⟨m, false⟩ :: ⟨k, false⟩ :: ys) free := by
        simpa using hm.linked
      refine .inr ⟨us, m, rfl, rfl, hsplit.1, (hsplit.2.2 rfl).1,
        hlinked.mergePrev hm.rest_ne_nil hq hp, hq, ?_⟩
      have hperm := hm.perm
      rw [if_pos rfl, freeStarts_append, freeStarts_free, ← hm.at_] at hperm
      have hrest : free.Perm _ := (hperm.trans List.perm_middle).cons_inv
      show List.Perm free (freeStarts h.startAddr.toNat _)
      simpa [hp, Nat.add_assoc] using hrest

/-- The item takes its right neighbour in, if that is free. -/
theorem Merging.next (hm : h.Merging xs k ys p pending free) (hcoalesced : Coalesced ys) :
    (h.isUsed (h.get p).next = true ∧ ∀ c ∈ ys.head?, c.used = true) ∨
      ∃ r ws free', ys = ⟨r, false⟩ :: ws ∧ h.isUsed (h.get p).next = false ∧ Coalesced ws ∧
        (∀ c ∈ ws.head?, c.used = true) ∧ (h.memitemSize (h.get p).next).toNat + 24 = r ∧
        (h.mergeNext p).Merging xs (k + r) ws p pending free' := by
  have ht := hm.linked.tiles
  obtain ⟨⟨r, w⟩, ws, rfl⟩ := List.exists_cons_of_ne_nil hm.rest_ne_nil
  obtain ⟨q, hq⟩ : ∃ q : BitVec 32, q.toNat = h.startAddr.toNat + total xs + k :=
    ⟨(h.get p).next, by
      show (h.heads p.toNat).next.toNat = _
      rw [hm.at_]
      exact ht.next_eq (by simp)⟩
  have hnext : (h.get p).next = q := ht.get_next hm.at_ hq
  have hitem := ht.parts_next
  rw [← hq] at hitem
  have hused := isUsed_eq hitem
  rw [hnext, hused]
  cases w with
  | true => exact .inl ⟨rfl, by simp⟩
  | false =>
    have hsplit := coalesced_cons.mp hcoalesced
    have hws : ws ≠ [] := ht.second.rest_ne_nil (by simp)
    have hsize := ht.second.memitemSize hws (by simpa [← Nat.add_assoc] using hq)
    -- the neighbour is in the free list, and is another item
    have hmem : q.toNat ∈ free := by
      have hany := hm.perm.mem_iff.mpr (show q.toNat ∈ _ by simp [hq])
      have hk := ht.size ⟨k, false⟩ (by simp)
      have hne : q.toNat ≠ p.toNat := by
        rw [hq, hm.at_]
        simp only at hk
        omega
      rw [List.mem_append] at hany
      refine hany.resolve_left fun hself => ?_
      cases pending <;> simp at hself
      exact hne hself
    obtain ⟨us, vs, rfl⟩ := List.append_of_mem hmem
    refine .inr ⟨r, ws, us ++ vs, rfl, rfl, hsplit.1, hsplit.2 rfl, hsize,
      hm.linked.mergeNext hm.at_ hq, hm.at_, ?_⟩
    have hperm := hm.perm
    show List.Perm _ (freeStarts h.startAddr.toNat _)
    rw [freeStarts_append, freeStarts_free, freeStarts_free, ← hq] at hperm
    rw [freeStarts_append, freeStarts_free, ← Nat.add_assoc _ k]
    have hlast : freeStarts h.startAddr.toNat xs ++ (h.startAddr.toNat + total xs) :: q.toNat ::
        freeStarts (q.toNat + r) ws = (freeStarts h.startAddr.toNat xs ++
          [h.startAddr.toNat + total xs]) ++ q.toNat :: freeStarts (q.toNat + r) ws := by simp
    rw [hlast] at hperm
    simpa [hq] using perm_drop hperm

/-- The item is inserted, if it is not in the list. -/
theorem Merging.insert (hm : h.Merging xs k ys p pending free) :
    ∃ free', (if pending then h.insertFree p else h).Linked (xs ++ ⟨k, false⟩ :: ys) free' ∧
      free'.Perm (freeStarts h.startAddr.toNat (xs ++ ⟨k, false⟩ :: ys)) := by
  have hperm := hm.perm
  cases pending with
  | false => exact ⟨free, hm.linked, hperm⟩
  | true =>
    have hnodup := hperm.nodup_iff.mpr hm.linked.tiles.starts_nodup
    have hnot : p.toNat ∉ free := (List.nodup_cons.mp hnodup).1
    exact ⟨p.toNat :: free, hm.linked.insertFree hm.at_ hnot, hperm⟩

/-! ## `rt_memheap_free` -/

theorem Linked.toNat_available (hl : h.Linked bs free) {available : BitVec 32}
    (hsum : available.toNat + 24 = freeData 24 bs) :
    (available + rtMemheapSize).toNat = freeData 24 bs := by
  have hlt := hl.freeData_lt
  rw [rtMemheapSize_eq]
  bv_omega

theorem Merging.left (hm : h.Merging xs k ys p true free) (hcoalesced : Coalesced xs)
    (havailable : h.availableSize.toNat = freeData 24 (xs ++ ⟨k, false⟩ :: ys)) :
    ∃ h' zs m p' pending, h.mergeLeft p = (h', p', pending) ∧ h'.Merging zs m ys p' pending free ∧
      Coalesced zs ∧ (∀ c ∈ zs.getLast?, c.used = true) ∧
      h'.availableSize.toNat = freeData 24 (zs ++ ⟨m, false⟩ :: ys) ∧ SameRegion h h' ∧
      total zs + m = total xs + k ∧
      ∀ o n, Has h.startAddr.toNat zs o ⟨n, true⟩ ↔ Has h.startAddr.toNat xs o ⟨n, true⟩ := by
  have hk := hm.linked.tiles.size ⟨k, false⟩ (by simp)
  rw [mergeLeft]
  obtain ⟨hused, hlast⟩ | ⟨us, m, rfl, hused, hus, hlast, hmerged⟩ := hm.prev hcoalesced
  · rw [if_pos hused]
    exact ⟨h, xs, k, p, true, rfl, hm, hcoalesced, hlast, havailable, .refl h, rfl, fun _ _ => .rfl⟩
  · rw [if_neg (by simp [hused])]
    have hm' := hm.linked.tiles.size ⟨m, false⟩ (by simp)
    simp only at hk hm'
    have hlinked := hmerged.linked.available (h.availableSize + rtMemheapSize)
    refine ⟨_, us, m + k, _, false, rfl, ⟨hlinked, hmerged.at_, hmerged.perm⟩, hus, hlast, ?_,
      ⟨rfl, rfl, rfl, rfl⟩, ?_, fun o n => by simp⟩
    · refine hmerged.linked.toNat_available ?_
      rw [havailable]
      simp only [freeData_append, freeData_cons, freeData_nil, Bool.false_eq_true, if_false]
      omega
    · simp only [total_append, total_cons, total_nil]
      omega

theorem Merging.right (hm : h.Merging xs k ys p pending free) (hcoalesced : Coalesced ys)
    (havailable : h.availableSize.toNat = freeData 24 (xs ++ ⟨k, false⟩ :: ys)) :
    ∃ m ws free', (h.mergeRight p).Merging xs m ws p pending free' ∧ Coalesced ws ∧
      (∀ c ∈ ws.head?, c.used = true) ∧
      (h.mergeRight p).availableSize.toNat = freeData 24 (xs ++ ⟨m, false⟩ :: ws) ∧
      SameRegion h (h.mergeRight p) ∧
      ∀ o n, Has (h.startAddr.toNat + total xs + m) ws o ⟨n, true⟩ ↔
        Has (h.startAddr.toNat + total xs + k) ys o ⟨n, true⟩ := by
  have hk := hm.linked.tiles.size ⟨k, false⟩ (by simp)
  rw [mergeRight]
  obtain ⟨hused, hhead⟩ | ⟨r, ws, free', rfl, hused, hws, hhead, -, hmerged⟩ := hm.next hcoalesced
  · rw [if_pos hused]
    exact ⟨k, ys, free, hm, hcoalesced, hhead, havailable, .refl h, fun _ _ => .rfl⟩
  · rw [if_neg (by simp [hused])]
    have hr := hm.linked.tiles.size ⟨r, false⟩ (by simp)
    simp only at hk hr
    have hlinked := hmerged.linked.available (h.availableSize + rtMemheapSize)
    refine ⟨k + r, ws, free', ⟨hlinked, hmerged.at_, hmerged.perm⟩, hws, hhead, ?_,
      ⟨rfl, rfl, rfl, rfl⟩, fun o n => by simp [Nat.add_assoc]⟩
    refine hmerged.linked.toNat_available ?_
    rw [havailable]
    simp only [freeData_append, freeData_cons, Bool.false_eq_true, if_false]
    omega

/-- A free item whose neighbours are in use, and which is in the free list. -/
theorem Merging.inv (hm : h.Merging xs k ys p pending free) (hxs : Coalesced xs)
    (hlast : ∀ c ∈ xs.getLast?, c.used = true) (hys : Coalesced ys)
    (hhead : ∀ c ∈ ys.head?, c.used = true)
    (havailable : h.availableSize.toNat = freeData 24 (xs ++ ⟨k, false⟩ :: ys)) :
    ∃ free', (if pending then h.insertFree p else h).Inv (xs ++ ⟨k, false⟩ :: ys) free' := by
  obtain ⟨free', hlinked, hperm⟩ := hm.insert
  refine ⟨free', hlinked, coalesced_append.mpr ⟨hxs, hys, fun _ => ⟨hlast, hhead⟩⟩, ?_, ?_⟩
  · cases pending <;> exact hperm
  · cases pending <;> exact havailable

/-- `rt_memheap_free` makes a block free that is in use. -/
theorem Inv.rtMemheapFree (hi : h.Inv bs free) {addr : BitVec 32}
    (hhas : Has h.startAddr.toNat bs o ⟨n, true⟩) (hn : 36 ≤ n) (haddr : addr.toNat = o + 24) :
    ∃ h' bs' free', h.rtMemheapFree (some addr) = .ok h' ∧ h'.Inv bs' free' ∧ SameRegion h h' ∧
      ∀ o' n', Has h.startAddr.toNat bs' o' ⟨n', true⟩ ↔
        Has h.startAddr.toNat bs o' ⟨n', true⟩ ∧ o' ≠ o := by
  obtain ⟨xs, ys, rfl, rfl⟩ := has_iff_split.mp hhas
  have ht := hi.linked.tiles
  have hys : ys ≠ [] := ht.rest_ne_nil (by
    rw [Ne, Block.mk.injEq]
    omega)
  obtain ⟨hxs', hys', -⟩ := coalesced_append.mp hi.coalesced
  obtain ⟨p, hp⟩ : ∃ p, p = addr - rtMemheapSize := ⟨_, rfl⟩
  have hat : p.toNat = h.startAddr.toNat + total xs := by
    rw [hp, rtMemheapSize_eq]
    bv_omega
  -- the assertions
  have hitem := ht.parts
  rw [← hat] at hitem
  have hmask : (h.get p).magic &&& rtMemheapMask = rtMemheapMagic := hitem.magic_mask
  have hused : (h.get p).magic &&& rtMemheapUsed ≠ 0 := hitem.magic_used.mpr rfl
  have hpool : (h.get p).poolPtr = h.heapAddr := hitem.poolPtr
  have hnext : (h.get (h.get p).next).magic &&& rtMemheapMask = rtMemheapMagic := by
    obtain ⟨c, cs, rfl⟩ := List.exists_cons_of_ne_nil hys
    have hafter := ht.parts_next
    have hnext : (h.get p).next.toNat = h.startAddr.toNat + total xs + n := by
      show (h.heads p.toNat).next.toNat = _
      rw [hat]
      exact ht.next_eq (by simp)
    rw [← hnext] at hafter
    exact hafter.magic_mask
  -- the item is free, and not in the list yet
  let cleared := h.modifyHead p fun m => { m with magic := m.magic &&& ~~~rtMemheapUsed }
  have hcleared : cleared.Linked (xs ++ ⟨n, false⟩ :: ys) free := hi.linked.clearUsed hys hat
  have hsize := hcleared.tiles.memitemSize hys hat
  simp only at hsize
  let freed := { cleared with availableSize := h.availableSize + cleared.memitemSize p }
  have hmerging : freed.Merging xs n ys p true free := by
    refine ⟨hcleared.available _, hat, ?_⟩
    have hperm := hi.perm
    show List.Perm _ (freeStarts h.startAddr.toNat _)
    rw [freeStarts_append, freeStarts_used] at hperm
    rw [freeStarts_append, freeStarts_free, ← hat, if_pos rfl]
    exact (hperm.cons _).trans (by rw [hat]; exact List.perm_middle.symm)
  have havailable : freed.availableSize.toNat = freeData 24 (xs ++ ⟨n, false⟩ :: ys) := by
    have hbefore := hi.available
    have hlt := hmerging.linked.freeData_lt
    simp only [freeData_append, freeData_cons, Bool.false_eq_true, if_false, if_true]
      at hbefore hlt ⊢
    show (h.availableSize + cleared.memitemSize p).toNat = _
    bv_omega
  obtain ⟨left, zs, m, p', pending, hleft, hmerging', hzs, hlast, havailable', hsame, htotal, hkept⟩ :=
    hmerging.left hxs' havailable
  obtain ⟨m', ws, free', hmerging'', hws, hhead, havailable'', hsame', hkept'⟩ :=
    hmerging'.right hys' havailable'
  obtain ⟨free'', hinv⟩ := hmerging''.inv hzs hlast hws hhead havailable''
  have hstay : SameRegion h (left.mergeRight p') :=
    SameRegion.trans ⟨hsame.heapAddr, hsame.freeHeader, hsame.startAddr, hsame.poolSize⟩ hsame'
  refine ⟨_, _, free'', ?_, hinv, ?_, fun o' n' => ?_⟩
  · rw [RtMemheap.rtMemheapFree]
    simp only [← hp]
    refine exec_bind_ok.mpr ⟨(), rtAssert_eq_ok.mpr hmask, exec_bind_ok.mpr ⟨(),
      rtAssert_eq_ok.mpr hused, exec_bind_ok.mpr ⟨(), rtAssert_eq_ok.mpr hnext, exec_bind_ok.mpr
      ⟨(), rtAssert_eq_ok.mpr hpool, ?_⟩⟩⟩⟩
    let merged := freed.mergeLeft p
    show (pure (if merged.2.2 then (merged.1.mergeRight merged.2.1).insertFree merged.2.1
      else merged.1.mergeRight merged.2.1) : Exec RtMemheap) = _
    simp only [merged, hleft]
    rfl
  · cases pending
    · exact hstay
    · exact ⟨hstay.heapAddr, hstay.freeHeader, hstay.startAddr, hstay.poolSize⟩
  · have hstart : left.startAddr = h.startAddr := hsame.startAddr
    have hafter := hkept' o' n'
    rw [hstart, Nat.add_assoc _ (total zs) m, htotal, ← Nat.add_assoc] at hafter
    have hbefore : Has h.startAddr.toNat zs o' ⟨n', true⟩ ↔ Has h.startAddr.toNat xs o' ⟨n', true⟩ :=
      hkept o' n'
    rw [← has_around_from ht.pos, ← hafter, ← hbefore]
    simp only [has_append, has_cons, Block.mk.injEq, Bool.true_eq_false, and_false, false_or]

end RtMemheap

end PandoraRobot.Memory
