import PandoraRobot.Memory.MemheapOps

/-! # `rt_memheap_realloc`

A block grows into a free block behind it, is cut, stays or moves.
-/

namespace PandoraRobot.Memory

open PandoraRobot.Kernel PandoraRobot.Tiling PandoraRobot.LinkedRing

namespace RtMemheap

variable {h h' : RtMemheap} {bs xs ys : List Block} {free us ws : List Nat} {o n r s m : Nat}
  {p size oldsize newsize : BitVec 32} {pending : Bool} {k : Nat}

/-! ## In place -/

/-- A block in use grows into the free block behind it. -/
theorem Inv.growItem (hi : h.Inv (xs ++ ⟨n, true⟩ :: ⟨r, false⟩ :: ys) free)
    (hp : p.toNat = h.startAddr.toNat + total xs) (hold : oldsize.toNat + 24 = n)
    (hnew : newsize.toNat + 24 = m) (hlt : n < m) (hsum : n + r = m + s) (hs : 24 ≤ s) :
    ∃ free', (h.growItem p oldsize newsize).Inv (xs ++ ⟨m, true⟩ :: ⟨s, false⟩ :: ys) free' := by
  have ht := hi.linked.tiles
  have hys : ys ≠ [] := ht.second.rest_ne_nil (by simp)
  have hstop := ht.stop_eq
  have hroom := ht.room
  have hrest := ht.second.rest_pos hys
  simp only [total_cons] at hstop
  obtain ⟨q, hq⟩ : ∃ q : BitVec 32, q.toNat = h.startAddr.toNat + total xs + n :=
    ⟨BitVec.ofNat 32 (h.startAddr.toNat + total xs + n), by
      rw [BitVec.toNat_ofNat, Nat.mod_eq_of_lt (by omega)]⟩
  let new := p + rtMemheapSize + newsize
  have hat : new.toNat = h.startAddr.toNat + total xs + m := by
    show (p + rtMemheapSize + newsize).toNat = _
    rw [rtMemheapSize_eq]
    bv_omega
  -- the free block leaves the list
  have hi' : h.Inv ((xs ++ [⟨n, true⟩]) ++ ⟨r, false⟩ :: ys) free := by simpa using hi
  obtain ⟨us, ws, rfl, -, hperm⟩ := hi'.taken (p := q) (by simpa [← Nat.add_assoc] using hq)
  simp only [freeStarts_append, freeStarts_used, freeStarts_nil, List.append_nil, total_append,
    total_cons, total_nil, Nat.add_zero, ← Nat.add_assoc] at hperm
  rw [Nat.add_assoc _ n r, hsum] at hperm
  have hlinked := (hi.linked.setAvailable (h.availableSize - (newsize - oldsize))).removeFree
  have hlinked := hlinked.unlinkItem hys hp hq
  rw [hsum] at hlinked
  -- and is built again behind the larger block
  have haround : Around xs (m + s) h (us ++ ws) :=
    hlinked.tiles.around fun a ha => .inr (hperm.mem_iff.mp ha)
  have hfresh : new.toNat ∉ us ++ ws := by
    intro hmem
    have := haround new.toNat hmem
    omega
  have hlinked := (hlinked.splitItem hys (by omega) hs hp hat haround).insertSecond hat hfresh
  have hcode : h.growItem p oldsize newsize =
      ((((h.setAvailable (h.availableSize - (newsize - oldsize))).removeFree q).unlinkItem
        q).splitItem p new).insertFree new := by
    rw [RtMemheap.growItem, ht.get_next hp hq]
  rw [hcode]
  obtain ⟨hxs, hys', -⟩ := coalesced_append.mp hi.coalesced
  obtain ⟨hys', hhead⟩ := coalesced_cons.mp hys'
  refine ⟨new.toNat :: (us ++ ws), hlinked,
    coalesced_append.mpr ⟨hxs, coalesced_cons.mpr ⟨hys', fun _ => hhead rfl⟩, by simp⟩, ?_, ?_⟩
  · show List.Perm _ (freeStarts h.startAddr.toNat _)
    rw [freeStarts_append, freeStarts_used, freeStarts_free, Nat.add_assoc _ m, ← hat]
    exact (hperm.cons _).trans List.perm_middle.symm
  · have havailable := hi.available
    simp only [freeData_append, freeData_cons, Bool.false_eq_true, if_false, if_true] at havailable ⊢
    show (h.availableSize - (newsize - oldsize)).toNat = _
    bv_omega

/-- A free item is inserted, and its bytes become available. -/
theorem Merging.release (hm : h.Merging xs k ys p true free) (hxs : Coalesced xs)
    (hlast : ∀ c ∈ xs.getLast?, c.used = true) (hys : Coalesced ys)
    (hhead : ∀ c ∈ ys.head?, c.used = true)
    (havailable : h.availableSize.toNat + (k - 24) = freeData 24 (xs ++ ⟨k, false⟩ :: ys)) :
    ∃ free', (h.releaseItem p).Inv (xs ++ ⟨k, false⟩ :: ys) free' := by
  obtain ⟨free', hlinked, hperm⟩ := hm.insert
  have hsize := hlinked.tiles.memitemSize hm.rest_ne_nil hm.at_
  have hlt := hlinked.freeData_lt
  simp only [if_true] at hsize
  refine ⟨free', hlinked.available _, coalesced_append.mpr ⟨hxs, hys, fun _ => ⟨hlast, hhead⟩⟩,
    hperm, ?_⟩
  show (h.availableSize + (h.insertFree p).memitemSize p).toNat = _
  bv_omega

/-- A new item takes its right neighbour in, if that is free. -/
theorem Merging.absorb (hm : h.Merging xs k ys p true free) (hys : Coalesced ys)
    (havailable : h.availableSize.toNat + (k - 24) = freeData 24 (xs ++ ⟨k, false⟩ :: ys)) :
    ∃ m ws free', (h.absorbNext p).Merging xs m ws p true free' ∧ Coalesced ws ∧
      (∀ c ∈ ws.head?, c.used = true) ∧
      (h.absorbNext p).availableSize.toNat + (m - 24) = freeData 24 (xs ++ ⟨m, false⟩ :: ws) ∧
      ∀ o n, Has (h.startAddr.toNat + total xs + k) ys o ⟨n, true⟩ →
        Has (h.startAddr.toNat + total xs + m) ws o ⟨n, true⟩ := by
  have hk := hm.linked.tiles.size ⟨k, false⟩ (by simp)
  rw [absorbNext]
  obtain ⟨hused, hhead⟩ | ⟨r, ws, free', rfl, hused, hws, hhead, hsize, hmerged⟩ := hm.next hys
  · simp only [hused, if_true]
    exact ⟨k, ys, free, hm, hys, hhead, havailable, fun _ _ => id⟩
  · simp only [hused, Bool.false_eq_true, if_false]
    have hr := hm.linked.tiles.size ⟨r, false⟩ (by simp)
    have hlt := hm.linked.freeData_lt
    simp only [freeData_append, freeData_cons, Bool.false_eq_true, if_false]
      at hk hr hlt havailable ⊢
    refine ⟨k + r, ws, free', ⟨hmerged.linked.available _, hmerged.at_, hmerged.perm⟩, hws, hhead,
      ?_, fun o n hhas => by simpa [Nat.add_assoc] using hhas⟩
    bv_omega

/-- A block in use is cut, and the rest of it is merged with a free block behind it. -/
theorem Inv.shrinkItem (hi : h.Inv (xs ++ ⟨n, true⟩ :: ys) free) (hys : ys ≠ [])
    (hp : p.toNat = h.startAddr.toNat + total xs) (hnew : newsize.toNat + 24 = m)
    (hsum : n = m + s) (hs : 24 ≤ s) :
    ∃ k ws free', (h.shrinkItem p newsize).Inv (xs ++ ⟨m, true⟩ :: ⟨k, false⟩ :: ws) free' ∧
      ∀ o n', Has (h.startAddr.toNat + total xs + n) ys o ⟨n', true⟩ →
        Has (h.startAddr.toNat + total xs + m + k) ws o ⟨n', true⟩ := by
  subst hsum
  have ht := hi.linked.tiles
  have hstop := ht.stop_eq
  have hroom := ht.room
  have hrest := ht.rest_pos hys
  simp only at hstop
  obtain ⟨new, hcode⟩ : ∃ new, new = p + newsize + rtMemheapSize := ⟨_, rfl⟩
  have hat : new.toNat = h.startAddr.toNat + total xs + m := by
    rw [hcode, rtMemheapSize_eq]
    bv_omega
  have hperm := hi.perm
  rw [freeStarts_append, freeStarts_used] at hperm
  have haround := ht.around fun a ha => .inr (hperm.mem_iff.mp ha)
  -- the rest becomes an item that is free and not yet in the free list
  have hlinked : (h.splitItem p new).Linked (xs ++ ⟨m, true⟩ :: ⟨s, false⟩ :: ys) free :=
    hi.linked.splitItem hys (by omega) hs hp hat haround
  -- from here on it is released as `rt_memheap_free` releases a block
  have hmerging : (h.splitItem p new).Merging (xs ++ [⟨m, true⟩]) s ys new true free := by
    refine ⟨by simpa using hlinked, ?_, ?_⟩
    · show new.toNat = h.startAddr.toNat + _
      simpa [← Nat.add_assoc] using hat
    · show List.Perm _ (freeStarts h.startAddr.toNat _)
      simp only [if_true, List.append_assoc, List.cons_append, List.nil_append, freeStarts_append,
        freeStarts_used, freeStarts_free]
      rw [Nat.add_assoc _ m, ← hat]
      exact (hperm.cons _).trans List.perm_middle.symm
  obtain ⟨hxs, hys', -⟩ := coalesced_append.mp hi.coalesced
  have hxs' : Coalesced (xs ++ [⟨m, true⟩]) :=
    coalesced_append.mpr ⟨hxs, List.isChain_nil, by simp⟩
  have havailable : h.availableSize.toNat + (s - 24) =
      freeData 24 ((xs ++ [⟨m, true⟩]) ++ ⟨s, false⟩ :: ys) := by
    have havailable := hi.available
    simp only [freeData_append, freeData_cons, freeData_nil, Bool.false_eq_true, if_false,
      if_true] at havailable ⊢
    omega
  -- it takes in a free block behind it; the one in front is in use
  obtain ⟨k, ws, free', hmerging', hws, hhead, havailable', hkept⟩ :=
    hmerging.absorb hys' havailable
  obtain ⟨free'', hinv⟩ := hmerging'.release hxs' (by simp) hws hhead havailable'
  rw [List.append_assoc, List.singleton_append] at hinv
  refine ⟨k, ws, free'', ?_, fun o n' hhas => ?_⟩
  · rw [RtMemheap.shrinkItem, ← hcode]
    exact hinv
  · have hstart : (h.splitItem p new).startAddr = h.startAddr := rfl
    have := hkept o n'
    simp only [hstart, total_append, total_cons, total_nil, Nat.add_zero, ← Nat.add_assoc] at this hhas
    exact this hhas

/-! ## To another place -/

/-- The call grants the bytes behind the item at `o'` in the place of the item at `o`, and the
    other items in use stay. -/
structure Moves (h : RtMemheap) (bs : List Block) (o : Nat) (size addr : BitVec 32)
    (h' : RtMemheap) (bs' : List Block) (o' n' : Nat) : Prop where
  addr_eq : addr.toNat = o' + 24
  has : Has h.startAddr.toNat bs' o' ⟨n', true⟩
  enough : (requestSize size).toNat + 24 ≤ n'
  same : SameRegion h h'
  others : ∀ a k, Has h.startAddr.toNat bs a ⟨k, true⟩ → a ≠ o →
    a ≠ o' ∧ Has h.startAddr.toNat bs' a ⟨k, true⟩

/-- The block is another one, and the old one is free. -/
theorem Inv.moveItem (hi : h.Inv bs free) {addr : BitVec 32}
    (hhas : Has h.startAddr.toNat bs o ⟨n, true⟩) (hn : 36 ≤ n) (haddr : addr.toNat = o + 24)
    (hsize : size.toNat + 24 ≤ 2 ^ 32) :
    h.moveItem addr size = .ok (h, none) ∨
      ∃ h' bs' free' addr' o' n', h.moveItem addr size = .ok (h', some addr') ∧
        h'.Inv bs' free' ∧ Moves h bs o size addr' h' bs' o' n' := by
  rw [RtMemheap.moveItem]
  obtain hnone | ⟨h₁, bs₁, free₁, addr', o', n', halloc, hi₁, hgrants⟩ := hi.rtMemheapAlloc hsize
  · exact .inl (by simp only [hnone, bind, Except.bind]; rfl)
  · right
    obtain ⟨hne, hkept⟩ := hgrants.others o n hhas
    have hstart : h₁.startAddr = h.startAddr := hgrants.same.startAddr
    rw [← hstart] at hkept
    obtain ⟨h', bs', free', hfree, hi', hsame, hiff⟩ := hi₁.rtMemheapFree hkept hn haddr
    rw [hstart] at hiff
    refine ⟨h', bs', free', addr', o', n', ?_, hi', hgrants.addr_eq, ?_, hgrants.enough,
      hgrants.same.trans hsame, fun a k hhas' hother => ?_⟩
    · simp only [halloc, hfree, bind, Except.bind]
      rfl
    · exact (hiff o' n').mpr ⟨hgrants.has, hne.symm⟩
    · obtain ⟨hne', hkept'⟩ := hgrants.others a k hhas'
      exact ⟨hne', (hiff a k).mpr ⟨hkept', hother⟩⟩

/-! ## The call -/

theorem sameRegion_shrinkItem : SameRegion h (h.shrinkItem p newsize) := by
  simp only [shrinkItem, absorbNext]
  split <;> exact ⟨rfl, rfl, rfl, rfl⟩

/-- The block stays where it is. -/
theorem Moves.inPlace {addr : BitVec 32} (haddr : addr.toNat = o + 24)
    (hsame : SameRegion h h') (hhas : Has h.startAddr.toNat ys o ⟨m, true⟩)
    (hm : (requestSize size).toNat + 24 ≤ m)
    (hkept : ∀ a k, Has h.startAddr.toNat xs a ⟨k, true⟩ → a ≠ o →
      Has h.startAddr.toNat ys a ⟨k, true⟩) : Moves h xs o size addr h' ys o m :=
  ⟨haddr, hhas, hm, hsame, fun a k hhas' hne => ⟨hne, hkept a k hhas' hne⟩⟩

/-- `rt_memheap_realloc` fails and changes nothing, or grants a block. -/
theorem Inv.rtMemheapRealloc (hi : h.Inv bs free) {addr : BitVec 32}
    (hhas : Has h.startAddr.toNat bs o ⟨n, true⟩) (hn : 36 ≤ n) (haddr : addr.toNat = o + 24)
    (hzero : newsize ≠ 0) (hnew : newsize.toNat + 24 ≤ 2 ^ 32) :
    h.rtMemheapRealloc (some addr) newsize = .ok (h, none) ∨
      ∃ h' bs' free' addr' o' n', h.rtMemheapRealloc (some addr) newsize = .ok (h', some addr') ∧
        h'.Inv bs' free' ∧ Moves h bs o newsize addr' h' bs' o' n' := by
  obtain ⟨hmin, -, hmax⟩ := requestSize_spec hnew
  obtain ⟨hmin', hle', hmax'⟩ := requestSize_spec hmax
  -- where the block cannot grow in place, what is left is a move
  have hmove := hi.moveItem hhas hn haddr hmax
  rw [RtMemheap.rtMemheapRealloc, if_neg hzero]
  generalize hrequest : requestSize newsize = request at *
  obtain ⟨xs, ys, rfl, rfl⟩ := has_iff_split.mp hhas
  have ht := hi.linked.tiles
  have hys : ys ≠ [] := ht.rest_ne_nil (by
    rw [Ne, Block.mk.injEq]
    omega)
  have hstop := ht.stop_eq
  have hroom := ht.room
  have hpool := hi.linked.pool_lt
  have hrest := ht.rest_pos hys
  simp only at hstop
  obtain ⟨p, hp⟩ : ∃ p, p = addr - rtMemheapSize := ⟨_, rfl⟩
  have hat : p.toNat = h.startAddr.toNat + total xs := by
    rw [hp, rtMemheapSize_eq]
    bv_omega
  have hold : (h.memitemSize p).toNat + 24 = n := ht.memitemSize hys hat
  simp only [← hp]
  by_cases hgrows : h.memitemSize p < request
  · -- the block is to be larger
    rw [if_pos hgrows]
    rw [BitVec.lt_def] at hgrows
    -- the block behind is looked at first
    obtain ⟨⟨r, v⟩, zs, rfl⟩ := List.exists_cons_of_ne_nil hys
    obtain ⟨q, hq⟩ : ∃ q : BitVec 32, q.toNat = h.startAddr.toNat + total xs + n :=
      ⟨(h.get p).next, by
        show (h.heads p.toNat).next.toNat = _
        rw [hat]
        exact ht.next_eq (by simp)⟩
    have hnext : (h.get p).next = q := ht.get_next hat hq
    have hitem := ht.parts_next
    rw [← hq] at hitem
    have hused := isUsed_eq hitem
    have hlt : p < (h.get p).next := by
      rw [hnext, BitVec.lt_def]
      omega
    simp only [hlt, rtAssert, if_true, bind, Except.bind]
    split
    case isFalse =>
      -- it is in use, or too small for both
      refine hmove.imp_right ?_
      rintro ⟨h', bs', free', addr', o', n', hrun, hi', hm⟩
      have henough := hm.enough
      exact ⟨h', bs', free', addr', o', n', hrun, hi', hm.addr_eq, hm.has,
        by rw [hrequest]; omega, hm.same, hm.others⟩
    case isTrue hfits =>
      rw [hnext, hused] at hfits
      obtain ⟨rfl, hfits⟩ := hfits
      have hzs : zs ≠ [] := ht.second.rest_ne_nil (by simp)
      have hnextsize : (h.memitemSize q).toNat + 24 = r :=
        ht.second.memitemSize hzs (by simpa [← Nat.add_assoc] using hq)
      rw [BitVec.lt_def, show rtMemheapMinialloc = 12 from rfl] at hfits
      simp only [total_cons] at hstop
      have hrest' := ht.second.rest_pos hzs
      have hfits' : request.toNat + 12 < (h.memitemSize q).toNat + (h.memitemSize p).toNat := by
        bv_omega
      obtain ⟨s, hs⟩ : ∃ s, n + r = (request.toNat + 24) + s :=
        ⟨n + r - (request.toNat + 24), by omega⟩
      -- it is taken in, and what is left over of it becomes a free block again
      obtain ⟨free', hi'⟩ := hi.growItem hat hold rfl (by omega) hs (by omega)
      refine .inr ⟨_, _, free', addr, h.startAddr.toNat + total xs, request.toNat + 24, rfl, hi', ?_⟩
      refine Moves.inPlace haddr ⟨rfl, rfl, rfl, rfl⟩ (by simp) (by rw [hrequest])
        fun a k hhas' hne => ?_
      simp only [has_append, has_cons, Block.mk.injEq, Bool.true_eq_false, and_false, false_or]
        at hhas' ⊢
      rw [Nat.add_assoc _ (request.toNat + 24), ← hs, ← Nat.add_assoc]
      exact hhas'.imp_right fun hin => .inr (hin.resolve_left fun hself => hne hself.1)
  · rw [if_neg hgrows]
    rw [BitVec.not_lt, BitVec.le_def] at hgrows
    have hsum : (request + rtMemheapSize + rtMemheapMinialloc).toNat = request.toNat + 36 := by
      rw [rtMemheapSize_eq, show rtMemheapMinialloc = 12 from rfl]
      bv_omega
    right
    by_cases hstays : h.memitemSize p ≤ request + rtMemheapSize + rtMemheapMinialloc
    · rw [if_pos hstays]
      refine ⟨h, _, free, addr, h.startAddr.toNat + total xs, n, rfl, hi, ?_⟩
      exact Moves.inPlace haddr (.refl h) hhas (by rw [hrequest]; omega) fun a k hhas' _ => hhas'
    · -- the block is cut
      rw [if_neg hstays]
      rw [BitVec.not_le, BitVec.lt_def, hsum] at hstays
      obtain ⟨s, hs⟩ : ∃ s, n = (request.toNat + 24) + s := ⟨n - (request.toNat + 24), by omega⟩
      obtain ⟨k, ws, free', hi', hkept⟩ := hi.shrinkItem hys hat rfl hs (by omega)
      refine ⟨_, _, free', addr, h.startAddr.toNat + total xs, request.toNat + 24, rfl, hi', ?_⟩
      refine Moves.inPlace haddr sameRegion_shrinkItem (by simp) (by rw [hrequest])
        fun a k' hhas' hne => ?_
      simp only [has_append, has_cons, Block.mk.injEq, Bool.true_eq_false, and_false, false_or]
        at hhas' ⊢
      exact hhas'.imp_right fun hin =>
        .inr (hkept a k' (hin.resolve_left fun hself => hne hself.1))

end RtMemheap

end PandoraRobot.Memory
