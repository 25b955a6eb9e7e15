import PandoraRobot.Memory.Memheap

/-! # The items of a memory heap

The items tile the pool, and the free ones make a ring with `free_header`.  What the code
writes of an item is either of the one structure (`heads`) or of the other (`freeNext` and
`freePrev`), so that each is looked at alone.
-/

namespace PandoraRobot.Memory

open PandoraRobot.Kernel PandoraRobot.Tiling PandoraRobot.LinkedRing

theorem rtMemheapSize_eq : rtMemheapSize = 24 := by decide

/-! ## Items in address order -/

structure IsItem (owner : BitVec 32) (start stop : Nat) (m : ItemHead) (prev next : Nat)
    (used : Bool) : Prop where
  magic : m.magic = if used then rtMemheapMagic ||| rtMemheapUsed else rtMemheapMagic
  poolPtr : m.poolPtr = owner
  /-- After the last item comes the first one. -/
  next : m.next.toNat = if next = stop then start else next
  prev : m.prev.toNat = prev

/-- The items from `start` to `stop` are those of the blocks `bs`, in a circle.  The last one is
    the tail: it is in use, and has no bytes. -/
structure ItemLayout (mem : Nat → ItemHead) (owner : BitVec 32) (start stop : Nat)
    (bs : List Block) : Prop where
  tiled : Tiled (IsItem owner start stop) mem (stop - 24) start bs
  total_eq : start + total bs = stop
  tail : bs.getLast? = some ⟨24, true⟩
  size : ∀ b ∈ bs, 24 ≤ b.size
  room : stop ≤ 2 ^ 32

variable {mem mem' : Nat → ItemHead} {owner : BitVec 32} {start stop s n o : Nat} {u v : Bool}
  {b c : Block} {bs xs ys ms : List Block}

theorem IsItem.magic_mask {m : ItemHead} {prev next : Nat}
    (hm : IsItem owner start stop m prev next u) : m.magic &&& rtMemheapMask = rtMemheapMagic := by
  rw [hm.magic]
  cases u <;> decide

theorem IsItem.magic_used {m : ItemHead} {prev next : Nat}
    (hm : IsItem owner start stop m prev next u) : m.magic &&& rtMemheapUsed ≠ 0 ↔ u = true := by
  rw [hm.magic]
  cases u <;> decide

theorem IsItem.mark {m : ItemHead} {prev next : Nat} (hm : IsItem owner start stop m prev next u) :
    IsItem owner start stop { m with magic := m.magic ||| rtMemheapUsed } prev next true := by
  refine ⟨?_, hm.poolPtr, hm.next, hm.prev⟩
  simp only [hm.magic]
  cases u <;> decide

theorem IsItem.unmark {m : ItemHead} {prev next : Nat} (hm : IsItem owner start stop m prev next u) :
    IsItem owner start stop { m with magic := m.magic &&& ~~~rtMemheapUsed } prev next false := by
  refine ⟨?_, hm.poolPtr, hm.next, hm.prev⟩
  simp only [hm.magic]
  cases u <;> decide

theorem ItemLayout.pos (hl : ItemLayout mem owner start stop bs) : ∀ b ∈ bs, 0 < b.size := by
  intro b hb
  have := hl.size b hb
  omega

/-- Only the tail has nothing behind it. -/
theorem ItemLayout.rest_ne_nil (hl : ItemLayout mem owner start stop (xs ++ b :: ys))
    (hb : b ≠ ⟨24, true⟩) : ys ≠ [] := by
  rintro rfl
  have := hl.tail
  simp only [List.getLast?_append, List.getLast?_singleton, Option.some_or, Option.some.injEq] at this
  exact hb this

/-- Something is behind an item that is not the tail. -/
theorem ItemLayout.stop_eq (hl : ItemLayout mem owner start stop (xs ++ b :: ys)) :
    start + total xs + b.size + total ys = stop := by
  have := hl.total_eq
  simp only [total_append, total_cons] at this
  omega

theorem ItemLayout.rest_pos (hl : ItemLayout mem owner start stop (xs ++ b :: ys)) (hys : ys ≠ []) :
    24 ≤ total ys := by
  obtain ⟨c, cs, rfl⟩ := List.exists_cons_of_ne_nil hys
  have := hl.size c (by simp)
  rw [total_cons]
  omega

theorem ItemLayout.parts (hl : ItemLayout mem owner start stop (xs ++ b :: ys)) :
    IsItem owner start stop (mem (start + total xs)) (lastStart (stop - 24) start xs)
      (start + total xs + b.size) b.used :=
  (tiled_append.mp hl.tiled).2.1

/-- The item after one that is not the tail. -/
theorem ItemLayout.next_eq (hl : ItemLayout mem owner start stop (xs ++ b :: ys)) (hys : ys ≠ []) :
    (mem (start + total xs)).next.toNat = start + total xs + b.size := by
  have hnext := hl.parts.next
  have hstop := hl.stop_eq
  have hrest := hl.rest_pos hys
  rwa [if_neg (by omega)] at hnext

theorem ItemLayout.parts_next (hl : ItemLayout mem owner start stop (xs ++ b :: c :: ys)) :
    IsItem owner start stop (mem (start + total xs + b.size)) (start + total xs)
      (start + total xs + b.size + c.size) c.used :=
  (tiled_append.mp hl.tiled).2.2.1

/-- The item before the first one is the tail. -/
theorem ItemLayout.parts_first (hl : ItemLayout mem owner start stop (b :: ys)) :
    (mem start).prev.toNat = stop - 24 := hl.tiled.1.prev

theorem ItemLayout.tail_used (hl : ItemLayout mem owner start stop bs) :
    ∃ prev next, IsItem owner start stop (mem (stop - 24)) prev next true := by
  obtain ⟨cs, hcs⟩ : ∃ cs, bs = cs ++ [⟨24, true⟩] :=
    ⟨bs.dropLast, (List.dropLast_append_getLast? _ hl.tail).symm⟩
  subst hcs
  have hitem := hl.parts
  have hstop := hl.stop_eq
  simp only [total_nil, Nat.add_zero] at hstop
  rw [show stop - 24 = start + total cs by omega]
  exact ⟨_, _, hitem⟩

/-- Some blocks become others, and the item behind them comes to tell of the last of these. -/
theorem ItemLayout.replace {p : BitVec 32} (ms' : List Block)
    (hl : ItemLayout mem owner start stop (xs ++ (ms ++ ys)))
    (hys : ys ≠ []) (hsize : ∀ b ∈ ms', 24 ≤ b.size) (htotal : total ms' = total ms)
    (hmid : Tiled (IsItem owner start stop) mem' (lastStart (stop - 24) start xs)
      (start + total xs) ms')
    (hnext : mem' (start + total xs + total ms) =
      { mem (start + total xs + total ms) with prev := p })
    (hp : p.toNat = lastStart (lastStart (stop - 24) start xs) (start + total xs) ms')
    (helse : ∀ a, a < start + total xs ∨ start + total xs + total ms < a → mem' a = mem a) :
    ItemLayout mem' owner start stop (xs ++ (ms' ++ ys)) := by
  obtain ⟨hxs, hrest⟩ := tiled_append.mp hl.tiled
  obtain ⟨-, hys'⟩ := tiled_append.mp hrest
  have hpos := hl.pos
  refine ⟨tiled_append.mpr ⟨?_, tiled_append.mpr ⟨hmid, ?_⟩⟩, ?_, ?_, ?_, hl.room⟩
  · exact hxs.congr (fun b hb => hpos b (by simp [hb])) fun a _ ha => helse a (.inl ha)
  · rw [htotal]
    refine hys'.relink (fun b hb => hpos b (by simp [hb])) (fun _ next used hitem => ?_)
      fun a ha _ => helse a (.inr ha)
    rw [hnext]
    exact ⟨hitem.magic, hitem.poolPtr, hitem.next, hp⟩
  · rw [← hl.total_eq]
    simp only [total_append, htotal]
  · have htail := hl.tail
    obtain ⟨c, hc⟩ := Option.ne_none_iff_exists'.mp (mt List.getLast?_eq_none_iff.mp hys)
    simpa [List.getLast?_append, hc] using htail
  · intro b hb
    simp only [List.mem_append] at hb
    obtain hb | hb | hb := hb
    · exact hl.size b (by simp [hb])
    · exact hsize b hb
    · exact hl.size b (by simp [hb])

/-- A block comes into use, or is used no more. -/
theorem ItemLayout.mark (hl : ItemLayout mem owner start stop (xs ++ ⟨s, u⟩ :: ys)) (hys : ys ≠ [])
    {w : ItemHead} (hw : ∀ prev next, IsItem owner start stop (mem (start + total xs)) prev next u →
      IsItem owner start stop w prev next v) :
    ItemLayout (Function.update mem (start + total xs) w) owner start stop (xs ++ ⟨s, v⟩ :: ys) := by
  have hs := hl.size ⟨s, u⟩ (by simp)
  obtain ⟨c, cs, rfl⟩ := List.exists_cons_of_ne_nil hys
  have hl' : ItemLayout mem owner start stop (xs ++ ([⟨s, u⟩] ++ c :: cs)) := hl
  simp only at hs
  refine hl'.replace [⟨s, v⟩] (p := (mem (start + total xs + s)).prev) (by simp)
    (by simpa using hs) rfl ?_ ?_ ?_ ?_
  · refine ⟨?_, trivial⟩
    rw [Function.update_self]
    exact hw _ _ hl.parts
  · rw [Function.update_of_ne (by simp; omega)]
    simp
  · exact hl.parts_next.prev
  · intro a ha
    exact Function.update_of_ne (by simp at ha; omega) _ _

/-- A block is split in two. -/
theorem ItemLayout.split {p q : BitVec 32} (hl : ItemLayout mem owner start stop (xs ++ ⟨n + s, u⟩ :: ys))
    (hys : ys ≠ []) (hn : 24 ≤ n) (hs : 24 ≤ s) (hp : p.toNat = start + total xs)
    (hq : q.toNat = start + total xs + n)
    (hheader : mem' (start + total xs) = { mem (start + total xs) with next := q })
    (hnew : mem' (start + total xs + n) =
      ⟨rtMemheapMagic, owner, (mem (start + total xs)).next, p⟩)
    (hnext : mem' (start + total xs + (n + s)) =
      { mem (start + total xs + (n + s)) with prev := q })
    (helse : ∀ a, a < start + total xs ∨ start + total xs + (n + s) < a → mem' a = mem a) :
    ItemLayout mem' owner start stop (xs ++ ⟨n, u⟩ :: ⟨s, false⟩ :: ys) := by
  have hl' : ItemLayout mem owner start stop (xs ++ ([⟨n + s, u⟩] ++ ys)) := hl
  have hitem := hl.parts
  have hstop := hl.stop_eq
  have hrest := hl.rest_pos hys
  have hafter := hl.next_eq hys
  simp only at hitem hstop hafter
  refine hl'.replace [⟨n, u⟩, ⟨s, false⟩] (p := q) hys (by simp [hn, hs]) (by simp)
    ⟨?_, ?_, trivial⟩ (by simpa using hnext) ?_ (by simpa using helse)
  · rw [hheader]
    refine ⟨hitem.magic, hitem.poolPtr, ?_, hitem.prev⟩
    simp only
    rw [if_neg (by omega)]
    exact hq
  · simp only
    rw [hnew]
    refine ⟨rfl, rfl, ?_, hp⟩
    simp only
    rw [if_neg (by omega)]
    omega
  · simpa [lastStart] using hq

/-- Two blocks are joined: the first one comes to tell of the item `q` after the second one. -/
theorem ItemLayout.join {p q : BitVec 32}
    (hl : ItemLayout mem owner start stop (xs ++ ⟨n, u⟩ :: ⟨s, v⟩ :: ys)) (hys : ys ≠ [])
    (hp : p.toNat = start + total xs) (hq : q = (mem (start + total xs + n)).next) :
    ItemLayout (Function.update
        (Function.update mem q.toNat { mem q.toNat with prev := p })
        p.toNat { mem p.toNat with next := q })
      owner start stop (xs ++ ⟨n + s, u⟩ :: ys) := by
  have hl' : ItemLayout mem owner start stop (xs ++ ([⟨n, u⟩, ⟨s, v⟩] ++ ys)) := hl
  have hsecond : ItemLayout mem owner start stop ((xs ++ [⟨n, u⟩]) ++ ⟨s, v⟩ :: ys) := by
    simpa using hl
  have hn := hl.size ⟨n, u⟩ (by simp)
  have hitem := hl.parts
  have htotal : total [(⟨n, u⟩ : Block), ⟨s, v⟩] = n + s := by simp
  have hnext : q.toNat = start + total xs + (n + s) := by
    have := hsecond.next_eq hys
    simp only [total_append, total_cons, total_nil, Nat.add_zero, ← Nat.add_assoc] at this
    rw [hq, this, Nat.add_assoc _ n]
  have hstop := hl.stop_eq
  have hrest := hsecond.rest_pos hys
  simp only [total_cons] at hitem hn hstop
  rw [hnext, hp]
  refine hl'.replace [⟨n + s, u⟩] (p := p) hys (by simp; omega) (by simp)
    ⟨?_, trivial⟩ ?_ ?_ ?_
  · rw [Function.update_self]
    refine ⟨hitem.magic, hitem.poolPtr, ?_, hitem.prev⟩
    simp only
    rw [hnext, if_neg (by omega)]
  · rw [htotal, Function.update_of_ne (by omega), Function.update_self]
  · simpa [lastStart] using hp
  · intro a ha
    rw [htotal] at ha
    rw [Function.update_of_ne (by omega), Function.update_of_ne (by omega)]

/-! ## What the code writes -/

namespace RtMemheap

variable {h : RtMemheap} {p q ptr value : BitVec 32} {m : ItemHead} {f : ItemHead → ItemHead}
  {free us ws : List Nat} {a : Nat}

def heads (h : RtMemheap) : Nat → ItemHead := fun a => (h.mem a).toItemHead

def freeNext (h : RtMemheap) : Nat → Nat := fun a => (h.mem a).nextFree.toNat

def freePrev (h : RtMemheap) : Nat → Nat := fun a => (h.mem a).prevFree.toNat

theorem get_modify_of_ne {g : RtMemheapItem → RtMemheapItem} (hne : p.toNat ≠ q.toNat) :
    (h.modify q g).get p = h.get p := Function.update_of_ne hne _ _

theorem get_modifyHead_of_ne (hne : p.toNat ≠ q.toNat) :
    (h.modifyHead q f).get p = h.get p := Function.update_of_ne hne _ _

theorem modifyHead_comm {g : ItemHead → ItemHead} (hne : p.toNat ≠ q.toNat) :
    (h.modifyHead p f).modifyHead q g = (h.modifyHead q g).modifyHead p f := by
  simp only [modifyHead, modify, get, Function.update_of_ne hne, Function.update_of_ne hne.symm]
  rw [Function.update_comm hne]

theorem heads_modify {g : RtMemheapItem → RtMemheapItem} : (h.modify p g).heads =
    Function.update h.heads p.toNat (g (h.get p)).toItemHead := Function.comp_update _ _ _ _

theorem freeNext_modify {g : RtMemheapItem → RtMemheapItem} : (h.modify p g).freeNext =
    Function.update h.freeNext p.toNat (g (h.get p)).nextFree.toNat :=
  Function.comp_update (fun m : RtMemheapItem => m.nextFree.toNat) _ _ _

theorem freePrev_modify {g : RtMemheapItem → RtMemheapItem} : (h.modify p g).freePrev =
    Function.update h.freePrev p.toNat (g (h.get p)).prevFree.toNat :=
  Function.comp_update (fun m : RtMemheapItem => m.prevFree.toNat) _ _ _

theorem heads_modifyHead :
    (h.modifyHead p f).heads = Function.update h.heads p.toNat (f (h.heads p.toNat)) :=
  heads_modify

@[simp] theorem freeNext_modifyHead : (h.modifyHead p f).freeNext = h.freeNext :=
  freeNext_modify.trans (Function.update_eq_self _ _)

@[simp] theorem freePrev_modifyHead : (h.modifyHead p f).freePrev = h.freePrev :=
  freePrev_modify.trans (Function.update_eq_self _ _)

@[simp] theorem heads_setNextFree : (h.setNextFree p value).heads = h.heads :=
  heads_modify.trans (Function.update_eq_self _ _)

@[simp] theorem heads_setPrevFree : (h.setPrevFree p value).heads = h.heads :=
  heads_modify.trans (Function.update_eq_self _ _)

theorem freeNext_setNextFree :
    (h.setNextFree p value).freeNext = Function.update h.freeNext p.toNat value.toNat :=
  freeNext_modify

@[simp] theorem freePrev_setNextFree : (h.setNextFree p value).freePrev = h.freePrev :=
  freePrev_modify.trans (Function.update_eq_self _ _)

theorem freePrev_setPrevFree :
    (h.setPrevFree p value).freePrev = Function.update h.freePrev p.toNat value.toNat :=
  freePrev_modify

@[simp] theorem freeNext_setPrevFree : (h.setPrevFree p value).freeNext = h.freeNext :=
  freeNext_modify.trans (Function.update_eq_self _ _)

/-- An item that does not overlap a new one stays. -/
theorem build_far (ha : a + 24 ≤ p.toNat ∨ p.toNat + 24 ≤ a) : (h.build p m).mem a = h.mem a := by
  have hsize : rtMemheapSize.toNat = 24 := by decide
  simp only [build, hsize]
  rw [if_neg (by omega), if_neg (by omega)]

theorem heads_build_self : (h.build p m).heads p.toNat = m := by
  simp [heads, build]

/-! ### The free list -/

@[simp] theorem heads_removeFree : (h.removeFree p).heads = h.heads := by
  simp [removeFree]

@[simp] theorem heads_insertFree : (h.insertFree p).heads = h.heads := by
  simp [insertFree]

@[simp] theorem heads_clearFree : (h.clearFree p).heads = h.heads := by
  simp [clearFree]

/-- The free list is the ring of `free_header` and the addresses `free`. -/
abbrev FreeRing (h : RtMemheap) (free : List Nat) : Prop :=
  Ring h.freeNext h.freePrev h.freeHeader.toNat free

theorem FreeRing.removeFree (hr : h.FreeRing (us ++ ptr.toNat :: ws)) :
    (h.removeFree ptr).FreeRing (us ++ ws) := by
  have hne : ptr.toNat ≠ (h.get ptr).nextFree.toNat := Ne.symm hr.next_ne
  have hsame : (h.setPrevFree (h.get ptr).nextFree (h.get ptr).prevFree).get ptr = h.get ptr :=
    get_modify_of_ne hne
  have hring := hr.remove
  unfold FreeRing RtMemheap.removeFree
  simp only [hsame]
  rw [freeNext_setNextFree, freePrev_setNextFree, freeNext_setPrevFree, freePrev_setPrevFree]
  exact hring

theorem FreeRing.insertFree (hr : h.FreeRing free) (hlist : h.freeList = h.freeHeader)
    (hnot : ptr.toNat ∉ h.freeHeader.toNat :: free) :
    (h.insertFree ptr).FreeRing (ptr.toNat :: free) := by
  have hne : h.freeHeader.toNat ≠ ptr.toNat := fun heq => hnot (by simp [heq])
  have hsame : (((h.setNextFree ptr (h.get h.freeHeader).nextFree).setPrevFree ptr
      h.freeHeader).get h.freeHeader) = h.get h.freeHeader :=
    (get_modify_of_ne hne).trans (get_modify_of_ne hne)
  have hring := hr.push hnot
  have hcode : h.insertFree ptr =
      (((h.setNextFree ptr (h.get h.freeHeader).nextFree).setPrevFree ptr h.freeHeader).setPrevFree
        (h.get h.freeHeader).nextFree ptr).setNextFree h.freeHeader ptr := by
    let inserted := (h.setNextFree ptr (h.get h.freeList).nextFree).setPrevFree ptr h.freeList
    show (inserted.setPrevFree (inserted.get h.freeList).nextFree ptr).setNextFree h.freeList ptr = _
    simp only [inserted, hlist, hsame]
  unfold FreeRing
  rw [hcode, freeNext_setNextFree, freeNext_setPrevFree, freeNext_setPrevFree,
    freeNext_setNextFree, freePrev_setNextFree, freePrev_setPrevFree, freePrev_setPrevFree,
    freePrev_setNextFree]
  exact hring

/-! ### The items -/

/-- The items of the pool are those of the blocks. -/
abbrev Tiles (h : RtMemheap) (bs : List Block) : Prop :=
  ItemLayout h.heads h.heapAddr h.startAddr.toNat (h.startAddr.toNat + h.poolSize.toNat) bs

variable {bs xs ys : List Block} {b : Block} {s n : Nat} {u v : Bool}

theorem isUsed_eq {owner : BitVec 32} {start stop prev next : Nat}
    (hitem : IsItem owner start stop (h.heads p.toNat) prev next u) : h.isUsed p = u := by
  have hused := hitem.magic_used
  cases u with
  | true => exact decide_eq_true (hused.mpr rfl)
  | false => exact decide_eq_false fun hno => Bool.noConfusion (hused.mp hno)

theorem Tiles.memitemSize (ht : h.Tiles (xs ++ b :: ys)) (hys : ys ≠ [])
    (hp : p.toNat = h.startAddr.toNat + total xs) : (h.memitemSize p).toNat + 24 = b.size := by
  have hnext := ht.next_eq hys
  have hstop := ht.stop_eq
  have hsize := ht.size b (by simp)
  have hroom := ht.room
  rw [← hp] at hnext
  have hget : (h.get p).next.toNat = p.toNat + b.size := hnext
  rw [RtMemheap.memitemSize, rtMemheapSize_eq]
  bv_omega

/-- A block of the pool is marked. -/
theorem Tiles.mark (ht : h.Tiles (xs ++ ⟨s, u⟩ :: ys)) (hys : ys ≠ [])
    (hp : p.toNat = h.startAddr.toNat + total xs)
    (hf : ∀ m prev next, IsItem h.heapAddr h.startAddr.toNat
      (h.startAddr.toNat + h.poolSize.toNat) m prev next u → IsItem h.heapAddr h.startAddr.toNat
      (h.startAddr.toNat + h.poolSize.toNat) (f m) prev next v) :
    (h.modifyHead p f).Tiles (xs ++ ⟨s, v⟩ :: ys) := by
  unfold Tiles
  rw [heads_modifyHead, hp]
  exact ItemLayout.mark ht hys fun prev next hitem => hf _ prev next hitem

/-- A block of the pool is split in two. -/
theorem Tiles.splitItem (ht : h.Tiles (xs ++ ⟨n + s, u⟩ :: ys)) (hys : ys ≠ []) (hn : 24 ≤ n)
    (hs : 24 ≤ s) (hp : p.toNat = h.startAddr.toNat + total xs)
    (hq : q.toNat = h.startAddr.toNat + total xs + n) :
    (h.splitItem p q).Tiles (xs ++ ⟨n, u⟩ :: ⟨s, false⟩ :: ys) := by
  have hnext : (h.get p).next.toNat = h.startAddr.toNat + total xs + (n + s) := by
    have := ht.next_eq hys
    rw [← hp] at this
    exact this.trans (by simp only [hp])
  let built := h.build q ⟨rtMemheapMagic, h.heapAddr, (h.get p).next, p⟩
  have hfar (a : Nat) (ha : a + 24 ≤ q.toNat ∨ q.toNat + 24 ≤ a) : built.heads a = h.heads a := by
    show (built.mem a).toItemHead = _
    rw [build_far ha]
    rfl
  have hget : built.get p = h.get p := build_far (by omega)
  have hcode : (h.splitItem p q).heads =
      Function.update (Function.update built.heads (h.get p).next.toNat
        { h.heads (h.get p).next.toNat with prev := q })
        p.toNat { h.heads p.toNat with next := q } := by
    show ((built.setPrev (built.get p).next q).setNext p q).heads = _
    rw [hget, setNext, heads_modifyHead, setPrev, heads_modifyHead,
      Function.update_of_ne (by omega), hfar p.toNat (by omega), hfar _ (by omega)]
  show ItemLayout (h.splitItem p q).heads h.heapAddr h.startAddr.toNat
    (h.startAddr.toNat + h.poolSize.toNat) _
  refine ItemLayout.split (p := p) (q := q) ht hys hn hs hp hq ?_ ?_ ?_ ?_
  · rw [hcode, hp, Function.update_self]
  · have hself : built.heads q.toNat = _ := heads_build_self
    rw [hcode, ← hq, Function.update_of_ne (by omega), Function.update_of_ne (by omega), hself,
      ← hp]
    rfl
  · rw [hcode, hnext, Function.update_of_ne (by omega), Function.update_self]
  · intro a ha
    rw [hcode, Function.update_of_ne (by omega), Function.update_of_ne (by omega),
      hfar a (by omega)]

/-- The free list does not notice an item that is built apart from its members. -/
theorem FreeRing.splitItem (hr : h.FreeRing free)
    (hfar : ∀ a ∈ h.freeHeader.toNat :: free, a + 24 ≤ q.toNat ∨ q.toNat + 24 ≤ a) :
    (h.splitItem p q).FreeRing free := by
  let built := h.build q ⟨rtMemheapMagic, h.heapAddr, (h.get p).next, p⟩
  have hnext : (h.splitItem p q).freeNext = built.freeNext := by
    simp [RtMemheap.splitItem, setNext, setPrev, built]
  have hprev : (h.splitItem p q).freePrev = built.freePrev := by
    simp [RtMemheap.splitItem, setNext, setPrev, built]
  refine Ring.congr hr (fun a ha => ?_) fun a ha => ?_
  · show (h.splitItem p q).freeNext a = _
    rw [hnext]
    show (built.mem a).nextFree.toNat = _
    rw [build_far (hfar a ha)]
    rfl
  · show (h.splitItem p q).freePrev a = _
    rw [hprev]
    show (built.mem a).prevFree.toNat = _
    rw [build_far (hfar a ha)]
    rfl

/-- The links that join two items. -/
def joinedHeads (h : RtMemheap) (p q : BitVec 32) : Nat → ItemHead :=
  Function.update (Function.update h.heads (h.get q).next.toNat
    { h.heads (h.get q).next.toNat with prev := p })
    p.toNat { h.heads p.toNat with next := (h.get q).next }

/-- Two blocks of the pool are joined. -/
theorem Tiles.join {h' : RtMemheap} (ht : h.Tiles (xs ++ ⟨n, u⟩ :: ⟨s, v⟩ :: ys)) (hys : ys ≠ [])
    (hp : p.toNat = h.startAddr.toNat + total xs)
    (hq : q.toNat = h.startAddr.toNat + total xs + n)
    (hheads : h'.heads = h.joinedHeads p q) (haddr : h'.heapAddr = h.heapAddr)
    (hstart : h'.startAddr = h.startAddr) (hpool : h'.poolSize = h.poolSize) :
    h'.Tiles (xs ++ ⟨n + s, u⟩ :: ys) := by
  unfold Tiles
  rw [hheads, haddr, hstart, hpool]
  exact ItemLayout.join ht hys hp (by rw [← hq]; rfl)

end RtMemheap

end PandoraRobot.Memory
