import PandoraRobot.Memory.HeapRuns
import PandoraRobot.Memory.MemheapRealloc

/-! # Runs of a memory heap

A run is any sequence of `rt_memheap_alloc`, `rt_memheap_realloc` and `rt_memheap_free` with
sizes up to that of the pool, where callers hand in only what they have been granted and not
given back.
-/

namespace PandoraRobot.Memory

open PandoraRobot.Kernel PandoraRobot.Tiling PandoraRobot.LinkedRing

/-! ## `rt_memheap_init` -/

namespace RtMemheap

variable {h : RtMemheap} {startAddr size : BitVec 32}

/-- The pool has room for a block and the tail, and the heap itself is outside of it. -/
structure Fits (h : RtMemheap) (startAddr size : BitVec 32) : Prop where
  room : 48 ≤ (rtAlignDown size rtAlignSize).toNat
  region : startAddr.toNat + size.toNat ≤ 2 ^ 32
  outside : h.freeHeader.toNat + 24 ≤ startAddr.toNat ∨
    startAddr.toNat + size.toNat ≤ h.freeHeader.toNat
  header : h.freeHeader.toNat + 24 ≤ 2 ^ 32

theorem initHeader_ring : h.initHeader.FreeRing [] := by
  have hnext : h.initHeader.freeNext h.freeHeader.toNat = h.freeHeader.toNat := by
    rw [initHeader, freeNext_modify, Function.update_self]
  have hprev : h.initHeader.freePrev h.freeHeader.toNat = h.freeHeader.toNat := by
    rw [initHeader, freePrev_modify, Function.update_self]
  exact ⟨⟨hnext, hprev⟩, List.nodup_singleton _⟩

/-- An item outside of the free list is written. -/
theorem FreeRing.modify {free : List Nat} {p : BitVec 32} {g : RtMemheapItem → RtMemheapItem}
    (hr : h.FreeRing free) (hp : p.toNat ∉ h.freeHeader.toNat :: free) :
    (h.modify p g).FreeRing free := by
  have hne (a : Nat) (ha : a ∈ h.freeHeader.toNat :: free) : a ≠ p.toNat := fun heq => hp (heq ▸ ha)
  refine hr.congr (fun a ha => ?_) fun a ha => ?_
  · rw [freeNext_modify, Function.update_of_ne (hne a ha)]
  · rw [freePrev_modify, Function.update_of_ne (hne a ha)]

variable {tail : BitVec 32}

/-- The pool is one free block and the tail. -/
theorem init_tiles (hne : tail.toNat ≠ h.startAddr.toNat) (hpool : 48 ≤ h.poolSize.toNat)
    (hregion : h.startAddr.toNat + h.poolSize.toNat ≤ 2 ^ 32)
    (htail : tail.toNat = h.startAddr.toNat + h.poolSize.toNat - 24) :
    (((h.initHeader.initBlock tail).insertFree h.startAddr).initTail tail).Tiles
      [⟨h.poolSize.toNat - 24, false⟩, ⟨24, true⟩] := by
  have hheads : (((h.initHeader.initBlock tail).insertFree h.startAddr).initTail tail).heads =
      Function.update (Function.update h.initHeader.heads h.startAddr.toNat
        ⟨rtMemheapMagic, h.heapAddr, tail, tail⟩) tail.toNat
        ⟨rtMemheapMagic ||| rtMemheapUsed, h.heapAddr, h.startAddr, h.startAddr⟩ := by
    rw [initTail, heads_modify, heads_insertFree, initBlock, heads_modify]
    rfl
  show ItemLayout _ h.heapAddr h.startAddr.toNat (h.startAddr.toNat + h.poolSize.toNat) _
  rw [hheads]
  have hnext : h.startAddr.toNat + (h.poolSize.toNat - 24) = tail.toNat := by omega
  refine ⟨tiled_cons.mpr ⟨?_, tiled_cons.mpr ⟨?_, tiled_nil⟩⟩, ?_, rfl, ?_, hregion⟩
  · rw [Function.update_of_ne hne.symm, Function.update_self]
    refine ⟨rfl, rfl, ?_, htail⟩
    simp only
    rw [if_neg (by omega), hnext]
  · simp only [hnext]
    rw [Function.update_self]
    refine ⟨rfl, rfl, ?_, rfl⟩
    simp only
    rw [if_pos (by omega)]
  · simp only [total_cons, total_nil]
    omega
  · simp only [List.mem_cons, List.not_mem_nil, or_false, forall_eq_or_imp, forall_eq]
    omega

theorem init_ring (hlist : h.freeList = h.freeHeader)
    (hstart : h.startAddr.toNat ≠ h.freeHeader.toNat) (htail : tail.toNat ≠ h.freeHeader.toNat)
    (hne : tail.toNat ≠ h.startAddr.toNat) :
    (((h.initHeader.initBlock tail).insertFree h.startAddr).initTail tail).FreeRing
      [h.startAddr.toNat] := by
  have hnot : h.startAddr.toNat ∉ [h.freeHeader.toNat] := by simpa using hstart
  have hring : (h.initHeader.initBlock tail).FreeRing [] := initHeader_ring.modify hnot
  refine (hring.insertFree hlist hnot).modify ?_
  rw [List.mem_cons, List.mem_singleton, not_or]
  exact ⟨htail, hne⟩

theorem rtMemheapInit_inv (hfits : h.Fits startAddr size) :
    ∃ bs, (h.rtMemheapInit startAddr size).Inv bs [startAddr.toNat] := by
  have hround := toNat_rtAlignDown size
  have hroom := hfits.room
  have hregion := hfits.region
  have houtside := hfits.outside
  rw [rtMemheapInit]
  generalize rtAlignDown size rtAlignSize = pool at hround hroom
  have havailable : (pool - 2 * rtMemheapSize).toNat = pool.toNat - 48 := by
    rw [rtMemheapSize_eq]
    bv_omega
  generalize pool - 2 * rtMemheapSize = available at havailable
  have htail : (startAddr + available + rtMemheapSize).toNat = startAddr.toNat + pool.toNat - 24 := by
    rw [rtMemheapSize_eq]
    bv_omega
  generalize startAddr + available + rtMemheapSize = tail at htail
  let h₀ : RtMemheap := { h with
    startAddr
    poolSize := pool
    availableSize := available
    maxUsedSize := pool - available
    freeList := h.freeHeader }
  refine ⟨[⟨pool.toNat - 24, false⟩, ⟨24, true⟩], ⟨⟨?_, ?_, ?_⟩, ?_, ?_, ?_⟩⟩
  · exact init_tiles (h := h₀) (by show tail.toNat ≠ startAddr.toNat; omega) hroom
      (by show startAddr.toNat + pool.toNat ≤ _; omega) htail
  · exact init_ring (h := h₀) rfl (by show startAddr.toNat ≠ h.freeHeader.toNat; omega)
      (by show tail.toNat ≠ h.freeHeader.toNat; omega)
      (by show tail.toNat ≠ startAddr.toNat; omega)
  · refine ⟨rfl, ?_, hfits.header⟩
    show h.freeHeader.toNat + 24 ≤ startAddr.toNat ∨
      startAddr.toNat + pool.toNat ≤ h.freeHeader.toNat
    omega
  · simp [Coalesced]
  · show List.Perm _ (freeStarts startAddr.toNat _)
    simp
  · show available.toNat = _
    rw [havailable]
    simp
    omega

/-- The bytes of data of the item that `addr` is given for. -/
def room (h : RtMemheap) (addr : BitVec 32) : BitVec 32 := h.memitemSize (addr - rtMemheapSize)

end RtMemheap

/-! ## Runs -/

/-- A memory heap, and the number of bytes that was asked for at each address its callers hold. -/
structure Memheaps where
  heap : RtMemheap
  live : BitVec 32 → Option (BitVec 32)

inductive MemheapOp where
  | alloc (size : BitVec 32)
  | realloc (ptr : Option (BitVec 32)) (newsize : BitVec 32)
  | free (ptr : Option (BitVec 32))
  deriving DecidableEq, Repr

namespace Memheaps

open Heaps (grant drop)

/-- The caller holds `ptr`, or it is `RT_NULL`. -/
def holds (s : Memheaps) : Option (BitVec 32) → Bool
  | none => true
  | some addr => (s.live addr).isSome

def legal (s : Memheaps) : MemheapOp → Bool
  | .alloc size => size ≤ s.heap.poolSize
  | .realloc ptr newsize => s.holds ptr && decide (newsize ≤ s.heap.poolSize)
  | .free ptr => s.holds ptr

def exec (s : Memheaps) : MemheapOp → Exec Memheaps
  | .alloc size => do
    let (h, ptr) ← s.heap.rtMemheapAlloc size
    pure ⟨h, grant ptr size s.live⟩
  | .realloc ptr newsize => do
    let (h, newPtr) ← s.heap.rtMemheapRealloc ptr newsize
    match newPtr with
    | none => pure ⟨h, if newsize = 0 then drop ptr s.live else s.live⟩
    | some _ => pure ⟨h, grant newPtr newsize (drop ptr s.live)⟩
  | .free ptr => do
    let h ← s.heap.rtMemheapFree ptr
    pure ⟨h, drop ptr s.live⟩

def Step (s s' : Memheaps) : Prop := ∃ op, s.legal op = true ∧ s.exec op = .ok s'

abbrev Runs : Memheaps → Memheaps → Prop := Relation.ReflTransGen Step

structure Initial (s : Memheaps) : Prop where
  init : ∃ startAddr size h, RtMemheap.Fits h startAddr size ∧
    s.heap = h.rtMemheapInit startAddr size
  live : ∀ addr, s.live addr = none

structure Inv (s : Memheaps) (bs : List Block) (free : List Nat) : Prop where
  heap : s.heap.Inv bs free
  live : ∀ addr size, s.live addr = some size →
    ∃ o n, Has s.heap.startAddr.toNat bs o ⟨n, true⟩ ∧ addr.toNat = o + 24 ∧ 36 ≤ n ∧
      size.toNat + 24 ≤ n

variable {s s' s₀ : Memheaps} {bs bs' : List Block} {free : List Nat} {op : MemheapOp}
  {ptr : Option (BitVec 32)} {size newsize : BitVec 32}

theorem Initial.inv (h : Initial s) : ∃ bs free, Inv s bs free := by
  obtain ⟨startAddr, size, h₀, hfits, hinit⟩ := h.init
  obtain ⟨bs, hi⟩ := RtMemheap.rtMemheapInit_inv hfits
  exact ⟨bs, _, hinit ▸ hi, by simp [h.live]⟩

theorem Inv.size_le (hi : Inv s bs free) (hsize : size ≤ s.heap.poolSize) :
    size.toNat + 24 ≤ 2 ^ 32 := by
  have := hi.heap.linked.pool_lt
  rw [BitVec.le_def] at hsize
  omega

/-- A block is granted, and what else callers hold stays. -/
theorem Inv.grant {h : RtMemheap} {free' : List Nat} {live : BitVec 32 → Option (BitVec 32)}
    {addr : BitVec 32} {o n : Nat} (hi : h.Inv bs' free')
    (hhas : Has h.startAddr.toNat bs' o ⟨n, true⟩) (haddr : addr.toNat = o + 24)
    (hsize : size.toNat + 24 ≤ 2 ^ 32) (hn : (RtMemheap.requestSize size).toNat + 24 ≤ n)
    (hlive : ∀ addr' size', live addr' = some size' → addr' ≠ addr →
      ∃ o n, Has h.startAddr.toNat bs' o ⟨n, true⟩ ∧ addr'.toNat = o + 24 ∧ 36 ≤ n ∧
        size'.toNat + 24 ≤ n) :
    Inv ⟨h, Heaps.grant (some addr) size live⟩ bs' free' := by
  obtain ⟨hmin, hle, -⟩ := RtMemheap.requestSize_spec hsize
  refine ⟨hi, fun addr' size' haddr' => ?_⟩
  by_cases heq : addr' = addr
  · subst heq
    obtain rfl : size = size' := by simpa [Heaps.grant] using haddr'
    exact ⟨o, n, hhas, haddr, by omega, by omega⟩
  · exact hlive addr' size' (by simpa [Heaps.grant, heq] using haddr') heq

theorem Inv.alloc (hi : Inv s bs free) (hsize : size ≤ s.heap.poolSize) :
    ∃ s' bs' free', s.exec (.alloc size) = .ok s' ∧ Inv s' bs' free' := by
  have hfits := hi.size_le hsize
  obtain hnone | ⟨h', bs', free', addr, o, n, hsome, hi', hgrants⟩ := hi.heap.rtMemheapAlloc hfits
  · exact ⟨s, bs, free, exec_bind_ok.mpr ⟨_, hnone, rfl⟩, hi⟩
  · have hstart := hgrants.same.startAddr
    refine ⟨_, bs', free', exec_bind_ok.mpr ⟨_, hsome, rfl⟩, ?_⟩
    refine Inv.grant hi' (by rw [hstart]; exact hgrants.has) hgrants.addr_eq hfits hgrants.enough ?_
    intro addr' size' haddr' _
    obtain ⟨o', n', hhas', heq, hn'⟩ := hi.live addr' size' haddr'
    rw [hstart]
    exact ⟨o', n', (hgrants.others o' n' hhas').2, heq, hn'⟩

/-- What callers hold besides `addr` is not where `addr` is. -/
theorem Inv.other (hi : Inv s bs free) {addr addr' size' : BitVec 32} {o : Nat}
    (haddr : addr.toNat = o + 24) (hlive : drop (some addr) s.live addr' = some size') :
    ∃ o' n', Has s.heap.startAddr.toNat bs o' ⟨n', true⟩ ∧ o' ≠ o ∧ addr'.toNat = o' + 24 ∧
      36 ≤ n' ∧ size'.toNat + 24 ≤ n' := by
  have hne : addr' ≠ addr := by
    rintro rfl
    simp [drop] at hlive
  obtain ⟨o', n', hhas, haddr', hn⟩ := hi.live addr' size' (by simpa [drop, hne] using hlive)
  refine ⟨o', n', hhas, ?_, haddr', hn⟩
  rintro rfl
  exact hne (BitVec.eq_of_toNat_eq (haddr'.trans haddr.symm))

/-- What callers hold is given back. -/
theorem Inv.dropped (hi : Inv s bs free) (hholds : s.holds ptr = true) :
    ∃ h' bs' free', s.heap.rtMemheapFree ptr = .ok h' ∧ Inv ⟨h', drop ptr s.live⟩ bs' free' := by
  cases ptr with
  | none => exact ⟨s.heap, bs, free, rfl, hi⟩
  | some addr =>
    obtain ⟨size, hsize⟩ := Option.isSome_iff_exists.mp hholds
    obtain ⟨o, n, hhas, haddr, hn, -⟩ := hi.live addr size hsize
    obtain ⟨h', bs', free', hfree, hi', hsame, hinUse⟩ := hi.heap.rtMemheapFree hhas hn haddr
    refine ⟨h', bs', free', hfree, hi', fun addr' size' hlive => ?_⟩
    obtain ⟨o', n', hhas', hne, haddr', hn'⟩ := hi.other haddr hlive
    rw [hsame.startAddr]
    exact ⟨o', n', (hinUse o' n').mpr ⟨hhas', hne⟩, haddr', hn'⟩

theorem Inv.realloc (hi : Inv s bs free) (hholds : s.holds ptr = true)
    (hsize : newsize ≤ s.heap.poolSize) :
    ∃ s' bs' free', s.exec (.realloc ptr newsize) = .ok s' ∧ Inv s' bs' free' := by
  have hfits := hi.size_le hsize
  by_cases hzero : newsize = 0
  · -- `rt_memheap_free`
    obtain ⟨h', bs', free', hfree, hi'⟩ := hi.dropped hholds
    refine ⟨_, bs', free', exec_bind_ok.mpr ⟨(h', none), ?_, ?_⟩, hi'⟩
    · rw [RtMemheap.rtMemheapRealloc, if_pos hzero]
      exact exec_bind_ok.mpr ⟨h', hfree, rfl⟩
    · simp only [if_pos hzero]
      rfl
  cases ptr with
  | none =>
    -- `rt_memheap_alloc` of the size that was rounded up
    obtain ⟨-, -, hmax⟩ := RtMemheap.requestSize_spec hfits
    have hcode : s.heap.rtMemheapRealloc none newsize =
        s.heap.rtMemheapAlloc (RtMemheap.requestSize newsize) := by
      rw [RtMemheap.rtMemheapRealloc, if_neg hzero]
    obtain hnone | ⟨h', bs', free', addr, o, n, hsome, hi', hgrants⟩ := hi.heap.rtMemheapAlloc hmax
    · refine ⟨s, bs, free, exec_bind_ok.mpr ⟨_, hcode.trans hnone, ?_⟩, hi⟩
      simp only [if_neg hzero]
      rfl
    · have hstart := hgrants.same.startAddr
      obtain ⟨-, hle, -⟩ := RtMemheap.requestSize_spec hmax
      have henough := hgrants.enough
      refine ⟨_, bs', free', exec_bind_ok.mpr ⟨_, hcode.trans hsome, rfl⟩, ?_⟩
      refine Inv.grant hi' (by rw [hstart]; exact hgrants.has) hgrants.addr_eq hfits (by omega) ?_
      intro addr' size' haddr' _
      obtain ⟨o', n', hhas', heq, hn'⟩ := hi.live addr' size' haddr'
      rw [hstart]
      exact ⟨o', n', (hgrants.others o' n' hhas').2, heq, hn'⟩
  | some addr =>
    obtain ⟨size, hlive⟩ := Option.isSome_iff_exists.mp hholds
    obtain ⟨o, n, hhas, haddr, hn, -⟩ := hi.live addr size hlive
    obtain hnone | ⟨h', bs', free', addr', o', n', hsome, hi', hmoves⟩ :=
      hi.heap.rtMemheapRealloc hhas hn haddr hzero hfits
    · refine ⟨s, bs, free, exec_bind_ok.mpr ⟨_, hnone, ?_⟩, hi⟩
      simp only [if_neg hzero]
      rfl
    · have hstart := hmoves.same.startAddr
      refine ⟨_, bs', free', exec_bind_ok.mpr ⟨_, hsome, rfl⟩, ?_⟩
      refine Inv.grant hi' (by rw [hstart]; exact hmoves.has) hmoves.addr_eq hfits hmoves.enough ?_
      intro addr'' size'' hlive'' _
      obtain ⟨o'', n'', hhas'', hne, heq, hn''⟩ := hi.other haddr hlive''
      rw [hstart]
      exact ⟨o'', n'', (hmoves.others o'' n'' hhas'' hne).2, heq, hn''⟩

theorem Inv.exec (hi : Inv s bs free) (hlegal : s.legal op = true) :
    ∃ s' bs' free', s.exec op = .ok s' ∧ Inv s' bs' free' := by
  cases op with
  | alloc size => exact hi.alloc (of_decide_eq_true hlegal)
  | realloc ptr newsize =>
    rw [legal, Bool.and_eq_true, decide_eq_true_eq] at hlegal
    exact hi.realloc hlegal.1 hlegal.2
  | free ptr =>
    obtain ⟨h', bs', free', hfree, hi'⟩ := hi.dropped hlegal
    exact ⟨_, bs', free', exec_bind_ok.mpr ⟨h', hfree, rfl⟩, hi'⟩

theorem Runs.inv (hr : Runs s₀ s) (hi : Initial s₀) : ∃ bs free, Inv s bs free := by
  induction hr with
  | refl => exact hi.inv
  | tail _ hstep ih =>
    obtain ⟨bs, free, hbs⟩ := ih
    obtain ⟨op, hlegal, hexec⟩ := hstep
    obtain ⟨s', bs', free', hexec', hi'⟩ := hbs.exec hlegal
    exact ⟨bs', free', Except.ok.inj (hexec'.symm.trans hexec) ▸ hi'⟩

/-! ## What callers hold -/

/-- What a caller may rely on who holds `addr`, having asked for `size` bytes. -/
structure Granted (s : Memheaps) (addr size : BitVec 32) : Prop where
  inside : s.heap.startAddr.toNat + 24 ≤ addr.toNat ∧
    addr.toNat + (s.heap.room addr).toNat + 24 ≤ s.heap.startAddr.toNat + s.heap.poolSize.toNat
  inUse : s.heap.isUsed (addr - rtMemheapSize) = true
  enough : size ≤ s.heap.room addr
  /-- Neither the bytes nor the item of another block that is held are among the bytes. -/
  disjoint : ∀ addr' size', s.live addr' = some size' → addr' ≠ addr →
    addr.toNat + (s.heap.room addr).toNat + 24 ≤ addr'.toNat ∨
      addr'.toNat + (s.heap.room addr').toNat + 24 ≤ addr.toNat

theorem Inv.room_eq {addr : BitVec 32} {o n : Nat} (hi : Inv s bs free)
    (hhas : Has s.heap.startAddr.toNat bs o ⟨n, true⟩) (hn : 36 ≤ n) (haddr : addr.toNat = o + 24) :
    (s.heap.room addr).toNat + 24 = n ∧ s.heap.isUsed (addr - rtMemheapSize) = true ∧
      o + n + 24 ≤ s.heap.startAddr.toNat + s.heap.poolSize.toNat := by
  obtain ⟨xs, ys, rfl, rfl⟩ := has_iff_split.mp hhas
  have ht := hi.heap.linked.tiles
  have hys : ys ≠ [] := ht.rest_ne_nil (by
    rw [Ne, Block.mk.injEq]
    omega)
  have hmem : (addr - rtMemheapSize).toNat = s.heap.startAddr.toNat + total xs := by
    rw [rtMemheapSize_eq]
    bv_omega
  have hitem := ht.parts
  rw [← hmem] at hitem
  have hstop := ht.stop_eq
  have hrest := ht.rest_pos hys
  simp only at hstop
  exact ⟨ht.memitemSize hys hmem, RtMemheap.isUsed_eq hitem, by omega⟩

theorem Inv.granted {addr : BitVec 32} (hi : Inv s bs free) (hlive : s.live addr = some size) :
    s.Granted addr size := by
  obtain ⟨o, n, hhas, haddr, hn, hsize⟩ := hi.live addr size hlive
  obtain ⟨hroom, hused, hlast⟩ := hi.room_eq hhas hn haddr
  have hbounds := hhas.bounds
  simp only at hbounds
  refine ⟨by omega, hused, ?_, fun addr' size' hlive' hne => ?_⟩
  · rw [BitVec.le_def]
    omega
  · obtain ⟨o', n', hhas', haddr', hn', -⟩ := hi.live addr' size' hlive'
    obtain ⟨hroom', -, -⟩ := hi.room_eq hhas' hn' haddr'
    obtain ⟨rfl, -⟩ | hlt | hlt := hhas.disjoint hhas'
    · exact absurd (BitVec.eq_of_toNat_eq (haddr'.trans haddr.symm)) hne
    · left
      simp only at hlt
      omega
    · right
      simp only at hlt
      omega

/-! ## Runs, call by call -/

/-- A new heap, and nothing that callers hold. -/
def start (freeHeader startAddr size : BitVec 32) : Memheaps :=
  let blank : RtMemheapItem := ⟨⟨0, 0, 0, 0⟩, 0, 0⟩
  let h : RtMemheap := ⟨fun _ => blank, fun _ => blank, 0, freeHeader, 0, 0, 0, 0, 0⟩
  ⟨h.rtMemheapInit startAddr size, fun _ => none⟩

def play (s : Memheaps) (op : MemheapOp) : Exec Memheaps := do
  rtAssert (s.legal op = true)
  s.exec op

theorem play_step (h : s.play op = .ok s') : Step s s' := by
  simp only [play, exec_bind_ok, rtAssert_eq_ok] at h
  obtain ⟨_, hlegal, hexec⟩ := h
  exact ⟨op, hlegal, hexec⟩

/-- In every state a run reaches, the items are one circle of blocks from the start of the pool
    to the tail, no two neighbours of which are free, and the free list is a ring of the free
    ones.  Their bytes are what is available.  What callers hold are blocks in use, which do not
    overlap and have the bytes that were asked for.  Every call that may be made returns. -/
theorem memheap_linked (hi : Initial s₀) (hr : Runs s₀ s) :
    (∃ bs free, s.heap.Tiles bs ∧ Coalesced bs ∧ s.heap.FreeRing free ∧
        free.Perm (freeStarts s.heap.startAddr.toNat bs) ∧
        s.heap.availableSize.toNat = freeData 24 bs) ∧
      (∀ addr size, s.live addr = some size → s.Granted addr size) ∧
      ∀ op, s.legal op = true → ∃ s', s.exec op = .ok s' := by
  obtain ⟨bs, free, hbs⟩ := hr.inv hi
  refine ⟨⟨bs, free, hbs.heap.linked.tiles, hbs.heap.coalesced, hbs.heap.linked.ring,
    hbs.heap.perm, hbs.heap.available⟩, ?_, ?_⟩
  · intro addr size hlive
    exact hbs.granted hlive
  · intro op hlegal
    obtain ⟨s', -, -, hexec, -⟩ := hbs.exec hlegal
    exact ⟨s', hexec⟩

/-- A block grows so far that the free item behind it is built again over itself. -/
theorem memheap_linked_after_realloc :
    ∃ s₀ s : Memheaps, Initial s₀ ∧ Runs s₀ s ∧ s.live 0x1018 = some 110 ∧
      s.Granted 0x1018 110 ∧
      ∃ bs free, s.heap.Tiles bs ∧ Coalesced bs ∧ s.heap.FreeRing free ∧
        free.Perm (freeStarts s.heap.startAddr.toNat bs) ∧
        s.heap.availableSize.toNat = freeData 24 bs := by
  obtain ⟨s₀, hs₀⟩ : ∃ s₀, s₀ = start 0x800 0x1000 512 := ⟨_, rfl⟩
  let run : Exec Memheaps := [MemheapOp.alloc 100, .alloc 40, .alloc 60, .free (some 0x1094),
    .realloc (some 0x1018) 110, .realloc (some 0x10d4) 20].foldlM play (start 0x800 0x1000 512)
  obtain ⟨s, hrun, hdata⟩ := exec_exists_ok (show
    run.map (fun s => decide (s.live 0x1018 = some 110)) = .ok true by decide +kernel)
  have hlive := of_decide_eq_true hdata
  have hinitial : Initial s₀ := by
    subst hs₀
    exact ⟨⟨0x1000, 512, _, ⟨by decide, by decide, by decide, by decide⟩, rfl⟩, fun _ => rfl⟩
  have hruns : Runs s₀ s := by
    subst hs₀
    apply foldlM_runs _ hrun
    intro s op s' h
    exact play_step h
  obtain ⟨hlists, hgranted, -⟩ := memheap_linked hinitial hruns
  exact ⟨s₀, s, hinitial, hruns, hlive, hgranted _ _ hlive, hlists⟩

end Memheaps

end PandoraRobot.Memory
