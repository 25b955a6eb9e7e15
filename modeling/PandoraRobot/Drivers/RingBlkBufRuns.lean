import Mathlib.Data.List.Find
import PandoraRobot.Drivers.RingBlkBuf

/-! # Runs of a ring block buffer

The blocks that are in use along a run of the calls of `ringblk_buf.c`, with the memory
each was allocated.  As long as the list has all of them, they stay inside the buffer and
apart, and a get returns the earliest block that has been put.
-/

namespace PandoraRobot.Drivers

open PandoraRobot.Kernel PandoraRobot.Trace PandoraRobot.BlockRing

/-! ## The blocks in use -/

/-- A block between its allocation and its free. -/
structure LiveBlk where
  blk : Nat
  /-- What it was allocated. -/
  span : Span
  /-- It has been put, and has not been got yet. -/
  ready : Bool
  /-- No `rt_rbb_blk_queue_get` has taken it. -/
  linked : Bool
  deriving DecidableEq, Repr

def LiveBlk.putReady (l : LiveBlk) : LiveBlk := { l with ready := true }

def LiveBlk.got (l : LiveBlk) : LiveBlk := { l with ready := false }

def LiveBlk.taken (l : LiveBlk) : LiveBlk := { l with ready := false, linked := false }

/-- A queue that has been got, and the blocks that went into it. -/
structure GotQueue where
  blkQueue : RtRbbBlkQueue
  taken : List Nat
  deriving DecidableEq, Repr

/-- A buffer with its blocks in use, the earliest one first, and the queues in use. -/
structure RingBlocks where
  rbb : RtRbb
  live : List LiveBlk
  queues : List GotQueue

/-- The calls.  A block that is put or freed, and a queue that is freed, is one in use. -/
inductive RbbCall where
  | alloc (blkSize : Nat)
  | put (n : Nat)
  | get
  | free (n : Nat)
  | queueGet (queueDataLen : Nat)
  | queueFree (n : Nat)
  deriving DecidableEq, Repr

namespace RingBlocks

/-- Something has happened to the blocks `blks`. -/
def marked (blks : List Nat) (mark : LiveBlk → LiveBlk) (live : List LiveBlk) : List LiveBlk :=
  live.map fun l => if l.blk ∈ blks then mark l else l

/-- The blocks `blks` have been freed, with any queue they were in. -/
def freed (blks : List Nat) (rbb : RtRbb) (s : RingBlocks) : RingBlocks where
  rbb := rbb
  live := s.live.filter fun l => l.blk ∉ blks
  queues := s.queues.filter fun q => ∀ i ∈ q.taken, i ∉ blks

/-- One call, with the block it returns. -/
def step : RbbCall → RingBlocks → Exec (RingBlocks × Option Nat)
  | .alloc blkSize, s => do
    let (rbb, out) ← s.rbb.rtRbbBlkAlloc blkSize
    match out with
    | some new =>
      let block := rbb.blkSet new
      pure ({ s with rbb, live := s.live ++ [⟨new, ⟨block.buf, block.size⟩, false, true⟩] }, out)
    | none => pure ({ s with rbb }, none)
  | .put n, s =>
    match s.live[n]? with
    | some l => do
      let rbb ← s.rbb.rtRbbBlkPut l.blk
      pure ({ s with rbb, live := marked [l.blk] LiveBlk.putReady s.live }, none)
    | none => pure (s, none)
  | .get, s =>
    let (rbb, out) := s.rbb.rtRbbBlkGet
    pure ({ s with rbb, live := marked out.toList LiveBlk.got s.live }, out)
  | .free n, s =>
    match s.live[n]? with
    | some l => do
      let rbb ← s.rbb.rtRbbBlkFree l.blk
      pure (freed [l.blk] rbb s, none)
    | none => pure (s, none)
  | .queueGet queueDataLen, s =>
    let q := s.rbb.rtRbbBlkQueueGet queueDataLen ⟨0, 0⟩
    let queues := if q.taken = [] then s.queues else s.queues ++ [⟨q.blkQueue, q.taken⟩]
    pure (⟨q.rbb, marked q.taken LiveBlk.taken s.live, queues⟩, none)
  | .queueFree n, s =>
    match s.queues[n]? with
    | some q => do
      let rbb ← s.rbb.rtRbbBlkQueueFree q.blkQueue
      pure (freed q.taken rbb s, none)
    | none => pure (s, none)

/-- The blocks in use are inside the buffer, and no two of them share a byte. -/
structure Sound (s : RingBlocks) : Prop where
  inside : ∀ l ∈ s.live, l.span.stop ≤ s.rbb.bufSize
  apart : s.live.Pairwise fun a b => Disjoint a.span.cells b.span.cells

/-- A call leaves the blocks apart, and a get returns the earliest one that is ready. -/
def Right (call : RbbCall) (s : RingBlocks) : Prop :=
  ∀ s' out, step call s = .ok (s', out) →
    s'.Sound ∧ (call = .get → out = (s.live.find? LiveBlk.ready).map LiveBlk.blk)

/-- The ring has wrapped, and the last block ends where the first one starts. -/
def Full (s : RingBlocks) : Prop :=
  ∃ first last, s.live.head? = some first ∧ s.live.getLast? = some last ∧
    last.span.start < first.span.start ∧ last.span.stop = first.span.start

/-- An allocation finds no block of a queue in use, the first one asks for no more than the
    buffer, and none asks for no byte of a full ring.  A queue that is freed has its blocks next
    to each other in the block set. -/
def Meets : RbbCall → RingBlocks → Prop
  | .alloc blkSize, s =>
    (∀ l ∈ s.live, l.linked = true) ∧ (s.live = [] → blkSize ≤ s.rbb.bufSize) ∧
      (blkSize = 0 → ¬ s.Full)
  | .queueFree n, s => ∀ q, s.queues[n]? = some q →
    q.taken = List.range' q.blkQueue.blocks q.blkQueue.blkNum
  | _, _ => True

/-- A buffer as `rt_rbb_init` leaves it. -/
structure Initialised (s : RingBlocks) : Prop where
  bufSize : s.rbb.bufSize < 2 ^ 32
  unused : ∀ i < s.rbb.blkMaxNum, (s.rbb.blkSet i).status = .unused
  blkList : s.rbb.blkList = []
  live : s.live = []
  queues : s.queues = []

/-! ## The list and the blocks in use -/

/-- What the block set says of a block in use. -/
structure Entry (block : RtRbbBlk) (l : LiveBlk) : Prop where
  buf : block.buf = l.span.start
  size : block.size = l.span.size
  used : block.status ≠ .unused
  ready : block.status = .put ↔ l.ready = true
  taken : l.linked = false → block.status = .get

/-- The list has the blocks in use, in their order, less those of queues. -/
structure Inv (s : RingBlocks) : Prop where
  bufSize : s.rbb.bufSize < 2 ^ 32
  nodup : (s.live.map LiveBlk.blk).Nodup
  entry : ∀ l ∈ s.live, Entry (s.rbb.blkSet l.blk) l
  unused : ∀ i < s.rbb.blkMaxNum, (s.rbb.blkSet i).status ≠ .unused → i ∈ s.live.map LiveBlk.blk
  list : s.rbb.blkList = (s.live.filter LiveBlk.linked).map LiveBlk.blk
  laid : Laid s.rbb.bufSize (s.live.map LiveBlk.span)

variable {s s' : RingBlocks} {l : LiveBlk} {rbb : RtRbb} {blks : List Nat} {block : Nat}
  {call : RbbCall} {out : Option Nat}

theorem Inv.sound (hi : s.Inv) : s.Sound where
  inside l hl := hi.laid.inside l.span (List.mem_map_of_mem hl)
  apart := by
    have h := hi.laid.disjoint
    rwa [List.pairwise_map] at h

theorem Entry.linked_of_ready {b : RtRbbBlk} (h : Entry b l) (hready : l.ready = true) :
    l.linked = true := by
  cases hlinked : l.linked with
  | true => rfl
  | false =>
    have hput := h.ready.mpr hready
    rw [h.taken hlinked] at hput
    cases hput

theorem Initialised.inv (h : s.Initialised) : s.Inv where
  bufSize := h.bufSize
  nodup := by simp [h.live]
  entry := by simp [h.live]
  unused i hi hne := absurd (h.unused i hi) hne
  list := by simp [h.live, h.blkList]
  laid := by
    rw [h.live]
    exact ⟨by simp, [], [], rfl, .nil, .nil, by simp⟩

/-! ## Allocations -/

theorem append_blkSet (new buf size : Nat) (rbb : RtRbb) :
    (rbb.append new buf size).blkSet =
      Function.update rbb.blkSet new ⟨.inited, size, buf⟩ := rfl

/-- Where a block is allocated, there is room for it, if the list has all blocks. -/
theorem Inv.place (hi : s.Inv) {blkSize buf : Nat} (hmeets : Meets (.alloc blkSize) s)
    (hplace : RtRbb.Place s.rbb blkSize buf) :
    Laid s.rbb.bufSize (s.live.map LiveBlk.span ++ [⟨buf, blkSize⟩]) := by
  obtain ⟨hlinked, hfirst, hfull⟩ := hmeets
  have hlist : s.rbb.blkList = s.live.map LiveBlk.blk := by
    rw [hi.list, List.filter_eq_self.mpr hlinked]
  have hblk : ∀ l ∈ s.live, (s.rbb.blkSet l.blk).buf = l.span.start ∧
      (s.rbb.blkSet l.blk).buf + (s.rbb.blkSet l.blk).size = l.span.stop := by
    intro l hl
    have h := hi.entry l hl
    exact ⟨h.buf, by rw [h.buf, h.size]; rfl⟩
  -- the first and the last entry of the list are the first and the last block in use
  have hends : ∀ head tail, s.rbb.blkList.head? = some head →
      s.rbb.blkList.getLast? = some tail → ∃ first last,
        s.live.head? = some first ∧ s.live.getLast? = some last ∧ first.blk = head ∧
        last.blk = tail ∧ first ∈ s.live ∧ last ∈ s.live := by
    intro head tail hhead htail
    rw [hlist, List.head?_map, Option.map_eq_some_iff] at hhead
    rw [hlist, List.getLast?_map, Option.map_eq_some_iff] at htail
    obtain ⟨first, hfirst, rfl⟩ := hhead
    obtain ⟨last, hlast, rfl⟩ := htail
    exact ⟨first, last, hfirst, hlast, rfl, rfl, List.mem_of_head? hfirst,
      List.mem_of_getLast? hlast⟩
  cases hplace with
  | empty hnil =>
    have hlive : s.live = [] := by simpa [hlist] using hnil
    rw [hlive]
    exact .single (hfirst hlive)
  | behind hhead htail hle hroom =>
    obtain ⟨first, last, hf, hl, rfl, rfl, hmf, hml⟩ := hends _ _ hhead htail
    obtain ⟨hbufFirst, -⟩ := hblk first hmf
    obtain ⟨hbufLast, hstop⟩ := hblk last hml
    have hinside := hi.laid.inside last.span (List.mem_map_of_mem hml)
    rw [← Nat.cast_add, hstop, RtRbb.rtSize_sub hinside hi.bufSize] at hroom
    rw [hstop]
    have hfirst' : (s.live.map LiveBlk.span).head? = some first.span := by simp [hf]
    exact hi.laid.append hfirst' (by simp [hl]) (by omega) (by omega)
  | start hhead htail hle hnone hroom =>
    obtain ⟨first, last, hf, hl, rfl, rfl, hmf, hml⟩ := hends _ _ hhead htail
    obtain ⟨hbufFirst, -⟩ := hblk first hmf
    obtain ⟨hbufLast, -⟩ := hblk last hml
    have hinside := hi.laid.inside first.span (List.mem_map_of_mem hmf)
    have hstart := first.span.start_le_stop
    have hsize := hi.bufSize
    rw [RtRbb.rtSize_of_lt (by omega)] at hroom
    have hfirst' : (s.live.map LiveBlk.span).head? = some first.span := by simp [hf]
    have hlast' : (s.live.map LiveBlk.span).getLast? = some last.span := by simp [hl]
    exact hi.laid.wrap hfirst' hlast' (by omega) (by omega) (by omega)
  | below hhead htail hlt hroom =>
    obtain ⟨first, last, hf, hl, rfl, rfl, hmf, hml⟩ := hends _ _ hhead htail
    obtain ⟨hbufFirst, -⟩ := hblk first hmf
    obtain ⟨hbufLast, hstop⟩ := hblk last hml
    have hfirst' : (s.live.map LiveBlk.span).head? = some first.span := by simp [hf]
    have hlast' : (s.live.map LiveBlk.span).getLast? = some last.span := by simp [hl]
    have hbelow : last.span.start < first.span.start := by omega
    have hend := hi.laid.last_stop_le hfirst' hlast' hbelow
    have hinside := hi.laid.inside first.span (List.mem_map_of_mem hmf)
    have hstart := first.span.start_le_stop
    have hsize := hi.bufSize
    rw [← Nat.cast_add, hstop, hbufFirst, RtRbb.rtSize_sub hend (by omega)] at hroom
    rw [hstop]
    -- the ring is not full, or nothing would fit
    have hgap : last.span.stop < first.span.start := by
      refine lt_of_le_of_ne hend fun heq => ?_
      exact hfull (by omega) ⟨first, last, hf, hl, hbelow, heq⟩
    exact hi.laid.append_low hfirst' hlast' hbelow hgap (by omega)

/-- A block that is allocated is the last one in use. -/
theorem Inv.append (hi : s.Inv) {new buf size : Nat} (hunused : (s.rbb.blkSet new).status = .unused)
    (hlaid : Laid s.rbb.bufSize (s.live.map LiveBlk.span ++ [⟨buf, size⟩])) :
    Inv { s with
      rbb := s.rbb.append new buf size
      live := s.live ++ [⟨new, ⟨buf, size⟩, false, true⟩] } := by
  have hfresh : ∀ l ∈ s.live, l.blk ≠ new := fun l hl heq => (hi.entry l hl).used (heq ▸ hunused)
  refine ⟨hi.bufSize, ?_, fun l hl => ?_, fun i hbound hused => ?_, ?_, ?_⟩
  · rw [List.map_append, List.nodup_append]
    refine ⟨hi.nodup, by simp, fun i hmem j hj => ?_⟩
    obtain ⟨l, hl, rfl⟩ := List.mem_map.mp hmem
    obtain rfl : j = new := by simpa using hj
    exact hfresh l hl
  · rw [append_blkSet]
    obtain hl | hl := List.mem_append.mp hl
    · rw [Function.update_of_ne (hfresh l hl)]
      exact hi.entry l hl
    · obtain rfl := List.mem_singleton.mp hl
      rw [Function.update_self]
      exact ⟨rfl, rfl, by simp, by simp, by simp⟩
  · rw [append_blkSet] at hused
    by_cases hnew : i = new
    · simp [hnew]
    · rw [Function.update_of_ne hnew] at hused
      simp [hi.unused i hbound hused]
  · simp [RtRbb.append, hi.list, List.filter_append]
  · rw [List.map_append]
    exact hlaid

theorem Inv.alloc (hi : s.Inv) {blkSize : Nat} (hmeets : Meets (.alloc blkSize) s)
    (h : step (.alloc blkSize) s = .ok (s', out)) : s'.Inv := by
  simp only [step, exec_bind_ok] at h
  obtain ⟨⟨rbb, new⟩, halloc, h⟩ := h
  obtain ⟨rfl, rfl⟩ | ⟨new, buf, rfl, rfl, -, hunused, hplace⟩ := RtRbb.rtRbbBlkAlloc_cases halloc
  · simp only [exec_pure_ok, Prod.mk.injEq] at h
    exact h.1 ▸ hi
  · simp only [exec_pure_ok, Prod.mk.injEq, append_blkSet, Function.update_self] at h
    exact h.1 ▸ hi.append hunused (hi.place hmeets hplace)

/-! ## Puts and gets -/

section Marked

variable {mark : LiveBlk → LiveBlk}

theorem marked_blk (hblk : ∀ l, (mark l).blk = l.blk) (live : List LiveBlk) :
    (marked blks mark live).map LiveBlk.blk = live.map LiveBlk.blk := by
  rw [marked, List.map_map]
  refine List.map_congr_left fun l _ => ?_
  simp only [Function.comp_apply]
  split
  · exact hblk l
  · rfl

theorem marked_span (hspan : ∀ l, (mark l).span = l.span) (live : List LiveBlk) :
    (marked blks mark live).map LiveBlk.span = live.map LiveBlk.span := by
  rw [marked, List.map_map]
  refine List.map_congr_left fun l _ => ?_
  simp only [Function.comp_apply]
  split
  · exact hspan l
  · rfl

/-- The blocks on the list after a mark that may take some of them off. -/
theorem marked_linked (hblk : ∀ l, (mark l).blk = l.blk) (live : List LiveBlk) :
    ((marked blks mark live).filter LiveBlk.linked).map LiveBlk.blk =
      (live.filter fun l => (if l.blk ∈ blks then mark l else l).linked).map LiveBlk.blk := by
  rw [marked, List.filter_map, List.map_map]
  refine List.map_congr_left fun l _ => ?_
  simp only [Function.comp_apply]
  split
  · exact hblk l
  · rfl

/-- A change of a block in use that its marks go along with. -/
theorem Inv.change (hi : s.Inv) (mark : LiveBlk → LiveBlk) (rbb : RtRbb) (hblk : ∀ l, (mark l).blk = l.blk)
    (hspan : ∀ l, (mark l).span = l.span) (hmem : block ∈ s.live.map LiveBlk.blk)
    (hsize : rbb.bufSize = s.rbb.bufSize) (hmax : rbb.blkMaxNum = s.rbb.blkMaxNum)
    (hother : ∀ i, i ≠ block → rbb.blkSet i = s.rbb.blkSet i)
    (hset : ∀ l ∈ s.live, l.blk = block → Entry (rbb.blkSet block) (mark l))
    (hlist : rbb.blkList =
      (s.live.filter fun l => (if l.blk ∈ [block] then mark l else l).linked).map LiveBlk.blk)
    (queues : List GotQueue) : Inv ⟨rbb, marked [block] mark s.live, queues⟩ := by
  refine ⟨hsize ▸ hi.bufSize, ?_, fun l hl => ?_, fun i hbound hused => ?_, ?_, ?_⟩
  · rw [marked_blk hblk]
    exact hi.nodup
  · obtain ⟨l, hold, rfl⟩ := List.mem_map.mp hl
    by_cases heq : l.blk = block
    · simp only [List.mem_singleton, heq, if_true, hblk]
      exact hset l hold heq
    · simp only [List.mem_singleton, heq, if_false]
      rw [hother _ heq]
      exact hi.entry l hold
  · rw [marked_blk hblk]
    by_cases heq : i = block
    · exact heq ▸ hmem
    · rw [hother i heq] at hused
      exact hi.unused i (hmax ▸ hbound) hused
  · rw [marked_linked hblk]
    exact hlist
  · rw [marked_span hspan, hsize]
    exact hi.laid

end Marked

/-- Marks that leave the list alone. -/
theorem Inv.list_same (hi : s.Inv) {mark : LiveBlk → LiveBlk}
    (hlinked : ∀ l, (mark l).linked = l.linked) : s.rbb.blkList =
      (s.live.filter fun l => (if l.blk ∈ blks then mark l else l).linked).map LiveBlk.blk := by
  rw [hi.list]
  congr 1
  refine List.filter_congr fun l _ => ?_
  split
  · rw [hlinked]
  · rfl

theorem Inv.put (hi : s.Inv) (hl : l ∈ s.live) (h : s.rbb.rtRbbBlkPut l.blk = .ok rbb) :
    Inv { s with rbb, live := marked [l.blk] LiveBlk.putReady s.live } := by
  simp only [RtRbb.rtRbbBlkPut, exec_bind_ok, rtAssert_eq_ok, exec_pure_ok] at h
  obtain ⟨_, hinited, rfl⟩ := h
  refine hi.change LiveBlk.putReady (s.rbb.setStatus l.blk .put) (fun _ => rfl) (fun _ => rfl)
    (List.mem_map_of_mem hl) rfl rfl (fun i hne => RtRbb.setStatus_of_ne _ _ hne)
    (fun l' hl' heq => ?_) (hi.list_same fun _ => rfl) s.queues
  have hentry := hi.entry l' hl'
  rw [heq] at hentry
  rw [RtRbb.setStatus_self]
  refine ⟨hentry.buf, hentry.size, by simp, by simp [LiveBlk.putReady], fun hoff => ?_⟩
  have hget := hentry.taken hoff
  rw [hinited] at hget
  cases hget

/-- The first block on the list that has been put is the earliest one that is ready. -/
theorem Inv.find_put (hi : s.Inv) :
    (s.rbb.blkList.find? fun i => (s.rbb.blkSet i).status = .put) =
      (s.live.find? LiveBlk.ready).map LiveBlk.blk := by
  rw [hi.list, List.find?_map, List.find?_filter]
  congr 1
  refine List.find?_congr fun l hl => ?_
  have hentry := hi.entry l hl
  cases hready : l.ready with
  | true => simp [hentry.linked_of_ready hready, hentry.ready.mpr hready]
  | false =>
    have hnot : (s.rbb.blkSet l.blk).status ≠ .put := by simp [hentry.ready, hready]
    simp [hnot]

theorem Inv.get (hi : s.Inv) :
    Inv { s with
      rbb := s.rbb.rtRbbBlkGet.1
      live := marked s.rbb.rtRbbBlkGet.2.toList LiveBlk.got s.live } ∧
      s.rbb.rtRbbBlkGet.2 = (s.live.find? LiveBlk.ready).map LiveBlk.blk := by
  unfold RtRbb.rtRbbBlkGet
  rw [hi.find_put]
  cases hfind : s.live.find? LiveBlk.ready with
  | none =>
    refine ⟨?_, rfl⟩
    have hsame : marked [] LiveBlk.got s.live = s.live := by simp [marked]
    simpa [hsame] using hi
  | some l =>
    refine ⟨?_, rfl⟩
    have hl := List.mem_of_find?_eq_some hfind
    refine hi.change LiveBlk.got (s.rbb.setStatus l.blk .get) (fun _ => rfl) (fun _ => rfl)
      (List.mem_map_of_mem hl) rfl rfl (fun i hne => RtRbb.setStatus_of_ne _ _ hne)
      (fun l' hl' heq => ?_) (hi.list_same fun _ => rfl) s.queues
    have hentry := hi.entry l' hl'
    rw [heq] at hentry
    rw [RtRbb.setStatus_self]
    exact ⟨hentry.buf, hentry.size, by simp, by simp [LiveBlk.got], fun _ => rfl⟩

/-! ## Frees -/

theorem Inv.free (hi : s.Inv) (h : s.rbb.rtRbbBlkFree block = .ok rbb) :
    (freed [block] rbb s).Inv := by
  simp only [RtRbb.rtRbbBlkFree, exec_bind_ok, rtAssert_eq_ok, exec_pure_ok] at h
  obtain ⟨_, -, rfl⟩ := h
  have hkeep : ∀ l ∈ s.live.filter (fun l => l.blk ∉ [block]), l ∈ s.live ∧ l.blk ≠ block := by
    intro l hl
    simpa using List.mem_filter.mp hl
  have hsub : (s.live.filter fun l => l.blk ∉ [block]).Sublist s.live := List.filter_sublist
  refine ⟨hi.bufSize, hi.nodup.sublist (hsub.map _), fun l hl => ?_, fun i hbound hused => ?_, ?_,
    hi.laid.sublist (hsub.map _)⟩
  · obtain ⟨hold, hne⟩ := hkeep l hl
    show Entry (((s.rbb.remove block).setStatus block .unused).blkSet l.blk) l
    rw [RtRbb.setStatus_of_ne _ _ hne]
    exact hi.entry l hold
  · by_cases heq : i = block
    · subst heq
      simp [freed] at hused
    · have hold : (s.rbb.blkSet i).status ≠ .unused := by
        simpa [freed, RtRbb.setStatus_of_ne _ _ heq] using hused
      obtain ⟨l, hl, rfl⟩ := List.mem_map.mp (hi.unused i hbound hold)
      exact List.mem_map_of_mem (List.mem_filter.mpr ⟨hl, by simpa using heq⟩)
  · show s.rbb.blkList.erase block = _
    rw [hi.list, List.Nodup.erase_eq_filter (hi.nodup.sublist (List.filter_sublist.map _)),
      List.filter_map, List.filter_filter]
    simp only [freed, List.filter_filter]
    congr 1
    refine List.filter_congr fun l _ => ?_
    simp [bne, Bool.and_comm, Bool.beq_eq_decide_eq]

theorem freed_cons (rbb₁ rbb₂ : RtRbb) (s : RingBlocks) :
    freed blks rbb₂ (freed [block] rbb₁ s) = freed (block :: blks) rbb₂ s := by
  simp only [freed, List.filter_filter, List.mem_cons, List.not_mem_nil, or_false, not_or]
  congr 1
  · refine List.filter_congr fun l _ => ?_
    simp [Bool.and_comm]
  · refine List.filter_congr fun q _ => ?_
    simp only [← Bool.decide_and, decide_eq_decide]
    exact ⟨fun h i hi => ⟨h.2 i hi, h.1 i hi⟩,
      fun h => ⟨fun i hi => (h i hi).2, fun i hi => (h i hi).1⟩⟩

theorem freed_nil (s : RingBlocks) : freed [] s.rbb s = s := by
  simp [freed]

/-- Blocks are freed one after the other. -/
theorem Inv.freeAll (hi : s.Inv)
    (h : blks.foldlM
      (fun rbb i => if i < rbb.blkMaxNum then rbb.rtRbbBlkFree i else throw .outOfBounds) s.rbb =
        .ok rbb) : (freed blks rbb s).Inv := by
  induction blks generalizing s with
  | nil =>
    simp only [List.foldlM_nil, exec_pure_ok] at h
    rw [← h, freed_nil]
    exact hi
  | cons block blks ih =>
    simp only [List.foldlM_cons, exec_bind_ok] at h
    obtain ⟨rbb₁, hfree, hrest⟩ := h
    split at hfree
    case isTrue =>
      have hi₁ := hi.free hfree
      rw [← freed_cons rbb₁ rbb s]
      exact ih hi₁ hrest
    case isFalse => simp at hfree

/-! ## Queues -/

theorem Inv.take (hi : s.Inv) (hmem : block ∈ s.live.map LiveBlk.blk) (queues : List GotQueue) :
    Inv ⟨(s.rbb.remove block).setStatus block .get, marked [block] LiveBlk.taken s.live,
      queues⟩ := by
  refine hi.change LiveBlk.taken ((s.rbb.remove block).setStatus block .get) (fun _ => rfl)
    (fun _ => rfl) hmem rfl rfl (fun i hne => RtRbb.setStatus_of_ne _ _ hne)
    (fun l hl heq => ?_) ?_ queues
  · have hentry := hi.entry l hl
    rw [heq] at hentry
    rw [RtRbb.setStatus_self]
    exact ⟨hentry.buf, hentry.size, by simp, by simp [LiveBlk.taken], fun _ => rfl⟩
  · show s.rbb.blkList.erase block = _
    rw [hi.list, List.Nodup.erase_eq_filter (hi.nodup.sublist (List.filter_sublist.map _)),
      List.filter_map, List.filter_filter]
    congr 1
    refine List.filter_congr fun l _ => ?_
    by_cases heq : l.blk = block
    · simp [heq, LiveBlk.taken]
    · simp [heq]

theorem marked_taken_cons (live : List LiveBlk) :
    marked blks LiveBlk.taken (marked [block] LiveBlk.taken live) =
      marked (block :: blks) LiveBlk.taken live := by
  rw [marked, marked, marked, List.map_map]
  refine List.map_congr_left fun l _ => ?_
  by_cases heq : l.blk = block
  · by_cases hmem : block ∈ blks <;> simp [heq, hmem, LiveBlk.taken]
  · simp [heq]

theorem Inv.unmarked (hi : s.Inv) (queues : List GotQueue) :
    Inv ⟨s.rbb, marked [] LiveBlk.taken s.live, queues⟩ := by
  have hsame : marked [] LiveBlk.taken s.live = s.live := by simp [marked]
  rw [hsame]
  exact ⟨hi.bufSize, hi.nodup, hi.entry, hi.unused, hi.list, hi.laid⟩

/-- The loop of `rt_rbb_blk_queue_get` takes some of the blocks it meets. -/
theorem Inv.queueGetLoop {queueDataLen : Nat} {nodes : List Nat} {q : RtRbb.QueueLoop}
    (hi : s.Inv) (hrbb : q.rbb = s.rbb) (hnodes : ∀ i ∈ nodes, i ∈ s.live.map LiveBlk.blk)
    (queues : List GotQueue) :
    ∃ more, (RtRbb.queueGetLoop queueDataLen nodes q).taken = q.taken ++ more ∧
      Inv ⟨(RtRbb.queueGetLoop queueDataLen nodes q).rbb, marked more LiveBlk.taken s.live,
        queues⟩ := by
  induction nodes generalizing s q with
  | nil => exact ⟨[], (List.append_nil _).symm, hrbb ▸ hi.unmarked queues⟩
  | cons node nodes ih =>
    have hrest : ∀ i ∈ nodes, i ∈ s.live.map LiveBlk.blk := fun i hm => hnodes i (by simp [hm])
    -- the node is taken, and the loop goes on
    have htake : ∀ q' : RtRbb.QueueLoop, q'.rbb = s.rbb → q'.taken = q.taken →
        ∃ more, (RtRbb.queueGetLoop queueDataLen nodes (q'.take node)).taken = q.taken ++ more ∧
          Inv ⟨(RtRbb.queueGetLoop queueDataLen nodes (q'.take node)).rbb,
            marked more LiveBlk.taken s.live, queues⟩ := by
      intro q' hrbb' htaken'
      have hi₁ := hi.take (hnodes node (by simp)) queues
      have hrbb₁ : (q'.take node).rbb = (s.rbb.remove node).setStatus node .get := by
        rw [← hrbb']
        rfl
      have hblks : (marked [node] LiveBlk.taken s.live).map LiveBlk.blk =
          s.live.map LiveBlk.blk := by
        apply marked_blk
        exact fun _ => rfl
      obtain ⟨more, htaken, hi'⟩ := ih hi₁ hrbb₁ (hblks.symm ▸ hrest)
      refine ⟨node :: more, ?_, ?_⟩
      · rw [htaken]
        show q'.taken ++ [node] ++ more = _
        simp [htaken']
      · rwa [marked_taken_cons] at hi'
    rw [RtRbb.queueGetLoop]
    split
    · split
      · exact htake _ hrbb rfl
      · exact ih hi hrbb hrest
    · dsimp only
      split
      · exact ⟨[], (List.append_nil _).symm, hrbb ▸ hi.unmarked queues⟩
      · exact htake q hrbb rfl

/-! ## Runs -/

theorem Inv.step (hi : s.Inv) (hmeets : Meets call s) (h : step call s = .ok (s', out)) :
    s'.Inv := by
  cases call with
  | alloc blkSize => exact hi.alloc hmeets h
  | put n =>
    simp only [RingBlocks.step] at h
    split at h
    case h_1 l hl =>
      simp only [exec_bind_ok, exec_pure_ok, Prod.mk.injEq] at h
      obtain ⟨rbb, hput, rfl, -⟩ := h
      exact hi.put (List.mem_of_getElem? hl) hput
    case h_2 =>
      simp only [exec_pure_ok, Prod.mk.injEq] at h
      exact h.1 ▸ hi
  | get =>
    simp only [RingBlocks.step, exec_pure_ok, Prod.mk.injEq] at h
    exact h.1 ▸ hi.get.1
  | free n =>
    simp only [RingBlocks.step] at h
    split at h
    case h_1 l _ =>
      simp only [exec_bind_ok, exec_pure_ok, Prod.mk.injEq] at h
      obtain ⟨rbb, hfree, rfl, -⟩ := h
      exact hi.free hfree
    case h_2 =>
      simp only [exec_pure_ok, Prod.mk.injEq] at h
      exact h.1 ▸ hi
  | queueGet queueDataLen =>
    simp only [RingBlocks.step, exec_pure_ok, Prod.mk.injEq] at h
    obtain ⟨rfl, -⟩ := h
    -- the blocks of the list are among those that are in use
    have hnodes : ∀ i ∈ s.rbb.blkList, i ∈ s.live.map LiveBlk.blk := by
      rw [hi.list]
      exact fun i hm => (List.filter_sublist.map _).subset hm
    obtain ⟨more, htaken, hi'⟩ := hi.queueGetLoop (q := ⟨s.rbb, none, 0, ⟨0, 0⟩, []⟩)
      rfl hnodes _
    rw [List.nil_append] at htaken
    rw [← htaken] at hi'
    exact hi'
  | queueFree n =>
    simp only [RingBlocks.step] at h
    split at h
    case h_1 q hq =>
      simp only [exec_bind_ok, exec_pure_ok, Prod.mk.injEq] at h
      obtain ⟨rbb, hfree, rfl, -⟩ := h
      -- by the condition a queue is freed as one run of blocks
      rw [hmeets q hq]
      exact hi.freeAll hfree
    case h_2 =>
      simp only [exec_pure_ok, Prod.mk.injEq] at h
      exact h.1 ▸ hi

theorem Inv.right (hi : s.Inv) (hmeets : Meets call s) : Right call s := by
  intro s' out h
  refine ⟨(hi.step hmeets h).sound, ?_⟩
  rintro rfl
  simp only [RingBlocks.step, exec_pure_ok, Prod.mk.injEq] at h
  rw [← h.2]
  exact hi.get.2

/-- Along the calls of a buffer that has been initialised, the blocks in use are inside the buffer
    and apart, and a get returns the earliest block that has been put.  This takes that no block is
    allocated while a queue is in use, that the first one fits into the buffer, that none of no
    bytes is asked of a full ring, and that a queue that is freed has its blocks next to each other
    in the block set. -/
theorem rt_rbb_blocks (h : s.Initialised) {calls : List RbbCall}
    (hmeets : Along RingBlocks.step Meets calls s) : Along RingBlocks.step Right calls s :=
  along_of (fun _ _ hi hm => hi.right hm) (fun _ _ _ _ hi hm hstep => hi.step hm hstep) h.inv
    hmeets

/-- A buffer of eight bytes, with a set of four blocks. -/
def eightBytes : RingBlocks := ⟨⟨8, fun _ => ⟨.unused, 0, 0⟩, 4, []⟩, [], []⟩

theorem eightBytes_initialised : eightBytes.Initialised := by
  constructor <;> decide

/-- Two blocks are allocated, and the first is put and got. -/
theorem rt_rbb_blocks_eightBytes :
    Along RingBlocks.step Right [.alloc 4, .alloc 4, .put 0, .get] eightBytes := by
  apply rt_rbb_blocks eightBytes_initialised
  rw [along_cons (by rfl), along_cons (by rfl)]
  refine ⟨⟨by decide, by decide, fun hzero => by cases hzero⟩,
    ⟨by decide, by decide, fun hzero => by cases hzero⟩, trivial,
    fun _ _ _ => ⟨trivial, fun _ _ _ => trivial⟩⟩

/-- A queue takes the first of two blocks.  The next allocation gets the memory of that block,
    which is still in use. -/
theorem rt_rbb_queue_overlap :
    eightBytes.Initialised ∧
      ¬ Along RingBlocks.step Right [.alloc 4, .alloc 4, .put 0, .queueGet 8, .alloc 4]
        eightBytes := by
  refine ⟨eightBytes_initialised, ?_⟩
  rw [along_cons (by rfl), along_cons (by rfl), along_cons (by rfl), along_cons (by rfl)]
  rintro ⟨-, -, -, -, hright, -⟩
  obtain ⟨hsound, -⟩ := hright _ _ rfl
  -- the first and the last block in use
  have hdisjoint := List.pairwise_cons.mp hsound.apart
  have hapart := hdisjoint.1 ⟨2, ⟨0, 4⟩, false, true⟩ (by decide)
  exact Set.disjoint_left.mp hapart (show (0 : Nat) ∈ Set.Ico 0 4 by simp)
    (show (0 : Nat) ∈ Set.Ico 0 4 by simp)

/-- The first block may be larger than the buffer. -/
theorem rt_rbb_first_too_large : ¬ Along RingBlocks.step Right [.alloc 9] eightBytes := by
  rintro ⟨hright, -⟩
  obtain ⟨hsound, -⟩ := hright _ _ rfl
  have hinside := hsound.inside ⟨0, ⟨0, 9⟩, false, true⟩ (by decide)
  revert hinside
  decide

/-- A block of no bytes in a full ring makes it look as if it had not wrapped. -/
theorem rt_rbb_empty_block :
    ¬ Along RingBlocks.step Right [.alloc 4, .alloc 4, .free 0, .alloc 4, .alloc 0, .alloc 4]
      eightBytes := by
  rw [along_cons (by rfl), along_cons (by rfl), along_cons (by rfl), along_cons (by rfl),
    along_cons (by rfl)]
  rintro ⟨-, -, -, -, -, hright, -⟩
  obtain ⟨hsound, -⟩ := hright _ _ rfl
  have hapart := (List.pairwise_cons.mp hsound.apart).1 ⟨3, ⟨4, 4⟩, false, true⟩ (by decide)
  exact Set.disjoint_left.mp hapart (show (4 : Nat) ∈ Set.Ico 4 8 by simp)
    (show (4 : Nat) ∈ Set.Ico 4 8 by simp)

/-- The queue has the blocks 1 and 0 of the set, and its free is one of the blocks 1 and 2. -/
theorem rt_rbb_wrong_free :
    ¬ Along RingBlocks.step Right [.alloc 2, .alloc 2, .free 0, .alloc 2, .alloc 2, .put 0,
      .put 1, .queueGet 8, .queueFree 0, .alloc 4, .alloc 4] eightBytes := by
  iterate 10 rw [along_cons (by rfl)]
  rintro ⟨-, -, -, -, -, -, -, -, -, -, hright, -⟩
  obtain ⟨hsound, -⟩ := hright _ _ rfl
  have hapart := (List.pairwise_cons.mp hsound.apart).1 ⟨2, ⟨4, 4⟩, false, true⟩ (by decide)
  exact Set.disjoint_left.mp hapart (show (6 : Nat) ∈ Set.Ico 6 8 by simp)
    (show (6 : Nat) ∈ Set.Ico 4 8 by simp)

end RingBlocks

end PandoraRobot.Drivers
