import PandoraRobot.Memory.HeapOps

/-! # Runs of the heap

A run is any sequence of `rt_malloc`, `rt_realloc` and `rt_free`, where callers hand in
only what they have been granted and not given back.  In every state it reaches the
headers tile the heap, and what callers hold are blocks in use.

`lfree` is the lowest free block until a `rt_realloc` makes a free block below it.
-/

namespace PandoraRobot.Memory

open PandoraRobot.Kernel PandoraRobot.Tiling

/-- A heap, and the number of bytes that was asked for at each address its callers hold. -/
structure Heaps where
  heap : Heap
  live : BitVec 32 → Option (BitVec 32)

inductive HeapOp where
  | malloc (size : BitVec 32)
  | realloc (rmem : Option (BitVec 32)) (newsize : BitVec 32)
  | free (rmem : Option (BitVec 32))
  deriving DecidableEq, Repr

/-! ## The blocks as the headers link them -/

namespace Heap

/-- The blocks from `ptr` on. -/
def walk (h : Heap) : Nat → BitVec 32 → List (BitVec 32)
  | 0, _ => []
  | fuel + 1, ptr => if ptr = h.heapEnd then [] else ptr :: walk h fuel (h.get ptr).next

/-- No free block is hidden from the search of `rt_malloc`, which starts at `lfree`. -/
def NoneHidden (h : Heap) : Prop := ∀ ptr ∈ h.walk h.fuel 0, (h.get ptr).used = 0 → h.lfree ≤ ptr

/-- The bytes of data of the block at the address `addr`. -/
def room (h : Heap) (addr : BitVec 32) : BitVec 32 :=
  h.dataSize (addr - sizeofStructMem - h.heapPtr)

instance (h : Heap) : Decidable h.NoneHidden :=
  List.decidableBAll (fun ptr => (h.get ptr).used = 0 → h.lfree ≤ ptr) (h.walk h.fuel 0)

variable {h : Heap} {bs xs ys : List Block} {ptr : BitVec 32}

theorem Tiles.mem_walk : ∀ {fuel : Nat} {xs ys : List Block} {start ptr : BitVec 32},
    h.Tiles (xs ++ ys) → start.toNat = total xs → ys.length < fuel →
    (ptr ∈ h.walk fuel start ↔ ∃ b, Has (total xs) ys ptr.toNat b) := by
  intro fuel
  induction fuel with
  | zero => intro xs ys start ptr _ _ hfuel; omega
  | succ fuel ih =>
    intro xs ys start ptr ht hstart hfuel
    rw [walk]
    cases ys with
    | nil =>
      have htotal := ht.total_eq
      rw [List.append_nil, ← hstart] at htotal
      rw [if_pos (BitVec.eq_of_toNat_eq htotal)]
      simp
    | cons b ys =>
      have ht' : h.Tiles ((xs ++ [b]) ++ ys) := by simpa using ht
      have hlength : ys.length < fuel := by simpa using hfuel
      rw [if_neg (BitVec.ne_of_lt (ht.lt_heapEnd hstart)), List.mem_cons,
        ih ht' (ht.next hstart) hlength]
      simp only [has_cons, total_append, total_cons, total_nil, Nat.add_zero, exists_or,
        exists_and_left, exists_eq, and_true, ← hstart, BitVec.toNat_inj]

/-- The headers link the blocks that tile the heap. -/
theorem Tiles.walk (ht : h.Tiles bs) :
    ptr ∈ h.walk h.fuel 0 ↔ ∃ b, Has 0 bs ptr.toNat b := by
  have ht' : h.Tiles ([] ++ bs) := ht
  exact ht'.mem_walk rfl ht'.length_lt_fuel

theorem Tiles.noneHidden (ht : h.Tiles bs) (hlow : h.Lowest bs) : h.NoneHidden := by
  intro ptr hptr hused
  obtain ⟨⟨s, f⟩, hhas⟩ := ht.walk.mp hptr
  obtain ⟨p, hheader⟩ := hhas.header ht.tiled
  have hf := hheader.used_eq_zero.mp hused
  simp only at hf
  subst hf
  rw [BitVec.le_def]
  exact hlow _ s hhas

theorem Inv.room_eq {o n : Nat} (hi : h.Inv bs) (hhas : Has 0 bs o ⟨n, true⟩) :
    (h.dataAt o).toNat = h.heapPtr.toNat + o + 12 ∧ (h.room (h.dataAt o)).toNat + 12 = n ∧
      (h.get (h.dataAt o - sizeofStructMem - h.heapPtr)).used = 1 := by
  obtain ⟨xs, ys, rfl, ho⟩ := has_iff_split.mp hhas
  rw [Nat.zero_add] at ho
  subst ho
  obtain ⟨hmem, hmem_eq⟩ := hi.dataAt
  refine ⟨hi.tiles.toNat_dataAt, ?_, ?_⟩
  · rw [Heap.room, hmem, hi.tiles.dataSize hmem_eq]
  · rw [hmem, (hi.tiles.header hmem_eq).used]
    rfl

end Heap

namespace Heaps

/-- What callers hold after `rmem` has been granted for `size` bytes. -/
def grant (rmem : Option (BitVec 32)) (size : BitVec 32) (live : BitVec 32 → Option (BitVec 32)) :
    BitVec 32 → Option (BitVec 32) :=
  match rmem with
  | none => live
  | some addr => Function.update live addr (some size)

/-- What callers hold after `rmem` has been given back. -/
def drop (rmem : Option (BitVec 32)) (live : BitVec 32 → Option (BitVec 32)) :
    BitVec 32 → Option (BitVec 32) :=
  match rmem with
  | none => live
  | some addr => Function.update live addr none

/-- The caller holds `rmem`, or it is `RT_NULL`. -/
def holds (s : Heaps) : Option (BitVec 32) → Bool
  | none => true
  | some addr => (s.live addr).isSome

def legal (s : Heaps) : HeapOp → Bool
  | .malloc _ => true
  | .realloc rmem _ => s.holds rmem
  | .free rmem => s.holds rmem

def exec (s : Heaps) : HeapOp → Exec Heaps
  | .malloc size => do
    let (h, rmem) ← s.heap.rtMalloc size
    pure ⟨h, grant rmem size s.live⟩
  | .realloc rmem newsize => do
    let (h, nmem) ← s.heap.rtRealloc rmem newsize
    match nmem with
    | none => pure ⟨h, if rtAlign newsize rtAlignSize = 0 then drop rmem s.live else s.live⟩
    | some _ => pure ⟨h, grant nmem newsize (drop rmem s.live)⟩
  | .free rmem => do
    let h ← s.heap.rtFree rmem
    pure ⟨h, drop rmem s.live⟩

def Step (s s' : Heaps) : Prop := ∃ op, s.legal op = true ∧ s.exec op = .ok s'

abbrev Runs : Heaps → Heaps → Prop := Relation.ReflTransGen Step

/-- A region that `rt_system_heap_init` accepts. -/
structure Initial (s : Heaps) : Prop where
  init : ∃ beginAddr endAddr h, h.usedMem = 0 ∧
    Heap.rtSystemHeapInit beginAddr endAddr h = some s.heap
  live : ∀ addr, s.live addr = none

structure Inv (s : Heaps) (bs : List Block) : Prop where
  heap : s.heap.Inv bs
  room : 12 ≤ s.heap.memSizeAligned.toNat
  live : ∀ addr size, s.live addr = some size →
    ∃ o n, Has 0 bs o ⟨n, true⟩ ∧ addr = s.heap.dataAt o ∧
      (size.toNat ≤ 0xfffffffc → size.toNat + 12 ≤ n)

variable {s s' s₀ : Heaps} {bs : List Block} {op : HeapOp} {rmem : Option (BitVec 32)}
  {size : BitVec 32}

/-- There is room for a block. -/
def HasRoom (s : Heaps) : Prop := minSizeAligned ≤ s.heap.memSizeAligned

instance (s : Heaps) : Decidable s.HasRoom :=
  inferInstanceAs (Decidable (minSizeAligned ≤ s.heap.memSizeAligned))

theorem Initial.inv (h : Initial s) (hroom : s.HasRoom) : ∃ bs, Inv s bs ∧ s.heap.Lowest bs := by
  obtain ⟨beginAddr, endAddr, h₀, hused, hinit⟩ := h.init
  obtain ⟨hi, hlow⟩ := Heap.rtSystemHeapInit_inv hused hinit
  rw [HasRoom, minSizeAligned_eq, BitVec.le_def] at hroom
  exact ⟨_, ⟨hi, by simpa using hroom, by simp [h.live]⟩, hlow⟩

/-- A block is granted, and what else callers hold stays. -/
theorem Inv.grant {h : Heap} {bs' : List Block} {live : BitVec 32 → Option (BitVec 32)} {o n : Nat}
    (hi : h.Inv bs') (hroom : 12 ≤ h.memSizeAligned.toNat) (hhas : Has 0 bs' o ⟨n, true⟩)
    (hsize : size.toNat ≤ 0xfffffffc → size.toNat + 12 ≤ n)
    (hlive : ∀ addr size, live addr = some size → addr ≠ h.dataAt o →
      ∃ o n, Has 0 bs' o ⟨n, true⟩ ∧ addr = h.dataAt o ∧
        (size.toNat ≤ 0xfffffffc → size.toNat + 12 ≤ n)) :
    Inv ⟨h, Heaps.grant (some (h.dataAt o)) size live⟩ bs' := by
  refine ⟨hi, hroom, fun addr size' haddr => ?_⟩
  by_cases heq : addr = h.dataAt o
  · subst heq
    obtain rfl : size = size' := by simpa [Heaps.grant] using haddr
    exact ⟨o, n, hhas, rfl, hsize⟩
  · exact hlive addr size' (by simpa [Heaps.grant, heq] using haddr) heq

theorem le_rtAlign (hsize : size.toNat ≤ 0xfffffffc) :
    size.toNat ≤ (rtAlign size rtAlignSize).toNat := by
  rw [toNat_rtAlign]
  omega

theorem Inv.malloc (hi : Inv s bs) (size : BitVec 32) :
    ∃ s' bs', s.exec (.malloc size) = .ok s' ∧ Inv s' bs' ∧
      (s.heap.Lowest bs → s'.heap.Lowest bs') := by
  obtain hnone | ⟨h', bs', o, n, hsome, hi', hlow, hsame, hhas, hn, -, hkept⟩ :=
    hi.heap.rtMalloc hi.room size
  · exact ⟨s, bs, exec_bind_ok.mpr ⟨_, hnone, rfl⟩, hi, id⟩
  · have hdata : ∀ o, h'.dataAt o = s.heap.dataAt o := fun o => by
      rw [Heap.dataAt, hsame.heapPtr, Heap.dataAt]
    refine ⟨_, bs', exec_bind_ok.mpr ⟨_, hsome, rfl⟩, ?_, hlow⟩
    rw [← hdata]
    refine Inv.grant hi' (by rw [hsame.memSizeAligned]; exact hi.room) hhas ?_ ?_
    · intro hsize
      have := le_rtAlign hsize
      have := (Heap.mallocSize_spec size).2.2.1
      omega
    · intro addr size' haddr _
      obtain ⟨o', n', hhas', rfl, hsize'⟩ := hi.live addr size' haddr
      exact ⟨o', n', (hkept o' n' hhas').2, (hdata o').symm, hsize'⟩

theorem Inv.free (hi : Inv s bs) (hholds : s.holds rmem = true) :
    ∃ s' bs', s.exec (.free rmem) = .ok s' ∧ Inv s' bs' ∧
      (s.heap.Lowest bs → s'.heap.Lowest bs') := by
  cases rmem with
  | none => exact ⟨s, bs, rfl, hi, id⟩
  | some addr =>
    obtain ⟨size, hsize⟩ := Option.isSome_iff_exists.mp hholds
    obtain ⟨o, n, hhas, rfl, -⟩ := hi.live addr size hsize
    obtain ⟨h', bs', hfree, hi', hlow, hsame, hinUse⟩ := hi.heap.rtFree hhas
    have hdata : ∀ o, h'.dataAt o = s.heap.dataAt o := fun o => by
      rw [Heap.dataAt, hsame.heapPtr, Heap.dataAt]
    refine ⟨_, bs', exec_bind_ok.mpr ⟨h', hfree, rfl⟩,
      ⟨hi', by rw [hsame.memSizeAligned]; exact hi.room, fun addr size' haddr => ?_⟩, hlow⟩
    have hne : addr ≠ s.heap.dataAt o := by
      rintro rfl
      simp [drop] at haddr
    obtain ⟨o', n', hhas', rfl, hsize'⟩ :=
      hi.live addr size' (by simpa [drop, hne] using haddr)
    have ho : o' ≠ o := by
      rintro rfl
      exact hne rfl
    exact ⟨o', n', (hinUse o' n').mpr ⟨hhas', ho⟩, (hdata o').symm, hsize'⟩

/-- A `rt_realloc` that makes a free block below `lfree`. -/
def HidesBlock (s : Heaps) : HeapOp → Prop
  | .realloc (some addr) newsize => s.heap.Hides addr newsize
  | _ => False

/-- `rt_realloc` of `RT_NULL` is `rt_malloc` of the aligned size. -/
theorem Inv.reallocNull (hi : Inv s bs) (newsize : BitVec 32) :
    ∃ s' bs', s.exec (.realloc none newsize) = .ok s' ∧ Inv s' bs' ∧
      (s.heap.Lowest bs → ¬ s.HidesBlock (.realloc none newsize) → s'.heap.Lowest bs') := by
  obtain ⟨k, hk⟩ : ∃ k, k = rtAlign newsize rtAlignSize := ⟨_, rfl⟩
  have hk_mod : k.toNat % 4 = 0 := by
    rw [hk, toNat_rtAlign]
    omega
  have hfails : s.heap.rtRealloc none newsize = .ok (s.heap, none) →
      s.exec (.realloc none newsize) = .ok s := by
    intro hrun
    refine exec_bind_ok.mpr ⟨_, hrun, ?_⟩
    simp [drop, pure, Except.pure]
  by_cases hlarge : s.heap.memSizeAligned < k
  · refine ⟨s, bs, hfails ?_, hi, fun hlow _ => hlow⟩
    simp only [Heap.rtRealloc, ← hk, if_pos hlarge]
    rfl
  by_cases hzero : k = 0
  · refine ⟨s, bs, hfails ?_, hi, fun hlow _ => hlow⟩
    simp only [Heap.rtRealloc, ← hk, if_neg hlarge, if_pos hzero]
    rfl
  have hmalloc : s.heap.rtRealloc none newsize = s.heap.rtMalloc k := by
    simp only [Heap.rtRealloc, ← hk, if_neg hlarge, if_neg hzero]
  obtain hnone | ⟨h', bs', o, n, hsome, hi', hlow, hsame, hhas, hn, -, hkept⟩ :=
    hi.heap.rtMalloc hi.room k
  · exact ⟨s, bs, hfails (hmalloc.trans hnone), hi, fun hlow _ => hlow⟩
  · have hdata : ∀ o, h'.dataAt o = s.heap.dataAt o := fun o => by
      rw [Heap.dataAt, hsame.heapPtr, Heap.dataAt]
    refine ⟨_, bs', exec_bind_ok.mpr ⟨_, hmalloc.trans hsome, rfl⟩, ?_, fun hl _ => hlow hl⟩
    rw [← hdata]
    refine Inv.grant hi' (by rw [hsame.memSizeAligned]; exact hi.room) hhas ?_ ?_
    · intro hsize
      have hle := le_rtAlign hsize
      have hle' := (Heap.mallocSize_spec k).2.2.1
      rw [rtAlign_of_mod hk_mod] at hle'
      rw [← hk] at hle
      omega
    · intro addr size' haddr _
      obtain ⟨o', n', hhas', rfl, hsize'⟩ := hi.live addr size' haddr
      exact ⟨o', n', (hkept o' n' hhas').2, (hdata o').symm, hsize'⟩

theorem Inv.realloc (hi : Inv s bs) (hholds : s.holds rmem = true) (newsize : BitVec 32) :
    ∃ s' bs', s.exec (.realloc rmem newsize) = .ok s' ∧ Inv s' bs' ∧
      (s.heap.Lowest bs → ¬ s.HidesBlock (.realloc rmem newsize) → s'.heap.Lowest bs') := by
  cases rmem with
  | none => exact hi.reallocNull newsize
  | some addr =>
    obtain ⟨size, hsize⟩ := Option.isSome_iff_exists.mp hholds
    obtain ⟨o, n, hhas, rfl, -⟩ := hi.live addr size hsize
    obtain ⟨h', bs', r, hrun, hi', hlow, hsame, hcases⟩ := hi.heap.rtRealloc hi.room hhas newsize
    have hdata : ∀ o, h'.dataAt o = s.heap.dataAt o := fun o => by
      rw [Heap.dataAt, hsame.heapPtr, Heap.dataAt]
    have hroom : 12 ≤ h'.memSizeAligned.toNat := by
      rw [hsame.memSizeAligned]
      exact hi.room
    -- the other blocks that callers hold
    have hothers : ∀ addr size', drop (some (s.heap.dataAt o)) s.live addr = some size' →
        ∃ o' n', o' ≠ o ∧ Has 0 bs o' ⟨n', true⟩ ∧ addr = h'.dataAt o' ∧
          (size'.toNat ≤ 0xfffffffc → size'.toNat + 12 ≤ n') := by
      intro addr size' haddr
      have hne : addr ≠ s.heap.dataAt o := by
        rintro rfl
        simp [drop] at haddr
      obtain ⟨o', n', hhas', rfl, hsize'⟩ :=
        hi.live addr size' (by simpa [drop, hne] using haddr)
      refine ⟨o', n', ?_, hhas', (hdata o').symm, hsize'⟩
      rintro rfl
      exact hne rfl
    obtain ⟨rfl, hzero, rfl⟩ | ⟨rfl, hzero, hinUse⟩ | ⟨o₁, n₁, rfl, hhas₁, hn₁, hkept⟩ := hcases
    · refine ⟨_, bs', exec_bind_ok.mpr ⟨_, hrun, rfl⟩, ⟨hi', hroom, fun addr size' haddr => ?_⟩, hlow⟩
      rw [if_neg hzero] at haddr
      obtain ⟨o', n', hhas', rfl, hsize'⟩ := hi.live addr size' haddr
      exact ⟨o', n', hhas', (hdata o').symm, hsize'⟩
    · refine ⟨_, bs', exec_bind_ok.mpr ⟨_, hrun, rfl⟩, ⟨hi', hroom, fun addr size' haddr => ?_⟩, hlow⟩
      rw [if_pos hzero] at haddr
      obtain ⟨o', n', hne, hhas', rfl, hsize'⟩ := hothers addr size' haddr
      exact ⟨o', n', (hinUse o' n').mpr ⟨hhas', hne⟩, rfl, hsize'⟩
    · refine ⟨_, bs', exec_bind_ok.mpr ⟨_, hrun, rfl⟩, ?_, hlow⟩
      rw [← hdata o₁]
      refine Inv.grant hi' hroom hhas₁ (fun hle => ?_) fun addr size' haddr _ => ?_
      · have := le_rtAlign hle
        omega
      · obtain ⟨o', n', hne, hhas', rfl, hsize'⟩ := hothers addr size' haddr
        exact ⟨o', n', (hkept o' n' hhas' hne).2, rfl, hsize'⟩

theorem Inv.exec (hi : Inv s bs) (hlegal : s.legal op = true) :
    ∃ s' bs', s.exec op = .ok s' ∧ Inv s' bs' ∧
      (s.heap.Lowest bs → ¬ s.HidesBlock op → s'.heap.Lowest bs') := by
  cases op with
  | malloc size =>
    obtain ⟨s', bs', hexec, hi', hlow⟩ := hi.malloc size
    exact ⟨s', bs', hexec, hi', fun hl _ => hlow hl⟩
  | realloc rmem newsize => exact hi.realloc hlegal newsize
  | free rmem =>
    obtain ⟨s', bs', hexec, hi', hlow⟩ := hi.free hlegal
    exact ⟨s', bs', hexec, hi', fun hl _ => hlow hl⟩

theorem Runs.inv (hr : Runs s₀ s) (hi : Initial s₀) (hroom : s₀.HasRoom) : ∃ bs, Inv s bs := by
  induction hr with
  | refl =>
    obtain ⟨bs, hbs, -⟩ := hi.inv hroom
    exact ⟨bs, hbs⟩
  | tail _ hstep ih =>
    obtain ⟨bs, hbs⟩ := ih
    obtain ⟨op, hlegal, hexec⟩ := hstep
    obtain ⟨s', bs', hexec', hi', -⟩ := hbs.exec hlegal
    exact ⟨bs', Except.ok.inj (hexec'.symm.trans hexec) ▸ hi'⟩

/-! ## A heap without room -/

/-- Where there is no room for a block, the search finds none. -/
theorem firstFit_small {h : Heap} (hi : h.Inv [⟨h.memSizeAligned.toNat + 12, false⟩])
    (hsmall : h.memSizeAligned.toNat < size.toNat) : ∀ {fuel : Nat} {ptr mem : BitVec 32},
    ptr = 0 ∨ ptr = h.heapEnd → h.firstFit size fuel ptr ≠ .ok (some mem) := by
  have ht : h.Tiles ([] ++ ⟨h.memSizeAligned.toNat + 12, false⟩ :: []) := hi.tiles
  have hzero : (0 : BitVec 32).toNat = total [] := rfl
  have hdata := ht.dataSize hzero
  have hnext := ht.next hzero
  have htotal := ht.total_eq
  simp only [List.nil_append, total_cons, total_nil, Nat.add_zero] at hdata hnext htotal
  intro fuel
  induction fuel with
  | zero => intro ptr mem _ hfound; simp [Heap.firstFit] at hfound
  | succ fuel ih =>
    intro ptr mem hptr hfound
    rw [Heap.firstFit] at hfound
    split at hfound
    case isFalse => simp at hfound
    case isTrue =>
      split at hfound
      case isTrue hfits =>
        obtain ⟨hused, hle⟩ := hfits
        obtain rfl | rfl := hptr
        · rw [BitVec.le_def] at hle
          omega
        · rw [Heap.get, hi.tiles.last.used] at hused
          simp at hused
      case isFalse =>
        refine ih (.inr ?_) hfound
        obtain rfl | rfl := hptr
        · apply BitVec.eq_of_toNat_eq
          rw [hnext, htotal]
        · rw [Heap.get, hi.tiles.last.next]

theorem rtMalloc_small {h h' : Heap} {r : Option (BitVec 32)}
    (hi : h.Inv [⟨h.memSizeAligned.toNat + 12, false⟩]) (hlfree : h.lfree = 0)
    (hsmall : h.memSizeAligned.toNat < 12) (hrun : h.rtMalloc size = .ok (h', r)) :
    h' = h ∧ r = none := by
  rw [Heap.rtMalloc] at hrun
  split at hrun
  case isTrue =>
    simp only [exec_pure_ok, Prod.mk.injEq] at hrun
    exact ⟨hrun.1.symm, hrun.2.symm⟩
  case isFalse =>
    split at hrun
    case isTrue =>
      simp only [exec_pure_ok, Prod.mk.injEq] at hrun
      exact ⟨hrun.1.symm, hrun.2.symm⟩
    case isFalse =>
      simp only [exec_bind_ok] at hrun
      obtain ⟨mem, hfound, hrun⟩ := hrun
      cases mem with
      | none =>
        simp only [exec_pure_ok, Prod.mk.injEq] at hrun
        exact ⟨hrun.1.symm, hrun.2.symm⟩
      | some mem =>
        have hmin := (Heap.mallocSize_spec size).2.1
        exact absurd hfound (firstFit_small hi (by omega) (.inl hlfree))

/-- Nothing ever happens to a heap without room for a block. -/
theorem Runs.small (hr : Runs s₀ s) (hi : Initial s₀) (hsmall : ¬ s₀.HasRoom) :
    s₀.heap.Inv [⟨s₀.heap.memSizeAligned.toNat + 12, false⟩] ∧
      s₀.heap.Lowest [⟨s₀.heap.memSizeAligned.toNat + 12, false⟩] ∧
      (∀ size h r, s₀.heap.rtMalloc size = .ok (h, r) → h = s₀.heap ∧ r = none) ∧
      s.heap = s₀.heap ∧ s.live = s₀.live := by
  obtain ⟨beginAddr, endAddr, h₀, hused, hinit⟩ := hi.init
  obtain ⟨hinv, hlow⟩ := Heap.rtSystemHeapInit_inv hused hinit
  have hlfree : s₀.heap.lfree = 0 := by
    have hle := hlow 0 (s₀.heap.memSizeAligned.toNat + 12) (by simp)
    exact BitVec.eq_of_toNat_eq (Nat.le_zero.mp hle)
  rw [HasRoom, minSizeAligned_eq, BitVec.not_le, BitVec.lt_def] at hsmall
  have hmalloc : ∀ size h r, s₀.heap.rtMalloc size = .ok (h, r) → h = s₀.heap ∧ r = none :=
    fun _ _ _ hrun => rtMalloc_small hinv hlfree hsmall hrun
  refine ⟨hinv, hlow, hmalloc, ?_⟩
  induction hr with
  | refl => exact ⟨rfl, rfl⟩
  | tail _ hstep ih =>
    obtain ⟨op, hlegal, hexec⟩ := hstep
    obtain ⟨hheap, hlive⟩ := ih
    -- nobody holds anything
    have hnull : ∀ (rmem : Option (BitVec 32)) (s : Heaps), s.live = s₀.live →
        s.holds rmem = true → rmem = none := by
      intro rmem s hlive hholds
      cases rmem with
      | none => rfl
      | some addr => simp [holds, hlive, hi.live] at hholds
    cases op with
    | malloc size =>
      simp only [Heaps.exec, hheap, exec_bind_ok, exec_pure_ok] at hexec
      obtain ⟨⟨h', r⟩, hrun, rfl⟩ := hexec
      obtain ⟨rfl, rfl⟩ := hmalloc _ _ _ hrun
      exact ⟨rfl, hlive⟩
    | free rmem =>
      obtain rfl := hnull rmem _ hlive hlegal
      simp only [Heaps.exec, Heap.rtFree, exec_bind_ok, exec_pure_ok] at hexec
      obtain ⟨h', rfl, rfl⟩ := hexec
      exact ⟨hheap, hlive⟩
    | realloc rmem newsize =>
      obtain rfl := hnull rmem _ hlive hlegal
      simp only [Heaps.exec, hheap, exec_bind_ok] at hexec
      obtain ⟨⟨h', r⟩, hrun, hexec⟩ := hexec
      have hsame : h' = s₀.heap ∧ r = none := by
        simp only [Heap.rtRealloc, Heap.rtFree] at hrun
        split at hrun
        case isTrue =>
          simp only [exec_pure_ok, Prod.mk.injEq] at hrun
          exact ⟨hrun.1.symm, hrun.2.symm⟩
        case isFalse =>
          split at hrun
          case isTrue =>
            simp only [exec_bind_ok, exec_pure_ok, Prod.mk.injEq] at hrun
            obtain ⟨_, rfl, rfl, rfl⟩ := hrun
            exact ⟨rfl, rfl⟩
          case isFalse => exact hmalloc _ _ _ hrun
      obtain ⟨rfl, rfl⟩ := hsame
      simp only [drop, ite_self, exec_pure_ok] at hexec
      subst hexec
      exact ⟨rfl, hlive⟩

/-! ## What callers hold -/

/-- What a caller may rely on who holds `addr`, having asked for `size` bytes. -/
structure Granted (s : Heaps) (addr size : BitVec 32) : Prop where
  aligned : addr.toNat % 4 = 0
  inside : s.heap.heapPtr.toNat + 12 ≤ addr.toNat ∧
    addr.toNat + (s.heap.room addr).toNat ≤ s.heap.heapPtr.toNat + s.heap.heapEnd.toNat
  inUse : (s.heap.get (addr - sizeofStructMem - s.heap.heapPtr)).used = 1
  /-- Sizes above that of the heap are rounded up to something else. -/
  enough : size ≤ s.heap.memSizeAligned → size ≤ s.heap.room addr
  /-- Neither the bytes nor the header of another block that is held are among the bytes. -/
  disjoint : ∀ addr' size', s.live addr' = some size' → addr' ≠ addr →
    addr.toNat + (s.heap.room addr).toNat + 12 ≤ addr'.toNat ∨
      addr'.toNat + (s.heap.room addr').toNat + 12 ≤ addr.toNat

theorem Inv.granted {addr : BitVec 32} (hi : Inv s bs) (hlive : s.live addr = some size) :
    s.Granted addr size := by
  obtain ⟨o, n, hhas, rfl, hsize⟩ := hi.live addr size hlive
  obtain ⟨hdata, hroom, hused⟩ := hi.heap.room_eq hhas
  have htiles := hi.heap.tiles
  have hbounds := hhas.bounds
  have htotal := htiles.total_eq
  have hend := htiles.end_eq
  have hspace := htiles.room
  have haligned := htiles.aligned
  obtain ⟨xs, ys, hbs, ho⟩ := has_iff_split.mp hhas
  have hmod : total xs % 4 = 0 := by
    rw [hbs] at htiles
    exact htiles.total_mod
  simp only at hbounds
  refine ⟨by omega, by omega, hused, fun hle => ?_, fun addr' size' hlive' hne => ?_⟩
  · rw [BitVec.le_def] at hle ⊢
    have := hsize (by omega)
    omega
  · obtain ⟨o', n', hhas', rfl, -⟩ := hi.live addr' size' hlive'
    obtain ⟨hdata', hroom', -⟩ := hi.heap.room_eq hhas'
    obtain ⟨rfl, -⟩ | hlt | hlt := hhas.disjoint hhas'
    · exact absurd rfl hne
    · left
      simp only at hlt
      omega
    · right
      simp only at hlt
      omega

/-! ## Runs, call by call -/

/-- A new heap, and nothing that callers hold. -/
def start (beginAddr endAddr : BitVec 32) : Exec Heaps :=
  match Heap.rtSystemHeapInit beginAddr endAddr ⟨fun _ => ⟨0, 0, 0, 0⟩, 0, 0, 0, 0, 0, 0⟩ with
  | none => throw .assertion
  | some heap => pure ⟨heap, fun _ => none⟩

theorem start_initial {beginAddr endAddr : BitVec 32} (h : start beginAddr endAddr = .ok s) :
    Initial s := by
  rw [start] at h
  split at h
  case h_1 => simp at h
  case h_2 heap hinit =>
    rw [exec_pure_ok] at h
    subst h
    exact ⟨⟨beginAddr, endAddr, _, rfl, hinit⟩, fun _ => rfl⟩

def play (s : Heaps) (op : HeapOp) : Exec Heaps := do
  rtAssert (s.legal op = true)
  s.exec op

theorem play_step (h : s.play op = .ok s') : Step s s' := by
  simp only [play, exec_bind_ok, rtAssert_eq_ok] at h
  obtain ⟨_, hlegal, hexec⟩ := h
  exact ⟨op, hlegal, hexec⟩

/-- In every state a run reaches, the headers are one chain of blocks from the start of the heap
    to its end, no two neighbours of which are free, and `used_mem` is what the blocks in use
    take up.  What callers hold are blocks in use, which do not overlap and have the bytes that
    were asked for.  Every call that may be made returns. -/
theorem heap_tiled (hi : Initial s₀) (hroom : s₀.HasRoom) (hr : Runs s₀ s) :
    (∃ bs, s.heap.Tiles bs ∧ Coalesced bs ∧ s.heap.usedMem.toNat = usedTotal bs) ∧
      (∀ addr size, s.live addr = some size → s.Granted addr size) ∧
      ∀ op, s.legal op = true → ∃ s', s.exec op = .ok s' := by
  obtain ⟨bs, hbs⟩ := hr.inv hi hroom
  refine ⟨⟨bs, hbs.heap.tiles, hbs.heap.coalesced, hbs.heap.usedMem⟩, ?_, ?_⟩
  · intro addr size hlive
    exact hbs.granted hlive
  · intro op hlegal
    obtain ⟨s', -, hexec, -⟩ := hbs.exec hlegal
    exact ⟨s', hexec⟩

/-- A block is split in place, and another one moves into what was left of it. -/
theorem heap_tiled_after_realloc :
    ∃ s₀ s : Heaps, Initial s₀ ∧ s₀.HasRoom ∧ Runs s₀ s ∧ s.live 0x1030 = some 60 ∧
      s.Granted 0x1030 60 ∧
      ∃ bs, s.heap.Tiles bs ∧ Coalesced bs ∧ s.heap.usedMem.toNat = usedTotal bs := by
  let run : Exec (Heaps × Heaps) := do
    let s₀ ← start 0x1003 0x1203
    let s ← [HeapOp.malloc 100, .malloc 5, .malloc 40, .free (some 0x1080),
      .realloc (some 0x1010) 20, .realloc (some 0x1098) 60].foldlM play s₀
    pure (s₀, s)
  obtain ⟨⟨s₀, s⟩, hrun, hdata⟩ := exec_exists_ok (show
    run.map (fun x => decide (x.1.HasRoom ∧ x.2.live 0x1030 = some 60)) = .ok true
      by decide +kernel)
  simp only [run, exec_bind_ok, exec_pure_ok, Prod.mk.injEq] at hrun
  obtain ⟨s₀, hstart, s, hplay, rfl, rfl⟩ := hrun
  obtain ⟨hroom, hlive⟩ := of_decide_eq_true hdata
  have hinitial := start_initial hstart
  have hruns : Runs s₀ s := by
    apply foldlM_runs _ hplay
    intro s op s' h
    exact play_step h
  obtain ⟨htiles, hgranted, -⟩ := heap_tiled hinitial hroom hruns
  exact ⟨s₀, s, hinitial, hroom, hruns, hlive, hgranted _ _ hlive, htiles⟩

/-! ## `lfree` -/

/-- A block is split in place below `lfree`: the rest of it is free, and hidden. -/
theorem hidden_after_realloc :
    ∃ s₀ s : Heaps, Initial s₀ ∧ Runs s₀ s ∧ ¬ s.heap.NoneHidden := by
  let run : Exec (Heaps × Heaps) := do
    let s₀ ← start 0x1003 0x1203
    let s ← [HeapOp.malloc 100, .malloc 12, .realloc (some 0x1010) 12].foldlM play s₀
    pure (s₀, s)
  obtain ⟨⟨s₀, s⟩, hrun, hdata⟩ := exec_exists_ok (show
    run.map (fun x => decide (¬ x.2.heap.NoneHidden)) = .ok true by decide +kernel)
  simp only [run, exec_bind_ok, exec_pure_ok, Prod.mk.injEq] at hrun
  obtain ⟨s₀, hstart, s, hplay, rfl, rfl⟩ := hrun
  have hhidden := of_decide_eq_true hdata
  refine ⟨s₀, s, start_initial hstart, foldlM_runs ?_ hplay, hhidden⟩
  intro s op s' h
  exact play_step h

/-- A step that is not a `rt_realloc` that makes a free block below `lfree`. -/
def Open (s s' : Heaps) : Prop := ∃ op, s.legal op = true ∧ ¬ s.HidesBlock op ∧ s.exec op = .ok s'

/-- Where no `rt_realloc` makes a free block below `lfree`, save one that takes in the block of
    `lfree`, no free block is hidden in any state. -/
theorem none_hidden (hi : Initial s₀) (hr : Relation.ReflTransGen Open s₀ s) :
    s.heap.NoneHidden := by
  by_cases hroom : s₀.HasRoom
  · have hinv : ∃ bs, Inv s bs ∧ s.heap.Lowest bs := by
      induction hr with
      | refl => exact hi.inv hroom
      | tail _ hstep ih =>
        obtain ⟨bs, hbs, hlow⟩ := ih
        obtain ⟨op, hlegal, hnot, hexec⟩ := hstep
        obtain ⟨s', bs', hexec', hi', hlow'⟩ := hbs.exec hlegal
        obtain rfl := Except.ok.inj (hexec'.symm.trans hexec)
        exact ⟨bs', hi', hlow' hlow hnot⟩
    obtain ⟨bs, hbs, hlow⟩ := hinv
    exact hbs.heap.tiles.noneHidden hlow
  · -- nothing ever happens to a heap without room
    have hruns : Runs s₀ s := by
      refine hr.lift id ?_
      rintro s s' ⟨op, hlegal, -, hexec⟩
      exact ⟨op, hlegal, hexec⟩
    obtain ⟨hbs, hlow, -, hsame, -⟩ := hruns.small hi hroom
    rw [hsame]
    exact hbs.tiles.noneHidden hlow

instance (h : Heap) (addr newsize : BitVec 32) : Decidable (h.Hides addr newsize) := by
  unfold Heap.Hides Heap.SplitsInPlace
  infer_instance

instance (s : Heaps) : (op : HeapOp) → Decidable (s.HidesBlock op)
  | .malloc _ => isFalse id
  | .free _ => isFalse id
  | .realloc none _ => isFalse id
  | .realloc (some addr) newsize => inferInstanceAs (Decidable (s.heap.Hides addr newsize))

def playOpen (s : Heaps) (op : HeapOp) : Exec Heaps := do
  rtAssert (s.legal op = true ∧ ¬ s.HidesBlock op)
  s.exec op

theorem playOpen_step (h : s.playOpen op = .ok s') : Open s s' := by
  simp only [playOpen, exec_bind_ok, rtAssert_eq_ok] at h
  obtain ⟨_, ⟨hlegal, hnot⟩, hexec⟩ := h
  exact ⟨op, hlegal, hnot, hexec⟩

/-- A block is split in place right below `lfree`. -/
theorem none_hidden_after_realloc :
    ∃ s₀ s : Heaps, Initial s₀ ∧ Relation.ReflTransGen Open s₀ s ∧ s.heap.lfree = 32 ∧
      s.heap.NoneHidden := by
  let run : Exec (Heaps × Heaps) := do
    let s₀ ← start 0x1003 0x1203
    let s ← [HeapOp.malloc 100, .malloc 5, .malloc 40, .free (some 0x1080),
      .realloc (some 0x1010) 20].foldlM playOpen s₀
    pure (s₀, s)
  obtain ⟨⟨s₀, s⟩, hrun, hdata⟩ := exec_exists_ok (show
    run.map (fun x => decide (x.2.heap.lfree = 32)) = .ok true by decide +kernel)
  simp only [run, exec_bind_ok, exec_pure_ok, Prod.mk.injEq] at hrun
  obtain ⟨s₀, hstart, s, hplay, rfl, rfl⟩ := hrun
  have hlfree := of_decide_eq_true hdata
  have hinitial := start_initial hstart
  have hruns : Relation.ReflTransGen Open s₀ s := by
    apply foldlM_runs _ hplay
    intro s op s' h
    exact playOpen_step h
  exact ⟨s₀, s, hinitial, hruns, hlfree, none_hidden hinitial hruns⟩

end Heaps

end PandoraRobot.Memory
