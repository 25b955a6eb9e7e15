import Mathlib.Data.BitVec
import PandoraRobot.Lib.RingList

/-! # Kernel services

What every kernel module rests on: the configuration constants, how a call can
get stuck, error numbers, object types, the `rt_list` operations and `__rt_ffs`.

A kernel function that returns is `.ok`.  A failed `RT_ASSERT` prints and spins
for ever, so it is a `Stuck` outcome; so are the memory errors that C leaves
undefined, and the bound the model puts on a loop that follows pointers.
-/

namespace PandoraRobot.Kernel

open PandoraRobot.RingList

/-! ## Configuration -/

def rtThreadPriorityMax : Nat := 32
def rtTickPerSecond : Nat := 1000

/-- `rt_tick_t`. -/
abbrev Tick := BitVec 32

/-- `RT_TICK_MAX / 2`. -/
def rtTickMaxHalf : Nat := 0xffffffff / 2

/-! ## Outcomes -/

inductive Stuck where
  /-- `RT_ASSERT` failed: `rt_assert_handler` does not return. -/
  | assertion
  /-- A list head, or `RT_NULL`, was read as an object. -/
  | wildPointer
  /-- An index outside `rt_thread_priority_table`. -/
  | outOfBounds
  /-- An object was read after its memory was freed. -/
  | useAfterFree
  /-- The model's bound on a pointer loop was used up. -/
  | outOfFuel
  deriving DecidableEq, Repr

abbrev Exec (α : Type) := Except Stuck α

instance {α : Type} [DecidableEq α] : DecidableEq (Exec α) := fun
  | .ok a, .ok b => decidable_of_iff (a = b) (by simp)
  | .error a, .error b => decidable_of_iff (a = b) (by simp)
  | .ok _, .error _ => .isFalse (by simp)
  | .error _, .ok _ => .isFalse (by simp)

def rtAssert (p : Prop) [Decidable p] : Exec Unit :=
  if p then .ok () else .error .assertion

@[simp] theorem rtAssert_eq_ok {p : Prop} [Decidable p] {u : Unit} :
    rtAssert p = .ok u ↔ p := by
  unfold rtAssert
  split <;> simp [*]

@[simp] theorem exec_bind_ok {α β : Type} {x : Exec α} {f : α → Exec β} {b : β} :
    (x >>= f) = .ok b ↔ ∃ a, x = .ok a ∧ f a = .ok b := by
  cases x <;> simp [bind, Except.bind]

theorem exec_bind_error {α β : Type} {x : Exec α} {f : α → Exec β} {e : Stuck} :
    (x >>= f) = .error e ↔ x = .error e ∨ ∃ a, x = .ok a ∧ f a = .error e := by
  cases x <;> simp [bind, Except.bind]

theorem rtAssert_eq_error {p : Prop} [Decidable p] {e : Stuck} :
    rtAssert p = .error e ↔ ¬ p ∧ e = .assertion := by
  unfold rtAssert
  split <;> simp [*, eq_comm]

@[simp] theorem exec_map_ok {α β : Type} {x : Exec α} {f : α → β} {b : β} :
    (f <$> x) = .ok b ↔ ∃ a, x = .ok a ∧ f a = b := by
  cases x <;> simp [Functor.map, Except.map]

@[simp] theorem exec_pure_ok {α : Type} {a b : α} : (pure a : Exec α) = .ok b ↔ a = b := by
  simp [pure, Except.pure]

@[simp] theorem exec_throw_ok {α : Type} {e : Stuck} {b : α} :
    (throw e : Exec α) = .ok b ↔ False := by
  simp [throw, throwThe, MonadExceptOf.throw]

theorem exec_exists_ok {α β : Type} {x : Exec α} {f : α → β} {b : β}
    (h : x.map f = .ok b) : ∃ a, x = .ok a ∧ f a = b := by
  cases x with
  | ok a => exact ⟨a, rfl, by simpa [Except.map] using h⟩
  | error e => simp [Except.map] at h

/-- Steps that are played one after the other make a run. -/
theorem foldlM_runs {S E : Type} {step : S → S → Prop} {play : S → E → Exec S}
    (hplay : ∀ s e s', play s e = .ok s' → step s s') {events : List E} {s s' : S}
    (h : events.foldlM play s = .ok s') : Relation.ReflTransGen step s s' := by
  induction events generalizing s with
  | nil =>
    simp only [List.foldlM_nil, exec_pure_ok] at h
    exact h ▸ .refl
  | cons event events ih =>
    simp only [List.foldlM_cons, exec_bind_ok] at h
    obtain ⟨s₁, hstep, hrest⟩ := h
    exact .head (hplay s event s₁ hstep) (ih hrest)

/-- The error numbers the kernel returns and stores in `thread->error`. -/
inductive Err where
  | eok
  | error
  | etimeout
  | efull
  | eintr
  deriving DecidableEq, Repr

/-- The type byte of a kernel object: the class and the static bit.  It is null
    while the object is in no object container. -/
inductive ObjectType where
  | null
  | static
  | allocated
  deriving DecidableEq, Repr

/-- `rt_object_is_systemobject`. -/
def rtObjectIsSystemobject (type : ObjectType) : Bool := type = .static

/-! ## `rt_list` -/

section

variable {N : Type} [DecidableEq N]

abbrev rtListInit (n : N) (s : Links N) : Links N := s.initNode n
abbrev rtListInsertAfter (l n : N) (s : Links N) : Links N := s.insertAfter l n
abbrev rtListInsertBefore (l n : N) (s : Links N) : Links N := s.insertBefore l n
abbrev rtListRemove (n : N) (s : Links N) : Links N := s.remove n
abbrev rtListIsempty (l : N) (s : Links N) : Bool := s.next l = l

end

/-! ## `__rt_ffs` -/

/-- `__lowest_bit_bitmap`. -/
def lowestBitBitmap : List Nat :=
  [0, 0, 1, 0, 2, 0, 1, 0, 3, 0, 1, 0, 2, 0, 1, 0,
   4, 0, 1, 0, 2, 0, 1, 0, 3, 0, 1, 0, 2, 0, 1, 0,
   5, 0, 1, 0, 2, 0, 1, 0, 3, 0, 1, 0, 2, 0, 1, 0,
   4, 0, 1, 0, 2, 0, 1, 0, 3, 0, 1, 0, 2, 0, 1, 0,
   6, 0, 1, 0, 2, 0, 1, 0, 3, 0, 1, 0, 2, 0, 1, 0,
   4, 0, 1, 0, 2, 0, 1, 0, 3, 0, 1, 0, 2, 0, 1, 0,
   5, 0, 1, 0, 2, 0, 1, 0, 3, 0, 1, 0, 2, 0, 1, 0,
   4, 0, 1, 0, 2, 0, 1, 0, 3, 0, 1, 0, 2, 0, 1, 0,
   7, 0, 1, 0, 2, 0, 1, 0, 3, 0, 1, 0, 2, 0, 1, 0,
   4, 0, 1, 0, 2, 0, 1, 0, 3, 0, 1, 0, 2, 0, 1, 0,
   5, 0, 1, 0, 2, 0, 1, 0, 3, 0, 1, 0, 2, 0, 1, 0,
   4, 0, 1, 0, 2, 0, 1, 0, 3, 0, 1, 0, 2, 0, 1, 0,
   6, 0, 1, 0, 2, 0, 1, 0, 3, 0, 1, 0, 2, 0, 1, 0,
   4, 0, 1, 0, 2, 0, 1, 0, 3, 0, 1, 0, 2, 0, 1, 0,
   5, 0, 1, 0, 2, 0, 1, 0, 3, 0, 1, 0, 2, 0, 1, 0,
   4, 0, 1, 0, 2, 0, 1, 0, 3, 0, 1, 0, 2, 0, 1, 0]

/-- `__rt_ffs`: the index, from one, of the lowest set bit. -/
def rtFfs (value : BitVec 32) : Nat :=
  if value = 0 then 0
  else if value &&& 0xff ≠ 0 then
    lowestBitBitmap.getD (value &&& 0xff).toNat 0 + 1
  else if value &&& 0xff00 ≠ 0 then
    lowestBitBitmap.getD ((value &&& 0xff00) >>> 8).toNat 0 + 9
  else if value &&& 0xff0000 ≠ 0 then
    lowestBitBitmap.getD ((value &&& 0xff0000) >>> 16).toNat 0 + 17
  else
    lowestBitBitmap.getD ((value &&& 0xff000000) >>> 24).toNat 0 + 25

/-- `p` is the lowest set bit of `value`. -/
def IsLowestBit {w : Nat} (value : BitVec w) (p : Nat) : Prop :=
  value.getLsbD p = true ∧ ∀ q < p, value.getLsbD q = false

theorem lowestBitBitmap_spec : ∀ n < 256, n ≠ 0 →
    lowestBitBitmap.getD n 0 < 8 ∧ n.testBit (lowestBitBitmap.getD n 0) = true ∧
      ∀ q < lowestBitBitmap.getD n 0, n.testBit q = false := by
  intro n hn hne
  have hall : ∀ p ∈ lowestBitBitmap.zipIdx, p.2 ≠ 0 →
      p.1 < 8 ∧ p.2.testBit p.1 = true ∧ ∀ q < p.1, p.2.testBit q = false := by decide +kernel
  have hlength : lowestBitBitmap.length = 256 := by decide +kernel
  have hmem : (lowestBitBitmap.getD n 0, n) ∈ lowestBitBitmap.zipIdx := by
    rw [List.mk_mem_zipIdx_iff_getElem?, List.getD_eq_getElem?_getD,
      List.getElem?_eq_getElem (by omega)]
    rfl
  exact hall _ hmem hne

/-- `mask` selects the byte that starts at bit `k`. -/
def IsByteMask (mask : BitVec 32) (k : Nat) : Prop :=
  ∀ j < 32, mask.getLsbD j = decide (k ≤ j ∧ j < k + 8)

theorem byte_clear {value mask : BitVec 32} {k : Nat} (hmask : IsByteMask mask k)
    (hzero : value &&& mask = 0) : ∀ j < 32, k ≤ j → j < k + 8 → value.getLsbD j = false := by
  intro j hj hlo hhi
  have hbit : (value &&& mask).getLsbD j = false := by simp [hzero]
  rw [BitVec.getLsbD_and, hmask j hj] at hbit
  simpa [hlo, hhi] using hbit

/-- The table read at the first byte of `value` that is not zero. -/
theorem lowestBit_of_byte {value mask : BitVec 32} {k : Nat} (hmask : IsByteMask mask k)
    (hne : value &&& mask ≠ 0) (hlow : ∀ q < k, value.getLsbD q = false) :
    IsLowestBit value (lowestBitBitmap.getD ((value &&& mask) >>> k).toNat 0 + k) := by
  obtain ⟨byte, hdef⟩ : ∃ byte, byte = (value &&& mask) >>> k := ⟨_, rfl⟩
  have hbyte : ∀ i, byte.getLsbD i = (decide (i < 8) && value.getLsbD (k + i)) := by
    intro i
    rw [hdef, BitVec.getLsbD_ushiftRight, BitVec.getLsbD_and]
    by_cases hi : k + i < 32
    · rw [hmask _ hi, Bool.and_comm]
      simp
    · rw [BitVec.getLsbD_of_ge value _ (by omega)]
      simp
  have hlt : byte.toNat < 2 ^ 8 := by
    apply Nat.lt_pow_two_of_testBit
    intro i hi
    rw [BitVec.testBit_toNat, hbyte]
    simp [Nat.not_lt.mpr hi]
  have hne' : byte.toNat ≠ 0 := by
    intro hz
    apply hne
    apply BitVec.eq_of_getLsbD_eq
    intro j hj
    rw [BitVec.getLsbD_and, hmask j hj, show (0 : BitVec 32).getLsbD j = false by simp]
    by_cases hin : k ≤ j ∧ j < k + 8
    · have hbit := hbyte (j - k)
      rw [← BitVec.testBit_toNat, hz, Nat.add_sub_cancel' hin.1] at hbit
      have hclear : value.getLsbD j = false := by
        simpa [show j - k < 8 by omega] using hbit.symm
      simp [hclear]
    · simp [hin]
  obtain ⟨hidx, hset, hclear⟩ := lowestBitBitmap_spec byte.toNat hlt hne'
  rw [BitVec.testBit_toNat, hbyte] at hset
  rw [← hdef, Nat.add_comm]
  refine ⟨by simp at hset; exact hset.2, ?_⟩
  intro q hq
  by_cases hqk : q < k
  · exact hlow q hqk
  · have hbit := hclear (q - k) (by omega)
    rw [BitVec.testBit_toNat, hbyte, Nat.add_sub_cancel' (Nat.not_lt.mp hqk)] at hbit
    simpa [show q - k < 8 by omega] using hbit

/-- For a nonzero word, `__rt_ffs` minus one is the lowest set bit. -/
theorem rtFfs_spec {value : BitVec 32} (hne : value ≠ 0) :
    ∃ p, rtFfs value = p + 1 ∧ IsLowestBit value p := by
  have m₀ : IsByteMask 0xff 0 := by unfold IsByteMask; decide
  have m₁ : IsByteMask 0xff00 8 := by unfold IsByteMask; decide
  have m₂ : IsByteMask 0xff0000 16 := by unfold IsByteMask; decide
  have m₃ : IsByteMask 0xff000000 24 := by unfold IsByteMask; decide
  unfold rtFfs
  rw [if_neg hne]
  split_ifs with h₀ h₁ h₂
  · exact ⟨_, rfl, by simpa using lowestBit_of_byte m₀ h₀ (by simp)⟩
  · have c₀ := byte_clear m₀ (not_not.mp h₀)
    exact ⟨_, rfl, lowestBit_of_byte m₁ h₁
      fun q hq => c₀ q (by omega) (by omega) (by omega)⟩
  · have c₀ := byte_clear m₀ (not_not.mp h₀)
    have c₁ := byte_clear m₁ (not_not.mp h₁)
    refine ⟨_, rfl, lowestBit_of_byte m₂ h₂ fun q hq => ?_⟩
    by_cases hq' : q < 8
    · exact c₀ q (by omega) (by omega) (by omega)
    · exact c₁ q (by omega) (by omega) (by omega)
  · have c₀ := byte_clear m₀ (not_not.mp h₀)
    have c₁ := byte_clear m₁ (not_not.mp h₁)
    have c₂ := byte_clear m₂ (not_not.mp h₂)
    have low : ∀ q < 24, value.getLsbD q = false := by
      intro q hq
      by_cases hq₁ : q < 8
      · exact c₀ q (by omega) (by omega) (by omega)
      · by_cases hq₂ : q < 16
        · exact c₁ q (by omega) (by omega) (by omega)
        · exact c₂ q (by omega) (by omega) (by omega)
    refine ⟨_, rfl, lowestBit_of_byte m₃ (fun hz => hne ?_) low⟩
    have c₃ := byte_clear m₃ hz
    apply BitVec.eq_of_getLsbD_eq
    intro j hj
    rw [show (0 : BitVec 32).getLsbD j = false by simp]
    by_cases hj' : j < 24
    · exact low j hj'
    · exact c₃ j hj (by omega) (by omega)

end PandoraRobot.Kernel
