import Mathlib.Data.List.Chain
import Mathlib.Data.Nat.Basic
import Mathlib.Logic.Function.Basic

/-! # Tiled regions

A region of memory is tiled by blocks, one right after the other.  A block starts with a
header, which says where the block before it starts, where the next one starts and
whether the block is in use.  `isHeader m prev next used` reads a header `m` in this way.

`Tiled isHeader mem prev start bs` says that the headers from `start` on are those of the
blocks `bs`, where the block before them starts at `prev`; `Has start bs o b` says that the
block `b` of them starts at `o`, and `freeStarts start bs` are the places where a free one
starts.  An allocator splits blocks, joins blocks and marks them.
-/

namespace PandoraRobot.Tiling

structure Block where
  /-- The size of the block with its header. -/
  size : Nat
  used : Bool
  deriving DecidableEq, Repr

variable {M : Type} {isHeader : M → Nat → Nat → Bool → Prop} {mem mem' : Nat → M}
  {prev start o o' s n : Nat} {b c : Block} {bs xs ys zs : List Block} {w : M}

/-! ## Sizes -/

def total : List Block → Nat
  | [] => 0
  | b :: bs => b.size + total bs

/-- What the blocks that are in use take up. -/
def usedTotal (bs : List Block) : Nat := total (bs.filter Block.used)

@[simp] theorem total_nil : total [] = 0 := rfl

@[simp] theorem total_cons : total (b :: bs) = b.size + total bs := rfl

@[simp] theorem total_append : total (xs ++ ys) = total xs + total ys := by
  induction xs with
  | nil => simp
  | cons b xs ih => simp [ih, Nat.add_assoc]

theorem total_mod (h : ∀ b ∈ bs, b.size % n = 0) : total bs % n = 0 := by
  induction bs with
  | nil => simp
  | cons b bs ih =>
    have hb := h b (by simp)
    rw [total_cons, Nat.add_mod, hb, ih fun c hc => h c (by simp [hc])]
    simp

theorem length_le_total (h : ∀ b ∈ bs, 0 < b.size) : bs.length ≤ total bs := by
  induction bs with
  | nil => simp
  | cons b bs ih =>
    have hb := h b (by simp)
    have := ih fun c hc => h c (by simp [hc])
    simp only [List.length_cons, total_cons]
    omega

@[simp] theorem usedTotal_nil : usedTotal [] = 0 := rfl

@[simp] theorem usedTotal_cons :
    usedTotal (b :: bs) = (if b.used then b.size else 0) + usedTotal bs := by
  cases hb : b.used <;> simp [usedTotal, hb]

@[simp] theorem usedTotal_append : usedTotal (xs ++ ys) = usedTotal xs + usedTotal ys := by
  simp [usedTotal]

theorem usedTotal_le (bs : List Block) : usedTotal bs ≤ total bs := by
  induction bs with
  | nil => rfl
  | cons b bs ih =>
    rw [usedTotal_cons, total_cons]
    split <;> omega

/-- What the free blocks have besides their headers of `n` bytes. -/
def freeData (n : Nat) : List Block → Nat
  | [] => 0
  | b :: bs => (if b.used then 0 else b.size - n) + freeData n bs

@[simp] theorem freeData_nil : freeData n [] = 0 := rfl

@[simp] theorem freeData_cons :
    freeData n (b :: bs) = (if b.used then 0 else b.size - n) + freeData n bs := rfl

@[simp] theorem freeData_append : freeData n (xs ++ ys) = freeData n xs + freeData n ys := by
  induction xs with
  | nil => simp
  | cons b xs ih => simp [ih, Nat.add_assoc]

theorem freeData_le (n : Nat) (bs : List Block) : freeData n bs ≤ total bs := by
  induction bs with
  | nil => simp
  | cons b bs ih =>
    rw [freeData_cons, total_cons]
    split <;> omega

/-! ## Which block starts where -/

def Has : Nat → List Block → Nat → Block → Prop
  | _, [], _, _ => False
  | start, c :: bs, o, b => (o = start ∧ b = c) ∨ Has (start + c.size) bs o b

@[simp] theorem has_nil : ¬ Has start [] o b := id

@[simp] theorem has_cons :
    Has start (c :: bs) o b ↔ (o = start ∧ b = c) ∨ Has (start + c.size) bs o b := Iff.rfl

@[simp] theorem has_append :
    Has start (xs ++ ys) o b ↔ Has start xs o b ∨ Has (start + total xs) ys o b := by
  induction xs generalizing start with
  | nil => simp
  | cons c xs ih => simp [ih, or_assoc, Nat.add_assoc]

theorem has_iff_split :
    Has start bs o b ↔ ∃ xs ys, bs = xs ++ b :: ys ∧ o = start + total xs := by
  constructor
  · intro h
    induction bs generalizing start with
    | nil => exact absurd h has_nil
    | cons c bs ih =>
      obtain ⟨rfl, rfl⟩ | h := h
      · exact ⟨[], bs, rfl, by simp⟩
      · obtain ⟨xs, ys, rfl, rfl⟩ := ih h
        exact ⟨c :: xs, ys, rfl, by simp [Nat.add_assoc]⟩
  · rintro ⟨xs, ys, rfl, rfl⟩
    simp

theorem Has.member (h : Has start bs o b) : b ∈ bs := by
  obtain ⟨xs, ys, rfl, -⟩ := has_iff_split.mp h
  simp

theorem Has.bounds (h : Has start bs o b) : start ≤ o ∧ o + b.size ≤ start + total bs := by
  obtain ⟨xs, ys, rfl, rfl⟩ := has_iff_split.mp h
  simp only [total_append, total_cons]
  omega

/-- Two blocks are the same, or one ends before the other starts. -/
theorem Has.disjoint (h : Has start bs o b) (h' : Has start bs o' c) :
    (o = o' ∧ b = c) ∨ o + b.size ≤ o' ∨ o' + c.size ≤ o := by
  induction bs generalizing start with
  | nil => exact absurd h has_nil
  | cons d bs ih =>
    obtain ⟨rfl, rfl⟩ | h := h
    · obtain ⟨rfl, rfl⟩ | h' := h'
      · exact .inl ⟨rfl, rfl⟩
      · exact .inr (.inl h'.bounds.1)
    · obtain ⟨rfl, rfl⟩ | h' := h'
      · exact .inr (.inr h.bounds.1)
      · exact ih h h'

/-- Blocks that start at the same place are the same, as no block is empty. -/
theorem Has.unique (h : Has start bs o b) (h' : Has start bs o c) (hpos : ∀ b ∈ bs, 0 < b.size) :
    b = c := by
  have hb := hpos b h.member
  have hc := hpos c h'.member
  obtain ⟨-, heq⟩ | hlt | hlt := h.disjoint h'
  · exact heq
  · omega
  · omega

/-- The blocks around one block. -/
theorem has_around_from (hpos : ∀ d ∈ xs ++ c :: ys, 0 < d.size) :
    Has start xs o b ∨ Has (start + total xs + c.size) ys o b ↔
      Has start (xs ++ c :: ys) o b ∧ o ≠ start + total xs := by
  simp only [has_append, has_cons]
  have hc := hpos c (by simp)
  constructor
  · rintro (hxs | hys)
    · have hbounds := hxs.bounds
      have hb := hpos b (List.mem_append_left _ hxs.member)
      exact ⟨.inl hxs, by omega⟩
    · have hbounds := hys.bounds
      exact ⟨.inr (.inr hys), by omega⟩
  · rintro ⟨hxs | ⟨heq, -⟩ | hys, hne⟩
    · exact .inl hxs
    · exact absurd heq hne
    · exact .inr hys

theorem has_around (hpos : ∀ d ∈ xs ++ c :: ys, 0 < d.size) :
    Has 0 xs o b ∨ Has (total xs + c.size) ys o b ↔ Has 0 (xs ++ c :: ys) o b ∧ o ≠ total xs := by
  rw [← Nat.zero_add (total xs)]
  exact has_around_from hpos

/-- Where the free blocks start. -/
def freeStarts : Nat → List Block → List Nat
  | _, [] => []
  | start, b :: bs =>
    if b.used then freeStarts (start + b.size) bs else start :: freeStarts (start + b.size) bs

@[simp] theorem freeStarts_nil : freeStarts start [] = [] := rfl

@[simp] theorem freeStarts_used : freeStarts start (⟨s, true⟩ :: bs) = freeStarts (start + s) bs :=
  rfl

@[simp] theorem freeStarts_free :
    freeStarts start (⟨s, false⟩ :: bs) = start :: freeStarts (start + s) bs := rfl

@[simp] theorem freeStarts_append :
    freeStarts start (xs ++ ys) = freeStarts start xs ++ freeStarts (start + total xs) ys := by
  induction xs generalizing start with
  | nil => simp
  | cons b xs ih => cases hb : b.used <;> simp [freeStarts, hb, ih, Nat.add_assoc]

theorem mem_freeStarts : o ∈ freeStarts start bs ↔ ∃ s, Has start bs o ⟨s, false⟩ := by
  induction bs generalizing start with
  | nil => simp
  | cons b bs ih =>
    obtain ⟨s, used⟩ := b
    cases used with
    | true => simp [ih]
    | false => simp [ih, exists_or]

theorem freeStarts_nodup (hpos : ∀ b ∈ bs, 0 < b.size) : (freeStarts start bs).Nodup := by
  induction bs generalizing start with
  | nil => simp
  | cons b bs ih =>
    have hrest : (freeStarts (start + b.size) bs).Nodup := ih fun c hc => hpos c (by simp [hc])
    unfold freeStarts
    split
    · exact hrest
    · refine List.nodup_cons.mpr ⟨fun hmem => ?_, hrest⟩
      obtain ⟨s, hhas⟩ := mem_freeStarts.mp hmem
      have hlow := hhas.bounds.1
      have hb := hpos b (by simp)
      omega

theorem freeStarts_length_le (start : Nat) (bs : List Block) :
    (freeStarts start bs).length ≤ bs.length := by
  induction bs generalizing start with
  | nil => simp
  | cons b bs ih =>
    have hrest := ih (start + b.size)
    unfold freeStarts
    split <;> simp only [List.length_cons] <;> omega

/-! ## Headers -/

def Tiled (isHeader : M → Nat → Nat → Bool → Prop) (mem : Nat → M) :
    Nat → Nat → List Block → Prop
  | _, _, [] => True
  | prev, start, b :: bs =>
    isHeader (mem start) prev (start + b.size) b.used ∧
      Tiled isHeader mem start (start + b.size) bs

/-- Where the last block starts, or the block before all. -/
def lastStart : Nat → Nat → List Block → Nat
  | prev, _, [] => prev
  | _, start, b :: bs => lastStart start (start + b.size) bs

@[simp] theorem tiled_nil : Tiled isHeader mem prev start [] := trivial

@[simp] theorem tiled_cons : Tiled isHeader mem prev start (b :: bs) ↔
    isHeader (mem start) prev (start + b.size) b.used ∧
      Tiled isHeader mem start (start + b.size) bs := Iff.rfl

theorem tiled_append : Tiled isHeader mem prev start (xs ++ ys) ↔
    Tiled isHeader mem prev start xs ∧
      Tiled isHeader mem (lastStart prev start xs) (start + total xs) ys := by
  induction xs generalizing prev start with
  | nil => simp [lastStart]
  | cons b xs ih => simp [ih, lastStart, and_assoc, Nat.add_assoc]

@[simp] theorem lastStart_snoc : lastStart prev start (xs ++ [b]) = start + total xs := by
  induction xs generalizing prev start with
  | nil => simp [lastStart]
  | cons c xs ih => simp [lastStart, ih, Nat.add_assoc]

theorem Has.header (h : Has start bs o b) (ht : Tiled isHeader mem prev start bs) :
    ∃ p, isHeader (mem o) p (o + b.size) b.used := by
  obtain ⟨xs, ys, rfl, rfl⟩ := has_iff_split.mp h
  exact ⟨_, (tiled_append.mp ht).2.1⟩

/-- Only what is in the region matters. -/
theorem Tiled.congr (h : Tiled isHeader mem prev start bs) (hpos : ∀ b ∈ bs, 0 < b.size)
    (hsame : ∀ o, start ≤ o → o < start + total bs → mem' o = mem o) :
    Tiled isHeader mem' prev start bs := by
  induction bs generalizing prev start with
  | nil => trivial
  | cons b bs ih =>
    obtain ⟨hb, hbs⟩ := h
    have hsize := hpos b (by simp)
    simp only [total_cons] at hsame
    refine ⟨?_, ih hbs (fun c hc => hpos c (by simp [hc])) fun o hlo hhi => hsame o ?_ ?_⟩
    · rwa [hsame start (Nat.le_refl _) (by omega)]
    · omega
    · omega

/-- Only the headers of the blocks matter. -/
theorem Tiled.congr_has (h : Tiled isHeader mem prev start bs)
    (hsame : ∀ o b, Has start bs o b → mem' o = mem o) : Tiled isHeader mem' prev start bs := by
  induction bs generalizing prev start with
  | nil => trivial
  | cons b bs ih =>
    obtain ⟨hb, hbs⟩ := h
    refine ⟨?_, ih hbs fun o c hhas => hsame o c (.inr hhas)⟩
    rwa [hsame start b (.inl ⟨rfl, rfl⟩)]

/-- A header outside the region does not matter. -/
theorem Tiled.update (h : Tiled isHeader mem prev start bs) (hpos : ∀ b ∈ bs, 0 < b.size)
    (ho : o < start ∨ start + total bs ≤ o) :
    Tiled isHeader (Function.update mem o w) prev start bs := by
  apply h.congr hpos
  intro x hlo hhi
  exact Function.update_of_ne (by omega) _ _

/-- The first header comes to tell of another block before it. -/
theorem Tiled.relink (h : Tiled isHeader mem prev start bs) (hpos : ∀ b ∈ bs, 0 < b.size)
    (hhead : bs ≠ [] → ∀ next used, isHeader (mem start) prev next used →
      isHeader (mem' start) o next used)
    (hsame : ∀ x, start < x → x < start + total bs → mem' x = mem x) :
    Tiled isHeader mem' o start bs := by
  cases bs with
  | nil => trivial
  | cons b bs =>
    obtain ⟨hb, hbs⟩ := h
    have hsize := hpos b (by simp)
    refine ⟨hhead (by simp) _ _ hb, hbs.congr (fun c hc => hpos c (by simp [hc])) ?_⟩
    intro x hlo hhi
    rw [total_cons] at hsame
    exact hsame x (by omega) (by omega)

/-- A block gets another header. -/
theorem Tiled.mark (h : Tiled isHeader mem prev start (xs ++ b :: ys))
    (hpos : ∀ d ∈ xs ++ b :: ys, 0 < d.size) (hsize : c.size = b.size)
    (hhead : ∀ p next, isHeader (mem (start + total xs)) p next b.used →
      isHeader w p next c.used) :
    Tiled isHeader (Function.update mem (start + total xs) w) prev start (xs ++ c :: ys) := by
  obtain ⟨hxs, hb, hys⟩ := tiled_append.mp h
  have hb_pos := hpos b (by simp)
  refine tiled_append.mpr ⟨hxs.update (fun d hd => hpos d (by simp [hd])) (.inr (by omega)), ?_, ?_⟩
  · rw [Function.update_self, hsize]
    exact hhead _ _ hb
  · rw [hsize]
    exact hys.update (fun d hd => hpos d (by simp [hd])) (.inl (by omega))

/-! ## Neighbours -/

/-- No two neighbours are both free. -/
def Coalesced (bs : List Block) : Prop := bs.IsChain fun a b => a.used = true ∨ b.used = true

theorem coalesced_append : Coalesced (xs ++ b :: ys) ↔ Coalesced xs ∧ Coalesced ys ∧
    (b.used = false → (∀ a ∈ xs.getLast?, a.used = true) ∧ ∀ c ∈ ys.head?, c.used = true) := by
  unfold Coalesced
  rw [List.isChain_append, List.isChain_cons]
  simp only [List.head?_cons, Option.mem_def, Option.some.injEq, forall_eq']
  cases b.used <;> simp
  tauto

theorem coalesced_cons : Coalesced (b :: ys) ↔
    Coalesced ys ∧ (b.used = false → ∀ c ∈ ys.head?, c.used = true) := by
  unfold Coalesced
  rw [List.isChain_cons]
  cases b.used <;> simp [and_comm]

/-- A free block comes into use, and a free block may be left of it. -/
theorem Coalesced.take {rest : List Block} (h : Coalesced (xs ++ ⟨s, false⟩ :: ys))
    (hrest : rest = [] ∨ ∃ m, rest = [⟨m, false⟩]) :
    Coalesced (xs ++ ⟨n, true⟩ :: (rest ++ ys)) := by
  obtain ⟨hxs, hys, hnear⟩ := coalesced_append.mp h
  refine coalesced_append.mpr ⟨hxs, ?_, by simp⟩
  obtain rfl | ⟨m, rfl⟩ := hrest
  · exact hys
  · exact coalesced_cons.mpr ⟨hys, fun _ => (hnear rfl).2⟩

end PandoraRobot.Tiling
