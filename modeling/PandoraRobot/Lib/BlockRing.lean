import Mathlib.Algebra.Ring.Nat
import Mathlib.Data.List.Basic
import Mathlib.Order.CompletePartialOrder
import Mathlib.Order.Interval.Set.Basic
import Mathlib.Order.Interval.Set.Disjoint

/-! # Blocks in a ring

Spans of a buffer of `n` cells, laid one after the other and taken away in any order.  A
span is laid behind the last one, or at the start of the buffer when there is no room
behind.  Which of the two halves of the buffer is free is read off from the first and the
last span alone.
-/

namespace PandoraRobot.BlockRing

structure Span where
  start : Nat
  size : Nat
  deriving DecidableEq, Repr

namespace Span

def stop (x : Span) : Nat := x.start + x.size

/-- The cells of a span. -/
def cells (x : Span) : Set Nat := Set.Ico x.start x.stop

@[simp] theorem stop_mk (start size : Nat) : stop ⟨start, size⟩ = start + size := rfl

theorem start_le_stop (x : Span) : x.start ≤ x.stop := Nat.le_add_right _ _

end Span

/-- Each span ends before the next one starts. -/
def Ascending (xs : List Span) : Prop := xs.Pairwise fun a b => a.stop ≤ b.start

/-- Spans in the order in which they were laid: ascending ones, and then ascending ones below
    all of these. -/
structure Laid (n : Nat) (xs : List Span) : Prop where
  inside : ∀ x ∈ xs, x.stop ≤ n
  split : ∃ high low, xs = high ++ low ∧ Ascending high ∧ Ascending low ∧
    ∀ a ∈ high, ∀ b ∈ low, b.stop ≤ a.start ∧ b.start < a.start

variable {n size : Nat} {xs ys : List Span} {x first last : Span}

/-! ## Ascending spans -/

theorem Ascending.start_le (h : Ascending (first :: xs)) (hx : x ∈ first :: xs) :
    first.start ≤ x.start := by
  obtain ⟨hrest, -⟩ := List.pairwise_cons.mp h
  obtain rfl | hx := List.mem_cons.mp hx
  · exact le_rfl
  · exact first.start_le_stop.trans (hrest x hx)

theorem Ascending.le_stop (h : Ascending (xs ++ [last])) (hx : x ∈ xs ++ [last]) :
    x.stop ≤ last.stop := by
  obtain ⟨-, -, hcross⟩ := List.pairwise_append.mp h
  obtain hx | hx := List.mem_append.mp hx
  · exact (hcross x hx last (by simp)).trans last.start_le_stop
  · rw [List.mem_singleton.mp hx]

theorem Ascending.concat (h : Ascending xs) (hx : ∀ y ∈ xs, y.stop ≤ x.start) :
    Ascending (xs ++ [x]) :=
  List.pairwise_append.mpr ⟨h, by simp, by simpa using hx⟩

/-! ## Spans are taken away -/

/-- Any spans may go. -/
theorem Laid.sublist (h : Laid n ys) (hsub : xs.Sublist ys) : Laid n xs := by
  obtain ⟨high, low, rfl, hhigh, hlow, hbelow⟩ := h.split
  obtain ⟨high', low', rfl, hsub₁, hsub₂⟩ := List.sublist_append_iff.mp hsub
  refine ⟨fun x hx => h.inside x (hsub.subset hx), high', low', rfl, hhigh.sublist hsub₁,
    hlow.sublist hsub₂, fun a ha b hb => ?_⟩
  exact hbelow a (hsub₁.subset ha) b (hsub₂.subset hb)

/-! ## Spans are laid -/

/-- A first span that is not above the last one: the ring has not wrapped. -/
theorem Laid.ascending (h : Laid n xs) (hfirst : xs.head? = some first)
    (hlast : xs.getLast? = some last) (hle : first.start ≤ last.start) : Ascending xs := by
  obtain ⟨high, low, rfl, hhigh, hlow, hbelow⟩ := h.split
  cases high with
  | nil => simpa using hlow
  | cons a high =>
    obtain rfl | ⟨low, b, rfl⟩ := low.eq_nil_or_concat'
    · simpa using hhigh
    · obtain rfl : a = first := by simpa using hfirst
      obtain rfl : b = last := by
        rw [← List.append_assoc, List.getLast?_concat] at hlast
        exact Option.some.inj hlast
      have hlt := (hbelow a (by simp) b (by simp)).2
      omega

/-- A first span above the last one: the ring has wrapped. -/
theorem Laid.wrapped (h : Laid n xs) (hfirst : xs.head? = some first)
    (hlast : xs.getLast? = some last) (hlt : last.start < first.start) :
    ∃ high low, xs = (first :: high) ++ (low ++ [last]) ∧ Ascending (first :: high) ∧
      Ascending (low ++ [last]) ∧
      ∀ a ∈ first :: high, ∀ b ∈ low ++ [last], b.stop ≤ a.start ∧ b.start < a.start := by
  obtain ⟨high, low, rfl, hhigh, hlow, hbelow⟩ := h.split
  -- an ascending list starts with its lowest span
  have hnot : ∀ zs, Ascending zs → zs.head? = some first → zs.getLast? = some last → False := by
    intro zs hzs hhead hend
    obtain ⟨rest, rfl⟩ := List.head?_eq_some_iff.mp hhead
    have := hzs.start_le (List.mem_of_getLast? hend)
    omega
  cases high with
  | nil => exact absurd (hnot low hlow (by simpa using hfirst) (by simpa using hlast)) id
  | cons a high =>
    obtain rfl | ⟨low, b, rfl⟩ := low.eq_nil_or_concat'
    · exact absurd (hnot _ hhigh (by simpa using hfirst) (by simpa using hlast)) id
    · obtain rfl : a = first := by simpa using hfirst
      obtain rfl : b = last := by
        rw [← List.append_assoc, List.getLast?_concat] at hlast
        exact Option.some.inj hlast
      exact ⟨high, low, rfl, hhigh, hlow, hbelow⟩

/-- In a ring that has wrapped, the last span ends below the first one. -/
theorem Laid.last_stop_le (h : Laid n xs) (hfirst : xs.head? = some first)
    (hlast : xs.getLast? = some last) (hlt : last.start < first.start) :
    last.stop ≤ first.start := by
  obtain ⟨high, low, -, -, -, hbelow⟩ := h.wrapped hfirst hlast hlt
  exact (hbelow first (by simp) last (by simp)).1

theorem Laid.single (h : size ≤ n) : Laid n [⟨0, size⟩] :=
  ⟨by simpa using h, [⟨0, size⟩], [], rfl, List.pairwise_singleton _ _, .nil, by simp⟩

/-- Behind the last span. -/
theorem Laid.append (h : Laid n xs) (hfirst : xs.head? = some first)
    (hlast : xs.getLast? = some last) (hle : first.start ≤ last.start)
    (hroom : last.stop + size ≤ n) : Laid n (xs ++ [⟨last.stop, size⟩]) := by
  have hasc := h.ascending hfirst hlast hle
  obtain ⟨init, rfl⟩ := List.getLast?_eq_some_iff.mp hlast
  refine ⟨fun x hx => ?_, _, [], (List.append_nil _).symm, hasc.concat fun y hy => hasc.le_stop hy,
    .nil, by simp⟩
  obtain hx | hx := List.mem_append.mp hx
  · exact h.inside x hx
  · rw [List.mem_singleton.mp hx]
    exact hroom

/-- At the start of the buffer, below the first span. -/
theorem Laid.wrap (h : Laid n xs) (hfirst : xs.head? = some first)
    (hlast : xs.getLast? = some last) (hle : first.start ≤ last.start)
    (hroom : size ≤ first.start) (hpos : 0 < size) : Laid n (xs ++ [⟨0, size⟩]) := by
  have hasc := h.ascending hfirst hlast hle
  obtain ⟨rest, rfl⟩ := List.head?_eq_some_iff.mp hfirst
  refine ⟨fun x hx => ?_, _, _, rfl, hasc, List.pairwise_singleton _ _, fun a ha b hb => ?_⟩
  · obtain hx | hx := List.mem_append.mp hx
    · exact h.inside x hx
    · rw [List.mem_singleton.mp hx]
      have hstop := h.inside first (by simp)
      have := first.start_le_stop
      simp only [Span.stop_mk]
      omega
  · rw [List.mem_singleton.mp hb]
    have := hasc.start_le ha
    simp only [Span.stop_mk]
    omega

/-- Behind the last span and below the first one, where some room is left. -/
theorem Laid.append_low (h : Laid n xs) (hfirst : xs.head? = some first)
    (hlast : xs.getLast? = some last) (hlt : last.start < first.start)
    (hgap : last.stop < first.start) (hroom : last.stop + size ≤ first.start) :
    Laid n (xs ++ [⟨last.stop, size⟩]) := by
  obtain ⟨high, low, rfl, hhigh, hlow, hbelow⟩ := h.wrapped hfirst hlast hlt
  refine ⟨fun x hx => ?_, first :: high, low ++ [last] ++ [⟨last.stop, size⟩],
    List.append_assoc _ _ _, hhigh, hlow.concat fun y hy => hlow.le_stop hy, fun a ha b hb => ?_⟩
  · obtain hx | hx := List.mem_append.mp hx
    · exact h.inside x hx
    · rw [List.mem_singleton.mp hx]
      have hstop := h.inside first (by simp)
      have := first.start_le_stop
      simp only [Span.stop_mk]
      omega
  · obtain hb | hb := List.mem_append.mp hb
    · exact hbelow a ha b hb
    · rw [List.mem_singleton.mp hb]
      have := hhigh.start_le ha
      simp only [Span.stop_mk]
      omega

/-! ## Their sizes -/

theorem Ascending.sum_size_le {m : Nat} (h : Ascending xs) (hmn : m ≤ n)
    (hlow : ∀ x ∈ xs, m ≤ x.start) (hinside : ∀ x ∈ xs, x.stop ≤ n) :
    m + (xs.map Span.size).sum ≤ n := by
  induction xs generalizing m with
  | nil => simpa using hmn
  | cons x xs ih =>
    obtain ⟨hrest, htail⟩ := List.pairwise_cons.mp h
    have hstart := hlow x List.mem_cons_self
    have hstop : x.stop = x.start + x.size := rfl
    have hsum := @ih x.stop htail (hinside x List.mem_cons_self) hrest
      fun y hy => hinside y (List.mem_cons_of_mem _ hy)
    rw [List.map_cons, List.sum_cons]
    omega

/-- Together, the spans are no larger than the buffer. -/
theorem Laid.sum_size_le (h : Laid n xs) : (xs.map Span.size).sum ≤ n := by
  obtain ⟨high, low, rfl, hhigh, hlow, hbelow⟩ := h.split
  have hordered : Ascending (low ++ high) :=
    List.pairwise_append.mpr ⟨hlow, hhigh, fun b hb a ha => (hbelow a ha b hb).1⟩
  have hsum := hordered.sum_size_le (Nat.zero_le n) (fun _ _ => Nat.zero_le _) fun x hx =>
    h.inside x (by simpa [or_comm] using hx)
  simp only [List.map_append, List.sum_append] at hsum ⊢
  omega

/-! ## Apart -/

theorem cells_disjoint {a b : Span} (h : a.stop ≤ b.start) : Disjoint a.cells b.cells :=
  Set.Ico_disjoint_Ico.mpr (by omega)

/-- No two spans share a cell. -/
theorem Laid.disjoint (h : Laid n xs) : xs.Pairwise fun a b => Disjoint a.cells b.cells := by
  obtain ⟨high, low, rfl, hhigh, hlow, hbelow⟩ := h.split
  refine List.pairwise_append.mpr ⟨hhigh.imp cells_disjoint, hlow.imp cells_disjoint,
    fun a ha b hb => (cells_disjoint (hbelow a ha b hb).1).symm⟩

end PandoraRobot.BlockRing
