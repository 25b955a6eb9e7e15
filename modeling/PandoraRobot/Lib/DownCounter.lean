import Mathlib.Logic.Function.Iterate
import Mathlib.Tactic.SplitIfs

/-! # Counters that count down

A counter goes down by one in each cycle and is loaded again after 0, so that it comes back to
itself after one cycle more than the value it is loaded with.  Who reads it less than that apart
sees the time that elapses modulo this period.
-/

namespace PandoraRobot.DownCounter

/-- One cycle. -/
def countDown (load value : Nat) : Nat := if value = 0 then load else value - 1

/-- The value after some cycles. -/
def valueAfter (load start cycles : Nat) : Nat := (countDown load)^[cycles] start

variable {load start cycles : Nat}

theorem valueAfter_succ :
    valueAfter load start (cycles + 1) = countDown load (valueAfter load start cycles) :=
  Function.iterate_succ_apply' ..

theorem succ_mod_period (cycles load : Nat) : (cycles + 1) % (load + 1) =
    if cycles % (load + 1) = load then 0 else cycles % (load + 1) + 1 := by
  have hlt := Nat.mod_lt cycles load.add_one_pos
  rw [← Nat.mod_add_mod]
  split
  case isTrue heq => rw [heq, Nat.mod_self]
  case isFalse hne => exact Nat.mod_eq_of_lt (by omega)

/-- The counter after some cycles of a period: it has been loaded once it has passed its start. -/
theorem valueAfter_eq (hstart : start ≤ load) (cycles : Nat) : valueAfter load start cycles =
    if cycles % (load + 1) ≤ start then start - cycles % (load + 1)
    else start + (load + 1) - cycles % (load + 1) := by
  induction cycles with
  | zero => rw [Nat.zero_mod, if_pos (Nat.zero_le _)]; rfl
  | succ cycles ih =>
    have hlt := Nat.mod_lt cycles load.add_one_pos
    rw [valueAfter_succ, ih, succ_mod_period, countDown]
    split_ifs <;> omega

theorem valueAfter_le (hstart : start ≤ load) (cycles : Nat) :
    valueAfter load start cycles ≤ load := by
  rw [valueAfter_eq hstart]
  split <;> omega

/-! ## Readings -/

/-- The cycles at which a counter is read: less than a period apart, and for ever. -/
structure Schedule (load : Nat) where
  cyclesAt : Nat → Nat
  start : cyclesAt 0 = 0
  later : ∀ i, cyclesAt i ≤ cyclesAt (i + 1)
  soon : ∀ i, cyclesAt (i + 1) < cyclesAt i + (load + 1)
  passes : ∀ cycles, ∃ i, cycles ≤ cyclesAt i

namespace Schedule

variable (s : Schedule load)

theorem mono {i j : Nat} (h : i ≤ j) : s.cyclesAt i ≤ s.cyclesAt j := by
  induction h with
  | refl => exact Nat.le_refl _
  | step _ ih => exact Nat.le_trans ih (s.later _)

/-- Readings at most `gap` cycles apart do not miss `gap` cycles in a row. -/
theorem hits {gap : Nat} (hgap : ∀ i, s.cyclesAt (i + 1) ≤ s.cyclesAt i + gap)
    (hcycles : 0 < cycles) : ∃ i, 0 < i ∧ cycles ≤ s.cyclesAt i ∧ s.cyclesAt i < cycles + gap := by
  obtain ⟨n, hn⟩ := s.passes cycles
  induction n with
  | zero =>
    rw [s.start] at hn
    omega
  | succ n ih =>
    by_cases hearlier : cycles ≤ s.cyclesAt n
    · exact ih hearlier
    · have := hgap n
      exact ⟨n + 1, Nat.succ_pos n, hn, by omega⟩

/-- What is so at one of the readings, from the first on, is first so at one of them. -/
theorem first_iff (p : Nat → Prop) (bound : Nat) :
    (∃ n, 1 ≤ n ∧ p n ∧ (∀ j, 1 ≤ j → j < n → ¬ p j) ∧ bound ≤ s.cyclesAt n) ↔
      (∃ n, 1 ≤ n ∧ p n) ∧ ∀ n, 1 ≤ n → p n → bound ≤ s.cyclesAt n := by
  constructor
  · rintro ⟨n, hn, hp, hfirst, hbound⟩
    refine ⟨⟨n, hn, hp⟩, fun m hm hpm => ?_⟩
    have hle : n ≤ m := by
      by_contra hlt
      exact hfirst m hm (Nat.lt_of_not_le hlt) hpm
    exact Nat.le_trans hbound (s.mono hle)
  · rintro ⟨⟨n, hn, hp⟩, hbound⟩
    induction n using Nat.strongRecOn with
    | ind n ih =>
      by_cases hfirst : ∃ j, 1 ≤ j ∧ j < n ∧ p j
      · obtain ⟨j, hj, hlt, hpj⟩ := hfirst
        exact ih j hlt hj hpj
      · exact ⟨n, hn, hp, fun j hj hlt hpj => hfirst ⟨j, hj, hlt, hpj⟩, hbound n hn hp⟩

end Schedule

/-- A reading in each cycle. -/
def everyCycle (hload : 0 < load) : Schedule load where
  cyclesAt i := i
  start := rfl
  later i := Nat.le_succ i
  soon i := by omega
  passes cycles := ⟨cycles, Nat.le_refl cycles⟩

/-- A second reading in the first cycle, and one in each from there on. -/
def atOnce (hload : 0 < load) : Schedule load where
  cyclesAt i := i - 1
  start := rfl
  later i := by omega
  soon i := by omega
  passes cycles := ⟨cycles + 1, Nat.le_refl cycles⟩

end PandoraRobot.DownCounter
