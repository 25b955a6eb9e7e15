import Mathlib.Data.List.Nodup
import Mathlib.Data.List.Perm.Basic
import Mathlib.Logic.Function.Basic

/-! # Shelves and hands

Some things lie on a shelf, a list, and some are in the hands of holders, at most one
in each hand.  `Shared all hand shelf` says that everything is in exactly one place.
-/

namespace PandoraRobot.Holding

variable {C X : Type} {all all' : X → Prop} {hand : C → Option X} {shelf shelf' : List X} {c : C}
  {x : X}

structure Shared (all : X → Prop) (hand : C → Option X) (shelf : List X) : Prop where
  everything : ∀ x, all x ↔ x ∈ shelf ∨ ∃ c, hand c = some x
  nodup : shelf.Nodup
  apart : ∀ c x, hand c = some x → x ∉ shelf
  one : ∀ c c' x, hand c = some x → hand c' = some x → c = c'

/-- The order on the shelf does not matter. -/
theorem Shared.perm (h : Shared all hand shelf) (hperm : shelf.Perm shelf') :
    Shared all hand shelf' := by
  refine ⟨fun x => ?_, hperm.nodup_iff.mp h.nodup, fun c x hc => ?_, h.one⟩
  · rw [← hperm.mem_iff]
    exact h.everything x
  · rw [← hperm.mem_iff]
    exact h.apart c x hc

/-- Empty hands. -/
theorem Shared.init (hand : C → Option X) (hnone : ∀ c, hand c = none) (hnodup : shelf.Nodup) :
    Shared (· ∈ shelf) hand shelf := by
  apply Shared.mk <;> simp [hnone, hnodup]

variable [DecidableEq C]

/-- What is taken from the shelf is in a hand. -/
theorem Shared.pick (h : Shared all hand (x :: shelf)) (hc : hand c = none) :
    Shared all (Function.update hand c (some x)) shelf := by
  obtain ⟨hfresh, hnodup⟩ := List.nodup_cons.mp h.nodup
  have hother : ∀ d, hand d ≠ some x := fun d hd => h.apart d x hd (by simp)
  have hupdate : ∀ d y, Function.update hand c (some x) d = some y →
      (d = c ∧ y = x) ∨ (d ≠ c ∧ hand d = some y) := by
    intro d y hd
    by_cases hdc : d = c
    · subst hdc
      simpa [eq_comm] using hd
    · exact .inr ⟨hdc, by simpa [hdc] using hd⟩
  refine ⟨fun y => ?_, hnodup, fun d y hd hy => ?_, fun d e y hd he => ?_⟩
  · rw [h.everything, List.mem_cons]
    constructor
    · rintro ((rfl | hy) | ⟨d, hd⟩)
      · exact .inr ⟨c, by simp⟩
      · exact .inl hy
      · have hdc : d ≠ c := by
          rintro rfl
          simp [hc] at hd
        exact .inr ⟨d, by simpa [hdc] using hd⟩
    · rintro (hy | ⟨d, hd⟩)
      · exact .inl (.inr hy)
      · obtain ⟨-, rfl⟩ | ⟨-, hd⟩ := hupdate d y hd
        · exact .inl (.inl rfl)
        · exact .inr ⟨d, hd⟩
  · obtain ⟨-, rfl⟩ | ⟨-, hd⟩ := hupdate d y hd
    · exact hfresh hy
    · exact h.apart d y hd (by simp [hy])
  · obtain ⟨rfl, rfl⟩ | ⟨-, hd'⟩ := hupdate d y hd
    · obtain ⟨rfl, -⟩ | ⟨-, he'⟩ := hupdate e y he
      · rfl
      · exact absurd he' (hother e)
    · obtain ⟨-, rfl⟩ | ⟨-, he'⟩ := hupdate e y he
      · exact absurd hd' (hother d)
      · exact h.one d e y hd' he'

/-- What was in a hand is on the shelf. -/
theorem Shared.put (h : Shared all hand shelf) (hc : hand c = some x) :
    Shared all (Function.update hand c none) (x :: shelf) := by
  have hupdate : ∀ d y, Function.update hand c none d = some y → d ≠ c ∧ hand d = some y := by
    intro d y hd
    by_cases hdc : d = c
    · subst hdc
      simp at hd
    · exact ⟨hdc, by simpa [hdc] using hd⟩
  refine ⟨fun y => ?_, List.nodup_cons.mpr ⟨h.apart c x hc, h.nodup⟩, fun d y hd hy => ?_,
    fun d e y hd he => h.one d e y (hupdate d y hd).2 (hupdate e y he).2⟩
  · rw [h.everything, List.mem_cons]
    constructor
    · rintro (hy | ⟨d, hd⟩)
      · exact .inl (.inr hy)
      · by_cases hdc : d = c
        · subst hdc
          exact .inl (.inl (by simpa [hc, eq_comm] using hd))
        · exact .inr ⟨d, by simpa [hdc] using hd⟩
    · rintro ((rfl | hy) | ⟨d, hd⟩)
      · exact .inr ⟨c, hc⟩
      · exact .inl hy
      · exact .inr ⟨d, (hupdate d y hd).2⟩
  · obtain ⟨hdc, hd⟩ := hupdate d y hd
    rcases List.mem_cons.mp hy with rfl | hy
    · exact hdc (h.one d c y hd hc)
    · exact h.apart d y hd hy

/-- Something new comes into a hand. -/
theorem Shared.new (h : Shared all hand shelf) (hx : ¬ all x) (hc : hand c = none)
    (hall : ∀ y, all' y ↔ all y ∨ y = x) :
    Shared all' (Function.update hand c (some x)) shelf := by
  have hnot := hx
  rw [h.everything, not_or] at hnot
  have hshelf : Shared all' hand (x :: shelf) := by
    refine ⟨fun y => ?_, List.nodup_cons.mpr ⟨hnot.1, h.nodup⟩, fun d y hd hy => ?_, h.one⟩
    · rw [hall, h.everything, List.mem_cons]
      tauto
    · rcases List.mem_cons.mp hy with rfl | hy
      · exact hnot.2 ⟨d, hd⟩
      · exact h.apart d y hd hy
  exact hshelf.pick hc

end PandoraRobot.Holding
