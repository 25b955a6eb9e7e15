import Mathlib.Data.Nat.Basic

/-! # Pieces in a row

A range is moved in pieces, each with its start and its size.  `Tiles a ps b` says that the pieces
`ps` are not empty, and are those of the range from `a` to `b`, one right after the other.
-/

namespace PandoraRobot.Chunks

inductive Tiles : Nat → List (Nat × Nat) → Nat → Prop where
  | nil (a : Nat) : Tiles a [] a
  | cons {a b size : Nat} {ps : List (Nat × Nat)} (hsize : 0 < size)
      (rest : Tiles (a + size) ps b) : Tiles a ((a, size) :: ps) b

variable {a b size : Nat} {ps : List (Nat × Nat)} {p : Nat × Nat}

theorem Tiles.single (hsize : 0 < size) : Tiles a [(a, size)] (a + size) := .cons hsize (.nil _)

theorem Tiles.le (h : Tiles a ps b) : a ≤ b := by
  induction h with
  | nil => exact Nat.le_refl _
  | cons _ _ ih => omega

/-- Each piece is in the range. -/
theorem Tiles.bounds (h : Tiles a ps b) (hp : p ∈ ps) : a ≤ p.1 ∧ p.1 + p.2 ≤ b := by
  induction h with
  | nil => cases hp
  | cons _ rest ih =>
    rcases List.mem_cons.mp hp with rfl | hrest
    · exact ⟨Nat.le_refl _, rest.le⟩
    · obtain ⟨hlow, hhigh⟩ := ih hrest
      exact ⟨by omega, hhigh⟩

end PandoraRobot.Chunks
