import Mathlib.Data.List.Destutter
import Mathlib.Data.List.DropRight
import PandoraRobot.Lib.LineEditor

/-! # The last lines entered

What an editor remembers of the lines that have been entered, one after the other: the last ones of
them, without the empty ones and without repetitions in a row.
-/

namespace PandoraRobot.LineEditor

variable {α : Type} [DecidableEq α]

/-- An element more repeats the last one, or is kept. -/
theorem destutter'_concat {β : Type} [DecidableEq β] (a : β) (l : List β) (x : β) :
    (l ++ [x]).destutter' (· ≠ ·) a =
      if (l.destutter' (· ≠ ·) a).getLast? = some x then l.destutter' (· ≠ ·) a
      else l.destutter' (· ≠ ·) a ++ [x] := by
  induction l generalizing a with
  | nil =>
    by_cases hx : a = x <;> simp [hx]
  | cons b l ih =>
    rw [List.cons_append, List.destutter'_cons, List.destutter'_cons]
    by_cases hb : a = b
    · rw [if_neg (not_not.mpr hb), if_neg (not_not.mpr hb), ih]
    · have hne : l.destutter' (· ≠ ·) b ≠ [] := List.destutter'_ne_nil _ _
      rw [if_pos hb, if_pos hb, ih, List.getLast?_cons_of_ne_nil hne]
      split <;> rfl

theorem destutter_concat {β : Type} [DecidableEq β] (l : List β) (x : β) :
    (l ++ [x]).destutter (· ≠ ·) =
      if (l.destutter (· ≠ ·)).getLast? = some x then l.destutter (· ≠ ·)
      else l.destutter (· ≠ ·) ++ [x] := by
  cases l with
  | nil => rfl
  | cons a l => exact destutter'_concat a l x

/-- The lines entered that are not empty, without repetitions in a row. -/
def distinctLines (entered : List (List α)) : List (List α) :=
  (entered.filter (· ≠ [])).destutter (· ≠ ·)

/-- The last `depth` of them. -/
def recentLines (depth : Nat) (entered : List (List α)) : List (List α) :=
  (distinctLines entered).rtake depth

theorem distinctLines_concat (entered : List (List α)) (text : List α) :
    distinctLines (entered ++ [text]) =
      if text = [] ∨ (distinctLines entered).getLast? = some text then distinctLines entered
      else distinctLines entered ++ [text] := by
  by_cases hempty : text = []
  · simp [distinctLines, hempty]
  · have hfilter : (entered ++ [text]).filter (· ≠ []) = entered.filter (· ≠ []) ++ [text] := by
      simp [hempty]
    rw [distinctLines, hfilter, destutter_concat]
    simp only [hempty, false_or, distinctLines]

theorem length_recentLines (depth : Nat) (entered : List (List α)) :
    (recentLines depth entered).length = min depth (distinctLines entered).length := by
  rw [recentLines, List.rtake, List.length_drop]
  omega

theorem getLast?_recentLines {depth : Nat} (hdepth : 0 < depth) (entered : List (List α)) :
    (recentLines depth entered).getLast? = (distinctLines entered).getLast? := by
  rw [recentLines, List.rtake, List.getLast?_drop]
  split
  next hshort =>
    have hnil : distinctLines entered = [] := List.length_eq_zero_iff.mp (by omega)
    rw [hnil]
    rfl
  next => rfl

/-- The editor remembers the last lines entered. -/
theorem remember_recentLines {depth : Nat} (hdepth : 0 < depth) (entered : List (List α))
    (text : List α) :
    Editor.remember depth text (recentLines depth entered) =
      recentLines depth (entered ++ [text]) := by
  have hlength := length_recentLines depth entered
  rw [Editor.remember, getLast?_recentLines hdepth]
  by_cases hdropped : text = [] ∨ (distinctLines entered).getLast? = some text
  · rw [if_pos hdropped, recentLines, recentLines, distinctLines_concat, if_pos hdropped]
  rw [if_neg hdropped]
  have hkept : recentLines depth (entered ++ [text]) =
      (distinctLines entered ++ [text]).rtake depth := by
    rw [recentLines, distinctLines_concat, if_neg hdropped]
  rw [hkept, List.rtake, List.length_append, List.length_singleton]
  by_cases hroom : (distinctLines entered).length < depth
  · have hall : recentLines depth entered = distinctLines entered := by
      rw [recentLines, List.rtake, Nat.sub_eq_zero_of_le hroom.le, List.drop_zero]
    rw [if_pos (by omega), hall, Nat.sub_eq_zero_of_le (by omega), List.drop_zero]
  · rw [if_neg (by omega), recentLines, List.rtake, List.tail_drop,
      List.drop_append_of_le_length (by omega)]
    congr 2
    omega

end PandoraRobot.LineEditor
