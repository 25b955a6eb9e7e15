import Mathlib.Data.List.Basic

/-! # Programs that write a transcript

A program can read all that has happened so far, and it adds to it.  What a program adds is judged
from its own beginning on, whatever has happened before: then the judgement of a sequence of
programs follows from those of its parts.
-/

namespace PandoraRobot.Transcript

variable {E α β : Type}

/-- Whatever has happened, the program only adds to it, and `P` holds of what it returns and of
    what it adds. -/
def Adds (f : StateM (List E) α) (P : α → List E → Prop) : Prop :=
  ∀ w, ∃ l, (f.run w).2 = w ++ l ∧ P (f.run w).1 l

variable {f : StateM (List E) α} {g : α → StateM (List E) β} {P P' : α → List E → Prop}
  {Q : β → List E → Prop}

theorem Adds.mono (h : Adds f P) (himp : ∀ a l, P a l → P' a l) : Adds f P' := by
  intro w
  obtain ⟨l, hl, hp⟩ := h w
  exact ⟨l, hl, himp _ _ hp⟩

theorem adds_pure {a : α} (h : P a []) : Adds (pure a) P :=
  fun w => ⟨[], (List.append_nil w).symm, h⟩

theorem adds_emit {P : Unit → List E → Prop} {e : E} (h : P () [e]) :
    Adds (modify (· ++ [e])) P :=
  fun _ => ⟨[e], rfl, h⟩

/-- A program that looks at what has happened. -/
theorem adds_get {g : List E → StateM (List E) β} (h : ∀ w, Adds (g w) Q) : Adds (get >>= g) Q :=
  fun w => h w w

theorem run_bind (w : List E) : (f >>= g).run w = (g (f.run w).1).run (f.run w).2 := rfl

theorem Adds.bind (hf : Adds f P) (hg : ∀ a l, P a l → Adds (g a) fun b m => Q b (l ++ m)) :
    Adds (f >>= g) Q := by
  intro w
  obtain ⟨l, hl, hp⟩ := hf w
  obtain ⟨m, hm, hq⟩ := hg _ l hp (w ++ l)
  refine ⟨l ++ m, ?_, ?_⟩
  · rw [run_bind, hl, hm, List.append_assoc]
  · rw [run_bind, hl]
    exact hq

/-- A program that only adds an event, and then another one. -/
theorem adds_emit_bind {e : E} {g : Unit → StateM (List E) β}
    (h : Adds (g ()) fun b m => Q b (e :: m)) : Adds (modify (· ++ [e]) >>= g) Q :=
  Adds.bind (P := fun _ l => l = [e]) (adds_emit rfl) fun _ _ hl => by subst hl; exact h

end PandoraRobot.Transcript
