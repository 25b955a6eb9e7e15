import Mathlib.Data.List.Nodup
import Mathlib.Data.List.Lemmas
import Mathlib.Logic.Function.Basic

/-! # Singly linked lists

A memory maps a node to a word, and a word may be a link: to a node, or to none.
`Linked link mem bs` says that the memory spells out the list `bs`: each of its
nodes holds a link to the next, and the last one the null link.  A program that
keeps such a list keeps `bs.head?` with it, and sometimes `bs.getLast?`.
-/

namespace PandoraRobot.Chain

variable {B W : Type} {link : Option B → W} {mem : B → W} {b l : B} {bs : List B} {w : W}

def Linked (link : Option B → W) (mem : B → W) : List B → Prop
  | [] => True
  | b :: bs => mem b = link bs.head? ∧ Linked link mem bs

@[simp] theorem linked_nil : Linked link mem [] := trivial

@[simp] theorem linked_cons :
    Linked link mem (b :: bs) ↔ mem b = link bs.head? ∧ Linked link mem bs := Iff.rfl

/-- What other nodes hold does not matter. -/
theorem Linked.congr {mem' : B → W} (h : Linked link mem bs)
    (hsame : ∀ b ∈ bs, mem' b = mem b) : Linked link mem' bs := by
  induction bs with
  | nil => trivial
  | cons b bs ih =>
    obtain ⟨hb, hbs⟩ := h
    refine ⟨?_, ih hbs fun c hc => hsame c (by simp [hc])⟩
    rw [hsame b (by simp), hb]

variable [DecidableEq B]

theorem Linked.update (h : Linked link mem bs) (hb : b ∉ bs) :
    Linked link (Function.update mem b w) bs := by
  apply h.congr
  intro c hc
  have hne : c ≠ b := by
    rintro rfl
    exact hb hc
  rw [Function.update_of_ne hne]

/-- A node goes to the front. -/
theorem Linked.push (h : Linked link mem bs) (hb : b ∉ bs) :
    Linked link (Function.update mem b (link bs.head?)) (b :: bs) :=
  ⟨by simp, h.update hb⟩

/-- A node with a null link goes to the back, after `l`. -/
theorem Linked.snoc (h : Linked link mem (bs ++ [l])) (hnodup : (bs ++ [l, b]).Nodup)
    (hb : mem b = link none) :
    Linked link (Function.update mem l (link (some b))) (bs ++ [l, b]) := by
  induction bs with
  | nil =>
    have hne : b ≠ l := by
      rintro rfl
      simp at hnodup
    simp [hne, hb]
  | cons c bs ih =>
    obtain ⟨hc, hbs⟩ := h
    have hrest := List.nodup_cons.mp hnodup
    have hne : c ≠ l := by
      rintro rfl
      simp at hrest
    refine ⟨?_, ih hbs hrest.2⟩
    rw [Function.update_of_ne hne, hc]
    cases bs <;> rfl

end PandoraRobot.Chain
