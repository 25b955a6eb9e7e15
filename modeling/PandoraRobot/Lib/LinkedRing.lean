import Mathlib.Data.List.Nodup
import Mathlib.Logic.Function.Basic

/-! # Doubly linked rings

Each node has two links, `next` and `prev`.  `Path next prev a bs c` says that the links lead
from `a` over the nodes `bs` to `c`, and back.  A ring is a path from its head to itself over
nodes that are all different.  What the links of other nodes are does not matter.
-/

namespace PandoraRobot.LinkedRing

variable {B : Type} {next prev next' prev' : B → B} {a b c head : B} {bs xs ys : List B}

/-! ## Paths -/

def Path (next prev : B → B) : B → List B → B → Prop
  | a, [], c => next a = c ∧ prev c = a
  | a, b :: bs, c => (next a = b ∧ prev b = a) ∧ Path next prev b bs c

@[simp] theorem path_nil : Path next prev a [] c ↔ next a = c ∧ prev c = a := Iff.rfl

@[simp] theorem path_cons :
    Path next prev a (b :: bs) c ↔ (next a = b ∧ prev b = a) ∧ Path next prev b bs c := Iff.rfl

theorem path_append :
    Path next prev a (xs ++ b :: ys) c ↔ Path next prev a xs b ∧ Path next prev b ys c := by
  induction xs generalizing a with
  | nil => simp
  | cons d xs ih => simp [ih, and_assoc]

theorem Path.congr (h : Path next prev a bs c) (hnext : ∀ b ∈ a :: bs, next' b = next b)
    (hprev : ∀ b ∈ bs ++ [c], prev' b = prev b) : Path next' prev' a bs c := by
  induction bs generalizing a with
  | nil =>
    rw [path_nil, hnext a (by simp), hprev c (by simp)]
    exact h
  | cons b bs ih =>
    obtain ⟨hhead, htail⟩ := h
    refine ⟨?_, ih htail (fun d hd => hnext d (by simp_all)) fun d hd => hprev d (by simp_all)⟩
    rw [hnext a (by simp), hprev b (by simp)]
    exact hhead

/-- The first link of a path. -/
theorem Path.next_eq (h : Path next prev a bs c) : next a = bs.headD c := by
  cases bs with
  | nil => exact h.1
  | cons b bs => exact h.1.1

/-- The last link of a path. -/
theorem Path.prev_eq (h : Path next prev a bs c) : prev c = bs.getLastD a := by
  induction bs generalizing a with
  | nil => exact h.2
  | cons b bs ih =>
    rw [ih h.2]
    cases bs <;> rfl

theorem headD_member (bs : List B) (c : B) : bs.headD c = c ∨ bs.headD c ∈ bs := by
  cases bs <;> simp

theorem getLastD_member (bs : List B) (a : B) : bs.getLastD a = a ∨ bs.getLastD a ∈ bs := by
  cases bs with
  | nil => simp
  | cons b bs =>
    rw [List.getLastD_cons]
    exact .inr List.getLastD_mem_cons

/-! ## Rings -/

structure Ring (next prev : B → B) (head : B) (bs : List B) : Prop where
  path : Path next prev head bs head
  nodup : (head :: bs).Nodup

/-- No node of a ring is next to itself. -/
theorem Ring.next_ne (h : Ring next prev head (xs ++ b :: ys)) : next b ≠ b := by
  obtain ⟨hpath, hnodup⟩ := h
  rw [(path_append.mp hpath).2.next_eq]
  rw [List.nodup_cons, List.nodup_append, List.nodup_cons] at hnodup
  intro heq
  obtain hhead | hmem := headD_member ys head
  · have hb : head = b := hhead.symm.trans heq
    exact hnodup.1 (hb ▸ by simp)
  · exact hnodup.2.2.1.1 (heq ▸ hmem)

/-- Only the links of the nodes of the ring matter. -/
theorem Ring.congr (h : Ring next prev head bs) (hnext : ∀ b ∈ head :: bs, next' b = next b)
    (hprev : ∀ b ∈ head :: bs, prev' b = prev b) : Ring next' prev' head bs where
  path := h.path.congr hnext fun b hb => hprev b (by
    simp only [List.mem_append, List.mem_cons, List.not_mem_nil, or_false] at hb ⊢
    tauto)
  nodup := h.nodup

variable [DecidableEq B]

/-- A node goes right behind the head. -/
theorem Ring.push (h : Ring next prev head bs) (hb : b ∉ head :: bs) :
    Ring (Function.update (Function.update next b (next head)) head b)
      (Function.update (Function.update prev b head) (next head) b) head (b :: bs) := by
  obtain ⟨hpath, hnodup⟩ := h
  rw [List.mem_cons, not_or] at hb
  obtain ⟨hhead, hbs⟩ := hb
  -- the first node, or the head itself if there is none
  have hfirst : b ≠ next head := by
    rw [hpath.next_eq]
    rcases headD_member bs head with heq | hmem
    · rwa [heq]
    · rintro rfl
      exact hbs hmem
  refine ⟨⟨⟨by simp, ?_⟩, ?_⟩, ?_⟩
  · rw [Function.update_of_ne hfirst, Function.update_self]
  -- the back link of the first node is the one that changes
  · cases bs with
    | nil =>
      obtain ⟨hnext, -⟩ := hpath
      simp [hnext, hhead]
    | cons d bs =>
      obtain ⟨⟨hnext, -⟩, hrest⟩ := hpath
      simp only [List.nodup_cons, List.mem_cons, not_or] at hnodup hbs
      rw [hnext]
      refine ⟨⟨by simp [hhead], by simp⟩, hrest.congr ?_ ?_⟩
      · intro e he
        have hne : e ≠ head ∧ e ≠ b := by
          rw [List.mem_cons] at he
          constructor
          · rintro rfl
            tauto
          · rintro rfl
            tauto
        rw [Function.update_of_ne hne.1, Function.update_of_ne hne.2]
      · intro e he
        have hne : e ≠ d ∧ e ≠ b := by
          simp only [List.mem_append, List.mem_singleton] at he
          constructor
          · rintro rfl
            tauto
          · rintro rfl
            tauto
        rw [Function.update_of_ne hne.1, Function.update_of_ne hne.2]
  · rw [List.nodup_cons, List.nodup_cons] at *
    simp only [List.mem_cons, not_or]
    exact ⟨⟨Ne.symm hhead, hnodup.1⟩, hbs, hnodup.2⟩

/-- The gap between two paths is closed. -/
theorem Path.close (hxs : Path next prev a xs b) (hys : Path next prev b ys c)
    (hnodup : (xs ++ ys).Nodup) (ha : a ∉ xs ++ ys) (hc : c ∉ xs ++ ys) :
    Path (Function.update next (prev b) (next b)) (Function.update prev (next b) (prev b))
      a (xs ++ ys) c := by
  have hnext := hys.next_eq
  have hprev := hxs.prev_eq
  induction xs generalizing a with
  | nil =>
    obtain ⟨-, hba⟩ := hxs
    rw [hba]
    cases ys with
    | nil =>
      obtain ⟨hbc, -⟩ := hys
      simp [hbc]
    | cons e ys =>
      obtain ⟨⟨hbe, -⟩, hrest⟩ := hys
      simp only [List.nil_append, List.nodup_cons, List.mem_cons, not_or] at hnodup ha hc
      rw [hbe]
      refine ⟨⟨by simp, by simp⟩, hrest.congr ?_ ?_⟩
      · intro d hd
        apply Function.update_of_ne
        rintro rfl
        rw [List.mem_cons] at hd
        tauto
      · intro d hd
        apply Function.update_of_ne
        rintro rfl
        simp only [List.mem_append, List.mem_singleton] at hd
        tauto
  | cons d xs ih =>
    obtain ⟨⟨had, hda⟩, hrest⟩ := hxs
    rw [List.cons_append, List.nodup_cons] at hnodup
    rw [List.cons_append, List.mem_cons, not_or] at ha hc
    -- the links between `a` and `d` are not those that change
    have ha' : a ≠ prev b := by
      rw [hrest.prev_eq]
      rcases getLastD_member xs d with heq | hmem
      · rw [heq]
        exact ha.1
      · rintro heq
        exact ha.2 (heq ▸ List.mem_append_left _ hmem)
    have hd' : d ≠ next b := by
      rw [hnext]
      rcases headD_member ys c with heq | hmem
      · rw [heq]
        exact Ne.symm hc.1
      · rintro heq
        exact hnodup.1 (heq ▸ List.mem_append_right _ hmem)
    refine ⟨⟨?_, ?_⟩, ih hrest hnodup.2 hnodup.1 hc.2 hrest.prev_eq⟩
    · rw [Function.update_of_ne ha', had]
    · rw [Function.update_of_ne hd', hda]

/-- A node leaves the ring. -/
theorem Ring.remove (h : Ring next prev head (xs ++ b :: ys)) :
    Ring (Function.update next (prev b) (next b)) (Function.update prev (next b) (prev b))
      head (xs ++ ys) := by
  obtain ⟨hpath, hnodup⟩ := h
  obtain ⟨hxs, hys⟩ := path_append.mp hpath
  have hsub : (head :: (xs ++ ys)).Sublist (head :: (xs ++ b :: ys)) :=
    .cons_cons _ ((List.Sublist.refl xs).append (List.sublist_cons_self b ys))
  have hrest := hsub.nodup hnodup
  rw [List.nodup_cons] at hrest
  exact ⟨hxs.close hys hrest.2 hrest.1 hrest.1, List.nodup_cons.mpr hrest⟩

end PandoraRobot.LinkedRing
