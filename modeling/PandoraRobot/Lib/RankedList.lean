import Mathlib.Data.Fintype.Basic
import Mathlib.Data.List.Infix
import Mathlib.Data.List.Nodup
import Mathlib.Data.List.Pairwise
import Mathlib.Logic.Function.Basic
import Mathlib.Order.Basic
import Mathlib.Tactic.Common

/-! # Lists by rank

The members of a list wait, the one of the least rank in front, and among those of one rank the
one that has waited for longest.

A member that goes in front of the first one of a greater rank keeps the list in order.  The rank
of a member can change where it is as long as it fits between those of its neighbours, and only
then.
-/

namespace PandoraRobot.RankedList

variable {T α : Type} [LinearOrder α] {rank rank' : T → α} {l l' xs ys : List T} {t u : T} {r : α}

/-- No member is behind one of a greater rank. -/
def Ranked (rank : T → α) (l : List T) : Prop := l.Pairwise fun t u => rank t ≤ rank u

/-- The rank `r` is between those of the neighbours of `t`. -/
def Between (rank : T → α) (l : List T) (t : T) (r : α) : Prop :=
  ∀ u, ([u, t] <:+: l → rank u ≤ r) ∧ ([t, u] <:+: l → r ≤ rank u)

instance [Fintype T] [DecidableEq T] : Decidable (Between rank l t r) := by
  unfold Between
  infer_instance

theorem Ranked.congr (h : Ranked rank l) (hsame : ∀ t ∈ l, rank' t = rank t) :
    Ranked rank' l := by
  refine h.imp_of_mem fun ht hu hle => ?_
  rwa [hsame _ ht, hsame _ hu]

theorem ranked_around : Ranked rank (xs ++ t :: ys) ↔
    Ranked rank (xs ++ ys) ∧ (∀ x ∈ xs, rank x ≤ rank t) ∧ ∀ y ∈ ys, rank t ≤ rank y := by
  simp only [Ranked, List.pairwise_append, List.pairwise_cons, List.mem_cons, forall_eq_or_imp]
  constructor
  · rintro ⟨hxs, ⟨ht, hys⟩, hall⟩
    exact ⟨⟨hxs, hys, fun x hx => (hall x hx).2⟩, fun x hx => (hall x hx).1, ht⟩
  · rintro ⟨⟨hxs, hys, hall⟩, hle, ht⟩
    exact ⟨hxs, ⟨ht, hys⟩, fun x hx => ⟨hle x hx, hall x hx⟩⟩

/-- A new member goes in front of the first one of a greater rank. -/
theorem Ranked.insert (h : Ranked rank (xs ++ ys)) (hxs : ∀ x ∈ xs, rank x ≤ rank t)
    (hys : ∀ y ∈ ys.head?, rank t < rank y) :
    Ranked rank (xs ++ t :: ys) ∧ ∀ y ∈ ys, rank t < rank y := by
  have hall : ∀ y ∈ ys, rank t < rank y := by
    cases ys with
    | nil => simp
    | cons z ys =>
      have hz : rank t < rank z := hys z rfl
      have hrest := (List.pairwise_cons.mp (List.pairwise_append.mp h).2.1).1
      rintro y (_ | ⟨_, hy⟩)
      · exact hz
      · exact hz.trans_le (hrest y hy)
  exact ⟨ranked_around.mpr ⟨h, hxs, fun y hy => (hall y hy).le⟩, hall⟩

/-- What comes before `t` is at most as much as the neighbour, and what follows at least. -/
theorem Between.around (h : Ranked rank (xs ++ t :: ys)) (hbetween : Between rank (xs ++ t :: ys) t r) :
    (∀ x ∈ xs, rank x ≤ r) ∧ ∀ y ∈ ys, r ≤ rank y := by
  obtain ⟨hothers, -⟩ := ranked_around.mp h
  obtain ⟨hxs, hys, -⟩ := List.pairwise_append.mp hothers
  constructor
  · obtain rfl | ⟨ws, w, rfl⟩ := List.eq_nil_or_concat' xs
    · simp
    · have hw : rank w ≤ r := (hbetween w).1 ⟨ws, ys, by simp⟩
      intro x hx
      obtain hx | hx := List.mem_append.mp hx
      · exact ((List.pairwise_append.mp hxs).2.2 x hx w (by simp)).trans hw
      · obtain rfl := List.mem_singleton.mp hx
        exact hw
  · cases ys with
    | nil => simp
    | cons z ys =>
      have hz : r ≤ rank z := (hbetween z).2 ⟨xs, ys, by simp⟩
      rintro y (_ | ⟨_, hy⟩)
      · exact hz
      · exact hz.trans ((List.pairwise_cons.mp hys).1 y hy)

/-- The rank of a member changes, and the member stays where it is. -/
theorem ranked_update_iff [DecidableEq T] (hn : l.Nodup) (h : Ranked rank l) :
    Ranked (Function.update rank t r) l ↔ Between rank l t r := by
  by_cases ht : t ∈ l
  · obtain ⟨xs, ys, rfl⟩ := List.append_of_mem ht
    have hnot : t ∉ xs ∧ t ∉ ys := by
      have hmiddle := (List.nodup_middle.mp hn).notMem
      simpa using hmiddle
    have hother : ∀ u, u ≠ t → Function.update rank t r u = rank u :=
      fun u hu => Function.update_of_ne hu _ _
    have hothers : ∀ u ∈ xs ++ ys, Function.update rank t r u = rank u := by
      intro u hu
      refine hother u ?_
      rintro rfl
      simp [hnot] at hu
    constructor
    · intro hnew u
      obtain ⟨-, hle, hge⟩ := ranked_around.mp hnew
      rw [Function.update_self] at hle hge
      -- the neighbours in the list are the ones next to the only `t`
      have hsplit : ∀ as bs, as ++ t :: bs = xs ++ t :: ys → as = xs ∧ bs = ys := by
        intro as bs heq
        obtain ⟨hxs, -, hys⟩ := (List.append_cons_inj_of_notMem hnot.1 hnot.2).mp heq.symm
        exact ⟨hxs.symm, hys.symm⟩
      constructor
      · rintro ⟨as, bs, heq⟩
        obtain ⟨rfl, rfl⟩ := hsplit (as ++ [u]) bs (by simpa using heq)
        have hu := hle u (by simp)
        rwa [hothers u (by simp)] at hu
      · rintro ⟨as, bs, heq⟩
        obtain ⟨rfl, rfl⟩ := hsplit as (u :: bs) (by simpa using heq)
        have hu := hge u (by simp)
        rwa [hothers u (by simp)] at hu
    · intro hbetween
      obtain ⟨hle, hge⟩ := hbetween.around h
      have hrest := (ranked_around.mp h).1.congr hothers
      refine ranked_around.mpr ⟨hrest, fun x hx => ?_, fun y hy => ?_⟩
      · rw [hothers x (by simp [hx]), Function.update_self]
        exact hle x hx
      · rw [hothers y (by simp [hy]), Function.update_self]
        exact hge y hy
  · have hsame : ∀ u ∈ l, Function.update rank t r u = rank u := by
      intro u hu
      refine Function.update_of_ne ?_ _ _
      rintro rfl
      exact ht hu
    refine iff_of_true (h.congr hsame) fun u => ⟨fun hin => ?_, fun hin => ?_⟩
    · exact absurd (hin.subset (by simp)) ht
    · exact absurd (hin.subset (by simp)) ht

/-! ## Members of one rank -/

/-- `t` has to come before `u`: it has the lesser rank, or both have the rank that they began to
    wait with, and `t` began first. -/
def Before (rank : T → α) (since : T → Nat) (changed : T → Bool) (t u : T) : Prop :=
  rank t ≤ rank u ∧
    (rank t = rank u → changed t = false → changed u = false → since t < since u)

/-- Nobody is behind a member that has to come later. -/
def Queued (rank : T → α) (since : T → Nat) (changed : T → Bool) (l : List T) : Prop :=
  l.Pairwise (Before rank since changed)

variable {since since' : T → Nat} {changed changed' : T → Bool}

theorem Queued.ranked (h : Queued rank since changed l) : Ranked rank l :=
  h.imp fun hbefore => hbefore.1

/-- Members leave, and ranks change. -/
theorem Queued.narrow (h : Queued rank since changed l) (hsub : l'.Sublist l)
    (hranked : Ranked rank' l') (hsince : ∀ t ∈ l', since' t = since t)
    (hchanged : ∀ t ∈ l', changed' t = false → changed t = false ∧ rank' t = rank t) :
    Queued rank' since' changed' l' := by
  have hboth := hranked.and (h.sublist hsub)
  refine hboth.imp_of_mem fun ht hu hpair => ⟨hpair.1, fun heq ht' hu' => ?_⟩
  obtain ⟨hct, hrt⟩ := hchanged _ ht ht'
  obtain ⟨hcu, hru⟩ := hchanged _ hu hu'
  rw [hrt, hru] at heq
  rw [hsince _ ht, hsince _ hu]
  exact hpair.2.2 heq hct hcu

/-- A new member has waited for less than the others. -/
theorem Queued.insert (h : Queued rank since changed (xs ++ ys)) (hxs : ∀ x ∈ xs, rank x ≤ rank t)
    (hys : ∀ y ∈ ys.head?, rank t < rank y) (hsince : ∀ x ∈ xs, since x < since t) :
    Queued rank since changed (xs ++ t :: ys) := by
  obtain ⟨-, hless⟩ := h.ranked.insert hxs hys
  obtain ⟨hbefore, hafter, hall⟩ := List.pairwise_append.mp h
  refine List.pairwise_append.mpr ⟨hbefore, List.pairwise_cons.mpr ⟨fun y hy => ?_, hafter⟩, ?_⟩
  · exact ⟨(hless y hy).le, fun heq => absurd heq (hless y hy).ne⟩
  · rintro x hx y (_ | ⟨_, hy⟩)
    · exact ⟨hxs x hx, fun _ _ _ => hsince x hx⟩
    · exact hall x hx y hy

/-- The member in front comes before all others. -/
theorem Queued.front (h : Queued rank since changed (t :: l)) (hu : u ∈ t :: l) :
    rank t ≤ rank u ∧
      (u ≠ t → rank t = rank u → changed t = false → changed u = false → since t < since u) := by
  obtain _ | ⟨_, hu⟩ := hu
  · exact ⟨le_rfl, fun hne => absurd rfl hne⟩
  · obtain ⟨hle, hfirst⟩ := (List.pairwise_cons.mp h).1 u hu
    exact ⟨hle, fun _ => hfirst⟩

end PandoraRobot.RankedList
