import Mathlib.Algebra.Order.BigOperators.Group.List
import Mathlib.Algebra.Order.Ring.Nat
import Mathlib.Data.List.Nodup
import Mathlib.Logic.Function.Iterate
import Mathlib.Tactic.Common

/-! # Round robin

A queue of runners, of which the first one runs.  Each has a slice of a number of ticks, and goes
to the back of the queue, with its slice filled up again, when the last tick of it is over.
-/

namespace PandoraRobot.RoundRobin

variable {T : Type} [DecidableEq T]

/-- The queue, and how many ticks each runner has left. -/
structure Rotation (T : Type) where
  queue : List T
  left : T → Nat

namespace Rotation

variable {slice : T → Nat} {s : Rotation T} {t : T} {rest : List T}

def tick (slice : T → Nat) (s : Rotation T) : Rotation T :=
  match s.queue with
  | [] => s
  | t :: rest =>
    if s.left t = 1 then
      { queue := rest ++ [t], left := Function.update s.left t (slice t) }
    else { s with left := Function.update s.left t (s.left t - 1) }

/-- No runner is in the queue twice, and each has a part of its slice left. -/
structure Valid (slice : T → Nat) (s : Rotation T) : Prop where
  nodup : s.queue.Nodup
  left_pos : ∀ t ∈ s.queue, 0 < s.left t
  left_le : ∀ t ∈ s.queue, s.left t ≤ slice t

/-! ## One tick -/

theorem tick_last (hq : s.queue = t :: rest) (h : s.left t = 1) :
    s.tick slice =
      { queue := rest ++ [t], left := Function.update s.left t (slice t) } := by
  simp only [tick, hq, if_pos h]

theorem tick_more (hq : s.queue = t :: rest) (h : s.left t ≠ 1) :
    s.tick slice = { s with left := Function.update s.left t (s.left t - 1) } := by
  simp only [tick, hq, if_neg h]

theorem tick_perm : (s.tick slice).queue.Perm s.queue := by
  cases hq : s.queue with
  | nil => simp [tick, hq]
  | cons t rest =>
    by_cases h : s.left t = 1
    · rw [tick_last hq h]
      exact List.perm_append_singleton t rest
    · rw [tick_more hq h, ← hq]

theorem Valid.tick (hv : s.Valid slice) : (s.tick slice).Valid slice := by
  cases hq : s.queue with
  | nil =>
    have hsame : s.tick slice = s := by simp [Rotation.tick, hq]
    rwa [hsame]
  | cons t rest =>
    have hmem : t ∈ s.queue := by simp [hq]
    have hpos := hv.left_pos t hmem
    have hle := hv.left_le t hmem
    have hperm : (s.tick slice).queue.Perm s.queue := tick_perm
    have hother : ∀ n, 0 < n → n ≤ slice t → ∀ u ∈ s.queue,
        0 < Function.update s.left t n u ∧ Function.update s.left t n u ≤ slice u := by
      intro n hn hn' u hu
      by_cases hut : u = t
      · subst hut
        simpa using ⟨hn, hn'⟩
      · simpa [hut] using ⟨hv.left_pos u hu, hv.left_le u hu⟩
    have hslice : ∃ n, 0 < n ∧ n ≤ slice t ∧
        (s.tick slice).left = Function.update s.left t n := by
      by_cases h : s.left t = 1
      · exact ⟨slice t, by omega, le_rfl, by rw [tick_last hq h]⟩
      · exact ⟨s.left t - 1, by omega, by omega, by rw [tick_more hq h]⟩
    obtain ⟨n, hn, hn', hleft⟩ := hslice
    refine ⟨hperm.nodup_iff.mpr hv.nodup, fun u hu => ?_, fun u hu => ?_⟩
    · rw [hleft]
      exact (hother n hn hn' u (hperm.mem_iff.mp hu)).1
    · rw [hleft]
      exact (hother n hn hn' u (hperm.mem_iff.mp hu)).2

/-! ## Turns -/

/-- The runner after `n` ticks. -/
def runner (slice : T → Nat) (s : Rotation T) (n : Nat) : Option T :=
  ((Rotation.tick slice)^[n] s).queue.head?

theorem runner_succ (n : Nat) : s.runner slice (n + 1) = (s.tick slice).runner slice n := by
  rw [runner, runner, Function.iterate_succ_apply]

theorem Valid.iterate (hv : s.Valid slice) (n : Nat) :
    ((Rotation.tick slice)^[n] s).Valid slice := by
  induction n generalizing s with
  | zero => exact hv
  | succ n ih => exact ih hv.tick

theorem iterate_perm (n : Nat) : ((Rotation.tick slice)^[n] s).queue.Perm s.queue := by
  induction n generalizing s with
  | zero => exact .refl _
  | succ n ih => exact (ih (s := s.tick slice)).trans tick_perm

/-- A turn for each runner, in the order of the queue, with what it has left, and then `n` rounds
    of turns with the whole slices. -/
def rounds (slice : T → Nat) (s : Rotation T) (n : Nat) : List T :=
  s.queue.flatMap (fun t => List.replicate (s.left t) t) ++
    (List.replicate n (s.queue.flatMap fun t => List.replicate (slice t) t)).flatten

end Rotation

/-- `as` and `bs` in turn. -/
theorem alternate_append {α : Type} (as bs : List α) (n : Nat) :
    as ++ (List.replicate n (bs ++ as)).flatten = (List.replicate n (as ++ bs)).flatten ++ as := by
  induction n with
  | zero => simp
  | succ n ih => simp only [List.replicate_succ, List.flatten_cons, List.append_assoc, ih]

namespace Rotation

variable {slice : T → Nat} {s : Rotation T} {t : T} {rest : List T}

/-- The first runner runs, and what comes then are the turns from the next tick on. -/
theorem Valid.rounds_tick (hv : s.Valid slice) (hq : s.queue = t :: rest) (n : Nat) :
    s.rounds slice n <+: t :: (s.tick slice).rounds slice n := by
  have hpos := hv.left_pos t (by simp [hq])
  have hnotin : t ∉ rest := (List.nodup_cons.mp (hq ▸ hv.nodup)).1
  -- the other runners have as much left as before
  have hrest : ∀ m, rest.flatMap (fun u => List.replicate (Function.update s.left t m u) u) =
      rest.flatMap fun u => List.replicate (s.left u) u := fun m =>
    List.flatMap_congr fun u hu => by
      rw [Function.update_of_ne (ne_of_mem_of_not_mem hu hnotin)]
  by_cases hlast : s.left t = 1
  · rw [tick_last hq hlast]
    simp only [rounds, hq, List.flatMap_cons, List.flatMap_append, List.flatMap_nil,
      List.append_nil, hrest, Function.update_self, hlast, List.append_assoc, alternate_append]
    exact ⟨List.replicate (slice t) t, by simp⟩
  · rw [tick_more hq hlast]
    obtain ⟨m, hm⟩ := Nat.exists_eq_succ_of_ne_zero hpos.ne'
    simp only [rounds, hq, List.flatMap_cons, hrest, Function.update_self, hm, Nat.succ_eq_add_one,
      Nat.add_sub_cancel, List.replicate_succ, List.cons_append]
    exact List.prefix_rfl

omit [DecidableEq T] in
theorem Valid.length_rounds (hv : s.Valid slice) (hq : s.queue = t :: rest) (n : Nat) :
    n < (s.rounds slice n).length := by
  have hpos := hv.left_pos t (by simp [hq])
  have hle := hv.left_le t (by simp [hq])
  have hround : 1 ≤ (s.queue.flatMap fun t => List.replicate (slice t) t).length := by
    simp only [hq, List.flatMap_cons, List.length_append, List.length_replicate]
    omega
  have hfirst : 1 ≤ (s.queue.flatMap fun t => List.replicate (s.left t) t).length := by
    simp only [hq, List.flatMap_cons, List.length_append, List.length_replicate]
    omega
  have hlater : n ≤ ((List.replicate n
      (s.queue.flatMap fun t => List.replicate (slice t) t)).flatten).length := by
    rw [List.length_flatten, List.map_replicate, List.sum_replicate_nat]
    exact Nat.le_mul_of_pos_right n hround
  rw [rounds, List.length_append]
  omega

/-- The runners take turns in the order of the queue, each turn after a runner's first one as
    long as its slice. -/
theorem Valid.turns (hv : s.Valid slice) (hne : s.queue ≠ []) {n m : Nat} (hn : n ≤ m) :
    (List.range n).map (s.runner slice) <+: (s.rounds slice m).map some := by
  induction n generalizing s with
  | zero => simp
  | succ n ih =>
    obtain ⟨t, rest, hq⟩ := List.exists_cons_of_ne_nil hne
    have hne' : (s.tick slice).queue ≠ [] := fun hnil => by
      have hperm : (s.tick slice).queue.Perm s.queue := tick_perm
      have hlength := hperm.length_eq
      simp [hnil, hq] at hlength
    have hhead : s.runner slice 0 = some t := by simp [runner, hq]
    have hsucc : (s.runner slice ∘ Nat.succ) = (s.tick slice).runner slice :=
      funext fun i => runner_succ i
    have hlater := ih hv.tick hne' (by omega)
    rw [List.range_succ_eq_map, List.map_cons, List.map_map, hhead, hsucc]
    refine List.prefix_of_prefix_length_le ((List.prefix_cons_inj (some t)).mpr hlater)
      ((hv.rounds_tick hq m).map some) ?_
    have hlength := hv.length_rounds hq m
    simp only [List.length_cons, List.length_map, List.length_range]
    omega

/-! ## Waiting -/

/-- After its turn the first runner is at the back, and the others have what they had. -/
theorem iterate_turn (hq : s.queue = t :: rest) {n : Nat} (hn : s.left t = n + 1) :
    (Rotation.tick slice)^[n + 1] s =
      { queue := rest ++ [t], left := Function.update s.left t (slice t) } := by
  induction n generalizing s with
  | zero => exact tick_last hq hn
  | succ n ih =>
    have hmore : s.tick slice = { s with left := Function.update s.left t (s.left t - 1) } :=
      tick_more hq (by omega)
    have hlater := ih (s := { s with left := Function.update s.left t (s.left t - 1) }) hq
      (by simp [hn])
    rw [Function.iterate_succ_apply, hmore, hlater]
    simp

/-- A runner's turn comes when those before it have used up what they have left. -/
theorem Valid.runner_sum (hv : s.Valid slice) {before behind : List T}
    (hq : s.queue = before ++ t :: behind) :
    s.runner slice (before.map s.left).sum = some t := by
  induction before generalizing s behind with
  | nil => simp [runner, hq]
  | cons u before ih =>
    have hq' : s.queue = u :: (before ++ t :: behind) := hq
    have hnodup := hv.nodup
    have hpos := hv.left_pos u (by simp [hq'])
    obtain ⟨n, hn⟩ := Nat.exists_eq_succ_of_ne_zero hpos.ne'
    have hturn : (Rotation.tick slice)^[n + 1] s = _ := iterate_turn hq' hn
    have hv' := hv.iterate (n + 1)
    rw [hturn] at hv'
    have hu : u ∉ before := by
      rw [hq', List.nodup_cons] at hnodup
      exact fun hmem => hnodup.1 (by simp [hmem])
    have hsum : (before.map s.left).sum =
        (before.map (Function.update s.left u (slice u))).sum := by
      congr 1
      exact List.map_congr_left fun x hx => by
        rw [Function.update_of_ne (ne_of_mem_of_not_mem hx hu)]
    have hqueue : (before ++ t :: behind) ++ [u] = before ++ t :: (behind ++ [u]) := by simp
    have hlater := ih hv' hqueue
    rw [List.map_cons, List.sum_cons, hn, Nat.succ_eq_add_one, Nat.add_comm, runner,
      Function.iterate_add_apply, hturn, hsum]
    exact hlater

/-- At any time, a runner waits no longer than the slices of the others together. -/
theorem Valid.waits (hv : s.Valid slice) (ht : t ∈ s.queue) (n : Nat) :
    ∃ j ≤ ((s.queue.erase t).map slice).sum, s.runner slice (n + j) = some t := by
  have hperm : ((Rotation.tick slice)^[n] s).queue.Perm s.queue := iterate_perm n
  have hv' := hv.iterate n
  obtain ⟨before, behind, hq⟩ := List.append_of_mem (hperm.mem_iff.mpr ht)
  have hnotin : t ∉ before := by
    have hnodup := hv'.nodup
    rw [hq, List.nodup_append] at hnodup
    exact fun hmem => hnodup.2.2 t hmem t (by simp) rfl
  refine ⟨(before.map ((Rotation.tick slice)^[n] s).left).sum, ?_, ?_⟩
  · have hothers : ((s.queue.erase t).map slice).sum =
        ((before ++ behind).map slice).sum := by
      have herase := (hperm.erase t).map slice
      rw [hq, List.erase_append_right _ hnotin, List.erase_cons_head] at herase
      exact herase.sum_eq.symm
    have hle : (before.map ((Rotation.tick slice)^[n] s).left).sum ≤ (before.map slice).sum :=
      List.sum_le_sum fun x hx => hv'.left_le x (by rw [hq]; simp [hx])
    rw [hothers, List.map_append, List.sum_append]
    omega
  · have hrun := hv'.runner_sum hq
    rwa [runner, ← Function.iterate_add_apply, Nat.add_comm] at hrun

/-! ## What is promised -/

/-- The runners of `queue` take turns: `ran` is who runs from one tick to the next, and `first`
    how long the first turn of each lasts. -/
structure TakesTurns (queue : List T) (first slice : T → Nat) (ran : List (Option T)) : Prop where
  first_le : ∀ t ∈ queue, 0 < first t ∧ first t ≤ slice t
  turns : ran <+: (rounds slice { queue, left := first } ran.length).map some
  waits : ∀ t ∈ queue, ∀ n, n + ((queue.erase t).map slice).sum < ran.length →
    ∃ j ≤ ((queue.erase t).map slice).sum, ran[n + j]? = some (some t)

theorem Valid.takesTurns (hv : s.Valid slice) (hne : s.queue ≠ []) (n : Nat) :
    TakesTurns s.queue s.left slice ((List.range n).map (s.runner slice)) where
  first_le t ht := ⟨hv.left_pos t ht, hv.left_le t ht⟩
  turns := by
    have hturns := hv.turns hne (le_refl n)
    simpa only [List.length_map, List.length_range] using hturns
  waits t ht i hi := by
    obtain ⟨j, hj, hrun⟩ := hv.waits ht i
    simp only [List.length_map, List.length_range] at hi
    exact ⟨j, hj, by simp [List.getElem?_range (show i + j < n by omega), hrun]⟩

end Rotation

end PandoraRobot.RoundRobin
