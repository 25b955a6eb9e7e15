import Mathlib.Data.BitVec
import Mathlib.Tactic.Positivity

/-! # A lock that its holder can take again

The lock counts how often its holder has it, in `n` bits, and does not check that the counter has
room.  A lock that is taken and released is as it was, unless the counter has wrapped to 0 before.
-/

namespace PandoraRobot.RecursiveLock

inductive Lock (n : Nat) (T : Type) where
  | free
  | held (owner : T) (count : BitVec n)
  deriving DecidableEq, Repr

namespace Lock

variable {n : Nat} {T : Type} [DecidableEq T]

/-- The lock when it has been taken; `none` where the thread has to wait for it. -/
def take (t : T) : Lock n T → Option (Lock n T)
  | free => some (held t 1)
  | held owner count => if owner = t then some (held t (count + 1)) else none

/-- The lock when the thread has it, at once or after it has waited. -/
def taken (t : T) (l : Lock n T) : Lock n T := (l.take t).getD (held t 1)

/-- The lock when the thread has released it.  `next` is the first of those that wait. -/
def release (t : T) (next : Option T) : Lock n T → Lock n T
  | free => free
  | held owner count =>
    if owner ≠ t then held owner count
    else if count - 1 ≠ 0 then held owner (count - 1)
    else next.elim free fun waiter => held waiter 1

/-- How many releases it takes until the thread has the lock no more. -/
def depth (t : T) : Lock n T → Nat
  | free => 0
  | held owner count => if owner ≠ t then 0 else if count = 0 then 2 ^ n else count.toNat

variable {t owner : T} {next : Option T} {l l' : Lock n T} {count : BitVec n}

theorem take_eq_some (h : l.take t = some l') : ∃ count, l' = held t count := by
  cases l with
  | free =>
    simp only [take, Option.some.injEq] at h
    exact ⟨1, h.symm⟩
  | held owner count =>
    simp only [take] at h
    split at h
    · simp only [Option.some.injEq] at h
      exact ⟨count + 1, h.symm⟩
    · cases h

theorem taken_free : (free : Lock n T).taken t = held t 1 := rfl

@[simp] theorem taken_held_self : (held t count).taken t = held t (count + 1) := by
  simp [taken, take]

@[simp] theorem taken_held_of_ne (h : owner ≠ t) : (held owner count).taken t = held t 1 := by
  simp [taken, take, h]

@[simp] theorem depth_free : (free : Lock n T).depth t = 0 := rfl

@[simp] theorem depth_held_of_ne (h : owner ≠ t) : (held owner count).depth t = 0 := by
  simp [depth, h]

theorem toNat_one (hn : 0 < n) : (1 : BitVec n).toNat = 1 := by
  have hlt : 1 < 2 ^ n := Nat.one_lt_two_pow (by omega)
  exact Nat.mod_eq_of_lt hlt

theorem one_ne_zero (hn : 0 < n) : (1 : BitVec n) ≠ 0 := by
  intro h
  have := congrArg BitVec.toNat h
  rw [toNat_one hn] at this
  simp at this

theorem depth_held_one (hn : 0 < n) : (held t (1 : BitVec n)).depth t = 1 := by
  rw [depth, if_neg (not_not.mpr rfl), if_neg (one_ne_zero hn), toNat_one hn]

theorem depth_pos : 0 < (held t count).depth t := by
  simp only [depth, ne_eq, not_true_eq_false, if_false]
  split
  · positivity
  · next hcount =>
    rw [Nat.pos_iff_ne_zero]
    exact fun h => hcount (BitVec.eq_of_toNat_eq h)

/-- The last release gives the lock to another thread, or to none. -/
theorem depth_release_last (hnext : next ≠ some t) :
    (next.elim free fun waiter => held waiter (1 : BitVec n)).depth t = 0 := by
  cases next with
  | none => rfl
  | some waiter => exact depth_held_of_ne fun h => hnext (h ▸ rfl)

theorem release_held_one : (held t (1 : BitVec n)).release t next =
    next.elim free fun waiter => held waiter 1 := by
  simp [release]

/-- A lock that is taken and not released. -/
theorem depth_taken_ne (hn : 0 < n) : (l.taken t).depth t ≠ l.depth t := by
  cases l with
  | free =>
    rw [taken_free, depth_held_one hn]
    exact Nat.one_ne_zero
  | held owner count =>
    by_cases howner : owner = t
    · subst howner
      rw [taken_held_self]
      simp only [depth, ne_eq, not_true_eq_false, if_false]
      have hpow : 1 < 2 ^ n := Nat.one_lt_two_pow (by omega)
      have hlt := count.isLt
      have hadd : (count + 1).toNat = (count.toNat + 1) % 2 ^ n := by
        rw [BitVec.toNat_add, toNat_one hn]
      by_cases hzero : count = 0
      · subst hzero
        have hone : (0 : BitVec n) + 1 = 1 := by simp
        rw [hone, if_neg (one_ne_zero hn), if_pos rfl, toNat_one hn]
        omega
      · rw [if_neg hzero]
        split
        · omega
        · next hne =>
          have hroom : count.toNat + 1 < 2 ^ n := by
            by_contra hfull
            have hwrap : count.toNat + 1 = 2 ^ n := by omega
            rw [hwrap, Nat.mod_self] at hadd
            exact hne (BitVec.eq_of_toNat_eq (by simpa using hadd))
          rw [hadd, Nat.mod_eq_of_lt hroom]
          omega
    · rw [taken_held_of_ne howner, depth_held_of_ne howner, depth_held_one hn]
      exact Nat.one_ne_zero

/-- A lock that is taken and released is held as often as before, unless the counter has
    wrapped. -/
theorem depth_release_taken (hnext : next ≠ some t) :
    ((l.taken t).release t next).depth t = l.depth t ↔ l ≠ held t 0 := by
  cases l with
  | free =>
    rw [taken_free, release_held_one, depth_release_last hnext]
    simp
  | held owner count =>
    by_cases howner : owner = t
    · subst howner
      rw [taken_held_self, release, if_neg (not_not.mpr rfl)]
      have hback : count + 1 - 1 = count := by simp
      rw [hback]
      by_cases hzero : count = 0
      · subst hzero
        rw [if_neg (by simp), depth_release_last hnext]
        have hpos : 0 < (held owner (0 : BitVec n)).depth owner := depth_pos
        simp only [ne_eq, not_true_eq_false, iff_false]
        omega
      · rw [if_pos hzero]
        exact iff_of_true rfl fun h => hzero (by injection h)
    · rw [taken_held_of_ne howner, release_held_one, depth_release_last hnext,
        depth_held_of_ne howner]
      simp [howner]

/-- A lock that is taken and released while nobody waits is as it was. -/
theorem release_take (h : l.take t = some l') (hwrap : l ≠ held t 0) :
    l'.release t none = l := by
  cases l with
  | free =>
    simp only [take, Option.some.injEq] at h
    subst h
    exact release_held_one
  | held owner count =>
    simp only [take] at h
    split at h
    · next howner =>
      subst howner
      simp only [Option.some.injEq] at h
      subst h
      have hcount : count ≠ 0 := fun hzero => hwrap (hzero ▸ rfl)
      have hback : count + 1 - 1 = count := by simp
      rw [release, if_neg (not_not.mpr rfl), hback, if_pos hcount]
    · cases h

/-- A counter that has not wrapped does not wrap with a release. -/
theorem release_ne_zero (h : ∀ t, l ≠ held t 0) (u : T) : l.release t none ≠ held u 0 := by
  cases l with
  | free => exact h u
  | held owner count =>
    simp only [release]
    split
    · exact h u
    · split
      · next hmore => exact fun heq => hmore (by injection heq)
      · simp

/-- Nor with a take, unless it is the one more that there is no room for. -/
theorem take_ne_zero (hn : 0 < n) (hroom : ∀ count : BitVec n, count + 1 = 0 → l ≠ held t count)
    (htake : l.take t = some l') (u : T) : l' ≠ held u 0 := by
  cases l with
  | free =>
    simp only [take, Option.some.injEq] at htake
    subst htake
    exact fun heq => one_ne_zero hn (by injection heq)
  | held owner count =>
    simp only [take] at htake
    split at htake
    · next howner =>
      simp only [Option.some.injEq] at htake
      subst htake howner
      exact fun heq => hroom count (by injection heq) rfl
    · cases htake

end Lock

end PandoraRobot.RecursiveLock
