import Mathlib.Data.List.Range
import Mathlib.Data.Nat.ModEq
import Mathlib.Logic.Function.Basic

/-! # Ring buffers

A ring buffer of `size` cells holds `n` values from the cell `out` on, and goes on in
cell 0 after the last one.  A value is put into the cell after them, and taken from
the cell `out`.

Programs move many values at a time with block copies, which end at the last cell: a copy
that would go past it is split in two.
-/

namespace PandoraRobot.RingBuffer

variable {V : Type} {pool : Nat → V} {size out n : Nat} {v : V}

/-- The values in the buffer, the oldest first. -/
def contents (pool : Nat → V) (size out n : Nat) : List V :=
  (List.range n).map fun i => pool ((out + i) % size)

@[simp] theorem contents_zero : contents pool size out 0 = [] := rfl

@[simp] theorem length_contents : (contents pool size out n).length = n := by simp [contents]

/-- The cell after `i`, as programs compute it. -/
theorem next_cell {i : Nat} (hi : i < size) :
    (if size ≤ i + 1 then 0 else i + 1) = (i + 1) % size := by
  split
  case isTrue hge =>
    have heq : i + 1 = size := by omega
    rw [heq, Nat.mod_self]
  case isFalse hlt => exact (Nat.mod_eq_of_lt (by omega)).symm

/-- Less than one turn apart, cells are different. -/
theorem cell_ne {i j : Nat} (hij : i < j) (hj : j < size) :
    (out + i) % size ≠ (out + j) % size := by
  intro heq
  have hsame : i % size = j % size := Nat.ModEq.add_left_cancel' out heq
  rw [Nat.mod_eq_of_lt (by omega), Nat.mod_eq_of_lt hj] at hsame
  omega

theorem contents_put (hn : n < size) :
    contents (Function.update pool ((out + n) % size) v) size out (n + 1) =
      contents pool size out n ++ [v] := by
  rw [contents, List.range_succ, List.map_append, List.map_singleton, Function.update_self]
  congr 1
  apply List.map_congr_left
  intro i hi
  exact Function.update_of_ne (cell_ne (List.mem_range.mp hi) hn) _ _

theorem contents_take : contents pool size out (n + 1) =
    pool (out % size) :: contents pool size ((out + 1) % size) n := by
  rw [contents, List.range_succ_eq_map, List.map_cons, List.map_map, Nat.add_zero]
  congr 1
  apply List.map_congr_left
  intro i _
  simp only [Function.comp_apply, Nat.mod_add_mod]
  congr 2
  omega

theorem contents_get {i : Nat} (hi : i < (contents pool size out n).length) :
    (contents pool size out n)[i] = pool ((out + i) % size) := by simp [contents]

theorem contents_mod : contents pool size (out % size) n = contents pool size out n := by
  simp only [contents, Nat.mod_add_mod]

theorem take_contents {k : Nat} (hk : k ≤ n) :
    (contents pool size out n).take k = contents pool size out k := by
  apply List.ext_getElem
  · simp only [List.length_take, length_contents]
    omega
  · intro i h₁ h₂
    rw [List.getElem_take, contents_get, contents_get]

theorem drop_contents {k : Nat} :
    (contents pool size out n).drop k = contents pool size (out + k) (n - k) := by
  apply List.ext_getElem
  · simp
  · intro i h₁ h₂
    rw [List.getElem_drop, contents_get, contents_get, Nat.add_assoc]

/-! ## Block copies -/

/-- The cells after a copy of `vs` to the cells from `at₀` on. -/
def store (pool : Nat → V) (at₀ : Nat) (vs : List V) : Nat → V :=
  fun i => if at₀ ≤ i then vs[i - at₀]?.getD (pool i) else pool i

/-- The values of the `k` cells from `at₀` on. -/
def load (pool : Nat → V) (at₀ k : Nat) : List V :=
  (List.range k).map fun i => pool (at₀ + i)

@[simp] theorem store_nil (at₀ : Nat) : store pool at₀ [] = pool := by
  funext i
  simp [store]

@[simp] theorem length_load (at₀ k : Nat) : (load pool at₀ k).length = k := by simp [load]

theorem store_in {vs : List V} {at₀ i : Nat} (hi : i < vs.length) :
    store pool at₀ vs (at₀ + i) = vs[i] := by
  simp [store, hi]

theorem store_out {vs : List V} {at₀ i : Nat} (hi : i < at₀ ∨ at₀ + vs.length ≤ i) :
    store pool at₀ vs i = pool i := by
  obtain hlt | hge := hi
  · simp [store, Nat.not_le.mpr hlt]
  · have hnone : vs[i - at₀]? = none := List.getElem?_eq_none (by omega)
    simp [store, hnone]

theorem store_store (pool : Nat → V) (at₀ : Nat) (vs ws : List V) :
    store (store pool at₀ vs) (at₀ + vs.length) ws = store pool at₀ (vs ++ ws) := by
  funext i
  obtain hlow | hhigh := Nat.lt_or_ge i (at₀ + vs.length)
  · rw [store_out (.inl hlow)]
    by_cases hat : at₀ ≤ i
    · simp [store, hat, List.getElem?_append_left (show i - at₀ < vs.length by omega)]
    · simp [store, hat]
  · simp [store, hhigh, show at₀ ≤ i by omega, List.getElem?_append_right,
      show vs.length ≤ i - at₀ by omega, Nat.sub_add_eq]

theorem load_store (pool : Nat → V) (at₀ : Nat) (vs : List V) :
    load (store pool at₀ vs) at₀ vs.length = vs := by
  apply List.ext_getElem
  · simp
  · intro i _ hi
    simp [load, store_in hi]

/-- The last cell is stored to again. -/
theorem store_last (pool : Nat → V) (at₀ : Nat) (vs : List V) (v v' : V) :
    store (store pool at₀ (vs ++ [v])) (at₀ + vs.length) [v'] = store pool at₀ (vs ++ [v']) := by
  rw [← store_store pool at₀ vs [v], ← store_store pool at₀ vs [v']]
  funext i
  by_cases hi : at₀ + vs.length = i
  · simp [store, ← hi]
  · have hout (pool : Nat → V) (v : V) : store pool (at₀ + vs.length) [v] i = pool i :=
      store_out (by simp only [List.length_singleton]; omega)
    rw [hout, hout, hout]

theorem take_load {at₀ k j : Nat} (hj : j ≤ k) : (load pool at₀ k).take j = load pool at₀ j := by
  apply List.ext_getElem
  · simp only [List.length_take, length_load]
    omega
  · simp [load]

theorem drop_load {at₀ k j : Nat} :
    (load pool at₀ k).drop j = load pool (at₀ + j) (k - j) := by
  apply List.ext_getElem
  · simp
  · simp [load, Nat.add_assoc]

/-- `vs` has been written to the ring of `size` cells from the cell `at₀` on. -/
structure Written (pool pool' : Nat → V) (size at₀ : Nat) (vs : List V) : Prop where
  put : ∀ i (hi : i < vs.length), pool' ((at₀ + i) % size) = vs[i]
  others : ∀ c, (∀ i < vs.length, c ≠ (at₀ + i) % size) → pool' c = pool c

theorem Written.congr {pool' : Nat → V} {vs : List V} {at₀ at₁ : Nat}
    (h : Written pool pool' size at₀ vs) (hsame : at₀ % size = at₁ % size) :
    Written pool pool' size at₁ vs := by
  have hcell (i : Nat) : (at₀ + i) % size = (at₁ + i) % size := Nat.ModEq.add_right i hsame
  constructor
  · intro i hi
    rw [← hcell, h.put i hi]
  · intro c hc
    exact h.others c fun i hi => hcell i ▸ hc i hi

theorem written_update {at₀ : Nat} (hat : at₀ < size) :
    Written pool (Function.update pool at₀ v) size at₀ [v] where
  put i hi := by
    obtain rfl : i = 0 := by simpa using hi
    simp [Nat.mod_eq_of_lt hat]
  others c hc := by
    have hne := hc 0 (by simp)
    rw [Nat.add_zero, Nat.mod_eq_of_lt hat] at hne
    exact Function.update_of_ne hne _ _

/-- A copy that ends at the last cell at the latest. -/
theorem written_store {vs : List V} {at₀ : Nat} (hfit : at₀ + vs.length ≤ size) :
    Written pool (store pool at₀ vs) size at₀ vs where
  put i hi := by
    rw [Nat.mod_eq_of_lt (by omega)]
    exact store_in hi
  others c hc := by
    apply store_out
    by_contra hin
    refine hc (c - at₀) (by omega) ?_
    rw [Nat.mod_eq_of_lt (by omega)]
    omega

/-- A copy in two parts, the second from cell 0 on. -/
theorem written_store_split {vs : List V} {at₀ : Nat} (hat : at₀ < size)
    (hlen : vs.length ≤ size) (hpast : size - at₀ ≤ vs.length) :
    Written pool (store (store pool at₀ (vs.take (size - at₀))) 0 (vs.drop (size - at₀)))
      size at₀ vs where
  put i hi := by
    obtain hlow | hhigh := Nat.lt_or_ge i (size - at₀)
    · rw [Nat.mod_eq_of_lt (by omega), store_out (by simp only [List.length_drop]; omega),
        store_in (by simp only [List.length_take]; omega), List.getElem_take]
    · have hcell : (at₀ + i) % size = 0 + (i - (size - at₀)) := by
        rw [Nat.mod_eq_sub_mod (by omega), Nat.mod_eq_of_lt (by omega)]
        omega
      rw [hcell, store_in (by simp only [List.length_drop]; omega), List.getElem_drop]
      congr 1
      omega
  others c hc := by
    have hhigh : vs.length - (size - at₀) ≤ c := by
      by_contra hlow
      refine hc (c + (size - at₀)) (by omega) ?_
      rw [Nat.mod_eq_sub_mod (by omega), Nat.mod_eq_of_lt (by omega)]
      omega
    have hend : c < at₀ ∨ size ≤ c := by
      by_contra hin
      refine hc (c - at₀) (by omega) ?_
      rw [Nat.mod_eq_of_lt (by omega)]
      omega
    rw [store_out (by simp only [List.length_drop]; omega),
      store_out (by simp only [List.length_take]; omega)]

/-- The cells after values are written one by one, from the cell `at₀` on and round the end. -/
def writeRound (pool : Nat → V) (size at₀ : Nat) : List V → Nat → V
  | [] => pool
  | v :: vs => writeRound (Function.update pool (at₀ % size) v) size (at₀ + 1) vs

/-- Values that do not go round more than once. -/
theorem written_writeRound {vs : List V} {at₀ : Nat} (hlen : vs.length ≤ size) :
    Written pool (writeRound pool size at₀ vs) size at₀ vs := by
  induction vs generalizing pool at₀ with
  | nil => exact ⟨fun i hi => absurd hi (Nat.not_lt_zero i), fun _ _ => rfl⟩
  | cons v vs ih =>
    rw [List.length_cons] at hlen
    have hrest : Written (Function.update pool (at₀ % size) v)
        (writeRound (Function.update pool (at₀ % size) v) size (at₀ + 1) vs) size (at₀ + 1) vs :=
      ih (by omega)
    constructor
    · intro i hi
      cases i with
      | zero =>
        have hne (j : Nat) (hj : j < vs.length) : (at₀ + 0) % size ≠ (at₀ + (1 + j)) % size :=
          cell_ne (by omega) (by omega)
        have hkept := hrest.others (at₀ % size) fun j hj => Nat.add_assoc at₀ 1 j ▸ hne j hj
        rw [Nat.add_zero, List.getElem_cons_zero, writeRound, hkept, Function.update_self]
      | succ i =>
        rw [List.length_cons] at hi
        rw [writeRound, List.getElem_cons_succ, ← hrest.put i (by omega)]
        congr 2
        omega
    · intro c hc
      rw [writeRound, hrest.others c fun j hj => ?_]
      · exact Function.update_of_ne (hc 0 (by simp)) _ _
      · rw [show at₀ + 1 + j = at₀ + (j + 1) by omega]
        exact hc (j + 1) (by rw [List.length_cons]; omega)

/-- Values written behind the held ones, where there is room for them. -/
theorem Written.contents {pool' : Nat → V} {vs : List V}
    (h : Written pool pool' size (out + n) vs) (hroom : n + vs.length ≤ size) :
    contents pool' size out (n + vs.length) = contents pool size out n ++ vs := by
  apply List.ext_getElem
  · simp
  · intro i h₁ h₂
    rw [length_contents] at h₁
    rw [contents_get]
    obtain hold | hnew := Nat.lt_or_ge i n
    · rw [List.getElem_append_left (by simpa using hold), contents_get]
      apply h.others
      intro j hj
      rw [Nat.add_assoc]
      exact cell_ne (by omega) (by omega)
    · rw [List.getElem_append_right (by simpa using hnew), ← h.put _ (by simp; omega)]
      congr 2
      simp only [length_contents]
      omega

/-- Values written behind the held ones drop the oldest of these where there is no room. -/
theorem Written.contents_over {pool' : Nat → V} {vs : List V}
    (h : Written pool pool' size (out + n) vs) (hlen : vs.length ≤ size)
    (hover : size ≤ n + vs.length) :
    RingBuffer.contents pool' size (out + n + vs.length) size =
      (RingBuffer.contents pool size out n ++ vs).drop (n + vs.length - size) := by
  have hsame : (out + n + vs.length) % size = (out + (n + vs.length - size)) % size := by
    rw [show out + n + vs.length = out + (n + vs.length - size) + size by omega,
      Nat.add_mod_right]
  rw [List.drop_append_of_le_length (by simp only [length_contents]; omega), drop_contents,
    ← contents_mod, hsame, contents_mod]
  have hput : Written pool pool' size
      (out + (n + vs.length - size) + (n - (n + vs.length - size))) vs := by
    rw [show out + (n + vs.length - size) + (n - (n + vs.length - size)) = out + n by omega]
    exact h
  have hall := hput.contents (by omega)
  rwa [show n - (n + vs.length - size) + vs.length = size by omega] at hall

/-- Held values that end at the last cell at the latest. -/
theorem contents_load (hfit : out + n ≤ size) : contents pool size out n = load pool out n := by
  apply List.map_congr_left
  intro i hi
  rw [List.mem_range] at hi
  rw [Nat.mod_eq_of_lt (by omega)]

/-- Held values that go on in cell 0. -/
theorem contents_load_split (hout : out < size) (hn : n ≤ size) (hpast : size - out ≤ n) :
    contents pool size out n = load pool out (size - out) ++ load pool 0 (n - (size - out)) := by
  rw [← List.take_append_drop (size - out) (contents pool size out n), take_contents hpast,
    drop_contents, contents_load (by omega), ← contents_mod,
    show out + (size - out) = size by omega, Nat.mod_self, contents_load (by omega)]

end PandoraRobot.RingBuffer
