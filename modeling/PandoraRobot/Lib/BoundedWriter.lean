import PandoraRobot.Lib.RingBuffer

/-! # Writing up to a limit

A writer puts values one after the other.  Each goes to a pointer of `n` bits that then moves on;
what would come at the limit or behind it is only counted.

The pointer wraps.  A writer that goes on for that long starts over at address 0, before the limit.
-/

namespace PandoraRobot.BoundedWriter

open PandoraRobot.RingBuffer

variable {V : Type} {n : Nat}

/-- Where the next value goes, and the stores so far. -/
structure Writer (n : Nat) (V : Type) where
  ptr : BitVec n
  stores : List (BitVec n × V)
  deriving DecidableEq, Repr

variable {limit ptr : BitVec n} {v : V} {us vs : List V} {writer : Writer n V} {mem : Nat → V}

def put (limit : BitVec n) (v : V) (writer : Writer n V) : Writer n V where
  ptr := writer.ptr + 1#n
  stores := if writer.ptr < limit then writer.stores ++ [(writer.ptr, v)] else writer.stores

/-- The stores that putting values in a row makes. -/
def guarded (limit : BitVec n) : BitVec n → List V → List (BitVec n × V)
  | _, [] => []
  | ptr, v :: vs => (if ptr < limit then [(ptr, v)] else []) ++ guarded limit (ptr + 1#n) vs

/-- Stores at consecutive addresses. -/
def row : BitVec n → List V → List (BitVec n × V)
  | _, [] => []
  | ptr, v :: vs => (ptr, v) :: row (ptr + 1#n) vs

theorem guarded_append (limit ptr : BitVec n) (us vs : List V) :
    guarded limit ptr (us ++ vs) =
      guarded limit ptr us ++ guarded limit (ptr + BitVec.ofNat n us.length) vs := by
  induction us generalizing ptr with
  | nil => simp [guarded]
  | cons u us ih =>
    rw [List.cons_append, guarded, ih, guarded, List.append_assoc, List.length_cons,
      BitVec.add_assoc, ← BitVec.ofNat_add, Nat.add_comm 1]

/-- What a writer is after values in a row. -/
def written (limit : BitVec n) (writer : Writer n V) (vs : List V) : Writer n V where
  ptr := writer.ptr + BitVec.ofNat n vs.length
  stores := writer.stores ++ guarded limit writer.ptr vs

@[simp] theorem written_nil : written limit writer [] = writer := by
  simp [written, guarded]

theorem put_written : put limit v (written limit writer vs) = written limit writer (vs ++ [v]) := by
  simp only [put, written, guarded_append, guarded, List.length_append, List.length_singleton,
    BitVec.ofNat_add, BitVec.add_assoc, Writer.mk.injEq, true_and]
  by_cases hlt : writer.ptr + BitVec.ofNat n vs.length < limit <;> simp [hlt]

/-- Nothing is stored at the limit or behind it. -/
theorem lt_limit_of_mem {store : BitVec n × V} (h : store ∈ guarded limit ptr vs) :
    store.1 < limit := by
  induction vs generalizing ptr with
  | nil => exact absurd h List.not_mem_nil
  | cons v vs ih =>
    obtain hfirst | hrest := List.mem_append.mp h
    · split at hfirst
      · next hlt =>
        rw [List.mem_singleton.mp hfirst]
        exact hlt
      · exact absurd hfirst List.not_mem_nil
    · exact ih hrest

theorem toNat_add_one (h : ptr.toNat + 1 < 2 ^ n) : (ptr + 1#n).toNat = ptr.toNat + 1 := by
  rw [BitVec.toNat_add, BitVec.toNat_ofNat, Nat.add_mod_mod, Nat.mod_eq_of_lt h]

/-- A pointer that does not wrap: the values up to the limit are stored in a row. -/
theorem guarded_eq_row (h : ptr.toNat + vs.length ≤ 2 ^ n) :
    guarded limit ptr vs = row ptr (vs.take (limit.toNat - ptr.toNat)) := by
  induction vs generalizing ptr with
  | nil => simp [guarded, row]
  | cons v vs ih =>
    rw [List.length_cons] at h
    cases vs with
    | nil =>
      by_cases hlt : ptr < limit
      · obtain ⟨k, hk⟩ : ∃ k, limit.toNat - ptr.toNat = k + 1 :=
          ⟨limit.toNat - ptr.toNat - 1, by rw [BitVec.lt_def] at hlt; omega⟩
        simp [guarded, hlt, hk, row]
      · have hk : limit.toNat - ptr.toNat = 0 := by
          rw [BitVec.lt_def] at hlt
          omega
        simp [guarded, hlt, hk, row]
    | cons v' vs =>
      rw [List.length_cons] at h
      have hnext : (ptr + 1#n).toNat = ptr.toNat + 1 := toNat_add_one (by omega)
      rw [guarded, ih (by rw [hnext, List.length_cons]; omega), hnext]
      by_cases hlt : ptr < limit
      · obtain ⟨k, hk⟩ : ∃ k, limit.toNat - ptr.toNat = k + 1 :=
          ⟨limit.toNat - ptr.toNat - 1, by rw [BitVec.lt_def] at hlt; omega⟩
        rw [if_pos hlt, hk, List.take_succ_cons, row, show limit.toNat - (ptr.toNat + 1) = k by omega]
        rfl
      · have hk : limit.toNat - ptr.toNat = 0 := by
          rw [BitVec.lt_def] at hlt
          omega
        rw [if_neg hlt, hk, show limit.toNat - (ptr.toNat + 1) = 0 by omega]
        rfl

theorem mem_row {store : BitVec n × V} (hmem : store ∈ row ptr vs)
    (h : ptr.toNat + vs.length ≤ 2 ^ n) :
    ptr.toNat ≤ store.1.toNat ∧ store.1.toNat < ptr.toNat + vs.length := by
  induction vs generalizing ptr with
  | nil => exact absurd hmem List.not_mem_nil
  | cons v vs ih =>
    rw [List.length_cons] at h ⊢
    obtain rfl | hmem := List.mem_cons.mp hmem
    · exact ⟨Nat.le_refl _, by simp only; omega⟩
    · cases vs with
      | nil => exact absurd hmem List.not_mem_nil
      | cons v' vs =>
        rw [List.length_cons] at h
        have hnext : (ptr + 1#n).toNat = ptr.toNat + 1 := toNat_add_one (by omega)
        have hrest := ih hmem (by rw [hnext, List.length_cons]; omega)
        rw [hnext] at hrest
        omega

/-- A pointer that wraps: something is stored at address 0. -/
theorem exists_store_zero (h : 2 ^ n < ptr.toNat + vs.length) (hlimit : 0 < limit) :
    ∃ v, (0, v) ∈ guarded limit ptr vs := by
  have hptr := ptr.isLt
  obtain ⟨v, rest, hdrop⟩ : ∃ v rest, vs.drop (2 ^ n - ptr.toNat) = v :: rest := by
    cases hdrop : vs.drop (2 ^ n - ptr.toNat) with
    | nil =>
      rw [List.drop_eq_nil_iff] at hdrop
      omega
    | cons v rest => exact ⟨v, rest, rfl⟩
  refine ⟨v, ?_⟩
  have hzero : ptr + BitVec.ofNat n (2 ^ n - ptr.toNat) = 0 := by
    apply BitVec.eq_of_toNat_eq
    rw [BitVec.toNat_add, BitVec.toNat_ofNat, Nat.add_mod_mod,
      show ptr.toNat + (2 ^ n - ptr.toNat) = 2 ^ n by omega]
    simp
  have hlength : (vs.take (2 ^ n - ptr.toNat)).length = 2 ^ n - ptr.toNat := by
    rw [List.length_take]
    omega
  rw [← List.take_append_drop (2 ^ n - ptr.toNat) vs, guarded_append, hlength, hzero, hdrop, guarded,
    if_pos hlimit]
  simp

/-! ## The memory -/

/-- The memory after stores. -/
def after (mem : Nat → V) (stores : List (BitVec n × V)) : Nat → V :=
  stores.foldl (fun mem store => RingBuffer.store mem store.1.toNat [store.2]) mem

theorem after_append (mem : Nat → V) (stores stores' : List (BitVec n × V)) :
    after mem (stores ++ stores') = after (after mem stores) stores' :=
  List.foldl_append ..

theorem after_row (h : ptr.toNat + vs.length ≤ 2 ^ n) :
    after mem (row ptr vs) = store mem ptr.toNat vs := by
  induction vs generalizing ptr mem with
  | nil => simp [after, row]
  | cons v vs ih =>
    rw [List.length_cons] at h
    cases vs with
    | nil => rfl
    | cons v' vs =>
      rw [List.length_cons] at h
      have hnext : (ptr + 1#n).toNat = ptr.toNat + 1 := toNat_add_one (by omega)
      have hrest : after (store mem ptr.toNat [v]) (row (ptr + 1#n) (v' :: vs)) =
          store (store mem ptr.toNat [v]) (ptr + 1#n).toNat (v' :: vs) :=
        ih (by rw [hnext, List.length_cons]; omega)
      rw [hnext] at hrest
      have hstore := store_store mem ptr.toNat [v] (v' :: vs)
      exact hrest.trans hstore

/-- Memory where nothing is stored stays. -/
theorem after_of_not_mem {stores : List (BitVec n × V)} {i : Nat}
    (h : ∀ store ∈ stores, store.1.toNat ≠ i) : after mem stores i = mem i := by
  induction stores generalizing mem with
  | nil => rfl
  | cons store stores ih =>
    have hne := h store List.mem_cons_self
    refine (ih fun store' hmem => h store' (List.mem_cons_of_mem _ hmem)).trans ?_
    refine store_out ?_
    simp only [List.length_singleton]
    omega

/-- The values before the limit are in the memory, even where the pointer wraps, as long as it does
    not come back to them. -/
theorem load_after_guarded {k : Nat} (h : vs.length ≤ 2 ^ n) (hk : k ≤ vs.length)
    (hlimit : ptr.toNat + k ≤ limit.toNat) :
    load (after mem (guarded limit ptr vs)) ptr.toNat k = vs.take k := by
  have hptr := ptr.isLt
  have hlimit_lt := limit.isLt
  -- up to the end of the addresses, and from address 0 on
  obtain ⟨us, ws, rfl, hus, hws⟩ : ∃ us ws, vs = us ++ ws ∧ ptr.toNat + us.length ≤ 2 ^ n ∧
      (ws ≠ [] → ptr.toNat + us.length = 2 ^ n) := by
    refine ⟨vs.take (2 ^ n - ptr.toNat), vs.drop (2 ^ n - ptr.toNat),
      (List.take_append_drop _ _).symm, ?_, fun hne => ?_⟩
    · rw [List.length_take]
      omega
    · have hlong : 2 ^ n - ptr.toNat < vs.length := by
        by_contra hshort
        exact hne (List.drop_eq_nil_of_le (by omega))
      rw [List.length_take]
      omega
  rw [List.length_append] at h hk
  have hkeep (i : Nat) (hi : i < k) :
      after mem (guarded limit ptr (us ++ ws)) (ptr.toNat + i) =
        after mem (guarded limit ptr us) (ptr.toNat + i) := by
    rw [guarded_append, after_append]
    by_cases hnil : ws = []
    · rw [hnil]
      rfl
    · have hfull := hws hnil
      have hzero : ptr + BitVec.ofNat n us.length = 0 := by
        apply BitVec.eq_of_toNat_eq
        rw [BitVec.toNat_add, BitVec.toNat_ofNat, Nat.add_mod_mod, hfull]
        simp
      rw [hzero]
      apply after_of_not_mem
      intro store hmem
      have hstart : (0 : BitVec n).toNat = 0 := by simp
      rw [guarded_eq_row (by rw [hstart]; omega)] at hmem
      have hbounds := mem_row hmem (by rw [hstart, List.length_take]; omega)
      rw [hstart, List.length_take] at hbounds
      omega
  have hk' : k ≤ us.length := by
    by_cases hnil : ws = []
    · rw [hnil, List.length_nil] at hk
      omega
    · have := hws hnil
      omega
  have hrow : guarded limit ptr us = row ptr (us.take (limit.toNat - ptr.toNat)) :=
    guarded_eq_row hus
  apply List.ext_getElem
  · rw [length_load, List.length_take, List.length_append]
    omega
  · intro i hi _
    rw [length_load] at hi
    have hlength : i < (us.take (limit.toNat - ptr.toNat)).length := by
      rw [List.length_take]
      omega
    have hfits : ptr.toNat + (us.take (limit.toNat - ptr.toNat)).length ≤ 2 ^ n := by
      rw [List.length_take]
      omega
    simp only [load, List.getElem_map, List.getElem_range, List.getElem_take]
    rw [hkeep i hi, hrow, after_row hfits, store_in hlength, List.getElem_take,
      List.getElem_append_left]

end PandoraRobot.BoundedWriter
