import Mathlib.Data.BitVec

/-! # Blocks of memory

A memory has a value at each address of `w` bits.  Values are written from an address on, where the
addresses may wrap, and a block is copied from one address to another.

A copy in pieces is the copy in one piece if each piece that is read is still as it was: from the
front if the source does not end inside the destination, and from the back if the destination does
not end inside the source.
-/

namespace PandoraRobot.MemoryBlocks

variable {w : Nat} {V : Type}

/-- `n` values from `base` on. -/
def written (m : BitVec w → V) (base : BitVec w) (value : Nat → V) (n : Nat) : BitVec w → V :=
  fun a => if (a - base).toNat < n then value (a - base).toNat else m a

/-- A block of `n` values that is read, and then written. -/
def copied (m : BitVec w → V) (dst src : BitVec w) (n : Nat) : BitVec w → V :=
  written m dst (fun k => m (src + BitVec.ofNat w k)) n

variable {m : BitVec w → V} {base dst src a : BitVec w} {value value' : Nat → V} {n i j k : Nat}

@[simp] theorem written_zero : written m base value 0 = m := rfl

theorem written_congr (h : ∀ k < n, value k = value' k) :
    written m base value n = written m base value' n := by
  funext a
  unfold written
  split
  case isTrue hlt => exact h _ hlt
  case isFalse => rfl

/-- The distance from a later address. -/
theorem sub_add_toNat (hi : i ≤ 2 ^ w) :
    (a - (base + BitVec.ofNat w i)).toNat =
      if i ≤ (a - base).toNat then (a - base).toNat - i else (a - base).toNat + 2 ^ w - i := by
  have hlt := (a - base).isLt
  rw [← BitVec.sub_sub, BitVec.toNat_sub, BitVec.toNat_ofNat]
  obtain rfl | hi := Nat.eq_or_lt_of_le hi
  · rw [Nat.mod_self, Nat.sub_zero, Nat.add_mod_left, Nat.mod_eq_of_lt hlt, if_neg (by omega)]
    omega
  · rw [Nat.mod_eq_of_lt hi]
    split
    case isTrue hle =>
      have hsum : 2 ^ w - i + (a - base).toNat = 2 ^ w + ((a - base).toNat - i) := by omega
      rw [hsum, Nat.add_mod_left, Nat.mod_eq_of_lt (by omega)]
    case isFalse hgt =>
      rw [Nat.mod_eq_of_lt (by omega)]
      omega

/-- A place in a block is at its distance from the start. -/
theorem add_sub_toNat (hk : k < 2 ^ w) : (base + BitVec.ofNat w k - base).toNat = k := by
  rw [BitVec.add_comm, BitVec.add_sub_cancel, BitVec.toNat_ofNat, Nat.mod_eq_of_lt hk]

/-- One value. -/
theorem written_one : written m base value 1 = Function.update m base (value 0) := by
  funext a
  rw [written, Function.update_apply]
  by_cases ha : a = base
  · subst ha
    simp
  · have hdist : ¬ (a - base).toNat < 1 := by
      intro hlt
      have hzero : a - base = 0#w := BitVec.eq_of_toNat_eq (by simpa using Nat.lt_one_iff.mp hlt)
      exact ha (sub_eq_zero.mp hzero)
    rw [if_neg hdist, if_neg ha]

theorem copied_one : copied m dst src 1 = Function.update m dst (m src) := by
  rw [copied, written_one]
  simp

/-- Of two values written in a row, an address gets the one at its distance. -/
theorem written_behind (h : i + j ≤ 2 ^ w) :
    written m (base + BitVec.ofNat w i) (fun k => value (i + k)) j a =
      if i ≤ (a - base).toNat ∧ (a - base).toNat < i + j then value (a - base).toNat else m a := by
  have hlt := (a - base).isLt
  rw [written, sub_add_toNat (Nat.le_of_add_right_le h)]
  by_cases hle : i ≤ (a - base).toNat
  · rw [if_pos hle]
    by_cases hin : (a - base).toNat < i + j
    · rw [if_pos (by omega), if_pos ⟨hle, hin⟩, Nat.add_sub_cancel' hle]
    · rw [if_neg (by omega), if_neg fun hboth => hin hboth.2]
  · rw [if_neg hle, if_neg (by omega), if_neg fun hboth => hle hboth.1]

/-- Values are written behind values. -/
theorem written_add (h : i + j ≤ 2 ^ w) :
    written (written m base value i) (base + BitVec.ofNat w i) (fun k => value (i + k)) j =
      written m base value (i + j) := by
  funext a
  rw [written_behind h, written, written]
  by_cases hi : (a - base).toNat < i
  · rw [if_neg (by omega), if_pos hi, if_pos (by omega)]
  · simp only [Nat.le_of_not_lt hi, true_and, hi, if_false]

/-- Values are written in front of values. -/
theorem written_add_back (h : i + j ≤ 2 ^ w) :
    written (written m (base + BitVec.ofNat w i) (fun k => value (i + k)) j) base value i =
      written m base value (i + j) := by
  funext a
  rw [written, written_behind h, written]
  by_cases hi : (a - base).toNat < i
  · rw [if_pos hi, if_pos (by omega)]
  · simp only [Nat.le_of_not_lt hi, true_and, hi, if_false]

/-- A value that is read where nothing has been written. -/
theorem written_of_le (h : n ≤ (a - base).toNat) : written m base value n a = m a := by
  rw [written, if_neg (Nat.not_lt.mpr h)]

/-- A value that has been written. -/
theorem written_of_lt (hk : k < n) (hn : n ≤ 2 ^ w) :
    written m base value n (base + BitVec.ofNat w k) = value k := by
  rw [written, add_sub_toNat (Nat.lt_of_lt_of_le hk hn), if_pos hk]

/-- A place in the source that is read behind what has been written of the destination. -/
theorem sub_toNat_of_fits (h : (src - dst).toNat + n ≤ 2 ^ w) (hk : k < n) :
    (src + BitVec.ofNat w k - dst).toNat = (src - dst).toNat + k := by
  rw [add_sub_right_comm, BitVec.toNat_add, BitVec.toNat_ofNat, Nat.mod_eq_of_lt (a := k) (by omega),
    Nat.mod_eq_of_lt (by omega)]

/-- A copy from the front. -/
theorem copied_add (h : (src - dst).toNat + (i + j) ≤ 2 ^ w) :
    copied (copied m dst src i) (dst + BitVec.ofNat w i) (src + BitVec.ofNat w i) j =
      copied m dst src (i + j) := by
  have hread : ∀ k < j, copied m dst src i (src + BitVec.ofNat w i + BitVec.ofNat w k) =
      m (src + BitVec.ofNat w (i + k)) := by
    intro k hk
    rw [BitVec.add_assoc, ← BitVec.ofNat_add]
    refine written_of_le ?_
    rw [sub_toNat_of_fits h (by omega)]
    omega
  rw [copied, written_congr hread]
  exact @written_add w V m dst (fun k => m (src + BitVec.ofNat w k)) i j (by omega)

/-- A place at the front of the source is not one at the back of the destination. -/
theorem le_sub_toNat_of_fits (h : (dst - src).toNat + (i + j) ≤ 2 ^ w) (hj : 0 < j) (hk : k < i) :
    j ≤ (src + BitVec.ofNat w k - (dst + BitVec.ofNat w i)).toNat := by
  have hahead : (dst + BitVec.ofNat w i - (src + BitVec.ofNat w k)).toNat =
      (dst - src).toNat + i - k := by
    rw [sub_add_toNat (by omega), sub_toNat_of_fits h (by omega), if_pos (by omega)]
  rw [← neg_sub, BitVec.toNat_neg, hahead, Nat.mod_eq_of_lt (by omega)]
  omega

/-- A copy from the back. -/
theorem copied_add_back (h : (dst - src).toNat + (i + j) ≤ 2 ^ w) :
    copied (copied m (dst + BitVec.ofNat w i) (src + BitVec.ofNat w i) j) dst src i =
      copied m dst src (i + j) := by
  have hread : ∀ k < i, copied m (dst + BitVec.ofNat w i) (src + BitVec.ofNat w i) j
      (src + BitVec.ofNat w k) = m (src + BitVec.ofNat w k) := by
    intro k hk
    refine written_of_le ?_
    obtain hnone | hj := Nat.eq_zero_or_pos j
    · rw [hnone]
      exact Nat.zero_le _
    · exact le_sub_toNat_of_fits h hj hk
  have hbehind : copied m (dst + BitVec.ofNat w i) (src + BitVec.ofNat w i) j =
      written m (dst + BitVec.ofNat w i) (fun k => m (src + BitVec.ofNat w (i + k))) j := by
    simp only [copied, BitVec.add_assoc, ← BitVec.ofNat_add]
  rw [copied, written_congr hread, hbehind]
  exact @written_add_back w V m dst (fun k => m (src + BitVec.ofNat w k)) i j (by omega)

/-- A block filled with one value. -/
theorem filled_add {v : V} (h : i + j ≤ 2 ^ w) :
    written (written m base (fun _ => v) i) (base + BitVec.ofNat w i) (fun _ => v) j =
      written m base (fun _ => v) (i + j) :=
  @written_add w V m base (fun _ => v) i j h

/-! ## Words of bytes -/

section Words

variable {b c : Nat} {f : Nat → BitVec 8} {x y : BitVec b}

/-- A byte of a word, from the least significant one on. -/
def byteAt (x : BitVec b) (k : Nat) : BitVec 8 := x.extractLsb' (8 * k) 8

/-- Bytes, put into a word from the least significant one on. -/
def joined (b : Nat) (f : Nat → BitVec 8) : Nat → BitVec b
  | 0 => 0
  | k + 1 => joined b f k ||| (f k).setWidth b <<< (8 * k)

theorem getLsbD_joined (i : Nat) :
    (joined b f c).getLsbD i =
      (decide (i < b) && decide (i / 8 < c) && (f (i / 8)).getLsbD (i % 8)) := by
  induction c with
  | zero => simp [joined]
  | succ c ih =>
    rw [joined, BitVec.getLsbD_or, ih, BitVec.getLsbD_shiftLeft, BitVec.getLsbD_setWidth]
    obtain hlt | rfl | hgt := Nat.lt_trichotomy (i / 8) c
    · have hbelow : i < 8 * c := by omega
      simp [hlt, hbelow, Nat.lt_succ_of_lt hlt]
    · have habove : ¬ i < 8 * (i / 8) := by omega
      have hplace : i - 8 * (i / 8) = i % 8 := by omega
      by_cases hib : i < b
      · have hwidth : i - 8 * (i / 8) < b := by omega
        simp [habove, hib, hplace ▸ hwidth, hplace]
      · simp [hib]
    · have hover : 8 ≤ i - 8 * c := by omega
      have hnone : (f c).getLsbD (i - 8 * c) = false := BitVec.getLsbD_of_ge _ _ hover
      simp [hnone, Nat.not_lt_of_gt hgt, Nat.not_lt.mpr (Nat.succ_le_of_lt hgt)]

/-- The bytes of a word are those that were put into it. -/
theorem byteAt_joined {k : Nat} (hk : 8 * k + 8 ≤ b) :
    byteAt (joined b f c) k = if k < c then f k else 0 := by
  apply BitVec.eq_of_getLsbD_eq
  intro i hi
  have hplace : (8 * k + i) / 8 = k := by omega
  have hrest : (8 * k + i) % 8 = i := by omega
  have hwidth : 8 * k + i < b := by omega
  rw [byteAt, BitVec.getLsbD_extractLsb', getLsbD_joined, hplace, hrest]
  split
  case isTrue hlt => simp [hi, hwidth, hlt]
  case isFalse hge => simp [hge]

/-- A word is its bytes. -/
theorem eq_of_byteAt (h : ∀ k, 8 * k < b → byteAt x k = byteAt y k) : x = y := by
  apply BitVec.eq_of_getLsbD_eq
  intro i hi
  have hbyte := congrArg (fun byte => byte.getLsbD (i % 8)) (h (i / 8) (by omega))
  have hrest : i % 8 < 8 := by omega
  have hplace : 8 * (i / 8) + i % 8 = i := by omega
  simpa [byteAt, BitVec.getLsbD_extractLsb', hrest, hplace] using hbyte

/-- A word of `c` bytes, in a memory of bytes. -/
def loadWord (b c : Nat) (m : BitVec w → BitVec 8) (a : BitVec w) : BitVec b :=
  joined b (fun k => m (a + BitVec.ofNat w k)) c

def storeWord (c : Nat) (m : BitVec w → BitVec 8) (a : BitVec w) (x : BitVec b) :
    BitVec w → BitVec 8 :=
  written m a (byteAt x) c

variable {m m' : BitVec w → BitVec 8}

theorem joined_congr {g : Nat → BitVec 8} (h : ∀ k < c, f k = g k) :
    joined b f c = joined b g c := by
  induction c with
  | zero => rfl
  | succ c ih =>
    rw [joined, joined, ih fun k hk => h k (Nat.lt_succ_of_lt hk), h c c.lt_succ_self]

/-- A word is read from its bytes only. -/
theorem loadWord_congr (h : ∀ k < c, m (a + BitVec.ofNat w k) = m' (a + BitVec.ofNat w k)) :
    loadWord b c m a = loadWord b c m' a := joined_congr h

/-- A word that is read, and then written, is a block of its bytes. -/
theorem storeWord_loadWord (hc : 8 * c ≤ b) :
    storeWord c m dst (loadWord b c m src) = copied m dst src c := by
  refine written_congr fun k hk => ?_
  rw [loadWord, byteAt_joined (by omega), if_pos hk]

/-- A word that has been written. -/
theorem loadWord_storeWord (hb : b = 8 * c) (hc : c ≤ 2 ^ w) :
    loadWord b c (storeWord c m a x) a = x := by
  refine eq_of_byteAt fun k hk => ?_
  have hlt : k < c := by omega
  rw [loadWord, byteAt_joined (by omega), if_pos hlt]
  exact written_of_lt hlt hc

end Words

end PandoraRobot.MemoryBlocks
