import Mathlib.Data.List.Basic

/-! # Numerals in fields of characters

What it means that a text shows an integer in a base of at most 16: blanks, a sign, digits that
read back as the number, and blanks.
-/

namespace PandoraRobot.Numeral

/-! ## Characters -/

def blank : BitVec 8 := 0x20
def plus : BitVec 8 := 0x2b
def minus : BitVec 8 := 0x2d
def zero : BitVec 8 := 0x30

/-- The value of a digit, and 16 for what is none. -/
def digitVal (c : BitVec 8) : Nat :=
  if 0x30 ≤ c ∧ c ≤ 0x39 then c.toNat - 0x30
  else if 0x41 ≤ c ∧ c ≤ 0x46 then c.toNat - 0x37
  else if 0x61 ≤ c ∧ c ≤ 0x66 then c.toNat - 0x57
  else 16

/-- The number that digits denote, the most significant first. -/
def read (base : Nat) (digits : List (BitVec 8)) : Nat :=
  digits.foldl (fun n c => n * base + digitVal c) 0

variable {base m z b t : Nat} {value precision width : Int} {c : BitVec 8}
  {sign digits ds : List (BitVec 8)}

theorem read_append_singleton : read base (ds ++ [c]) = read base ds * base + digitVal c :=
  List.foldl_append

theorem read_zeros (k : Nat) (ds : List (BitVec 8)) :
    read base (List.replicate k zero ++ ds) = read base ds := by
  induction k with
  | zero => rfl
  | succ k ih =>
    have hzero : digitVal zero = 0 := by decide
    rw [List.replicate_succ, List.cons_append, read, List.foldl_cons, Nat.zero_mul, Nat.zero_add,
      hzero]
    exact ih

/-! ## Numerals -/

/-- The text shows the value, in at least `width` characters and with at least `precision`
    digits. -/
def Shows (base : Nat) (value precision width : Int) (text : List (BitVec 8)) : Prop :=
  ∃ (before : Nat) (sign digits : List (BitVec 8)) (behind : Nat),
    text = List.replicate before blank ++ sign ++ digits ++ List.replicate behind blank ∧
      (value < 0 → sign = [minus]) ∧ (0 ≤ value → sign = [] ∨ sign = [plus]) ∧
      digits ≠ [] ∧ (∀ c ∈ digits, digitVal c < base) ∧ read base digits = value.natAbs ∧
      precision ≤ digits.length ∧ width ≤ text.length

/-- The digits of a text. -/
def digitsOf (text : List (BitVec 8)) : List (BitVec 8) := text.filter fun c => digitVal c < 16

theorem digitsOf_append (xs ys : List (BitVec 8)) :
    digitsOf (xs ++ ys) = digitsOf xs ++ digitsOf ys := List.filter_append ..

theorem digitsOf_blanks (k : Nat) : digitsOf (List.replicate k blank) = [] := by
  rw [digitsOf, List.filter_replicate, if_neg (by decide)]

theorem digitsOf_digits (h : ∀ c ∈ ds, digitVal c < 16) : digitsOf ds = ds :=
  List.filter_eq_self.mpr fun c hc => by simpa using h c hc

/-- A field: blanks, a sign, padding, zeros, digits, and blanks. -/
def field (b : Nat) (sign : List (BitVec 8)) (c : BitVec 8) (m z : Nat) (ds : List (BitVec 8))
    (t : Nat) : List (BitVec 8) :=
  List.replicate b blank ++ sign ++ List.replicate m c ++ List.replicate z zero ++ ds ++
    List.replicate t blank

/-- The digits of a field: zeros of the padding, of the precision, and those of the number. -/
def fieldDigits (c : BitVec 8) (m z : Nat) (ds : List (BitVec 8)) : List (BitVec 8) :=
  List.replicate (if c = zero then m + z else z) zero ++ ds

/-- The characters that may stand for a sign. -/
def IsSign (value : Int) (sign : List (BitVec 8)) : Prop :=
  if value < 0 then sign = [minus] else sign = [] ∨ sign = [plus] ∨ sign = [blank]

theorem IsSign.digitsOf (h : IsSign value sign) : digitsOf sign = [] := by
  rw [IsSign] at h
  split at h
  · subst h
    decide
  · obtain rfl | rfl | rfl := h <;> decide

theorem digitsOf_field (hsign : IsSign value sign) (hc : c = blank ∨ c = zero)
    (hds : ∀ c ∈ ds, digitVal c < 16) :
    digitsOf (field b sign c m z ds t) = fieldDigits c m z ds := by
  have hzeros (k : Nat) : digitsOf (List.replicate k zero) = List.replicate k zero := by
    apply digitsOf_digits
    intro c hmem
    rw [List.eq_of_mem_replicate hmem]
    decide
  rw [field, fieldDigits]
  simp only [digitsOf_append, digitsOf_blanks, hsign.digitsOf, hzeros, digitsOf_digits hds,
    List.nil_append, List.append_nil]
  obtain rfl | rfl := hc
  · rw [digitsOf_blanks, List.nil_append, if_neg (by decide)]
  · rw [hzeros, ← List.replicate_add, if_pos rfl]

theorem field_near (h : m = 0 ∨ c = zero) : field b sign c m z ds t =
    List.replicate b blank ++ sign ++ fieldDigits c m z ds ++ List.replicate t blank := by
  rw [field, fieldDigits]
  obtain rfl | rfl := h
  · have hcount : (if c = zero then 0 + z else z) = z := by
      split
      · exact Nat.zero_add z
      · rfl
    rw [hcount, List.replicate_zero, List.append_nil, List.append_assoc _ _ ds]
  · rw [if_pos rfl, List.replicate_add]
    simp only [List.append_assoc]

theorem field_blank (k : Nat) : field b (List.replicate k blank) blank m z ds t =
    List.replicate (b + k + m) blank ++ [] ++ fieldDigits blank m z ds ++
      List.replicate t blank := by
  rw [field, fieldDigits, if_neg (by decide), List.append_nil, List.replicate_add,
    List.replicate_add]
  simp only [List.append_assoc]

/-- A visible sign is where the numeral starts. -/
theorem not_blank_behind {s : BitVec 8} {before behind : Nat} (hs : s ≠ blank)
    (hs' : digitVal s = 16) (hdigits : ∀ d ∈ digits, digitVal d < 16) (hne : digits ≠ [])
    (h : field b [s] blank (m + 1) z ds t =
      List.replicate before blank ++ [s] ++ digits ++ List.replicate behind blank) : False := by
  have hblank (k : Nat) : s ∉ List.replicate k blank := fun hmem =>
    hs (List.eq_of_mem_replicate hmem)
  obtain ⟨d, rest, rfl⟩ := List.exists_cons_of_ne_nil hne
  have hrest : s ∉ d :: (rest ++ List.replicate behind blank) := by
    rw [← List.cons_append]
    intro hmem
    obtain hmem | hmem := List.mem_append.mp hmem
    · have := hdigits s hmem
      omega
    · exact hblank _ hmem
  rw [field, List.replicate_succ] at h
  simp only [List.append_assoc, List.cons_append, List.nil_append] at h
  obtain ⟨-, -, heq⟩ := (List.append_cons_inj_of_notMem (hblank _) hrest).mp h.symm
  have hd := hdigits d List.mem_cons_self
  rw [(List.cons_eq_cons.mp heq).1] at hd
  exact absurd hd (by decide)

/-- A field shows a value exactly where its digits do, nothing stands between them and the sign,
    and it is wide enough. -/
theorem shows_field (hbase : base ≤ 16) (hsign : IsSign value sign) (hc : c = blank ∨ c = zero)
    (hds : ∀ c ∈ ds, digitVal c < 16) :
    Shows base value precision width (field b sign c m z ds t) ↔
      (sign = [minus] ∨ sign = [plus] → m = 0 ∨ c = zero) ∧
        fieldDigits c m z ds ≠ [] ∧ (∀ d ∈ fieldDigits c m z ds, digitVal d < base) ∧
        read base (fieldDigits c m z ds) = value.natAbs ∧
        precision ≤ (fieldDigits c m z ds).length ∧ width ≤ (field b sign c m z ds t).length := by
  constructor
  · rintro ⟨before, sign', digits, behind, htext, hminus, hplus, hne, hvalid, hread, hprecision,
      hwidth⟩
    -- the digits of the text are those of the numeral
    have hsign' : digitsOf sign' = [] := by
      obtain hneg | hpos := Int.lt_or_le value 0
      · rw [hminus hneg]
        decide
      · obtain rfl | rfl := hplus hpos <;> decide
    have hdigits := digitsOf_field (b := b) (m := m) (z := z) (t := t) hsign hc hds
    rw [htext, digitsOf_append, digitsOf_append, digitsOf_append, digitsOf_blanks, digitsOf_blanks,
      hsign', digitsOf_digits fun c hmem => Nat.lt_of_lt_of_le (hvalid c hmem) hbase,
      List.nil_append, List.nil_append, List.append_nil] at hdigits
    subst hdigits
    refine ⟨fun hvisible => ?_, hne, hvalid, hread, hprecision, hwidth⟩
    by_contra hnot
    rw [not_or] at hnot
    obtain ⟨m, rfl⟩ := Nat.exists_eq_succ_of_ne_zero hnot.1
    obtain rfl := hc.resolve_right hnot.2
    have hvalid' : ∀ d ∈ fieldDigits blank (m + 1) z ds, digitVal d < 16 := fun d hmem =>
      Nat.lt_of_lt_of_le (hvalid d hmem) hbase
    obtain hneg | hpos := Int.lt_or_le value 0
    · rw [IsSign, if_pos hneg] at hsign
      rw [hminus hneg, hsign] at htext
      exact not_blank_behind (by decide) (by decide) hvalid' hne htext
    · obtain rfl : sign = [plus] := by
        rw [IsSign, if_neg (Int.not_lt.mpr hpos)] at hsign
        obtain rfl | rfl | rfl := hsign
        · simp at hvisible
        · rfl
        · simp [blank, minus, plus] at hvisible
      obtain rfl | rfl := hplus hpos
      · -- the sign is not a part of a numeral without one
        have hmem : plus ∈ field b [plus] blank (m + 1) z ds t := by simp [field]
        rw [htext, List.append_nil] at hmem
        simp only [List.mem_append] at hmem
        obtain (hmem | hmem) | hmem := hmem
        · exact absurd (List.eq_of_mem_replicate hmem) (by decide)
        · exact absurd (hvalid' _ hmem) (by decide)
        · exact absurd (List.eq_of_mem_replicate hmem) (by decide)
      · exact not_blank_behind (by decide) (by decide) hvalid' hne htext
  · rintro ⟨hnear, hne, hvalid, hread, hprecision, hwidth⟩
    obtain hneg | hpos := Int.lt_or_le value 0
    · rw [IsSign, if_pos hneg] at hsign
      exact ⟨b, sign, _, t, field_near (hnear (.inl hsign)), fun _ => hsign,
        fun hpos => absurd hneg (Int.not_lt.mpr hpos), hne, hvalid, hread, hprecision, hwidth⟩
    · rw [IsSign, if_neg (Int.not_lt.mpr hpos)] at hsign
      have hshows (before : Nat) (sign' : List (BitVec 8)) (hsign' : sign' = [] ∨ sign' = [plus])
          (htext : field b sign c m z ds t = List.replicate before blank ++ sign' ++
            fieldDigits c m z ds ++ List.replicate t blank) :
          Shows base value precision width (field b sign c m z ds t) :=
        ⟨before, sign', _, t, htext, fun hneg => absurd hneg (Int.not_lt.mpr hpos),
          fun _ => hsign', hne, hvalid, hread, hprecision, hwidth⟩
      obtain rfl | rfl | rfl := hsign
      · obtain rfl | rfl := hc
        · exact hshows _ [] (.inl rfl) (field_blank 0)
        · exact hshows b [] (.inl rfl) (field_near (.inr rfl))
      · exact hshows b [plus] (.inr rfl) (field_near (hnear (.inr rfl)))
      · obtain rfl | rfl := hc
        · exact hshows _ [] (.inl rfl) (field_blank 1)
        · refine hshows (b + 1) [] (.inl rfl) ?_
          rw [field_near (.inr rfl), List.replicate_add, List.append_nil]
          rfl

end PandoraRobot.Numeral
