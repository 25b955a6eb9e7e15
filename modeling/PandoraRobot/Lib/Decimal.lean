import Mathlib.Algebra.Field.Rat
import Mathlib.Data.Nat.Digits.Defs
import Mathlib.Tactic.FieldSimp
import Mathlib.Tactic.Ring

/-! # Numbers written with decimal digits

Literals for rationals and for integers, the characters they are written with, and the
numbers they denote.  `Literal.read` reads a literal out of any string, and gives back the
literal that the string was written from.
-/

namespace PandoraRobot.Decimal

/-! ## Digits -/

def charOf (d : Fin 10) : Char := Nat.digitChar d

/-- The digit a character is. -/
def digitOf (c : Char) : Option (Fin 10) :=
  if h : '0'.toNat ≤ c.toNat ∧ c.toNat < '0'.toNat + 10 then
    some ⟨c.toNat - '0'.toNat, by omega⟩
  else none

@[simp] theorem digitOf_charOf (d : Fin 10) : digitOf (charOf d) = some d := by
  revert d
  decide

theorem charOf_ne_point (d : Fin 10) : charOf d ≠ '.' := by
  revert d
  decide

theorem charOf_ne_minus (d : Fin 10) : charOf d ≠ '-' := by
  revert d
  decide

theorem charOf_ne_plus (d : Fin 10) : charOf d ≠ '+' := by
  revert d
  decide

theorem digitOf_eq_some {c : Char} {d : Fin 10} (h : digitOf c = some d) :
    c.toNat = '0'.toNat + d := by
  unfold digitOf at h
  split at h
  · next hrange =>
    simp only [Option.some.injEq] at h
    subst h
    show c.toNat = '0'.toNat + (c.toNat - '0'.toNat)
    omega
  · exact absurd h (by simp)

theorem charOf_of_digitOf {c : Char} {d : Fin 10} (h : digitOf c = some d) :
    charOf d = c := by
  have hchar : ∀ d : Fin 10, charOf d = Char.ofNat ('0'.toNat + d) := by decide
  rw [hchar d, ← digitOf_eq_some h, Char.ofNat_toNat]

theorem digitOf_isSome {c : Char} :
    (digitOf c).isSome ↔ '0'.toNat ≤ c.toNat ∧ c.toNat < '0'.toNat + 10 := by
  unfold digitOf
  split
  · next hrange => exact iff_of_true rfl hrange
  · next hrange => exact iff_of_false (by simp) hrange

/-- The digits of a string, whatever stands between them. -/
def digitsOf (s : List Char) : List (Fin 10) := s.filterMap digitOf

@[simp] theorem digitsOf_map_charOf (ds : List (Fin 10)) : digitsOf (ds.map charOf) = ds := by
  induction ds with
  | nil => rfl
  | cons d ds ih =>
    rw [digitsOf] at ih
    simp [digitsOf]

@[simp] theorem digitsOf_point (s : List Char) : digitsOf ('.' :: s) = digitsOf s := rfl

/-- The number that digits stand for, the most significant first. -/
def natural (ds : List (Fin 10)) : ℕ := Nat.ofDigits 10 (ds.reverse.map Fin.val)

/-- What the digits behind a point stand for. -/
def fractional (ds : List (Fin 10)) : ℚ := Nat.ofDigits (10⁻¹ : ℚ) (0 :: ds.map Fin.val)

@[simp] theorem natural_nil : natural [] = 0 := rfl

@[simp] theorem fractional_nil : fractional [] = 0 := by simp [fractional, Nat.ofDigits]

theorem natural_cons (d : Fin 10) (ds : List (Fin 10)) :
    natural (d :: ds) = d * 10 ^ ds.length + natural ds := by
  simp only [natural, List.map_reverse, List.map_cons, Nat.ofDigits_reverse_cons,
    List.length_map]
  ring

theorem fractional_cons (d : Fin 10) (ds : List (Fin 10)) :
    fractional (d :: ds) = (d + fractional ds) / 10 := by
  simp only [fractional, List.map_cons, Nat.ofDigits, Nat.cast_zero]
  ring

/-! ## Rationals -/

/-- `-?D*(.D*)?` -/
structure Literal where
  negative : Bool
  whole : List (Fin 10)
  fraction : Option (List (Fin 10))
  deriving DecidableEq, Repr

namespace Literal

/-- What stands behind the sign. -/
def unsigned (l : Literal) : List Char :=
  l.whole.map charOf ++ (l.fraction.map fun ds => '.' :: ds.map charOf).getD []

def text (l : Literal) : List Char := if l.negative then '-' :: l.unsigned else l.unsigned

def value (l : Literal) : ℚ :=
  (if l.negative then -1 else 1) * (natural l.whole + fractional (l.fraction.getD []))

/-- A number has at least one digit. -/
def HasDigit (l : Literal) : Prop := l.whole ≠ [] ∨ l.fraction.getD [] ≠ []

instance (l : Literal) : Decidable l.HasDigit := inferInstanceAs (Decidable (_ ∨ _))

/-- A string without its leading `-`. -/
def body : List Char → List Char
  | '-' :: s => s
  | s => s

/-- The literal left of a string when all but the leading `-`, the digits and the first point
    are dropped. -/
def read (s : List Char) : Literal where
  negative := s.head? = some '-'
  whole := digitsOf ((body s).takeWhile (· ≠ '.'))
  fraction :=
    if '.' ∈ body s then some (digitsOf ((body s).dropWhile (· ≠ '.'))) else none

variable {l : Literal}

theorem unsigned_ne_minus {c : Char} (h : c ∈ l.unsigned) : c ≠ '-' := by
  rw [unsigned, List.mem_append, List.mem_map] at h
  rcases h with ⟨d, -, rfl⟩ | hfraction
  · exact charOf_ne_minus d
  · cases hf : l.fraction with
    | none => simp [hf] at hfraction
    | some ds =>
      simp only [hf, Option.map_some, Option.getD_some, List.mem_cons, List.mem_map] at hfraction
      rcases hfraction with rfl | ⟨d, -, rfl⟩
      · decide
      · exact charOf_ne_minus d

theorem body_of_ne {s : List Char} (h : ∀ c ∈ s, c ≠ '-') : body s = s := by
  unfold body
  split
  · next s => exact absurd rfl (h '-' List.mem_cons_self)
  · rfl

@[simp] theorem body_text : body l.text = l.unsigned := by
  unfold text
  split
  · rfl
  · exact body_of_ne fun _ => unsigned_ne_minus

theorem head?_text : l.text.head? = some '-' ↔ l.negative = true := by
  unfold text
  split
  · next h => simp [h]
  · next h =>
    refine iff_of_false (fun hhead => ?_) h
    exact unsigned_ne_minus (List.mem_of_head? hhead) rfl

theorem takeWhile_whole (ds : List (Fin 10)) (s : List Char) :
    (ds.map charOf ++ s).takeWhile (· ≠ '.') =
      ds.map charOf ++ s.takeWhile (· ≠ '.') :=
  List.takeWhile_append_of_pos fun c hc => by
    obtain ⟨d, -, rfl⟩ := List.mem_map.mp hc
    simpa using charOf_ne_point d

theorem dropWhile_whole (ds : List (Fin 10)) (s : List Char) :
    (ds.map charOf ++ s).dropWhile (· ≠ '.') = s.dropWhile (· ≠ '.') :=
  List.dropWhile_append_of_pos fun c hc => by
    obtain ⟨d, -, rfl⟩ := List.mem_map.mp hc
    simpa using charOf_ne_point d

/-- What is behind the first point begins with it. -/
theorem dropWhile_point {s : List Char} (h : '.' ∈ s) :
    ∃ rest, s.dropWhile (· ≠ '.') = '.' :: rest := by
  induction s with
  | nil => simp at h
  | cons c s ih =>
    by_cases hc : c = '.'
    · exact ⟨s, by simp [hc]⟩
    · obtain ⟨rest, hrest⟩ := ih ((List.mem_cons.mp h).resolve_left (Ne.symm hc))
      exact ⟨rest, by simpa [hc] using hrest⟩

theorem point_not_mem (ds : List (Fin 10)) : '.' ∉ ds.map charOf := by
  intro h
  obtain ⟨d, -, hd⟩ := List.mem_map.mp h
  exact charOf_ne_point d hd

/-- Reading is the inverse of writing. -/
@[simp] theorem read_text : read l.text = l := by
  obtain ⟨negative, whole, fraction⟩ := l
  have hnegative : decide ((text ⟨negative, whole, fraction⟩).head? = some '-') = negative := by
    rw [decide_eq_decide.mpr head?_text]
    exact Bool.decide_coe negative
  rw [read, hnegative, body_text]
  cases fraction with
  | none =>
    have htake := takeWhile_whole whole []
    rw [List.append_nil, List.takeWhile_nil, List.append_nil] at htake
    have hbody : unsigned ⟨negative, whole, none⟩ = whole.map charOf := by simp [unsigned]
    rw [hbody, htake, if_neg (point_not_mem whole), digitsOf_map_charOf]
  | some ds =>
    have hbody : unsigned ⟨negative, whole, some ds⟩ =
        whole.map charOf ++ '.' :: ds.map charOf := rfl
    rw [hbody, takeWhile_whole, dropWhile_whole, if_pos (by simp)]
    simp

end Literal

/-! ## Integers -/

inductive Sign where
  | plus
  | minus
  deriving DecidableEq, Repr

def Sign.char : Sign → Char
  | .plus => '+'
  | .minus => '-'

/-- `[+-]?D*` -/
structure Integer where
  sign : Option Sign
  digits : List (Fin 10)
  deriving DecidableEq, Repr

namespace Integer

def text (n : Integer) : List Char := n.sign.toList.map Sign.char ++ n.digits.map charOf

def value (n : Integer) : ℤ :=
  (if n.sign = some .minus then -1 else 1) * natural n.digits

/-- The string begins with the literal, and goes on with what is no part of it. -/
def Leads (n : Integer) (s : List Char) : Prop :=
  ∃ rest, s = n.text ++ rest ∧ (∀ c ∈ rest.head?, digitOf c = none) ∧
    (n.text = [] → ∀ c ∈ rest.head?, c ≠ '+' ∧ c ≠ '-')

variable {n : Integer} {s : List Char}

theorem exists_digits (s : List Char) :
    ∃ ds rest, s = List.map charOf ds ++ rest ∧ ∀ c ∈ rest.head?, digitOf c = none := by
  induction s with
  | nil => exact ⟨[], [], rfl, by simp⟩
  | cons c s ih =>
    cases hc : digitOf c with
    | none => exact ⟨[], c :: s, rfl, by simp [hc]⟩
    | some d =>
      obtain ⟨ds, rest, rfl, hrest⟩ := ih
      refine ⟨d :: ds, rest, ?_, hrest⟩
      rw [List.map_cons, List.cons_append, charOf_of_digitOf hc]

/-- Every string begins with a literal, which may be the empty one. -/
theorem exists_leads (s : List Char) : ∃ n : Integer, n.Leads s := by
  by_cases hplus : s.head? = some '+'
  · obtain ⟨tail, rfl⟩ := List.head?_eq_some_iff.mp hplus
    obtain ⟨ds, rest, rfl, hrest⟩ := exists_digits tail
    exact ⟨⟨some .plus, ds⟩, rest, rfl, hrest, by simp [text]⟩
  by_cases hminus : s.head? = some '-'
  · obtain ⟨tail, rfl⟩ := List.head?_eq_some_iff.mp hminus
    obtain ⟨ds, rest, rfl, hrest⟩ := exists_digits tail
    exact ⟨⟨some .minus, ds⟩, rest, rfl, hrest, by simp [text]⟩
  · obtain ⟨ds, rest, rfl, hrest⟩ := exists_digits s
    refine ⟨⟨none, ds⟩, rest, rfl, hrest, fun hempty c hc => ?_⟩
    rw [show ds.map charOf = [] from hempty, List.nil_append] at hplus hminus
    exact ⟨fun h => hplus (h ▸ hc), fun h => hminus (h ▸ hc)⟩

end Integer

end PandoraRobot.Decimal
