import Mathlib.Data.Nat.Log
import Mathlib.Tactic.IntervalCases
import PandoraRobot.Kernel.Vsnprintf
import PandoraRobot.Lib.Numeral

/-! # What integer conversions show

The numerals that `print_number` puts: blanks, a sign, zeros, and the digits that `divide` takes off
the number, which are of base 10 or 16.  The counts are of type `int`, which wraps.
-/

namespace PandoraRobot.Kernel

open PandoraRobot.Numeral (Shows digitVal IsSign)

/-! ## Digits -/

/-- The base of the digits that `divide` takes off. -/
def divideBase (base : Nat) : Nat := if base = 10 then 10 else 16

theorem divide_eq (n base : Nat) : divide n base = (n % divideBase base, n / divideBase base) := by
  unfold divide divideBase
  split <;> rfl

theorem divideBase_pos (base : Nat) : 1 < divideBase base ∧ divideBase base ≤ 16 := by
  unfold divideBase
  split <;> decide

theorem digitVal_digitChar (type : BitVec 8) {d : Nat} (hd : d < 16) :
    digitVal (digitChar type d) = d := by
  unfold digitChar
  by_cases hlarge : type &&& large ≠ 0
  · rw [if_pos hlarge]
    interval_cases d <;> decide
  · rw [if_neg hlarge]
    interval_cases d <;> decide

/-- The digits of a number, the least significant first. -/
def numberDigits (type : BitVec 8) (base num : Nat) : List CChar :=
  if num = 0 then [chr '0'] else tmpDigits type base num

theorem tmpDigits_spec (type : BitVec 8) (base num : Nat) :
    Numeral.read (divideBase base) (tmpDigits type base num).reverse = num ∧
      ∀ c ∈ tmpDigits type base num, digitVal c < divideBase base := by
  obtain ⟨hpos, hle⟩ := divideBase_pos base
  fun_induction tmpDigits type base num with
  | case1 => exact ⟨rfl, by simp⟩
  | case2 num hne ih =>
    have hlt : num % divideBase base < divideBase base := Nat.mod_lt _ (by omega)
    have hdigit := digitVal_digitChar type (Nat.lt_of_lt_of_le hlt hle)
    rw [divide_eq] at ih ⊢
    obtain ⟨hread, hvalid⟩ := ih
    refine ⟨?_, fun c hmem => ?_⟩
    · rw [List.reverse_cons, Numeral.read_append_singleton, hread, hdigit]
      exact Nat.div_add_mod' _ _
    · obtain rfl | hmem := List.mem_cons.mp hmem
      · rwa [hdigit]
      · exact hvalid c hmem

theorem numberDigits_spec (type : BitVec 8) (base num : Nat) :
    Numeral.read (divideBase base) (numberDigits type base num).reverse = num ∧
      ∀ c ∈ numberDigits type base num, digitVal c < divideBase base := by
  rw [numberDigits]
  split
  case isTrue hzero =>
    subst hzero
    have hzero : digitVal (chr '0') = 0 := by decide
    have hpos := (divideBase_pos base).1
    refine ⟨?_, fun c hmem => ?_⟩
    · show 0 * divideBase base + digitVal (chr '0') = 0
      rw [hzero, Nat.zero_mul]
    · rw [List.mem_singleton.mp hmem, hzero]
      omega
  case isFalse => exact tmpDigits_spec type base num

/-- How many digits `print_number` counts. -/
def digitCount (base num : Nat) : Nat := Nat.log (divideBase base) num + 1

theorem tmpDigits_length_eq (type : BitVec 8) (base : Nat) {num : Nat} (hne : num ≠ 0) :
    (tmpDigits type base num).length = digitCount base num := by
  have hpos := (divideBase_pos base).1
  induction num using Nat.strong_induction_on with
  | _ num ih =>
    rw [tmpDigits, if_neg hne, List.length_cons, divide_eq, digitCount]
    by_cases hsmall : num < divideBase base
    · rw [Nat.div_eq_of_lt hsmall, Nat.log_of_lt hsmall, tmpDigits, if_pos rfl, List.length_nil]
    · have hlarge := Nat.not_lt.mp hsmall
      have hdiv : num / divideBase base ≠ 0 := by
        have := Nat.div_pos hlarge (by omega)
        omega
      rw [ih _ (Nat.div_lt_self (by omega) hpos) hdiv, digitCount,
        Nat.log_of_one_lt_of_le hpos hlarge]

theorem numberDigits_length (type : BitVec 8) (base num : Nat) :
    (numberDigits type base num).length = digitCount base num := by
  rw [numberDigits]
  split
  case isTrue hzero =>
    rw [hzero, digitCount, Nat.log_zero_right]
    rfl
  case isFalse hne => exact tmpDigits_length_eq type base hne

theorem digitCount_le (base : Nat) (num : BitVec 32) : digitCount base num.toNat ≤ 16 := by
  by_cases hzero : num.toNat = 0
  · rw [hzero, digitCount, Nat.log_zero_right]
    decide
  · rw [← tmpDigits_length_eq 0 base hzero]
    exact tmpDigits_fits 0 base num

/-- Taken for octal digits, the digits of base 16 denote less, save for a single one. -/
theorem read_octal_lt (type : BitVec 8) {num : Nat} (hnum : 16 ≤ num) :
    Numeral.read 8 (tmpDigits type 8 num).reverse < num := by
  have hle (n : Nat) : Numeral.read 8 (tmpDigits type 8 n).reverse ≤ n := by
    induction n using Nat.strong_induction_on with
    | _ n ih =>
      rw [tmpDigits]
      split
      case isTrue => exact Nat.zero_le _
      case isFalse hne =>
        have hrest := ih (n / 16) (by omega)
        rw [divide_eq, show divideBase 8 = 16 from rfl, List.reverse_cons,
          Numeral.read_append_singleton,
          digitVal_digitChar type (Nat.mod_lt n (by decide))]
        dsimp only
        omega
  have hrest := hle (num / 16)
  rw [tmpDigits, if_neg (by omega), divide_eq, show divideBase 8 = 16 from rfl, List.reverse_cons,
    Numeral.read_append_singleton, digitVal_digitChar type (Nat.mod_lt num (by decide))]
  dsimp only
  omega

/-- The digits denote the number in the base asked for, unless that is 8 and the number is not a
    single digit. -/
theorem numberDigits_denote (type : BitVec 8) {base : Nat}
    (hbase : base = 8 ∨ base = 10 ∨ base = 16) (num : Nat) :
    (∀ c ∈ numberDigits type base num, digitVal c < base) ∧
      Numeral.read base (numberDigits type base num).reverse = num ↔ (base = 8 → num < 8) := by
  obtain ⟨hread, hvalid⟩ := numberDigits_spec type base num
  by_cases height : base = 8
  · subst height
    constructor
    · rintro ⟨hdigits, hoctal⟩ -
      by_contra hlarge
      rw [numberDigits, if_neg (by omega)] at hdigits hoctal
      obtain hlt | hge := Nat.lt_or_ge num 16
      · have hfirst := hdigits (digitChar type num) (by
          rw [tmpDigits, if_neg (by omega), divide_eq, show divideBase 8 = 16 from rfl,
            Nat.mod_eq_of_lt hlt]
          exact List.mem_cons_self)
        rw [digitVal_digitChar type hlt] at hfirst
        omega
      · have := read_octal_lt type hge
        omega
    · intro hsmall
      have hsmall := hsmall rfl
      -- there is one digit, which is the same in both bases
      have hlength := numberDigits_length type 8 num
      rw [digitCount, Nat.log_of_lt (Nat.lt_trans hsmall (by decide))] at hlength
      obtain ⟨c, hc⟩ := List.length_eq_one_iff.mp hlength
      rw [hc] at hread ⊢
      have hvalue (b : Nat) : Numeral.read b [c].reverse = digitVal c := by
        show 0 * b + digitVal c = _
        rw [Nat.zero_mul, Nat.zero_add]
      rw [hvalue] at hread ⊢
      refine ⟨fun d hmem => ?_, hread⟩
      rw [List.mem_singleton.mp hmem, hread]
      exact hsmall
  · have hsame : divideBase base = base := by
      obtain rfl | rfl | rfl := hbase
      · exact absurd rfl height
      · rfl
      · rfl
    rw [hsame] at hread hvalid
    exact ⟨fun _ h => absurd h height, fun _ => ⟨hvalid, hread⟩⟩

/-! ## Fields -/

/-- The sizes of the three paddings, where a size that is not positive pads nothing: blanks in
    front, the padding behind the sign, and blanks at the end. -/
structure Layout where
  blanks : Int
  pads : Int
  behind : Int

/-- What `print_number` makes of the size that the digits leave. -/
def layout (type : BitVec 8) (signed : Prop) [Decidable signed] (size : Int) : Layout :=
  let blanks :=
    if type &&& (zeropad ||| left) = 0 then (if signed ∧ 0 < size then size - 1 else size) else 0
  let size :=
    if type &&& (zeropad ||| left) = 0 then wrapInt ((if 0 < blanks then 0 else blanks) - 1)
    else size
  let size := if signed then wrapInt (size - 1) else size
  let pads := if type &&& left = 0 then size else 0
  let behind :=
    if type &&& left = 0 then wrapInt ((if 0 < pads then 0 else pads) - 1) else size
  ⟨blanks, pads, behind⟩

/-- The character that pads behind the sign. -/
def padChar (type : BitVec 8) : CChar := if type &&& zeropad ≠ 0 then chr '0' else chr ' '

/-- The type without the zeros, where the number is put to the left. -/
def effectiveType (type : BitVec 8) : BitVec 8 :=
  if type &&& left ≠ 0 then type &&& ~~~zeropad else type

def signChars (sign : CChar) : List CChar := if sign ≠ 0 then [sign] else []

theorem both_zero (type : BitVec 8) :
    type &&& (zeropad ||| left) = 0 ↔ type &&& zeropad = 0 ∧ type &&& left = 0 := by
  revert type
  decide +kernel

/-- The other flags stay, and only one of the two paddings does. -/
theorem effectiveType_flags (type : BitVec 8) :
    effectiveType type &&& left = type &&& left ∧
      effectiveType type &&& signed = type &&& signed ∧
      effectiveType type &&& plus = type &&& plus ∧
      (effectiveType type &&& zeropad ≠ 0 ↔ type &&& left = 0 ∧ type &&& zeropad ≠ 0) := by
  revert type
  decide +kernel

theorem padDec_snoc (c : CChar) (lo n : Int) (str : List CChar) :
    padDec (fun c str => str ++ [c]) c lo n str =
      (wrapInt ((if lo < n then lo else n) - 1), str ++ List.replicate (n - lo).toNat c) := by
  rw [padDec, pad_snoc]

theorem putAll_snoc (s str : List CChar) : putAll (fun c str => str ++ [c]) s str = str ++ s := by
  induction s generalizing str with
  | nil => exact (List.append_nil str).symm
  | cons c s ih =>
    show putAll _ s (str ++ [c]) = _
    rw [ih, List.append_assoc]
    rfl

theorem putSign_snoc (sign : CChar) (buf : Int × List CChar) :
    putSign (fun c str => str ++ [c]) sign buf =
      (if sign ≠ 0 then wrapInt (buf.1 - 1) else buf.1, buf.2 ++ signChars sign) := by
  rw [putSign, signChars]
  split
  · rfl
  · rw [List.append_nil]

theorem putDigits_snoc (tmp : List CChar) (precisionBak precision : Int) (str : List CChar) :
    putDigits (fun c str => str ++ [c]) tmp precisionBak precision str =
      str ++ List.replicate (precision - tmp.length).toNat (chr '0') ++
        if precisionBak ≠ 0 then tmp.reverse else [] := by
  simp only [putDigits, padDec_snoc, putAll_snoc]
  split
  · rfl
  · rw [List.append_nil]

/-- The parts of a number, one behind the other. -/
theorem putNumber_snoc (type : BitVec 8) (sign : CChar) (size shown precision : Int)
    (tmp str : List CChar) :
    let sizes := layout type (sign ≠ 0) size
    let pads := putPads (fun c str => str ++ [c]) type (putSign (fun c str => str ++ [c]) sign
      (putBlanks (fun c str => str ++ [c]) type sign size str))
    (padDec (fun c str => str ++ [c]) (chr ' ') 0 pads.1
        (putDigits (fun c str => str ++ [c]) tmp precision shown pads.2)).2 =
      str ++ Numeral.field sizes.blanks.toNat (signChars sign) (padChar type) sizes.pads.toNat
        (shown - tmp.length).toNat (if precision ≠ 0 then tmp.reverse else [])
        sizes.behind.toNat := by
  have hblank : chr ' ' = Numeral.blank := rfl
  have hzero : chr '0' = Numeral.zero := rfl
  by_cases hboth : type &&& (zeropad ||| left) = 0
  · have hleft := (both_zero type |>.mp hboth).2
    simp only [layout, putBlanks, putPads, putSign_snoc, putDigits_snoc, padDec_snoc, if_pos hboth,
      if_pos hleft, Int.sub_zero, Numeral.field, padChar, hblank, hzero, List.append_assoc]
  · by_cases hleft : type &&& left = 0
    · simp only [layout, putBlanks, putPads, putSign_snoc, putDigits_snoc, padDec_snoc,
        if_neg hboth, if_pos hleft, Int.sub_zero, Numeral.field, padChar, hblank, hzero,
        List.append_assoc]
      simp
    · simp only [layout, putBlanks, putPads, putSign_snoc, putDigits_snoc, padDec_snoc,
        if_neg hboth, if_neg hleft, Int.sub_zero, Numeral.field, padChar, hblank, hzero,
        List.append_assoc]
      simp

/-- What `print_number` puts. -/
theorem printNumber_field (num : BitVec 32) (base : Nat) (s precision : Int) (type : BitVec 8)
    (str : List CChar) :
    let sign := (numberSign (effectiveType type) num).1
    let tmp := numberDigits (effectiveType type) base (numberSign (effectiveType type) num).2.toNat
    let shown := if precision < tmp.length then (tmp.length : Int) else precision
    let sizes := layout (effectiveType type) (sign ≠ 0) (wrapInt (s - shown))
    printNumber (fun c str => str ++ [c]) num base s precision type str =
      str ++ Numeral.field sizes.blanks.toNat (signChars sign) (padChar (effectiveType type))
        sizes.pads.toNat (shown - tmp.length).toNat
        (if precision ≠ 0 then tmp.reverse else []) sizes.behind.toNat := by
  intro sign tmp shown sizes
  have htmp : (if (numberSign (effectiveType type) num).2 = 0 then [chr '0']
      else tmpDigits (effectiveType type) base (numberSign (effectiveType type) num).2.toNat) =
        tmp := by
    have hzero : (numberSign (effectiveType type) num).2 = 0 ↔
        (numberSign (effectiveType type) num).2.toNat = 0 :=
      ⟨fun h => by rw [h]; rfl, fun h => BitVec.eq_of_toNat_eq h⟩
    simp only [tmp, numberDigits, hzero]
  have htype : (if type &&& left ≠ 0 then type &&& ~~~zeropad else type) = effectiveType type := rfl
  simp only [printNumber, htype, htmp]
  rw [show (numberSign (effectiveType type) num).1 = sign from rfl,
    show (if precision < tmp.length then (tmp.length : Int) else precision) = shown from rfl]
  exact putNumber_snoc _ _ _ _ _ _ _

/-! ## Signs -/

/-- The integer that a number of 32 bits stands for. -/
def numberValue (type : BitVec 8) (num : BitVec 32) : Int :=
  if type &&& signed ≠ 0 then num.toInt else num.toNat

theorem natAbs_neg (num : BitVec 32) (hneg : num.toInt < 0) :
    (-num).toNat = num.toInt.natAbs := by
  have hlt := num.isLt
  rw [BitVec.toInt_eq_toNat_cond] at hneg ⊢
  rw [BitVec.toNat_neg]
  split at hneg <;> omega

theorem numberSign_spec (type : BitVec 8) (num : BitVec 32) :
    (numberSign type num).2.toNat = (numberValue type num).natAbs ∧
      IsSign (numberValue type num) (signChars (numberSign type num).1) ∧
      (signChars (numberSign type num).1 = [Numeral.minus] ∨
          signChars (numberSign type num).1 = [Numeral.plus] ↔
        numberValue type num < 0 ∨ type &&& signed ≠ 0 ∧ type &&& plus ≠ 0) := by
  have hnone : ¬ (signChars 0 = [Numeral.minus] ∨ signChars 0 = [Numeral.plus]) := by decide
  have hblank : ¬ (signChars (chr ' ') = [Numeral.minus] ∨
      signChars (chr ' ') = [Numeral.plus]) := by decide
  have hslt : num.slt 0 = true ↔ num.toInt < 0 := by
    rw [BitVec.slt_iff_toInt_lt]
    rfl
  rw [numberSign, numberValue]
  by_cases hsigned : type &&& signed ≠ 0
  · simp only [if_pos hsigned]
    by_cases hneg : num.toInt < 0
    · rw [if_pos (hslt.mpr hneg)]
      refine ⟨natAbs_neg num hneg, ?_, ?_⟩
      · rw [IsSign, if_pos hneg]
        rfl
      · exact ⟨fun _ => .inl hneg, fun _ => .inl rfl⟩
    · rw [if_neg (mt hslt.mp hneg)]
      have hnat : num.toNat = num.toInt.natAbs := by
        have hlt := num.isLt
        rw [BitVec.toInt_eq_toNat_cond] at hneg ⊢
        split at hneg <;> omega
      by_cases hplus : type &&& plus ≠ 0
      · rw [if_pos hplus]
        refine ⟨hnat, ?_, ?_⟩
        · rw [IsSign, if_neg hneg]
          exact .inr (.inl rfl)
        · exact ⟨fun _ => .inr ⟨hsigned, hplus⟩, fun _ => .inr rfl⟩
      · rw [if_neg hplus, IsSign, if_neg hneg]
        have hnot : ¬ (num.toInt < 0 ∨ type &&& signed ≠ 0 ∧ type &&& plus ≠ 0) :=
          fun h => h.elim hneg fun h => hplus h.2
        split
        · exact ⟨hnat, .inr (.inr rfl), fun h => absurd h hblank, fun h => absurd h hnot⟩
        · exact ⟨hnat, .inl rfl, fun h => absurd h hnone, fun h => absurd h hnot⟩
  · have hneg : ¬ (num.toNat : Int) < 0 := by omega
    have hnot : ¬ ((num.toNat : Int) < 0 ∨ type &&& signed ≠ 0 ∧ type &&& plus ≠ 0) :=
      fun h => h.elim hneg fun h => hsigned h.1
    simp only [if_neg hsigned]
    rw [IsSign, if_neg hneg]
    exact ⟨rfl, .inl rfl, fun h => absurd h hnone, fun h => absurd h hnot⟩

/-- A sign is put in front of 0 where the flags ask for it. -/
theorem numberSign_zero {type : BitVec 8} {num : BitVec 32} (hzero : numberValue type num = 0) :
    (numberSign type num).1 ≠ 0 ↔ type &&& signed ≠ 0 ∧ type &&& (plus ||| space) ≠ 0 := by
  have hnum : num = 0 := by
    have habs := (numberSign_spec type num).1
    rw [numberValue] at hzero
    split at hzero
    · exact BitVec.eq_of_toInt_eq hzero
    · exact BitVec.eq_of_toNat_eq (by simpa using hzero)
  subst hnum
  revert type
  decide +kernel

/-! ## Sizes -/

theorem wrapInt_range (x : Int) : -2 ^ 31 ≤ wrapInt x ∧ wrapInt x < 2 ^ 31 := by
  rw [wrapInt, Int.bmod_def]
  split <;> omega

theorem wrapInt_pred {n : Int} (hlow : -2 ^ 31 ≤ n) (hhigh : n < 2 ^ 31) :
    wrapInt (n - 1) = if n = -2 ^ 31 then 2 ^ 31 - 1 else n - 1 := by
  rw [wrapInt, Int.bmod_def]
  split_ifs <;> omega

theorem le_wrapInt {x : Int} (hlow : -2 ^ 31 - 1 ≤ x) (hhigh : x < 2 ^ 31) : x ≤ wrapInt x := by
  rw [wrapInt, Int.bmod_def]
  split_ifs <;> omega

section Sizes

variable (type : BitVec 8) (visible : Prop) [Decidable visible] {s shown : Int}

/-- The blanks, the sign and the padding. -/
def layoutWidth (sizes : Layout) : Int :=
  sizes.blanks.toNat + (if visible then 1 else 0) + sizes.pads.toNat + sizes.behind.toNat

/-- With blanks on both sides of the sign, the size has wrapped. -/
theorem layout_pads {size : Int} (hlow : -2 ^ 31 ≤ size) (hhigh : size < 2 ^ 31)
    (hzero : type &&& zeropad = 0) (hleft : type &&& left = 0) :
    0 < (layout type visible size).pads ↔
      size = -2 ^ 31 ∨ visible ∧ size = -2 ^ 31 + 1 := by
  have hboth := (both_zero type).mpr ⟨hzero, hleft⟩
  simp only [layout, if_pos hboth, if_pos hleft, wrapInt, Int.bmod_def]
  by_cases hvisible : visible
  · simp only [hvisible, true_and, if_true]
    split_ifs <;> omega
  · simp only [hvisible, false_and, if_false, or_false]
    split_ifs <;> omega

/-- The field is wide enough. -/
theorem layout_wide (hlow : -2 ^ 31 ≤ s) (hhigh : s < 2 ^ 31) (hpos : 1 ≤ shown)
    (hshown : shown < 2 ^ 31) :
    s ≤ layoutWidth visible (layout type visible (wrapInt (s - shown))) + shown := by
  obtain ⟨hmin, hmax⟩ := wrapInt_range (s - shown)
  have hsize : s - shown = wrapInt (s - shown) ∨ s < 0 := by
    rw [wrapInt, Int.bmod_def]
    split <;> omega
  generalize wrapInt (s - shown) = size at *
  have hless : size - 1 ≤ wrapInt (size - 1) := le_wrapInt (by omega) (by omega)
  by_cases hleft : type &&& left = 0
  · by_cases hboth : type &&& (zeropad ||| left) = 0
    · -- blanks in front
      simp only [layoutWidth, layout, if_pos hboth]
      by_cases hvisible : visible
      · simp only [hvisible, true_and, if_true]
        split <;> omega
      · simp only [hvisible, false_and, if_false]
        omega
    · -- zeros
      simp only [layoutWidth, layout, if_neg hboth, if_pos hleft]
      by_cases hvisible : visible
      · simp only [hvisible, if_true]
        omega
      · simp only [hvisible, if_false]
        omega
  · -- blanks behind
    have hboth : ¬ type &&& (zeropad ||| left) = 0 := fun h => hleft ((both_zero type).mp h).2
    simp only [layoutWidth, layout, if_neg hboth, if_neg hleft]
    by_cases hvisible : visible
    · simp only [hvisible, if_true]
      omega
    · simp only [hvisible, if_false]
      omega

/-- Without digits, the zeros of a padding are too few, unless the width asked for is less than the
    one that is used, or the size has wrapped. -/
theorem layout_zeros {width : Int} (hlow : -2 ^ 31 ≤ s) (hhigh : s < 2 ^ 31) (hwidth : width ≤ s)
    (hzero : type &&& zeropad ≠ 0) (hleft : type &&& left = 0) :
    (0 < (layout type visible (wrapInt (s - 1))).pads ∧
        width ≤ layoutWidth visible (layout type visible (wrapInt (s - 1)))) ↔
      s = -2 ^ 31 ∨ visible ∧ s = -2 ^ 31 + 1 ∨
        width < s ∧ (if visible then 1 else 0) + 1 < s := by
  have hboth : ¬ type &&& (zeropad ||| left) = 0 := fun h => hzero ((both_zero type).mp h).1
  simp only [layoutWidth, layout, if_neg hboth, if_pos hleft]
  have hfirst := wrapInt_pred hlow hhigh
  have hrange := wrapInt_range (s - 1)
  generalize wrapInt (s - 1) = size at *
  have hsecond := wrapInt_pred hrange.1 hrange.2
  have hnone : wrapInt (0 - 1) = -1 := by decide
  by_cases hvisible : visible
  · simp only [hvisible, true_and, if_true]
    generalize wrapInt (size - 1) = pads at *
    by_cases hpads : 0 < pads
    · rw [if_pos hpads, hnone]
      omega
    · constructor
      · intro h
        exact absurd h.1 hpads
      · omega
  · simp only [hvisible, false_and, if_false, false_or]
    by_cases hpads : 0 < size
    · rw [if_pos hpads, hnone]
      omega
    · constructor
      · intro h
        exact absurd h.1 hpads
      · omega

end Sizes

/-! ## Numbers -/

/-- Where the field shows the value: with a precision of 0, and otherwise. -/
def NumberShown (type : BitVec 8) (base : Nat) (value s precision width : Int) : Prop :=
  if precision = 0 then
    value = 0 ∧ type &&& left = 0 ∧ type &&& zeropad ≠ 0 ∧
      (s = -2 ^ 31 ∨
        (type &&& signed ≠ 0 ∧ type &&& (plus ||| space) ≠ 0) ∧ s = -2 ^ 31 + 1 ∨
        width < s ∧
          (if type &&& signed ≠ 0 ∧ type &&& (plus ||| space) ≠ 0 then 1 else 0) + 1 < s)
  else
    (base = 8 → value.natAbs < 8) ∧
      (value < 0 ∨ type &&& signed ≠ 0 ∧ type &&& plus ≠ 0 → type &&& left = 0 →
        type &&& zeropad = 0 →
          s - max precision (digitCount base value.natAbs) ≠ -2 ^ 31 ∧
          s - max precision (digitCount base value.natAbs) ≠ -2 ^ 31 + 1)

theorem length_field (b : Nat) (sign : CChar) (c : CChar) (m z : Nat) (ds : List CChar) (t : Nat) :
    ((Numeral.field b (signChars sign) c m z ds t).length : Int) =
      b + (if sign ≠ 0 then 1 else 0) + m + t + (z + ds.length) := by
  have hsign : ((signChars sign).length : Int) = if sign ≠ 0 then 1 else 0 := by
    rw [signChars]
    split <;> rfl
  rw [← hsign]
  simp only [Numeral.field, List.length_append, List.length_replicate]
  omega

theorem padChar_cases (type : BitVec 8) :
    (padChar type = Numeral.blank ∨ padChar type = Numeral.zero) ∧
      (padChar type = Numeral.zero ↔ type &&& zeropad ≠ 0) := by
  revert type
  decide +kernel

/-- Without digits of the number, there are those of the padding. -/
theorem shows_without_digits {base : Nat} (hbase : base = 8 ∨ base = 10 ∨ base = 16)
    {type : BitVec 8} {num : BitVec 32} {s width : Int} (hlow : -2 ^ 31 ≤ s) (hhigh : s < 2 ^ 31)
    (hwidth : width ≤ s) (hboth : type &&& zeropad ≠ 0 → type &&& left = 0) :
    let sign := (numberSign type num).1
    let sizes := layout type (sign ≠ 0)
      (wrapInt (s - digitCount base (numberValue type num).natAbs))
    Shows base (numberValue type num) 0 width (Numeral.field sizes.blanks.toNat (signChars sign)
        (padChar type) sizes.pads.toNat 0 [] sizes.behind.toNat) ↔
      NumberShown type base (numberValue type num) s 0 width := by
  intro sign sizes
  obtain ⟨-, hsign, -⟩ := numberSign_spec type num
  obtain ⟨hchar, hzeros⟩ := padChar_cases type
  have hle : base ≤ 16 := by omega
  have hpos : 0 < base := by omega
  have hlength := length_field sizes.blanks.toNat sign (padChar type) sizes.pads.toNat 0 []
    sizes.behind.toNat
  have hwide : ((Numeral.field sizes.blanks.toNat (signChars sign) (padChar type) sizes.pads.toNat 0
      [] sizes.behind.toNat).length : Int) = layoutWidth (sign ≠ 0) sizes := by
    rw [hlength, layoutWidth]
    simp only [List.length_nil]
    omega
  -- whatever is shown is padding, which reads as 0 if it is of zeroes
  have hread (k : Nat) : Numeral.read base (List.replicate k Numeral.zero) = 0 := by
    have hzeros : Numeral.read base (List.replicate k Numeral.zero ++ []) = Numeral.read base [] :=
      Numeral.read_zeros k []
    rwa [List.append_nil] at hzeros
  rw [Numeral.shows_field hle hsign hchar (by simp), hwide, NumberShown, if_pos rfl,
    Numeral.fieldDigits, List.append_nil]
  -- a 0 counts as one digit in the layout, although none is printed
  have hfirst (hvalue : numberValue type num = 0) :
      sizes = layout type (sign ≠ 0) (wrapInt (s - 1)) := by
    have hone : digitCount base 0 = 1 := by rw [digitCount, Nat.log_zero_right]
    show layout type (sign ≠ 0) (wrapInt (s - digitCount base (numberValue type num).natAbs)) = _
    rw [hvalue, Int.natAbs_zero, hone]
    rfl
  constructor
  · rintro ⟨-, hne, -, hvalue, -, hw⟩
    rw [hread] at hvalue
    have hvalue : numberValue type num = 0 := by omega
    have hpad : padChar type = Numeral.zero := by
      by_contra hblank
      rw [if_neg hblank] at hne
      exact hne rfl
    have hzero := hzeros.mp hpad
    have hpads : 0 < sizes.pads := by
      by_contra hnone
      rw [if_pos hpad, show sizes.pads.toNat + 0 = 0 by omega] at hne
      exact hne rfl
    rw [hfirst hvalue] at hpads hw
    have hcases := (layout_zeros type (sign ≠ 0) hlow hhigh hwidth hzero (hboth hzero)).mp
      ⟨hpads, hw⟩
    simp only [sign, numberSign_zero hvalue] at hcases
    exact ⟨hvalue, hboth hzero, hzero, hcases⟩
  · rintro ⟨hvalue, hleft, hzero, hcases⟩
    have hpad := hzeros.mpr hzero
    have hcases : s = -2 ^ 31 ∨ sign ≠ 0 ∧ s = -2 ^ 31 + 1 ∨
        width < s ∧ (if sign ≠ 0 then 1 else 0) + 1 < s := by
      simp only [sign, numberSign_zero hvalue]
      exact hcases
    obtain ⟨hpads, hw⟩ :=
      (layout_zeros type (sign ≠ 0) hlow hhigh hwidth hzero hleft).mpr hcases
    rw [← hfirst hvalue] at hpads hw
    rw [if_pos hpad, hvalue]
    refine ⟨fun _ => .inr hpad, ?_, ?_, hread _, by omega, hw⟩
    · rw [Ne, List.replicate_eq_nil_iff]
      omega
    · intro d hmem
      rw [List.eq_of_mem_replicate hmem]
      exact hpos

/-- With the digits of the number, the field shows the number unless they are not octal, or there
    are blanks behind the sign. -/
theorem shows_with_digits {base : Nat} (hbase : base = 8 ∨ base = 10 ∨ base = 16)
    {type : BitVec 8} {num : BitVec 32} {value s precision width shown : Int}
    (hvalue : value = numberValue type num) (hlow : -2 ^ 31 ≤ s) (hhigh : s < 2 ^ 31)
    (hwidth : width ≤ s) (hne : precision ≠ 0)
    (hprecision : precision < 2 ^ 31)
    (hshown : shown = max precision (digitCount base value.natAbs)) :
    let sign := (numberSign type num).1
    let sizes := layout type (sign ≠ 0) (wrapInt (s - shown))
    Shows base value precision width (Numeral.field sizes.blanks.toNat (signChars sign)
        (padChar type) sizes.pads.toNat (shown - digitCount base value.natAbs).toNat
        (numberDigits type base value.natAbs).reverse sizes.behind.toNat) ↔
      NumberShown type base value s precision width := by
  intro sign sizes
  obtain ⟨habs, hsign, hvisible⟩ := numberSign_spec type num
  rw [← hvalue] at habs hsign hvisible
  obtain ⟨hchar, hzeros⟩ := padChar_cases type
  have hle : base ≤ 16 := by omega
  have hcount := digitCount_le base (numberSign type num).2
  rw [habs] at hcount
  have hcount_pos : 1 ≤ digitCount base value.natAbs := Nat.succ_pos _
  have hdigits := (numberDigits_spec type base value.natAbs).2
  have hdenote := numberDigits_denote type hbase value.natAbs
  have hlen := numberDigits_length type base value.natAbs
  have hmax := hshown
  generalize numberDigits type base value.natAbs = tmp at hdigits hdenote hlen ⊢
  generalize digitCount base value.natAbs = count at hshown hcount hcount_pos hlen ⊢
  obtain ⟨hlower, hupper⟩ := wrapInt_range (s - shown)
  -- the field is as wide as asked for, also where the subtraction wraps
  have hwide : width ≤ (Numeral.field sizes.blanks.toNat (signChars sign) (padChar type)
      sizes.pads.toNat (shown - count).toNat tmp.reverse sizes.behind.toNat).length := by
    have hlayout : s ≤ layoutWidth (sign ≠ 0) sizes + shown :=
      layout_wide type (sign ≠ 0) hlow hhigh (by omega) (by omega)
    rw [length_field, List.length_reverse, hlen]
    rw [layoutWidth] at hlayout
    omega
  have hvalid : ∀ c ∈ tmp.reverse, digitVal c < 16 := fun c hmem =>
    Nat.lt_of_lt_of_le (hdigits c (List.mem_reverse.mp hmem)) (divideBase_pos base).2
  have hne' : tmp.reverse ≠ [] := by
    intro hnil
    rw [List.reverse_eq_nil_iff.mp hnil, List.length_nil] at hlen
    omega
  have hzero_lt : digitVal Numeral.zero < base := by
    have : digitVal Numeral.zero = 0 := by decide
    omega
  -- blanks come behind the sign only where the room left for them wraps around
  have hnear : (signChars sign = [Numeral.minus] ∨ signChars sign = [Numeral.plus] →
      sizes.pads.toNat = 0 ∨ padChar type = Numeral.zero) ↔
      (value < 0 ∨ type &&& signed ≠ 0 ∧ type &&& plus ≠ 0 → type &&& left = 0 →
        type &&& zeropad = 0 → s - shown ≠ -2 ^ 31 ∧ s - shown ≠ -2 ^ 31 + 1) := by
    rw [hvisible, hzeros]
    refine imp_congr_right fun hcond => ?_
    have hsign' : sign ≠ 0 := by
      intro hnone
      have hnil : signChars sign = [] := by rw [hnone]; rfl
      have hcases := hvisible.mpr hcond
      rw [show (numberSign type num).1 = sign from rfl, hnil] at hcases
      simp at hcases
    by_cases hzero : type &&& zeropad = 0
    · by_cases hleft : type &&& left = 0
      · have hpads : 0 < sizes.pads ↔ wrapInt (s - shown) = -2 ^ 31 ∨
            sign ≠ 0 ∧ wrapInt (s - shown) = -2 ^ 31 + 1 :=
          layout_pads type (sign ≠ 0) hlower hupper hzero hleft
        have hwraps : wrapInt (s - shown) = s - shown ∨
            wrapInt (s - shown) = s - shown + 2 ^ 32 := by
          rw [wrapInt, Int.bmod_def]
          split <;> omega
        simp only [hzero, hleft, hsign', ne_eq, not_true_eq_false, not_false_eq_true, or_false,
          true_and, forall_const] at hpads ⊢
        omega
      · have hnone : sizes.pads = 0 := if_neg hleft
        exact ⟨fun _ h => absurd h hleft, fun _ => .inl (by rw [hnone]; rfl)⟩
    · exact ⟨fun _ _ h => absurd h hzero, fun _ => .inr hzero⟩
  -- zeroes in front do not change the number, and more digits there are none
  have hread (k : Nat) : Numeral.read base (Numeral.fieldDigits (padChar type) sizes.pads.toNat k
      tmp.reverse) = Numeral.read base tmp.reverse := Numeral.read_zeros _ _
  have henough : shown ≤ (Numeral.fieldDigits (padChar type) sizes.pads.toNat
      (shown - count).toNat tmp.reverse).length := by
    rw [Numeral.fieldDigits, List.length_append, List.length_replicate, List.length_reverse, hlen]
    split <;> omega
  have hall (k : Nat) : (∀ d ∈ Numeral.fieldDigits (padChar type) sizes.pads.toNat k tmp.reverse,
      digitVal d < base) ↔ ∀ c ∈ tmp, digitVal c < base := by
    simp only [Numeral.fieldDigits, List.mem_append, List.mem_reverse]
    constructor
    · exact fun h c hmem => h c (.inr hmem)
    · rintro h d (hmem | hmem)
      · rwa [List.eq_of_mem_replicate hmem]
      · exact h d hmem
  -- what is left of both sides is the base of the digits and the blanks behind the sign
  rw [Numeral.shows_field hle hsign hchar hvalid, NumberShown, if_neg hne, ← hdenote, hread, hall,
    hnear, ← hmax]
  constructor
  · rintro ⟨hcond, -, hdigits, hvalue, -⟩
    exact ⟨⟨hdigits, hvalue⟩, hcond⟩
  · rintro ⟨⟨hdigits, hvalue⟩, hcond⟩
    refine ⟨hcond, ?_, hdigits, hvalue, by omega, hwide⟩
    rw [Numeral.fieldDigits]
    exact List.append_ne_nil_of_right_ne_nil _ hne'

/-- What `print_number` puts shows the number exactly where `NumberShown` says. -/
theorem printNumber_shows {base : Nat} (hbase : base = 8 ∨ base = 10 ∨ base = 16) (num : BitVec 32)
    {s precision width : Int} (hlow : -2 ^ 31 ≤ s) (hhigh : s < 2 ^ 31) (hwidth : width ≤ s)
    (hprecision : precision < 2 ^ 31) (type : BitVec 8) :
    ∃ text, (∀ str, printNumber (fun c str => str ++ [c]) num base s precision type str =
        str ++ text) ∧
      (Shows base (numberValue (effectiveType type) num) precision width text ↔
        NumberShown (effectiveType type) base (numberValue (effectiveType type) num) s precision
          width) := by
  refine ⟨_, printNumber_field num base s precision type, ?_⟩
  have habs := (numberSign_spec (effectiveType type) num).1
  have hboth : effectiveType type &&& zeropad ≠ 0 → effectiveType type &&& left = 0 := by
    obtain ⟨hleft, -, -, hzero⟩ := effectiveType_flags type
    intro h
    rw [hleft]
    exact (hzero.mp h).1
  have hpos : 1 ≤ digitCount base (numberValue (effectiveType type) num).natAbs := Nat.succ_pos _
  rw [habs, numberDigits_length]
  by_cases hnone : precision = 0
  · subst hnone
    rw [if_pos (by omega), if_neg (not_not.mpr rfl), Int.sub_self]
    exact shows_without_digits hbase hlow hhigh hwidth hboth
  · rw [if_pos hnone]
    refine shows_with_digits hbase rfl hlow hhigh hwidth hnone hprecision ?_
    split <;> omega

/-! ## Conversions -/

/-- The value that a conversion of an integer is to show, and the base. -/
def asked (spec : ConversionSpec) (conv : CChar) : List VaArg → Option (Int × Nat)
  | .pointer p :: _ => if conv = chr 'p' then some (p.toNat, 16) else none
  | .int value :: _ =>
    let number := if spec.qualifier = chr 'h' then (value.setWidth 16).toNat else value.toNat
    if conv = chr 'd' ∨ conv = chr 'i' then
      some (if spec.qualifier = chr 'h' then (value.setWidth 16).toInt else value.toInt, 10)
    else if conv = chr 'u' then some (number, 10)
    else if conv = chr 'x' ∨ conv = chr 'X' then some (number, 16)
    else if conv = chr 'o' then some (number, 8)
    else none
  | _ => none

/-- The flags that `print_number` is given. -/
def numberFlags (spec : ConversionSpec) (conv : CChar) : BitVec 8 :=
  if conv = chr 'p' then (if spec.fieldWidth = -1 then spec.flags ||| zeropad else spec.flags)
  else ((integerFormat spec.flags conv).map Prod.snd).getD spec.flags

/-- The size that `print_number` is given. -/
def numberWidth (spec : ConversionSpec) (conv : CChar) : Int :=
  if conv = chr 'p' ∧ spec.fieldWidth = -1 then 8 else spec.fieldWidth

section Conversions

variable {spec : ConversionSpec} {conv : CChar} {args args' : List VaArg} {fmt rest : List CChar}
  {value : Int} {base : Nat}

theorem skipAtoi_range {i : Int} (hlow : -2 ^ 31 ≤ i) (hhigh : i < 2 ^ 31) (s : List CChar) :
    -2 ^ 31 ≤ (skipAtoi i s).1 ∧ (skipAtoi i s).1 < 2 ^ 31 := by
  induction s generalizing i with
  | nil => exact ⟨hlow, hhigh⟩
  | cons c s ih =>
    rw [skipAtoi]
    split
    · exact ih (wrapInt_range _).1 (wrapInt_range _).2
    · exact ⟨hlow, hhigh⟩

theorem toInt_range (x : BitVec 32) : -2 ^ 31 ≤ x.toInt ∧ x.toInt < 2 ^ 31 :=
  ⟨x.le_toInt, x.toInt_lt⟩

theorem parseFlags_signed {flags : BitVec 8} (hflags : flags &&& signed = 0) (fmt : List CChar) :
    (parseFlags flags fmt).1 &&& signed = 0 := by
  have hflag : ∀ flags : BitVec 8, flags &&& signed = 0 → (flags ||| left) &&& signed = 0 ∧
      (flags ||| plus) &&& signed = 0 ∧ (flags ||| space) &&& signed = 0 ∧
      (flags ||| special) &&& signed = 0 ∧ (flags ||| zeropad) &&& signed = 0 := by
    decide +kernel
  induction fmt generalizing flags with
  | nil => exact hflags
  | cons c fmt ih =>
    obtain ⟨hleft, hplus, hspace, hspecial, hzeropad⟩ := hflag flags hflags
    rw [parseFlags]
    split_ifs
    · exact ih hleft
    · exact ih hplus
    · exact ih hspace
    · exact ih hspecial
    · exact ih hzeropad
    · exact hflags

theorem parseWidth_spec {flags : BitVec 8} {parsed : Int × BitVec 8 × List CChar × List VaArg}
    (h : parseWidth flags args fmt = some parsed) :
    (-2 ^ 31 ≤ parsed.1 ∧ parsed.1 < 2 ^ 31) ∧
      (parsed.2.1 = flags ∨ parsed.2.1 = flags ||| left) := by
  have hdefault : (-2 ^ 31 ≤ (-1 : Int) ∧ (-1 : Int) < 2 ^ 31) := by decide
  cases fmt with
  | nil =>
    cases h
    exact ⟨hdefault, .inl rfl⟩
  | cons c fmt =>
    rw [parseWidth] at h
    split at h
    · cases h
      exact ⟨skipAtoi_range (by decide) (by decide) _, .inl rfl⟩
    · split at h
      · obtain ⟨⟨fieldWidth, args⟩, -, h⟩ := Option.bind_eq_some_iff.mp h
        simp only at h
        split at h
        · cases h
          exact ⟨wrapInt_range _, .inr rfl⟩
        · cases h
          exact ⟨toInt_range fieldWidth, .inl rfl⟩
      · cases h
        exact ⟨hdefault, .inl rfl⟩

theorem parsePrecision_range {parsed : Int × List CChar × List VaArg}
    (h : parsePrecision args fmt = some parsed) : parsed.1 < 2 ^ 31 := by
  have hdefault : (-1 : Int) < 2 ^ 31 := by decide
  cases fmt with
  | nil =>
    cases h
    exact hdefault
  | cons c fmt =>
    rw [parsePrecision] at h
    split at h
    · obtain ⟨given, hgiven, h⟩ := Option.bind_eq_some_iff.mp h
      cases h
      have hrange : given.1 < 2 ^ 31 := by
        cases fmt with
        | nil =>
          cases hgiven
          exact hdefault
        | cons c fmt =>
          rw [parsePrecisionValue] at hgiven
          split at hgiven
          · cases hgiven
            exact (skipAtoi_range (by decide) (by decide) _).2
          · split at hgiven
            · obtain ⟨⟨precision, args⟩, -, hgiven⟩ := Option.bind_eq_some_iff.mp hgiven
              cases hgiven
              exact (toInt_range precision).2
            · cases hgiven
              exact hdefault
      show (if given.1 < 0 then 0 else given.1) < 2 ^ 31
      split
      · decide
      · exact hrange
    · cases h
      exact hdefault

theorem parseSpec_spec (h : parseSpec args fmt = some (spec, rest, args')) :
    (-2 ^ 31 ≤ spec.fieldWidth ∧ spec.fieldWidth < 2 ^ 31) ∧ spec.precision < 2 ^ 31 ∧
      spec.flags &&& signed = 0 := by
  obtain ⟨width, hwidth, h⟩ := Option.bind_eq_some_iff.mp h
  obtain ⟨precision, hprecision, h⟩ := Option.bind_eq_some_iff.mp h
  cases h
  obtain ⟨hrange, hflags⟩ := parseWidth_spec hwidth
  refine ⟨hrange, parsePrecision_range hprecision, ?_⟩
  have hparsed : (parseFlags 0 fmt).1 &&& signed = 0 := parseFlags_signed (by decide) fmt
  have hleft : ∀ flags : BitVec 8, flags &&& signed = 0 → (flags ||| left) &&& signed = 0 := by
    decide
  obtain hflags | hflags := hflags
  · rw [hflags]
    exact hparsed
  · rw [hflags]
    exact hleft _ hparsed

theorem numberValue_unsigned {type : BitVec 8} (h : type &&& signed = 0) (num : BitVec 32) :
    numberValue (effectiveType type) num = num.toNat := by
  rw [numberValue, (effectiveType_flags type).2.1, h, if_neg (not_not.mpr rfl)]

theorem numberValue_signed {type : BitVec 8} (h : type &&& signed ≠ 0) (num : BitVec 32) :
    numberValue (effectiveType type) num = num.toInt := by
  rw [numberValue, (effectiveType_flags type).2.1, if_pos h]

theorem integerArg_signed {flags : BitVec 8} (h : flags &&& signed ≠ 0) (qualifier : CChar)
    (num : BitVec 32) : (integerArg flags qualifier num).toInt =
      if qualifier = chr 'h' then (num.setWidth 16).toInt else num.toInt := by
  by_cases hshort : qualifier = chr 'h'
  · rw [integerArg, if_pos hshort, if_pos hshort, if_pos h,
      BitVec.toInt_signExtend_of_le (by decide)]
  · rw [integerArg, if_neg hshort, if_neg hshort]

theorem integerArg_unsigned {flags : BitVec 8} (h : flags &&& signed = 0) (qualifier : CChar)
    (num : BitVec 32) : (integerArg flags qualifier num).toNat =
      if qualifier = chr 'h' then (num.setWidth 16).toNat else num.toNat := by
  by_cases hshort : qualifier = chr 'h'
  · rw [integerArg, if_pos hshort, if_pos hshort, if_neg (not_not.mpr h),
      BitVec.toNat_setWidth_of_le (by decide)]
  · rw [integerArg, if_neg hshort, if_neg hshort]

/-- A conversion of an integer hands `print_number` a number that stands for the value. -/
theorem convert_asked (hvalue : asked spec conv args = some (value, base))
    (hsigned : spec.flags &&& signed = 0) :
    ∃ num, (∀ str, convert (fun c str => str ++ [c]) spec conv args str =
        some (printNumber (fun c str => str ++ [c]) num base (numberWidth spec conv) spec.precision
          (numberFlags spec conv) str, args.tail)) ∧
      numberValue (effectiveType (numberFlags spec conv)) num = value ∧
      (base = 8 ∨ base = 10 ∨ base = 16) := by
  -- no flag a conversion adds is `SIGN`, but for that of `d` and `i`
  have hflags : ∀ flags : BitVec 8, flags &&& signed = 0 → (flags ||| zeropad) &&& signed = 0 ∧
      (flags ||| large) &&& signed = 0 ∧ (flags ||| signed) &&& signed ≠ 0 := by decide
  obtain ⟨hzeropad, hlarge, hsign⟩ := hflags spec.flags hsigned
  cases args with
  | nil => cases hvalue
  | cons arg args =>
    cases arg with
    | string s => cases hvalue
    -- `p` has a width of its own when none is given
    | pointer p =>
      rw [asked] at hvalue
      split at hvalue
      case isFalse => cases hvalue
      case isTrue hconv =>
        cases hvalue
        subst hconv
        refine ⟨p, fun str => ?_, ?_, .inr (.inr rfl)⟩
        · show some (putPointer _ spec p str, args) = _
          rw [putPointer, numberWidth, numberFlags, if_pos rfl]
          by_cases hdefault : spec.fieldWidth = -1
          · rw [if_pos hdefault, if_pos hdefault, if_pos ⟨rfl, hdefault⟩]
            rfl
          · rw [if_neg hdefault, if_neg hdefault, if_neg fun h => hdefault h.2]
            rfl
        · refine numberValue_unsigned ?_ p
          rw [numberFlags, if_pos rfl]
          split
          · exact hzeropad
          · exact hsigned
    | int num =>
      have hunsigned {flags : BitVec 8} (h : flags &&& signed = 0) :
          numberValue (effectiveType flags) (integerArg flags spec.qualifier num) =
            (if spec.qualifier = chr 'h' then (num.setWidth 16).toNat else num.toNat : Nat) := by
        rw [numberValue_unsigned h, integerArg_unsigned h]
      have hint : numberValue (effectiveType (spec.flags ||| signed))
          (integerArg (spec.flags ||| signed) spec.qualifier num) =
            if spec.qualifier = chr 'h' then (num.setWidth 16).toInt else num.toInt := by
        rw [numberValue_signed hsign, integerArg_signed hsign]
      rw [asked] at hvalue
      -- `d` and `i`, then `u`, `x` and `X`, and `o`
      split at hvalue
      case isTrue hconv =>
        cases hvalue
        obtain rfl | rfl := hconv
        · exact ⟨_, fun _ => rfl, hint, .inr (.inl rfl)⟩
        · exact ⟨_, fun _ => rfl, hint, .inr (.inl rfl)⟩
      case isFalse =>
        split at hvalue
        case isTrue hconv =>
          cases hvalue
          subst hconv
          exact ⟨_, fun _ => rfl, hunsigned hsigned, .inr (.inl rfl)⟩
        case isFalse =>
          split at hvalue
          case isTrue hconv =>
            cases hvalue
            obtain rfl | rfl := hconv
            · exact ⟨_, fun _ => rfl, hunsigned hsigned, .inr (.inr rfl)⟩
            · exact ⟨_, fun _ => rfl, hunsigned hlarge, .inr (.inr rfl)⟩
          case isFalse =>
            split at hvalue
            case isTrue hconv =>
              cases hvalue
              subst hconv
              exact ⟨_, fun _ => rfl, hunsigned hsigned, .inl rfl⟩
            case isFalse => cases hvalue

/-- A conversion of an integer shows the value exactly where `NumberShown` says: the base of `%o` is
    not 8, a precision of 0 shows no digits, and the sizes are of type `int`. -/
theorem rt_vsnprintf_numeral (hspec : parseSpec args fmt = some (spec, conv :: rest, args'))
    (hvalue : asked spec conv args' = some (value, base)) :
    ∃ text, (∀ str, formatLoop (fun c str => str ++ [c]) args (chr '%' :: fmt) str =
        formatLoop (fun c str => str ++ [c]) args'.tail rest (str ++ text)) ∧
      (Shows base value spec.precision spec.fieldWidth text ↔
        NumberShown (effectiveType (numberFlags spec conv)) base value (numberWidth spec conv)
          spec.precision spec.fieldWidth) := by
  obtain ⟨⟨hlow, hhigh⟩, hprecision, hsigned⟩ := parseSpec_spec hspec
  obtain ⟨num, hconvert, hnum, hbase⟩ := convert_asked hvalue hsigned
  have hwidth : -2 ^ 31 ≤ numberWidth spec conv ∧ numberWidth spec conv < 2 ^ 31 ∧
      spec.fieldWidth ≤ numberWidth spec conv := by
    rw [numberWidth]
    split <;> omega
  obtain ⟨text, htext, hshows⟩ := printNumber_shows hbase num hwidth.1 hwidth.2.1 hwidth.2.2
    hprecision (numberFlags spec conv)
  rw [hnum] at hshows
  refine ⟨text, fun str => ?_, hshows⟩
  rw [formatLoop_directive]
  show ((parseSpec _ _).bind _).bind _ = _
  rw [hspec]
  show (((convert _ spec conv args' str).map _).bind _) = _
  rw [hconvert, htext]
  rfl

/-- A negative number in a field of five. -/
theorem rt_vsnprintf_numeral_field :
    ∃ text, output [.int (-42)] [chr '%', chr '5', chr 'd'] = some text ∧
      Shows 10 (-42) (-1) 5 text := by
  have hspec : parseSpec [.int (-42)] [chr '5', chr 'd'] =
      some (⟨0, 5, -1, 0⟩, [chr 'd'], [.int (-42)]) := by decide
  have hvalue : asked ⟨0, 5, -1, 0⟩ (chr 'd') [.int (-42)] = some (-42, 10) := by decide
  obtain ⟨text, hrun, hshows⟩ := rt_vsnprintf_numeral hspec hvalue
  refine ⟨text, ?_, hshows.mpr ?_⟩
  · rw [output, hrun, formatLoop_nil]
    rfl
  · have hcount := digitCount_le 10 42
    rw [NumberShown, if_neg (by decide)]
    refine ⟨fun h => absurd h (by decide), fun _ _ _ => ?_⟩
    have hnum : (42 : BitVec 32).toNat = (-42 : Int).natAbs := rfl
    have hwidth : numberWidth ⟨0, 5, -1, 0⟩ (chr 'd') = 5 := rfl
    rw [hnum] at hcount
    rw [hwidth]
    generalize digitCount 10 (-42 : Int).natAbs = count at *
    dsimp only
    omega

/-- The digits of `%o` are those of `%x`, and a precision of 0 leaves nothing of the number. -/
theorem rt_vsnprintf_octal :
    output [.int 64] [chr '%', chr 'o'] = some [chr '4', chr '0'] ∧
      ¬ Shows 8 64 (-1) (-1) [chr '4', chr '0'] ∧
      output [.int 5] [chr '%', chr '.', chr '0', chr 'd'] = some [] ∧
      ¬ Shows 10 5 0 (-1) [] := by
  have hsixtyfour : numberDigits (effectiveType 0) 8 64 = [chr '0', chr '4'] := by
    rw [numberDigits, if_neg (by decide), tmpDigits, if_neg (by decide), tmpDigits,
      if_neg (by decide), tmpDigits, if_pos (by decide)]
    rfl
  have hfive : numberDigits (effectiveType signed) 10 5 = [chr '5'] := by
    rw [numberDigits, if_neg (by decide), tmpDigits, if_neg (by decide), tmpDigits,
      if_pos (by decide)]
    rfl
  refine ⟨?_, ?_, ?_, ?_⟩
  · have htext : printNumber (fun c str => str ++ [c]) 64 8 (-1) (-1) 0 [] =
        [chr '4', chr '0'] := by
      have hdigits : numberDigits (effectiveType 0) 8 (numberSign (effectiveType 0) 64).2.toNat =
          [chr '0', chr '4'] := hsixtyfour
      simp only [printNumber_field, hdigits]
      decide
    rw [output, formatLoop_directive]
    show formatLoop _ [] [] (printNumber _ 64 8 (-1) (-1) 0 []) = _
    rw [htext, formatLoop_nil]
  · have hfield : [chr '4', chr '0'] =
        Numeral.field 0 [] Numeral.blank 0 0 [chr '4', chr '0'] 0 := rfl
    have hsign : IsSign 64 [] := .inl rfl
    intro hshows
    rw [hfield] at hshows
    obtain ⟨-, -, -, hread, -⟩ :=
      (Numeral.shows_field (by decide) hsign (.inl rfl) (by decide)).mp hshows
    exact absurd hread (by decide)
  · have htext : printNumber (fun c str => str ++ [c]) 5 10 (-1) 0 signed [] = [] := by
      have hdigits : numberDigits (effectiveType signed) 10
          (numberSign (effectiveType signed) 5).2.toNat = [chr '5'] := hfive
      simp only [printNumber_field, hdigits]
      decide
    rw [output, formatLoop_directive]
    show formatLoop _ [] [] (printNumber _ 5 10 (-1) 0 signed []) = _
    rw [htext, formatLoop_nil]
  · rintro ⟨before, sign, digits, behind, htext, -, -, hne, -⟩
    have hlength := congrArg List.length htext
    simp only [List.length_nil, List.length_append] at hlength
    exact hne (List.length_eq_zero_iff.mp (by omega))

end Conversions

end PandoraRobot.Kernel
