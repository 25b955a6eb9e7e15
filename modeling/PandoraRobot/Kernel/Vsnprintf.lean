import PandoraRobot.Lib.BoundedWriter

/-! # Formatted output

`rt_vsnprintf` and `print_number` of `kservice.c`, with `RT_PRINTF_PRECISION` and without
`RT_PRINTF_LONGLONG` and `RT_PRINTF_SPECIAL`.

Each character is stored only before the end of the buffer, and the pointer moves on in any case.
The functions are written over any way to put a character, so that the same ones tell what an
unbounded buffer receives.
-/

namespace PandoraRobot.Kernel

open PandoraRobot.BoundedWriter PandoraRobot.RingBuffer

abbrev CChar := BitVec 8

def chr (c : Char) : CChar := BitVec.ofNat 8 c.toNat

/-- A result of type `int`. -/
def wrapInt (x : Int) : Int := x.bmod (2 ^ 32)

def zeropad : BitVec 8 := 0x01
def signed : BitVec 8 := 0x02
def plus : BitVec 8 := 0x04
def space : BitVec 8 := 0x08
def left : BitVec 8 := 0x10
def special : BitVec 8 := 0x20
def large : BitVec 8 := 0x40

/-! ## Arguments -/

/-- An argument, by the type that it is read with. -/
inductive VaArg where
  | int (value : BitVec 32)
  | string (s : Option (List CChar))
  | pointer (p : BitVec 32)
  deriving DecidableEq, Repr

def vaInt : List VaArg → Option (BitVec 32 × List VaArg)
  | .int value :: args => some (value, args)
  | _ => none

def vaString : List VaArg → Option (Option (List CChar) × List VaArg)
  | .string s :: args => some (s, args)
  | _ => none

def vaPointer : List VaArg → Option (BitVec 32 × List VaArg)
  | .pointer p :: args => some (p, args)
  | _ => none

/-! ## Numbers -/

section Put

variable {S : Type} (put : CChar → S → S)

/-- `while (lo < n) put c`, with `n` counted down. -/
def pad (c : CChar) (lo n : Int) (str : S) : Int × S :=
  if lo < n then pad c lo (n - 1) (put c str) else (n, str)
termination_by (n - lo).toNat

/-- `while (lo < n--) put c`. -/
def padDec (c : CChar) (lo n : Int) (str : S) : Int × S :=
  let padded := pad put c lo n str
  (wrapInt (padded.1 - 1), padded.2)

def putAll (s : List CChar) (str : S) : S := s.foldl (fun str c => put c str) str

/-- `divide`: the digit, and what is left. -/
def divide (n base : Nat) : Nat × Nat := if base = 10 then (n % 10, n / 10) else (n % 16, n / 16)

theorem divide_lt {n base : Nat} (h : n ≠ 0) : (divide n base).2 < n := by
  unfold divide
  split <;> simp only <;> omega

/-- `digits[d]`. -/
def digitChar (type : BitVec 8) (d : Nat) : CChar :=
  if d < 10 then chr '0' + BitVec.ofNat 8 d
  else (if type &&& large ≠ 0 then chr 'A' else chr 'a') + BitVec.ofNat 8 (d - 10)

/-- The loop that fills `tmp`. -/
def tmpDigits (type : BitVec 8) (base num : Nat) : List CChar :=
  if num = 0 then []
  else digitChar type (divide num base).1 :: tmpDigits type base (divide num base).2
termination_by num
decreasing_by exact divide_lt ‹_›

theorem tmpDigits_length {type : BitVec 8} {base num k : Nat} (h : num < 10 ^ k) :
    (tmpDigits type base num).length ≤ k := by
  induction k generalizing num with
  | zero =>
    rw [Nat.pow_zero, Nat.lt_one_iff] at h
    rw [h, tmpDigits, if_pos rfl]
    exact Nat.le_refl 0
  | succ k ih =>
    rw [tmpDigits]
    split
    · exact Nat.zero_le _
    · refine Nat.succ_le_succ (ih ?_)
      rw [Nat.pow_succ] at h
      unfold divide
      split <;> simp only <;> omega

/-- `tmp` has room for 16. -/
theorem tmpDigits_fits (type : BitVec 8) (base : Nat) (num : BitVec 32) :
    (tmpDigits type base num.toNat).length ≤ 16 :=
  Nat.le_trans (tmpDigits_length (k := 10) (Nat.lt_trans num.isLt (by decide))) (by decide)

/-- The sign, or 0, and the number without it. -/
def numberSign (type : BitVec 8) (num : BitVec 32) : CChar × BitVec 32 :=
  if type &&& signed ≠ 0 then
    if num.slt 0 then (chr '-', -num)
    else if type &&& plus ≠ 0 then (chr '+', num)
    else if type &&& space ≠ 0 then (chr ' ', num)
    else (0, num)
  else (0, num)

/-- The blanks in front, in `print_number`; the size that is left comes with the buffer. -/
def putBlanks (type : BitVec 8) (sign : CChar) (size : Int) (buf : S) : Int × S :=
  if type &&& (zeropad ||| left) = 0 then
    padDec put (chr ' ') 0 (if sign ≠ 0 ∧ 0 < size then size - 1 else size) buf
  else (size, buf)

def putSign (sign : CChar) (buf : Int × S) : Int × S :=
  if sign ≠ 0 then (wrapInt (buf.1 - 1), put sign buf.2) else buf

/-- The padding behind the sign. -/
def putPads (type : BitVec 8) (buf : Int × S) : Int × S :=
  if type &&& left = 0 then
    padDec put (if type &&& zeropad ≠ 0 then chr '0' else chr ' ') 0 buf.1 buf.2
  else buf

/-- The zeros of the precision, and the digits. -/
def putDigits (tmp : List CChar) (precisionBak precision : Int) (buf : S) : S :=
  let zeros := padDec put (chr '0') tmp.length precision buf
  if precisionBak ≠ 0 then putAll put tmp.reverse zeros.2 else zeros.2

/-- `print_number`. -/
def printNumber (num : BitVec 32) (base : Nat) (s precision : Int) (type : BitVec 8) (buf : S) : S :=
  let type := if type &&& left ≠ 0 then type &&& ~~~zeropad else type
  let sign := (numberSign type num).1
  let num := (numberSign type num).2
  let tmp := if num = 0 then [chr '0'] else tmpDigits type base num.toNat
  let precisionBak := precision
  let precision := if precision < tmp.length then (tmp.length : Int) else precision
  let pads := putPads put type (putSign put sign (putBlanks put type sign (wrapInt (s - precision)) buf))
  (padDec put (chr ' ') 0 pads.1 (putDigits put tmp precisionBak precision pads.2)).2

end Put

/-! ## Conversion specifications -/

def isdigit (c : CChar) : Bool := c.setWidth 32 - 48#32 < 10#32

/-- `skip_atoi`. -/
def skipAtoi (i : Int) : List CChar → Int × List CChar
  | [] => (i, [])
  | c :: s => if isdigit c then skipAtoi (wrapInt (i * 10 + c.toNat - 48)) s else (i, c :: s)

def parseFlags (flags : BitVec 8) : List CChar → BitVec 8 × List CChar
  | [] => (flags, [])
  | c :: fmt =>
    if c = chr '-' then parseFlags (flags ||| left) fmt
    else if c = chr '+' then parseFlags (flags ||| plus) fmt
    else if c = chr ' ' then parseFlags (flags ||| space) fmt
    else if c = chr '#' then parseFlags (flags ||| special) fmt
    else if c = chr '0' then parseFlags (flags ||| zeropad) fmt
    else (flags, c :: fmt)

/-- What the specification of a conversion says, as far as it is read. -/
structure ConversionSpec where
  flags : BitVec 8
  fieldWidth : Int
  precision : Int
  qualifier : CChar
  deriving DecidableEq, Repr

/-- The field width: from the format, or from the arguments. -/
def parseWidth (flags : BitVec 8) (args : List VaArg) :
    List CChar → Option (Int × BitVec 8 × List CChar × List VaArg)
  | [] => some (-1, flags, [], args)
  | c :: fmt =>
    if isdigit c then
      some ((skipAtoi 0 (c :: fmt)).1, flags, (skipAtoi 0 (c :: fmt)).2, args)
    else if c = chr '*' then do
      let (fieldWidth, args) ← vaInt args
      if fieldWidth.toInt < 0 then some (wrapInt (-fieldWidth.toInt), flags ||| left, fmt, args)
      else some (fieldWidth.toInt, flags, fmt, args)
    else some (-1, flags, c :: fmt, args)

/-- What follows the `.` of a precision. -/
def parsePrecisionValue (args : List VaArg) :
    List CChar → Option (Int × List CChar × List VaArg)
  | [] => some (-1, [], args)
  | c :: fmt =>
    if isdigit c then some ((skipAtoi 0 (c :: fmt)).1, (skipAtoi 0 (c :: fmt)).2, args)
    else if c = chr '*' then do
      let (precision, args) ← vaInt args
      some (precision.toInt, fmt, args)
    else some (-1, c :: fmt, args)

def parsePrecision (args : List VaArg) : List CChar → Option (Int × List CChar × List VaArg)
  | [] => some (-1, [], args)
  | c :: fmt =>
    if c = chr '.' then do
      let (precision, fmt, args) ← parsePrecisionValue args fmt
      some (if precision < 0 then 0 else precision, fmt, args)
    else some (-1, c :: fmt, args)

def parseQualifier : List CChar → CChar × List CChar
  | [] => (0, [])
  | c :: fmt => if c = chr 'h' ∨ c = chr 'l' then (c, fmt) else (0, c :: fmt)

/-- Flags, field width, precision and qualifier. -/
def parseSpec (args : List VaArg) (fmt : List CChar) :
    Option (ConversionSpec × List CChar × List VaArg) := do
  let (fieldWidth, flags, fmt, args) ← parseWidth (parseFlags 0 fmt).1 args (parseFlags 0 fmt).2
  let (precision, fmt, args) ← parsePrecision args fmt
  some (⟨flags, fieldWidth, precision, (parseQualifier fmt).1⟩, (parseQualifier fmt).2, args)

/-- The base of an integer conversion, and its flags. -/
def integerFormat (flags : BitVec 8) (conv : CChar) : Option (Nat × BitVec 8) :=
  if conv = chr 'o' then some (8, flags)
  else if conv = chr 'X' then some (16, flags ||| large)
  else if conv = chr 'x' then some (16, flags)
  else if conv = chr 'd' ∨ conv = chr 'i' then some (10, flags ||| signed)
  else if conv = chr 'u' then some (10, flags)
  else none

/-- The number of an integer conversion. -/
def integerArg (flags : BitVec 8) (qualifier : CChar) (value : BitVec 32) : BitVec 32 :=
  if qualifier = chr 'h' then
    if flags &&& signed ≠ 0 then (value.setWidth 16).signExtend 32
    else (value.setWidth 16).setWidth 32
  else value

/-! ## The loop -/

section Put

variable {S : Type} (put : CChar → S → S)

/-- The `c` conversion. -/
def putChar (spec : ConversionSpec) (c : CChar) (str : S) : S :=
  let blanks :=
    if spec.flags &&& left = 0 then pad put (chr ' ') 0 (wrapInt (spec.fieldWidth - 1)) str
    else (spec.fieldWidth, str)
  (pad put (chr ' ') 0 (wrapInt (blanks.1 - 1)) (put c blanks.2)).2

/-- The `s` conversion. -/
def putString (spec : ConversionSpec) (s : Option (List CChar)) (str : S) : S :=
  let s := s.getD ("(NULL)".toList.map chr)
  let len := wrapInt s.length
  let len := if 0 < spec.precision ∧ spec.precision < len then spec.precision else len
  let blanks :=
    if spec.flags &&& left = 0 then padDec put (chr ' ') len spec.fieldWidth str
    else (spec.fieldWidth, str)
  (padDec put (chr ' ') len blanks.1 (putAll put (s.take len.toNat) blanks.2)).2

/-- The `p` conversion. -/
def putPointer (spec : ConversionSpec) (p : BitVec 32) (str : S) : S :=
  if spec.fieldWidth = -1 then printNumber put p 16 8 spec.precision (spec.flags ||| zeropad) str
  else printNumber put p 16 spec.fieldWidth spec.precision spec.flags str

/-- A conversion, up to the end of the pass of the loop. -/
def convert (spec : ConversionSpec) (conv : CChar) (args : List VaArg) (str : S) :
    Option (S × List VaArg) :=
  if conv = chr 'c' then (vaInt args).map fun (c, args) => (putChar put spec (c.setWidth 8) str, args)
  else if conv = chr 's' then (vaString args).map fun (s, args) => (putString put spec s str, args)
  else if conv = chr 'p' then (vaPointer args).map fun (p, args) => (putPointer put spec p str, args)
  else if conv = chr '%' then some (put (chr '%') str, args)
  else
    match integerFormat spec.flags conv with
    | some (base, flags) => (vaInt args).map fun (value, args) =>
        (printNumber put (integerArg flags spec.qualifier value) base spec.fieldWidth spec.precision
          flags str, args)
    | none => some (put conv (put (chr '%') str), args)

/-- What follows a `%`: the pass of the loop, and what is left of the format and the arguments. -/
def directive (args : List VaArg) (fmt : List CChar) (str : S) :
    Option (S × List CChar × List VaArg) := do
  let (spec, fmt, args) ← parseSpec args fmt
  match fmt with
  | [] => some (put (chr '%') str, [], args)
  | conv :: fmt => (convert put spec conv args str).map fun (str, args) => (str, fmt, args)

theorem skipAtoi_length (i : Int) (s : List CChar) : (skipAtoi i s).2.length ≤ s.length := by
  induction s generalizing i with
  | nil => exact Nat.le_refl _
  | cons c s ih =>
    rw [skipAtoi]
    split
    · exact Nat.le_succ_of_le (ih _)
    · exact Nat.le_refl _

theorem parseFlags_length (flags : BitVec 8) (fmt : List CChar) :
    (parseFlags flags fmt).2.length ≤ fmt.length := by
  induction fmt generalizing flags with
  | nil => exact Nat.le_refl _
  | cons c fmt ih =>
    rw [parseFlags]
    repeat' split
    all_goals first | exact Nat.le_succ_of_le (ih _) | exact Nat.le_refl _

theorem parseWidth_length {flags : BitVec 8} {args : List VaArg} {fmt : List CChar}
    {parsed : Int × BitVec 8 × List CChar × List VaArg}
    (h : parseWidth flags args fmt = some parsed) : parsed.2.2.1.length ≤ fmt.length := by
  cases fmt with
  | nil =>
    cases h
    exact Nat.le_refl _
  | cons c fmt =>
    rw [parseWidth] at h
    split at h
    · cases h
      exact skipAtoi_length 0 (c :: fmt)
    · split at h
      · obtain ⟨⟨fieldWidth, args⟩, -, h⟩ := Option.bind_eq_some_iff.mp h
        simp only at h
        split at h <;> cases h <;> exact Nat.le_succ _
      · cases h
        exact Nat.le_refl _

theorem parsePrecisionValue_length {args : List VaArg} {fmt : List CChar}
    {parsed : Int × List CChar × List VaArg}
    (h : parsePrecisionValue args fmt = some parsed) : parsed.2.1.length ≤ fmt.length := by
  cases fmt with
  | nil =>
    cases h
    exact Nat.le_refl _
  | cons c fmt =>
    rw [parsePrecisionValue] at h
    split at h
    · cases h
      exact skipAtoi_length 0 (c :: fmt)
    · split at h
      · obtain ⟨⟨precision, args⟩, -, h⟩ := Option.bind_eq_some_iff.mp h
        cases h
        exact Nat.le_succ _
      · cases h
        exact Nat.le_refl _

theorem parsePrecision_length {args : List VaArg} {fmt : List CChar}
    {parsed : Int × List CChar × List VaArg}
    (h : parsePrecision args fmt = some parsed) : parsed.2.1.length ≤ fmt.length := by
  cases fmt with
  | nil =>
    cases h
    exact Nat.le_refl _
  | cons c fmt =>
    rw [parsePrecision] at h
    split at h
    · obtain ⟨value, hvalue, h⟩ := Option.bind_eq_some_iff.mp h
      cases h
      have hlength := parsePrecisionValue_length hvalue
      exact Nat.le_succ_of_le hlength
    · cases h
      exact Nat.le_refl _

theorem parseQualifier_length (fmt : List CChar) :
    (parseQualifier fmt).2.length ≤ fmt.length := by
  cases fmt with
  | nil => exact Nat.le_refl _
  | cons c fmt =>
    rw [parseQualifier]
    split
    · exact Nat.le_succ _
    · exact Nat.le_refl _

/-- The format does not grow. -/
theorem parseSpec_length {args : List VaArg} {fmt : List CChar}
    {parsed : ConversionSpec × List CChar × List VaArg}
    (h : parseSpec args fmt = some parsed) : parsed.2.1.length ≤ fmt.length := by
  obtain ⟨width, hwidth, h⟩ := Option.bind_eq_some_iff.mp h
  obtain ⟨precision, hprecision, h⟩ := Option.bind_eq_some_iff.mp h
  cases h
  calc (parseQualifier precision.2.1).2.length
      ≤ precision.2.1.length := parseQualifier_length _
    _ ≤ width.2.2.1.length := parsePrecision_length hprecision
    _ ≤ (parseFlags 0 fmt).2.length := parseWidth_length hwidth
    _ ≤ fmt.length := parseFlags_length 0 fmt

theorem directive_length {args : List VaArg} {fmt : List CChar} {str : S}
    {passed : S × List CChar × List VaArg}
    (h : directive put args fmt str = some passed) : passed.2.1.length ≤ fmt.length := by
  obtain ⟨⟨spec, rest, args'⟩, hspec, h⟩ := Option.bind_eq_some_iff.mp h
  have hlength := parseSpec_length hspec
  cases rest with
  | nil =>
    cases h
    exact Nat.zero_le _
  | cons conv rest =>
    obtain ⟨converted, -, rfl⟩ := Option.map_eq_some_iff.mp h
    exact Nat.le_of_succ_le hlength

/-- The loop of `rt_vsnprintf`. -/
def formatLoop (args : List VaArg) (fmt : List CChar) (str : S) : Option S :=
  match fmt with
  | [] => some str
  | c :: fmt =>
    if c ≠ chr '%' then formatLoop args fmt (put c str)
    else
      match _h : directive put args fmt str with
      | none => none
      | some (str, rest, args) => formatLoop args rest str
termination_by fmt.length
decreasing_by
  · exact Nat.lt_succ_self _
  · exact Nat.lt_succ_of_le (directive_length put _h)

theorem formatLoop_nil (args : List VaArg) (str : S) : formatLoop put args [] str = some str := by
  rw [formatLoop]

theorem formatLoop_plain (args : List VaArg) {c : CChar} (hc : c ≠ chr '%') (fmt : List CChar)
    (str : S) : formatLoop put args (c :: fmt) str = formatLoop put args fmt (put c str) := by
  rw [formatLoop, if_pos hc]

theorem formatLoop_directive (args : List VaArg) (fmt : List CChar) (str : S) :
    formatLoop put args (chr '%' :: fmt) str =
      (directive put args fmt str).bind fun passed =>
        formatLoop put passed.2.2 passed.2.1 passed.1 := by
  rw [formatLoop, if_neg (not_not.mpr rfl)]
  split
  · next hnone => rw [hnone, Option.bind_none]
  · next hsome => rw [hsome, Option.bind_some]

end Put

/-- What an unbounded buffer receives. -/
def output (args : List VaArg) (fmt : List CChar) : Option (List CChar) :=
  formatLoop (fun c str => str ++ [c]) args fmt []

/-- `rt_vsnprintf`: the stores it makes, and what it returns. -/
def rtVsnprintf (buf size : BitVec 32) (fmt : List CChar) (args : List VaArg) :
    Option (List (BitVec 32 × CChar) × Int) := do
  let limit := if buf + size < buf then BitVec.allOnes 32 else buf + size
  let size := if buf + size < buf then limit - buf else size
  let str ← formatLoop (put limit) args fmt ⟨buf, []⟩
  let terminator :=
    if 0 < size then if str.ptr < limit then [(str.ptr, 0)] else [(limit - 1, 0)] else []
  some (str.stores ++ terminator, (str.ptr - buf).toInt)

/-! ## Two ways to put a character

What is put does not depend on how: two ways that keep states related do so in every function.
-/

section Simulation

variable {S T : Type} {put : CChar → S → S} {put' : CChar → T → T} {R : S → T → Prop}

/-- The same count, and related states. -/
def Alike (R : S → T → Prop) (x : Int × S) (y : Int × T) : Prop := x.1 = y.1 ∧ R x.2 y.2

theorem Alike.ite {p : Prop} [Decidable p] {x x' : Int × S} {y y' : Int × T} (h : Alike R x y)
    (h' : Alike R x' y') : Alike R (if p then x else x') (if p then y else y') := by
  split <;> assumption

variable (hput : ∀ c str str', R str str' → R (put c str) (put' c str'))
include hput

theorem pad_alike (c : CChar) (lo n : Int) {str : S} {str' : T} (h : R str str') :
    Alike R (pad put c lo n str) (pad put' c lo n str') := by
  fun_induction pad put c lo n str generalizing str' with
  | case1 n str hlt ih =>
    rw [pad.eq_def put' c lo n, if_pos hlt]
    exact ih (hput c str str' h)
  | case2 n str hlt =>
    rw [pad, if_neg hlt]
    exact ⟨rfl, h⟩

theorem padDec_alike (c : CChar) (lo : Int) {n n' : Int} {str : S} {str' : T} (hn : n = n')
    (h : R str str') : Alike R (padDec put c lo n str) (padDec put' c lo n' str') := by
  subst hn
  obtain ⟨hcount, hstr⟩ := pad_alike hput c lo n h
  exact ⟨congrArg (fun n => wrapInt (n - 1)) hcount, hstr⟩

theorem putAll_related (s : List CChar) {str : S} {str' : T} (h : R str str') :
    R (putAll put s str) (putAll put' s str') := by
  induction s generalizing str str' with
  | nil => exact h
  | cons c s ih => exact ih (hput c str str' h)

theorem putBlanks_alike (type : BitVec 8) (sign : CChar) (size : Int) {buf : S} {buf' : T}
    (h : R buf buf') : Alike R (putBlanks put type sign size buf)
      (putBlanks put' type sign size buf') :=
  Alike.ite (padDec_alike hput _ _ rfl h) ⟨rfl, h⟩

theorem putSign_alike (sign : CChar) {buf : Int × S} {buf' : Int × T} (h : Alike R buf buf') :
    Alike R (putSign put sign buf) (putSign put' sign buf') :=
  Alike.ite ⟨congrArg (fun n => wrapInt (n - 1)) h.1, hput sign _ _ h.2⟩ h

theorem putPads_alike (type : BitVec 8) {buf : Int × S} {buf' : Int × T} (h : Alike R buf buf') :
    Alike R (putPads put type buf) (putPads put' type buf') :=
  Alike.ite (padDec_alike hput _ _ h.1 h.2) h

theorem putDigits_related (tmp : List CChar) (precisionBak precision : Int) {buf : S} {buf' : T}
    (h : R buf buf') : R (putDigits put tmp precisionBak precision buf)
      (putDigits put' tmp precisionBak precision buf') := by
  have hzeros := (padDec_alike hput (chr '0') tmp.length (rfl : precision = precision) h).2
  rw [putDigits, putDigits]
  split
  · exact putAll_related hput _ hzeros
  · exact hzeros

theorem printNumber_related (num : BitVec 32) (base : Nat) (s precision : Int) (type : BitVec 8)
    {buf : S} {buf' : T} (h : R buf buf') :
    R (printNumber put num base s precision type buf)
      (printNumber put' num base s precision type buf') := by
  have hpads := fun type sign size => putPads_alike hput type
    (putSign_alike hput sign (putBlanks_alike hput type sign size h))
  exact (padDec_alike hput _ _ (hpads _ _ _).1 (putDigits_related hput _ _ _ (hpads _ _ _).2)).2

theorem putChar_related (spec : ConversionSpec) (c : CChar) {str : S} {str' : T} (h : R str str') :
    R (putChar put spec c str) (putChar put' spec c str') := by
  have hblanks : Alike R
      (if spec.flags &&& left = 0 then pad put (chr ' ') 0 (wrapInt (spec.fieldWidth - 1)) str
        else (spec.fieldWidth, str))
      (if spec.flags &&& left = 0 then pad put' (chr ' ') 0 (wrapInt (spec.fieldWidth - 1)) str'
        else (spec.fieldWidth, str')) :=
    Alike.ite (pad_alike hput _ _ _ h) ⟨rfl, h⟩
  rw [putChar, putChar, hblanks.1]
  exact (pad_alike hput _ _ _ (hput c _ _ hblanks.2)).2

theorem putString_related (spec : ConversionSpec) (s : Option (List CChar)) {str : S} {str' : T}
    (h : R str str') : R (putString put spec s str) (putString put' spec s str') := by
  have hblanks : ∀ len : Int, Alike R
      (if spec.flags &&& left = 0 then padDec put (chr ' ') len spec.fieldWidth str
        else (spec.fieldWidth, str))
      (if spec.flags &&& left = 0 then padDec put' (chr ' ') len spec.fieldWidth str'
        else (spec.fieldWidth, str')) := fun len =>
    Alike.ite (padDec_alike hput _ _ rfl h) ⟨rfl, h⟩
  exact (padDec_alike hput _ _ (hblanks _).1 (putAll_related hput _ (hblanks _).2)).2

theorem putPointer_related (spec : ConversionSpec) (p : BitVec 32) {str : S} {str' : T}
    (h : R str str') : R (putPointer put spec p str) (putPointer put' spec p str') := by
  rw [putPointer, putPointer]
  split
  · exact printNumber_related hput _ _ _ _ _ h
  · exact printNumber_related hput _ _ _ _ _ h

omit hput in
theorem rel_map {A B C : Type} {r : B → C → Prop} {f : A → B} {f' : A → C} (x : Option A)
    (h : ∀ a, r (f a) (f' a)) : Option.Rel r (x.map f) (x.map f') := by
  cases x with
  | none => exact .none
  | some a => exact .some (h a)

theorem convert_related (spec : ConversionSpec) (conv : CChar) (args : List VaArg) {str : S}
    {str' : T} (h : R str str') : Option.Rel (fun p q => R p.1 q.1 ∧ p.2 = q.2)
      (convert put spec conv args str) (convert put' spec conv args str') := by
  unfold convert
  split
  · exact rel_map _ fun a => ⟨putChar_related hput _ _ h, rfl⟩
  split
  · exact rel_map _ fun a => ⟨putString_related hput _ _ h, rfl⟩
  split
  · exact rel_map _ fun a => ⟨putPointer_related hput _ _ h, rfl⟩
  split
  · exact .some ⟨hput _ _ _ h, rfl⟩
  split
  · exact rel_map _ fun a => ⟨printNumber_related hput _ _ _ _ _ h, rfl⟩
  · exact .some ⟨hput _ _ _ (hput _ _ _ h), rfl⟩

theorem directive_related (args : List VaArg) (fmt : List CChar) {str : S} {str' : T}
    (h : R str str') : Option.Rel (fun p q => R p.1 q.1 ∧ p.2 = q.2)
      (directive put args fmt str) (directive put' args fmt str') := by
  unfold directive
  cases parseSpec args fmt with
  | none => exact .none
  | some parsed =>
    obtain ⟨spec, rest, args⟩ := parsed
    cases rest with
    | nil => exact .some ⟨hput _ _ _ h, rfl⟩
    | cons conv rest =>
      have hconv := convert_related hput spec conv args h
      show Option.Rel _ ((convert put spec conv args str).map _)
        ((convert put' spec conv args str').map _)
      generalize convert put spec conv args str = x at hconv ⊢
      generalize convert put' spec conv args str' = y at hconv ⊢
      cases hconv with
      | none => exact .none
      | some hrel => exact .some ⟨hrel.1, congrArg (Prod.mk rest) hrel.2⟩

/-- The loop does the same with both. -/
theorem formatLoop_related (args : List VaArg) (fmt : List CChar) {str : S} {str' : T}
    (h : R str str') : Option.Rel R (formatLoop put args fmt str) (formatLoop put' args fmt str') := by
  induction hlength : fmt.length using Nat.strong_induction_on generalizing args fmt str str' with
  | _ k ih =>
    subst hlength
    cases fmt with
    | nil =>
      rw [formatLoop_nil, formatLoop_nil]
      exact .some h
    | cons c fmt =>
      by_cases hc : c = chr '%'
      · subst hc
        rw [formatLoop_directive, formatLoop_directive]
        have hpass := directive_related hput args fmt h
        cases hdirective : directive put args fmt str with
        | none =>
          rw [hdirective] at hpass
          generalize directive put' args fmt str' = y at hpass ⊢
          cases hpass
          exact .none
        | some passed =>
          have hrest := directive_length put hdirective
          rw [hdirective] at hpass
          generalize directive put' args fmt str' = y at hpass ⊢
          cases hpass with
          | some hrel =>
            rw [Option.bind_some, Option.bind_some, ← hrel.2]
            exact ih _ (Nat.lt_succ_of_le hrest) _ _ hrel.1 rfl
      · rw [formatLoop_plain put args hc, formatLoop_plain put' args hc]
        exact ih _ (Nat.lt_succ_self _) args fmt (hput c str str' h) rfl

end Simulation

/-! ## What is written -/

variable {buf size : BitVec 32} {fmt text : List CChar} {args : List VaArg}

/-- The loop puts what an unbounded buffer receives. -/
theorem formatLoop_output (limit buf : BitVec 32) (args : List VaArg) (fmt : List CChar) :
    formatLoop (put limit) args fmt ⟨buf, []⟩ = (output args fmt).map (written limit ⟨buf, []⟩) := by
  have hsame : Option.Rel (fun str text => str = written limit ⟨buf, []⟩ text)
      (formatLoop (put limit) args fmt ⟨buf, []⟩) (output args fmt) := by
    apply formatLoop_related
    · rintro c _ text rfl
      exact put_written
    · exact written_nil.symm
  generalize formatLoop (put limit) args fmt ⟨buf, []⟩ = x at hsame ⊢
  generalize output args fmt = y at hsame ⊢
  cases hsame with
  | none => rfl
  | some h => rw [h, Option.map_some]

/-- The end of the buffer. -/
def bufEnd (buf size : BitVec 32) : BitVec 32 :=
  if buf + size < buf then BitVec.allOnes 32 else buf + size

/-- How much of a buffer is used: all of it, or what lies before the last address. -/
def room (buf size : BitVec 32) : Nat := min size.toNat (2 ^ 32 - 1 - buf.toNat)

theorem bufEnd_toNat (buf size : BitVec 32) :
    (bufEnd buf size).toNat = buf.toNat + room buf size := by
  have hbuf := buf.isLt
  have hsize := size.isLt
  unfold bufEnd room
  split
  · next h =>
    rw [BitVec.lt_def, BitVec.toNat_add] at h
    rw [BitVec.toNat_allOnes]
    omega
  · next h =>
    rw [BitVec.lt_def, BitVec.toNat_add] at h
    rw [BitVec.toNat_add]
    omega

theorem used_toNat (buf size : BitVec 32) :
    (if buf + size < buf then bufEnd buf size - buf else size).toNat = room buf size := by
  have hend := bufEnd_toNat buf size
  have hbuf := buf.isLt
  have hsize := size.isLt
  split
  · rw [BitVec.toNat_sub, hend, room]
    omega
  · next h =>
    rw [BitVec.lt_def, BitVec.toNat_add] at h
    rw [room]
    omega

/-- The NUL that ends `text`. -/
def terminator (buf size : BitVec 32) (text : List CChar) : List (BitVec 32 × CChar) :=
  if 0 < room buf size then
    if buf + BitVec.ofNat 32 text.length < bufEnd buf size then
      [(buf + BitVec.ofNat 32 text.length, 0)]
    else [(bufEnd buf size - 1, 0)]
  else []

/-- All stores of a call that puts `text`. -/
def stores (buf size : BitVec 32) (text : List CChar) : List (BitVec 32 × CChar) :=
  guarded (bufEnd buf size) buf text ++ terminator buf size text

theorem rtVsnprintf_eq (buf size : BitVec 32) (h : output args fmt = some text) :
    rtVsnprintf buf size fmt args =
      some (stores buf size text, (BitVec.ofNat 32 text.length).toInt) := by
  have hused := used_toNat buf size
  have hpos : 0 < (if buf + size < buf then bufEnd buf size - buf else size) ↔
      0 < room buf size := by
    rw [BitVec.lt_def, hused]
    rfl
  have hlength : buf + BitVec.ofNat 32 text.length - buf = BitVec.ofNat 32 text.length := by
    rw [BitVec.add_comm, BitVec.add_sub_cancel]
  show ((formatLoop (put (bufEnd buf size)) args fmt ⟨buf, []⟩).bind _) = _
  rw [formatLoop_output, h]
  simp only [Option.map_some, Option.bind_some, written, List.nil_append, hlength]
  simp only [stores, terminator, ← hpos]
  rfl

/-- What a call must do with `text`, which an unbounded buffer would receive. -/
structure Formatted (buf size : BitVec 32) (text : List CChar)
    (stores : List (BitVec 32 × CChar)) (result : Int) : Prop where
  /-- nothing is written outside the buffer -/
  inside : ∀ store ∈ stores, buf.toNat ≤ store.1.toNat ∧ store.1.toNat < buf.toNat + size.toNat
  /-- the buffer holds the text, as much as fits, and a NUL -/
  contents : size ≠ 0 → ∀ mem : Nat → CChar,
    load (after mem stores) buf.toNat ((text.take (room buf size - 1)).length + 1) =
      text.take (room buf size - 1) ++ [0]
  returned : result = text.length

/-- The text is shorter than 2^31, and ends before the last address. -/
def Fits (buf size : BitVec 32) (length : Nat) : Prop :=
  length < 2 ^ 31 ∧
    if size = 0 then buf.toNat + length ≤ 2 ^ 32 else buf.toNat + max length 1 < 2 ^ 32

theorem toInt_ofNat_iff (length : Nat) :
    (BitVec.ofNat 32 length).toInt = length ↔ length < 2 ^ 31 := by
  rw [BitVec.toInt_ofNat', Int.bmod_def]
  constructor
  · intro h
    split at h <;> omega
  · intro h
    split <;> omega

theorem room_zero (buf : BitVec 32) : room buf 0 = 0 := by
  simp [room]

theorem room_pos (hsize : size ≠ 0) (hbuf : buf.toNat + 1 < 2 ^ 32) : 0 < room buf size := by
  have hne : size.toNat ≠ 0 := fun h => hsize (BitVec.eq_of_toNat_eq h)
  rw [room]
  omega

theorem room_le (buf size : BitVec 32) : room buf size ≤ size.toNat := Nat.min_le_left _ _

theorem guarded_text (h : buf.toNat + text.length ≤ 2 ^ 32) :
    guarded (bufEnd buf size) buf text = row buf (text.take (room buf size)) := by
  rw [guarded_eq_row h, bufEnd_toNat, Nat.add_sub_cancel_left]

/-- A text that fits: the stores put it into the buffer, as much as there is room for, and a NUL. -/
theorem after_stores (hroom : 0 < room buf size) (h : buf.toNat + text.length < 2 ^ 32)
    (mem : Nat → CChar) : after mem (stores buf size text) =
      RingBuffer.store mem buf.toNat (text.take (room buf size - 1) ++ [0]) := by
  have hend := bufEnd_toNat buf size
  have hptr : (buf + BitVec.ofNat 32 text.length).toNat = buf.toNat + text.length := by
    rw [BitVec.toNat_add, BitVec.toNat_ofNat, Nat.add_mod_mod, Nat.mod_eq_of_lt h]
  have hlength : (text.take (room buf size)).length ≤ text.length := by
    rw [List.length_take]
    exact Nat.min_le_right _ _
  rw [stores, guarded_text (Nat.le_of_lt h), after_append, after_row (by omega), terminator,
    if_pos hroom]
  by_cases hfits : text.length < room buf size
  · have hlt : buf + BitVec.ofNat 32 text.length < bufEnd buf size := by
      rw [BitVec.lt_def, hptr, hend]
      omega
    rw [if_pos hlt, List.take_of_length_le (by omega), List.take_of_length_le (by omega)]
    show RingBuffer.store _ (buf + BitVec.ofNat 32 text.length).toNat [0] = _
    rw [hptr, store_store]
  · have hnot : ¬ buf + BitVec.ofNat 32 text.length < bufEnd buf size := by
      rw [BitVec.lt_def, hptr, hend]
      omega
    -- the last character that was stored makes room for the NUL
    obtain ⟨k, hk⟩ : ∃ k, room buf size = k + 1 := ⟨room buf size - 1, by omega⟩
    have hlast : (bufEnd buf size - 1).toNat = buf.toNat + (text.take k).length := by
      have hone : (1 : BitVec 32).toNat = 1 := rfl
      have hsmall := (bufEnd buf size).isLt
      rw [BitVec.toNat_sub, hend, List.length_take, hone]
      omega
    have hbound : k < text.length := by omega
    have hsplit : text.take (k + 1) = text.take k ++ [text[k]] :=
      List.take_succ_eq_append_getElem hbound
    rw [if_neg hnot, hk, hsplit, Nat.add_sub_cancel]
    show RingBuffer.store _ (bufEnd buf size - 1).toNat [0] = _
    rw [hlast, store_last]

theorem stores_inside (hroom : 0 < room buf size) (h : buf.toNat + text.length < 2 ^ 32)
    {store : BitVec 32 × CChar} (hmem : store ∈ stores buf size text) :
    buf.toNat ≤ store.1.toNat ∧ store.1.toNat < buf.toNat + size.toNat := by
  have hend := bufEnd_toNat buf size
  have hle := room_le buf size
  have hlength : (text.take (room buf size)).length ≤ text.length ∧
      (text.take (room buf size)).length ≤ room buf size := by
    rw [List.length_take]
    exact ⟨Nat.min_le_right _ _, Nat.min_le_left _ _⟩
  rw [stores, guarded_text (Nat.le_of_lt h)] at hmem
  obtain hrow | hnul := List.mem_append.mp hmem
  · have hbounds := mem_row hrow (by omega)
    omega
  · rw [terminator, if_pos hroom] at hnul
    split at hnul
    · next hlt =>
      rw [List.mem_singleton.mp hnul]
      rw [BitVec.lt_def, hend, BitVec.toNat_add, BitVec.toNat_ofNat, Nat.add_mod_mod,
        Nat.mod_eq_of_lt h] at hlt
      simp only [BitVec.toNat_add, BitVec.toNat_ofNat, Nat.add_mod_mod, Nat.mod_eq_of_lt h]
      omega
    · rw [List.mem_singleton.mp hnul]
      have hlast : (bufEnd buf size - 1).toNat = buf.toNat + room buf size - 1 := by
        have hone : (1 : BitVec 32).toNat = 1 := rfl
        have hsmall := (bufEnd buf size).isLt
        rw [BitVec.toNat_sub, hend, hone]
        omega
      simp only [hlast]
      omega

/-- A text that fits is formatted as it should. -/
theorem Fits.formatted (h : Fits buf size text.length) :
    Formatted buf size text (stores buf size text) (BitVec.ofNat 32 text.length).toInt := by
  obtain ⟨hlength, hplace⟩ := h
  have hreturned := (toInt_ofNat_iff text.length).mpr hlength
  by_cases hsize : size = 0
  · subst hsize
    rw [if_pos rfl] at hplace
    have hnone : stores buf 0 text = [] := by
      rw [stores, guarded_text hplace, terminator, room_zero]
      rfl
    refine ⟨fun store hmem => ?_, fun hne => absurd rfl hne, hreturned⟩
    rw [hnone] at hmem
    exact absurd hmem List.not_mem_nil
  · rw [if_neg hsize] at hplace
    have hroom : 0 < room buf size := room_pos hsize (by omega)
    refine ⟨fun store hmem => stores_inside hroom (by omega) hmem, fun _ mem => ?_, hreturned⟩
    rw [after_stores hroom (by omega)]
    have hload := load_store mem buf.toNat (text.take (room buf size - 1) ++ [0])
    rwa [List.length_append] at hload

/-- The last address: the buffer is not used, so it gets no NUL. -/
theorem contents_last (hbuf : buf.toNat + 1 = 2 ^ 32) :
    after (fun _ => 1) (stores buf size text) buf.toNat = 1 := by
  have hroom : room buf size = 0 := by
    rw [room]
    omega
  apply after_of_not_mem
  intro store hmem
  rw [stores, terminator, if_neg (by omega), List.append_nil] at hmem
  have hlt := lt_limit_of_mem hmem
  rw [BitVec.lt_def, bufEnd_toNat, hroom] at hlt
  omega

/-- A pointer that reaches the last address wraps, and something is stored at address 0. -/
theorem stores_zero (hsize : size ≠ 0) (hbuf : buf.toNat + 1 < 2 ^ 32)
    (h : 2 ^ 32 ≤ buf.toNat + text.length) : ∃ v, (0, v) ∈ stores buf size text := by
  have hroom := room_pos hsize hbuf
  have hend : (0 : BitVec 32) < bufEnd buf size := by
    rw [BitVec.lt_def, bufEnd_toNat]
    show 0 < _
    omega
  obtain heq | hlt := Nat.eq_or_lt_of_le h
  · have hptr : buf + BitVec.ofNat 32 text.length = 0 := by
      apply BitVec.eq_of_toNat_eq
      rw [BitVec.toNat_add, BitVec.toNat_ofNat, Nat.add_mod_mod, ← heq]
      rfl
    refine ⟨0, List.mem_append_right _ ?_⟩
    rw [terminator, if_pos hroom, hptr, if_pos hend]
    exact List.mem_singleton_self _
  · obtain ⟨v, hmem⟩ := exists_store_zero hlt hend
    exact ⟨v, List.mem_append_left _ hmem⟩

/-- Only a text that fits is. -/
theorem Formatted.fits
    (h : Formatted buf size text (stores buf size text) (BitVec.ofNat 32 text.length).toInt) :
    Fits buf size text.length := by
  have hlength := (toInt_ofNat_iff text.length).mp h.returned
  refine ⟨hlength, ?_⟩
  by_cases hsize : size = 0
  · subst hsize
    rw [if_pos rfl]
    by_contra hwraps
    have hend : (0 : BitVec 32) < bufEnd buf 0 := by
      rw [BitVec.lt_def, bufEnd_toNat]
      show 0 < _
      omega
    obtain ⟨v, hmem⟩ := exists_store_zero (Nat.lt_of_not_le hwraps) hend
    have hinside : buf.toNat ≤ 0 ∧ 0 < buf.toNat + 0 := h.inside _ (List.mem_append_left _ hmem)
    omega
  · rw [if_neg hsize]
    have hbuf : buf.toNat + 1 < 2 ^ 32 := by
      by_contra hlast
      have hbuf : buf.toNat + 1 = 2 ^ 32 := by
        have := buf.isLt
        omega
      have hroom : room buf size = 0 := by
        rw [room]
        omega
      have hnul := h.contents hsize fun _ => 1
      rw [hroom] at hnul
      have hbyte : after (fun _ => 1) (stores buf size text) buf.toNat = 0 := by
        simpa [load] using hnul
      rw [contents_last hbuf] at hbyte
      exact absurd hbyte (by decide)
    by_contra hwraps
    have hpast : 2 ^ 32 ≤ buf.toNat + text.length := by omega
    obtain ⟨v, hmem⟩ := stores_zero hsize hbuf hpast
    have hinside : buf.toNat ≤ 0 ∧ 0 < buf.toNat + size.toNat := h.inside _ hmem
    omega

/-- `rt_vsnprintf` stays inside its buffer, fills it with as much of the text as there is room for
    and a NUL, and returns the length of the text, if and only if the text fits in the address
    space and its length in the result. -/
theorem rt_vsnprintf_formatted (buf size : BitVec 32) (h : output args fmt = some text) :
    ∃ stores result, rtVsnprintf buf size fmt args = some (stores, result) ∧
      (Formatted buf size text stores result ↔ Fits buf size text.length) :=
  ⟨_, _, rtVsnprintf_eq buf size h, Formatted.fits, Fits.formatted⟩

/-! ## A field of characters -/

theorem pad_snoc (c : CChar) (lo n : Int) (str : List CChar) :
    pad (fun c str => str ++ [c]) c lo n str =
      (if lo < n then lo else n, str ++ List.replicate (n - lo).toNat c) := by
  fun_induction pad (fun c str => str ++ [c]) c lo n str with
  | case1 n str hlt ih =>
    obtain ⟨k, hk⟩ : ∃ k, (n - lo).toNat = k + 1 := ⟨(n - lo).toNat - 1, by omega⟩
    rw [ih, if_pos hlt, hk, show (n - 1 - lo).toNat = k by omega, List.replicate_succ,
      List.append_assoc]
    refine Prod.ext ?_ rfl
    show (if lo < n - 1 then lo else n - 1) = lo
    split <;> omega
  | case2 n str hge =>
    rw [if_neg hge, show (n - lo).toNat = 0 by omega, List.replicate_zero, List.append_nil]

theorem wrapInt_eq {x : Int} (hlow : -2 ^ 31 ≤ x) (hhigh : x < 2 ^ 31) : wrapInt x = x := by
  rw [wrapInt, Int.bmod_def]
  split <;> omega

/-- A character in a field is put behind blanks. -/
theorem putChar_snoc {spec : ConversionSpec} (hright : spec.flags &&& left = 0)
    (hlow : 0 < spec.fieldWidth) (hhigh : spec.fieldWidth < 2 ^ 31) (c : CChar)
    (str : List CChar) : putChar (fun c str => str ++ [c]) spec c str =
      str ++ List.replicate (spec.fieldWidth - 1).toNat (chr ' ') ++ [c] := by
  have hcount : (if 0 < spec.fieldWidth - 1 then 0 else spec.fieldWidth - 1) = 0 := by
    split <;> omega
  have hblanks : wrapInt (spec.fieldWidth - 1) = spec.fieldWidth - 1 :=
    wrapInt_eq (by omega) (by omega)
  have hnone : wrapInt (0 - 1) = -1 := wrapInt_eq (by omega) (by omega)
  simp only [putChar, if_pos hright, hblanks, pad_snoc, hcount, hnone, Int.sub_zero]
  simp

theorem output_char {width : BitVec 32} (hlow : 0 < width.toInt) (c : BitVec 32)
    (args : List VaArg) (fmt : List CChar) (str : List CChar) :
    formatLoop (fun c str => str ++ [c]) (.int width :: .int c :: args)
        (chr '%' :: chr '*' :: chr 'c' :: fmt) str =
      formatLoop (fun c str => str ++ [c]) args fmt
        (str ++ List.replicate (width.toInt - 1).toNat (chr ' ') ++ [c.setWidth 8]) := by
  have hhigh : width.toInt < 2 ^ 31 := BitVec.toInt_lt
  have hspec : parseSpec (.int width :: .int c :: args) (chr '*' :: chr 'c' :: fmt) =
      some (⟨0, width.toInt, -1, 0⟩, chr 'c' :: fmt, .int c :: args) := by
    have hwidth : parseWidth 0 (.int width :: .int c :: args) (chr '*' :: chr 'c' :: fmt) =
        some (width.toInt, 0, chr 'c' :: fmt, .int c :: args) := by
      show (if width.toInt < 0 then _ else _) = _
      rw [if_neg (by omega)]
    show ((parseWidth 0 _ (chr '*' :: chr 'c' :: fmt)).bind _) = _
    rw [hwidth]
    rfl
  have hright : (0 : BitVec 8) &&& left = 0 := by decide
  have hput : putChar (fun c str => str ++ [c]) ⟨0, width.toInt, -1, 0⟩ (c.setWidth 8) str =
      str ++ List.replicate (width.toInt - 1).toNat (chr ' ') ++ [c.setWidth 8] :=
    putChar_snoc hright hlow hhigh (c.setWidth 8) str
  rw [formatLoop_directive]
  show ((parseSpec _ _).bind _).bind _ = _
  rw [hspec, ← hput]
  rfl

/-- A character in a field of five. -/
theorem rt_vsnprintf_formatted_char :
    ∃ stores result, rtVsnprintf 0x20000000 4 [chr '%', chr '*', chr 'c'] [.int 5, .int 0x41] =
        some (stores, result) ∧
      (Formatted 0x20000000 4 ([] ++ List.replicate 4 (chr ' ') ++ [0x41]) stores result ↔
        Fits 0x20000000 4 5) := by
  have houtput : output [.int 5, .int 0x41] [chr '%', chr '*', chr 'c'] =
      some ([] ++ List.replicate 4 (chr ' ') ++ [0x41]) := by
    rw [output, output_char (by decide), formatLoop_nil]
    rfl
  exact rt_vsnprintf_formatted 0x20000000 4 houtput

/-- Two characters in fields of one width. -/
theorem output_two {width : BitVec 32} (hlow : 0 < width.toInt) (c d : BitVec 32) :
    ∃ text, output [.int width, .int c, .int width, .int d]
      [chr '%', chr '*', chr 'c', chr '%', chr '*', chr 'c'] = some text ∧
      (text.length : Int) = 2 * width.toInt := by
  rw [output, output_char hlow, output_char hlow, formatLoop_nil]
  refine ⟨_, rfl, ?_⟩
  simp only [List.length_append, List.length_replicate, List.length_nil, List.length_singleton]
  omega

/-- Two characters in fields of 2^31 - 1.  The pointer wraps behind the buffer and stores at address
    0, and the length is returned as -2. -/
theorem rt_vsnprintf_wraps :
    ∃ text stores, output [.int 0x7fffffff, .int 0x41, .int 0x7fffffff, .int 0x42]
        [chr '%', chr '*', chr 'c', chr '%', chr '*', chr 'c'] = some text ∧
      text.length = 2 ^ 32 - 2 ∧
      rtVsnprintf 0x20000000 16 [chr '%', chr '*', chr 'c', chr '%', chr '*', chr 'c']
        [.int 0x7fffffff, .int 0x41, .int 0x7fffffff, .int 0x42] = some (stores, -2) ∧
      (∃ v, (0, v) ∈ stores) ∧ ¬ Formatted 0x20000000 16 text stores (-2) := by
  have hwidth : (0x7fffffff : BitVec 32).toInt = 2 ^ 31 - 1 := by decide
  have hbuf : (0x20000000 : BitVec 32).toNat = 2 ^ 29 := by decide
  have hlow : 0 < (0x7fffffff : BitVec 32).toInt := by omega
  obtain ⟨text, htext, hdouble⟩ := output_two hlow 0x41 0x42
  have hlength : text.length = 2 ^ 32 - 2 := by omega
  have hresult : (BitVec.ofNat 32 text.length).toInt = -2 := by
    rw [hlength]
    decide
  have hreturns := rtVsnprintf_eq 0x20000000 16 htext
  rw [hresult] at hreturns
  refine ⟨text, _, htext, hlength, hreturns, stores_zero (by decide) (by omega) (by omega), ?_⟩
  intro h
  have hreturned := h.returned
  omega

end PandoraRobot.Kernel
