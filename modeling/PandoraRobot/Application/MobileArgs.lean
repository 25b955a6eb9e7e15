import PandoraRobot.Application.MobileCmd
import PandoraRobot.Lib.Decimal

/-! # The arguments of `mobile_robot`

What `stof` and `atoi` read out of a string, of the form they are made for or not, and what
the command does with it.  Which characters `stof` takes notice of does not depend on the
arithmetic, and the `float` of the code is `Float32`; what a literal stands for is stated for the
arithmetic of the rationals.
-/

namespace PandoraRobot.Application

open PandoraRobot.Kernel PandoraRobot.Decimal

/-! ## `stof` -/

namespace Stof

section Characters

variable {F : Type} [Add F] [Mul F] [Div F] [IntCast F] {l : Stof F}

theorem next_point : l.next '.' = { l with pointSeen := true } := rfl

theorem next_other {c : Char} (h : digitOf c = none) (hpoint : c ≠ '.') : l.next c = l := by
  have hrange : ¬ ((0 : Int) ≤ c.toNat - '0'.toNat ∧ (c.toNat : Int) - '0'.toNat ≤ 9) := by
    intro hrange
    have hsome := digitOf_isSome.mpr (show '0'.toNat ≤ c.toNat ∧ c.toNat < '0'.toNat + 10 by omega)
    rw [h] at hsome
    exact absurd hsome (by simp)
  simp only [next, if_neg hpoint, if_neg hrange]

theorem next_pointSeen (hl : l.pointSeen = true) (c : Char) : (l.next c).pointSeen = true := by
  unfold next
  dsimp only
  split_ifs
  · rfl
  · exact hl
  · exact hl

/-- Before the point the digits are all that counts. -/
theorem foldl_digitsOf (s : List Char) (hs : '.' ∉ s) :
    s.foldl next l = ((digitsOf s).map charOf).foldl next l := by
  induction s generalizing l with
  | nil => rfl
  | cons c s ih =>
    have htail : '.' ∉ s := fun h => hs (List.mem_cons_of_mem c h)
    have hpoint : c ≠ '.' := fun h => hs (h ▸ List.mem_cons_self)
    rw [List.foldl_cons, ih htail]
    cases hc : digitOf c with
    | none =>
      rw [next_other hc hpoint]
      simp [digitsOf, hc]
    | some d =>
      have hdigits : digitsOf (c :: s) = d :: digitsOf s := by simp [digitsOf, hc]
      rw [hdigits, List.map_cons, List.foldl_cons, charOf_of_digitOf hc]

/-- Behind it too, and a further point changes nothing. -/
theorem foldl_digitsOf_seen (s : List Char) (hl : l.pointSeen = true) :
    s.foldl next l = ((digitsOf s).map charOf).foldl next l := by
  induction s generalizing l with
  | nil => rfl
  | cons c s ih =>
    rw [List.foldl_cons, ih (next_pointSeen hl c)]
    by_cases hpoint : c = '.'
    · have hsame : l.next '.' = l := by
        rw [next_point, ← hl]
      rw [hpoint, digitsOf_point, hsame]
    cases hc : digitOf c with
    | none =>
      rw [next_other hc hpoint]
      simp [digitsOf, hc]
    | some d =>
      have hdigits : digitsOf (c :: s) = d :: digitsOf s := by simp [digitsOf, hc]
      rw [hdigits, List.map_cons, List.foldl_cons, charOf_of_digitOf hc]

theorem foldl_unsigned_read (s : List Char) :
    (Literal.body s).foldl next l = (Literal.read s).unsigned.foldl next l := by
  have hwhole : '.' ∉ (Literal.body s).takeWhile (· ≠ '.') := fun h => by
    simpa using List.mem_takeWhile_imp h
  rw [Literal.unsigned, List.foldl_append, Literal.read, ← foldl_digitsOf _ hwhole]
  by_cases hpoint : '.' ∈ Literal.body s
  · obtain ⟨rest, hrest⟩ : ∃ rest, (Literal.body s).dropWhile (· ≠ '.') = '.' :: rest :=
      Literal.dropWhile_point hpoint
    conv_lhs => rw [← List.takeWhile_append_dropWhile (p := (· ≠ '.')) (l := Literal.body s)]
    rw [List.foldl_append, hrest, if_pos hpoint]
    simp only [Option.map_some, Option.getD_some, List.foldl_cons, digitsOf_point]
    exact foldl_digitsOf_seen rest rfl
  · have htake : (Literal.body s).takeWhile (· ≠ '.') = Literal.body s :=
      List.takeWhile_eq_self_iff.mpr fun c hc => by
        simpa using fun h : c = '.' => hpoint (h ▸ hc)
    rw [htake, if_neg hpoint]
    rfl

end Characters

section Locals

variable {F : Type} [Zero F] [One F] [Neg F]

/-- The locals of `stof` where its loop begins. -/
def start (s : List Char) : Stof F where
  rez := 0
  fact := if s.head? = some '-' then -1 else 1
  pointSeen := false

theorem stof_eq_foldl [Add F] [Mul F] [Div F] [IntCast F] (s : List Char) :
    (stof s : F) = ((Literal.body s).foldl next (start s)).rez *
      ((Literal.body s).foldl next (start s)).fact := by
  rcases s with _ | ⟨c, tail⟩
  · rfl
  by_cases hc : c = '-'
  · subst hc
    rfl
  · simp [stof, Literal.body, start, hc]

theorem start_text_read (s : List Char) : (start (Literal.read s).text : Stof F) = start s := by
  have hsign : (Literal.read s).text.head? = some '-' ↔ s.head? = some '-' := by
    rw [Literal.head?_text]
    simp [Literal.read]
  simp only [start, hsign]

end Locals

variable {l : Stof ℚ}

theorem next_digit {c : Char} {d : Fin 10} (h : digitOf c = some d) :
    l.next c = { l with
      fact := if l.pointSeen then l.fact / 10 else l.fact
      rez := l.rez * 10 + d } := by
  have hc := digitOf_eq_some h
  have hpoint : c ≠ '.' := by
    rintro rfl
    exact absurd (show digitOf '.' = none by decide) (by simp [h])
  have hd : (c.toNat : Int) - '0'.toNat = d := by omega
  have hrange : (0 : Int) ≤ d ∧ (d : Int) ≤ 9 := by omega
  simp only [next, if_neg hpoint, hd, if_pos hrange]
  norm_num

/-- Before the point `rez` is what the digits so far stand for, and `fact` is the sign. -/
theorem foldl_whole (s : List Char) (hs : '.' ∉ s) (hl : l.pointSeen = false) :
    s.foldl next l = { l with
      rez := l.rez * 10 ^ (digitsOf s).length + natural (digitsOf s) } := by
  induction s generalizing l with
  | nil => simp [digitsOf]
  | cons c s ih =>
    have htail : '.' ∉ s := fun h => hs (List.mem_cons_of_mem c h)
    have hpoint : c ≠ '.' := fun h => hs (h ▸ List.mem_cons_self)
    rw [List.foldl_cons]
    cases hc : digitOf c with
    | none =>
      rw [next_other hc hpoint, ih htail hl]
      simp [digitsOf, hc]
    | some d =>
      have hdigits : digitsOf (c :: s) = d :: digitsOf s := by simp [digitsOf, hc]
      rw [next_digit hc, ih htail (by exact hl), hdigits, natural_cons, List.length_cons]
      simp only [hl]
      congr 1
      push_cast
      ring

/-- Behind the point the product of `rez` and `fact` grows by what a digit stands for there. -/
theorem foldl_fraction (s : List Char) (hl : l.pointSeen = true) :
    (s.foldl next l).rez * (s.foldl next l).fact =
      (l.rez + fractional (digitsOf s)) * l.fact := by
  induction s generalizing l with
  | nil => simp [digitsOf]
  | cons c s ih =>
    rw [List.foldl_cons]
    by_cases hpoint : c = '.'
    · subst hpoint
      rw [next_point, ih rfl, digitsOf_point]
    cases hc : digitOf c with
    | none =>
      rw [next_other hc hpoint, ih hl]
      simp [digitsOf, hc]
    | some d =>
      have hdigits : digitsOf (c :: s) = d :: digitsOf s := by simp [digitsOf, hc]
      rw [next_digit hc, ih (by exact hl), hdigits, fractional_cons]
      simp only [hl, if_true]
      ring

end Stof

/-- The characters of a string that `stof` takes notice of make a literal, and it is all the same
    to `stof` whether it gets the string or the literal. -/
theorem stof_text_read {F : Type} [Zero F] [One F] [Neg F] [Add F] [Mul F] [Div F] [IntCast F]
    (s : List Char) : (stof s : F) = stof (Literal.read s).text := by
  rw [Stof.stof_eq_foldl, Stof.stof_eq_foldl, Literal.body_text, Stof.start_text_read,
    Stof.foldl_unsigned_read]

/-- In exact arithmetic the result is what the literal stands for. -/
theorem stof_eq_read (s : List Char) : stof s = (Literal.read s).value := by
  have hwhole : '.' ∉ (Literal.body s).takeWhile (· ≠ '.') := fun h => by
    simpa using List.mem_takeWhile_imp h
  have hsign : (Stof.start s : Stof ℚ).fact =
      if (Literal.read s).negative = true then -1 else 1 := by
    simp [Stof.start, Literal.read]
  have hfold := Stof.foldl_whole (l := Stof.start s) _ hwhole rfl
  rw [Stof.stof_eq_foldl, ← List.takeWhile_append_dropWhile (p := (· ≠ '.')) (l := Literal.body s),
    List.foldl_append, hfold]
  by_cases hpoint : '.' ∈ Literal.body s
  · obtain ⟨rest, hrest⟩ := Literal.dropWhile_point hpoint
    rw [hrest, List.foldl_cons, Stof.next_point, Stof.foldl_fraction _ (by rfl)]
    simp only [hsign, Literal.value, Literal.read, if_pos hpoint, hrest, digitsOf_point,
      Option.getD_some]
    simp only [Stof.start]
    ring
  · have hrest : (Literal.body s).dropWhile (· ≠ '.') = [] :=
      List.dropWhile_eq_nil_iff.mpr fun c hc => by
        simpa using fun h : c = '.' => hpoint (h ▸ hc)
    simp only [hrest, List.foldl_nil, hsign, Literal.value, Literal.read, if_neg hpoint,
      Option.getD_none, fractional_nil]
    simp only [Stof.start]
    ring

/-- `stof` is exact on literals of any length. -/
theorem stof_text (l : Literal) : stof l.text = l.value := by
  rw [stof_eq_read, Literal.read_text]

/-- `-00.250` -/
example : stof ['-', '0', '0', '.', '2', '5', '0'] = (-1 / 4 : ℚ) := by decide +kernel

/-! ## `atoi` -/

def isSpace (c : Char) : Bool := c = ' ' || (9 ≤ c.toNat && c.toNat < 14)

theorem isDigit_eq (c : Char) : c.isDigit = (digitOf c).isSome := by
  rw [Bool.eq_iff_iff, digitOf_isSome]
  simp only [Char.isDigit, Bool.and_eq_true, decide_eq_true_eq, ge_iff_le, UInt32.le_iff_toNat_le]
  show 48 ≤ c.toNat ∧ c.toNat ≤ 57 ↔ 48 ≤ c.toNat ∧ c.toNat < 58
  omega

theorem takeWhile_isDigit (ds : List (Fin 10)) {rest : List Char}
    (hrest : ∀ c ∈ rest.head?, digitOf c = none) :
    (ds.map charOf ++ rest).takeWhile Char.isDigit = ds.map charOf := by
  rw [List.takeWhile_append_of_pos]
  · cases rest with
    | nil => simp
    | cons c rest => simp [isDigit_eq, hrest c (by simp)]
  · intro c hc
    obtain ⟨d, -, rfl⟩ := List.mem_map.mp hc
    simp [isDigit_eq]

theorem foldl_digits (ds : List (Fin 10)) (v : Nat) :
    (ds.map charOf).foldl (fun v c => v * 10 + (c.toNat - '0'.toNat)) v =
      v * 10 ^ ds.length + natural ds := by
  induction ds generalizing v with
  | nil => simp
  | cons d ds ih =>
    have hd : (charOf d).toNat - '0'.toNat = d := by
      have := digitOf_eq_some (digitOf_charOf d)
      omega
    rw [List.map_cons, List.foldl_cons, hd, ih, natural_cons, List.length_cons]
    ring

/-- What `atoi` makes of a string without leading blanks. -/
theorem atoi_eq {s tail : List Char} {sign : Option Sign}
    (hs : s.dropWhile isSpace = sign.toList.map Sign.char ++ tail)
    (htail : sign = none → ∀ c ∈ tail.head?, c ≠ '+' ∧ c ≠ '-') :
    atoi s = BitVec.ofInt 32 (max (-0x80000000) (min 0x7fffffff
      ((if sign = some .minus then -1 else 1) * ((tail.takeWhile Char.isDigit).foldl
        (fun v c => v * 10 + (c.toNat - '0'.toNat)) 0 : Nat)))) := by
  have hdrop : s.dropWhile (fun c => c = ' ' || (9 ≤ c.toNat && c.toNat < 14)) =
    sign.toList.map Sign.char ++ tail := hs
  cases sign with
  | some sign => cases sign <;> simp [atoi, hdrop, Sign.char]
  | none =>
    rcases tail with _ | ⟨c, tail⟩
    · simp [atoi, hdrop]
    · obtain ⟨hplus, hminus⟩ := htail rfl c rfl
      simp [atoi, hdrop, hplus, hminus]

/-- `atoi` reads the integer literal a string begins with, up to the bounds of `int`. -/
theorem toInt_atoi {n : Integer} {s : List Char} (h : n.Leads (s.dropWhile isSpace)) :
    (atoi s).toInt = max (-0x80000000) (min 0x7fffffff n.value) := by
  obtain ⟨rest, hs, hrest, hempty⟩ := h
  have hdigits : n.sign = none → ∀ c ∈ (n.digits.map charOf ++ rest).head?,
      c ≠ '+' ∧ c ≠ '-' := by
    intro hsign c hc
    cases hds : n.digits with
    | nil => exact hempty (by simp [Integer.text, hsign, hds]) c (by simpa [hds] using hc)
    | cons d ds =>
      obtain rfl : charOf d = c := by simpa [hds] using hc
      exact ⟨charOf_ne_plus d, charOf_ne_minus d⟩
  rw [atoi_eq (by rw [hs, Integer.text, List.append_assoc]) hdigits, takeWhile_isDigit _ hrest,
    foldl_digits, Nat.zero_mul, Nat.zero_add, ← Integer.value, BitVec.toInt_ofInt,
    Int.bmod_eq_of_le]
  · omega
  · omega

/-! ## The command -/

namespace Command

variable {T U I F : Type} [DecidableEq T] [DecidableEq U] [DecidableEq I] [Fintype T] [Fintype U]
  [Zero F] [One F] [Neg F] [Add F] [Mul F] [Div F] [IntCast F] {cb : State.Callback T U I}
  {shell idle : T} {argv : List (List Char)} {c c' c₀ : Command T U I F}

def IsDecimal (s : List Char) : Prop := ∃ l : Literal, l.HasDigit ∧ l.text = s

def IsInteger (s : List Char) : Prop := ∃ n : Integer, n.digits ≠ [] ∧ n.text = s

/-- The arguments are three numbers and a duration. -/
structure WellFormed (argv : List (List Char)) : Prop where
  linearX : IsDecimal (argv.getD 1 [])
  linearY : IsDecimal (argv.getD 2 [])
  angularZ : IsDecimal (argv.getD 3 [])
  duration : IsInteger (argv.getD 4 [])

/-- Malformed arguments leave the chassis as it is. -/
def Rejects (cb : State.Callback T U I) (shell idle : T) (argv : List (List Char))
    (c₀ : Command T U I F) : Prop :=
  ¬ WellFormed argv → ∀ c, Runs cb shell idle argv c₀ c → c.velocities = []

/-- What the command does with arguments of any form. -/
structure Obeys (cb : State.Callback T U I) (shell idle : T) (argv : List (List Char))
    (c₀ : Command T U I F) : Prop where
  linearX : (targetVel argv : Velocity F).linearX = stof (Literal.read (argv.getD 1 [])).text
  linearY : (targetVel argv : Velocity F).linearY = stof (Literal.read (argv.getD 2 [])).text
  angularZ : (targetVel argv : Velocity F).angularZ = stof (Literal.read (argv.getD 3 [])).text
  /-- In exact arithmetic the velocities are what the literals stand for. -/
  exact : (targetVel argv : Velocity ℚ) = ⟨(Literal.read (argv.getD 1 [])).value,
    (Literal.read (argv.getD 2 [])).value, (Literal.read (argv.getD 3 [])).value⟩
  duration : ∃ n : Integer, n.Leads ((argv.getD 4 []).dropWhile isSpace) ∧
    (duration argv).toInt = max (-0x80000000) (min 0x7fffffff n.value)
  /-- The shell thread makes the first call before anything else. -/
  first : ∃ c, mobileRobot shell argv c₀ = .ok c ∧ c.pc = .moved ∧ c.velocities = [targetVel argv]
  /-- Without a duration it then returns. -/
  stays : (Command.duration argv).toInt ≤ 0 → ∀ c, Runs cb shell idle argv c₀ c → c.pc = .moved →
    mobileRobot shell argv c = .ok { c with pc := .returned }
  /-- With one it sleeps, and stops the chassis as soon as it runs again. -/
  stops : State.Spares cb {shell, idle} → 0 < (Command.duration argv).toInt →
    Command.duration argv ≠ 0x7fffffff → Honours cb shell idle argv c₀
  /-- No other call is made but the one that stops the chassis. -/
  calls : ∀ c, Runs cb shell idle argv c₀ c → c.velocities <+: [targetVel argv, stopVel]
  returned : ∀ c, Runs cb shell idle argv c₀ c → c.pc = .returned →
    c.velocities = if 0 < (Command.duration argv).toInt then [targetVel argv, stopVel]
      else [targetVel argv]

/-- The calls made at each place the command can be at. -/
def calls (argv : List (List Char)) : Pc → List (Velocity F)
  | .entry => []
  | .moved | .delayed => [targetVel argv]
  | .returned => if 0 < (duration argv).toInt then [targetVel argv, stopVel] else [targetVel argv]

structure Made (argv : List (List Char)) (c : Command T U I F) : Prop where
  velocities : c.velocities = calls argv c.pc
  delayed : c.pc = .delayed → 0 < (duration argv).toInt

theorem Made.command (h : Made argv c) (hargc : 5 ≤ argv.length)
    (hstep : mobileRobot shell argv c = .ok c') : Made argv c' := by
  have hvel := h.velocities
  unfold mobileRobot at hstep
  cases hpc : c.pc with
  | entry =>
    simp only [hpc, if_neg (Nat.not_lt.mpr hargc), exec_pure_ok] at hstep hvel
    subst hstep
    exact ⟨by simp [hvel, calls], by simp⟩
  | moved =>
    simp only [hpc] at hstep hvel
    split at hstep
    · next hd =>
      simp only [exec_bind_ok, exec_pure_ok] at hstep
      obtain ⟨kernel, -, rfl⟩ := hstep
      exact ⟨hvel, fun _ => hd⟩
    · next hd =>
      simp only [exec_pure_ok] at hstep
      subst hstep
      exact ⟨by simp [hvel, calls, hd], by simp⟩
  | delayed =>
    simp only [hpc, exec_pure_ok] at hstep hvel
    subst hstep
    exact ⟨by simp [hvel, calls, h.delayed hpc], by simp⟩
  | returned =>
    simp only [hpc, exec_pure_ok] at hstep
    exact hstep ▸ h

theorem Made.runs (hargc : 5 ≤ argv.length) (h₀ : Made argv c₀)
    (hr : Runs cb shell idle argv c₀ c) : Made argv c := by
  induction hr with
  | refl => exact h₀
  | tail _ hstep ih =>
    cases hstep with
    | command _ h => exact ih.command hargc h
    | outside _ => exact ⟨ih.velocities, ih.delayed⟩
    | tick _ _ => exact ⟨ih.velocities, ih.delayed⟩

theorem calls_isPrefix (pc : Pc) :
    (calls argv pc : List (Velocity F)) <+: [targetVel argv, stopVel] := by
  cases pc with
  | entry => exact List.nil_prefix
  | moved => exact List.prefix_append [targetVel argv] [stopVel]
  | delayed => exact List.prefix_append [targetVel argv] [stopVel]
  | returned =>
    dsimp only [calls]
    split
    · exact List.prefix_rfl
    · exact List.prefix_append [targetVel argv] [stopVel]

/-- The first step of the command. -/
theorem Called.moves (hcalled : Called shell idle c₀) (hargc : 5 ≤ argv.length) :
    mobileRobot shell argv c₀ =
      .ok { c₀ with pc := .moved, velocities := [targetVel argv], ticks := 0 } := by
  simp only [mobileRobot, hcalled.pc, if_neg (Nat.not_lt.mpr hargc), hcalled.velocities,
    List.nil_append]
  rfl

/-- The command takes every string for a number, and moves the chassis. -/
theorem mobile_robot_obeys (cb : State.Callback T U I) (shell idle : T)
    (argv : List (List Char)) (hargc : 5 ≤ argv.length) (c₀ : Command T U I F)
    (hcalled : Called shell idle c₀) : Obeys cb shell idle argv c₀ := by
  have hmade : Made argv c₀ :=
    ⟨by rw [hcalled.velocities, hcalled.pc]; rfl, by simp [hcalled.pc]⟩
  obtain ⟨n, hn⟩ := Integer.exists_leads ((argv.getD 4 []).dropWhile isSpace)
  refine ⟨stof_text_read _, stof_text_read _, stof_text_read _, ?_, ⟨n, hn, toInt_atoi hn⟩,
    ⟨_, hcalled.moves hargc, rfl, rfl⟩, fun hd c _ hpc => ?_,
    fun hspares hd hmax => hcalled.progress.honours hargc hd hmax hspares hcalled.idle_ne,
    fun c hr => ?_, fun c hr hpc => ?_⟩
  · rw [targetVel, stof_eq_read, stof_eq_read, stof_eq_read]
  · simp only [mobileRobot, hpc, if_neg (Int.not_lt.mpr hd)]
    rfl
  · rw [(hmade.runs hargc hr).velocities]
    exact calls_isPrefix c.pc
  · rw [(hmade.runs hargc hr).velocities, hpc, calls]

/-- `mobile_robot 1.5 .5 -0x2 3s` turns with a speed of -2, for 3 milliseconds. -/
theorem mobile_robot_obeys_letters :
    ∃ c₀ : Command (Fin 2) (Fin 0) (Fin 0) Float32, Called 1 0 c₀ ∧
      Obeys (fun _ _ => []) 1 0 ["mobile_robot".toList, "1.5".toList, ".5".toList,
        "-0x2".toList, "3s".toList] c₀ := by
  obtain ⟨c₀, hcalled⟩ := exists_called
  exact ⟨c₀, hcalled, mobile_robot_obeys _ 1 0 _ (by decide) c₀ hcalled⟩

theorem not_isInteger_x5 : ¬ IsInteger ['x', '5'] := by
  rintro ⟨⟨sign, digits⟩, hdigits, htext⟩
  rcases sign with _ | ⟨_ | _⟩
  · rcases digits with _ | ⟨d, ds⟩
    · exact hdigits rfl
    · have hd : digitOf 'x' = some d := by
        rw [← (List.cons.inj htext).1, digitOf_charOf]
      exact absurd hd (by simp [show digitOf 'x' = none by decide])
  · exact absurd (List.cons.inj htext).1 (by decide)
  · exact absurd (List.cons.inj htext).1 (by decide)

/-- `mobile_robot 1 0 0 x5` sets the chassis moving, and returns. -/
theorem mobile_robot_malformed_duration :
    ∃ c₀ : Command (Fin 2) (Fin 0) (Fin 0) Float32, Called 1 0 c₀ ∧
      ¬ Rejects (fun _ _ => []) 1 0 ["mobile_robot".toList, "1".toList, "0".toList,
        "0".toList, "x5".toList] c₀ ∧
      ∃ c, Runs (fun _ _ => []) 1 0 ["mobile_robot".toList, "1".toList, "0".toList,
        "0".toList, "x5".toList] c₀ c ∧ c.pc = .returned ∧ c.velocities = [⟨1, 0, 0⟩] := by
  obtain ⟨c₀, hcalled⟩ := exists_called (F := Float32)
  let argv := ["mobile_robot".toList, "1".toList, "0".toList, "0".toList, "x5".toList]
  have hvel : (targetVel argv : Velocity Float32) = ⟨1, 0, 0⟩ := by decide +kernel
  have hmoves := hcalled.moves (show 5 ≤ argv.length by decide)
  rw [hvel] at hmoves
  let moved : Command (Fin 2) (Fin 0) (Fin 0) Float32 :=
    { c₀ with pc := .moved, velocities := [⟨1, 0, 0⟩], ticks := 0 }
  have hfirst : Step (fun _ _ => []) 1 0 argv c₀ moved := .command hcalled.current hmoves
  have hsecond : Step (fun _ _ => []) 1 0 argv moved { moved with pc := .returned } :=
    .command hcalled.current rfl
  have hrun := (Relation.ReflTransGen.single hfirst).tail hsecond
  refine ⟨c₀, hcalled, fun hrejects => ?_, _, hrun, rfl, rfl⟩
  have hnone := hrejects (fun hformed => not_isInteger_x5 hformed.duration) _ hrun
  exact absurd hnone (by simp [moved])

end Command

end PandoraRobot.Application
