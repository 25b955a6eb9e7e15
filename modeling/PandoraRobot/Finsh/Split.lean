import PandoraRobot.Finsh.Symbols
import PandoraRobot.Lib.Tokens

/-! # Splitting the command line

`msh_split` with its three loops, and `_msh_exec_cmd`.  The memory is given from `cmd` on, and an
address in it is its distance to `cmd`.  The position never goes beyond the length, so that the
counters are natural numbers.
-/

namespace PandoraRobot.Finsh

open PandoraRobot.Kernel PandoraRobot.LineEditor PandoraRobot.Tokens

/-- `FINSH_ARG_MAX`. -/
def finshArgMax : Nat := 10

/-- A character of the memory. -/
def fetch (i : Nat) (mem : List CChar) : Exec CChar :=
  match mem[i]? with
  | some ch => pure ch
  | none => .error .outOfBounds

/-- The loop that strips blanks and tabs. -/
def stripBlanks (length : Nat) : Nat → Nat → List CChar → Exec (Nat × List CChar)
  | 0, _, _ => .error .outOfFuel
  | fuel + 1, position, mem => do
    let ch ← fetch position mem
    if isBlank ch ∧ position < length then do
      let mem ← store position 0 mem
      stripBlanks length fuel (position + 1) mem
    else pure (position, mem)

/-- The loop that skips a string. -/
def skipString (length : Nat) (mem : List CChar) : Nat → Nat → Exec Nat
  | 0, _ => .error .outOfFuel
  | fuel + 1, position => do
    let ch ← fetch position mem
    if ch ≠ 0x22 ∧ position < length then
      if ch = 0x5c then do
        let next ← fetch (position + 1) mem
        if next = 0x22 then skipString length mem fuel (position + 2)
        else skipString length mem fuel (position + 1)
      else skipString length mem fuel (position + 1)
    else pure position

/-- The loops that skip a word. -/
def skipWord (length : Nat) (mem : List CChar) : Nat → Nat → Exec Nat
  | 0, _ => .error .outOfFuel
  | fuel + 1, position => do
    let ch ← fetch position mem
    if ¬ isBlank ch ∧ position < length then skipWord length mem fuel (position + 1)
    else pure position

/-- The variables of `msh_split`, and whether it has complained about too many arguments. -/
structure Split where
  argv : List Nat
  position : Nat
  mem : List CChar
  tooMany : Bool
  deriving DecidableEq

namespace Split

/-- The outer loop. -/
def loop (length : Nat) : Nat → Split → Exec Split
  | 0, _ => .error .outOfFuel
  | fuel + 1, s =>
    if s.position < length then do
      let (position, mem) ← stripBlanks length (length + 1) s.position s.mem
      if finshArgMax ≤ s.argv.length then pure { s with position, mem, tooMany := true }
      else if length ≤ position then pure { s with position, mem }
      else do
        let ch ← fetch position mem
        if ch = 0x22 then do
          let start := position + 1
          let position ← skipString length mem (length + 1) start
          if length ≤ position then pure { s with argv := s.argv ++ [start], position, mem }
          else do
            let mem ← store position 0 mem
            loop length fuel
              { s with argv := s.argv ++ [start], position := position + 1, mem }
        else do
          let start := position
          let position ← skipWord length mem (length + 1) start
          let s := { s with argv := s.argv ++ [start], position, mem }
          if length ≤ position then pure s else loop length fuel s
    else pure s

end Split

/-- `msh_split`. -/
def mshSplit (cmd : List CChar) (length : Nat) : Exec Split :=
  Split.loop length (length + 1) { argv := [], position := 0, mem := cmd, tooMany := false }

/-- A call of a command with the arguments in `argv`, whose length is `argc`. -/
structure Invocation (F : Type) where
  func : F
  split : Split
  deriving DecidableEq

/-- The string at the beginning of the memory. -/
def cString (mem : List CChar) : List CChar := mem.takeWhile (· ≠ 0)

/-- `msh_get_cmd`. -/
def mshGetCmd {F : Type} (cmd : List CChar) (size : Nat) :
    List (FinshSyscall F) → Exec (Option F)
  | [] => pure none
  | index :: table =>
    if index.isCommand then
      if strncmpZero size index.cmdName (cString cmd) then do
        let ch ← fetch (6 + size) (index.name ++ [0])
        if ch = 0 then pure (some index.func) else mshGetCmd cmd size table
      else mshGetCmd cmd size table
    else mshGetCmd cmd size table

/-- `_msh_exec_cmd` up to the call of the command; `none` is the return with `-RT_ERROR`. -/
def mshExecCmd {F : Type} (table : List (FinshSyscall F)) (cmd : List CChar) (length : Nat) :
    Exec (Option (Invocation F)) := do
  let cmd0Size ← skipWord length cmd (length + 1) 0
  if cmd0Size = 0 then pure none
  else
    match ← mshGetCmd cmd cmd0Size table with
    | none => pure none
    | some func => do
      let split ← mshSplit cmd length
      if split.argv.length = 0 then pure none else pure (some { func, split })

/-! ## What is meant -/

/-- The arguments of a line: words between blanks, and strings, which `\"` does not end. -/
def arguments (text : List CChar) : List (List CChar) := tokens isBlank 0x22 0x5c text

/-- A word stands in the memory with its terminator. -/
def HoldsWord (mem : List CChar) (start : Nat) (word : List CChar) : Prop :=
  word ++ [0] <+: mem.drop start

/-- The line of `length + 1` bytes has the arguments, the first `FINSH_ARG_MAX` of them, at the
    places in `argv`. -/
structure HasArguments (text line : List CChar) (argv : List Nat) (position : Nat) : Prop where
  length_line : line.length = text.length + 1
  position_le : position ≤ text.length
  words : List.Forall₂ (HoldsWord line) argv ((arguments text).take finshArgMax)

/-- The name of the command. -/
def firstWord (text : List CChar) : List CChar := text.takeWhile (fun ch => !isBlank ch)

/-- The first command with that name. -/
def namedCommand {F : Type} (table : List (FinshSyscall F)) (text : List CChar) :
    Option (FinshSyscall F) :=
  if firstWord text = [] then none
  else table.find? (fun index => index.isCommand && index.cmdName = firstWord text)

/-! ## The loops -/

section Loops

variable {mem pre text rest : List CChar} {ch : CChar} {i length fuel position : Nat}

theorem fetch_of_drop (h : mem.drop i = ch :: rest) : fetch i mem = .ok ch := by
  have hget : mem[i]? = some ch := by
    rw [← Nat.add_zero i, ← List.getElem?_drop, h]
    rfl
  rw [fetch, hget]
  rfl

theorem drop_succ_of_drop (h : mem.drop i = ch :: rest) : mem.drop (i + 1) = rest := by
  rw [← List.drop_drop, h]
  rfl

theorem store_append : store pre.length 0 (pre ++ ch :: rest) = .ok (pre ++ 0 :: rest) := by
  rw [store, if_pos (by simp)]
  simp [List.set_append_right, pure, Except.pure]

theorem skipWord_eq (h : mem.drop position = text ++ 0 :: rest)
    (hlength : position + text.length = length) (hfuel : text.length < fuel) :
    skipWord length mem fuel position =
      .ok (position + (text.takeWhile (fun ch => !isBlank ch)).length) := by
  induction text generalizing fuel position with
  | nil =>
    cases fuel with
    | zero => cases hfuel
    | succ fuel =>
      have hend : ¬ position < length := by rw [← hlength]; simp
      rw [skipWord, fetch_of_drop h]
      simp only [bind, Except.bind]
      rw [if_neg fun hgo => hend hgo.2]
      rfl
  | cons ch text ih =>
    cases fuel with
    | zero => cases hfuel
    | succ fuel =>
      rw [skipWord, fetch_of_drop h]
      simp only [bind, Except.bind]
      rw [List.length_cons] at hlength hfuel
      by_cases hblank : isBlank ch
      · rw [if_neg fun hgo => hgo.1 hblank]
        simp [hblank, pure, Except.pure]
      · rw [if_pos ⟨hblank, by omega⟩,
          ih (drop_succ_of_drop h) (by omega) (Nat.lt_of_succ_lt_succ hfuel)]
        simp [hblank]
        omega

theorem skipString_eq (h : mem.drop position = text ++ 0 :: rest)
    (hlength : position + text.length = length) (hfuel : text.length < fuel) :
    skipString length mem fuel position =
      .ok (position + (quotedWord 0x22 0x5c false text).length) := by
  induction fuel generalizing text position with
  | zero => cases hfuel
  | succ fuel ih =>
    rw [skipString]
    cases text with
    | nil =>
      have hend : ¬ position < length := by rw [← hlength]; simp
      rw [fetch_of_drop h]
      simp only [bind, Except.bind]
      rw [if_neg fun hgo => hend hgo.2]
      rfl
    | cons ch text =>
      rw [fetch_of_drop h]
      simp only [bind, Except.bind]
      rw [List.length_cons] at hlength hfuel
      have hrest := drop_succ_of_drop h
      by_cases hquote : ch = 0x22
      · rw [if_neg fun hgo => hgo.1 hquote]
        simp [quotedWord, hquote, pure, Except.pure]
      rw [if_pos ⟨hquote, by omega⟩]
      have hnext := ih hrest (by omega) (by omega)
      have hword : (quotedWord 0x22 0x5c false (ch :: text)).length =
          (quotedWord 0x22 0x5c (ch = 0x5c) text).length + 1 := by
        rw [quotedWord, if_neg fun hend => hquote hend.1, List.length_cons]
      by_cases hescape : ch = 0x5c
      · rw [if_pos hescape, hword, decide_eq_true hescape]
        -- the character behind is read, which is the terminator at the end of the line
        cases text with
        | nil =>
          rw [fetch_of_drop hrest]
          simp only
          rw [if_neg (by decide), hnext]
          rfl
        | cons next text =>
          rw [fetch_of_drop hrest]
          simp only
          by_cases hskip : next = 0x22
          · rw [List.length_cons] at hlength hfuel
            rw [if_pos hskip, ih (drop_succ_of_drop hrest) (by omega) (by omega), hskip]
            simp [quotedWord]
            omega
          · rw [if_neg hskip, hnext, quotedWord_escaped (by simpa using hskip)]
            congr 1
            omega
      · rw [if_neg hescape, hword, decide_eq_false hescape, hnext]
        congr 1
        omega

theorem stripBlanks_eq (hlength : pre.length + text.length = length)
    (hfuel : text.length < fuel) :
    stripBlanks length fuel pre.length (pre ++ (text ++ 0 :: rest)) =
      .ok (pre.length + (text.takeWhile isBlank).length,
        pre ++ (List.replicate (text.takeWhile isBlank).length 0 ++
          (text.dropWhile isBlank ++ 0 :: rest))) := by
  induction text generalizing pre fuel with
  | nil =>
    cases fuel with
    | zero => cases hfuel
    | succ fuel =>
      rw [stripBlanks, fetch_of_drop (by rw [List.drop_left]; rfl)]
      simp only [bind, Except.bind]
      rw [if_neg fun hgo => absurd hgo.1 (by decide)]
      rfl
  | cons ch text ih =>
    cases fuel with
    | zero => cases hfuel
    | succ fuel =>
      rw [stripBlanks, fetch_of_drop (by rw [List.drop_left]; rfl)]
      simp only [bind, Except.bind]
      rw [List.length_cons] at hlength hfuel
      by_cases hblank : isBlank ch
      · have hnext := @ih (pre ++ [0]) fuel
          (by rw [List.length_append, List.length_singleton]; omega) (by omega)
        simp only [List.length_append, List.length_singleton, List.append_assoc,
          List.singleton_append] at hnext
        rw [if_pos ⟨hblank, by omega⟩, List.cons_append, store_append]
        simp only [hnext]
        rw [List.takeWhile_cons_of_pos hblank, List.dropWhile_cons_of_pos hblank,
          List.length_cons, List.replicate_succ]
        congr 2
        omega
      · rw [if_neg fun hgo => hblank hgo.1]
        simp [hblank, pure, Except.pure]

end Loops

namespace Split

/-! ## The outer loop -/

/-- What the loop leaves of a line from some position on, where `pre` is the memory before: the rest
    of the line, the arguments added, and the position at the end. -/
structure Leaves (pre text : List CChar) (argc : Nat) (starts : List Nat) (line : List CChar)
    (position : Nat) : Prop where
  length_line : line.length = text.length + 1
  position_le : position ≤ pre.length + text.length
  words : List.Forall₂ (HoldsWord (pre ++ line)) starts
    ((arguments text).take (finshArgMax - argc))
  /-- The blank behind a word, or the end, becomes its terminator. -/
  head : (∀ ch ∈ text.head?, isBlank ch) → line.head? = some 0

variable {pre front text text' line word : List CChar} {argc start position length fuel : Nat}
  {starts argv : List Nat}

theorem Leaves.none (hposition : position ≤ pre.length + text.length)
    (hline : line.length = text.length + 1)
    (hhead : (∀ ch ∈ text.head?, isBlank ch) → line.head? = some 0)
    (hnone : finshArgMax ≤ argc ∨ arguments text = []) :
    Leaves pre text argc [] line position := by
  refine ⟨hline, hposition, ?_, hhead⟩
  have htake : (arguments text).take (finshArgMax - argc) = [] := by
    rcases hnone with hfull | hnone
    · rw [Nat.sub_eq_zero_of_le hfull, List.take_zero]
    · rw [hnone, List.take_nil]
  rw [htake]
  exact .nil

/-- An argument before the others. -/
theorem Leaves.cons (h : Leaves (pre ++ front) text' (argc + 1) starts line position)
    (hargc : argc < finshArgMax) (hfront : front.length + text'.length = text.length)
    (hwords : arguments text = word :: arguments text')
    (hword : HoldsWord (pre ++ (front ++ line)) start word)
    (hhead : (∀ ch ∈ text.head?, isBlank ch) → (front ++ line).head? = some 0) :
    Leaves pre text argc (start :: starts) (front ++ line) position := by
  refine ⟨?_, ?_, ?_, hhead⟩
  · rw [List.length_append, h.length_line]
    omega
  · have hle := h.position_le
    rw [List.length_append] at hle
    omega
  · have hsub : finshArgMax - argc = (finshArgMax - (argc + 1)) + 1 := by omega
    have hrest := h.words
    rw [List.append_assoc] at hrest
    rw [hwords, hsub, List.take_succ_cons]
    exact .cons hword hrest

variable {mem more : List CChar} {ch : CChar} {blanks : Nat}

/-- The loop splits the line from a position on, whatever stands behind the line. -/
def Runs (length fuel : Nat) (pre text : List CChar) (argv : List Nat) : Prop :=
  ∃ starts line position tooMany, Leaves pre text argv.length starts line position ∧
    ∀ rest, loop length fuel
      { argv, position := pre.length, mem := pre ++ (text ++ 0 :: rest), tooMany := false } =
      .ok { argv := argv ++ starts, position, mem := pre ++ (line ++ rest), tooMany }

/-- The loop has stripped the blanks, and comes to an argument that starts with `ch`. -/
structure AtArgument (length : Nat) (pre text : List CChar) (argc blanks : Nat) (ch : CChar)
    (more : List CChar) : Prop where
  length_eq : pre.length + text.length = length
  argc_lt : argc < finshArgMax
  count : blanks + (more.length + 1) = text.length
  arguments_eq : arguments text = arguments (ch :: more)
  head : (∀ ch ∈ text.head?, isBlank ch) →
    ∀ line : List CChar, (List.replicate blanks 0 ++ line).head? = some 0
  strip : ∀ rest, stripBlanks length (length + 1) pre.length (pre ++ (text ++ 0 :: rest)) =
    .ok (pre.length + blanks, pre ++ (List.replicate blanks 0 ++ (ch :: (more ++ 0 :: rest))))

theorem drop_blanks (pre more rest : List CChar) (blanks : Nat) (ch : CChar) :
    (pre ++ (List.replicate blanks 0 ++ (ch :: (more ++ 0 :: rest)))).drop (pre.length + blanks) =
      ch :: (more ++ 0 :: rest) := by
  have hlength : (pre ++ List.replicate blanks (0 : CChar)).length = pre.length + blanks := by
    rw [List.length_append, List.length_replicate]
  rw [← List.append_assoc, ← hlength, List.drop_left]

theorem holds_append {before : List CChar} (rest : List CChar) (hstart : before.length = start)
    (hmem : mem = before ++ (word ++ 0 :: rest)) : HoldsWord mem start word := by
  rw [HoldsWord, hmem, ← hstart, List.drop_left]
  exact ⟨rest, by rw [List.append_assoc, List.singleton_append]⟩

/-- A turn that comes to a string. -/
theorem AtArgument.loop_string (h : AtArgument length pre text argv.length blanks 0x22 more)
    (fuel : Nat) (rest : List CChar) :
    loop length (fuel + 1)
        { argv, position := pre.length, mem := pre ++ (text ++ 0 :: rest), tooMany := false } =
      let start := pre.length + blanks + 1
      let position := start + (quotedWord 0x22 0x5c false more).length
      let mem := pre ++ (List.replicate blanks 0 ++ (0x22 :: (more ++ 0 :: rest)))
      if length ≤ position then .ok { argv := argv ++ [start], position, mem, tooMany := false }
      else (do
        let mem ← store position 0 mem
        loop length fuel
          { argv := argv ++ [start], position := position + 1, mem, tooMany := false }) := by
  have hlength := h.length_eq
  have hcount := h.count
  have hargc : ¬ finshArgMax ≤ argv.length := not_le.mpr h.argc_lt
  have hskip := skipString_eq (drop_succ_of_drop (drop_blanks pre more rest blanks 0x22))
    (show pre.length + blanks + 1 + more.length = length by omega)
    (show more.length < length + 1 by omega)
  rw [loop, if_pos (show pre.length < length by omega), h.strip]
  simp only [bind, Except.bind]
  rw [if_neg hargc, if_neg (by omega), fetch_of_drop (drop_blanks pre more rest blanks 0x22)]
  simp only [if_true, hskip]
  rfl

/-- A turn that comes to another word. -/
theorem AtArgument.loop_word (h : AtArgument length pre text argv.length blanks ch more)
    (hquote : ch ≠ 0x22) (fuel : Nat) (rest : List CChar) :
    loop length (fuel + 1)
        { argv, position := pre.length, mem := pre ++ (text ++ 0 :: rest), tooMany := false } =
      let start := pre.length + blanks
      let position := start + ((ch :: more).takeWhile (fun ch => !isBlank ch)).length
      let mem := pre ++ (List.replicate blanks 0 ++ (ch :: (more ++ 0 :: rest)))
      if length ≤ position then .ok { argv := argv ++ [start], position, mem, tooMany := false }
      else loop length fuel { argv := argv ++ [start], position, mem, tooMany := false } := by
  have hlength := h.length_eq
  have hcount := h.count
  have hargc : ¬ finshArgMax ≤ argv.length := not_le.mpr h.argc_lt
  have hskip := skipWord_eq (drop_blanks pre more rest blanks ch)
    (show pre.length + blanks + (ch :: more).length = length by rw [List.length_cons]; omega)
    (show (ch :: more).length < length + 1 by rw [List.length_cons]; omega)
  rw [loop, if_pos (show pre.length < length by omega), h.strip]
  simp only [bind, Except.bind]
  rw [if_neg hargc, if_neg (by omega), fetch_of_drop (drop_blanks pre more rest blanks ch)]
  simp only [if_neg hquote, hskip]
  rfl

/-- A string, and what the loop makes of the line behind it. -/
theorem AtArgument.runs_string (h : AtArgument length pre text argv.length blanks 0x22 more)
    (ih : ∀ {pre text : List CChar} {argv : List Nat}, pre.length + text.length = length →
      text.length < fuel → argv.length ≤ finshArgMax → Runs length fuel pre text argv)
    (hfuel : text.length < fuel + 1) : Runs length (fuel + 1) pre text argv := by
  have hlength := h.length_eq
  have hcount := h.count
  have hargc := h.argc_lt
  have hcode := h.loop_string fuel
  -- what is between the quotation marks, with its escapes, is one word
  obtain ⟨word, hword⟩ : ∃ word, quotedWord 0x22 0x5c false more = word := ⟨_, rfl⟩
  have hbegins : word <+: more := hword ▸ quotedWord_prefix
  have hwords : arguments text = word :: arguments (more.drop (word.length + 1)) := by
    rw [h.arguments_eq, arguments, tokens_cons_quote rfl, arguments, hword]
  have hstart : (pre ++ (List.replicate blanks 0 ++ [(0x22 : CChar)])).length =
      pre.length + blanks + 1 := by
    simp only [List.length_append, List.length_replicate, List.length_singleton]
    omega
  simp only [hword] at hcode
  -- the closing mark is there, and becomes the terminator of the word
  obtain hshort | hend := Nat.lt_or_ge word.length more.length
  · obtain ⟨behind, hbehind⟩ : ∃ behind, more.drop (word.length + 1) = behind := ⟨_, rfl⟩
    have hmore : more = word ++ 0x22 :: behind := by
      have hdrop := drop_quotedWord (hword ▸ hshort)
      rw [hword, hbehind] at hdrop
      rw [← hdrop]
      exact List.prefix_append_drop hbegins
    rw [hbehind] at hwords
    subst hmore
    rw [List.length_append, List.length_cons] at hcount
    have hnext : (pre ++ (List.replicate blanks 0 ++ (0x22 :: (word ++ [0])))).length =
        pre.length + blanks + 1 + word.length + 1 := by
      simp only [List.length_append, List.length_replicate, List.length_cons, List.length_nil]
      omega
    obtain ⟨starts, line, position, tooMany, hleaves, hrun⟩ :=
      @ih (pre ++ (List.replicate blanks 0 ++ (0x22 :: (word ++ [0])))) behind
        (argv ++ [pre.length + blanks + 1]) (by omega) (by omega)
        (by rw [List.length_append, List.length_singleton]; omega)
    rw [List.length_append, List.length_singleton] at hleaves
    refine ⟨_ :: starts, _, position, tooMany, hleaves.cons hargc ?_ hwords
      (holds_append line hstart (by simp)) ?_, fun rest => ?_⟩
    · simp only [List.length_append, List.length_replicate, List.length_cons, List.length_nil]
      omega
    · intro hblank
      rw [List.append_assoc]
      exact h.head hblank _
    · have hbefore : pre.length + blanks + 1 + word.length =
          (pre ++ (List.replicate blanks 0 ++ (0x22 :: word))).length := by
        simp only [List.length_append, List.length_replicate, List.length_cons]
        omega
      have hmem : pre ++ (List.replicate blanks 0 ++
          (0x22 :: (word ++ 0x22 :: behind ++ 0 :: rest))) =
          (pre ++ (List.replicate blanks 0 ++ (0x22 :: word))) ++
            0x22 :: (behind ++ 0 :: rest) := by
        simp
      rw [hcode rest, if_neg (by omega), hmem, hbefore, store_append, ← hbefore, ← hnext]
      have hrest := hrun rest
      simp only [List.append_assoc, List.cons_append, List.nil_append] at hrest ⊢
      exact hrest
  -- it is not, and the word goes up to the end of the line
  · have hall : word = more := hbegins.eq_of_length (le_antisymm hbegins.length_le hend)
    subst hall
    rw [List.drop_eq_nil_of_le (Nat.le_succ _)] at hwords
    have hrest : Leaves (pre ++ (List.replicate blanks 0 ++ 0x22 :: word)) [] (argv.length + 1) []
        [0] (pre.length + blanks + 1 + word.length) :=
      .none (by simp; omega) rfl (fun _ => rfl) (.inr rfl)
    refine ⟨[pre.length + blanks + 1], List.replicate blanks 0 ++ 0x22 :: word ++ [0], _, false,
      hrest.cons hargc ?_ hwords (holds_append [] hstart (by simp)) ?_, fun rest => ?_⟩
    · simp only [List.length_append, List.length_replicate, List.length_cons, List.length_nil]
      omega
    · intro hblank
      rw [List.append_assoc]
      exact h.head hblank _
    · rw [hcode rest, if_pos (by omega)]
      simp

/-- Another word. -/
theorem AtArgument.runs_word (h : AtArgument length pre text argv.length blanks ch more)
    (hblank : isBlank ch = false) (hquote : ch ≠ 0x22)
    (ih : ∀ {pre text : List CChar} {argv : List Nat}, pre.length + text.length = length →
      text.length < fuel → argv.length ≤ finshArgMax → Runs length fuel pre text argv)
    (hfuel : text.length < fuel + 1) : Runs length (fuel + 1) pre text argv := by
  have hlength := h.length_eq
  have hcount := h.count
  have hargc := h.argc_lt
  have hcode := h.loop_word hquote fuel
  obtain ⟨word, hword⟩ : ∃ word, (ch :: more).takeWhile (fun ch => !isBlank ch) = word := ⟨_, rfl⟩
  obtain ⟨behind, hbehind⟩ : ∃ behind, (ch :: more).dropWhile (fun ch => !isBlank ch) = behind :=
    ⟨_, rfl⟩
  have hmore : ch :: more = word ++ behind := by
    rw [← hword, ← hbehind, List.takeWhile_append_dropWhile]
  have hsplit : more.length + 1 = word.length + behind.length := by
    rw [← List.length_cons, hmore, List.length_append]
  have hpos : 0 < word.length := by
    rw [← hword, List.takeWhile_cons_of_pos (by rw [hblank]; rfl)]
    exact Nat.succ_pos _
  have hwords : arguments text = word :: arguments behind := by
    rw [h.arguments_eq, arguments, tokens_cons_word hblank hquote, hword, hbehind, arguments]
  have hfirst : ∀ next ∈ behind.head?, isBlank next := by
    have hnot := List.head?_dropWhile_not (fun ch => !isBlank ch) (ch :: more)
    rw [hbehind] at hnot
    intro next hnext
    rw [Option.mem_def.mp hnext] at hnot
    simpa using hnot
  have hstart : (pre ++ List.replicate blanks (0 : CChar)).length = pre.length + blanks := by
    rw [List.length_append, List.length_replicate]
  simp only [hword] at hcode
  have hnext : (pre ++ (List.replicate blanks 0 ++ word)).length =
      pre.length + blanks + word.length := by
    simp only [List.length_append, List.length_replicate]
    omega
  have hmem : ∀ rest, pre ++ (List.replicate blanks 0 ++ (ch :: (more ++ 0 :: rest))) =
      pre ++ (List.replicate blanks 0 ++ word) ++ (behind ++ 0 :: rest) := fun rest => by
    rw [← List.cons_append, hmore]
    simp
  -- the loop goes on at the blank behind the word, or has come to the end
  obtain ⟨starts, line, position, tooMany, hleaves, hrun⟩ :
      ∃ starts line position tooMany,
        Leaves (pre ++ (List.replicate blanks 0 ++ word)) behind (argv.length + 1) starts line
          position ∧
        ∀ rest, loop length (fuel + 1)
          { argv, position := pre.length, mem := pre ++ (text ++ 0 :: rest), tooMany := false } =
          .ok { argv := argv ++ [pre.length + blanks] ++ starts, position,
                mem := pre ++ (List.replicate blanks 0 ++ word) ++ (line ++ rest), tooMany } := by
    by_cases hend : behind = []
    · subst hend
      refine ⟨[], [0], pre.length + blanks + word.length, false,
        .none (by rw [hnext]; rfl) rfl (fun _ => rfl) (.inr rfl), fun rest => ?_⟩
      rw [List.length_nil] at hsplit
      rw [hcode rest, if_pos (by omega), hmem rest, List.append_nil]
      rfl
    · have hmore_pos := List.length_pos_iff.mpr hend
      obtain ⟨starts, line, position, tooMany, hleaves, hrun⟩ :=
        @ih (pre ++ (List.replicate blanks 0 ++ word)) behind (argv ++ [pre.length + blanks])
          (by omega) (by omega) (by rw [List.length_append, List.length_singleton]; omega)
      rw [List.length_append, List.length_singleton] at hleaves
      refine ⟨starts, line, position, tooMany, hleaves, fun rest => ?_⟩
      rw [hcode rest, if_neg (by omega), hmem rest, ← hnext]
      exact hrun rest
  obtain ⟨terminated, rfl⟩ : ∃ terminated, line = 0 :: terminated := by
    have hzero := hleaves.head hfirst
    cases line with
    | nil => cases hzero
    | cons zero terminated => exact ⟨terminated, by rw [Option.some.inj hzero]⟩
  refine ⟨_ :: starts, _, position, tooMany, hleaves.cons hargc ?_ hwords
    (holds_append terminated hstart (by simp)) ?_, fun rest => ?_⟩
  · simp only [List.length_append, List.length_replicate]
    omega
  · intro hblank
    rw [List.append_assoc]
    exact h.head hblank _
  · rw [hrun rest]
    simp

theorem loop_runs (hlength : pre.length + text.length = length) (hfuel : text.length < fuel)
    (hargv : argv.length ≤ finshArgMax) : Runs length fuel pre text argv := by
  induction fuel generalizing pre text argv with
  | zero => cases hfuel
  | succ fuel ih =>
    by_cases hend : text = []
    · subst hend
      refine ⟨[], [0], pre.length, false, .none (by simp) rfl (fun _ => rfl) (.inr rfl),
        fun rest => ?_⟩
      rw [loop, if_neg (by rw [← hlength]; simp)]
      simp [pure, Except.pure]
    obtain ⟨blanks, hblanks⟩ : ∃ blanks, blanks = (text.takeWhile isBlank).length := ⟨_, rfl⟩
    obtain ⟨found, hfound⟩ : ∃ found, found = text.dropWhile isBlank := ⟨_, rfl⟩
    have hcount : blanks + found.length = text.length := by
      rw [hblanks, hfound, ← List.length_append, List.takeWhile_append_dropWhile]
    have harguments : arguments text = arguments found := by
      rw [arguments, tokens_dropWhile, hfound, arguments]
    have hlt : pre.length < length := by
      have hpos := List.length_pos_iff.mpr hend
      omega
    have hstrip : ∀ rest, stripBlanks length (length + 1) pre.length (pre ++ (text ++ 0 :: rest)) =
        .ok (pre.length + blanks,
          pre ++ (List.replicate blanks 0 ++ (found ++ 0 :: rest))) := fun rest => by
      rw [stripBlanks_eq hlength (by omega), hblanks, hfound]
    -- a blank at the position has been overwritten
    have hhead : (∀ ch ∈ text.head?, isBlank ch) →
        ∀ line : List CChar, (List.replicate blanks 0 ++ line).head? = some 0 := by
      intro hblank line
      cases text with
      | nil => exact absurd rfl hend
      | cons ch text =>
        have hch : isBlank ch := hblank ch rfl
        rw [hblanks, List.takeWhile_cons_of_pos hch, List.length_cons, List.replicate_succ]
        rfl
    by_cases hmany : finshArgMax ≤ argv.length
    · refine ⟨[], List.replicate blanks 0 ++ (found ++ [0]), pre.length + blanks, true,
        .none (by omega) (by simp; omega) (fun hblank => hhead hblank _) (.inl hmany),
        fun rest => ?_⟩
      rw [loop, if_pos hlt, hstrip]
      simp only [bind, Except.bind]
      rw [if_pos hmany]
      simp [pure, Except.pure]
    cases found with
    | nil =>
      rw [List.length_nil] at hcount
      refine ⟨[], List.replicate blanks 0 ++ [0], pre.length + blanks, false,
        .none (by omega) (by simp; omega) (fun hblank => hhead hblank _)
          (.inr (by rw [harguments]; rfl)), fun rest => ?_⟩
      rw [loop, if_pos hlt, hstrip]
      simp only [bind, Except.bind]
      rw [if_neg hmany, if_pos (by omega)]
      simp [pure, Except.pure]
    | cons ch more =>
      have hch : isBlank ch = false := by
        have hnot := List.head?_dropWhile_not isBlank text
        rw [← hfound] at hnot
        simpa using hnot
      have hat : AtArgument length pre text argv.length blanks ch more :=
        ⟨hlength, by omega, hcount, harguments, hhead, hstrip⟩
      by_cases hquote : ch = 0x22
      · subst hquote
        exact hat.runs_string ih hfuel
      · exact hat.runs_word hch hquote ih hfuel

end Split

/-! ## The command -/

section Command

variable {F : Type} {table : List (FinshSyscall F)} {mem text word : List CChar}

/-- Any line is split into its arguments, and what stands behind it is not touched. -/
theorem mshSplit_eq (text : List CChar) : ∃ argv line position tooMany,
    HasArguments text line argv position ∧
    ∀ rest, mshSplit (text ++ 0 :: rest) text.length =
      .ok { argv, position, mem := line ++ rest, tooMany } := by
  obtain ⟨argv, line, position, tooMany, hleaves, hrun⟩ :=
    @Split.loop_runs [] text text.length (text.length + 1) [] (Nat.zero_add _)
      (Nat.lt_succ_self _) (Nat.zero_le _)
  refine ⟨argv, line, position, tooMany, ⟨hleaves.length_line, ?_, hleaves.words⟩, hrun⟩
  have hle := hleaves.position_le
  rwa [List.length_nil, Nat.zero_add] at hle

/-- An entry for a name is found, whatever stands behind the name in the line. -/
theorem mshGetCmd_eq (hnames : ∀ index ∈ table, 0 ∉ index.name)
    (hmem : (cString mem).take word.length = word) :
    mshGetCmd mem word.length table =
      .ok ((table.find? (fun index => index.isCommand && index.cmdName = word)).map (·.func)) := by
  induction table with
  | nil => rfl
  | cons index table ih =>
    have hrest := ih fun other hother => hnames other (List.mem_cons_of_mem _ hother)
    rw [mshGetCmd]
    by_cases hcommand : index.isCommand
    · rw [if_pos hcommand]
      by_cases htake : index.cmdName.take word.length = word
      · rw [if_pos (strncmpZero_iff.mpr (by rw [htake, hmem]))]
        have hbegins : word <+: index.cmdName := by
          rw [← htake]
          exact List.take_prefix _ _
        have hname : index.cmdName = word ++ index.cmdName.drop word.length :=
          List.prefix_append_drop hbegins
        have hdrop : (index.name ++ [0]).drop (6 + word.length) =
            index.cmdName.drop word.length ++ [0] := by
          have hsign : (cmdSign ++ (index.cmdName ++ [0])).drop 6 = index.cmdName ++ [0] := rfl
          rw [FinshSyscall.name_of_isCommand hcommand, List.append_assoc, ← List.drop_drop, hsign,
            List.drop_append_of_le_length hbegins.length_le]
        cases hbehind : index.cmdName.drop word.length with
        | nil =>
          rw [hbehind, List.append_nil] at hname
          rw [hbehind] at hdrop
          rw [fetch_of_drop hdrop]
          simp [bind, Except.bind, hcommand, hname, pure, Except.pure]
        | cons ch more =>
          rw [hbehind] at hdrop hname
          have hch : ch ≠ 0 := fun hz => hnames index List.mem_cons_self (by
            rw [FinshSyscall.name_of_isCommand hcommand, hname, hz]
            simp)
          have hother : index.cmdName ≠ word := fun hsame => by
            have hlength := congrArg List.length (hname.symm.trans hsame)
            simp at hlength
          rw [fetch_of_drop hdrop]
          simp only [bind, Except.bind]
          rw [if_neg hch, hrest, List.find?_cons_of_neg (by simp [hother])]
      · have hother : index.cmdName ≠ word := fun hsame => htake (by rw [hsame, List.take_length])
        rw [if_neg (fun hcmp => htake (by rw [strncmpZero_iff.mp hcmp, hmem])), hrest,
          List.find?_cons_of_neg (by simp [hother])]
    · rw [if_neg hcommand, hrest, List.find?_cons_of_neg (by simp [hcommand])]

theorem take_cString (rest : List CChar) (hword : 0 ∉ firstWord text) :
    (cString (text ++ 0 :: rest)).take (firstWord text).length = firstWord text := by
  have hnonzero : ∀ ch ∈ firstWord text, decide (ch ≠ 0) = true := fun ch hch =>
    decide_eq_true fun hz => hword (hz ▸ hch)
  obtain ⟨behind, hbehind⟩ : ∃ behind, text = firstWord text ++ behind :=
    ⟨_, List.takeWhile_append_dropWhile.symm⟩
  have hmem : text ++ 0 :: rest = firstWord text ++ (behind ++ 0 :: rest) := by
    rw [← List.append_assoc, ← hbehind]
  rw [cString, hmem, List.takeWhile_append_of_pos hnonzero, List.take_left]

/-- The first argument of a line that starts with the name of a command. -/
theorem head?_arguments (hne : firstWord text ≠ []) (hquote : (firstWord text).head? ≠ some 0x22) :
    (arguments text).head? = some (firstWord text) := by
  cases text with
  | nil => exact absurd rfl hne
  | cons ch text =>
    have hblank : isBlank ch = false := by
      by_contra hb
      exact hne (List.takeWhile_cons_of_neg (by simpa using hb))
    have hch : ch ≠ 0x22 := fun h => hquote (by
      rw [firstWord, List.takeWhile_cons_of_pos (by rw [hblank]; rfl), h]
      rfl)
    rw [arguments, tokens_cons_word hblank hch]
    rfl

/-- The first argument is the name of the command. -/
theorem HasArguments.head {line : List CChar} {argv : List Nat} {position : Nat}
    {index : FinshSyscall F} (h : HasArguments text line argv position)
    (hquotes : ∀ name ∈ commandNames table, name.head? ≠ some 0x22)
    (hindex : namedCommand table text = some index) :
    ∃ start, argv.head? = some start ∧ HoldsWord line start index.cmdName := by
  obtain ⟨hne, hfind⟩ : firstWord text ≠ [] ∧
      table.find? (fun index => index.isCommand && index.cmdName = firstWord text) =
        some index := by
    unfold namedCommand at hindex
    split at hindex
    next => cases hindex
    next hne => exact ⟨hne, hindex⟩
  obtain ⟨hcommand, hname⟩ : index.isCommand ∧ index.cmdName = firstWord text := by
    simpa using List.find?_some hfind
  have hquote : (firstWord text).head? ≠ some 0x22 := by
    rw [← hname]
    exact hquotes _ (List.mem_map.mpr
      ⟨index, List.mem_filter.mpr ⟨List.mem_of_find?_eq_some hfind, hcommand⟩, rfl⟩)
  have hfirst := head?_arguments hne hquote
  have hwords := h.words
  cases hargs : arguments text with
  | nil =>
    rw [hargs] at hfirst
    cases hfirst
  | cons word others =>
    rw [hargs] at hfirst hwords
    obtain rfl : word = firstWord text := Option.some.inj hfirst
    cases hwords with
    | cons hstart hrest => exact ⟨_, rfl, hname ▸ hstart⟩

/-- Any line is split into its arguments, and the command that its first word names is called with
    them. -/
theorem msh_exec_cmd_exact (table : List (FinshSyscall F)) (text : List CChar)
    (hnames : ∀ index ∈ table, 0 ∉ index.name)
    (hquotes : ∀ name ∈ commandNames table, name.head? ≠ some 0x22)
    (hword : 0 ∉ firstWord text) :
    ∃ argv line position tooMany, HasArguments text line argv position ∧
      (∀ rest, mshSplit (text ++ 0 :: rest) text.length =
        .ok { argv, position, mem := line ++ rest, tooMany }) ∧
      (∀ rest, mshExecCmd table (text ++ 0 :: rest) text.length =
        .ok ((namedCommand table text).map fun index =>
          { func := index.func, split := { argv, position, mem := line ++ rest, tooMany } })) ∧
      ∀ index, namedCommand table text = some index →
        ∃ start, argv.head? = some start ∧ HoldsWord line start index.cmdName := by
  obtain ⟨argv, line, position, tooMany, hline, hsplit⟩ := mshSplit_eq text
  refine ⟨argv, line, position, tooMany, hline, hsplit, fun rest => ?_,
    fun index hindex => hline.head hquotes hindex⟩
  have hskip : skipWord text.length (text ++ 0 :: rest) (text.length + 1) 0 =
      .ok (0 + (firstWord text).length) :=
    skipWord_eq List.drop_zero (Nat.zero_add _) (Nat.lt_succ_self _)
  rw [mshExecCmd, hskip]
  simp only [bind, Except.bind, Nat.zero_add]
  by_cases hne : firstWord text = []
  · rw [if_pos (List.length_eq_zero_iff.mpr hne), namedCommand, if_pos hne]
    rfl
  have hnamed : namedCommand table text =
      table.find? (fun index => index.isCommand && index.cmdName = firstWord text) := if_neg hne
  rw [if_neg fun hzero => hne (List.length_eq_zero_iff.mp hzero),
    mshGetCmd_eq hnames (take_cString rest hword), ← hnamed]
  cases hindex : namedCommand table text with
  | none => rfl
  | some index =>
    obtain ⟨start, hstart, -⟩ := hline.head hquotes hindex
    have hargc : argv.length ≠ 0 := fun hzero => by
      rw [List.length_eq_zero_iff.mp hzero] at hstart
      cases hstart
    simp only [Option.map_some, hsplit rest]
    rw [if_neg hargc]
    rfl

/-- `__cmd_echo`. -/
def echoTable : List (FinshSyscall Nat) := [⟨cmdSign ++ [0x65, 0x63, 0x68, 0x6f], 0x08001000⟩]

/-- `echo "a b"`. -/
def echoLine : List CChar := [0x65, 0x63, 0x68, 0x6f, 0x20, 0x22, 0x61, 0x20, 0x62, 0x22]

theorem msh_exec_cmd_exact_echo :
    ∃ argv line position tooMany, HasArguments echoLine line argv position ∧
      (∀ rest, mshSplit (echoLine ++ 0 :: rest) echoLine.length =
        .ok { argv, position, mem := line ++ rest, tooMany }) ∧
      (∀ rest, mshExecCmd echoTable (echoLine ++ 0 :: rest) echoLine.length =
        .ok ((namedCommand echoTable echoLine).map fun index =>
          { func := index.func, split := { argv, position, mem := line ++ rest, tooMany } })) ∧
      ∀ index, namedCommand echoTable echoLine = some index →
        ∃ start, argv.head? = some start ∧ HoldsWord line start index.cmdName :=
  msh_exec_cmd_exact echoTable echoLine (by decide) (by decide) (by decide)

/-- The arguments are `echo` and `a b`. -/
example : arguments echoLine = [[0x65, 0x63, 0x68, 0x6f], [0x61, 0x20, 0x62]] := by decide

example : mshExecCmd echoTable (echoLine ++ [0]) echoLine.length = .ok (some {
    func := 0x08001000
    split :=
      { argv := [0, 6]
        position := 10
        mem := [0x65, 0x63, 0x68, 0x6f, 0, 0x22, 0x61, 0x20, 0x62, 0, 0]
        tooMany := false } }) := by
  decide

end Command

end PandoraRobot.Finsh
