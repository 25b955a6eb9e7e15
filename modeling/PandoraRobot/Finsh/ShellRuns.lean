import PandoraRobot.Finsh.Shell

/-! # Typing at the shell

Any sequence of characters.  As long as no line becomes as long as `line`, what the shell shows
and executes is what the editor has.
-/

namespace PandoraRobot.Finsh

open PandoraRobot.Kernel PandoraRobot.LineEditor PandoraRobot.Trace

/-- A command completes the text of the line. -/
def Completes (commands : List (List CChar)) (text : List CChar) : Prop :=
  text ≠ [] ∧ ∃ name ∈ commands, text <+: name

instance (commands : List (List CChar)) (text : List CChar) : Decidable (Completes commands text) :=
  inferInstanceAs (Decidable (_ ∧ _))

namespace Represents

variable {shell : FinshShell} {e : Editor CChar} {ch : CChar} {commands : List (List CChar)}

/-- A character that is not part of an escape sequence. -/
theorem handleChar (h : Represents shell e)
    (hnone : plainKey ch = some .tab → ¬ Completes commands e.text)
    (hroom : plainKey ch = some (.char ch) → e.text.length + 1 < finshCmdSize) :
    ∃ shell' command, shell.handleChar commands ch = .ok (shell', command) ∧
      Represents shell' (pressKey e (plainKey ch)).1 ∧
      Executes (pressKey e (plainKey ch)).2 command ∧ shell'.stat = shell.stat := by
  unfold FinshShell.handleChar
  unfold plainKey at hnone hroom ⊢
  by_cases hnull : ch = 0 ∨ ch = 0xff
  · simp only [if_pos hnull]
    exact ⟨shell, none, rfl, h, .silent, rfl⟩
  simp only [if_neg hnull] at hnone hroom ⊢
  by_cases htab : ch = 0x09
  · simp only [if_pos htab, true_implies] at hnone ⊢
    have hnone' : e.text = [] ∨ ∀ name ∈ commands, ¬ e.text <+: name := by
      simpa [Completes, or_iff_not_imp_left] using hnone
    obtain ⟨shell', hcode, h', hstat⟩ := h.tabKey hnone'
    exact ⟨shell', none, by rw [hcode]; rfl, h', .silent, hstat⟩
  simp only [if_neg htab] at hroom ⊢
  by_cases hback : ch = 0x7f ∨ ch = 0x08
  · simp only [if_pos hback]
    obtain ⟨shell', hcode, h', hstat⟩ := h.backspaceKey
    exact ⟨shell', none, by rw [hcode]; rfl, h', .silent, hstat⟩
  simp only [if_neg hback] at hroom ⊢
  by_cases hend : ch = 0x0d ∨ ch = 0x0a
  · simp only [if_pos hend]
    exact h.lineEnd
  · simp only [if_neg hend, true_implies] at hroom ⊢
    obtain ⟨shell', hcode, h', hstat⟩ := h.normalChar (fun hz => hnull (.inl hz)) hroom
    exact ⟨shell', none, by rw [hcode]; rfl, h', .silent, hstat⟩

end Represents

/-! ## Sessions -/

/-- The shell, and what has been typed. -/
structure Session where
  shell : FinshShell
  typed : Typed

namespace Session

variable {commands : List (List CChar)} {ch : CChar} {s : Session}

def init : Session where
  shell := .init
  typed := { stat := .waitNormal, editor := .empty }

/-- The next character arrives. -/
def type (commands : List (List CChar)) (ch : CChar) (s : Session) :
    Exec (Session × Option MshCommand) := do
  let (shell, command) ← s.shell.finshThreadTurn commands ch
  pure ({ shell, typed := (s.typed.next ch).1 }, command)

/-- The line has the text, and the counters are its length and the cursor. -/
structure Shows (s : Session) : Prop where
  curpos_le : s.shell.lineCurpos ≤ s.shell.linePosition
  position_lt : s.shell.linePosition < finshCmdSize
  text : s.shell.line.take s.shell.linePosition = s.typed.editor.text
  cursor : s.shell.lineCurpos = s.typed.editor.cursor

/-- The turn of the loop stays inside of the arrays, leaves the text in the line, and executes
    the line entered. -/
def Right (commands : List (List CChar)) (ch : CChar) (s : Session) : Prop :=
  ∃ s' command, s.type commands ch = .ok (s', command) ∧ s'.Shows ∧
    Executes (s.typed.next ch).2 command

/-- A tab finds no completion. -/
def NoCompletion (commands : List (List CChar)) (ch : CChar) (s : Session) : Prop :=
  (keyOf s.shell.stat ch).2 = some .tab →
    ¬ Completes commands (s.shell.line.take s.shell.linePosition)

instance {commands : List (List CChar)} {ch : CChar} {s : Session} :
    Decidable (NoCompletion commands ch s) :=
  inferInstanceAs (Decidable (_ → _))

/-- A character does not make the line `FINSH_CMD_SIZE` long. -/
def Room (ch : CChar) (s : Session) : Prop :=
  (keyOf s.shell.stat ch).2 = some (.char ch) → s.shell.linePosition + 1 < finshCmdSize

instance {ch : CChar} {s : Session} : Decidable (Room ch s) :=
  inferInstanceAs (Decidable (_ → _))

/-- The shell is in the state of the editor, also in the midst of an escape sequence. -/
structure Inv (s : Session) : Prop where
  line : Represents s.shell s.typed.editor
  stat : s.shell.stat = s.typed.stat

theorem Inv.shows (h : s.Inv) : s.Shows where
  curpos_le := by
    rw [h.line.curpos, h.line.position]
    exact s.typed.editor.cursor_le
  position_lt := by
    rw [h.line.position]
    exact h.line.fits.text.1
  text := by rw [h.line.position, h.line.line, take_padded]
  cursor := h.line.curpos

theorem init_inv : init.Inv where
  line := .init
  stat := rfl

/-- One character, whatever it is. -/
theorem Inv.type (h : s.Inv) (hnone : NoCompletion commands ch s) (hroom : Room ch s) :
    ∃ s' command, s.type commands ch = .ok (s', command) ∧ s'.Inv ∧
      Executes (s.typed.next ch).2 command := by
  have hposition := h.line.position
  rw [NoCompletion, hposition, h.line.line, take_padded, h.stat] at hnone
  rw [Room, hposition, h.stat] at hroom
  -- the turn of the shell does to the line what the key does to the editor
  suffices hturn : ∃ shell' command,
      s.shell.finshThreadTurn commands ch = .ok (shell', command) ∧
      Represents shell' (pressKey s.typed.editor (keyOf s.typed.stat ch).2).1 ∧
      Executes (pressKey s.typed.editor (keyOf s.typed.stat ch).2).2 command ∧
      shell'.stat = (keyOf s.typed.stat ch).1 by
    obtain ⟨shell', command, hcode, hline, hright, hstat⟩ := hturn
    exact ⟨_, command, by rw [Session.type, hcode]; rfl, ⟨hline, hstat⟩, hright⟩
  unfold FinshShell.finshThreadTurn
  rw [h.stat]
  have hstat := h.stat
  unfold keyOf at hnone hroom ⊢
  by_cases hescape : ch = 0x1b
  · simp only [if_pos hescape]
    exact ⟨_, none, rfl, { h.line with }, .silent, rfl⟩
  simp only [if_neg hescape] at hnone hroom ⊢
  have hplain : Represents { s.shell with stat := .waitNormal } s.typed.editor := { h.line with }
  -- a key that ends no escape sequence counts as a character of its own
  cases hkeys : s.typed.stat with
  | waitNormal =>
    simp only [hkeys, reduceCtorEq, if_false] at hnone hroom ⊢
    obtain ⟨shell', command, hcode, hline, hright, hstat'⟩ := h.line.handleChar hnone hroom
    exact ⟨shell', command, hcode, hline, hright, by rw [hstat', hstat, hkeys]⟩
  | waitSpecKey =>
    simp only [hkeys, if_true] at hnone hroom ⊢
    by_cases hbracket : ch = 0x5b
    · simp only [if_pos hbracket]
      exact ⟨_, none, rfl, { h.line with }, .silent, rfl⟩
    · simp only [if_neg hbracket] at hnone hroom ⊢
      exact hplain.handleChar hnone hroom
  | waitFuncKey =>
    simp only [hkeys, reduceCtorEq, if_false, if_true] at hnone hroom ⊢
    unfold funcKey at hnone hroom ⊢
    by_cases hup : ch = 0x41
    · simp only [if_pos hup]
      obtain ⟨shell', hcode, hline, hstat'⟩ := hplain.upKey
      exact ⟨shell', none, by rw [hcode]; rfl, hline, .silent, hstat'⟩
    simp only [if_neg hup] at hnone hroom ⊢
    by_cases hdown : ch = 0x42
    · simp only [if_pos hdown]
      obtain ⟨shell', hcode, hline, hstat'⟩ := hplain.downKey
      exact ⟨shell', none, by rw [hcode]; rfl, hline, .silent, hstat'⟩
    simp only [if_neg hdown] at hnone hroom ⊢
    by_cases hleft : ch = 0x44
    · simp only [if_pos hleft]
      exact ⟨_, none, rfl, hplain.leftKey.1, .silent, hplain.leftKey.2⟩
    simp only [if_neg hleft] at hnone hroom ⊢
    by_cases hright : ch = 0x43
    · simp only [if_pos hright]
      exact ⟨_, none, rfl, hplain.rightKey.1, .silent, hplain.rightKey.2⟩
    · simp only [if_neg hright] at hnone hroom ⊢
      exact hplain.handleChar hnone hroom

/-- As long as no character makes the line `FINSH_CMD_SIZE` long, the shell shows and executes
    what is typed. -/
theorem finsh_line_exact (commands : List (List CChar)) (chars : List CChar)
    (h : Along (type commands) (fun ch s => NoCompletion commands ch s ∧ Room ch s) chars init) :
    init.Shows ∧ Along (type commands) (Right commands) chars init := by
  refine ⟨init_inv.shows, along_of (I := Inv) (fun ch s hi hq => ?_) (fun ch s s' o hi hq hstep => ?_)
    init_inv h⟩
  · obtain ⟨s', command, hcode, hi', hright⟩ := hi.type hq.1 hq.2
    exact ⟨s', command, hcode, hi'.shows, hright⟩
  · obtain ⟨s'', command, hcode, hi', -⟩ := hi.type hq.1 hq.2
    obtain ⟨rfl, -⟩ : s'' = s' ∧ command = o := by simpa [hstep] using hcode.symm
    exact hi'

/-- `ls`, a step to the left, `l` and the end of the line. -/
theorem finsh_line_exact_edit :
    Along (type []) (fun ch s => NoCompletion [] ch s ∧ Room ch s)
      [0x6c, 0x73, 0x1b, 0x5b, 0x44, 0x6c, 0x0d] init ∧
    init.Shows ∧ Along (type []) (Right []) [0x6c, 0x73, 0x1b, 0x5b, 0x44, 0x6c, 0x0d] init := by
  have hmeets : Along (type []) (fun ch s => NoCompletion [] ch s ∧ Room ch s)
      [0x6c, 0x73, 0x1b, 0x5b, 0x44, 0x6c, 0x0d] init := by
    decide +kernel
  exact ⟨hmeets, finsh_line_exact [] _ hmeets⟩

/-- A line of 80 characters is discarded, and `b` and the end of the line come then.  The command
    is `b` with the rest of the discarded line behind. -/
theorem finsh_line_appended : ¬ ∀ (commands : List (List CChar)) (chars : List CChar),
    Along (type commands) (NoCompletion commands) chars init →
      init.Shows ∧ Along (type commands) (Right commands) chars init := by
  intro hall
  have hnone : ∀ ch s, NoCompletion [] ch s := fun _ _ _ h => absurd h.2 (by simp)
  have hright := (hall [] (List.replicate 80 0x61 ++ [0x62] ++ [0x0d])
    (along_of (I := fun _ => True) (Q := fun _ _ => True) (fun ch s _ _ => hnone ch s)
      (fun _ _ _ _ _ _ _ => trivial) trivial along_true)).2
  have hrun : ((runExcept (type []) (List.replicate 80 0x61 ++ [0x62]) init).toOption.map fun r =>
      ((type [] 0x0d r.1).toOption.map (·.2), (r.1.typed.next 0x0d).2)) =
      some (some (some { cmd := 0x62 :: List.replicate 79 0x61, length := 1 }), some [0x62]) := by
    decide +kernel
  cases hline : runExcept (type []) (List.replicate 80 0x61 ++ [0x62]) init with
  | error e =>
    rw [hline] at hrun
    exact absurd hrun (by simp [Except.toOption])
  | ok r =>
    rw [hline] at hrun
    obtain ⟨s', command, hcode, -, hexecutes⟩ := (hright.of_append hline).1
    simp only [Except.toOption, Option.map_some, Option.some.injEq, Prod.mk.injEq, hcode]
      at hrun
    rw [hrun.2, hrun.1] at hexecutes
    -- the second character of `cmd` would have to be the terminator
    cases hexecutes

end Session

end PandoraRobot.Finsh
