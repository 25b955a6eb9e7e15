import PandoraRobot.Finsh.ShellRuns
import PandoraRobot.Lib.RecentLines

/-! # The history of the shell

What `shell_push_history` and the up and down keys make of a session: the lines that are kept, and
the place among them that the keys have moved to.
-/

namespace PandoraRobot.LineEditor

variable {α : Type} [DecidableEq α]

namespace Editor

variable {limit depth : Nat} {e : Editor α} {key : Key α}

/-- Only the end of a line changes what is remembered. -/
theorem press_history : (e.press limit depth key).1.history =
    if key = .enter then remember depth e.text e.history else e.history := by
  cases key with
  | char x =>
    simp only [press, insert]
    split <;> rfl
  | up =>
    simp only [press, previous]
    split <;> rfl
  | down =>
    simp only [press, next, reduceCtorEq, if_false]
    split_ifs <;> rfl
  | left | tab | enter => rfl
  | right =>
    simp only [press, moveRight]
    split <;> rfl
  | backspace =>
    simp only [press, erase]
    split <;> rfl

section

omit [DecidableEq α]

/-- The line before the recalled one. -/
theorem previous_eq_load (h : 0 < e.selected) :
    ∃ hi : e.selected - 1 < e.history.length, e.previous = e.load (e.selected - 1) hi :=
  ⟨lt_of_lt_of_le (Nat.sub_lt h Nat.one_pos) e.selected_le, dif_pos h⟩

/-- The line after it, or the last one. -/
theorem next_eq_load (h : 0 < e.history.length) :
    ∃ hi : min (e.history.length - 1) (e.selected + 1) < e.history.length,
      e.next = e.load (min (e.history.length - 1) (e.selected + 1)) hi := by
  refine ⟨by omega, ?_⟩
  unfold next
  by_cases hnext : e.selected + 1 < e.history.length
  · have hmin : min (e.history.length - 1) (e.selected + 1) = e.selected + 1 := by omega
    simp only [dif_pos hnext, hmin]
  · have hmin : min (e.history.length - 1) (e.selected + 1) = e.history.length - 1 := by omega
    simp only [dif_neg hnext, dif_pos h, hmin]

end

theorem press_selected : (e.press limit depth key).1.selected =
    if key = .enter then (remember depth e.text e.history).length
    else if key = .up then e.selected - 1
    else if key = .down then min (e.history.length - 1) (e.selected + 1)
    else e.selected := by
  cases key with
  | char x =>
    simp only [press, insert]
    split <;> rfl
  | up =>
    simp only [press, reduceCtorEq, if_false, if_true]
    obtain hzero | hpos := Nat.eq_zero_or_pos e.selected
    · rw [previous, dif_neg (by omega), hzero]
    · obtain ⟨hi, heq⟩ := previous_eq_load hpos
      rw [heq]
      rfl
  | down =>
    simp only [press, reduceCtorEq, if_false, if_true]
    obtain hzero | hpos := Nat.eq_zero_or_pos e.history.length
    · have hselected := e.selected_le
      rw [next, dif_neg (by omega), dif_neg (by omega)]
      omega
    · obtain ⟨hi, heq⟩ := next_eq_load hpos
      rw [heq]
      rfl
  | left | tab | enter => rfl
  | right =>
    simp only [press, moveRight]
    split <;> rfl
  | backspace =>
    simp only [press, erase]
    split <;> rfl

end Editor

end PandoraRobot.LineEditor

namespace PandoraRobot.Finsh

open PandoraRobot.Kernel PandoraRobot.LineEditor PandoraRobot.Trace

section Keys

variable {stat : InputStat} {ch : CChar} {e : Editor CChar} {key : Option (Key CChar)}

/-- Only an escape sequence is an arrow key. -/
theorem plainKey_ne_arrow : plainKey ch ≠ some .up ∧ plainKey ch ≠ some .down := by
  unfold plainKey
  split_ifs <;> simp

theorem keyOf_up (h : (keyOf stat ch).2 = some .up) : stat = .waitFuncKey ∧ ch = 0x41 := by
  have hplain : plainKey ch ≠ some .up ∧ plainKey ch ≠ some .down := plainKey_ne_arrow
  unfold keyOf funcKey at h
  grind

theorem keyOf_down (h : (keyOf stat ch).2 = some .down) : stat = .waitFuncKey ∧ ch = 0x42 := by
  have hplain : plainKey ch ≠ some .up ∧ plainKey ch ≠ some .down := plainKey_ne_arrow
  unfold keyOf funcKey at h
  grind

theorem pressKey_history : (pressKey e key).1.history =
    if key = some .enter then Editor.remember finshHistoryLines e.text e.history
    else e.history := by
  cases key with
  | none => rfl
  | some key => simpa only [pressKey, Option.some.injEq] using Editor.press_history

theorem pressKey_selected : (pressKey e key).1.selected =
    if key = some .enter then (Editor.remember finshHistoryLines e.text e.history).length
    else if key = some .up then e.selected - 1
    else if key = some .down then min (e.history.length - 1) (e.selected + 1)
    else e.selected := by
  cases key with
  | none => rfl
  | some key => simpa only [pressKey, Option.some.injEq] using Editor.press_selected

end Keys

/-- The shell, the lines that have been entered, and the position that the keys have moved to. -/
structure HistorySession where
  shell : FinshShell
  entered : List (List CChar)
  position : Nat

namespace HistorySession

variable {commands : List (List CChar)} {ch : CChar} {s : HistorySession}

def init : HistorySession where
  shell := .init
  entered := []
  position := 0

/-- The key that a character completes. -/
def keyAt (ch : CChar) (s : HistorySession) : Option (Key CChar) := (keyOf s.shell.stat ch).2

/-- The lines that the history is to have, the oldest first. -/
def entries (s : HistorySession) : List (List CChar) := recentLines finshHistoryLines s.entered

/-- The lines entered, with the one in the buffer when a line ends. -/
def enteredAfter (ch : CChar) (s : HistorySession) : List (List CChar) :=
  if s.keyAt ch = some .enter then s.entered ++ [s.shell.line.take s.shell.linePosition]
  else s.entered

/-- The position starts behind the last entry when a line ends, and the arrow keys move it. -/
def positionAfter (ch : CChar) (s : HistorySession) : Nat :=
  if s.keyAt ch = some .enter then (recentLines finshHistoryLines (s.enteredAfter ch)).length
  else if s.keyAt ch = some .up then s.position - 1
  else if s.keyAt ch = some .down then min (s.entries.length - 1) (s.position + 1)
  else s.position

/-- The next character arrives. -/
def type (commands : List (List CChar)) (ch : CChar) (s : HistorySession) :
    Exec (HistorySession × Option MshCommand) := do
  let (shell, command) ← s.shell.finshThreadTurn commands ch
  pure ({ shell, entered := s.enteredAfter ch, position := s.positionAfter ch }, command)

/-- The history has the entries, each filled up with zeros, and `current_history` is the
    position. -/
structure Keeps (s : HistorySession) : Prop where
  rows : s.shell.cmdHistory.take s.shell.historyCount = s.entries.map (padded finshCmdSize 0)
  count : s.shell.historyCount = s.entries.length
  current : s.shell.currentHistory = s.position

/-- The line is the entry at the position, and the counters are its length. -/
def ShowsEntry (s : HistorySession) : Prop :=
  ∃ text, s.entries[s.position]? = some text ∧ s.shell.line = padded finshCmdSize 0 text ∧
    s.shell.linePosition = text.length ∧ s.shell.lineCurpos = text.length

/-- The key is an arrow key that goes through the history. -/
def Browses (ch : CChar) (s : HistorySession) : Prop :=
  s.keyAt ch = some .up ∨ s.keyAt ch = some .down

/-- The turn keeps the history; a key that moves to an entry shows it; and without entries the
    keys do nothing. -/
def Right (commands : List (List CChar)) (ch : CChar) (s : HistorySession) : Prop :=
  ∃ s' command, s.type commands ch = .ok (s', command) ∧ s'.Keeps ∧
    (s.Browses ch → (s.entries = [] → s'.shell = { s.shell with stat := .waitNormal }) ∧
      (s'.position ≠ s.position → s'.ShowsEntry))

/-- A line that is typed stays shorter than `FINSH_CMD_SIZE`, and a tab does not complete it. -/
def TypesLine (commands : List (List CChar)) (ch : CChar) (s : HistorySession) : Prop :=
  (s.keyAt ch = some .tab → ¬ Completes commands (s.shell.line.take s.shell.linePosition)) ∧
    (s.keyAt ch = some (.char ch) → s.shell.linePosition + 1 < finshCmdSize)

/-- The shell is in the state of an editor that remembers the entries. -/
def Inv (s : HistorySession) : Prop :=
  ∃ typed : Typed, Session.Inv ⟨s.shell, typed⟩ ∧ typed.editor.history = s.entries ∧
    typed.editor.selected = s.position

theorem init_inv : init.Inv := ⟨_, Session.init_inv, rfl, rfl⟩

theorem Inv.keeps (h : s.Inv) : s.Keeps := by
  obtain ⟨typed, hinv, hhistory, hselected⟩ := h
  refine ⟨?_, ?_, ?_⟩
  · rw [← hhistory]
    exact hinv.line.history
  · rw [← hhistory]
    exact hinv.line.count
  · rw [← hselected]
    exact hinv.line.current

/-- Without entries, the arrow keys only end the escape sequence. -/
theorem turn_no_entries (hkeeps : s.Keeps) (hposition : s.position = 0) (hbrowses : s.Browses ch)
    (hnone : s.entries = []) :
    s.shell.finshThreadTurn commands ch = .ok ({ s.shell with stat := .waitNormal }, none) := by
  have hcount : s.shell.historyCount = 0 := by rw [hkeeps.count, hnone, List.length_nil]
  have hcurrent : s.shell.currentHistory = 0 := by rw [hkeeps.current, hposition]
  rcases hbrowses with hup | hdown
  · obtain ⟨hstat, rfl⟩ := keyOf_up hup
    have hcode : s.shell.finshThreadTurn commands 0x41 = (do
        pure (← { s.shell with stat := .waitNormal }.upKey, none)) := by
      simp [FinshShell.finshThreadTurn, hstat]
    rw [hcode, FinshShell.upKey, if_neg (not_lt.mpr hcurrent.le)]
    simp only [← hcurrent]
    rfl
  · obtain ⟨hstat, rfl⟩ := keyOf_down hdown
    have hcode : s.shell.finshThreadTurn commands 0x42 = (do
        pure (← { s.shell with stat := .waitNormal }.downKey, none)) := by
      simp [FinshShell.finshThreadTurn, hstat]
    rw [hcode, FinshShell.downKey, if_neg (by simp only [hcount]; omega),
      if_neg (not_not.mpr hcount)]
    rfl

/-- One character, whatever it is. -/
theorem Inv.type (h : s.Inv) (hq : TypesLine commands ch s) :
    ∃ s' command, s.type commands ch = .ok (s', command) ∧ s'.Inv ∧
      (s.Browses ch → (s.entries = [] → s'.shell = { s.shell with stat := .waitNormal }) ∧
        (s'.position ≠ s.position → s'.ShowsEntry)) := by
  have hkeeps := h.keeps
  obtain ⟨typed, hinv, hhistory, hselected⟩ := h
  obtain ⟨⟨shell', typed'⟩, command, hcode, hinv', -⟩ := hinv.type hq.1 hq.2
  rw [Session.type, exec_bind_ok] at hcode
  obtain ⟨turn, hturn, hpair⟩ := hcode
  obtain ⟨⟨rfl, rfl⟩, rfl⟩ : (turn.1 = shell' ∧ (typed.next ch).1 = typed') ∧ turn.2 = command := by
    simpa using hpair
  have hkey : (keyOf typed.stat ch).2 = s.keyAt ch := by rw [keyAt, ← hinv.stat]
  have heditor : (typed.next ch).1.editor = (pressKey typed.editor (s.keyAt ch)).1 := by
    rw [← hkey]
    rfl
  have htext : s.shell.line.take s.shell.linePosition = typed.editor.text := by
    rw [hinv.line.line, hinv.line.position, take_padded]
  -- what is remembered at the end of a line are the last lines entered
  have hremember : Editor.remember finshHistoryLines typed.editor.text typed.editor.history =
      recentLines finshHistoryLines (s.entered ++ [s.shell.line.take s.shell.linePosition]) := by
    rw [hhistory, entries, remember_recentLines (by decide), htext]
  have hhistory' : (typed.next ch).1.editor.history =
      recentLines finshHistoryLines (s.enteredAfter ch) := by
    rw [heditor, pressKey_history, enteredAfter, hremember, hhistory]
    split <;> rfl
  have hselected' : (typed.next ch).1.editor.selected = s.positionAfter ch := by
    rw [heditor, pressKey_selected, positionAfter, enteredAfter, hremember, hhistory, hselected]
    split <;> rfl
  refine ⟨{ shell := turn.1, entered := s.enteredAfter ch, position := s.positionAfter ch }, turn.2,
    ?_, ⟨_, hinv', hhistory', hselected'⟩, fun hbrowses => ⟨fun hnone => ?_, fun hmoved => ?_⟩⟩
  · rw [HistorySession.type, hturn]
    rfl
  · have hposition : s.position = 0 := by
      have hle := typed.editor.selected_le
      rw [hhistory, hnone, hselected] at hle
      exact Nat.le_zero.mp hle
    have heq := @turn_no_entries commands ch s hkeeps hposition hbrowses hnone
    rw [hturn, Except.ok.injEq] at heq
    rw [heq]
  · -- the key has loaded the entry
    obtain ⟨i, hi, hload⟩ : ∃ i, ∃ hi : i < typed.editor.history.length,
        (typed.next ch).1.editor = typed.editor.load i hi := by
      rw [heditor]
      rcases hbrowses with hup | hdown
      · rw [hup]
        have hpos : 0 < typed.editor.selected := by
          rw [positionAfter, hup] at hmoved
          simp only [Option.some.injEq, reduceCtorEq, if_false, if_true] at hmoved
          omega
        obtain ⟨hi, heq⟩ := Editor.previous_eq_load hpos
        exact ⟨_, hi, heq⟩
      · rw [hdown]
        have hpos : 0 < typed.editor.history.length := by
          have hle := typed.editor.selected_le
          rw [positionAfter, hdown] at hmoved
          simp only [Option.some.injEq, reduceCtorEq, if_false, if_true] at hmoved
          rw [← hhistory] at hmoved
          omega
        obtain ⟨hi, heq⟩ := Editor.next_eq_load hpos
        exact ⟨_, hi, heq⟩
    have hline := hinv'.line
    simp only [hload] at hline hhistory' hselected'
    refine ⟨typed.editor.history[i], ?_, hline.line, hline.position, hline.curpos⟩
    rw [entries, ← hhistory', ← hselected']
    exact List.getElem?_eq_getElem hi

/-- What is typed and the arrow keys leave the history with the last lines entered. -/
theorem finsh_history_exact (commands : List (List CChar)) (chars : List CChar)
    (h : Along (type commands) (TypesLine commands) chars init) :
    init.Keeps ∧ Along (type commands) (Right commands) chars init := by
  refine ⟨init_inv.keeps, along_of (I := Inv) (fun ch s hi hq => ?_)
    (fun ch s s' o hi hq hstep => ?_) init_inv h⟩
  · obtain ⟨s', command, hcode, hi', hshows⟩ := hi.type hq
    exact ⟨s', command, hcode, hi'.keeps, hshows⟩
  · obtain ⟨s'', command, hcode, hi', -⟩ := hi.type hq
    obtain ⟨rfl, -⟩ : s'' = s' ∧ command = o := by simpa [hstep] using hcode.symm
    exact hi'

instance (commands : List (List CChar)) (ch : CChar) (s : HistorySession) :
    Decidable (TypesLine commands ch s) :=
  inferInstanceAs (Decidable (_ ∧ _))

/-- `ls` twice, then `ps`, two steps back, one forwards, and the line that is found once more with
    an `x` behind it. -/
def recalled : List CChar :=
  [0x6c, 0x73, 0x0d, 0x6c, 0x73, 0x0d, 0x70, 0x73, 0x0d, 0x1b, 0x5b, 0x41, 0x1b, 0x5b, 0x41,
    0x1b, 0x5b, 0x42, 0x78, 0x0d]

/-- There are three entries then. -/
theorem finsh_history_exact_recall :
    Along (type [[0x6c, 0x73]]) (TypesLine [[0x6c, 0x73]]) recalled init ∧ init.Keeps ∧
      Along (type [[0x6c, 0x73]]) (Right [[0x6c, 0x73]]) recalled init ∧
      (runExcept (type [[0x6c, 0x73]]) recalled init).map (fun r => r.1.entries) =
        .ok [[0x6c, 0x73], [0x70, 0x73], [0x70, 0x73, 0x78]] := by
  have hmeets : Along (type [[0x6c, 0x73]]) (TypesLine [[0x6c, 0x73]]) recalled init := by
    decide +kernel
  obtain ⟨hkeeps, hright⟩ := finsh_history_exact [[0x6c, 0x73]] recalled hmeets
  exact ⟨hmeets, hkeeps, hright, by decide +kernel⟩

end HistorySession

end PandoraRobot.Finsh
