import PandoraRobot.Kernel.Service
import PandoraRobot.Lib.LineEditor
import PandoraRobot.Lib.Trace

/-! # The command line of the shell

`finsh_thread_entry` of `shell.c` from one character to the next, with `shell_push_history`,
`msh_auto_complete` and `msh_exec`, next to the editor that it is meant to be.  The options are
those of `rtconfig.h`: `FINSH_USING_HISTORY` and `FINSH_USING_MSH_ONLY` are set, `FINSH_USING_AUTH`
and `RT_USING_DFS` are not.

The line is not cleared when its counters are reset because it has become too long, so that the
next command has the rest of it behind.
-/

namespace PandoraRobot.Finsh

open PandoraRobot.Kernel PandoraRobot.LineEditor PandoraRobot.Trace

/-- A `char`, which is unsigned on the target. -/
abbrev CChar := BitVec 8

/-- `FINSH_CMD_SIZE`. -/
def finshCmdSize : Nat := 80

/-- `FINSH_HISTORY_LINES`. -/
def finshHistoryLines : Nat := 5

/-! ## Memory -/

def rtMemmove (target source n : Nat) (mem : List CChar) : Exec (List CChar) :=
  if target + n ≤ mem.length ∧ source + n ≤ mem.length then pure (moved target source n mem)
  else .error .outOfBounds

/-- An assignment to one element. -/
def store (i : Nat) (ch : CChar) (mem : List CChar) : Exec (List CChar) :=
  if i < mem.length then pure (mem.set i ch) else .error .outOfBounds

/-- Without a terminator `strlen` reads on behind the array. -/
def strlen (mem : List CChar) : Exec Nat :=
  if 0 ∈ mem then pure (mem.takeWhile (· ≠ 0)).length else .error .outOfBounds

/-! ## Commands -/

def isBlank (ch : CChar) : Bool := ch == 0x20 || ch == 0x09

/-- What `msh_exec` hands on to `_msh_exec_cmd`: the memory from `cmd` on, up to the end of the
    line, and the length. -/
structure MshCommand where
  cmd : List CChar
  length : BitVec 32
  deriving DecidableEq

/-- `msh_exec` up to `_msh_exec_cmd`. -/
def mshExec (line : List CChar) (length : BitVec 32) : Exec (Option MshCommand) :=
  let cmd := line.dropWhile isBlank
  if cmd = [] then .error .outOfBounds
  else
    let length := length - BitVec.ofNat 32 (line.length - cmd.length)
    if length = 0 then pure none else pure (some { cmd, length })

/-- `str_common`. -/
def strCommon : List CChar → List CChar → Nat
  | a :: as, b :: bs => if a = b then strCommon as bs + 1 else 0
  | _, _ => 0

/-- `msh_auto_complete`, where `commands` are the names of the commands in the symbol table. -/
def mshAutoComplete (commands : List (List CChar)) (line : List CChar) :
    Exec (List CChar) := do
  let n ← strlen line
  if n = 0 then pure line
  else
    match commands.filter (fun name => (line.take n).isPrefixOf name) with
    | [] => pure line
    | name :: others =>
      let minLength := others.foldl (fun m other => min m (strCommon name other)) name.length
      if minLength ≤ line.length then pure (name.take minLength ++ line.drop minLength)
      else .error .outOfBounds

/-! ## The shell -/

inductive InputStat where
  | waitNormal
  | waitSpecKey
  | waitFuncKey
  deriving DecidableEq, Repr

/-- `struct finsh_shell`, as far as the command line goes. -/
structure FinshShell where
  stat : InputStat
  currentHistory : Nat
  historyCount : Nat
  cmdHistory : List (List CChar)
  line : List CChar
  linePosition : Nat
  lineCurpos : Nat
  deriving DecidableEq

namespace FinshShell

/-- The shell as `finsh_system_init` allocates it. -/
def init : FinshShell where
  stat := .waitNormal
  currentHistory := 0
  historyCount := 0
  cmdHistory := List.replicate finshHistoryLines (List.replicate finshCmdSize 0)
  line := List.replicate finshCmdSize 0
  linePosition := 0
  lineCurpos := 0

/-- `shell_push_history`. -/
def shellPushHistory (shell : FinshShell) : FinshShell :=
  let row := shell.line.take shell.linePosition ++
    List.replicate (finshCmdSize - shell.linePosition) 0
  let shell :=
    if shell.linePosition ≠ 0 then
      if finshHistoryLines ≤ shell.historyCount then
        if shell.cmdHistory[finshHistoryLines - 1]? ≠ some shell.line then
          { shell with
            cmdHistory := shell.cmdHistory.tail ++ [row]
            historyCount := finshHistoryLines }
        else shell
      else if shell.historyCount = 0 ∨
          shell.cmdHistory[shell.historyCount - 1]? ≠ some shell.line then
        { shell with
          cmdHistory := shell.cmdHistory.set shell.historyCount row
          historyCount := shell.historyCount + 1 }
      else shell
    else shell
  { shell with currentHistory := shell.historyCount }

/-- The copy of a history line, with the counters behind it. -/
def copyHistory (shell : FinshShell) : Exec FinshShell :=
  match shell.cmdHistory[shell.currentHistory]? with
  | none => .error .outOfBounds
  | some row => do
    let n ← strlen row
    pure { shell with line := row, linePosition := n, lineCurpos := n }

def upKey (shell : FinshShell) : Exec FinshShell :=
  if 0 < shell.currentHistory then
    { shell with currentHistory := shell.currentHistory - 1 }.copyHistory
  else pure { shell with currentHistory := 0 }

def downKey (shell : FinshShell) : Exec FinshShell :=
  if (shell.currentHistory : Int) < shell.historyCount - 1 then
    { shell with currentHistory := shell.currentHistory + 1 }.copyHistory
  else if shell.historyCount ≠ 0 then
    { shell with currentHistory := shell.historyCount - 1 }.copyHistory
  else pure shell

def leftKey (shell : FinshShell) : FinshShell :=
  if shell.lineCurpos ≠ 0 then { shell with lineCurpos := shell.lineCurpos - 1 } else shell

def rightKey (shell : FinshShell) : FinshShell :=
  if shell.lineCurpos < shell.linePosition then
    { shell with lineCurpos := shell.lineCurpos + 1 }
  else shell

def tabKey (commands : List (List CChar)) (shell : FinshShell) : Exec FinshShell := do
  let line ← mshAutoComplete commands shell.line
  let n ← strlen line
  pure { shell with line, linePosition := n, lineCurpos := n }

/-- The branches of the backspace key, whose counters have been lowered. -/
def closeUp (linePosition lineCurpos : Nat) (line : List CChar) : Exec (List CChar) :=
  if lineCurpos < linePosition then do
    let line ← rtMemmove lineCurpos (lineCurpos + 1) (linePosition - lineCurpos) line
    store linePosition 0 line
  else store linePosition 0 line

def backspaceKey (shell : FinshShell) : Exec FinshShell :=
  if shell.lineCurpos = 0 then pure shell
  else do
    let linePosition := shell.linePosition - 1
    let lineCurpos := shell.lineCurpos - 1
    let line ← closeUp linePosition lineCurpos shell.line
    pure { shell with line, linePosition, lineCurpos }

/-- The end of a line.  `finsh_run_line` is not built. -/
def lineEnd (shell : FinshShell) : Exec (FinshShell × Option MshCommand) := do
  let shell := shell.shellPushHistory
  let command ← mshExec shell.line (BitVec.ofNat 32 shell.linePosition)
  pure ({ shell with
    line := List.replicate finshCmdSize 0, linePosition := 0, lineCurpos := 0 }, command)

/-- The branches of a normal character. -/
def putChar (ch : CChar) (linePosition lineCurpos : Nat) (line : List CChar) :
    Exec (List CChar) :=
  if lineCurpos < linePosition then do
    let line ← rtMemmove (lineCurpos + 1) lineCurpos (linePosition - lineCurpos) line
    store lineCurpos ch line
  else store linePosition ch line

/-- Any other character. -/
def normalChar (ch : CChar) (shell : FinshShell) : Exec FinshShell := do
  -- it's a large line, discard it
  let linePosition := if finshCmdSize ≤ shell.linePosition then 0 else shell.linePosition
  let line ← putChar ch linePosition shell.lineCurpos shell.line
  let linePosition := linePosition + 1
  let lineCurpos := shell.lineCurpos + 1
  if finshCmdSize ≤ linePosition then
    pure { shell with line, linePosition := 0, lineCurpos := 0 }
  else pure { shell with line, linePosition, lineCurpos }

/-- The turn of the loop from the test for null on. -/
def handleChar (commands : List (List CChar)) (ch : CChar) (shell : FinshShell) :
    Exec (FinshShell × Option MshCommand) :=
  if ch = 0 ∨ ch = 0xff then pure (shell, none)
  else if ch = 0x09 then do pure (← shell.tabKey commands, none)
  else if ch = 0x7f ∨ ch = 0x08 then do pure (← shell.backspaceKey, none)
  else if ch = 0x0d ∨ ch = 0x0a then shell.lineEnd
  else do pure (← shell.normalChar ch, none)

/-- A turn of the loop of `finsh_thread_entry`, on the character that `finsh_getchar` returns. -/
def finshThreadTurn (commands : List (List CChar)) (ch : CChar) (shell : FinshShell) :
    Exec (FinshShell × Option MshCommand) :=
  if ch = 0x1b then pure ({ shell with stat := .waitSpecKey }, none)
  else if shell.stat = .waitSpecKey then
    if ch = 0x5b then pure ({ shell with stat := .waitFuncKey }, none)
    else { shell with stat := .waitNormal }.handleChar commands ch
  else if shell.stat = .waitFuncKey then
    let shell := { shell with stat := .waitNormal }
    if ch = 0x41 then do pure (← shell.upKey, none)
    else if ch = 0x42 then do pure (← shell.downKey, none)
    else if ch = 0x44 then pure (shell.leftKey, none)
    else if ch = 0x43 then pure (shell.rightKey, none)
    else shell.handleChar commands ch
  else shell.handleChar commands ch

end FinshShell

/-! ## The editor -/

/-- The key of a character outside of an escape sequence. -/
def plainKey (ch : CChar) : Option (Key CChar) :=
  if ch = 0 ∨ ch = 0xff then none
  else if ch = 0x09 then some .tab
  else if ch = 0x7f ∨ ch = 0x08 then some .backspace
  else if ch = 0x0d ∨ ch = 0x0a then some .enter
  else some (.char ch)

/-- The key of a character behind `ESC [`. -/
def funcKey (ch : CChar) : Option (Key CChar) :=
  if ch = 0x41 then some .up
  else if ch = 0x42 then some .down
  else if ch = 0x44 then some .left
  else if ch = 0x43 then some .right
  else plainKey ch

/-- An escape sequence that is none of the arrow keys counts as its last character. -/
def keyOf (stat : InputStat) (ch : CChar) : InputStat × Option (Key CChar) :=
  if ch = 0x1b then (.waitSpecKey, none)
  else
    match stat with
    | .waitNormal => (.waitNormal, plainKey ch)
    | .waitSpecKey => if ch = 0x5b then (.waitFuncKey, none) else (.waitNormal, plainKey ch)
    | .waitFuncKey => (.waitNormal, funcKey ch)

/-- What a key does, if it is one, and the line that it enters. -/
def pressKey (e : Editor CChar) : Option (Key CChar) → Editor CChar × Option (List CChar)
  | none => (e, none)
  | some key => e.press finshCmdSize finshHistoryLines key

/-- What has been typed. -/
structure Typed where
  stat : InputStat
  editor : Editor CChar

/-- The next character, and the line that it enters. -/
def Typed.next (ch : CChar) (typed : Typed) : Typed × Option (List CChar) :=
  let (stat, key) := keyOf typed.stat ch
  let (editor, entered) := pressKey typed.editor key
  ({ stat, editor }, entered)

/-- What `msh_exec` runs is the line entered, without the blanks at its beginning and with the
    terminator behind. -/
inductive Executes : Option (List CChar) → Option MshCommand → Prop
  | silent : Executes none none
  | blank {text : List CChar} (h : text.dropWhile isBlank = []) : Executes (some text) none
  | command {text rest : List CChar} (h : text.dropWhile isBlank ≠ []) :
    Executes (some text) (some {
      cmd := text.dropWhile isBlank ++ 0 :: rest
      length := BitVec.ofNat 32 (text.dropWhile isBlank).length })

/-! ## The line shows the text -/

/-- The shell in the state of the editor, with nothing behind the text. -/
structure Represents (shell : FinshShell) (e : Editor CChar) : Prop where
  line : shell.line = padded finshCmdSize 0 e.text
  position : shell.linePosition = e.text.length
  curpos : shell.lineCurpos = e.cursor
  rows : shell.cmdHistory.length = finshHistoryLines
  count : shell.historyCount = e.history.length
  history : shell.cmdHistory.take shell.historyCount = e.history.map (padded finshCmdSize 0)
  current : shell.currentHistory = e.selected
  fits : e.Fits finshCmdSize finshHistoryLines 0

section Memory

variable {text : List CChar} {c : Nat} {ch : CChar}

theorem strlen_padded {width : Nat} (h : Editor.Fit width 0 text) :
    strlen (padded width 0 text) = .ok text.length := by
  have hz : (0 : CChar) ∈ padded width 0 text :=
    List.mem_append_right _ (List.mem_replicate.mpr ⟨by have := h.1; omega, rfl⟩)
  rw [strlen, if_pos hz, takeWhile_padded h.2]
  rfl

theorem rtMemmove_ok {target source n : Nat} {mem : List CChar} (htarget : target + n ≤ mem.length)
    (hsource : source + n ≤ mem.length) :
    rtMemmove target source n mem = .ok (moved target source n mem) :=
  if_pos ⟨htarget, hsource⟩

theorem store_ok {i : Nat} {mem : List CChar} (hi : i < mem.length) :
    store i ch mem = .ok (mem.set i ch) :=
  if_pos hi

theorem length_moved {target source n : Nat} {mem : List CChar} (htarget : target + n ≤ mem.length)
    (hsource : source + n ≤ mem.length) : (moved target source n mem).length = mem.length := by
  simp only [moved, List.length_append, List.length_take, List.length_drop]
  omega

theorem putChar_padded (hc : c ≤ text.length) (hroom : text.length < finshCmdSize) :
    FinshShell.putChar ch text.length c (padded finshCmdSize 0 text) =
      .ok (padded finshCmdSize 0 (text.insertIdx c ch)) := by
  have hlength := length_padded (z := (0 : CChar)) hroom.le
  unfold FinshShell.putChar
  split
  next =>
    rw [rtMemmove_ok (by omega) (by omega), exec_bind_ok]
    refine ⟨_, rfl, ?_⟩
    rw [store_ok (by rw [length_moved (by omega) (by omega)]; omega), padded_insert hc hroom]
  next hend =>
    rw [show c = text.length by omega, store_ok (by omega), padded_append hroom]

theorem closeUp_padded (hc : c < text.length) (hroom : text.length < finshCmdSize) :
    FinshShell.closeUp (text.length - 1) c (padded finshCmdSize 0 text) =
      .ok (padded finshCmdSize 0 (text.eraseIdx c)) := by
  have hlength := length_padded (z := (0 : CChar)) hroom.le
  have herase := padded_erase (z := (0 : CChar)) hc hroom.le
  unfold FinshShell.closeUp
  split
  next =>
    rw [rtMemmove_ok (by omega) (by omega), exec_bind_ok]
    refine ⟨_, rfl, ?_⟩
    rw [store_ok (by rw [length_moved (by omega) (by omega)]; omega), herase]
  next hend =>
    rw [show text.length - 1 - c = 0 by omega, moved_zero] at herase
    rw [store_ok (by omega), herase]

theorem mshExec_padded (hroom : text.length < finshCmdSize) :
    ∃ command, mshExec (padded finshCmdSize 0 text) (BitVec.ofNat 32 text.length) = .ok command ∧
      Executes (some text) command := by
  obtain ⟨n, hn⟩ := Nat.exists_eq_add_of_lt hroom
  have hfill : finshCmdSize - text.length = n + 1 := by omega
  have hline : padded finshCmdSize 0 text = text ++ 0 :: List.replicate n 0 := by
    rw [padded, hfill, List.replicate_succ]
  have hdrop : (padded finshCmdSize 0 text).dropWhile isBlank =
      text.dropWhile isBlank ++ 0 :: List.replicate n 0 := by
    rw [hline, List.dropWhile_append]
    split
    next hempty =>
      rw [List.isEmpty_iff.mp hempty]
      simp [isBlank]
    next => rfl
  have hle : (text.dropWhile isBlank).length ≤ text.length := List.length_dropWhile_le _ _
  have hblanks : (padded finshCmdSize 0 text).length -
      (text.dropWhile isBlank ++ 0 :: List.replicate n 0).length =
      text.length - (text.dropWhile isBlank).length := by
    simp only [hline, List.length_append, List.length_cons, List.length_replicate]
    omega
  have hlength : BitVec.ofNat 32 text.length -
      BitVec.ofNat 32 (text.length - (text.dropWhile isBlank).length) =
      BitVec.ofNat 32 (text.dropWhile isBlank).length := by
    rw [finshCmdSize] at hroom
    apply BitVec.eq_of_toNat_eq
    simp only [BitVec.toNat_sub, BitVec.toNat_ofNat]
    omega
  simp only [mshExec, hdrop, List.append_eq_nil_iff, reduceCtorEq, and_false, if_false, hblanks,
    hlength]
  by_cases hempty : text.dropWhile isBlank = []
  · exact ⟨none, if_pos (by rw [hempty]; rfl), .blank hempty⟩
  · have hpos := List.length_pos_iff.mpr hempty
    have hnonzero : BitVec.ofNat 32 (text.dropWhile isBlank).length ≠ 0 := fun h => by
      have hmod := congrArg BitVec.toNat h
      rw [finshCmdSize] at hroom
      simp only [BitVec.toNat_ofNat, BitVec.ofNat_eq_ofNat] at hmod
      omega
    exact ⟨_, if_neg hnonzero, .command hempty⟩

end Memory

namespace Represents

variable {shell : FinshShell} {e : Editor CChar} {ch : CChar} {commands : List (List CChar)}

theorem length_line (h : Represents shell e) : shell.line.length = finshCmdSize := by
  rw [h.line, length_padded h.fits.text.1.le]

theorem init : Represents FinshShell.init Editor.empty where
  line := by decide
  position := rfl
  curpos := rfl
  rows := by decide
  count := rfl
  history := rfl
  current := rfl
  fits := Editor.Fits.empty (by decide)

theorem row {i : Nat} (h : Represents shell e) (hi : i < e.history.length) :
    shell.cmdHistory[i]? = some (padded finshCmdSize 0 e.history[i]) := by
  have hcount := h.count
  have htake := congrArg (·[i]?) h.history
  simpa [List.getElem?_take, hcount, hi] using htake

/-- A copied history line brings back the text entered then. -/
theorem copyHistory {i j : Nat} (h : Represents shell e) (hi : i < e.history.length)
    (hj : j = i) :
    ∃ shell', { shell with currentHistory := j }.copyHistory = .ok shell' ∧
      Represents shell' (e.load i hi) ∧ shell'.stat = shell.stat := by
  subst hj
  have hfit := h.fits.history _ (List.getElem_mem hi)
  refine ⟨{ shell with
      currentHistory := j
      line := padded finshCmdSize 0 e.history[j]
      linePosition := e.history[j].length
      lineCurpos := e.history[j].length }, ?_,
    ⟨rfl, rfl, rfl, h.rows, h.count, h.history, rfl, h.fits.load hi⟩, rfl⟩
  simp only [FinshShell.copyHistory, h.row hi, strlen_padded hfit]
  rfl

theorem upKey (h : Represents shell e) :
    ∃ shell', shell.upKey = .ok shell' ∧ Represents shell' e.previous ∧
      shell'.stat = shell.stat := by
  have hcurrent := h.current
  unfold FinshShell.upKey Editor.previous
  by_cases hpos : 0 < e.selected
  · rw [if_pos (by omega), dif_pos hpos]
    exact h.copyHistory _ (by omega)
  · rw [if_neg (by omega), dif_neg hpos]
    exact ⟨_, rfl, { h with current := by simp only; omega }, rfl⟩

theorem downKey (h : Represents shell e) :
    ∃ shell', shell.downKey = .ok shell' ∧ Represents shell' e.next ∧
      shell'.stat = shell.stat := by
  have hcurrent := h.current
  have hcount := h.count
  unfold FinshShell.downKey Editor.next
  by_cases hnext : e.selected + 1 < e.history.length
  · rw [if_pos (by omega), dif_pos hnext]
    exact h.copyHistory _ (by omega)
  rw [if_neg (by omega), dif_neg hnext]
  by_cases hlast : 0 < e.history.length
  · rw [if_pos (by omega), dif_pos hlast]
    exact h.copyHistory _ (by omega)
  · rw [if_neg (by omega), dif_neg hlast]
    exact ⟨shell, rfl, h, rfl⟩

theorem leftKey (h : Represents shell e) :
    Represents shell.leftKey e.moveLeft ∧ shell.leftKey.stat = shell.stat := by
  have hcurpos := h.curpos
  have hfits : e.moveLeft.Fits finshCmdSize finshHistoryLines 0 := ⟨h.fits.1, h.fits.2, h.fits.3⟩
  unfold FinshShell.leftKey
  split
  next => exact ⟨{ h with curpos := congrArg (· - 1) hcurpos, fits := hfits }, rfl⟩
  next hzero => exact ⟨{ h with curpos := by simp only [Editor.moveLeft]; omega, fits := hfits }, rfl⟩

theorem rightKey (h : Represents shell e) :
    Represents shell.rightKey e.moveRight ∧ shell.rightKey.stat = shell.stat := by
  have hcurpos := h.curpos
  have hposition := h.position
  unfold FinshShell.rightKey Editor.moveRight
  by_cases hlt : e.cursor < e.text.length
  · rw [if_pos (by omega), dif_pos hlt]
    exact ⟨{ h with
      curpos := congrArg (· + 1) hcurpos
      fits := ⟨h.fits.1, h.fits.2, h.fits.3⟩ }, rfl⟩
  · rw [if_neg (by omega), dif_neg hlt]
    exact ⟨h, rfl⟩

/-- Without a completion the text stays, and the cursor goes to its end. -/
theorem tabKey (h : Represents shell e)
    (hnone : e.text = [] ∨ ∀ name ∈ commands, ¬ e.text <+: name) :
    ∃ shell', shell.tabKey commands = .ok shell' ∧ Represents shell' e.moveEnd ∧
      shell'.stat = shell.stat := by
  have hstrlen := strlen_padded h.fits.text
  have hcomplete : mshAutoComplete commands shell.line = .ok shell.line := by
    rw [mshAutoComplete, h.line, hstrlen]
    rcases hnone with hnil | hnone
    · simp [hnil, bind, Except.bind, pure, Except.pure]
    · have hfilter : commands.filter (fun name => e.text.isPrefixOf name) = [] := by
        simpa [List.filter_eq_nil_iff] using hnone
      by_cases hzero : e.text.length = 0
      · simp [hzero, bind, Except.bind, pure, Except.pure]
      · simp [hzero, take_padded, hfilter, bind, Except.bind, pure, Except.pure]
  refine ⟨{ shell with linePosition := e.text.length, lineCurpos := e.text.length }, ?_,
    { h with
      position := rfl
      curpos := rfl
      fits := ⟨h.fits.1, h.fits.2, h.fits.3⟩ }, rfl⟩
  rw [FinshShell.tabKey, hcomplete]
  simp only [h.line, hstrlen, bind, Except.bind, pure, Except.pure]

theorem backspaceKey (h : Represents shell e) :
    ∃ shell', shell.backspaceKey = .ok shell' ∧ Represents shell' e.erase ∧
      shell'.stat = shell.stat := by
  have hcurpos := h.curpos
  have hposition := h.position
  have hlength := h.length_line
  have hroom := h.fits.text.1
  have hle := e.cursor_le
  unfold FinshShell.backspaceKey Editor.erase
  by_cases hzero : e.cursor = 0
  · rw [if_pos (by omega), dif_pos hzero]
    exact ⟨shell, rfl, h, rfl⟩
  rw [if_neg (by omega), dif_neg hzero, hcurpos, hposition]
  have hclose : FinshShell.closeUp (e.text.length - 1) (e.cursor - 1)
      (padded finshCmdSize 0 e.text) = .ok (padded finshCmdSize 0 (e.text.eraseIdx (e.cursor - 1))) :=
    closeUp_padded (by omega) hroom
  refine ⟨{ shell with
      line := padded finshCmdSize 0 (e.text.eraseIdx (e.cursor - 1))
      linePosition := e.text.length - 1
      lineCurpos := e.cursor - 1 }, ?_, ?_, rfl⟩
  · simp only [h.line, hclose, bind, Except.bind, pure, Except.pure]
  · exact { h with
      line := rfl
      position := (List.length_eraseIdx_of_lt (by omega)).symm
      curpos := rfl
      fits := by
        have hfits := h.fits.erase
        rwa [Editor.erase, dif_neg hzero] at hfits }

/-- A character that leaves the line shorter than `FINSH_CMD_SIZE`. -/
theorem normalChar (h : Represents shell e) (hch : ch ≠ 0)
    (hroom : e.text.length + 1 < finshCmdSize) :
    ∃ shell', shell.normalChar ch = .ok shell' ∧
      Represents shell' (e.insert finshCmdSize ch) ∧ shell'.stat = shell.stat := by
  have hlength := h.length_line
  have hle := e.cursor_le
  have hfits := h.fits.insert hch
  have hposition := List.length_insertIdx_of_le_length hle ch
  have hshort : ¬ finshCmdSize ≤ e.text.length := by omega
  rw [Editor.insert, if_pos hroom] at hfits ⊢
  refine ⟨{ shell with
      line := padded finshCmdSize 0 (e.text.insertIdx e.cursor ch)
      linePosition := e.text.length + 1
      lineCurpos := e.cursor + 1 }, ?_,
    { h with line := rfl, position := hposition.symm, curpos := rfl, fits := hfits }, rfl⟩
  rw [FinshShell.normalChar, h.position, if_neg hshort, h.curpos, h.line,
    putChar_padded hle (by omega), exec_bind_ok]
  exact ⟨_, rfl, if_neg (by omega)⟩

/-- The last line of the history is this one in the array just when it is this text. -/
theorem last_row (h : Represents shell e) (hpos : 0 < e.history.length) :
    shell.cmdHistory[e.history.length - 1]? = some shell.line ↔
      e.history.getLast? = some e.text := by
  have hlast : e.history.length - 1 < e.history.length := by omega
  have hfit := h.fits.history _ (List.getElem_mem hlast)
  rw [h.row hlast, h.line, Option.some_inj, padded_injective hfit.2 h.fits.text.2,
    List.getLast?_eq_getElem?, List.getElem?_eq_getElem hlast, Option.some_inj]

theorem shellPushHistory_stat : shell.shellPushHistory.stat = shell.stat := by
  simp only [FinshShell.shellPushHistory]
  split_ifs <;> rfl

/-- The history gets the line that is about to be executed. -/
theorem shellPushHistory (h : Represents shell e) :
    Represents shell.shellPushHistory
      { e with
        history := Editor.remember finshHistoryLines e.text e.history
        selected := (Editor.remember finshHistoryLines e.text e.history).length
        selected_le := le_rfl } := by
  have hposition := h.position
  have hcount := h.count
  have hrows := h.rows
  have hdepth := h.fits.depth
  have hlines : 0 < finshHistoryLines := by decide
  have hfits := h.fits.enter hlines
  -- the row is filled up with zeroes, as the shell's own line is
  have hrow : shell.line.take shell.linePosition ++
      List.replicate (finshCmdSize - shell.linePosition) 0 = padded finshCmdSize 0 e.text := by
    rw [h.line, hposition, take_padded, padded]
  have hsame : Represents { shell with currentHistory := shell.historyCount }
      { e with selected := e.history.length, selected_le := le_rfl } :=
    { h with current := hcount, fits := ⟨h.fits.text, h.fits.history, hdepth⟩ }
  have hlast := h.last_row
  unfold FinshShell.shellPushHistory
  rw [hrow]
  dsimp only
  -- an empty line is no entry
  by_cases hempty : e.text = []
  · have hzero : ¬ shell.linePosition ≠ 0 := by simp [hposition, hempty]
    rw [if_neg hzero]
    simp only [Editor.remember, hempty, true_or, if_true]
    simp only [hempty] at hsame
    exact hsame
  have hpos : shell.linePosition ≠ 0 := by
    rw [hposition]
    exact List.length_pos_iff.mpr hempty |>.ne'
  rw [if_pos hpos]
  by_cases hrepeated : e.history.getLast? = some e.text
  · -- the history ends with this text, and stays
    have hsome : 0 < e.history.length := List.length_pos_iff.mpr fun hnil => by
      simp [hnil] at hrepeated
    have hline := (hlast hsome).mpr hrepeated
    simp only [Editor.remember, hrepeated, or_true, if_true]
    by_cases hfull : finshHistoryLines ≤ shell.historyCount
    · have hlength : finshHistoryLines = e.history.length := by omega
      have hsame' : ¬ shell.cmdHistory[finshHistoryLines - 1]? ≠ some shell.line := by
        rw [hlength]
        exact not_not.mpr hline
      rw [if_pos hfull, if_neg hsame']
      exact hsame
    · have hsame' : ¬ (shell.historyCount = 0 ∨
          shell.cmdHistory[shell.historyCount - 1]? ≠ some shell.line) := by
        rw [hcount]
        exact not_or.mpr ⟨hsome.ne', not_not.mpr hline⟩
      rw [if_neg hfull, if_neg hsame']
      exact hsame
  -- from here on the line is new, and differs from the last row
  have hremember : Editor.remember finshHistoryLines e.text e.history =
      if e.history.length < finshHistoryLines then e.history ++ [e.text]
      else e.history.tail ++ [e.text] :=
    if_neg (by simp [hempty, hrepeated])
  simp only [Editor.enter, hremember] at hfits ⊢
  have hhistory := h.history
  by_cases hfull : finshHistoryLines ≤ shell.historyCount
  · -- the oldest line makes room
    have hlength : e.history.length = finshHistoryLines := by omega
    have hsome : 0 < e.history.length := by omega
    have hother : shell.cmdHistory[finshHistoryLines - 1]? ≠ some shell.line := by
      rw [← hlength]
      exact fun hline => hrepeated ((hlast hsome).mp hline)
    have hwhole : shell.cmdHistory = e.history.map (padded finshCmdSize 0) := by
      rwa [hcount, hlength, ← hrows, List.take_length] at hhistory
    have hfull' : ¬ e.history.length < finshHistoryLines := by omega
    have hnew : (e.history.tail ++ [e.text]).length = finshHistoryLines := by
      rw [List.length_append, List.length_tail, List.length_singleton]
      omega
    rw [if_pos hfull, if_pos hother]
    simp only [if_neg hfull'] at hfits ⊢
    refine { h with
      rows := ?_
      count := hnew.symm
      history := ?_
      current := hnew.symm
      fits := ⟨h.fits.text, hfits.history, hfits.depth⟩ }
    · simp only [List.length_append, List.length_tail, List.length_singleton]
      omega
    · simp only [hwhole, ← List.map_tail, List.map_append, List.map_cons, List.map_nil]
      exact List.take_of_length_le (by simp only [List.length_append, List.length_map,
        List.length_tail, List.length_singleton]; omega)
  · have hroom' : e.history.length < finshHistoryLines := by omega
    have hother : shell.historyCount = 0 ∨
        shell.cmdHistory[shell.historyCount - 1]? ≠ some shell.line := by
      rw [hcount]
      refine (Nat.eq_zero_or_pos e.history.length).imp_right fun hsome hline => ?_
      exact hrepeated ((hlast hsome).mp hline)
    have hnew : (e.history ++ [e.text]).length = e.history.length + 1 := List.length_append
    rw [if_neg hfull, if_pos hother]
    simp only [if_pos hroom'] at hfits ⊢
    refine { h with
      rows := by simp only [List.length_set]; exact hrows
      count := by simp only [hcount, hnew]
      history := ?_
      current := by simp only [hcount, hnew]
      fits := ⟨h.fits.text, hfits.history, hfits.depth⟩ }
    rw [List.take_add_one, List.take_set_of_le le_rfl, hhistory, List.getElem?_set_self (by omega)]
    simp

theorem lineEnd (h : Represents shell e) :
    ∃ shell' command, shell.lineEnd = .ok (shell', command) ∧
      Represents shell' (e.enter finshHistoryLines) ∧ Executes (some e.text) command ∧
      shell'.stat = shell.stat := by
  have hpushed := h.shellPushHistory
  obtain ⟨command, hexec, hright⟩ := mshExec_padded h.fits.text.1
  refine ⟨{ shell.shellPushHistory with
    line := List.replicate finshCmdSize 0, linePosition := 0, lineCurpos := 0 }, command, ?_,
    { hpushed with
      line := by simp [padded, Editor.enter]
      position := rfl
      curpos := rfl
      fits := h.fits.enter (by decide) }, hright, shellPushHistory_stat⟩
  rw [FinshShell.lineEnd, hpushed.line, hpushed.position, hexec]
  rfl

end Represents

end PandoraRobot.Finsh
