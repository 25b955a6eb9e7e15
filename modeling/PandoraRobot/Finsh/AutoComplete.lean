import PandoraRobot.Finsh.Symbols

/-! # Completing a command

`msh_auto_complete` with its loop over the symbol table, next to the longest beginning that the
commands have in common.
-/

namespace PandoraRobot.Finsh.AutoComplete

open PandoraRobot.Kernel PandoraRobot.LineEditor PandoraRobot.CommonPrefix

variable {F : Type}

/-- What is printed: the list of `msh_help`, or the name of a command. -/
inductive Printed where
  | help
  | name (cmdName : List CChar)
  deriving DecidableEq, Repr

/-- The variables of the loop, and what it has printed. -/
structure Completion where
  minLength : Nat
  namePtr : Option (List CChar)
  printed : List Printed
  deriving DecidableEq

namespace Completion

/-- The loop starts with `name_ptr` null. -/
def init : Completion where
  minLength := 0
  namePtr := none
  printed := []

/-- A turn of the loop for a command that starts with the text. -/
def matched (cmdName : List CChar) (c : Completion) : Exec Completion :=
  let c := if c.minLength = 0 then
    { c with namePtr := some cmdName, minLength := cmdName.length } else c
  match c.namePtr with
  | none => .error .wildPointer
  | some namePtr =>
    let length := strCommon namePtr cmdName
    let c := if length < c.minLength then { c with minLength := length } else c
    pure { c with printed := c.printed ++ [.name cmdName] }

/-- A turn of the loop. -/
def turn (text : List CChar) (c : Completion) (index : FinshSyscall F) : Exec Completion :=
  if index.isCommand then
    if strncmpZero text.length text index.cmdName then c.matched index.cmdName else pure c
  else pure c

end Completion

/-- `rt_strncpy`. -/
def rtStrncpy (n : Nat) (src dst : List CChar) : Exec (List CChar) :=
  if n ≤ dst.length then pure ((padded n 0 src).take n ++ dst.drop n) else .error .outOfBounds

/-- The line after the call, and what has been printed. -/
structure Completed where
  line : List CChar
  printed : List Printed
  deriving DecidableEq

/-- `msh_auto_complete`. -/
def mshAutoComplete (table : List (FinshSyscall F)) (line : List CChar) : Exec Completed := do
  let n ← strlen line
  if n = 0 then pure { line, printed := [.help] }
  else
    let c ← table.foldlM (Completion.turn (line.take n)) .init
    match c.namePtr with
    | none => pure { line, printed := c.printed }
    | some namePtr =>
      let line ← rtStrncpy c.minLength namePtr line
      pure { line, printed := c.printed }

/-! ## The loop -/

variable {text : List CChar} {table : List (FinshSyscall F)} {cmds : List (List CChar)}
  {c : Completion} {index : FinshSyscall F}

theorem strCommon_eq (as bs : List CChar) : strCommon as bs = commonLength as bs := by
  induction as generalizing bs with
  | nil => cases bs <;> rfl
  | cons a as ih =>
    cases bs with
    | nil => rfl
    | cons b bs => simp [strCommon, commonLength, ih]

/-- The commands that start with a text. -/
def startingWith (text : List CChar) (commands : List (List CChar)) : List (List CChar) :=
  commands.filter (text.isPrefixOf ·)

/-- The loop has come across the commands `cmds` that start with the text. -/
structure Completion.Found (text : List CChar) (cmds : List (List CChar)) (c : Completion) :
    Prop where
  minLength : c.minLength = agreement cmds
  namePtr : c.namePtr = cmds.head?
  printed : c.printed = cmds.map .name
  starts : ∀ cmd ∈ cmds, text <+: cmd

namespace Completion

theorem init_found : init.Found text [] := ⟨rfl, rfl, rfl, by simp⟩

/-- Once a command has been found, the length is not zero any more. -/
theorem Found.le_minLength (h : c.Found text cmds) (hcmds : cmds ≠ []) :
    text.length ≤ c.minLength := by
  have hfirst : cmds.head? = some (cmds.head hcmds) := List.head?_eq_some_head hcmds
  have htext : text <+: cmds.head hcmds := h.starts _ (List.head_mem hcmds)
  have htake : (cmds.head hcmds).take text.length = text :=
    (List.prefix_iff_eq_take.mp htext).symm
  rw [h.minLength]
  exact (le_agreement hfirst).mpr ⟨htext.length_le, by rw [htake]; exact h.starts⟩

theorem Found.matched (h : c.Found text cmds) (hne : text ≠ []) {cmdName : List CChar}
    (htext : text <+: cmdName) :
    ∃ c', c.matched cmdName = .ok c' ∧ c'.Found text (cmds ++ [cmdName]) := by
  have hprinted : c.printed ++ [.name cmdName] = (cmds ++ [cmdName]).map .name := by
    rw [h.printed, List.map_append, List.map_singleton]
  have hstarts : ∀ cmd ∈ cmds ++ [cmdName], text <+: cmd := fun cmd hcmd =>
    (List.mem_append.mp hcmd).elim (h.starts cmd) fun hmem => List.mem_singleton.mp hmem ▸ htext
  unfold Completion.matched
  by_cases hcmds : cmds = []
  · subst hcmds
    -- the first command is compared with itself
    have hself : ¬ strCommon cmdName cmdName < cmdName.length := by
      rw [strCommon_eq, commonLength_self]
      exact lt_irrefl _
    have hzero : c.minLength = 0 := h.minLength
    simp only [if_pos hzero, if_neg hself]
    exact ⟨_, rfl, rfl, rfl, hprinted, hstarts⟩
  · obtain ⟨first, hfirst⟩ : ∃ first, cmds.head? = some first :=
      ⟨_, List.head?_eq_some_head hcmds⟩
    have hpos : 0 < c.minLength :=
      lt_of_lt_of_le (List.length_pos_iff.mpr hne) (h.le_minLength hcmds)
    have hmin : agreement (cmds ++ [cmdName]) = min c.minLength (strCommon first cmdName) := by
      rw [agreement_append hfirst, h.minLength, strCommon_eq]
    have hhead : (cmds ++ [cmdName]).head? = some first := by
      rw [List.head?_append_of_ne_nil _ hcmds, hfirst]
    rw [if_neg hpos.ne']
    simp only [h.namePtr, hfirst]
    by_cases hless : strCommon first cmdName < c.minLength
    · rw [if_pos hless]
      exact ⟨_, rfl, by rw [hmin]; exact (Nat.min_eq_right hless.le).symm,
        by rw [hhead, ← hfirst, ← h.namePtr], hprinted, hstarts⟩
    · rw [if_neg hless]
      exact ⟨_, rfl, by rw [hmin]; exact (Nat.min_eq_left (not_lt.mp hless)).symm,
        by rw [hhead, ← hfirst, ← h.namePtr], hprinted, hstarts⟩

/-- The loop comes across the commands that start with the text, in the order of the table. -/
theorem Found.foldlM (table : List (FinshSyscall F)) (h : c.Found text cmds) (hne : text ≠ []) :
    ∃ c', table.foldlM (turn text) c = .ok c' ∧
      c'.Found text (cmds ++ startingWith text (commandNames table)) := by
  induction table generalizing c cmds with
  | nil => exact ⟨c, rfl, by simpa [startingWith, commandNames] using h⟩
  | cons index table ih =>
    rw [List.foldlM_cons]
    by_cases hmatch : index.isCommand ∧ text <+: index.cmdName
    · obtain ⟨hcommand, htext⟩ := hmatch
      have hcmp : strncmpZero text.length text index.cmdName := by
        rw [strncmpZero_iff, List.take_length]
        exact List.prefix_iff_eq_take.mp htext
      obtain ⟨c₁, hturn, h₁⟩ := h.matched hne htext
      obtain ⟨c', hrest, h'⟩ := ih h₁
      refine ⟨c', ?_, ?_⟩
      · rw [turn, if_pos hcommand, if_pos hcmp, hturn]
        exact hrest
      · simpa [startingWith, commandNames, hcommand, htext] using h'
    · obtain ⟨c', hrest, h'⟩ := ih h
      have hturn : c.turn text index = .ok c := by
        rw [turn]
        split
        next hcommand =>
          rw [if_neg]
          · rfl
          · rw [strncmpZero_iff, List.take_length]
            exact fun htake => hmatch ⟨hcommand, List.prefix_iff_eq_take.mpr htake⟩
        next => rfl
      refine ⟨c', by rw [hturn]; exact hrest, ?_⟩
      have hskip : startingWith text (commandNames (index :: table)) =
          startingWith text (commandNames table) := by
        by_cases hcommand : index.isCommand
        · have htext : ¬ text <+: index.cmdName := fun htext => hmatch ⟨hcommand, htext⟩
          simp [startingWith, commandNames, hcommand, htext]
        · simp [startingWith, commandNames, hcommand]
      rwa [hskip]

end Completion

/-! ## The line -/

/-- A string goes over a text that it starts with. -/
theorem rtStrncpy_padded {width n : Nat} {src : List CChar} (hn : n ≤ src.length)
    (hwidth : n < width) (htext : text.length ≤ n) :
    rtStrncpy n src (padded width 0 text) = .ok (padded width 0 (src.take n)) := by
  have hlength : (padded width 0 text).length = width := length_padded (by omega)
  have hcopied : (padded n 0 src).take n = src.take n := by
    rw [padded, Nat.sub_eq_zero_of_le hn, List.replicate_zero, List.append_nil]
  have hrest : (padded width 0 text).drop n = List.replicate (width - n) 0 := by
    rw [padded, List.drop_append, List.drop_eq_nil_of_le htext, List.drop_replicate,
      List.nil_append]
    congr 1
    omega
  rw [rtStrncpy, if_pos (by omega), hcopied, hrest, padded, List.length_take_of_le hn]
  rfl

/-- What all the commands start with that start with the text, or the text if there is none. -/
def completion (commands : List (List CChar)) (text : List CChar) : List CChar :=
  if startingWith text commands = [] then text else shared (startingWith text commands)

/-- What a text is completed to fits into the line like the names. -/
theorem fit_completion {commands : List (List CChar)} {width : Nat}
    (htext : Editor.Fit width 0 text)
    (hnames : ∀ name ∈ commands, Editor.Fit width 0 name) :
    Editor.Fit width 0 (completion commands text) := by
  unfold completion
  split
  next => exact htext
  next hsome =>
    have hmem := List.head_mem hsome
    have hbegins := (isLongestPrefix_shared hsome).common _ hmem
    have hname := hnames _ (List.mem_filter.mp hmem).1
    exact ⟨lt_of_le_of_lt hbegins.length_le hname.1, fun hz => hname.2 (hbegins.subset hz)⟩

theorem prefix_completion {commands : List (List CChar)} : text <+: completion commands text := by
  unfold completion
  split
  next => exact List.prefix_rfl
  next hsome =>
    exact (isLongestPrefix_shared hsome).longest text fun l hl => by
      simpa using (List.mem_filter.mp hl).2

/-- The commands found are printed, and what they share goes into the line. -/
theorem mshAutoComplete_eq {width : Nat} (htext : Editor.Fit width 0 text) (hne : text ≠ [])
    (hshort : ∀ name ∈ commandNames table, name.length < width) :
    mshAutoComplete table (padded width 0 text) = .ok {
      line := padded width 0 (completion (commandNames table) text)
      printed := (startingWith text (commandNames table)).map .name } := by
  obtain ⟨c, hloop, hfound⟩ := Completion.init_found.foldlM table hne
  rw [List.nil_append] at hfound
  have hlength : text.length ≠ 0 := fun h => hne (List.length_eq_zero_iff.mp h)
  rw [mshAutoComplete, strlen_padded htext]
  simp only [bind, Except.bind, if_neg hlength, take_padded, hloop, hfound.printed]
  by_cases hnone : startingWith text (commandNames table) = []
  · simp only [hfound.namePtr, completion, hnone, List.head?_nil, if_true]
    rfl
  · obtain ⟨first, hfirst⟩ : ∃ first, (startingWith text (commandNames table)).head? = some first :=
      ⟨_, List.head?_eq_some_head hnone⟩
    have hmem : first ∈ commandNames table := (List.mem_filter.mp (List.mem_of_head? hfirst)).1
    have hle : c.minLength ≤ first.length := by
      rw [hfound.minLength]
      exact ((le_agreement hfirst).mp le_rfl).1
    have hcopy := rtStrncpy_padded hle (lt_of_le_of_lt hle (hshort first hmem))
      (hfound.le_minLength hnone)
    simp only [hfound.namePtr, hfirst, hcopy]
    rw [completion, if_neg hnone, shared_eq hfirst, hfound.minLength]
    rfl

/-- The line is that of the function that the tab key of the shell calls. -/
theorem mshAutoComplete_line (table : List (FinshSyscall F)) (line : List CChar) :
    (mshAutoComplete table line).map (·.line) =
      Finsh.mshAutoComplete (commandNames table) line := by
  unfold mshAutoComplete Finsh.mshAutoComplete
  cases hstrlen : strlen line with
  | error e => rfl
  | ok n =>
    simp only [bind, Except.bind]
    by_cases hzero : n = 0
    · simp only [if_pos hzero]
      rfl
    have hle : n ≤ line.length := by
      unfold strlen at hstrlen
      split at hstrlen
      next =>
        rw [← Except.ok.inj hstrlen]
        exact List.IsPrefix.length_le <| List.takeWhile_prefix _
      next => cases hstrlen
    have hne : line.take n ≠ [] := fun hnil => hzero (by
      have hlength := congrArg List.length hnil
      rw [List.length_take_of_le hle] at hlength
      exact hlength)
    -- the loop over the table has found the first name and the length all of them share
    obtain ⟨c, hloop, hfound⟩ := Completion.init_found.foldlM table hne
    rw [List.nil_append] at hfound
    have hmin := hfound.minLength
    have hptr := hfound.namePtr
    simp only [if_neg hzero, hloop]
    unfold startingWith at hmin hptr
    -- with no name nothing is copied
    cases hcmds : (commandNames table).filter ((line.take n).isPrefixOf ·) with
    | nil =>
      rw [hcmds] at hptr
      simp only [hptr]
      rfl
    | cons name others =>
      rw [hcmds] at hmin hptr
      have hfirst : (name :: others).head? = some name := rfl
      have hname : c.minLength ≤ name.length := by
        rw [hmin]
        exact ((le_agreement hfirst).mp le_rfl).1
      have hfold : others.foldl (fun m other => min m (strCommon name other)) name.length =
          c.minLength := by
        rw [hmin]
        simp only [strCommon_eq]
        rfl
      have hcopied : (padded c.minLength 0 name).take c.minLength = name.take c.minLength := by
        rw [padded, Nat.sub_eq_zero_of_le hname, List.replicate_zero, List.append_nil]
      simp only [hptr, List.head?_cons, hfold, rtStrncpy, hcopied]
      by_cases hroom : c.minLength ≤ line.length
      · simp only [if_pos hroom]
        rfl
      · simp only [if_neg hroom]
        rfl

/-- A completion has nothing to complete. -/
theorem completion_completion (commands : List (List CChar)) (text : List CChar) :
    startingWith (completion commands text) commands = startingWith text commands ∧
      completion commands (completion commands text) = completion commands text := by
  by_cases hnone : startingWith text commands = []
  · have htext : completion commands text = text := if_pos hnone
    rw [htext]
    exact ⟨rfl, htext⟩
  · have hshared : completion commands text = shared (startingWith text commands) := if_neg hnone
    have hsame : startingWith (completion commands text) commands =
        startingWith text commands := by
      rw [hshared]
      exact (isLongestPrefix_shared hnone).filter_eq
    refine ⟨hsame, ?_⟩
    rw [completion, hsame, if_neg hnone, hshared]

/-! ## Its meaning -/

/-- What has been printed are the names of the commands that start with the text, and the line has
    what all of them start with, or the text if there is none. -/
structure Completed.Right (commands : List (List CChar)) (width : Nat) (text : List CChar)
    (result : Completed) : Prop where
  printed : result.printed = (startingWith text commands).map .name
  line : ∃ completed, result.line = padded width 0 completed ∧ completed.length < width ∧
    (startingWith text commands = [] → completed = text) ∧
    (startingWith text commands ≠ [] →
      IsLongestPrefix completed (startingWith text commands))

/-- Any text in a line that is zero behind it is completed, and a second time nothing changes. -/
theorem msh_auto_complete_exact (table : List (FinshSyscall F)) (width : Nat) (text : List CChar)
    (htext : Editor.Fit width 0 text) (hne : text ≠ [])
    (hnames : ∀ name ∈ commandNames table, Editor.Fit width 0 name) :
    ∃ result, mshAutoComplete table (padded width 0 text) = .ok result ∧
      result.Right (commandNames table) width text ∧
      mshAutoComplete table result.line = .ok result := by
  have hshort : ∀ name ∈ commandNames table, name.length < width := fun name hname =>
    (hnames name hname).1
  have hfit := fit_completion htext hnames
  refine ⟨_, mshAutoComplete_eq htext hne hshort, ⟨rfl, _, rfl, hfit.1,
    fun hnone => if_pos hnone, fun hsome => ?_⟩, ?_⟩
  · rw [completion, if_neg hsome]
    exact isLongestPrefix_shared hsome
  · obtain ⟨hsame, hagain⟩ := completion_completion (commandNames table) text
    have hne' : completion (commandNames table) text ≠ [] := fun hnil =>
      hne (List.prefix_nil.mp (hnil ▸ prefix_completion))
    rw [mshAutoComplete_eq hfit hne' hshort, hsame, hagain]

/-- `__cmd_list_thread`, `list_thread` and `__cmd_list_timer`. -/
def threeSymbols : List (FinshSyscall Nat) :=
  [⟨cmdSign ++ [0x6c, 0x69, 0x73, 0x74, 0x5f, 0x74, 0x68, 0x72, 0x65, 0x61, 0x64], 0⟩,
   ⟨[0x6c, 0x69, 0x73, 0x74, 0x5f, 0x74, 0x68, 0x72, 0x65, 0x61, 0x64], 1⟩,
   ⟨cmdSign ++ [0x6c, 0x69, 0x73, 0x74, 0x5f, 0x74, 0x69, 0x6d, 0x65, 0x72], 2⟩]

theorem names_fit : ∀ name ∈ commandNames threeSymbols,
    name.length < finshCmdSize ∧ (0 : CChar) ∉ name := by
  decide

/-- `li` in the line of the shell. -/
theorem msh_auto_complete_exact_li :
    ∃ result, mshAutoComplete threeSymbols (padded finshCmdSize 0 [0x6c, 0x69]) = .ok result ∧
      result.Right (commandNames threeSymbols) finshCmdSize [0x6c, 0x69] ∧
      mshAutoComplete threeSymbols result.line = .ok result :=
  msh_auto_complete_exact threeSymbols finshCmdSize [0x6c, 0x69] ⟨by decide, by decide⟩
    (by decide) fun name hname => names_fit name hname

/-- `list_t` is what the two commands share. -/
example : completion (commandNames threeSymbols) [0x6c, 0x69] =
    [0x6c, 0x69, 0x73, 0x74, 0x5f, 0x74] := by decide

end PandoraRobot.Finsh.AutoComplete
