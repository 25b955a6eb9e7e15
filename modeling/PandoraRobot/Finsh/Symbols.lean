import PandoraRobot.Finsh.Shell
import PandoraRobot.Lib.CommonPrefix

/-! # The symbol table of the shell

The entries that the registration macros put there, and how `msh.c` finds the commands among them.
A string of the table is the list of its characters, without the terminator.
-/

namespace PandoraRobot.Finsh

open PandoraRobot.Kernel PandoraRobot.LineEditor PandoraRobot.CommonPrefix

/-- `struct finsh_syscall`; `func` is the address of the function. -/
structure FinshSyscall (F : Type) where
  name : List CChar
  func : F
  deriving DecidableEq

/-- `strncmp(s, t, n) == 0`.  The end of a list is the terminator. -/
def strncmpZero : Nat → List CChar → List CChar → Bool
  | 0, _, _ => true
  | _ + 1, [], [] => true
  | n + 1, a :: s, b :: t => a = b && strncmpZero n s t
  | _ + 1, _, _ => false

theorem strncmpZero_iff {n : Nat} {s t : List CChar} : strncmpZero n s t ↔ s.take n = t.take n := by
  induction n generalizing s t with
  | zero => simp [strncmpZero]
  | succ n ih =>
    cases s <;> cases t <;> simp [strncmpZero, ih]

/-- `"__cmd_"`. -/
def cmdSign : List CChar := [0x5f, 0x5f, 0x63, 0x6d, 0x64, 0x5f]

namespace FinshSyscall

variable {F : Type} {index : FinshSyscall F}

/-- The entry is not that of a function of the finsh shell. -/
def isCommand (index : FinshSyscall F) : Bool := strncmpZero 6 index.name cmdSign

/-- `&index->name[6]`. -/
def cmdName (index : FinshSyscall F) : List CChar := index.name.drop 6

theorem name_of_isCommand (h : index.isCommand) : index.name = cmdSign ++ index.cmdName := by
  have htake : index.name.take 6 = cmdSign := strncmpZero_iff.mp h
  rw [cmdName, ← htake, List.take_append_drop]

end FinshSyscall

/-- The names of the commands, in the order of the table. -/
def commandNames {F : Type} (table : List (FinshSyscall F)) : List (List CChar) :=
  (table.filter (·.isCommand)).map (·.cmdName)

end PandoraRobot.Finsh
