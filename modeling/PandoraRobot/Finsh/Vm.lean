import PandoraRobot.Lib.Bytecode
import PandoraRobot.Kernel.Memmove

/-! # The virtual machine of the C shell

`finsh_vm.c` and `finsh_ops.c`.  The machine has a stack of `union finsh_value`, and a text of
bytes.  An operation on bytes or words writes only the low part of a cell, and what was above
stays.

The memory is all other memory: `finsh_vm_stack` and `text_segment` are no part of it, so that
neither a store nor a system call reaches them.  The functions of the system calls are a parameter.

A `Fault` is a stack pointer outside the stack, a read outside the text, a byte that is no entry of
`op_table`, a call with too many parameters, a division by zero or with a quotient that is no `int`,
a shift by 32 or more.  A sum, a product or a shift to the left whose value is no `int` is no
`Fault`, although C leaves it undefined too: it wraps, as the processor's instructions do.
-/

namespace PandoraRobot.Finsh

open PandoraRobot.Kernel PandoraRobot.Bytecode

/-- `FINSH_DATA_TYPE_BYTE`, `FINSH_DATA_TYPE_WORD` or `FINSH_DATA_TYPE_DWORD`. -/
inductive Width where
  | byte
  | word
  | dword
  deriving DecidableEq, Repr

namespace Width

def bits : Width → Nat
  | byte => 8
  | word => 16
  | dword => 32

def bytes : Width → Nat
  | byte => 1
  | word => 2
  | dword => 4

end Width

inductive Fault where
  | stack
  | text
  | opcode
  | arithmetic
  | parameters
  | nullPointer
  deriving DecidableEq, Repr

/-! ## Values -/

/-- `*(char*) a`, `*(short*) a` or `*(long*) a`. -/
def loadValue : (w : Width) → ByteMemory → BitVec 32 → BitVec w.bits
  | .byte, m, a => m a
  | .word, m, a => m (a + 1) ++ m a
  | .dword, m, a => m (a + 3) ++ m (a + 2) ++ m (a + 1) ++ m a

def storeValue : (w : Width) → BitVec 32 → BitVec w.bits → ByteMemory → ByteMemory
  | .byte, a, v, m => Function.update m a v
  | .word, a, v, m =>
    Function.update (Function.update m a (v.extractLsb' 0 8)) (a + 1) (v.extractLsb' 8 8)
  | .dword, a, v, m =>
    let m := Function.update (Function.update m a (v.extractLsb' 0 8)) (a + 1) (v.extractLsb' 8 8)
    Function.update (Function.update m (a + 2) (v.extractLsb' 16 8)) (a + 3) (v.extractLsb' 24 8)

/-- `char_value`, `short_value` or `long_value` of a cell. -/
def getValue (w : Width) (cell : BitVec 32) : BitVec w.bits := cell.setWidth w.bits

def setValue (w : Width) (cell : BitVec 32) (v : BitVec w.bits) : BitVec 32 :=
  ((cell >>> w.bits) <<< w.bits) ||| v.setWidth 32

/-- `FINSH_SET16` and `FINSH_SET32`. -/
def valueBytes : (w : Width) → BitVec w.bits → List (BitVec 8)
  | .byte, v => [v]
  | .word, v => [v.extractLsb' 0 8, v.extractLsb' 8 8]
  | .dword, v => [v.extractLsb' 0 8, v.extractLsb' 8 8, v.extractLsb' 16 8, v.extractLsb' 24 8]

/-- `FINSH_GET16` and `FINSH_GET32`, at the start of what is left of the text. -/
def getBytes : (w : Width) → List (BitVec 8) → Except Fault (BitVec w.bits)
  | .byte, b :: _ => .ok b
  | .word, b₀ :: b₁ :: _ => .ok (b₁ ++ b₀)
  | .dword, b₀ :: b₁ :: b₂ :: b₃ :: _ => .ok (b₃ ++ b₂ ++ b₁ ++ b₀)
  | _, _ => .error .text

/-! ## Operations -/

inductive BinOp where
  | add
  | sub
  | div
  | mod
  | mul
  | and
  | or
  | xor
  | shl
  | shr
  deriving DecidableEq, Repr

/-- `/` and `%` are undefined for zero, and for a quotient that is no `int`. -/
def DivDefined (w : Width) (x y : BitVec w.bits) : Prop :=
  y ≠ 0 ∧ ¬ (w = .dword ∧ x = BitVec.intMin w.bits ∧ y = BitVec.allOnes w.bits)

instance (w : Width) (x y : BitVec w.bits) : Decidable (DivDefined w x y) :=
  inferInstanceAs (Decidable (_ ∧ _))

/-- The operators of C on `unsigned char`, `short` and `long`.  The operands of the first two are
    promoted to `int`, so a shift is defined below 32. -/
def BinOp.eval (op : BinOp) (w : Width) (x y : BitVec w.bits) : Except Fault (BitVec w.bits) :=
  match op with
  | .add => .ok (x + y)
  | .sub => .ok (x - y)
  | .mul => .ok (x * y)
  | .and => .ok (x &&& y)
  | .or => .ok (x ||| y)
  | .xor => .ok (x ^^^ y)
  | .div =>
    if DivDefined w x y then .ok (if w = .byte then x / y else x.sdiv y) else .error .arithmetic
  | .mod =>
    if DivDefined w x y then .ok (if w = .byte then x % y else x.srem y) else .error .arithmetic
  | .shl => if y.toNat < 32 then .ok (x <<< y.toNat) else .error .arithmetic
  | .shr =>
    if y.toNat < 32 then .ok (if w = .byte then x >>> y.toNat else x.sshiftRight y.toNat)
    else .error .arithmetic

inductive Op where
  | noOp
  | bin (op : BinOp) (w : Width)
  | bw (w : Width)
  | ld (w : Width)
  | ldValue (w : Width)
  | st (w : Width)
  | pop
  | call
  | ldValueStack (w : Width)
  deriving DecidableEq, Repr

def opTable : List Op := [
  .noOp,
  .bin .add .byte, .bin .add .word, .bin .add .dword,
  .bin .sub .byte, .bin .sub .word, .bin .sub .dword,
  .bin .div .byte, .bin .div .word, .bin .div .dword,
  .bin .mod .byte, .bin .mod .word, .bin .mod .dword,
  .bin .mul .byte, .bin .mul .word, .bin .mul .dword,
  .bin .and .byte, .bin .and .word, .bin .and .dword,
  .bin .or .byte, .bin .or .word, .bin .or .dword,
  .bin .xor .byte, .bin .xor .word, .bin .xor .dword,
  .bw .byte, .bw .word, .bw .dword,
  .bin .shl .byte, .bin .shl .word, .bin .shl .dword,
  .bin .shr .byte, .bin .shr .word, .bin .shr .dword,
  .ld .byte, .ld .word, .ld .dword,
  .ldValue .byte, .ldValue .word, .ldValue .dword,
  .st .byte, .st .word, .st .dword,
  .pop, .call,
  .ldValueStack .byte, .ldValueStack .word, .ldValueStack .dword]

def finshStackMax : Nat := 64
def finshTextMax : Nat := 128

/-- The length of `parameterv`. -/
def parametersMax : Nat := 16

structure Vm where
  finshVmStack : Nat → BitVec 32
  finshSp : Nat
  finshPc : Nat
  memory : ByteMemory

/-- A system call: its result, and the memory it leaves. -/
abbrev Syscalls := BitVec 32 → List (BitVec 32) → ByteMemory → BitVec 32 × ByteMemory

namespace Vm

/-- `finsh_sp->.. = v; finsh_sp ++`. -/
def push (w : Width) (v : BitVec w.bits) (s : Vm) : Except Fault Vm :=
  if s.finshSp < finshStackMax then
    let cell := setValue w (s.finshVmStack s.finshSp) v
    .ok { s with
      finshVmStack := Function.update s.finshVmStack s.finshSp cell
      finshSp := s.finshSp + 1 }
  else .error .stack

/-- The cells from `n` below the stack pointer on, from the bottom. -/
def below (n : Nat) (s : Vm) : List (BitVec 32) :=
  (List.range n).map fun i => s.finshVmStack (s.finshSp - n + i)

end Vm

def Op.exec (calls : Syscalls) (text : List (BitVec 8)) (s : Vm) : Op → Except Fault Vm
  | .noOp => .ok s
  | .bin op w =>
    if s.finshSp < 2 then .error .stack
    else do
      let x := s.finshVmStack (s.finshSp - 2)
      let v ← op.eval w (getValue w x) (getValue w (s.finshVmStack (s.finshSp - 1)))
      pure { s with
        finshVmStack := Function.update s.finshVmStack (s.finshSp - 2) (setValue w x v)
        finshSp := s.finshSp - 1 }
  | .bw w =>
    if s.finshSp < 1 then .error .stack
    else
      let x := s.finshVmStack (s.finshSp - 1)
      let cell := setValue w x (~~~ getValue w x)
      .ok { s with finshVmStack := Function.update s.finshVmStack (s.finshSp - 1) cell }
  | .ld w => do
    let v ← getBytes w (text.drop s.finshPc)
    { s with finshPc := s.finshPc + w.bytes }.push w v
  | .ldValue w => do
    let a ← getBytes .dword (text.drop s.finshPc)
    { s with finshPc := s.finshPc + 4 }.push w (loadValue w s.memory a)
  | .st w =>
    if s.finshSp < 2 then .error .stack
    else
      let v := getValue w (s.finshVmStack (s.finshSp - 1))
      .ok { s with
        memory := storeValue w (s.finshVmStack (s.finshSp - 2)) v s.memory
        finshSp := s.finshSp - 1 }
  | .pop => if s.finshSp < 1 then .error .stack else .ok { s with finshSp := s.finshSp - 1 }
  | .call => do
    let parameters := (← getBytes .byte (text.drop s.finshPc)).toNat
    if parametersMax < parameters then .error .parameters
    else if s.finshSp < parameters + 1 then .error .stack
    else
      let f := s.finshVmStack (s.finshSp - parameters - 1)
      -- a call without parameters is passed a zero
      let parameterv := if parameters = 0 then [0] else s.below parameters
      let (r, memory) := calls f parameterv s.memory
      let s := { s with finshPc := s.finshPc + 1, finshSp := s.finshSp - parameters - 1, memory }
      s.push .dword r
  | .ldValueStack w =>
    if s.finshSp < 1 then .error .stack
    else
      let a := s.finshVmStack (s.finshSp - 1)
      let cell := setValue w a (loadValue w s.memory a)
      .ok { s with finshVmStack := Function.update s.finshVmStack (s.finshSp - 1) cell }

/-- A turn of the loop of `finsh_vm_run`. -/
def finshVmStep (calls : Syscalls) (text : List (BitVec 8)) (s : Vm) : Except Fault Vm :=
  match text.drop s.finshPc with
  | [] => .error .text
  | op :: _ =>
    match opTable[op.toNat]? with
    | none => .error .opcode
    | some op => op.exec calls text { s with finshPc := s.finshPc + 1 }

/-- The loop of `finsh_vm_run`. -/
def vm (calls : Syscalls) : Machine Vm Fault (BitVec 8) where
  pc := Vm.finshPc
  step := finshVmStep calls

/-- `finsh_vm_run`.  Every turn of its loop moves the program counter on, so there are at most as
    many as the text has bytes. -/
def finshVmRun (calls : Syscalls) (text : List (BitVec 8)) (finshVmStack : Nat → BitVec 32)
    (memory : ByteMemory) : Except Fault Vm :=
  (vm calls).run text text.length ⟨finshVmStack, 0, 0, memory⟩

end PandoraRobot.Finsh
