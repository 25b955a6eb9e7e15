import PandoraRobot.Finsh.Vm

/-! # The compiler of the C shell

`finsh_compiler.c` over the syntax trees of `finsh_node.c`.  A tree has a first child and a next
sibling at each node.  The type check sets the data type of a node to that of its first child, and
marks what is wanted as an address.  The compiler writes the code of the child, that of the node
and that of the sibling.
-/

namespace PandoraRobot.Finsh

open PandoraRobot.Kernel

/-! ## Opcodes -/

/-- The place of a data type among the three operations of a kind. -/
def Width.offset : Width → BitVec 8
  | .byte => 0
  | .word => 1
  | .dword => 2

/-- `FINSH_OP_ADD_BYTE` and its like. -/
def BinOp.code : BinOp → BitVec 8
  | .add => 0x01
  | .sub => 0x04
  | .div => 0x07
  | .mod => 0x0a
  | .mul => 0x0d
  | .and => 0x10
  | .or => 0x13
  | .xor => 0x16
  | .shl => 0x1c
  | .shr => 0x1f

/-- The opcodes `FINSH_OP_..`. -/
def Op.code : Op → BitVec 8
  | .noOp => 0x00
  | .bin op w => op.code + w.offset
  | .bw w => 0x19 + w.offset
  | .ld w => 0x22 + w.offset
  | .ldValue w => 0x25 + w.offset
  | .st w => 0x28 + w.offset
  | .pop => 0x2b
  | .call => 0x2c
  | .ldValueStack w => 0x2d + w.offset

/-! ## Nodes -/

/-- `enum finsh_type`. -/
inductive FinshType where
  | unknown
  | void
  | voidp
  | char
  | uchar
  | charp
  | short
  | ushort
  | shortp
  | int
  | uint
  | intp
  | long
  | ulong
  | longp
  deriving DecidableEq, Repr

/-- `FINSH_NODE_..`. -/
inductive NodeType where
  | unknown
  | id
  | valueChar
  | valueInt
  | valueLong
  | valueString
  | valueNull
  | sysBin (op : BinOp)
  | sysBitwise
  | sysFunc
  | sysAssign
  | sysCast
  | sysPreinc
  | sysPredec
  | sysInc
  | sysDec
  | sysGetvalue
  | sysGetaddr
  | sysNull
  deriving DecidableEq, Repr

def finshDataTypeVoid : BitVec 8 := 0x00
def finshDataTypeByte : BitVec 8 := 0x01
def finshDataTypeWord : BitVec 8 := 0x02
def finshDataTypeDword : BitVec 8 := 0x03

def finshIdtypeVar : BitVec 8 := 0x01
def finshIdtypeSysvar : BitVec 8 := 0x02
def finshIdtypeSyscall : BitVec 8 := 0x04
def finshIdtypeAddress : BitVec 8 := 0x08

/-- What the `id` of a node points to: a `finsh_var`, a `finsh_sysvar` or a `finsh_syscall`. -/
structure Symbol where
  ptr : BitVec 32 := 0
  /-- `type` of a variable. -/
  type : FinshType := .unknown
  /-- `var` of a `finsh_sysvar`, `func` of a `finsh_syscall`. -/
  target : BitVec 32 := 0
  deriving DecidableEq, Repr

/-- `&(id.var->value)`, behind the name of 17 characters and the type. -/
def Symbol.value (id : Symbol) : BitVec 32 := id.ptr + 20

/-- `struct finsh_node`, less its links. -/
structure NodeInfo where
  nodeType : NodeType
  dataType : BitVec 8 := finshDataTypeVoid
  idtype : BitVec 8 := 0
  value : BitVec 32 := 0
  id : Symbol := {}
  deriving DecidableEq, Repr

inductive Node where
  | nil
  | node (info : NodeInfo) (child sibling : Node)
  deriving DecidableEq, Repr

inductive FinshError where
  | unknownType
  | unknownNode
  deriving DecidableEq, Repr

/-! ## The type check -/

/-- The data type of a variable. -/
def FinshType.dataType : FinshType → Option (BitVec 8)
  | .unknown => none
  | .void => some finshDataTypeVoid
  | .char | .uchar => some finshDataTypeByte
  | .short | .ushort => some finshDataTypeWord
  | .int | .uint | .long | .ulong => some finshDataTypeDword
  | .charp | .voidp | .shortp | .intp | .longp => some finshDataTypeDword

/-- The data type of a node without a child, and the error that is set. -/
def NodeInfo.leafType (info : NodeInfo) (errno : Option FinshError) :
    BitVec 8 × Option FinshError :=
  match info.nodeType with
  | .id =>
    if info.idtype &&& (finshIdtypeVar ||| finshIdtypeSysvar) ≠ 0 then
      match info.id.type.dataType with
      | some dataType => (dataType, errno)
      | none => (info.dataType, some .unknownType)
    else (info.dataType, errno)
  | .valueChar => (finshDataTypeByte, errno)
  | .valueInt | .valueLong | .valueString | .valueNull => (finshDataTypeDword, errno)
  | _ => (info.dataType, errno)

/-- Whether the first child of a node is wanted as an address. -/
def NodeType.childAddr (nodeType : NodeType) (isAddr : BitVec 8) : BitVec 8 :=
  match nodeType with
  | .sysAssign | .sysPreinc | .sysPredec | .sysGetaddr => finshIdtypeAddress
  -- the attribute of a left expression is not passed on
  | .sysGetvalue => 0
  | _ => isAddr

def finshTypeCheck : Node → BitVec 8 → Option FinshError → Node × Option FinshError
  | .nil, _, errno => (.nil, errno)
  | .node info child sibling, isAddr, errno =>
    let (child, errno) := finshTypeCheck child (info.nodeType.childAddr isAddr) errno
    let (sibling, errno) := finshTypeCheck sibling 0 errno
    let idtype :=
      if info.idtype ≠ finshIdtypeSyscall then info.idtype ||| isAddr else info.idtype
    let info := { info with idtype }
    match child with
    | .node first _ _ => (.node { info with dataType := first.dataType } child sibling, errno)
    | .nil =>
      let (dataType, errno) := info.leafType errno
      (.node { info with dataType } .nil sibling, errno)

/-! ## The compiler -/

/-- The code that has been written, and `finsh_errno`. -/
structure Compiler where
  code : List (BitVec 8)
  errno : Option FinshError

namespace Compiler

def emit (code : List (BitVec 8)) (c : Compiler) : Compiler := { c with code := c.code ++ code }

def finshErrorSet (error : FinshError) (c : Compiler) : Compiler := { c with errno := some error }

end Compiler

/-- The data type that a case of the compiler is for. -/
def widthOf (dataType : BitVec 8) : Option Width :=
  if dataType = finshDataTypeByte then some .byte
  else if dataType = finshDataTypeWord then some .word
  else if dataType = finshDataTypeDword then some .dword
  else none

/-- What the compiler can load.  A `void*` is not among it. -/
def FinshType.width : FinshType → Option Width
  | .char | .uchar => some .byte
  | .short | .ushort => some .word
  | .int | .uint | .long | .ulong | .charp | .shortp | .intp | .longp => some .dword
  | .unknown | .void | .voidp => none

/-- An operation with an address behind it. -/
def addressed (op : Op) (address : BitVec 32) : List (BitVec 8) :=
  op.code :: valueBytes .dword address

/-- `FINSH_NODE_ID`. -/
def NodeInfo.idCode (info : NodeInfo) : List (BitVec 8) :=
  if info.idtype &&& finshIdtypeSyscall ≠ 0 then addressed (.ld .dword) info.id.target
  else
    let address :=
      if info.idtype &&& finshIdtypeSysvar ≠ 0 then info.id.target else info.id.value
    match info.id.type.width with
    | some w =>
      addressed (if info.idtype &&& finshIdtypeAddress ≠ 0 then .ld .dword else .ldValue w) address
    | none => []

/-- The code of an operation that there is one of for each data type. -/
def byWidth (dataType : BitVec 8) (code : Width → List (BitVec 8)) : List (BitVec 8) :=
  match widthOf dataType with
  | some w => code w
  | none => []

/-- `id = id + 1`, or `id - 1`, once the address of `id` is on the stack. -/
def addOne (op : BinOp) (address : BitVec 32) (w : Width) : List (BitVec 8) :=
  addressed (.ldValue w) address ++ ((Op.ld w).code :: valueBytes w (BitVec.ofNat _ 1)) ++
    [(Op.bin op w).code, (Op.st w).code]

/-- The code of the assignment to what the first child is the address of. -/
def assignCode (dataType : BitVec 8) (c : Compiler) : Compiler :=
  match widthOf dataType with
  | some w => c.emit [(Op.st w).code, (Op.ldValueStack w).code]
  | none => c.finshErrorSet .unknownType

/-- How many siblings follow a node. -/
def Node.siblings : Node → Nat
  | .nil => 0
  | .node _ _ .nil => 0
  | .node _ _ (.node info child sibling) => (Node.node info child sibling).siblings + 1

/-- `FINSH_NODE_SYS_PREINC` and `FINSH_NODE_SYS_PREDEC`. -/
def preincCode (op : BinOp) (dataType : BitVec 8) : Node → List (BitVec 8)
  | .node ⟨.id, _, _, _, id⟩ _ _ =>
    byWidth dataType fun w => addOne op id.value w ++ [(Op.ldValueStack .dword).code]
  | _ => []

/-- `FINSH_NODE_SYS_INC` and `FINSH_NODE_SYS_DEC`. -/
def incCode (op : BinOp) (dataType : BitVec 8) : Node → List (BitVec 8)
  | .node ⟨.id, _, _, _, id⟩ _ _ =>
    byWidth dataType fun w =>
      addressed (.ld .dword) id.value ++ addOne op id.value w ++ [Op.pop.code]
  | _ => []

/-- The code of a node, once that of its children has been written. -/
def NodeInfo.compile (info : NodeInfo) (child : Node) (c : Compiler) : Except Fault Compiler :=
  match info.nodeType with
  | .id => .ok (c.emit info.idCode)
  | .valueChar => .ok (c.emit [(Op.ld .byte).code, getValue .byte info.value])
  | .valueInt | .valueLong | .valueString | .valueNull =>
    .ok (c.emit (addressed (.ld .dword) info.value))
  | .sysBin op => .ok (c.emit (byWidth info.dataType fun w => [(Op.bin op w).code]))
  | .sysBitwise => .ok (c.emit (byWidth info.dataType fun w => [(Op.bw w).code]))
  | .sysFunc =>
    match child with
    | .nil => .ok c
    | .node _ _ _ => .ok (c.emit [Op.call.code, BitVec.ofNat 8 child.siblings])
  | .sysAssign =>
    match child with
    | .nil => .error .nullPointer
    | .node first _ _ =>
      if first.nodeType = .id then .ok (assignCode first.dataType c)
      else if first.nodeType = .sysGetvalue then .ok (assignCode (first.dataType &&& 0x0f) c)
      else .ok c
  | .sysPreinc => .ok (c.emit (preincCode .add info.dataType child))
  | .sysPredec => .ok (c.emit (preincCode .sub info.dataType child))
  | .sysInc => .ok (c.emit (incCode .add info.dataType child))
  | .sysDec => .ok (c.emit (incCode .sub info.dataType child))
  | .sysNull => .ok (c.emit (valueBytes .dword (BitVec.ofNat _ 0)))
  | .sysGetvalue =>
    if info.idtype &&& finshIdtypeAddress ≠ 0 then .ok c
    else .ok (c.emit (byWidth info.dataType fun w => [(Op.ldValueStack w).code]))
  | .sysGetaddr => .ok c
  | .unknown | .sysCast => .ok (c.finshErrorSet .unknownNode)

def finshCompile : Node → Compiler → Except Fault Compiler
  | .nil, c => .ok c
  | .node info child sibling, c => do
    let c ← finshCompile child c
    let c ← info.compile child c
    finshCompile sibling c

/-- The loop of `finsh_compiler_run` over the statements. -/
def compileStatements : Node → Compiler → Except Fault Compiler
  | .nil, c => .ok c
  | .node info child sibling, c => do
    let c ← finshCompile (.node info child .nil) c
    match sibling with
    | .nil => .ok c
    | .node _ _ _ => compileStatements sibling (c.emit [Op.pop.code])

/-- `finsh_compiler_run`: the text segment, the stack and `finsh_errno`.  Only the first cell of the
    stack is cleared. -/
def finshCompilerRun (node : Node) (finshVmStack : Nat → BitVec 32) (errno : Option FinshError) :
    Except Fault (List (BitVec 8) × (Nat → BitVec 32) × Option FinshError) := do
  let (node, errno) := finshTypeCheck node 0 errno
  let c ← compileStatements node ⟨[], errno⟩
  if finshTextMax < c.code.length then .error .text
  else
    let rest := List.replicate (finshTextMax - c.code.length) 0
    .ok (c.code ++ rest, Function.update finshVmStack 0 0, c.errno)

end PandoraRobot.Finsh
