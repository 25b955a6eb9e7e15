import PandoraRobot.Finsh.Compiler

/-! # Expressions of the C shell

The expressions that the compiler has code for, typed by what it tells apart: the data type of a
node, and how much of the cell of a value is known.  A value of the data type `byte` may come with
the rest of its cell undetermined, so no operand is narrower than the operation on it.

A term has a meaning, a tree of nodes and a code.  The type check and the compiler make the code
out of the tree.
-/

namespace PandoraRobot.Finsh

open PandoraRobot.Kernel

/-! ## Terms -/

/-- What a term stands for: a place in the memory, a value or the parameters of a call. -/
inductive Kind where
  | place (w : Width)
  /-- Of the type, and with the low part of its cell known.  The value of a call has no type. -/
  | value (type : Option Width) (w : Width)
  | args (n : Nat)

abbrev Kind.Value : Kind → Type
  | .place _ => BitVec 32
  | .value _ w => BitVec w.bits
  | .args _ => List (BitVec 32)

/-- A `finsh_var` of a type that the compiler can load. -/
structure Var (w : Width) where
  symbol : Symbol
  type_width : symbol.type.width = some w

/-- A `finsh_var` or a `finsh_sysvar`. -/
inductive Name (w : Width) where
  | var (v : Var w)
  | sysvar (v : Var w)

def Var.address (v : Var w) : BitVec 32 := v.symbol.value

def Name.address : Name w → BitVec 32
  | .var v => v.address
  | .sysvar v => v.symbol.target

inductive Literal where
  | int
  | long
  | string
  | null

/-- `++` or `--`. -/
inductive Count where
  | up
  | down

def Count.apply (count : Count) (v : BitVec n) : BitVec n :=
  match count with
  | .up => v + 1
  | .down => v - 1

inductive Term : Kind → Type where
  | name (x : Name w) : Term (.place w)
  | deref (p : Term (.value (some w) .dword)) : Term (.place w)
  | char (v : BitVec 8) : Term (.value (some .byte) .byte)
  | literal (l : Literal) (v : BitVec 32) : Term (.value (some .dword) .dword)
  | read (x : Name w) : Term (.value (some w) w)
  | getvalue (p : Term (.value (some w) .dword)) : Term (.value (some w) w)
  | getaddr (x : Term (.place w)) : Term (.value (some w) .dword)
  /-- The type is that of the left operand. -/
  | bin (op : BinOp) (a : Term (.value (some w) v)) (b : Term (.value t u))
      (ha : w.bits ≤ v.bits) (hb : w.bits ≤ u.bits) : Term (.value (some w) w)
  | bitwise (a : Term (.value (some w) v)) (ha : w.bits ≤ v.bits) : Term (.value (some w) w)
  | assign (x : Term (.place w)) (a : Term (.value t v)) (ha : w.bits ≤ v.bits) :
      Term (.value (some w) w)
  /-- Of a `finsh_var` only: the code takes `id.var` also where the name is a `finsh_sysvar`. -/
  | precount (count : Count) (x : Var w) : Term (.value (some w) w)
  | postcount (count : Count) (x : Var w) : Term (.value (some w) w)
  | func (f : Symbol) (args : Term (.args n)) (hn : n ≤ parametersMax) :
      Term (.value none .dword)
  | noArgs : Term (.args 0)
  | arg (a : Term (.value t .dword)) (rest : Term (.args n)) : Term (.args (n + 1))

/-! ## Meaning -/

abbrev Eval := StateT ByteMemory (Except Fault)

/-- A call without parameters is passed a zero. -/
def passed : List (BitVec 32) → List (BitVec 32)
  | [] => [0]
  | vs => vs

def Term.eval (calls : Syscalls) : Term k → Eval k.Value
  | .name x => pure x.address
  | .deref (w := w) p => p.eval (k := .value (some w) .dword) calls
  | .char v => pure v
  | .literal _ v => pure v
  | .read (w := w) x => do return loadValue w (← get) x.address
  | .getvalue (w := w) p => do
    let a ← p.eval calls
    return loadValue w (← get) a
  | .getaddr (w := w) x => x.eval (k := .place w) calls
  | .bin (w := w) op a b _ _ => do
    let x ← a.eval calls
    let y ← b.eval calls
    op.eval w (x.setWidth w.bits) (y.setWidth w.bits)
  | .bitwise (w := w) a _ => do return ~~~ (← a.eval calls).setWidth w.bits
  | .assign (w := w) x a _ => do
    let address ← x.eval calls
    let v := (← a.eval calls).setWidth w.bits
    modify (storeValue w address v)
    return v
  | .precount (w := w) count x => do
    let v := count.apply (loadValue w (← get) x.address)
    modify (storeValue w x.address v)
    return v
  | .postcount (w := w) count x => do
    let v := loadValue w (← get) x.address
    modify (storeValue w x.address (count.apply v))
    return v
  | .func f args _ => do
    let vs ← args.eval calls
    modifyGet (calls f.target (passed vs))
  | .noArgs => pure []
  | .arg a rest => do
    let v ← a.eval calls
    return v :: (← rest.eval calls)

/-! ## Trees -/

def Width.dataType : Width → BitVec 8
  | .byte => finshDataTypeByte
  | .word => finshDataTypeWord
  | .dword => finshDataTypeDword

def Kind.dataType : Kind → BitVec 8
  | .place w => w.dataType
  | .value (some w) _ => w.dataType
  | .value none _ => finshDataTypeVoid
  | .args _ => finshDataTypeVoid

/-- What the type check is told about a node of the kind. -/
def Kind.isAddr : Kind → BitVec 8
  | .place _ => finshIdtypeAddress
  | .value _ _ | .args _ => 0

/-- A node of the kind, before the type check or after it. -/
def NodeInfo.mark (checked : Bool) (k : Kind) (info : NodeInfo) : NodeInfo :=
  if checked then { info with dataType := k.dataType, idtype := info.idtype ||| k.isAddr } else info

/-- `finsh_node_new_id`. -/
def Name.info : Name w → NodeInfo
  | .var v => { nodeType := .id, idtype := finshIdtypeVar, id := v.symbol }
  | .sysvar v => { nodeType := .id, idtype := finshIdtypeSysvar, id := v.symbol }

/-- The node of a function has no data type, and keeps its mark. -/
def Symbol.syscallInfo (f : Symbol) : NodeInfo :=
  { nodeType := .id, idtype := finshIdtypeSyscall, id := f }

def Literal.nodeType : Literal → NodeType
  | .int => .valueInt
  | .long => .valueLong
  | .string => .valueString
  | .null => .valueNull

def Count.op : Count → BinOp
  | .up => .add
  | .down => .sub

def Count.preType : Count → NodeType
  | .up => .sysPreinc
  | .down => .sysPredec

def Count.postType : Count → NodeType
  | .up => .sysInc
  | .down => .sysDec

/-- The tree that the parser makes of a term, or the tree that the type check makes of that one, in
    front of a sibling. -/
def Term.tree (checked : Bool) : Term k → Node → Node
  | .name (w := w) x, s => .node (x.info.mark checked (.place w)) .nil s
  | .read (w := w) x, s => .node (x.info.mark checked (.value (some w) w)) .nil s
  | .deref (w := w) p, s =>
    .node (NodeInfo.mark checked (.place w) { nodeType := .sysGetvalue }) (p.tree checked .nil) s
  | .getvalue (w := w) p, s =>
    .node (NodeInfo.mark checked (.value (some w) w) { nodeType := .sysGetvalue })
      (p.tree checked .nil) s
  | .char v, s =>
    .node (NodeInfo.mark checked (.value (some .byte) .byte)
      { nodeType := .valueChar, value := v.setWidth 32 }) .nil s
  | .literal l v, s =>
    .node (NodeInfo.mark checked (.value (some .dword) .dword)
      { nodeType := l.nodeType, value := v }) .nil s
  | .getaddr (w := w) x, s =>
    .node (NodeInfo.mark checked (.value (some w) .dword) { nodeType := .sysGetaddr })
      (x.tree checked .nil) s
  | .bin (w := w) op a b _ _, s =>
    .node (NodeInfo.mark checked (.value (some w) w) { nodeType := .sysBin op })
      (a.tree checked (b.tree checked .nil)) s
  | .bitwise (w := w) a _, s =>
    .node (NodeInfo.mark checked (.value (some w) w) { nodeType := .sysBitwise })
      (a.tree checked .nil) s
  | .assign (w := w) x a _, s =>
    .node (NodeInfo.mark checked (.value (some w) w) { nodeType := .sysAssign })
      (x.tree checked (a.tree checked .nil)) s
  | .precount (w := w) count x, s =>
    .node (NodeInfo.mark checked (.value (some w) w) { nodeType := count.preType })
      (.node ((Name.var x).info.mark checked (.place w)) .nil .nil) s
  | .postcount (w := w) count x, s =>
    .node (NodeInfo.mark checked (.value (some w) w) { nodeType := count.postType })
      (.node ((Name.var x).info.mark checked (.value (some w) w)) .nil .nil) s
  | .func f args _, s =>
    .node (NodeInfo.mark checked (.value none .dword) { nodeType := .sysFunc })
      (.node f.syscallInfo .nil (args.tree checked .nil)) s
  | .noArgs, s => s
  | .arg a rest, s => a.tree checked (rest.tree checked s)

/-! ## Code -/

def Term.code : Term k → List (BitVec 8)
  | .name x => addressed (.ld .dword) x.address
  | .deref p => p.code
  | .char v => (Op.ld .byte).code :: valueBytes .byte v
  | .literal _ v => addressed (.ld .dword) v
  | .read (w := w) x => addressed (.ldValue w) x.address
  | .getvalue (w := w) p => p.code ++ [(Op.ldValueStack w).code]
  | .getaddr x => x.code
  | .bin (w := w) op a b _ _ => a.code ++ (b.code ++ [(Op.bin op w).code])
  | .bitwise (w := w) a _ => a.code ++ [(Op.bw w).code]
  | .assign (w := w) x a _ => x.code ++ (a.code ++ [(Op.st w).code, (Op.ldValueStack w).code])
  | .precount (w := w) count x =>
    addressed (.ld .dword) x.address ++
      (addOne count.op x.address w ++ [(Op.ldValueStack .dword).code])
  | .postcount (w := w) count x =>
    addressed (.ldValue w) x.address ++
      (addressed (.ld .dword) x.address ++ addOne count.op x.address w ++ [Op.pop.code])
  | .func (n := n) f args _ =>
    addressed (.ld .dword) f.target ++ (args.code ++ [Op.call.code, BitVec.ofNat 8 n])
  | .noArgs => []
  | .arg a rest => a.code ++ rest.code

/-- How many cells of the stack the code takes at most. -/
def Term.depth : Term k → Nat
  | .name _ | .char _ | .literal _ _ | .read _ => 1
  | .deref p => p.depth
  | .getvalue p => p.depth
  | .getaddr x => x.depth
  | .bin _ a b _ _ => max a.depth (b.depth + 1)
  | .bitwise a _ => a.depth
  | .assign x a _ => max x.depth (a.depth + 1)
  | .precount _ _ => 3
  | .postcount _ _ => 4
  | .func _ args _ => args.depth + 1
  | .noArgs => 0
  | .arg a rest => max a.depth (rest.depth + 1)

/-! ## The type check -/

theorem dataType_of_width {type : FinshType} {w : Width} (h : type.width = some w) :
    type.dataType = some w.dataType := by
  cases type <;> simp_all [FinshType.width, FinshType.dataType, Width.dataType] <;> subst h <;> rfl

@[simp] theorem widthOf_dataType (w : Width) : widthOf w.dataType = some w := by cases w <;> rfl

@[simp] theorem byWidth_dataType (w : Width) (code : Width → List (BitVec 8)) :
    byWidth w.dataType code = code w := by
  simp [byWidth]

/-- A node without a child. -/
theorem finshTypeCheck_leaf {s s' : Node} {errno : Option FinshError} {dataType idtype : BitVec 8}
    (info : NodeInfo) (isAddr : BitVec 8) (hs : finshTypeCheck s 0 errno = (s', errno))
    (hid : (if info.idtype ≠ finshIdtypeSyscall then info.idtype ||| isAddr else info.idtype) =
      idtype)
    (hleaf : { info with idtype }.leafType errno = (dataType, errno)) :
    finshTypeCheck (.node info .nil s) isAddr errno =
      (.node { info with dataType, idtype } .nil s', errno) := by
  simp only [finshTypeCheck, hs, hid, hleaf]

/-- A node with a child takes the data type of the child. -/
theorem finshTypeCheck_parent {child first rest s s' : Node} {errno : Option FinshError}
    {head : NodeInfo} (info : NodeInfo) (isAddr : BitVec 8)
    (hchild : finshTypeCheck child (info.nodeType.childAddr isAddr) errno =
      (.node head first rest, errno))
    (hs : finshTypeCheck s 0 errno = (s', errno)) (hid : info.idtype ≠ finshIdtypeSyscall) :
    finshTypeCheck (.node info child s) isAddr errno =
      (.node { info with dataType := head.dataType, idtype := info.idtype ||| isAddr }
        (.node head first rest) s', errno) := by
  simp only [finshTypeCheck, hs, if_pos hid, hchild]

/-- A term that is no list of parameters has a node of its own. -/
def Kind.Single : Kind → Prop
  | .place _ | .value _ _ => True
  | .args _ => False

theorem Term.tree_head (e : Term k) (hk : k.Single) :
    ∃ info child, info.dataType = k.dataType ∧ ∀ s, e.tree true s = .node info child s := by
  cases e with
  | noArgs => exact hk.elim
  | arg a rest => exact hk.elim
  | _ => exact ⟨_, _, rfl, fun _ => rfl⟩

theorem Name.leafType (x : Name w) {k : Kind} (hk : k.dataType = w.dataType)
    (errno : Option FinshError) :
    { x.info with idtype := x.info.idtype ||| k.isAddr }.leafType errno = (k.dataType, errno) := by
  have hid : (x.info.idtype ||| k.isAddr) &&& (finshIdtypeVar ||| finshIdtypeSysvar) ≠ 0 := by
    cases x <;> cases k <;> simp only [Name.info, Kind.isAddr] <;> decide
  rw [hk]
  cases x with
  | var v =>
    rw [NodeInfo.leafType]
    simp only [Name.info, dataType_of_width v.type_width]
    exact if_pos hid
  | sysvar v =>
    rw [NodeInfo.leafType]
    simp only [Name.info, dataType_of_width v.type_width]
    exact if_pos hid

theorem Name.typeCheck (x : Name w) {k : Kind} (hk : k.dataType = w.dataType) {s s' : Node}
    {errno : Option FinshError} (hs : finshTypeCheck s 0 errno = (s', errno)) :
    finshTypeCheck (.node (x.info.mark false k) .nil s) k.isAddr errno =
      (.node (x.info.mark true k) .nil s', errno) := by
  have hid : x.info.idtype ≠ finshIdtypeSyscall := by
    cases x <;> simp only [Name.info] <;> decide
  exact finshTypeCheck_leaf x.info k.isAddr hs (if_pos hid) (x.leafType hk errno)

theorem zero_ne_syscall : 0 ≠ finshIdtypeSyscall := by decide

/-- The node of an operation whose first operand has the data type of the result. -/
theorem typeCheck_operation (nodeType : NodeType) (k : Kind) (a : Term k') (hk' : k'.Single)
    (haddr : nodeType.childAddr k.isAddr = k'.isAddr) (htype : k'.dataType = k.dataType)
    {b b' s s' : Node} {errno : Option FinshError}
    (ha : finshTypeCheck (a.tree false b) k'.isAddr errno = (a.tree true b', errno))
    (hs : finshTypeCheck s 0 errno = (s', errno)) :
    finshTypeCheck (.node (NodeInfo.mark false k { nodeType }) (a.tree false b) s) k.isAddr errno =
      (.node (NodeInfo.mark true k { nodeType }) (a.tree true b') s', errno) := by
  obtain ⟨head, first, hdata, hhead⟩ := a.tree_head hk'
  rw [hhead] at ha
  rw [hhead, NodeInfo.mark, NodeInfo.mark, if_neg (by decide), if_pos rfl, ← htype, ← hdata]
  refine finshTypeCheck_parent { nodeType } k.isAddr ?_ hs zero_ne_syscall
  rw [haddr]
  exact ha

/-- The type check marks the tree of a term, and sets no error. -/
theorem Term.typeCheck (e : Term k) : ∀ {s s' : Node} {errno : Option FinshError},
    finshTypeCheck s 0 errno = (s', errno) →
      finshTypeCheck (e.tree false s) k.isAddr errno = (e.tree true s', errno) := by
  have hnil (errno : Option FinshError) : finshTypeCheck .nil 0 errno = (.nil, errno) := rfl
  induction e with
  | name x => exact x.typeCheck rfl
  | read x => exact x.typeCheck rfl
  | deref p ih => exact typeCheck_operation .sysGetvalue (.place _) p trivial rfl rfl (ih (hnil _))
  | getvalue p ih =>
    exact typeCheck_operation .sysGetvalue (.value _ _) p trivial rfl rfl (ih (hnil _))
  | getaddr x ih =>
    exact typeCheck_operation .sysGetaddr (.value _ _) x trivial rfl rfl (ih (hnil _))
  | char v => exact fun hs => finshTypeCheck_leaf _ _ hs (if_pos zero_ne_syscall) rfl
  | literal l v =>
    exact fun hs => finshTypeCheck_leaf _ _ hs (if_pos zero_ne_syscall) (by cases l <;> rfl)
  | bin op a b _ _ iha ihb =>
    exact typeCheck_operation (.sysBin op) (.value _ _) a trivial rfl rfl (iha (ihb (hnil _)))
  | bitwise a _ ih =>
    exact typeCheck_operation .sysBitwise (.value _ _) a trivial rfl rfl (ih (hnil _))
  | assign x a _ ihx iha =>
    exact typeCheck_operation .sysAssign (.value _ _) x trivial rfl rfl (ihx (iha (hnil _)))
  | precount count x =>
    exact typeCheck_operation count.preType (.value _ _) (.name (.var x)) trivial
      (by cases count <;> rfl) rfl ((Name.var x).typeCheck rfl (hnil _))
  | postcount count x =>
    exact typeCheck_operation count.postType (.value _ _) (.read (.var x)) trivial
      (by cases count <;> rfl) rfl ((Name.var x).typeCheck rfl (hnil _))
  | func f args hn ih =>
    intro s s' errno hs
    have hargs : finshTypeCheck (args.tree false .nil) 0 errno = (args.tree true .nil, errno) :=
      ih (hnil errno)
    have hnot : ¬ finshIdtypeSyscall &&& (finshIdtypeVar ||| finshIdtypeSysvar) ≠ 0 := by decide
    have hf : finshTypeCheck (.node f.syscallInfo .nil (args.tree false .nil)) 0 errno =
        (.node f.syscallInfo .nil (args.tree true .nil), errno) :=
      finshTypeCheck_leaf f.syscallInfo 0 hargs (if_neg fun h => h rfl) (if_neg hnot)
    exact finshTypeCheck_parent { nodeType := .sysFunc } 0 hf hs zero_ne_syscall
  | noArgs => exact id
  | arg a rest iha ihrest => exact fun hs => iha (ihrest hs)

/-! ## The code -/

theorem Compiler.emit_emit (code code' : List (BitVec 8)) (c : Compiler) :
    (c.emit code).emit code' = c.emit (code ++ code') := by
  simp [Compiler.emit]

/-- A node, once the code of its children and its own are known. -/
theorem finshCompile_node {info : NodeInfo} {child : Node} {c c₁ c₂ : Compiler} (s : Node)
    (hchild : finshCompile child c = .ok c₁) (hnode : info.compile child c₁ = .ok c₂) :
    finshCompile (.node info child s) c = finshCompile s c₂ := by
  rw [finshCompile, hchild]
  show info.compile child c₁ >>= finshCompile s = _
  rw [hnode]
  rfl

theorem Name.compile (x : Name w) (k : Kind) (child : Node) (c : Compiler) :
    (x.info.mark true k).compile child c = .ok (c.emit (addressed
      (if k.isAddr = finshIdtypeAddress then .ld .dword else .ldValue w) x.address)) := by
  have hcall : ¬ (x.info.idtype ||| k.isAddr) &&& finshIdtypeSyscall ≠ 0 := by
    cases x <;> cases k <;> simp only [Name.info, Kind.isAddr] <;> decide
  have haddr : (x.info.idtype ||| k.isAddr) &&& finshIdtypeAddress ≠ 0 ↔
      k.isAddr = finshIdtypeAddress := by
    cases x <;> cases k <;> simp only [Name.info, Kind.isAddr] <;> decide
  have hplace : (if (x.info.idtype ||| k.isAddr) &&& finshIdtypeSysvar ≠ 0 then x.info.id.target
      else x.info.id.value) = x.address := by
    cases x with
    | var v => exact if_neg (by cases k <;> simp only [Name.info, Kind.isAddr] <;> decide)
    | sysvar v => exact if_pos (by cases k <;> simp only [Name.info, Kind.isAddr] <;> decide)
  have hwidth : x.info.id.type.width = some w := by
    cases x with
    | var v => exact v.type_width
    | sysvar v => exact v.type_width
  have hcode : (x.info.mark true k).idCode =
      addressed (if k.isAddr = finshIdtypeAddress then .ld .dword else .ldValue w) x.address := by
    simp only [NodeInfo.idCode, NodeInfo.mark, if_true, if_neg hcall, haddr, hplace, hwidth]
  rw [← hcode]
  cases x <;> rfl

/-- How many parameters follow the function. -/
theorem Term.siblings_args (info : NodeInfo) (child : Node) :
    (args : Term (.args n)) → (Node.node info child (args.tree true .nil)).siblings = n
  | .noArgs => rfl
  | .arg a rest => by
    obtain ⟨head, first, -, hhead⟩ := a.tree_head trivial
    rw [Term.tree, hhead, Node.siblings, Term.siblings_args head first rest]

/-- What the assignment stores to, as the compiler tells it by the node. -/
theorem Term.compile_assign (x : Term (.place w)) (s : Node) (info : NodeInfo) (c : Compiler)
    (htype : info.nodeType = .sysAssign) :
    info.compile (x.tree true s) c = .ok (c.emit [(Op.st w).code, (Op.ldValueStack w).code]) := by
  have hmask : w.dataType &&& 0x0f = w.dataType := by cases w <;> rfl
  have hcode (c : Compiler) : assignCode w.dataType c =
      c.emit [(Op.st w).code, (Op.ldValueStack w).code] := by
    rw [assignCode, widthOf_dataType]
  obtain ⟨_, _, _, _, _⟩ := info
  subst htype
  cases x with
  | name x => cases x <;> exact congrArg Except.ok (hcode c)
  | deref p =>
    show Except.ok (assignCode (w.dataType &&& 0x0f) c) = _
    rw [hmask, hcode]

/-- An operation that there is one of for each data type, behind the code of its operands. -/
theorem emit_byWidth (w : Width) (operation : Width → List (BitVec 8)) (code : List (BitVec 8))
    (c : Compiler) :
    (c.emit code).emit (byWidth w.dataType operation) = c.emit (code ++ operation w) := by
  rw [byWidth_dataType, Compiler.emit_emit]

/-- The compiler makes the code of a term out of its checked tree. -/
theorem Term.compiled (e : Term k) : ∀ (s : Node) (c : Compiler),
    finshCompile (e.tree true s) c = finshCompile s (c.emit e.code) := by
  have hnil (c : Compiler) : finshCompile .nil c = .ok c := rfl
  -- every tree is a child with siblings: the child is compiled, and then the node itself
  induction e with
  | name x => exact fun s c => finshCompile_node s (hnil c) (x.compile (.place _) _ c)
  | read x => exact fun s c => finshCompile_node s (hnil c) (x.compile (.value _ _) _ c)
  | deref p ih =>
    have haddr : (0 ||| finshIdtypeAddress) &&& finshIdtypeAddress ≠ 0 := by decide
    exact fun s c => finshCompile_node s (ih .nil c) (if_pos haddr)
  | getvalue p ih =>
    have haddr : ¬ (0 ||| 0) &&& finshIdtypeAddress ≠ 0 := by decide
    exact fun s c => finshCompile_node s (ih .nil c)
      ((if_neg haddr).trans (congrArg Except.ok (emit_byWidth _ _ p.code c)))
  | getaddr x ih => exact fun s c => finshCompile_node s (ih .nil c) rfl
  | char v =>
    have hv : getValue .byte (v.setWidth 32) = v := by simp [getValue, Width.bits]
    exact fun s c => finshCompile_node s (hnil c)
      (congrArg (fun v => Except.ok (c.emit [(Op.ld .byte).code, v])) hv)
  | literal l v => exact fun s c => finshCompile_node s (hnil c) (by cases l <;> rfl)
  | bin op a b _ _ iha ihb =>
    refine fun s c => finshCompile_node s ((iha _ c).trans (ihb .nil _))
      (congrArg Except.ok ((emit_byWidth _ _ b.code (c.emit a.code)).trans ?_))
    exact Compiler.emit_emit _ _ c
  | bitwise a _ ih =>
    exact fun s c => finshCompile_node s (ih .nil c)
      (congrArg Except.ok (emit_byWidth _ _ a.code c))
  | assign x a _ ihx iha =>
    intro s c
    refine finshCompile_node s ((ihx _ c).trans (iha .nil _))
      ((x.compile_assign _ _ _ rfl).trans (congrArg Except.ok ?_))
    rw [Compiler.emit_emit, Compiler.emit_emit, Term.code]
  -- the child is a node of its own, which is not part of the term
  | @precount w count x =>
    have hchild (c : Compiler) := finshCompile_node .nil (hnil c)
      ((Name.var x).compile (.place w) .nil c)
    refine fun s c => finshCompile_node s (hchild c) ?_
    cases count <;> exact congrArg Except.ok (emit_byWidth _ _ _ c)
  | @postcount w count x =>
    have hchild (c : Compiler) := finshCompile_node .nil (hnil c)
      ((Name.var x).compile (.value (some w) w) .nil c)
    refine fun s c => finshCompile_node s (hchild c) ?_
    cases count <;> exact congrArg Except.ok (emit_byWidth _ _ _ c)
  | func f args hn ih =>
    intro s c
    have hcall : finshIdtypeSyscall &&& finshIdtypeSyscall ≠ 0 := by decide
    have hf : f.syscallInfo.compile .nil c = .ok (c.emit (addressed (.ld .dword) f.target)) :=
      congrArg (fun code => Except.ok (c.emit code)) (if_pos hcall)
    have hchild := (finshCompile_node (args.tree true .nil) (hnil c) hf).trans (ih .nil _)
    refine finshCompile_node s hchild (congrArg Except.ok ?_)
    rw [Term.siblings_args, Compiler.emit_emit, Compiler.emit_emit, Term.code]
  | noArgs => exact fun s c => by simp [Term.tree, Term.code, Compiler.emit]
  | arg a rest iha ihrest =>
    intro s c
    rw [Term.tree, iha, ihrest, Compiler.emit_emit, Term.code]

end PandoraRobot.Finsh
