import PandoraRobot.Finsh.Expr
import Mathlib.Data.List.Infix

/-! # Compiled expressions run to their meaning

Each operation of the machine has a rule that says what it computes and what it leaves on the stack.
The code of a term is put together from them.  A line of statements that fits into the text segment,
and whose terms fit on the stack, is compiled without an error and runs to what it means.
-/

namespace PandoraRobot.Finsh

open PandoraRobot.Kernel PandoraRobot.Bytecode

/-! ## Values -/

theorem Width.bits_le (w : Width) : w.bits ≤ 32 := by cases w <;> decide

theorem getValue_setValue (w : Width) (cell : BitVec 32) (v : BitVec w.bits) :
    getValue w (setValue w cell v) = v := by
  have hw := w.bits_le
  ext i hi
  have hi' : i < 32 := by omega
  simp [getValue, setValue, hi, hi']

theorem getValue_dword (cell : BitVec 32) : getValue .dword cell = cell := BitVec.setWidth_eq cell

theorem setWidth_getValue {w u : Width} (h : w.bits ≤ u.bits) (cell : BitVec 32) :
    (getValue u cell).setWidth w.bits = getValue w cell :=
  BitVec.setWidth_setWidth_of_le _ h

theorem bytes_word (v : BitVec 16) : v.extractLsb' 8 8 ++ v.extractLsb' 0 8 = v := by
  apply BitVec.eq_of_getLsbD_eq
  intro i hi
  simp
  grind

theorem bytes_dword (v : BitVec 32) :
    v.extractLsb' 24 8 ++ v.extractLsb' 16 8 ++ v.extractLsb' 8 8 ++ v.extractLsb' 0 8 = v := by
  apply BitVec.eq_of_getLsbD_eq
  intro i hi
  simp
  grind

theorem load_store (w : Width) (a : BitVec 32) (v : BitVec w.bits) (m : ByteMemory) :
    loadValue w (storeValue w a v m) a = v := by
  have h₁ : a ≠ a + 1 := by bv_omega
  have h₂ : a ≠ a + 2 := by bv_omega
  have h₃ : a ≠ a + 3 := by bv_omega
  have h₁₂ : a + 1 ≠ a + 2 := by bv_omega
  have h₁₃ : a + 1 ≠ a + 3 := by bv_omega
  have h₂₃ : a + 2 ≠ a + 3 := by bv_omega
  cases w with
  | byte => exact Function.update_self a v m
  | word =>
    simp only [loadValue, storeValue, Function.update_self, Function.update_of_ne h₁]
    exact bytes_word v
  | dword =>
    simp only [loadValue, storeValue, Function.update_self, Function.update_of_ne h₁,
      Function.update_of_ne h₂, Function.update_of_ne h₃, Function.update_of_ne h₁₂,
      Function.update_of_ne h₁₃, Function.update_of_ne h₂₃]
    exact bytes_dword v

theorem setWidth_append_word (x y : BitVec 8) (z : BitVec 16) :
    (z ++ x ++ y).setWidth 16 = x ++ y := by
  ext i hi
  simp
  grind

/-- What is loaded as a double word has the narrower value in its low part. -/
theorem setWidth_load_dword (w : Width) (m : ByteMemory) (a : BitVec 32) :
    (loadValue .dword m a).setWidth w.bits = loadValue w m a := by
  cases w with
  | byte => exact BitVec.setWidth_append_eq_right
  | word => exact setWidth_append_word _ _ _
  | dword => exact BitVec.setWidth_eq _

theorem getBytes_valueBytes {w : Width} {v : BitVec w.bits} {l : List (BitVec 8)}
    (h : valueBytes w v <+: l) : getBytes w l = .ok v := by
  obtain ⟨rest, rfl⟩ := h
  cases w with
  | byte => rfl
  | word => exact congrArg Except.ok (bytes_word v)
  | dword => exact congrArg Except.ok (bytes_dword v)

theorem length_valueBytes (w : Width) (v : BitVec w.bits) : (valueBytes w v).length = w.bytes := by
  cases w <;> rfl

theorem opTable_code (op : Op) : opTable[op.code.toNat]? = some op := by
  cases op with
  | bin op w => cases op <;> cases w <;> rfl
  | bw w | ld w | ldValue w | st w | ldValueStack w => cases w <;> rfl
  | noOp | pop | call => rfl

/-! ## The stack -/

/-- The cells on the stack, from the top. -/
def CellsAt (finshVmStack : Nat → BitVec 32) : List (BitVec 32) → Prop
  | [] => True
  | cell :: cells => finshVmStack cells.length = cell ∧ CellsAt finshVmStack cells

theorem CellsAt.update {finshVmStack : Nat → BitVec 32} {cells : List (BitVec 32)}
    (h : CellsAt finshVmStack cells) {i : Nat} (hi : cells.length ≤ i) (cell : BitVec 32) :
    CellsAt (Function.update finshVmStack i cell) cells := by
  induction cells with
  | nil => trivial
  | cons c cells ih =>
    rw [List.length_cons] at hi
    exact ⟨(Function.update_of_ne (by omega) _ _).trans h.1, ih h.2 (by omega)⟩

theorem CellsAt.drop {finshVmStack : Nat → BitVec 32} {cells cells' : List (BitVec 32)}
    (h : CellsAt finshVmStack (cells ++ cells')) : CellsAt finshVmStack cells' := by
  induction cells with
  | nil => exact h
  | cons c cells ih => exact ih h.2

/-- The stack and the memory of a state. -/
structure Vm.Holds (s : Vm) (cells : List (BitVec 32)) (m : ByteMemory) : Prop where
  sp : s.finshSp = cells.length
  cells : CellsAt s.finshVmStack cells
  memory : s.memory = m

/-- A cell above the others, whose low part has the value. -/
def Top (w : Width) (cells : List (BitVec 32)) (v : BitVec w.bits) (cells' : List (BitVec 32)) :
    Prop :=
  ∃ cell, cells' = cell :: cells ∧ getValue w cell = v

theorem top_dword {cells cells' : List (BitVec 32)} {v : BitVec 32} :
    Top .dword cells v cells' ↔ cells' = v :: cells := by
  constructor
  · rintro ⟨cell, rfl, rfl⟩
    rw [getValue_dword]
  · rintro rfl
    exact ⟨v, rfl, getValue_dword v⟩

namespace Vm

variable {s : Vm} {cells : List (BitVec 32)} {m : ByteMemory}

theorem Holds.top {cell : BitVec 32} (h : s.Holds (cell :: cells) m) :
    s.finshVmStack (s.finshSp - 1) = cell := by
  rw [h.sp]
  exact h.cells.1

theorem Holds.second {x y : BitVec 32} (h : s.Holds (y :: x :: cells) m) :
    s.finshVmStack (s.finshSp - 2) = x := by
  rw [h.sp]
  exact h.cells.2.1

theorem Holds.move (h : s.Holds cells m) (pc : Nat) : Holds { s with finshPc := pc } cells m :=
  ⟨h.sp, h.cells, h.memory⟩

/-- A cell above those at the bottom takes the place of the others. -/
theorem Holds.replace (top : List (BitVec 32)) (h : s.Holds (top ++ cells) m) {n : Nat}
    (hn : n = cells.length) (cell : BitVec 32) (pc : Nat) (m' : ByteMemory) :
    Holds ⟨Function.update s.finshVmStack n cell, n + 1, pc, m'⟩ (cell :: cells) m' := by
  subst hn
  exact ⟨rfl, ⟨Function.update_self _ _ _, h.cells.drop.update (Nat.le_refl _) cell⟩, rfl⟩

theorem Holds.push (h : s.Holds cells m) (hroom : cells.length < finshStackMax) (w : Width)
    (v : BitVec w.bits) :
    ∃ s' cells', s.push w v = .ok s' ∧ Top w cells v cells' ∧ s'.Holds cells' m ∧
      s'.finshPc = s.finshPc := by
  have hlt : s.finshSp < finshStackMax := h.sp ▸ hroom
  let cell := setValue w (s.finshVmStack s.finshSp) v
  refine ⟨_, cell :: cells, if_pos hlt, ⟨cell, rfl, getValue_setValue w _ v⟩, ?_, rfl⟩
  have hreplace := h.replace [] h.sp cell s.finshPc m
  exact ⟨hreplace.sp, hreplace.cells, h.memory⟩

end Vm

/-! ## One operation -/

section Operations

variable {calls : Syscalls} {cells : List (BitVec 32)}

theorem runs_op {s : Vm} {op : Op} {operand : List (BitVec 8)} {r : Except Fault Vm}
    (hexec : ∀ text, operand <+: text.drop (s.finshPc + 1) →
      op.exec calls text { s with finshPc := s.finshPc + 1 } = r)
    (hpc : ∀ s', r = .ok s' → s'.finshPc = s.finshPc + 1 + operand.length) :
    Runs (vm calls) (op.code :: operand) s r := by
  refine Runs.step (List.cons_ne_nil _ _) (fun text hcode => ?_) fun s' hs' => ?_
  · have hoperand : operand <+: text.drop (s.finshPc + 1) :=
      prefix_second (show [op.code] ++ operand <+: text.drop s.finshPc from hcode)
    obtain ⟨rest, hrest⟩ := hcode
    show finshVmStep calls text s = r
    have hdrop : text.drop s.finshPc = op.code :: (operand ++ rest) := hrest.symm
    rw [finshVmStep, hdrop]
    simp only [opTable_code]
    exact hexec text hoperand
  · show s'.finshPc = s.finshPc + (operand.length + 1)
    rw [hpc s' hs']
    omega

theorem does_ld (w : Width) (v : BitVec w.bits) (hroom : cells.length < finshStackMax) :
    Does (vm calls) Vm.Holds ((Op.ld w).code :: valueBytes w v) cells (pure v) (Top w cells) := by
  intro s m hs
  obtain ⟨s', cells', hpush, htop, hs', hpc⟩ := (hs.move (s.finshPc + 1 + w.bytes)).push hroom w v
  refine ⟨s', cells', htop, hs', runs_op (fun text htext => ?_) ?_⟩
  · show getBytes w (text.drop (s.finshPc + 1)) >>= _ = _
    rw [getBytes_valueBytes htext]
    exact hpush
  · rintro _ ⟨⟩
    rw [hpc, length_valueBytes]

theorem does_ldValue (w : Width) (a : BitVec 32) (hroom : cells.length < finshStackMax) :
    Does (vm calls) Vm.Holds (addressed (.ldValue w) a) cells
      (do return loadValue w (← get) a) (Top w cells) := by
  intro s m hs
  obtain ⟨s', cells', hpush, htop, hs', hpc⟩ :=
    (hs.move (s.finshPc + 1 + 4)).push hroom w (loadValue w m a)
  refine ⟨s', cells', htop, hs', runs_op (fun text htext => ?_) ?_⟩
  · show getBytes .dword (text.drop (s.finshPc + 1)) >>= _ = _
    rw [getBytes_valueBytes htext, ← hs.memory] at *
    exact hpush
  · rintro _ ⟨⟩
    exact hpc

theorem does_ldValueStack (w : Width) (a : BitVec 32) :
    Does (vm calls) Vm.Holds [(Op.ldValueStack w).code] (a :: cells)
      (do return loadValue w (← get) a) (Top w cells) := by
  intro s m hs
  have hsp : ¬ s.finshSp < 1 := by simp [hs.sp]
  have hplace : s.finshSp - 1 = cells.length := by simp [hs.sp]
  let cell := setValue w a (loadValue w m a)
  have hreplace := Vm.Holds.replace [a] hs hplace cell (s.finshPc + 1) m
  refine ⟨_, cell :: cells, ⟨cell, rfl, getValue_setValue w _ _⟩, hreplace,
    runs_op (fun text _ => ?_) ?_⟩
  · rw [Op.exec, if_neg hsp, hs.top, hs.memory, Nat.sub_add_cancel (by omega)]
  · rintro _ ⟨⟩
    rfl

theorem exec_bin {s : Vm} {m : ByteMemory} {x y : BitVec 32} (op : BinOp) (w : Width)
    (hs : s.Holds (y :: x :: cells) m) (text : List (BitVec 8)) :
    (Op.bin op w).exec calls text { s with finshPc := s.finshPc + 1 } =
      op.eval w (getValue w x) (getValue w y) >>= fun v => .ok
        ⟨Function.update s.finshVmStack (s.finshSp - 2) (setValue w x v), s.finshSp - 2 + 1,
          s.finshPc + 1, m⟩ := by
  have hsp : ¬ s.finshSp < 2 := by simp [hs.sp]
  rw [Op.exec, if_neg hsp, hs.top, hs.second, ← hs.memory,
    show s.finshSp - 2 + 1 = s.finshSp - 1 by omega]
  rfl

theorem does_bin (op : BinOp) (w : Width) (x y : BitVec 32) :
    Does (vm calls) Vm.Holds [(Op.bin op w).code] (y :: x :: cells)
      (op.eval w (getValue w x) (getValue w y) : Except Fault _) (Top w cells) := by
  refine Does.lift (fun v hv s m hs => ?_) fun e s m hv hs => ?_
  · have hplace : s.finshSp - 2 = cells.length := by simp [hs.sp]
    have hreplace := Vm.Holds.replace [y, x] hs hplace (setValue w x v) (s.finshPc + 1) m
    refine ⟨_, _, ⟨_, rfl, getValue_setValue w x v⟩, hreplace, runs_op (fun text _ => ?_) ?_⟩
    · rw [exec_bin op w hs, hv]
      rfl
    · rintro _ ⟨⟩
      rfl
  · refine runs_op (fun text _ => ?_) (by rintro _ ⟨⟩)
    rw [exec_bin op w hs, hv]
    rfl

theorem does_bw (w : Width) (x : BitVec 32) :
    Does (vm calls) Vm.Holds [(Op.bw w).code] (x :: cells) (pure (~~~ getValue w x))
      (Top w cells) := by
  intro s m hs
  have hsp : ¬ s.finshSp < 1 := by simp [hs.sp]
  have hplace : s.finshSp - 1 = cells.length := by simp [hs.sp]
  have hreplace :=
    Vm.Holds.replace [x] hs hplace (setValue w x (~~~ getValue w x)) (s.finshPc + 1) m
  refine ⟨_, _, ⟨_, rfl, getValue_setValue w x _⟩, hreplace, runs_op (fun text _ => ?_) ?_⟩
  · rw [Op.exec, if_neg hsp, hs.top, ← hs.memory, Nat.sub_add_cancel (by omega)]
  · rintro _ ⟨⟩
    rfl

theorem does_st (w : Width) (a x : BitVec 32) :
    Does (vm calls) Vm.Holds [(Op.st w).code] (x :: a :: cells)
      (modify (storeValue w a (getValue w x)))
      (fun _ cells' => cells' = a :: cells) := by
  intro s m hs
  have hsp : ¬ s.finshSp < 2 := by simp [hs.sp]
  refine ⟨⟨s.finshVmStack, s.finshSp - 1, s.finshPc + 1, storeValue w a (getValue w x) m⟩, _, rfl,
    ⟨by simp [hs.sp], hs.cells.2, rfl⟩, runs_op (fun text _ => ?_) ?_⟩
  · rw [Op.exec, if_neg hsp, hs.top, hs.second, hs.memory]
  · rintro _ ⟨⟩
    rfl

theorem does_pop {α : Type} (v : α) (x : BitVec 32) :
    Does (vm calls) Vm.Holds [Op.pop.code] (x :: cells) (pure v)
      (fun u cells' => u = v ∧ cells' = cells) := by
  intro s m hs
  have hsp : ¬ s.finshSp < 1 := by simp [hs.sp]
  refine ⟨⟨s.finshVmStack, s.finshSp - 1, s.finshPc + 1, m⟩, _, ⟨rfl, rfl⟩,
    ⟨by simp [hs.sp], hs.cells.2, rfl⟩, runs_op (fun text _ => ?_) ?_⟩
  · rw [Op.exec, if_neg hsp, hs.memory]
  · rintro _ ⟨⟩
    rfl

theorem does_noOp {α : Type} (v : α) :
    Does (vm calls) Vm.Holds [Op.noOp.code] cells (pure v)
      (fun u cells' => u = v ∧ cells' = cells) := by
  intro s m hs
  refine ⟨_, _, ⟨rfl, rfl⟩, hs.move (s.finshPc + 1), runs_op (fun text _ => rfl) ?_⟩
  rintro _ ⟨⟩
  rfl

/-- The rest of the text segment. -/
theorem does_zeros {α : Type} (v : α) (n : Nat) :
    Does (vm calls) Vm.Holds (List.replicate n 0) cells (pure v)
      (fun u cells' => u = v ∧ cells' = cells) := by
  induction n with
  | zero => exact Does.pure ⟨rfl, rfl⟩
  | succ n ih =>
    refine (does_noOp v).bind (g := pure) fun u cells' hu => ?_
    obtain ⟨rfl, rfl⟩ := hu
    exact ih

/-! ### A call -/

theorem CellsAt.map_range {finshVmStack : Nat → BitVec 32} (h : CellsAt finshVmStack cells) :
    (List.range cells.length).map finshVmStack = cells.reverse := by
  induction cells with
  | nil => rfl
  | cons cell cells ih =>
    rw [List.length_cons, List.range_succ, List.map_append, ih h.2, List.reverse_cons]
    exact congrArg (fun c => cells.reverse ++ [c]) h.1

theorem CellsAt.parameters {finshVmStack : Nat → BitVec 32} {vs : List (BitVec 32)}
    (h : CellsAt finshVmStack (vs.reverse ++ cells)) :
    (List.range vs.length).map (fun i => finshVmStack (cells.length + i)) = vs := by
  have hall := h.map_range
  rw [List.length_append, List.length_reverse, Nat.add_comm, List.range_add, List.map_append,
    List.reverse_append, List.reverse_reverse, List.map_map] at hall
  exact (List.append_inj hall (by simp)).2

theorem exec_call {s : Vm} {text : List (BitVec 8)} {n : Nat} {b : BitVec 8}
    (hb : getBytes .byte (text.drop (s.finshPc + 1)) = .ok b) (hn : b.toNat = n)
    (hmax : n ≤ parametersMax) (hsp : n + 1 ≤ s.finshSp) :
    Op.call.exec calls text { s with finshPc := s.finshPc + 1 } =
      let p :=
        calls (s.finshVmStack (s.finshSp - n - 1)) (if n = 0 then [0] else s.below n) s.memory
      Vm.push .dword p.1 ⟨s.finshVmStack, s.finshSp - n - 1, s.finshPc + 2, p.2⟩ := by
  have hfits : ¬ parametersMax < b.toNat := by omega
  have hcells : ¬ s.finshSp < b.toNat + 1 := by omega
  subst hn
  rw [Op.exec, hb]
  exact (if_neg hfits).trans (if_neg hcells)

theorem does_call (f : BitVec 32) (vs : List (BitVec 32)) (hvs : vs.length ≤ parametersMax)
    (hroom : cells.length < finshStackMax) :
    Does (vm calls) Vm.Holds [Op.call.code, BitVec.ofNat 8 vs.length] (vs.reverse ++ f :: cells)
      (modifyGet (calls f (passed vs))) (Top .dword cells) := by
  intro s m hs
  have hn : (BitVec.ofNat 8 vs.length).toNat = vs.length := by
    rw [parametersMax] at hvs
    simp only [BitVec.toNat_ofNat]
    omega
  have hsp : s.finshSp = vs.length + (cells.length + 1) := by simp [hs.sp]
  have hf : s.finshVmStack (s.finshSp - vs.length - 1) = f := by
    rw [hsp, show vs.length + (cells.length + 1) - vs.length - 1 = cells.length by omega]
    exact hs.cells.drop.1
  have hbelow : s.below vs.length = vs := by
    rw [Vm.below, hsp, show vs.length + (cells.length + 1) - vs.length = cells.length + 1 by omega]
    exact hs.cells.parameters
  have hpassed : (if vs.length = 0 then [0] else vs) = passed vs := by cases vs <;> rfl
  let p := calls f (passed vs) m
  have hlower :
      Vm.Holds ⟨s.finshVmStack, s.finshSp - vs.length - 1, s.finshPc + 2, p.2⟩ cells p.2 :=
    ⟨by simp only [hsp]; omega, hs.cells.drop.2, rfl⟩
  obtain ⟨s', cells', hpush, htop, hs', hpc⟩ := hlower.push hroom .dword p.1
  refine ⟨s', cells', htop, hs', runs_op (fun text htext => ?_) ?_⟩
  · have hb := getBytes_valueBytes (w := .byte) (v := BitVec.ofNat 8 vs.length) htext
    rw [exec_call hb hn hvs (by omega), hf, hbelow, hpassed, hs.memory]
    exact hpush
  · rintro _ ⟨⟩
    exact hpc

/-- `id = id + 1`, or `id - 1`, with the address of `id` on the stack. -/
theorem does_addOne (count : Count) (w : Width) (a : BitVec 32)
    (hroom : cells.length + 3 ≤ finshStackMax) :
    Does (vm calls) Vm.Holds (addOne count.op a w) (a :: cells)
      (do modify (storeValue w a (count.apply (loadValue w (← get) a))))
      (fun _ cells' => cells' = a :: cells) := by
  have hread : Does (vm calls) Vm.Holds (addressed (.ldValue w) a ++
      ((Op.ld w).code :: valueBytes w (BitVec.ofNat _ 1))) (a :: cells)
      (do return loadValue w (← get) a) (fun v cells' => ∃ x y, cells' = y :: x :: a :: cells ∧
        getValue w x = v ∧ getValue w y = BitVec.ofNat _ 1) := by
    refine (does_ldValue w a (by simp; omega)).bind (g := pure) fun v cells' hv => ?_
    obtain ⟨x, rfl, rfl⟩ := hv
    have hone := @does_ld calls (x :: a :: cells) w (BitVec.ofNat _ 1) (by simp; omega)
    refine (hone.keep (getValue w x)).mono fun v cells' hy => ?_
    obtain ⟨rfl, y, rfl, hy⟩ := hy
    exact ⟨x, y, rfl, rfl, hy⟩
  refine hread.bind (g := fun v => modify (storeValue w a (count.apply v))) fun v cells' hv => ?_
  obtain ⟨x, y, rfl, rfl, hy⟩ := hv
  have hadd : (count.op.eval w (getValue w x) (getValue w y) : Except Fault _) =
      .ok (count.apply (getValue w x)) := by
    rw [hy]
    cases count <;> rfl
  have hbin : Does (vm calls) Vm.Holds [(Op.bin count.op w).code] (y :: x :: a :: cells)
      (pure (count.apply (getValue w x))) (Top w (a :: cells)) := by
    have h := @does_bin calls (a :: cells) count.op w x y
    rwa [hadd] at h
  refine hbin.bind (g := fun v => modify (storeValue w a v)) fun v cells' hv => ?_
  obtain ⟨z, rfl, rfl⟩ := hv
  exact does_st w a z

/-- The value is loaded again from where it has been stored. -/
theorem does_assign (w : Width) (a x : BitVec 32) :
    Does (vm calls) Vm.Holds [(Op.st w).code, (Op.ldValueStack w).code] (x :: a :: cells)
      (do modify (storeValue w a (getValue w x)); return getValue w x) (Top w cells) := by
  have hload : Does (vm calls) Vm.Holds [(Op.st w).code, (Op.ldValueStack w).code] (x :: a :: cells)
      (do modify (storeValue w a (getValue w x)); return loadValue w (← get) a) (Top w cells) := by
    refine (does_st w a x).bind (g := fun _ => do return loadValue w (← get) a)
      fun _ cells' hcells => ?_
    subst hcells
    exact does_ldValueStack w a
  have hagain : (do modify (storeValue w a (getValue w x)); return loadValue w (← get) a : Eval _) =
      (do modify (storeValue w a (getValue w x)); return getValue w x) := by
    funext m
    exact congrArg (fun v => Except.ok (v, storeValue w a (getValue w x) m)) (load_store w a _ m)
  rwa [hagain] at hload

/-- The double word that is loaded again has the new value in its low part. -/
theorem does_precount (count : Count) (w : Width) (a : BitVec 32)
    (hroom : cells.length + 3 ≤ finshStackMax) :
    Does (vm calls) Vm.Holds (addOne count.op a w ++ [(Op.ldValueStack .dword).code]) (a :: cells)
      (do
        let v := count.apply (loadValue w (← get) a)
        modify (storeValue w a v)
        return v) (Top w cells) := by
  have hload : Does (vm calls) Vm.Holds
      (addOne count.op a w ++ [(Op.ldValueStack .dword).code]) (a :: cells)
      (do
        modify (storeValue w a (count.apply (loadValue w (← get) a)))
        return loadValue .dword (← get) a) (Top .dword cells) := by
    refine (does_addOne count w a hroom).bind (g := fun _ => do return loadValue .dword (← get) a)
      fun _ cells' hcells => ?_
    subst hcells
    exact does_ldValueStack .dword a
  have hlow := hload.map (f := fun v => v.setWidth w.bits) (R := Top w cells) fun v cells' hv => by
    obtain rfl := top_dword.mp hv
    exact ⟨v, rfl, rfl⟩
  have hagain : (do
      modify (storeValue w a (count.apply (loadValue w (← get) a)))
      return (loadValue .dword (← get) a).setWidth w.bits : Eval _) = (do
        let v := count.apply (loadValue w (← get) a)
        modify (storeValue w a v)
        return v) := by
    funext m
    let v := count.apply (loadValue w m a)
    exact congrArg (fun u => Except.ok (u, storeValue w a v m))
      ((setWidth_load_dword w (storeValue w a v m) a).trans (load_store w a v m))
  exact hagain ▸ hlow

theorem does_postcount (count : Count) (w : Width) (a x : BitVec 32)
    (hroom : cells.length + 4 ≤ finshStackMax) :
    Does (vm calls) Vm.Holds (addressed (.ld .dword) a ++ addOne count.op a w ++ [Op.pop.code])
      (x :: cells) (do
        modify (storeValue w a (count.apply (loadValue w (← get) a)))
        return getValue w x) (Top w cells) := by
  have hcount : Does (vm calls) Vm.Holds (addressed (.ld .dword) a ++ addOne count.op a w)
      (x :: cells) (do modify (storeValue w a (count.apply (loadValue w (← get) a))))
      (fun _ cells' => cells' = a :: x :: cells) := by
    refine ((does_ld .dword a (by rw [List.length_cons]; omega)).keep ()).bind
      (g := fun _ => do modify (storeValue w a (count.apply (loadValue w (← get) a))))
      fun _ cells' ha => ?_
    obtain rfl := top_dword.mp ha.2
    exact does_addOne count w a (by rw [List.length_cons]; omega)
  refine hcount.bind (g := fun _ => pure (getValue w x)) fun _ cells' hcells => ?_
  subst hcells
  refine (does_pop (getValue w x) a).mono fun v cells' hv => ?_
  obtain ⟨rfl, rfl⟩ := hv
  exact ⟨x, rfl, rfl⟩

end Operations

/-! ## Terms -/

/-- What a term leaves above the cells. -/
def Kind.Shows (cells : List (BitVec 32)) : (k : Kind) → k.Value → List (BitVec 32) → Prop
  | .place _, address, cells' => cells' = address :: cells
  | .value _ w, v, cells' => Top w cells v cells'
  | .args n, vs, cells' => vs.length = n ∧ cells' = vs.reverse ++ cells

/-- The code of a term does what the term means, above whatever is on the stack. -/
theorem Term.does (calls : Syscalls) (e : Term k) : ∀ {cells : List (BitVec 32)},
    cells.length + e.depth ≤ finshStackMax →
      Does (vm calls) Vm.Holds e.code cells (e.eval calls) (k.Shows cells) := by
  -- the code of the operands runs first, each with what it needs of the stack above the ones
  -- before
  induction e with
  | name x =>
    exact fun hroom => (does_ld .dword x.address hroom).mono fun _ _ => top_dword.mp
  | deref p ih => exact fun hroom => (ih hroom).mono fun _ _ => top_dword.mp
  | char v => exact fun hroom => does_ld .byte v hroom
  | literal l v => exact fun hroom => does_ld .dword v hroom
  | @read w x => exact fun hroom => does_ldValue w x.address hroom
  | @getvalue w p ih =>
    intro cells hroom
    refine (ih hroom).bind fun a cells' ha => ?_
    -- an address was left on the stack, and is replaced by what is stored there
    obtain rfl := top_dword.mp ha
    exact does_ldValueStack w a
  | getaddr x ih => exact fun hroom => (ih hroom).mono fun _ _ => top_dword.mpr
  | @bin w v t u op a b ha hb iha ihb =>
    intro cells hroom
    rw [Term.depth] at hroom
    refine (iha (by omega)).bind fun x cells' hx => ?_
    obtain ⟨cx, rfl, rfl⟩ := hx
    refine (ihb (by simp; omega)).bind fun y cells' hy => ?_
    obtain ⟨cy, rfl, rfl⟩ := hy
    rw [setWidth_getValue ha, setWidth_getValue hb]
    exact does_bin op w cx cy
  | @bitwise w v a ha ih =>
    intro cells hroom
    refine (ih hroom).bind fun x cells' hx => ?_
    obtain ⟨cx, rfl, rfl⟩ := hx
    rw [setWidth_getValue ha]
    exact does_bw w cx
  | @assign w t v x a ha ihx iha =>
    intro cells hroom
    rw [Term.depth] at hroom
    -- the code of the right side is behind that of the address
    refine (ihx (by omega)).bind fun (address : BitVec 32) cells' hx => ?_
    cases hx
    refine (iha (by rw [List.length_cons]; omega)).bind fun y cells' hy => ?_
    obtain ⟨cy, rfl, rfl⟩ := hy
    rw [setWidth_getValue ha]
    exact does_assign w address cy
  | @precount w count x =>
    intro cells hroom
    refine ((does_ld .dword x.address (by rw [Term.depth] at hroom; omega)).keep ()).bind
      (g := fun _ => (Term.precount count x).eval calls) fun _ cells' hx => ?_
    obtain rfl := top_dword.mp hx.2
    exact does_precount count w x.address hroom
  | @postcount w count x =>
    intro cells hroom
    rw [Term.depth] at hroom
    refine (does_ldValue w x.address (by omega)).bind (g := fun v => do
      modify (storeValue w x.address (count.apply (loadValue w (← get) x.address)))
      return v) fun v cells' hv => ?_
    obtain ⟨cell, rfl, rfl⟩ := hv
    exact does_postcount count w x.address cell hroom
  | @func n f args hn ih =>
    intro cells hroom
    rw [Term.depth] at hroom
    refine ((does_ld .dword f.target (by omega)).keep ()).bind
      (g := fun _ => (Term.func f args hn).eval calls) fun _ cells' hv => ?_
    obtain rfl := top_dword.mp hv.2
    refine (ih (by rw [List.length_cons]; omega)).bind fun vs cells' hvs => ?_
    obtain ⟨hlen, rfl⟩ := hvs
    have hcall := @does_call calls cells f.target vs (hlen ▸ hn) (by omega)
    rwa [hlen] at hcall
  | noArgs => exact fun _ => Does.pure ⟨rfl, rfl⟩
  | arg a rest iha ihrest =>
    intro cells hroom
    rw [Term.depth] at hroom
    refine (iha (by omega)).bind fun (v : BitVec 32) cells' hv => ?_
    obtain rfl := top_dword.mp hv
    refine (ihrest (by rw [List.length_cons]; omega)).map fun vs cells' hvs => ?_
    obtain ⟨hlen, rfl⟩ := hvs
    exact ⟨congrArg (· + 1) hlen, by simp⟩

/-! ## Statements -/

structure Statement where
  type : Option Width
  width : Width
  term : Term (.value type width)

/-- The statements of a line are siblings. -/
def Statement.trees (checked : Bool) : List Statement → Node
  | [] => .nil
  | s :: rest => s.term.tree checked (trees checked rest)

def Statement.codes : List Statement → List (BitVec 8)
  | [] => []
  | [s] => s.term.code
  | s :: s' :: rest => s.term.code ++ ([Op.pop.code] ++ codes (s' :: rest))

/-- The value of a line is that of its last statement. -/
def Statement.evals (calls : Syscalls) : List Statement → Eval (Option (Σ w : Width, BitVec w.bits))
  | [] => pure none
  | [s] => do return some ⟨s.width, ← s.term.eval calls⟩
  | s :: s' :: rest => do
    let _ ← s.term.eval calls
    evals calls (s' :: rest)

theorem Statement.typeCheck (statements : List Statement) (errno : Option FinshError) :
    finshTypeCheck (trees false statements) 0 errno = (trees true statements, errno) := by
  induction statements with
  | nil => rfl
  | cons s rest ih => exact s.term.typeCheck ih

theorem Statement.compileStatements_trees (statements : List Statement) (c : Compiler) :
    compileStatements (trees true statements) c = .ok (c.emit (codes statements)) := by
  induction statements generalizing c with
  | nil => simp [trees, codes, compileStatements, Compiler.emit]
  | cons s rest ih =>
    obtain ⟨info, child, -, hhead⟩ := s.term.tree_head trivial
    -- a statement is compiled with its siblings cut off
    have hone := s.term.compiled .nil c
    rw [hhead] at hone
    rw [trees, hhead, compileStatements, hone]
    cases rest with
    | nil => rfl
    | cons s' rest =>
      obtain ⟨info', child', -, hhead'⟩ := s'.term.tree_head trivial
      have hrest := ih ((c.emit s.term.code).emit [Op.pop.code])
      rw [Compiler.emit_emit, Compiler.emit_emit] at hrest
      rw [codes, ← List.append_assoc, ← hrest, trees, hhead', ← Compiler.emit_emit]
      rfl

/-- What a line leaves on the empty stack. -/
def Statement.Shown : Option (Σ w : Width, BitVec w.bits) → List (BitVec 32) → Prop
  | none, cells => cells = []
  | some v, cells => Top v.1 [] v.2 cells

theorem Statement.does (calls : Syscalls) : (statements : List Statement) →
    (∀ s ∈ statements, s.term.depth ≤ finshStackMax) →
      Does (vm calls) Vm.Holds (codes statements) [] (evals calls statements) Shown
  | [], _ => Does.pure rfl
  | [s], hdepth =>
    (s.term.does calls (by simpa using hdepth s (by simp))).map fun _ _ hv => hv
  | s :: s' :: rest, hdepth => by
    have hs : Does (vm calls) Vm.Holds s.term.code [] _ _ :=
      s.term.does calls (by simpa using hdepth s (by simp))
    refine hs.bind fun v cells hv => ?_
    obtain ⟨cell, rfl, -⟩ := hv
    refine (does_pop () cell).bind (g := fun _ => evals calls (s' :: rest)) fun _ cells hcells => ?_
    obtain ⟨-, rfl⟩ := hcells
    exact Statement.does calls (s' :: rest) fun t ht => hdepth t (List.mem_cons_of_mem _ ht)

/-- A line is compiled without an error, and the machine finds what the line means: the value of its
    last statement alone on the stack, and the memory as the statements leave it. -/
theorem finshCompilerRun_finshVmRun (calls : Syscalls) (statements : List Statement)
    (finshVmStack : Nat → BitVec 32) (errno : Option FinshError) (memory : ByteMemory)
    (hlength : (Statement.codes statements).length ≤ finshTextMax)
    (hdepth : ∀ s ∈ statements, s.term.depth ≤ finshStackMax) :
    ∃ text stack, finshCompilerRun (Statement.trees false statements) finshVmStack errno =
        .ok (text, stack, errno) ∧
      (∀ v m, Statement.evals calls statements memory = .ok (v, m) →
        ∃ s cells, finshVmRun calls text stack memory = .ok s ∧ Statement.Shown v cells ∧
          s.Holds cells m) ∧
      ∀ fault, Statement.evals calls statements memory = .error fault →
        finshVmRun calls text stack memory = .error fault := by
  let code := Statement.codes statements
  let zeros := List.replicate (finshTextMax - code.length) (0 : BitVec 8)
  let stack := Function.update finshVmStack 0 0
  refine ⟨code ++ zeros, stack, ?_, ?_⟩
  · rw [finshCompilerRun, Statement.typeCheck]
    simp only [Statement.compileStatements_trees]
    exact if_neg (Nat.not_lt.mpr hlength)
  · have hcode := (Statement.does calls statements hdepth).bind (g := pure) fun v cells hv =>
      (does_zeros v (finshTextMax - code.length)).mono fun u cells' hu => by
        obtain ⟨rfl, rfl⟩ := hu
        exact hv
    rw [bind_pure] at hcode
    obtain ⟨hok, herror⟩ := hcode.whole (s := ⟨stack, 0, 0, memory⟩) ⟨rfl, trivial, rfl⟩ rfl
    refine ⟨fun v m hv => ?_, herror⟩
    exact hok v m hv

/-- `x = 5 << 3; x++;` -/
theorem finshCompilerRun_finshVmRun_shift :
    let x : Var .dword := ⟨{ ptr := 0x20000000, type := .int }, rfl⟩
    let shift : Statement := ⟨_, _, .assign (.name (.var x))
      (.bin .shl (.literal .int 5) (.literal .int 3) (Nat.le_refl _) (Nat.le_refl _))
      (Nat.le_refl _)⟩
    ∃ text stack s,
      finshCompilerRun (Statement.trees false [shift, ⟨_, _, .postcount .up x⟩]) (fun _ => 0) none =
        .ok (text, stack, none) ∧
      finshVmRun (fun _ _ m => (0, m)) text stack (fun _ => 0) = .ok s ∧
      s.finshSp = 1 ∧ s.finshVmStack 0 = 40 ∧ loadValue .dword s.memory x.address = 41 := by
  intro x shift
  obtain ⟨text, stack, hcompile, hrun, -⟩ := finshCompilerRun_finshVmRun (fun _ _ m => (0, m))
    [shift, ⟨_, _, .postcount .up x⟩] (fun _ => 0) none (fun _ => 0) (by decide) (by
      intro s hs
      simp only [List.mem_cons, List.not_mem_nil, or_false] at hs
      obtain rfl | rfl := hs <;> decide)
  let stored := storeValue .dword x.address 40 fun _ => 0
  have hmeaning : Statement.evals (fun _ _ m => (0, m)) [shift, ⟨_, _, .postcount .up x⟩]
      (fun _ => 0) = .ok (some ⟨.dword, loadValue .dword stored x.address⟩,
        storeValue .dword x.address (loadValue .dword stored x.address + 1) stored) := rfl
  rw [load_store] at hmeaning
  obtain ⟨s, cells, hs, hshown, hholds⟩ := hrun _ _ hmeaning
  obtain rfl := top_dword.mp hshown
  refine ⟨text, stack, s, hcompile, hs, hholds.sp, hholds.cells.1, ?_⟩
  rw [hholds.memory]
  exact load_store .dword x.address 41 stored

end PandoraRobot.Finsh
