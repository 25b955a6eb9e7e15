import Mathlib.Data.List.Basic

/-! # Bytecode machines

A machine reads an instruction from a text, at its program counter, and goes on until the counter
has left the text.  A stretch of code takes it from a state to an outcome, wherever in a text the
code stands.  Stretches of code that stand behind each other compose.
-/

namespace PandoraRobot.Bytecode

/-- A machine with states `S` and errors `E`, whose texts are made of `B`. -/
structure Machine (S E B : Type) where
  pc : S → Nat
  step : List B → S → Except E S

variable {S E B : Type} (M : Machine S E B)

/-- `n` instructions, or fewer if the counter leaves the text. -/
def Machine.run (text : List B) : Nat → S → Except E S
  | 0, s => .ok s
  | n + 1, s => if M.pc s < text.length then M.step text s >>= Machine.run text n else .ok s

/-- Where `code` stands at the program counter of `s`, it leads to the outcome `r`, and the counter
    to the end of the code. -/
def Runs (code : List B) (s : S) (r : Except E S) : Prop :=
  ∀ text, code <+: text.drop (M.pc s) → ∃ n ≤ code.length, M.run text n s = r ∧
    ∀ s', r = .ok s' → M.pc s' = M.pc s + code.length

variable {M} {code code' text : List B} {s s₁ s' : S} {r : Except E S} {e : E} {n m : Nat}

theorem run_add : M.run text (n + m) s = M.run text n s >>= M.run text m := by
  induction n generalizing s with
  | zero => simp [Machine.run, bind, Except.bind]
  | succ n ih =>
    rw [Nat.succ_add, Machine.run, Machine.run]
    split
    · cases M.step text s with
      | error e => rfl
      | ok s₁ => exact ih
    case isFalse hout =>
      show Except.ok s = M.run text m s
      cases m with
      | zero => rfl
      | succ m => rw [Machine.run, if_neg hout]

/-- A machine whose counter is outside the text stands still. -/
theorem run_outside (h : text.length ≤ M.pc s) : M.run text n s = .ok s := by
  cases n with
  | zero => rfl
  | succ n => rw [Machine.run, if_neg (by omega)]

theorem Runs.nil (s : S) : Runs M [] s (.ok s) := by
  intro text _
  refine ⟨0, Nat.le_refl _, rfl, ?_⟩
  rintro _ ⟨⟩
  simp

theorem prefix_lt (h : code <+: text.drop n) (hne : code ≠ []) : n < text.length := by
  have hle := h.length_le
  have hpos := List.length_pos_of_ne_nil hne
  rw [List.length_drop] at hle
  omega

/-- One instruction. -/
theorem Runs.step (hne : code ≠ [])
    (hstep : ∀ text, code <+: text.drop (M.pc s) → M.step text s = r)
    (hpc : ∀ s', r = .ok s' → M.pc s' = M.pc s + code.length) : Runs M code s r := by
  intro text hcode
  refine ⟨1, List.length_pos_of_ne_nil hne, ?_, hpc⟩
  rw [Machine.run, if_pos (prefix_lt hcode hne), hstep text hcode]
  cases r with
  | ok s' => rfl
  | error e => rfl

theorem prefix_second (h : code ++ code' <+: text.drop n) :
    code' <+: text.drop (n + code.length) := by
  obtain ⟨rest, hrest⟩ := h
  refine ⟨rest, ?_⟩
  rw [← List.drop_drop, ← hrest, List.append_assoc, List.drop_left]

/-- The code behind goes on where the code in front has led. -/
theorem Runs.append (h : Runs M code s (.ok s₁)) (h' : Runs M code' s₁ r) :
    Runs M (code ++ code') s r := by
  intro text hcode
  obtain ⟨n, hn, hrun, hpc⟩ := h text ((List.prefix_append code code').trans hcode)
  have hpc₁ := hpc s₁ rfl
  obtain ⟨m, hm, hrun', hpc'⟩ := h' text (hpc₁ ▸ prefix_second hcode)
  refine ⟨n + m, by rw [List.length_append]; omega, ?_, fun s' hs' => ?_⟩
  · rw [run_add, hrun]
    exact hrun'
  · rw [hpc' s' hs', hpc₁, List.length_append]
    omega

/-- An error in the code in front. -/
theorem Runs.fail (h : Runs M code s (.error e)) : Runs M (code ++ code') s (.error e) := by
  intro text hcode
  obtain ⟨n, hn, hrun, -⟩ := h text ((List.prefix_append code code').trans hcode)
  refine ⟨n, by rw [List.length_append]; omega, hrun, ?_⟩
  rintro _ ⟨⟩

/-- A text that is run from its start. -/
theorem Runs.whole (h : Runs M text s r) (hpc : M.pc s = 0) : M.run text text.length s = r := by
  obtain ⟨n, hn, hrun, hend⟩ := h text (by simp [hpc])
  rw [← Nat.add_sub_cancel' hn, run_add, hrun]
  cases r with
  | error e => rfl
  | ok s' =>
    refine run_outside ?_
    rw [hend s' rfl, hpc]
    omega

/-! ## Code that carries out a computation

`Holds s c m` says that the state `s` is what `c` and `m` stand for: `c` is the part of it that the
code moves its operands through, and `m` the part that the computation changes. -/

variable {C σ α β : Type} {Holds : S → C → σ → Prop} {c : C} {x : StateT σ (Except E) α}
  {Q Q' : α → C → Prop} {R : β → C → Prop}

variable (M Holds) in
/-- From `c` on, the code carries out `x`, and `Q` tells what it leaves of the result. -/
def Does (code : List B) (c : C) (x : StateT σ (Except E) α) (Q : α → C → Prop) : Prop :=
  ∀ s m, Holds s c m →
    match x m with
    | .ok (v, m') => ∃ s' c', Q v c' ∧ Holds s' c' m' ∧ Runs M code s (.ok s')
    | .error e => Runs M code s (.error e)

theorem Does.pure {v : α} (h : Q v c) : Does M Holds [] c (pure v) Q :=
  fun s _ hs => ⟨s, c, h, hs, .nil s⟩

theorem Does.mono (h : Does M Holds code c x Q) (himp : ∀ v c', Q v c' → Q' v c') :
    Does M Holds code c x Q' := by
  intro s m hs
  have hx := h s m hs
  cases hr : x m with
  | error e =>
    rw [hr] at hx
    exact hx
  | ok p =>
    rw [hr] at hx
    obtain ⟨s', c', hv, hs', hrun⟩ := hx
    exact ⟨s', c', himp _ _ hv, hs', hrun⟩

theorem Does.bind {g : α → StateT σ (Except E) β} (h : Does M Holds code c x Q)
    (h' : ∀ v c', Q v c' → Does M Holds code' c' (g v) R) :
    Does M Holds (code ++ code') c (x >>= g) R := by
  intro s m hs
  have hx := h s m hs
  show match x m >>= fun p => g p.1 p.2 with
    | .ok (v, m') => ∃ s' c', R v c' ∧ Holds s' c' m' ∧ Runs M (code ++ code') s (.ok s')
    | .error e => Runs M (code ++ code') s (.error e)
  cases hr : x m with
  | error e =>
    rw [hr] at hx
    exact hx.fail
  | ok p =>
    obtain ⟨v, m₁⟩ := p
    rw [hr] at hx
    obtain ⟨s₁, c₁, hv, hs₁, hrun⟩ := hx
    have hg := h' v c₁ hv s₁ m₁ hs₁
    show match g v m₁ with
      | .ok (u, m') => ∃ s' c', R u c' ∧ Holds s' c' m' ∧ Runs M (code ++ code') s (.ok s')
      | .error e => Runs M (code ++ code') s (.error e)
    cases hr' : g v m₁ with
    | error e =>
      rw [hr'] at hg
      exact hrun.append hg
    | ok q =>
      rw [hr'] at hg
      obtain ⟨s', c', hu, hs', hrun'⟩ := hg
      exact ⟨s', c', hu, hs', hrun.append hrun'⟩

/-- The same code, and the result in another form. -/
theorem Does.map {f : α → β} (h : Does M Holds code c x Q) (hf : ∀ v c', Q v c' → R (f v) c') :
    Does M Holds code c (x >>= fun v => Pure.pure (f v)) R := by
  have hb := h.bind (g := fun v => Pure.pure (f v)) fun v c' hv => Does.pure (hf v c' hv)
  rwa [List.append_nil] at hb

/-- What the code leaves of a value that is not the result. -/
theorem Does.keep {v : α} (h : Does M Holds code c (Pure.pure v) Q) (u : β) :
    Does M Holds code c (Pure.pure u) (fun u' c' => u' = u ∧ Q v c') := by
  intro s m hs
  obtain ⟨s', c', hv, hs', hrun⟩ := h s m hs
  exact ⟨s', c', ⟨rfl, hv⟩, hs', hrun⟩

/-- A computation that leaves the memory alone, and may fail. -/
theorem Does.lift {r : Except E α} (hok : ∀ v, r = .ok v → Does M Holds code c (Pure.pure v) Q)
    (herror : ∀ e s m, r = .error e → Holds s c m → Runs M code s (.error e)) :
    Does M Holds code c (liftM r) Q := by
  cases r with
  | error e => exact fun s m hs => herror e s m rfl hs
  | ok v => exact hok v rfl

/-- A computation that is carried out by a whole text. -/
theorem Does.whole (h : Does M Holds text c x Q) {m : σ} (hs : Holds s c m) (hpc : M.pc s = 0) :
    (∀ v m', x m = .ok (v, m') →
      ∃ s' c', M.run text text.length s = .ok s' ∧ Q v c' ∧ Holds s' c' m') ∧
    ∀ e, x m = .error e → M.run text text.length s = .error e := by
  have hx := h s m hs
  refine ⟨fun v m' hr => ?_, fun e hr => ?_⟩
  · rw [hr] at hx
    obtain ⟨s', c', hv, hs', hrun⟩ := hx
    exact ⟨s', c', hrun.whole hpc, hv, hs'⟩
  · rw [hr] at hx
    exact hx.whole hpc

end PandoraRobot.Bytecode
