/-! # Runs with outputs

A machine takes inputs, one after the other, and answers each of them.  Two machines that
stay related give the same answers.
-/

namespace PandoraRobot.Trace

variable {A S Q O E : Type}

/-- The state after inputs in a row, and the answers. -/
def run (step : A → S → S × O) : List A → S → S × List O
  | [], s => (s, [])
  | a :: as, s =>
    let (s, o) := step a s
    let (s, os) := run step as s
    (s, o :: os)

theorem run_cons (step : A → S → S × O) (a : A) (as : List A) (s : S) :
    run step (a :: as) s = ((run step as (step a s).1).1,
      (step a s).2 :: (run step as (step a s).1).2) := rfl

/-- Two machines that answer alike and stay related at every valid input do so in every run. -/
theorem run_simulates {step : A → S → S × O} {spec : A → Q → Q × O} {R : S → Q → Prop}
    {V : A → Prop}
    (hstep : ∀ a s q, V a → R s q → (step a s).2 = (spec a q).2 ∧ R (step a s).1 (spec a q).1)
    {as : List A} {s : S} {q : Q} (hvalid : ∀ a ∈ as, V a) (h : R s q) :
    (run step as s).2 = (run spec as q).2 ∧ R (run step as s).1 (run spec as q).1 := by
  induction as generalizing s q with
  | nil => exact ⟨rfl, h⟩
  | cons a as ih =>
    obtain ⟨hanswer, h'⟩ := hstep a s q (hvalid a List.mem_cons_self) h
    obtain ⟨hrest, hlast⟩ := ih (fun b hb => hvalid b (List.mem_cons_of_mem a hb)) h'
    exact ⟨by simp only [run_cons, hanswer, hrest], hlast⟩

/-- The same for a machine whose steps can fail. -/
def runExcept (step : A → S → Except E (S × O)) : List A → S → Except E (S × List O)
  | [], s => .ok (s, [])
  | a :: as, s => do
    let (s, o) ← step a s
    let (s, os) ← runExcept step as s
    pure (s, o :: os)

/-- A machine that can fail, but answers like one that cannot, does not fail. -/
theorem runExcept_simulates {step : A → S → Except E (S × O)} {spec : A → Q → Q × O}
    {R : S → Q → Prop} {V : A → Prop}
    (hstep : ∀ a s q, V a → R s q →
      ∃ s', step a s = .ok (s', (spec a q).2) ∧ R s' (spec a q).1)
    {as : List A} {s : S} {q : Q} (hvalid : ∀ a ∈ as, V a) (h : R s q) :
    ∃ s', runExcept step as s = .ok (s', (run spec as q).2) ∧ R s' (run spec as q).1 := by
  induction as generalizing s q with
  | nil => exact ⟨s, rfl, h⟩
  | cons a as ih =>
    obtain ⟨s₁, hfirst, h₁⟩ := hstep a s q (hvalid a List.mem_cons_self) h
    obtain ⟨s', hrest, h'⟩ := ih (fun b hb => hvalid b (List.mem_cons_of_mem a hb)) h₁
    refine ⟨s', ?_, h'⟩
    simp only [runExcept, hfirst, bind, Except.bind, hrest]
    rfl

/-! ## What holds along a run -/

/-- `P` holds of every input at the state it comes in. -/
def Along (step : A → S → Except E (S × O)) (P : A → S → Prop) : List A → S → Prop
  | [], _ => True
  | a :: as, s => P a s ∧ ∀ s' o, step a s = .ok (s', o) → Along step P as s'

theorem along_cons {step : A → S → Except E (S × O)} {P : A → S → Prop} {a : A} {as : List A}
    {s s' : S} {o : O} (h : step a s = .ok (s', o)) :
    Along step P (a :: as) s ↔ P a s ∧ Along step P as s' := by
  simp [Along, h]

/-- A run of a machine that computes can be tested. -/
instance decidableAlong (step : A → S → Except E (S × O)) (P : A → S → Prop)
    [∀ a s, Decidable (P a s)] : (as : List A) → (s : S) → Decidable (Along step P as s)
  | [], _ => .isTrue trivial
  | a :: as, s =>
    match hstep : step a s with
    | .error _ => decidable_of_iff (P a s) (by simp [Along, hstep])
    | .ok (s', _) =>
      have := decidableAlong step P as s'
      decidable_of_iff (P a s ∧ Along step P as s') (along_cons hstep).symm

/-- What holds along a run holds along its end. -/
theorem Along.of_append {step : A → S → Except E (S × O)} {P : A → S → Prop} {as bs : List A}
    {s s' : S} {os : List O} (h : Along step P (as ++ bs) s)
    (hrun : runExcept step as s = .ok (s', os)) : Along step P bs s' := by
  induction as generalizing s os with
  | nil =>
    obtain ⟨rfl, -⟩ : s = s' ∧ _ := by simpa [runExcept] using hrun
    exact h
  | cons a as ih =>
    cases hstep : step a s with
    | error e => simp [runExcept, hstep, bind, Except.bind] at hrun
    | ok first =>
      cases hrest : runExcept step as first.1 with
      | error e => simp [runExcept, hstep, hrest, bind, Except.bind] at hrun
      | ok rest =>
        obtain ⟨rfl, -⟩ : rest.1 = s' ∧ _ := by
          simpa [runExcept, hstep, hrest, bind, Except.bind, pure, Except.pure] using hrun
        exact ih (h.2 first.1 first.2 hstep) hrest

theorem along_true {step : A → S → Except E (S × O)} {as : List A} {s : S} :
    Along step (fun _ _ => True) as s := by
  induction as generalizing s with
  | nil => trivial
  | cons a as ih => exact ⟨trivial, fun _ _ _ => ih⟩

/-- What a condition on each input keeps holds along the runs that meet the condition. -/
theorem along_of {step : A → S → Except E (S × O)} {I : S → Prop} {P Q : A → S → Prop}
    (hholds : ∀ a s, I s → Q a s → P a s)
    (hkeep : ∀ a s s' o, I s → Q a s → step a s = .ok (s', o) → I s')
    {as : List A} {s : S} (hinv : I s) (h : Along step Q as s) : Along step P as s := by
  induction as generalizing s with
  | nil => trivial
  | cons a as ih =>
    obtain ⟨hhead, hrest⟩ := h
    exact ⟨hholds a s hinv hhead, fun s' o hstep =>
      ih (hkeep a s s' o hinv hhead hstep) (hrest s' o hstep)⟩

/-- Two conditions that mean the same as long as they have held, mean the same along a run. -/
theorem along_iff {step : A → S → Except E (S × O)} {I : S → Prop} {V P Q : A → S → Prop}
    (hiff : ∀ a s, I s → V a s → (P a s ↔ Q a s))
    (hkeep : ∀ a s s' o, I s → V a s → P a s → step a s = .ok (s', o) → I s')
    {as : List A} {s : S} (hinv : I s) (hvalid : Along step V as s) :
    Along step P as s ↔ Along step Q as s := by
  induction as generalizing s with
  | nil => exact Iff.rfl
  | cons a as ih =>
    have hhead := hiff a s hinv hvalid.1
    constructor
    · rintro ⟨hp, hrest⟩
      exact ⟨hhead.mp hp, fun s' o hstep =>
        (ih (hkeep a s s' o hinv hvalid.1 hp hstep) (hvalid.2 s' o hstep)).mp (hrest s' o hstep)⟩
    · rintro ⟨hq, hrest⟩
      have hp := hhead.mpr hq
      exact ⟨hp, fun s' o hstep =>
        (ih (hkeep a s s' o hinv hvalid.1 hp hstep) (hvalid.2 s' o hstep)).mpr (hrest s' o hstep)⟩

end PandoraRobot.Trace
