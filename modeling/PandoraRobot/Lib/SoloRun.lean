/-! # Calls that go on alone

A call is a machine that goes from place to place until it returns.  While nobody else does
anything, it returns if each of its steps brings it nearer to its end, and it never does if it
keeps to places from which it does not return.
-/

namespace PandoraRobot.SoloRun

variable {S R E : Type} {step : S → Except E (S × Option R)} {s s' t' : S} {r r' : R}

/-- From `s` on, the call returns `r` and leaves `s'`. -/
inductive Returns (step : S → Except E (S × Option R)) : S → R → S → Prop where
  | last {s s' : S} {r : R} : step s = .ok (s', some r) → Returns step s r s'
  | more {s t s' : S} {r : R} : step s = .ok (t, none) → Returns step t r s' → Returns step s r s'

/-- From a place where the call goes on, it returns as it does from the next one. -/
theorem returns_of_none (h : step s = .ok (t', none)) :
    Returns step s r s' ↔ Returns step t' r s' := by
  constructor
  · intro hreturns
    cases hreturns with
    | last hlast => simp [h] at hlast
    | more hmore hrest =>
      rw [h] at hmore
      cases hmore
      exact hrest
  · exact .more h

/-- From its last place, it returns in one way. -/
theorem returns_of_some (h : step s = .ok (t', some r')) :
    Returns step s r s' ↔ r = r' ∧ s' = t' := by
  constructor
  · intro hreturns
    cases hreturns with
    | last hlast =>
      rw [h] at hlast
      cases hlast
      exact ⟨rfl, rfl⟩
    | more hmore => simp [h] at hmore
  · rintro ⟨rfl, rfl⟩
    exact .last h

/-- A call that gets stuck does not return. -/
theorem not_returns_of_error {e : E} (h : step s = .error e) : ¬ Returns step s r s' := by
  intro hreturns
  cases hreturns with
  | last hlast => simp [h] at hlast
  | more hmore => simp [h] at hmore

/-- A call whose steps keep an invariant and bring it nearer to its end returns. -/
theorem returns_of_measure {I : S → Prop} {P : R → S → Prop} (left : S → Nat)
    (hstep : ∀ s, I s → (∃ s' r, step s = .ok (s', some r) ∧ P r s') ∨
      ∃ s', step s = .ok (s', none) ∧ I s' ∧ left s' < left s)
    (h : I s) : ∃ r s', Returns step s r s' ∧ P r s' := by
  induction hn : left s using Nat.strongRecOn generalizing s with
  | ind n ih =>
    obtain ⟨s', r, hlast, hr⟩ | ⟨s', hmore, h', hless⟩ := hstep s h
    · exact ⟨r, s', .last hlast, hr⟩
    · obtain ⟨r, s'', hreturns, hr⟩ := ih (left s') (hn ▸ hless) h' rfl
      exact ⟨r, s'', .more hmore hreturns, hr⟩

/-- A call that only ever goes on never returns. -/
theorem not_returns {I : S → Prop} (hstep : ∀ s, I s → ∃ s', step s = .ok (s', none) ∧ I s')
    (h : I s) : ¬ Returns step s r s' := by
  intro hreturns
  induction hreturns with
  | last hlast =>
    obtain ⟨_, hmore, -⟩ := hstep _ h
    simp [hlast] at hmore
  | more hmore _ ih =>
    obtain ⟨_, hmore', h'⟩ := hstep _ h
    rw [hmore] at hmore'
    cases hmore'
    exact ih h'

end PandoraRobot.SoloRun
