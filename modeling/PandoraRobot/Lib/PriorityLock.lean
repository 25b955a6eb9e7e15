import Mathlib.Order.Lattice
import Mathlib.Order.MinMax
import Mathlib.Logic.Function.Basic
import Mathlib.Tactic.Tauto

/-! # Locks that lend priorities

Actors own locks and wait for them.  An actor that starts to wait lends its priority to the owner,
if it is the more urgent one.  An owner that gives a lock away gets back the priority that it had
when it got that lock.  The smaller priority is the more urgent one.

Neither what is lent nor what is put back looks at any other lock.  Here is exactly when that does
no harm.
-/

namespace PandoraRobot.PriorityLock

structure Locks (A L P : Type) where
  owner : L → Option A
  /-- The priority that the owner had when it got the lock. -/
  saved : L → P
  waits : L → List A
  priority : A → P

inductive Act (A L P : Type) where
  | acquire (a : A) (l : L)
  | block (a : A) (l : L)
  | release (a : A) (l : L)
  /-- Some actors stop waiting, and those that have nothing to do with locks get priorities. -/
  | elsewhere (priority : A → P)
  | setPriority (a : A) (p : P)

variable {A L P : Type} [DecidableEq A] [DecidableEq L] [LinearOrder P]

namespace Locks

variable {s s' : Locks A L P} {act : Act A L P} {a o u : A} {l : L} {p : P}

/-- An actor that acts does not wait. -/
inductive Step (s : Locks A L P) : Act A L P → Locks A L P → Prop where
  | acquire (a : A) (l : L) : s.owner l = none →
      Step s (.acquire a l) { s with
        owner := Function.update s.owner l (some a)
        saved := Function.update s.saved l (s.priority a) }
  | block (a : A) (l : L) (o : A) (xs ys : List A) : s.owner l = some o → o ≠ a →
      s.waits l = xs ++ ys → (∀ l', a ∉ s.waits l') →
      Step s (.block a l) { s with
        priority := Function.update s.priority o (min (s.priority a) (s.priority o))
        waits := Function.update s.waits l (xs ++ a :: ys) }
  | free (a : A) (l : L) (p : P) : s.owner l = some a → s.waits l = [] →
      (∀ l', a ∉ s.waits l') →
      Step s (.release a l) { s with
        owner := Function.update s.owner l none
        saved := Function.update s.saved l p
        priority := Function.update s.priority a (s.saved l) }
  /-- The lock goes to the first actor that waits. -/
  | handOver (a : A) (l : L) (u : A) (rest : List A) : s.owner l = some a →
      s.waits l = u :: rest → (∀ l', a ∉ s.waits l') →
      Step s (.release a l) {
        owner := Function.update s.owner l (some u)
        saved := Function.update s.saved l (s.priority u)
        waits := Function.update s.waits l rest
        priority := Function.update s.priority a (s.saved l) }
  | elsewhere (waits : L → List A) (priority : A → P) :
      (∀ l, (waits l).Sublist (s.waits l)) →
      (∀ l a, s.owner l = some a ∨ a ∈ waits l → priority a = s.priority a) →
      Step s (.elsewhere priority) { s with waits := waits, priority := priority }
  | setPriority (a : A) (p : P) :
      Step s (.setPriority a p) { s with priority := Function.update s.priority a p }

/-- Who waits for a lock waits for its owner. -/
def Waiting (s : Locks A L P) : Prop :=
  ∀ l, ∀ a ∈ s.waits l, ∃ o, s.owner l = some o ∧ o ≠ a

/-! ## Inversion of priorities -/

/-- No owner is less urgent than an actor that waits for it. -/
def NoInversion (s : Locks A L P) : Prop :=
  ∀ l o, s.owner l = some o → ∀ w ∈ s.waits l, s.priority o ≤ s.priority w

/-- What an act has to find so that it inverts no priorities. -/
def Propagates (s : Locks A L P) : Act A L P → Prop
  | .block a l => ∀ o, s.owner l = some o → s.priority a < s.priority o →
    ∀ l' o', o ∈ s.waits l' → s.owner l' = some o' → s.priority o' ≤ s.priority a
  | .release a l =>
    (∀ l', l' ≠ l → s.owner l' = some a → ∀ w ∈ s.waits l', s.saved l ≤ s.priority w) ∧
      ∀ u rest, s.waits l = u :: rest → ∀ w ∈ rest, s.priority u ≤ s.priority w
  | .setPriority a p => (∀ l, s.owner l = some a → ∀ w ∈ s.waits l, p ≤ s.priority w) ∧
    ∀ l o, a ∈ s.waits l → s.owner l = some o → s.priority o ≤ p
  | _ => True

omit [DecidableEq A] [DecidableEq L] [LinearOrder P] in
theorem Waiting.ne (h : s.Waiting) (ho : s.owner l = some o) (hm : a ∈ s.waits l) : o ≠ a := by
  obtain ⟨o', ho', hne⟩ := h l a hm
  rw [ho] at ho'
  exact Option.some.inj ho' ▸ hne

/-- The owner lends no urgency to an owner that it waits for itself. -/
theorem NoInversion.block_iff (h : s.NoInversion) (hw : s.Waiting) {xs ys : List A}
    (ho : s.owner l = some o) (hoa : o ≠ a) (hl : s.waits l = xs ++ ys)
    (ha : ∀ l', a ∉ s.waits l') :
    NoInversion { s with
      priority := Function.update s.priority o (min (s.priority a) (s.priority o))
      waits := Function.update s.waits l (xs ++ a :: ys) } ↔ s.Propagates (.block a l) := by
  have hmem : ∀ l' w, w ∈ Function.update s.waits l (xs ++ a :: ys) l' ↔
      l' = l ∧ w = a ∨ w ∈ s.waits l' := by
    intro l' w
    by_cases hl' : l' = l
    · subst hl'
      simp only [Function.update_self, hl, List.mem_append, List.mem_cons, true_and]
      tauto
    · simp [hl']
  constructor
  · rintro hafter o₁ ho₁ hlt l' o' hm ho'
    obtain rfl : o = o₁ := Option.some.inj (ho.symm.trans ho₁)
    have hle := hafter l' o' ho' o ((hmem l' o).mpr (.inr hm))
    simpa [hw.ne ho' hm, min_eq_left hlt.le] using hle
  · intro hcond l' q hq w hm
    have hafter : Function.update s.priority o (min (s.priority a) (s.priority o)) q ≤
        s.priority q := by
      by_cases hqo : q = o
      · subst hqo
        simp
      · simp [hqo]
    obtain ⟨rfl, rfl⟩ | hin := (hmem l' w).mp hm
    · obtain rfl : o = q := Option.some.inj (ho.symm.trans hq)
      simp [hoa.symm]
    have hle := h l' q hq w hin
    by_cases hwo : w = o
    · subst hwo
      have hqw := hw.ne hq hin
      simp only [ne_eq, hqw, not_false_eq_true, Function.update_of_ne, Function.update_self,
        le_min_iff]
      refine ⟨?_, hle⟩
      by_cases hlt : s.priority a < s.priority w
      · exact hcond w ho hlt l' q hin hq
      · exact hle.trans (not_lt.mp hlt)
    · simp only [Function.update_of_ne hwo]
      exact hafter.trans hle

/-- What is put back suits the other locks of the owner, and the new owner is the most urgent one
    that waited. -/
theorem NoInversion.release_iff (h : s.NoInversion)
    (hstep : Step s (.release a l) s') : s'.NoInversion ↔ s.Propagates (.release a l) := by
  -- nobody waits for a lock and gives another one away
  have hpriority : ∀ {l' w p}, (∀ l', a ∉ s.waits l') → w ∈ s.waits l' →
      Function.update s.priority a p w = s.priority w := by
    intro l' w p ha hm
    apply Function.update_of_ne
    rintro rfl
    exact ha l' hm
  cases hstep with
  | free a l p howner hnil ha =>
    constructor
    · intro hafter
      refine ⟨fun l' hl' ho' w hm => ?_, fun u rest hlist => ?_⟩
      · have hle := hafter l' a (by simpa [hl'] using ho') w hm
        simpa [hpriority ha hm] using hle
      · rw [hnil] at hlist
        cases hlist
    · rintro ⟨hcond, -⟩ l' o' ho' w hm
      have hm' : w ∈ s.waits l' := hm
      have hl' : l' ≠ l := by
        rintro rfl
        rw [hnil] at hm'
        cases hm'
      have ho : s.owner l' = some o' := by simpa [hl'] using ho'
      simp only [hpriority ha hm']
      by_cases hoa : o' = a
      · subst hoa
        simpa using hcond l' hl' ho w hm'
      · simpa [hoa] using h l' o' ho w hm'
  | handOver a l u rest howner hlist ha =>
    have hu : u ≠ a := by
      rintro rfl
      exact ha l (by simp [hlist])
    constructor
    · intro hafter
      refine ⟨fun l' hl' ho' w hm => ?_, fun u' rest' hlist' w hm => ?_⟩
      · have hle := hafter l' a (by simpa [hl'] using ho') w (by simpa [hl'] using hm)
        simpa [hpriority ha hm] using hle
      · rw [hlist, List.cons.injEq] at hlist'
        obtain ⟨rfl, rfl⟩ := hlist'
        have hm' : w ∈ s.waits l := by simp [hlist, hm]
        have hle := hafter l u (by simp) w (by simpa using hm)
        simpa [hpriority ha hm', hu] using hle
    · rintro ⟨hcond, hfirst⟩ l' o' ho' w hm
      by_cases hl' : l' = l
      · subst hl'
        obtain rfl : u = o' := by simpa using ho'
        have hm' : w ∈ rest := by simpa using hm
        have hw : w ∈ s.waits l' := by simp [hlist, hm']
        simpa [hpriority ha hw, hu] using hfirst u rest hlist w hm'
      · have ho : s.owner l' = some o' := by simpa [hl'] using ho'
        have hm' : w ∈ s.waits l' := by simpa [hl'] using hm
        simp only [hpriority ha hm']
        by_cases hoa : o' = a
        · subst hoa
          simpa using hcond l' hl' ho w hm'
        · simpa [hoa] using h l' o' ho w hm'

omit [DecidableEq L] in
theorem NoInversion.setPriority_iff (h : s.NoInversion) (hw : s.Waiting) :
    NoInversion { s with priority := Function.update s.priority a p } ↔
      s.Propagates (.setPriority a p) := by
  constructor
  · intro hafter
    refine ⟨fun l ho w hm => ?_, fun l o hm ho => ?_⟩
    · simpa [(hw.ne ho hm).symm] using hafter l a ho w hm
    · simpa [hw.ne ho hm] using hafter l o ho a hm
  · rintro ⟨hown, hwait⟩ l o ho w hm
    have hne := hw.ne ho hm
    by_cases hoa : o = a
    · subst hoa
      simpa [hne.symm] using hown l ho w hm
    · by_cases hwa : w = a
      · subst hwa
        simpa [hoa] using hwait l o hm ho
      · simpa [hoa, hwa] using h l o ho w hm

/-- A step inverts no priorities if and only if it finds what it has to. -/
theorem NoInversion.step_iff (h : s.NoInversion) (hw : s.Waiting) (hstep : Step s act s') :
    s'.NoInversion ↔ s.Propagates act := by
  cases hstep with
  | acquire a l hnone =>
    refine iff_of_true (fun l' o ho w hm => ?_) trivial
    by_cases hl' : l' = l
    · subst hl'
      obtain ⟨o', ho', -⟩ := hw l' w hm
      rw [hnone] at ho'
      cases ho'
    · exact h l' o (by simpa [hl'] using ho) w hm
  | block a l o xs ys ho hoa hl ha => exact h.block_iff hw ho hoa hl ha
  | free a l p ho hnil ha => exact h.release_iff (.free a l p ho hnil ha)
  | handOver a l u rest ho hlist ha => exact h.release_iff (.handOver a l u rest ho hlist ha)
  | elsewhere waits priority hsub hsame =>
    refine iff_of_true (fun l o ho w hm => ?_) trivial
    have hle := h l o ho w ((hsub l).subset hm)
    rwa [← hsame l o (.inl ho), ← hsame l w (.inr hm)] at hle
  | setPriority a p => exact h.setPriority_iff hw

/-! ## Residues -/

def Idle (s : Locks A L P) (a : A) : Prop := ∀ l, s.owner l ≠ some a

/-- An actor that owns no lock has its own priority. -/
def NoResidue (s : Locks A L P) (base : A → P) : Prop := ∀ a, s.Idle a → s.priority a = base a

/-- The lock that an actor gives away last has its own priority saved. -/
def Restores (s : Locks A L P) (base : A → P) : Act A L P → Prop
  | .release a l => (∀ l', l' ≠ l → s.owner l' ≠ some a) → s.saved l = base a
  | .setPriority a p => s.Idle a → p = base a
  | .elsewhere priority => ∀ a, s.Idle a → priority a = base a
  | _ => True

/-- A step leaves no residue if and only if it restores what was there. -/
theorem NoResidue.step_iff {base : A → P} (h : s.NoResidue base) (hstep : Step s act s') :
    s'.NoResidue base ↔ s.Restores base act := by
  -- who owns no lock afterwards, other than the one that gives `l` away, owned none before
  have hidle : ∀ {l : L} {x : Option A} {b : A}, s.owner l ≠ some b →
      (∀ l', Function.update s.owner l x l' ≠ some b) → s.Idle b := by
    intro l x b hb hnone l'
    by_cases hl' : l' = l
    · exact hl' ▸ hb
    · simpa [hl'] using hnone l'
  cases hstep with
  | acquire a l hnone =>
    exact iff_of_true (fun b hb => h b (hidle (by simp [hnone]) hb)) trivial
  | block a l o xs ys ho hoa hl ha =>
    refine iff_of_true (fun b hb => ?_) trivial
    have hbo : b ≠ o := by
      rintro rfl
      exact hb l ho
    simpa [hbo] using h b hb
  | free a l p ho hnil ha =>
    constructor
    · intro hafter hlast
      have hown := hafter a fun l' => by
        by_cases hl' : l' = l
        · subst hl'
          simp
        · simpa [hl'] using hlast l' hl'
      simpa using hown
    · intro hcond b hb
      by_cases hba : b = a
      · subst hba
        simpa using hcond fun l' hl' => by simpa [hl'] using hb l'
      · simpa [hba] using h b (hidle (by rw [ho]; simpa [eq_comm] using hba) hb)
  | handOver a l u rest ho hlist ha =>
    have hu : u ≠ a := by
      rintro rfl
      exact ha l (by simp [hlist])
    constructor
    · intro hafter hlast
      have hown := hafter a fun l' => by
        by_cases hl' : l' = l
        · subst hl'
          simpa using hu
        · simpa [hl'] using hlast l' hl'
      simpa using hown
    · intro hcond b hb
      by_cases hba : b = a
      · subst hba
        simpa using hcond fun l' hl' => by simpa [hl'] using hb l'
      · simpa [hba] using h b (hidle (by rw [ho]; simpa [eq_comm] using hba) hb)
  | elsewhere waits priority hsub hsame => exact Iff.rfl
  | setPriority a p =>
    constructor
    · exact fun hafter hb => by simpa using hafter a hb
    · intro hcond b hb
      by_cases hba : b = a
      · subst hba
        simpa using hcond hb
      · simpa [hba] using h b hb

end Locks

end PandoraRobot.PriorityLock
