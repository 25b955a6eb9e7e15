import Mathlib.Data.List.Nodup
import Mathlib.Data.List.Lemmas
import Mathlib.Logic.Function.Basic

/-! # Intrusive circular doubly linked lists

A memory of list nodes is two link functions, `next` and `prev`.  The nodes are
list heads (`H`) and elements (`T`); an element carries one node, so it sits in at
most one list at a time.  The operations are the usual pointer assignments, run
one after the other.

`Holds s σ` says that the links `s` spell out the lists `σ : H → List T`: every
split point of every list is linked both ways, lists are disjoint and without
repetition, and an element of no list is linked to itself.  Each operation then
has one lemma that says what it does to `σ`.
-/

namespace PandoraRobot.RingList

/-- The two link fields of every node. -/
structure Links (N : Type) where
  next : N → N
  prev : N → N

namespace Links

variable {N : Type} [DecidableEq N]

def setNext (s : Links N) (a b : N) : Links N :=
  { s with next := Function.update s.next a b }

def setPrev (s : Links N) (a b : N) : Links N :=
  { s with prev := Function.update s.prev a b }

/-- `n` becomes a list of its own. -/
def initNode (n : N) (s : Links N) : Links N :=
  (s.setPrev n n).setNext n n

def insertAfter (l n : N) (s : Links N) : Links N :=
  let s := s.setPrev (s.next l) n
  let s := s.setNext n (s.next l)
  let s := s.setNext l n
  s.setPrev n l

def insertBefore (l n : N) (s : Links N) : Links N :=
  let s := s.setNext (s.prev l) n
  let s := s.setPrev n (s.prev l)
  let s := s.setPrev l n
  s.setNext n l

def remove (n : N) (s : Links N) : Links N :=
  let s := s.setPrev (s.next n) (s.prev n)
  let s := s.setNext (s.prev n) (s.next n)
  (s.setPrev n n).setNext n n

end Links

/-! ## The lists a memory spells out -/

section

variable {H T : Type}

/-- The node before the split point: the last of `xs`, or the head. -/
def lastOr (h : H) (xs : List T) : H ⊕ T := xs.getLast?.elim (.inl h) .inr

/-- The node after the split point: the first of `ys`, or the head. -/
def firstOr (h : H) (ys : List T) : H ⊕ T := ys.head?.elim (.inl h) .inr

@[simp] theorem lastOr_nil (h : H) : lastOr h ([] : List T) = .inl h := rfl
@[simp] theorem lastOr_concat (h : H) (xs : List T) (x : T) :
    lastOr h (xs ++ [x]) = .inr x := by simp [lastOr]
@[simp] theorem firstOr_nil (h : H) : firstOr h ([] : List T) = .inl h := rfl
@[simp] theorem firstOr_cons (h : H) (y : T) (ys : List T) :
    firstOr h (y :: ys) = .inr y := rfl

/-- `s` spells out the lists `σ`. -/
structure Holds (s : Links (H ⊕ T)) (σ : H → List T) : Prop where
  adjacent : ∀ h xs ys, σ h = xs ++ ys →
    s.next (lastOr h xs) = firstOr h ys ∧ s.prev (firstOr h ys) = lastOr h xs
  alone : ∀ t, (∀ h, t ∉ σ h) → s.next (.inr t) = .inr t ∧ s.prev (.inr t) = .inr t
  nodup : ∀ h, (σ h).Nodup
  disjoint : ∀ h h' t, t ∈ σ h → t ∈ σ h' → h = h'

/-- No list of `σ` has the element. -/
def Fresh (σ : H → List T) (t : T) : Prop := ∀ h, t ∉ σ h

variable {s : Links (H ⊕ T)} {σ : H → List T}

/-- A node is the left side of one split point only. -/
theorem Holds.lastOr_inj (hs : Holds s σ) {h h' : H} {xs ys xs' ys' : List T}
    (hσ : σ h = xs ++ ys) (hσ' : σ h' = xs' ++ ys')
    (heq : lastOr h xs = lastOr h' xs') : h = h' ∧ xs = xs' ∧ ys = ys' := by
  rcases xs.eq_nil_or_concat' with rfl | ⟨as, x, rfl⟩ <;>
    rcases xs'.eq_nil_or_concat' with rfl | ⟨bs, y, rfl⟩
  · simp only [lastOr_nil, Sum.inl.injEq] at heq
    subst heq
    exact ⟨rfl, rfl, by simpa using hσ.symm.trans hσ'⟩
  · simp at heq
  · simp at heq
  · simp only [lastOr_concat, Sum.inr.injEq] at heq
    subst heq
    have hh : h = h' := hs.disjoint h h' x (by simp [hσ]) (by simp [hσ'])
    subst hh
    have hnd := hs.nodup h
    have hsplit : as ++ x :: ys = bs ++ x :: ys' := by
      simpa using hσ.symm.trans hσ'
    rw [hσ, List.append_assoc, List.nodup_append] at hnd
    obtain ⟨_, hright, hcross⟩ := hnd
    have hx : x ∉ as := fun hm => hcross x hm x (by simp) rfl
    have hx' : x ∉ ys := by
      simp only [List.cons_append, List.nil_append, List.nodup_cons] at hright
      exact hright.1
    obtain ⟨ha, _, hy⟩ := (List.append_cons_inj_of_notMem hx hx').mp hsplit
    exact ⟨rfl, by rw [ha], hy⟩

/-- A node is the right side of one split point only. -/
theorem Holds.firstOr_inj (hs : Holds s σ) {h h' : H} {xs ys xs' ys' : List T}
    (hσ : σ h = xs ++ ys) (hσ' : σ h' = xs' ++ ys')
    (heq : firstOr h ys = firstOr h' ys') : h = h' ∧ xs = xs' ∧ ys = ys' := by
  apply hs.lastOr_inj hσ hσ'
  rw [← (hs.adjacent h xs ys hσ).2, ← (hs.adjacent h' xs' ys' hσ').2, heq]

/-- The links determine the lists. -/
theorem Holds.unique {τ : H → List T} (hs : Holds s σ) (ht : Holds s τ) : σ = τ := by
  have agree : ∀ h ys ys' xs, σ h = xs ++ ys → τ h = xs ++ ys' → ys = ys' := by
    intro h ys
    induction ys with
    | nil =>
      intro ys' xs hσ hτ
      have hnext := (hs.adjacent h xs [] hσ).1.symm.trans (ht.adjacent h xs ys' hτ).1
      cases ys' with
      | nil => rfl
      | cons y' ys' => simp at hnext
    | cons y ys ih =>
      intro ys' xs hσ hτ
      have hnext := (hs.adjacent h xs (y :: ys) hσ).1.symm.trans (ht.adjacent h xs ys' hτ).1
      cases ys' with
      | nil => simp at hnext
      | cons y' ys' =>
        simp only [firstOr_cons, Sum.inr.injEq] at hnext
        subst hnext
        rw [ih ys' (xs ++ [y]) (by simpa using hσ) (by simpa using hτ)]
  funext h
  exact agree h (σ h) (τ h) [] rfl rfl

/-- All heads linked to themselves and no element linked: every list is empty. -/
theorem holds_empty : Holds (⟨id, id⟩ : Links (H ⊕ T)) (fun _ => []) := by
  refine ⟨?_, fun _ _ => ⟨rfl, rfl⟩, fun _ => List.nodup_nil, fun _ _ _ hm => by simp at hm⟩
  intro h xs ys hsplit
  obtain ⟨rfl, rfl⟩ := List.append_eq_nil_iff.mp hsplit.symm
  exact ⟨rfl, rfl⟩

/-! ## Reading a list -/

theorem Holds.next_head (hs : Holds s σ) (h : H) : s.next (.inl h) = firstOr h (σ h) :=
  (hs.adjacent h [] (σ h) rfl).1

theorem Holds.next_head_eq_self (hs : Holds s σ) (h : H) :
    s.next (.inl h) = .inl h ↔ σ h = [] := by
  rw [hs.next_head]
  cases σ h <;> simp

theorem Holds.next_head_eq_elem (hs : Holds s σ) {h : H} {t : T}
    (hnext : s.next (.inl h) = .inr t) : ∃ rest, σ h = t :: rest := by
  rw [hs.next_head] at hnext
  cases hσ : σ h with
  | nil => simp [hσ] at hnext
  | cons x rest =>
    simp only [hσ, firstOr_cons, Sum.inr.injEq] at hnext
    exact ⟨rest, by rw [hnext]⟩

/-- An element is in some list exactly when its node is not linked to itself. -/
theorem Holds.linked_iff (hs : Holds s σ) {t : T} :
    (∃ h, t ∈ σ h) ↔ s.next (.inr t) ≠ .inr t := by
  constructor
  · rintro ⟨h, hm⟩ heq
    obtain ⟨xs, ys, hσ⟩ := List.append_of_mem hm
    have hnd := hs.nodup h
    have hright := (hs.adjacent h (xs ++ [t]) ys (by simp [hσ])).1
    rw [lastOr_concat, heq] at hright
    rw [hσ, List.nodup_append, List.nodup_cons] at hnd
    cases ys with
    | nil => simp at hright
    | cons y ys =>
      simp only [firstOr_cons, Sum.inr.injEq] at hright
      exact hnd.2.1.1 (by simp [hright])
  · intro hne
    by_contra hfresh
    exact hne (hs.alone t (not_exists.mp hfresh)).1

/-! ## Operations on the lists -/

section Insertion

variable [DecidableEq H]

/-- `t` put into list `h` at the split point between `xs` and `ys`. -/
def insertAt (σ : H → List T) (h : H) (xs : List T) (t : T) (ys : List T) : H → List T :=
  Function.update σ h (xs ++ t :: ys)

def pushBack (σ : H → List T) (h : H) (t : T) : H → List T :=
  insertAt σ h (σ h) t []

def pushFront (σ : H → List T) (h : H) (t : T) : H → List T :=
  insertAt σ h [] t (σ h)

@[simp] theorem insertAt_same (h : H) (xs : List T) (t : T) (ys : List T) :
    insertAt σ h xs t ys h = xs ++ t :: ys := by simp [insertAt]

theorem insertAt_other {h h' : H} (hne : h' ≠ h) (xs : List T) (t : T) (ys : List T) :
    insertAt σ h xs t ys h' = σ h' := by simp [insertAt, hne]

@[simp] theorem pushBack_same (h : H) (t : T) : pushBack σ h t h = σ h ++ [t] := by
  simp [pushBack]

theorem pushBack_other {h h' : H} (hne : h' ≠ h) (t : T) : pushBack σ h t h' = σ h' :=
  insertAt_other hne _ _ _

@[simp] theorem pushFront_same (h : H) (t : T) : pushFront σ h t h = t :: σ h := by
  simp [pushFront]

theorem mem_insertAt {h h' : H} {xs ys : List T} {t u : T} (hσ : σ h = xs ++ ys) :
    u ∈ insertAt σ h xs t ys h' ↔ (h' = h ∧ u = t) ∨ u ∈ σ h' := by
  by_cases hh : h' = h
  · subst hh
    rw [insertAt_same, hσ]
    simp only [List.mem_append, List.mem_cons, true_and]
    tauto
  · rw [insertAt_other hh]
    simp [hh]

@[simp] theorem mem_pushBack {h h' : H} {t u : T} :
    u ∈ pushBack σ h t h' ↔ (h' = h ∧ u = t) ∨ u ∈ σ h' :=
  mem_insertAt (by simp)

@[simp] theorem mem_pushFront {h h' : H} {t u : T} :
    u ∈ pushFront σ h t h' ↔ (h' = h ∧ u = t) ∨ u ∈ σ h' :=
  mem_insertAt (by simp)

end Insertion

section Erasure

variable [DecidableEq T]

/-- `t` taken out of whichever list has it. -/
def erase (σ : H → List T) (t : T) : H → List T := fun h => (σ h).erase t

theorem Holds.mem_erase (hs : Holds s σ) {h : H} {t u : T} :
    u ∈ erase σ t h ↔ u ≠ t ∧ u ∈ σ h := (hs.nodup h).mem_erase_iff

theorem Holds.fresh_erase (hs : Holds s σ) (t : T) : Fresh (erase σ t) t :=
  fun _ hm => (hs.mem_erase.mp hm).1 rfl

theorem erase_of_notMem {h : H} {t : T} (ht : t ∉ σ h) : erase σ t h = σ h :=
  List.erase_of_not_mem ht

theorem erase_of_fresh {t : T} (ht : Fresh σ t) : erase σ t = σ :=
  funext fun h => erase_of_notMem (ht h)

theorem erase_split {h : H} {xs ys : List T} {t : T} (hσ : σ h = xs ++ t :: ys)
    (hnd : (σ h).Nodup) : erase σ t h = xs ++ ys := by
  have ht : t ∉ xs := by
    rw [hσ, List.nodup_append] at hnd
    exact fun hm => hnd.2.2 t hm t (by simp) rfl
  rw [erase, hσ, List.erase_append_right _ ht]
  simp

theorem Holds.erase_erase (hs : Holds s σ) (t : T) : erase (erase σ t) t = erase σ t :=
  erase_of_fresh (hs.fresh_erase t)

theorem erase_insertAt [DecidableEq H] {h : H} {xs ys : List T} {t : T} (hfresh : Fresh σ t)
    (hσ : σ h = xs ++ ys) : erase (insertAt σ h xs t ys) t = σ := by
  funext h'
  by_cases hh : h' = h
  · subst hh
    have ht := hfresh h'
    rw [hσ, List.mem_append, not_or] at ht
    rw [erase, insertAt_same, List.erase_append_right _ ht.1, List.erase_cons_head, hσ]
  · rw [erase, insertAt_other hh, List.erase_of_not_mem (hfresh h')]

theorem erase_pushBack [DecidableEq H] {h : H} {t : T} (hfresh : Fresh σ t) :
    erase (pushBack σ h t) t = σ :=
  erase_insertAt hfresh (by simp)

end Erasure

/-! ## What each operation does -/

variable [DecidableEq H] [DecidableEq T]

/-- Linking a fresh element in between the two sides of a split point. -/
theorem Holds.linkBetween (hs : Holds s σ) {h : H} {xs ys : List T} {t : T}
    (hσ : σ h = xs ++ ys) (hfresh : Fresh σ t) {s' : Links (H ⊕ T)}
    (hnext : s'.next = Function.update (Function.update s.next (lastOr h xs) (.inr t))
      (.inr t) (firstOr h ys))
    (hprev : s'.prev = Function.update (Function.update s.prev (firstOr h ys) (.inr t))
      (.inr t) (lastOr h xs)) :
    Holds s' (insertAt σ h xs t ys) := by
  have last_ne : ∀ {h' as bs}, σ h' = as ++ bs → lastOr h' as ≠ .inr t := by
    intro h' as bs hσ' heq
    rcases as.eq_nil_or_concat' with rfl | ⟨cs, c, rfl⟩
    · simp at heq
    · simp only [lastOr_concat, Sum.inr.injEq] at heq
      exact hfresh h' (by rw [hσ', ← heq]; simp)
  have first_ne : ∀ {h' as bs}, σ h' = as ++ bs → firstOr h' bs ≠ .inr t := by
    intro h' as bs hσ' heq
    cases bs with
    | nil => simp at heq
    | cons b bs =>
      simp only [firstOr_cons, Sum.inr.injEq] at heq
      exact hfresh h' (by rw [hσ', ← heq]; simp)
  -- a split point of the old lists other than the one that was used keeps its two links
  have keep : ∀ {h' as bs}, σ h' = as ++ bs → ¬ (h' = h ∧ as = xs ∧ bs = ys) →
      s'.next (lastOr h' as) = firstOr h' bs ∧ s'.prev (firstOr h' bs) = lastOr h' as := by
    intro h' as bs hσ' hne
    rw [hnext, hprev, Function.update_of_ne (last_ne hσ'), Function.update_of_ne (first_ne hσ'),
      Function.update_of_ne (fun heq => hne (hs.lastOr_inj hσ' hσ heq)),
      Function.update_of_ne (fun heq => hne (hs.firstOr_inj hσ' hσ heq))]
    exact hs.adjacent h' as bs hσ'
  have before : s'.next (lastOr h xs) = .inr t ∧ s'.prev (.inr t) = lastOr h xs := by
    rw [hnext, hprev, Function.update_of_ne (last_ne hσ)]
    simp
  have after : s'.next (.inr t) = firstOr h ys ∧ s'.prev (firstOr h ys) = .inr t := by
    rw [hnext, hprev, Function.update_of_ne (first_ne hσ)]
    simp
  have hnd := hs.nodup h
  rw [hσ] at hnd
  refine ⟨?_, ?_, ?_, ?_⟩
  · intro h' as bs hsplit
    by_cases hh : h' = h
    · subst hh
      rw [insertAt_same] at hsplit
      rcases List.append_eq_append_iff.mp hsplit with ⟨cs, rfl, hys⟩ | ⟨cs, rfl, hys⟩
      · cases cs with
        | nil =>
          simp only [List.nil_append] at hys
          subst hys
          simpa using before
        | cons c cs =>
          simp only [List.cons_append, List.cons.injEq] at hys
          obtain ⟨rfl, rfl⟩ := hys
          rcases cs.eq_nil_or_concat' with rfl | ⟨ds, d, rfl⟩
          · simpa using after
          · have := keep (show σ h' = (xs ++ (ds ++ [d])) ++ bs by rw [hσ]; simp)
              (by rintro ⟨-, heq, -⟩; simp at heq)
            rw [← List.append_assoc, lastOr_concat] at this
            rwa [← List.cons_append, ← List.append_assoc, lastOr_concat]
      · cases cs with
        | nil =>
          simp only [List.nil_append] at hys
          subst hys
          simpa using before
        | cons c cs =>
          subst hys
          have := keep (show σ h' = as ++ (c :: cs ++ ys) by rw [hσ]; simp)
            (by rintro ⟨-, heq, -⟩; simp at heq)
          simpa using this
    · rw [insertAt_other hh] at hsplit
      exact keep hsplit (fun heq => hh heq.1)
  · intro u hu
    have hut : u ≠ t := fun heq => hu h (by rw [mem_insertAt hσ]; exact .inl ⟨rfl, heq⟩)
    have hold : Fresh σ u := fun h' hm => hu h' (by rw [mem_insertAt hσ]; exact .inr hm)
    have hlast : (Sum.inr u : H ⊕ T) ≠ lastOr h xs := by
      rcases xs.eq_nil_or_concat' with rfl | ⟨cs, c, rfl⟩
      · simp
      · intro heq
        simp only [lastOr_concat, Sum.inr.injEq] at heq
        exact hold h (by rw [hσ, heq]; simp)
    have hfirst : (Sum.inr u : H ⊕ T) ≠ firstOr h ys := by
      cases ys with
      | nil => simp
      | cons c cs =>
        intro heq
        simp only [firstOr_cons, Sum.inr.injEq] at heq
        exact hold h (by rw [hσ, heq]; simp)
    have hne : (Sum.inr u : H ⊕ T) ≠ .inr t := by simpa using hut
    rw [hnext, hprev, Function.update_of_ne hne, Function.update_of_ne hne,
      Function.update_of_ne hlast, Function.update_of_ne hfirst]
    exact hs.alone u hold
  · intro h'
    by_cases hh : h' = h
    · subst hh
      rw [insertAt_same]
      have ht := hfresh h'
      rw [hσ] at ht
      exact (List.perm_middle.nodup_iff).mpr (List.nodup_cons.mpr ⟨ht, hnd⟩)
    · rw [insertAt_other hh]
      exact hs.nodup h'
  · intro h₁ h₂ u h₁u h₂u
    rw [mem_insertAt hσ] at h₁u h₂u
    rcases h₁u with ⟨rfl, rfl⟩ | h₁u <;> rcases h₂u with ⟨rfl, heq⟩ | h₂u
    · rfl
    · exact absurd h₂u (hfresh h₂)
    · exact absurd (heq ▸ h₁u) (hfresh h₁)
    · exact hs.disjoint h₁ h₂ u h₁u h₂u

/-- Inserting before the node right of a split point. -/
theorem Holds.insertBefore (hs : Holds s σ) {h : H} {xs ys : List T} {t : T}
    (hσ : σ h = xs ++ ys) (hfresh : Fresh σ t) :
    Holds (s.insertBefore (firstOr h ys) (.inr t)) (insertAt σ h xs t ys) := by
  have hadj := hs.adjacent h xs ys hσ
  have hfirst : firstOr h ys ≠ .inr t := by
    cases ys with
    | nil => simp
    | cons y ys =>
      simp only [firstOr_cons, ne_eq, Sum.inr.injEq]
      rintro rfl
      exact hfresh h (by rw [hσ]; simp)
  apply hs.linkBetween hσ hfresh
  · simp [Links.insertBefore, Links.setNext, Links.setPrev, hadj.2]
  · simp only [Links.insertBefore, Links.setNext, Links.setPrev, hadj.2]
    rw [Function.update_comm hfirst]

/-- Inserting after the node left of a split point. -/
theorem Holds.insertAfter (hs : Holds s σ) {h : H} {xs ys : List T} {t : T}
    (hσ : σ h = xs ++ ys) (hfresh : Fresh σ t) :
    Holds (s.insertAfter (lastOr h xs) (.inr t)) (insertAt σ h xs t ys) := by
  have hadj := hs.adjacent h xs ys hσ
  have hlast : lastOr h xs ≠ .inr t := by
    rcases xs.eq_nil_or_concat' with rfl | ⟨cs, c, rfl⟩
    · simp
    · simp only [lastOr_concat, ne_eq, Sum.inr.injEq]
      rintro rfl
      exact hfresh h (by rw [hσ]; simp)
  apply hs.linkBetween hσ hfresh
  · simp only [Links.insertAfter, Links.setNext, Links.setPrev, hadj.1]
    rw [Function.update_comm hlast]
  · simp [Links.insertAfter, Links.setNext, Links.setPrev, hadj.1]

theorem Holds.insertBefore_head (hs : Holds s σ) (h : H) {t : T} (hfresh : Fresh σ t) :
    Holds (s.insertBefore (.inl h) (.inr t)) (pushBack σ h t) :=
  hs.insertBefore (show σ h = σ h ++ [] by simp) hfresh

theorem Holds.insertAfter_head (hs : Holds s σ) (h : H) {t : T} (hfresh : Fresh σ t) :
    Holds (s.insertAfter (.inl h) (.inr t)) (pushFront σ h t) :=
  hs.insertAfter (show σ h = [] ++ σ h by simp) hfresh

/-- Initialising the node of an element of no list changes nothing. -/
theorem Holds.initNode (hs : Holds s σ) {t : T} (hfresh : Fresh σ t) :
    s.initNode (.inr t) = s := by
  obtain ⟨hnext, hprev⟩ := hs.alone t hfresh
  have h₁ : Function.update s.next (.inr t) (.inr t) = s.next :=
    Function.update_eq_self_iff.mpr hnext.symm
  have h₂ : Function.update s.prev (.inr t) (.inr t) = s.prev :=
    Function.update_eq_self_iff.mpr hprev.symm
  simp [Links.initNode, Links.setNext, Links.setPrev, h₁, h₂]

/-- Removing an element of no list changes nothing. -/
theorem Holds.remove_fresh (hs : Holds s σ) {t : T} (hfresh : Fresh σ t) :
    s.remove (.inr t) = s := by
  obtain ⟨hnext, hprev⟩ := hs.alone t hfresh
  have h₁ : Function.update s.next (.inr t) (.inr t) = s.next :=
    Function.update_eq_self_iff.mpr hnext.symm
  have h₂ : Function.update s.prev (.inr t) (.inr t) = s.prev :=
    Function.update_eq_self_iff.mpr hprev.symm
  simp [Links.remove, Links.setNext, Links.setPrev, hnext, hprev, h₁, h₂]

/-- Removing closes the gap in the list that has the element. -/
theorem Holds.remove_mem (hs : Holds s σ) {h : H} {xs ys : List T} {t : T}
    (hσ : σ h = xs ++ t :: ys) : Holds (s.remove (.inr t)) (erase σ t) := by
  have hσ' : σ h = (xs ++ [t]) ++ ys := by simp [hσ]
  have hleft := hs.adjacent h xs (t :: ys) hσ
  have hright := hs.adjacent h (xs ++ [t]) ys hσ'
  simp only [firstOr_cons, lastOr_concat] at hleft hright
  have herase : erase σ t h = xs ++ ys := erase_split hσ (hs.nodup h)
  have hother : ∀ {h'}, h' ≠ h → erase σ t h' = σ h' := fun hne =>
    erase_of_notMem fun hm => hne (hs.disjoint _ h t hm (by simp [hσ]))
  have hlast : (Sum.inr t : H ⊕ T) ≠ lastOr h xs := by
    intro heq
    have := hs.lastOr_inj hσ hσ' (by rw [lastOr_concat, ← heq])
    simp at this
  have hfirst : (Sum.inr t : H ⊕ T) ≠ firstOr h ys := by
    intro heq
    have := hs.firstOr_inj hσ hσ' (by rw [firstOr_cons, ← heq])
    simp at this
  have hnext : (s.remove (.inr t)).next =
      Function.update (Function.update s.next (lastOr h xs) (firstOr h ys)) (.inr t) (.inr t) := by
    simp [Links.remove, Links.setNext, Links.setPrev, hleft.2, hright.1,
      Function.update_of_ne hfirst]
  have hprev : (s.remove (.inr t)).prev =
      Function.update (Function.update s.prev (firstOr h ys) (lastOr h xs)) (.inr t) (.inr t) := by
    simp [Links.remove, Links.setNext, Links.setPrev, hleft.2, hright.1]
  -- the split points around `t` are the only ones whose links are rewritten
  have keep : ∀ {h' as bs}, σ h' = as ++ bs → ¬ (h' = h ∧ as = xs) → ¬ (h' = h ∧ bs = ys) →
      (s.remove (.inr t)).next (lastOr h' as) = firstOr h' bs ∧
        (s.remove (.inr t)).prev (firstOr h' bs) = lastOr h' as := by
    intro h' as bs hsplit hne hne'
    have n₁ : lastOr h' as ≠ lastOr h xs := fun heq =>
      hne ⟨(hs.lastOr_inj hsplit hσ heq).1, (hs.lastOr_inj hsplit hσ heq).2.1⟩
    have n₂ : lastOr h' as ≠ .inr t := fun heq =>
      have := hs.lastOr_inj hsplit hσ' (by rw [lastOr_concat, heq])
      hne' ⟨this.1, this.2.2⟩
    have n₃ : firstOr h' bs ≠ firstOr h ys := fun heq =>
      hne' ⟨(hs.firstOr_inj hsplit hσ' heq).1, (hs.firstOr_inj hsplit hσ' heq).2.2⟩
    have n₄ : firstOr h' bs ≠ .inr t := fun heq =>
      have := hs.firstOr_inj hsplit hσ (by rw [firstOr_cons, heq])
      hne ⟨this.1, this.2.1⟩
    rw [hnext, hprev, Function.update_of_ne n₂, Function.update_of_ne n₁,
      Function.update_of_ne n₄, Function.update_of_ne n₃]
    exact hs.adjacent h' as bs hsplit
  have seam : (s.remove (.inr t)).next (lastOr h xs) = firstOr h ys ∧
      (s.remove (.inr t)).prev (firstOr h ys) = lastOr h xs := by
    rw [hnext, hprev, Function.update_of_ne hlast.symm, Function.update_of_ne hfirst.symm]
    simp
  refine ⟨?_, ?_, ?_, ?_⟩
  · intro h' as bs hsplit
    by_cases hh : h' = h
    · subst hh
      rw [herase] at hsplit
      rcases List.append_eq_append_iff.mp hsplit with ⟨cs, rfl, rfl⟩ | ⟨cs, rfl, rfl⟩
      · rcases cs.eq_nil_or_concat' with rfl | ⟨ds, d, rfl⟩
        · simpa using seam
        · have := keep (show σ h' = (xs ++ t :: ds ++ [d]) ++ bs by rw [hσ]; simp)
            (by rintro ⟨-, heq⟩; simp at heq)
            (by
              rintro ⟨-, heq⟩
              have := congrArg List.length heq
              simp at this
              omega)
          rw [lastOr_concat] at this
          rwa [← List.append_assoc, lastOr_concat]
      · cases cs with
        | nil => simpa using seam
        | cons c cs =>
          have := keep (show σ h' = as ++ (c :: cs ++ t :: ys) by rw [hσ]; simp)
            (by rintro ⟨-, heq⟩; simp at heq)
            (by
              rintro ⟨-, heq⟩
              have := congrArg List.length heq
              simp at this
              omega)
          simpa using this
    · rw [hother hh] at hsplit
      exact keep hsplit (fun heq => hh heq.1) (fun heq => hh heq.1)
  · intro u hu
    by_cases hut : u = t
    · subst hut
      rw [hnext, hprev]
      simp
    · have hold : Fresh σ u := fun h' hm => hu h' (hs.mem_erase.mpr ⟨hut, hm⟩)
      have n₁ : (Sum.inr u : H ⊕ T) ≠ lastOr h xs := by
        rcases xs.eq_nil_or_concat' with rfl | ⟨cs, c, rfl⟩
        · simp
        · intro heq
          simp only [lastOr_concat, Sum.inr.injEq] at heq
          exact hold h (by rw [hσ, heq]; simp)
      have n₂ : (Sum.inr u : H ⊕ T) ≠ firstOr h ys := by
        cases ys with
        | nil => simp
        | cons c cs =>
          intro heq
          simp only [firstOr_cons, Sum.inr.injEq] at heq
          exact hold h (by rw [hσ, heq]; simp)
      have n₃ : (Sum.inr u : H ⊕ T) ≠ .inr t := by simpa using hut
      rw [hnext, hprev, Function.update_of_ne n₃, Function.update_of_ne n₃,
        Function.update_of_ne n₁, Function.update_of_ne n₂]
      exact hs.alone u hold
  · intro h'
    exact (hs.nodup h').erase t
  · intro h₁ h₂ u h₁u h₂u
    exact hs.disjoint h₁ h₂ u (hs.mem_erase.mp h₁u).2 (hs.mem_erase.mp h₂u).2

/-- Removing takes the element out of whichever list has it, and of no other. -/
theorem Holds.remove (hs : Holds s σ) (t : T) : Holds (s.remove (.inr t)) (erase σ t) := by
  by_cases hfresh : Fresh σ t
  · rw [hs.remove_fresh hfresh, erase_of_fresh hfresh]
    exact hs
  · simp only [Fresh, not_forall, not_not] at hfresh
    obtain ⟨h, hm⟩ := hfresh
    obtain ⟨xs, ys, hσ⟩ := List.append_of_mem hm
    exact hs.remove_mem hσ

end

end PandoraRobot.RingList
