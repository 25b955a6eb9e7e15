import Mathlib.Data.List.Infix

/-! # The common beginning of lists

How far lists agree, measured against the first of them, and the longest beginning that all of
them have.
-/

namespace PandoraRobot.CommonPrefix

variable {α : Type} [DecidableEq α] {a b first text : List α} {lists others : List (List α)}
  {n : Nat}

/-- The length up to which two lists agree. -/
def commonLength : List α → List α → Nat
  | a :: as, b :: bs => if a = b then commonLength as bs + 1 else 0
  | _, _ => 0

theorem le_commonLength : n ≤ commonLength a b ↔ n ≤ a.length ∧ a.take n <+: b := by
  induction a generalizing b n with
  | nil =>
    cases n <;> simp [commonLength]
  | cons x a ih =>
    cases n with
    | zero => simp
    | succ n =>
      cases b with
      | nil => simp [commonLength]
      | cons y b =>
        by_cases hxy : x = y
        · simp [commonLength, hxy, ih, List.cons_prefix_cons]
        · simp [commonLength, hxy, List.cons_prefix_cons]

@[simp] theorem commonLength_self : commonLength a a = a.length := by
  apply le_antisymm
  · exact (le_commonLength.mp le_rfl).1
  · exact le_commonLength.mpr ⟨le_rfl, List.take_prefix _ _⟩

/-- The length up to which lists agree. -/
def agreement : List (List α) → Nat
  | [] => 0
  | first :: others => others.foldl (fun m other => min m (commonLength first other)) first.length

theorem agreement_append (hlists : lists.head? = some first) :
    agreement (lists ++ [text]) = min (agreement lists) (commonLength first text) := by
  cases lists with
  | nil => cases hlists
  | cons l lists =>
    obtain rfl : l = first := Option.some.inj hlists
    simp [agreement]

theorem le_agreement (hlists : lists.head? = some first) :
    n ≤ agreement lists ↔ n ≤ first.length ∧ ∀ l ∈ lists, first.take n <+: l := by
  induction lists using List.reverseRecOn with
  | nil => cases hlists
  | append_singleton lists text ih =>
    obtain rfl | hne := eq_or_ne lists []
    · obtain rfl : text = first := Option.some.inj hlists
      simp [agreement, List.take_prefix]
    · have hfirst : lists.head? = some first := by
        rwa [List.head?_append_of_ne_nil _ hne] at hlists
      rw [agreement_append hfirst, Nat.le_min, ih hfirst, le_commonLength]
      simp only [List.mem_append, List.mem_singleton, or_imp, forall_and, forall_eq]
      tauto

/-- A list that all the lists begin with, and that has each other one at its beginning. -/
structure IsLongestPrefix (p : List α) (lists : List (List α)) : Prop where
  common : ∀ l ∈ lists, p <+: l
  longest : ∀ q, (∀ l ∈ lists, q <+: l) → q <+: p

/-- The first list, up to where the lists agree. -/
def shared (lists : List (List α)) : List α := (lists.head?.getD []).take (agreement lists)

theorem shared_eq (hlists : lists.head? = some first) :
    shared lists = first.take (agreement lists) := by
  rw [shared, hlists, Option.getD_some]

theorem isLongestPrefix_shared (hne : lists ≠ []) : IsLongestPrefix (shared lists) lists := by
  obtain ⟨first, hfirst⟩ : ∃ first, lists.head? = some first := ⟨_, List.head?_eq_some_head hne⟩
  rw [shared_eq hfirst]
  refine ⟨((le_agreement hfirst).mp le_rfl).2, fun q hq => ?_⟩
  have hbegins : q <+: first := hq first (List.mem_of_head? hfirst)
  have htake : first.take q.length = q := (List.prefix_iff_eq_take.mp hbegins).symm
  have hle : q.length ≤ agreement lists :=
    (le_agreement hfirst).mpr ⟨hbegins.length_le, by rwa [htake]⟩
  rw [← htake]
  exact List.take_prefix_take_left hle

/-- The lists that begin with a text are those that begin with what they have in common. -/
theorem IsLongestPrefix.filter_eq {commands : List (List α)} {p : List α}
    (h : IsLongestPrefix p (commands.filter (text.isPrefixOf ·))) :
    commands.filter (p.isPrefixOf ·) = commands.filter (text.isPrefixOf ·) := by
  have htext : text <+: p := h.longest text fun l hl => by
    simpa using (List.mem_filter.mp hl).2
  refine List.filter_congr fun l hl => ?_
  rw [Bool.eq_iff_iff, List.isPrefixOf_iff_prefix, List.isPrefixOf_iff_prefix]
  exact ⟨htext.trans, fun hbegins => h.common l (List.mem_filter.mpr ⟨hl, by simpa using hbegins⟩)⟩

end PandoraRobot.CommonPrefix
