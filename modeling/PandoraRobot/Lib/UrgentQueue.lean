import Mathlib.Data.List.Nodup
import Mathlib.Data.List.Perm.Basic
import Mathlib.Data.List.Range

/-! # Queues with urgent items

An item goes to the back of the queue, or to its front if it is urgent.  The items
are numbered in the order in which they were put in, and a `History` has, besides the
queue, what was received from its front and what was discarded.
-/

namespace PandoraRobot.UrgentQueue

/-- An item that was put into the queue, and what was in the queue then. -/
structure Link (M : Type) where
  urgent : Bool
  item : M
  queued : List Nat

structure History (M : Type) where
  links : List (Link M)
  queue : List Nat
  received : List Nat
  discarded : List Nat

namespace History

variable {M : Type}

def empty : History M := ⟨[], [], [], []⟩

def link (urgent : Bool) (item : M) (h : History M) : History M :=
  { h with
    links := h.links ++ [⟨urgent, item, h.queue⟩]
    queue := if urgent then h.links.length :: h.queue else h.queue ++ [h.links.length] }

def receive (h : History M) : History M :=
  { h with queue := h.queue.tail, received := h.received ++ h.queue.take 1 }

def reset (h : History M) : History M :=
  { h with queue := [], discarded := h.discarded ++ h.queue }

/-- Item `x` is not urgent. -/
def Normal (h : History M) (x : Nat) : Prop := ∃ l, h.links[x]? = some l ∧ l.urgent = false

/-- Everything that was put in has been received once, has been discarded, or is still there.
    In the order in which items leave, each comes after the normal items that were put in before
    it, if it is a normal one itself, and after the urgent items put in while it was there. -/
structure Orderly (h : History M) : Prop where
  once : (h.received ++ h.queue ++ h.discarded).Perm (List.range h.links.length)
  normal : ∀ xs y, xs ++ [y] <+: h.received ++ h.queue → h.Normal y →
    ∀ x < y, h.Normal x → x ∈ xs ∨ x ∈ h.discarded
  urgent : ∀ xs x, xs ++ [x] <+: h.received ++ h.queue →
    ∀ (u : Nat) (l : Link M), h.links[u]? = some l → l.urgent = true → x ∈ l.queued → u ∈ xs
  earlier : ∀ (u : Nat) (l : Link M), h.links[u]? = some l → ∀ x ∈ l.queued, x < u

variable {h : History M} {item : M} {x y : Nat} {xs : List Nat}

theorem orderly_empty : (empty : History M).Orderly := by
  apply Orderly.mk <;> simp [empty]

theorem Orderly.nodup (ho : h.Orderly) : (h.received ++ h.queue ++ h.discarded).Nodup :=
  ho.once.nodup_iff.mpr List.nodup_range

theorem Orderly.lt (ho : h.Orderly) (hx : x ∈ h.received ++ h.queue) : x < h.links.length := by
  have hmem := ho.once.mem_iff.mp (List.mem_append_left h.discarded hx)
  exact List.mem_range.mp hmem

/-- The link of an item is the new one or an earlier one. -/
theorem link_links {urgent : Bool} {u : Nat} {l : Link M}
    (hl : (h.link urgent item).links[u]? = some l) :
    h.links[u]? = some l ∨ (u = h.links.length ∧ l = ⟨urgent, item, h.queue⟩) := by
  simp only [link, List.getElem?_append] at hl
  split at hl
  · exact .inl hl
  · obtain ⟨hlt, hl⟩ := List.getElem?_eq_some_iff.mp hl
    have hu : u = h.links.length := by
      simp only [List.length_singleton] at hlt
      omega
    exact .inr ⟨hu, by simpa using hl.symm⟩

theorem normal_link {urgent : Bool} (hx : (h.link urgent item).Normal x)
    (hne : x ≠ h.links.length) : h.Normal x := by
  obtain ⟨l, hl, hurgent⟩ := hx
  obtain hl | ⟨heq, -⟩ := link_links hl
  · exact ⟨l, hl, hurgent⟩
  · exact absurd heq hne

/-- The queue of a new item has only earlier ones. -/
theorem Orderly.link_earlier (ho : h.Orderly) (urgent : Bool) :
    ∀ (u : Nat) (l : Link M), (h.link urgent item).links[u]? = some l →
      ∀ x ∈ l.queued, x < u := by
  intro u l hl x hx
  obtain hl | ⟨rfl, rfl⟩ := link_links hl
  · exact ho.earlier u l hl x hx
  · exact ho.lt (List.mem_append_right _ hx)

/-- A prefix of a list with `n` in it ends before `n`, at `n` or after `n`. -/
theorem prefix_insert {as bs : List Nat} {n : Nat} (hpre : xs ++ [y] <+: as ++ n :: bs) :
    xs ++ [y] <+: as ∨ (xs = as ∧ y = n) ∨
      ∃ cs, xs = as ++ n :: cs ∧ as ++ cs ++ [y] <+: as ++ bs := by
  induction as generalizing xs with
  | nil =>
    cases xs with
    | nil => exact .inr (.inl (by simpa using hpre))
    | cons c cs =>
      simp only [List.nil_append, List.cons_append, List.cons_prefix_cons] at hpre
      obtain ⟨rfl, hpre⟩ := hpre
      exact .inr (.inr ⟨cs, rfl, hpre⟩)
  | cons a as ih =>
    cases xs with
    | nil =>
      have hy : y = a := by simpa using hpre
      exact .inl (by simp [hy])
    | cons c cs =>
      simp only [List.cons_append, List.cons_prefix_cons] at hpre ⊢
      obtain ⟨rfl, hpre⟩ := hpre
      obtain hfront | ⟨rfl, rfl⟩ | ⟨ds, rfl, hrest⟩ := ih hpre
      · exact .inl ⟨rfl, hfront⟩
      · exact .inr (.inl ⟨rfl, rfl⟩)
      · exact .inr (.inr ⟨ds, rfl, trivial, hrest⟩)

/-- Where a new item goes. -/
theorem link_queue (h : History M) (urgent : Bool) (item : M) :
    ∃ front back, h.queue = front ++ back ∧
      (h.link urgent item).queue = front ++ h.links.length :: back ∧
      (urgent = true → front = []) ∧ (urgent = false → back = []) := by
  cases urgent with
  | false => exact ⟨h.queue, [], by simp [link]⟩
  | true => exact ⟨[], h.queue, by simp [link]⟩

theorem Orderly.link (ho : h.Orderly) (urgent : Bool) (item : M) :
    (h.link urgent item).Orderly := by
  -- the new item is in the middle of what has been received and what will be
  obtain ⟨front, back, hqueue, hlinked, hfront, hback⟩ := link_queue h urgent item
  have hserved : (h.link urgent item).received ++ (h.link urgent item).queue =
      h.received ++ front ++ h.links.length :: back := by
    rw [hlinked, ← List.append_assoc]
    rfl
  have hold : h.received ++ h.queue = h.received ++ front ++ back := by
    rw [hqueue, List.append_assoc]
  have hmem : ∀ {xs x}, xs ++ [x] <+: h.received ++ h.queue → x < h.links.length :=
    fun hpre => ho.lt (hpre.subset (by simp))
  refine ⟨?_, fun xs y hpre hy x hlt hx => ?_, fun xs x hpre u l hl hu hx => ?_,
    ho.link_earlier urgent⟩
  -- every item is there once
  · have honce := ho.once.cons h.links.length
    rw [hserved, History.link, List.length_append, List.length_singleton, List.range_succ]
    refine List.Perm.trans ?_ (honce.trans (List.perm_append_singleton _ _).symm)
    rw [hold, List.append_assoc, List.cons_append, ← List.cons_append, List.append_assoc _ back]
    exact List.perm_middle
  -- the items before a normal one are all that came before it
  · rw [hserved] at hpre
    obtain hpre | ⟨rfl, rfl⟩ | ⟨cs, rfl, hrest⟩ := prefix_insert hpre
    · have hpre' := hold ▸ List.prefix_append_of_prefix hpre
      have hlength := hmem hpre'
      exact ho.normal xs y hpre' (normal_link hy (by omega)) x hlt (normal_link hx (by omega))
    · -- a new normal item is the last
      obtain ⟨l, hl, hnormal⟩ := hy
      obtain hl | ⟨-, rfl⟩ := link_links hl
      · have := (List.getElem?_eq_some_iff.mp hl).1
        omega
      have hin := ho.once.mem_iff.mpr (List.mem_range.mpr hlt)
      rw [hold, hback hnormal, List.append_nil] at hin
      exact List.mem_append.mp hin
    · have hpre' := hold ▸ hrest
      have hlength := hmem hpre'
      obtain hin | hin := ho.normal _ y hpre' (normal_link hy (by omega)) x hlt
        (normal_link hx (by omega))
      · refine .inl ?_
        simp only [List.mem_append, List.mem_cons] at hin ⊢
        tauto
      · exact .inr hin
  -- an urgent one comes before all that were queued when it came
  · rw [hserved] at hpre
    have hrange : u < h.links.length + 1 := by
      have := (List.getElem?_eq_some_iff.mp hl).1
      simpa [History.link] using this
    obtain hpre | ⟨-, rfl⟩ | ⟨cs, rfl, hrest⟩ := prefix_insert hpre
    · have hpre' := hold ▸ List.prefix_append_of_prefix hpre
      obtain hl | ⟨rfl, rfl⟩ := link_links hl
      · exact ho.urgent xs x hpre' u l hl hu hx
      · -- what was received is not in the queue
        rw [hfront hu, List.append_nil] at hpre
        have hreceived := hpre.subset (List.mem_append_right xs (List.mem_singleton_self x))
        have hnodup := (List.nodup_append.mp (List.nodup_append.mp ho.nodup).1).2.2
        exact absurd rfl (hnodup x hreceived x hx)
    · have := ho.link_earlier urgent u l hl _ hx
      omega
    · have hpre' := hold ▸ hrest
      obtain hl | ⟨rfl, -⟩ := link_links hl
      · have hin := ho.urgent _ x hpre' u l hl hu hx
        simp only [List.mem_append, List.mem_cons] at hin ⊢
        tauto
      · simp

/-- What is received goes from the one list to the other. -/
theorem receive_served (h : History M) :
    h.receive.received ++ h.receive.queue = h.received ++ h.queue := by
  cases hqueue : h.queue <;> simp [receive, hqueue]

theorem Orderly.receive (ho : h.Orderly) : h.receive.Orderly := by
  refine ⟨?_, ?_, ?_, ho.earlier⟩ <;> rw [receive_served]
  · exact ho.once
  · exact ho.normal
  · exact ho.urgent

theorem Orderly.reset (ho : h.Orderly) : h.reset.Orderly := by
  have hpre : ∀ {xs x}, xs ++ [x] <+: h.reset.received ++ h.reset.queue →
      xs ++ [x] <+: h.received ++ h.queue := by
    intro xs x hpre
    simp only [History.reset, List.append_nil] at hpre
    exact List.prefix_append_of_prefix hpre
  refine ⟨?_, fun xs y hxs hy x hlt hx => ?_, fun xs x hxs => ho.urgent xs x (hpre hxs),
    ho.earlier⟩
  · simp only [History.reset, List.append_nil]
    refine List.Perm.trans ?_ ho.once
    rw [List.append_assoc]
    exact List.perm_append_comm.append_left _
  · exact (ho.normal xs y (hpre hxs) hy x hlt hx).imp_right (List.mem_append_left _)

end History

end PandoraRobot.UrgentQueue
