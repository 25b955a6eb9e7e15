import PandoraRobot.Kernel.TimerRuns

/-! # Timers run in the order of their deadlines

`Ordered lo r xs` is what every call and every tick keeps: the timer list `xs` is
in the order of the deadlines and, among equal deadlines, of the starts; and all
that has fired goes before all that is in the list.  `Accounts r r'` says that a
start pending in `r` is still pending in `r'`, has fired since, or was undone by a
call on the same timer.
-/

namespace PandoraRobot.Kernel

open PandoraRobot.RingList PandoraRobot.CircularClock

/-- The start with deadline `d` and number `n` goes before the one with `d'` and `n'`. -/
def Precedes (d n d' n' : Nat) : Prop := d < d' ∨ (d = d' ∧ n < n')

namespace TimerRun

variable {Tm : Type} [DecidableEq Tm]

structure Ordered (lo : Int) (r : TimerRun Tm) (xs : List Tm) : Prop where
  sorted : r.timers.Sorted lo xs
  rtTick : r.timers.rtTick = BitVec.ofNat 32 r.clock
  timeoutTick : ∀ t ∈ xs, (r.timers.timer t).timeoutTick = BitVec.ofNat 32 (r.deadline t)
  remaining : ∀ t ∈ xs, r.timers.remaining t = r.deadline t - r.clock
  order : xs.Pairwise fun a b =>
    Precedes (r.deadline a) (r.startNo a) (r.deadline b) (r.startNo b)
  numbered : ∀ t ∈ xs, r.startNo t < r.starts
  firedTick : ∀ f ∈ r.fired, f.timeoutTick = BitVec.ofNat 32 f.deadline ∧
    f.rtTick = BitVec.ofNat 32 f.clock
  firedLate : ∀ f ∈ r.fired, f.deadline ≤ f.clock ∧ f.clock ≤ r.clock
  firedNumbered : ∀ f ∈ r.fired, f.startNo < r.starts
  firedOrder : r.fired.Pairwise fun g f =>
    Precedes f.deadline f.startNo g.deadline g.startNo
  firedFirst : ∀ f ∈ r.fired, ∀ t ∈ xs,
    Precedes f.deadline f.startNo (r.deadline t) (r.startNo t)

structure Accounts (r r' : TimerRun Tm) : Prop where
  clock : r'.clock = r.clock
  fired : r.fired ⊆ r'.fired
  cancelled : r.cancelled ⊆ r'.cancelled
  pending : ∀ t, r.isLinked t = true →
    (r'.isLinked t = true ∧ r'.startNo t = r.startNo t ∧ r'.deadline t = r.deadline t) ∨
      (∃ f ∈ r'.fired, f.timer = t ∧ f.startNo = r.startNo t) ∨
      r.startNo t ∈ r'.cancelled

variable {r r' r'' : TimerRun Tm} {xs xs' : List Tm} {lo : Int} {t : Tm}

theorem isLinked_iff (hl : r.timers.Linked xs) : r.isLinked t = true ↔ t ∈ xs := by
  have hiff := Holds.linked_iff hl (t := t)
  rw [isLinked, decide_eq_true_iff, ← hiff]
  simp

theorem Accounts.refl (r : TimerRun Tm) : Accounts r r :=
  ⟨rfl, fun _ h => h, fun _ h => h, fun _ h => .inl ⟨h, rfl, rfl⟩⟩

theorem Accounts.trans (h₁ : Accounts r r') (h₂ : Accounts r' r'') : Accounts r r'' := by
  refine ⟨h₂.clock.trans h₁.clock, fun _ hf => h₂.fired (h₁.fired hf), fun _ hn => h₂.cancelled (h₁.cancelled hn), ?_⟩
  intro t ht
  rcases h₁.pending t ht with ⟨hlinked, hno, hdl⟩ | ⟨f, hf, hft⟩ | hcancel
  · have := h₂.pending t hlinked
    rwa [hno, hdl] at this
  · exact .inr (.inl ⟨f, h₂.fired hf, hft⟩)
  · exact .inr (.inr (h₂.cancelled hcancel))

omit [DecidableEq Tm] in
/-- Nothing happened but to the timers, and the list lost at most some of its timers. -/
theorem Ordered.sublist (ho : Ordered lo r xs) (hsub : xs'.Sublist xs) {timers : Timers Tm}
    {cancelled : List Nat} {stale : Tm → Bool} (hs : timers.Sorted lo xs')
    (htick : timers.rtTick = r.timers.rtTick)
    (htimer : ∀ t ∈ xs', (timers.timer t).timeoutTick = (r.timers.timer t).timeoutTick) :
    Ordered lo { r with timers := timers, cancelled := cancelled, stale := stale } xs' where
  sorted := hs
  rtTick := htick.trans ho.rtTick
  timeoutTick t ht := (htimer t ht).trans (ho.timeoutTick t (hsub.subset ht))
  remaining t ht := by
    show timers.remaining t = _
    rw [Timers.remaining, htick, htimer t ht]
    exact ho.remaining t (hsub.subset ht)
  order := ho.order.sublist hsub
  numbered t ht := ho.numbered t (hsub.subset ht)
  firedTick := ho.firedTick
  firedLate := ho.firedLate
  firedNumbered := ho.firedNumbered
  firedOrder := ho.firedOrder
  firedFirst f hf t ht := ho.firedFirst f hf t (hsub.subset ht)

theorem Ordered.setActivated (ho : Ordered lo r xs) (t : Tm) (b : Bool) :
    Ordered lo (r.withTimers (·.setActivated t b)) xs :=
  ho.sublist (.refl _) (ho.sorted.setActivated t b) rfl fun u _ => by
    by_cases hu : u = t
    · subst hu
      simp
    · simp [hu]

/-! ## Calls -/

section Calls

variable [Fintype Tm]

theorem Ordered.start (ho : Ordered lo r xs) (hlo : -1 ≤ lo) (hlo' : lo ≤ 0)
    (h : r.start t = .ok r') : ∃ xs', Ordered lo r' xs' ∧ Accounts r r' := by
  simp only [TimerRun.start, exec_bind_ok, exec_pure_ok] at h
  obtain ⟨timers, hstart, rfl⟩ := h
  have hst := Timers.rtTimerStart_started ho.sorted.linked hstart
  obtain ⟨as, bs, hsplit, hsorted, hbefore, hafter⟩ := ho.sorted.start hlo hlo' hst
  have hnd := ho.sorted.linked.nodup
  have hmem : ∀ u, u ∈ as ++ t :: bs → u ≠ t → u ∈ xs := by
    intro u hu hne
    have : u ∈ xs.erase t := by
      rw [hsplit]
      simpa [hne] using hu
    exact List.mem_of_mem_erase this
  have hleft : ∀ a ∈ as, a ≠ t ∧ a ∈ xs := by
    intro a ha
    have ha' : a ∈ xs.erase t := hsplit ▸ List.mem_append_left _ ha
    exact hnd.mem_erase_iff.mp ha'
  have hright : ∀ b ∈ bs, b ≠ t ∧ b ∈ xs := by
    intro b hb
    have hb' : b ∈ xs.erase t := hsplit ▸ List.mem_append_right _ hb
    exact hnd.mem_erase_iff.mp hb'
  have hself : timers.remaining t = (r.timers.timer t).initTick.toNat := hst.remaining_self
  have hother : ∀ u, u ≠ t → u ∈ xs → timers.remaining u = r.deadline u - r.clock :=
    fun u hne hu => (hst.remaining_other hne).trans (ho.remaining u hu)
  refine ⟨as ++ t :: bs, ⟨hsorted, hst.rtTick.trans ho.rtTick, ?_, ?_, ?_, ?_, ho.firedTick,
    ho.firedLate, ?_, ho.firedOrder, ?_⟩, rfl, fun _ hf => hf, ?_, ?_⟩
  · intro u hu
    show (timers.timer u).timeoutTick = _
    rw [hst.timer]
    by_cases hut : u = t
    · subst hut
      simp only [Function.update_self, Timers.startedTimer, ho.rtTick]
      rw [BitVec.ofNat_add, BitVec.ofNat_toNat, BitVec.setWidth_eq]
    · simpa [hut] using ho.timeoutTick u (hmem u hu hut)
  · intro u hu
    show timers.remaining u = _
    by_cases hut : u = t
    · subst hut
      rw [hself]
      simp
    · simpa [hut] using hother u hut (hmem u hu hut)
  · have horder := ho.order.sublist (List.erase_sublist (a := t))
    rw [hsplit, List.pairwise_append] at horder
    obtain ⟨horderL, horderR, hcross⟩ := horder
    -- the new start has the highest number, so it may share its deadline with those before it
    have hself_after : ∀ a ∈ as, Precedes (r.deadline a) (r.startNo a)
        (r.clock + (r.timers.timer t).initTick.toNat) r.starts := by
      intro a ha
      have hle := hbefore a ha
      have hno := ho.numbered a (hleft a ha).2
      rw [hother a (hleft a ha).1 (hleft a ha).2, hself] at hle
      unfold Precedes
      omega
    have hself_before : ∀ b ∈ bs, Precedes (r.clock + (r.timers.timer t).initTick.toNat) r.starts
        (r.deadline b) (r.startNo b) := by
      intro b hb
      have hlt := hafter b hb
      rw [hother b (hright b hb).1 (hright b hb).2, hself] at hlt
      unfold Precedes
      omega
    rw [List.pairwise_append, List.pairwise_cons]
    refine ⟨horderL.imp_of_mem ?_, ⟨?_, horderR.imp_of_mem ?_⟩, ?_⟩
    · intro a b ha hb hab
      simpa [(hleft a ha).1, (hleft b hb).1] using hab
    · intro b hb
      simpa [(hright b hb).1] using hself_before b hb
    · intro a b ha hb hab
      simpa [(hright a ha).1, (hright b hb).1] using hab
    · intro a ha b hb
      cases List.mem_cons.mp hb with
      | inl hbt =>
        subst hbt
        simpa [(hleft a ha).1] using hself_after a ha
      | inr hb => simpa [(hleft a ha).1, (hright b hb).1] using hcross a ha b hb
  · intro u hu
    show Function.update r.startNo t r.starts u < r.starts + 1
    by_cases hut : u = t
    · subst hut
      simp
    · simpa [hut] using Nat.lt_succ_of_lt (ho.numbered u (hmem u hu hut))
  · intro f hf
    exact Nat.lt_succ_of_lt (ho.firedNumbered f hf)
  · intro f hf u hu
    show Precedes _ _ (Function.update r.deadline t _ u) (Function.update r.startNo t _ u)
    by_cases hut : u = t
    · subst hut
      have hlate := ho.firedLate f hf
      have hno := ho.firedNumbered f hf
      simp only [Function.update_self]
      unfold Precedes
      omega
    · simpa [hut] using ho.firedFirst f hf u (hmem u hu hut)
  · intro n hn
    show n ∈ r.noteCancel t
    unfold noteCancel
    split <;> simp [hn]
  · intro u hu
    have hux := (isLinked_iff ho.sorted.linked).mp hu
    by_cases hut : u = t
    · subst hut
      right; right
      show _ ∈ r.noteCancel u
      simp [noteCancel, hu]
    · left
      refine ⟨(isLinked_iff hsorted.linked).mpr ?_, by simp [hut], by simp [hut]⟩
      have : u ∈ xs.erase t := (List.mem_erase_of_ne hut).mpr hux
      rw [hsplit] at this
      simpa [hut] using this

theorem Ordered.exec (ho : Ordered lo r xs) (hlo : -1 ≤ lo) (hlo' : lo ≤ 0)
    {op : TimerOp Tm} (h : r.exec op = .ok r') :
    ∃ xs', Ordered lo r' xs' ∧ Accounts r r' := by
  -- every call but `rt_timer_start` leaves the list alone or takes its own timer out
  have hunstarted : ∀ {timers : Timers Tm} {xs' : List Tm},
      op.Unstarted r.timers xs timers xs' → ∃ xs', Ordered lo { r with
        timers := timers
        cancelled := if ({ r with timers := timers } : TimerRun Tm).isLinked op.timer then
          r.cancelled else r.noteCancel op.timer
        stale := r.noteStale op } xs' ∧ Accounts r { r with
        timers := timers
        cancelled := if ({ r with timers := timers } : TimerRun Tm).isLinked op.timer then
          r.cancelled else r.noteCancel op.timer
        stale := r.noteStale op } := by
    intro timers xs' hu
    refine ⟨xs', ho.sublist hu.sublist (hu.sorted ho.sorted) hu.rtTick
      (fun t ht => (hu.timeoutTick ht).1), rfl, fun _ hf => hf, ?_, ?_⟩
    · intro n hn
      show n ∈ ite _ _ _
      unfold noteCancel
      split_ifs <;> simp [hn]
    · intro t ht
      have htx := (isLinked_iff ho.sorted.linked).mp ht
      by_cases hmem : t ∈ xs'
      · exact .inl ⟨(isLinked_iff hu.linked).mpr hmem, rfl, rfl⟩
      · -- only the timer the call is about can have left the list
        have hop : t = op.timer := by
          cases hu.list with
          | inl heq => exact absurd (heq ▸ htx) hmem
          | inr heq =>
            by_contra hne
            exact hmem (heq ▸ (List.mem_erase_of_ne hne).mpr htx)
        subst hop
        have hgone : ({ r with timers := timers } : TimerRun Tm).isLinked op.timer = false := by
          rw [Bool.eq_false_iff]
          exact fun hl => hmem ((isLinked_iff hu.linked).mp hl)
        right; right
        show _ ∈ ite _ _ _
        rw [hgone]
        simp [noteCancel, ht]
  cases op with
  | start t => exact ho.start hlo hlo' h
  | init | create | stop | control | detach | delete =>
    simp only [TimerRun.exec, exec_bind_ok, exec_pure_ok] at h
    obtain ⟨timers, hexec, rfl⟩ := h
    obtain ⟨t, hop, -⟩ | ⟨xs', hu⟩ :=
      TimerOp.exec_cases ho.sorted.linked ho.sorted.registered hexec
    · cases hop
    · exact hunstarted hu

theorem Ordered.calls (ho : Ordered lo r xs) (hlo : -1 ≤ lo) (hlo' : lo ≤ 0)
    {ops : List (TimerOp Tm)} (h : ops.foldlM (fun r op => r.exec op) r = .ok r') :
    ∃ xs', Ordered lo r' xs' ∧ Accounts r r' := by
  induction ops generalizing r xs with
  | nil =>
    simp only [List.foldlM_nil, exec_pure_ok] at h
    exact ⟨xs, h ▸ ho, h ▸ .refl r⟩
  | cons op ops ih =>
    simp only [List.foldlM_cons, exec_bind_ok] at h
    obtain ⟨r₁, hexec, hrest⟩ := h
    obtain ⟨xs₁, ho₁, hacc₁⟩ := ho.exec hlo hlo' hexec
    obtain ⟨xs₂, ho₂, hacc₂⟩ := ih ho₁ hrest
    exact ⟨xs₂, ho₂, hacc₁.trans hacc₂⟩

end Calls

/-! ## The tick interrupt -/

/-- A timer taken from the front of the list and noted as fired. -/
theorem Ordered.takeFront (ho : Ordered lo r (t :: xs)) (hdue : r.deadline t ≤ r.clock)
    {f : Firing Tm} (hf : ∃ calls, f = r.firing t calls) :
    Ordered lo { r.withTimers (·.rtTimerRemove t) with fired := f :: r.fired } xs := by
  obtain ⟨calls, rfl⟩ := hf
  have hrem : Ordered lo (r.withTimers (·.rtTimerRemove t)) xs :=
    ho.sublist (List.sublist_cons_self t xs) ho.sorted.removeFront rfl fun _ _ => rfl
  have horder := ho.order
  rw [List.pairwise_cons] at horder
  have hfront := ho.firedFirst
  refine { hrem with
    firedTick := ?_, firedLate := ?_, firedNumbered := ?_, firedOrder := ?_, firedFirst := ?_ }
  · intro f hf
    cases List.mem_cons.mp hf with
    | inl h =>
      subst h
      exact ⟨ho.timeoutTick t (by simp), ho.rtTick⟩
    | inr h => exact ho.firedTick f h
  · intro f hf
    cases List.mem_cons.mp hf with
    | inl h =>
      subst h
      exact ⟨hdue, le_refl _⟩
    | inr h => exact ho.firedLate f h
  · intro f hf
    cases List.mem_cons.mp hf with
    | inl h =>
      subst h
      exact ho.numbered t (by simp)
    | inr h => exact ho.firedNumbered f h
  · exact List.pairwise_cons.mpr ⟨fun f hf => hfront f hf t (by simp), ho.firedOrder⟩
  · intro f hf u hu
    cases List.mem_cons.mp hf with
    | inl h =>
      subst h
      exact horder.1 u hu
    | inr h => exact hfront f h u (by simp [hu])

variable [Fintype Tm] {cb : Callback Tm}

theorem Ordered.fire (ho : Ordered (-1) r xs)
    (hnext : r.timers.rtTimerList.next (.inl ()) = .inr t)
    (hdue : r.timers.due r.timers.rtTick t = true) (h : (host cb).fire t r = .ok r') :
    ∃ xs', Ordered (-1) r' xs' ∧ Accounts r r' := by
  obtain ⟨rest, hxs⟩ := Holds.next_head_eq_elem ho.sorted.linked hnext
  change xs = t :: rest at hxs
  subst hxs
  have hlate : r.deadline t ≤ r.clock := by
    have hle := (ho.sorted.due_iff (le_refl _) (by simp)).mp hdue
    rw [ho.remaining t (by simp)] at hle
    omega
  let removed : TimerRun Tm := r.withTimers (·.rtTimerRemove t)
  let calls := cb t removed
  have htaken := ho.takeFront hlate (f := removed.firing t calls) ⟨calls, rfl⟩
  have hacc : Accounts r { removed with fired := removed.firing t calls :: r.fired } := by
    refine ⟨rfl, fun f hf => List.mem_cons_of_mem _ hf, fun _ hn => hn, ?_⟩
    intro u hu
    have hux := (isLinked_iff ho.sorted.linked).mp hu
    cases List.mem_cons.mp hux with
    | inl hut =>
      subst hut
      exact .inr (.inl ⟨removed.firing u calls, by simp, rfl, rfl⟩)
    | inr hmem => exact .inl ⟨(isLinked_iff htaken.sorted.linked).mpr hmem, rfl, rfl⟩
  obtain ⟨r₁, hcall, hend⟩ := TimerHost.fire_cases h
  obtain ⟨xs₁, ho₁, hacc₁⟩ := htaken.calls (le_refl _) (by omega) hcall
  have hstopped := ho₁.setActivated t false
  have hacc₂ : Accounts r₁ (r₁.withTimers (·.setActivated t false)) :=
    ⟨rfl, fun _ hf => hf, fun _ hn => hn, fun _ hu => .inl ⟨hu, rfl, rfl⟩⟩
  cases hend with
  | inl hrestart =>
    obtain ⟨-, -, hstart⟩ := hrestart
    obtain ⟨xs₃, ho₃, hacc₃⟩ := hstopped.start (le_refl _) (by omega) hstart
    exact ⟨xs₃, ho₃, (hacc.trans hacc₁).trans (hacc₂.trans hacc₃)⟩
  | inr hstop =>
    obtain ⟨-, rfl⟩ := hstop
    exact ⟨xs₁, hstopped, (hacc.trans hacc₁).trans hacc₂⟩

omit [Fintype Tm] [DecidableEq Tm] in
theorem Ordered.ticked (ho : Ordered 0 r xs) : Ordered (-1) r.ticked xs := by
  refine { ho with
    sorted := ho.sorted.advance, rtTick := ?_, remaining := ?_, firedLate := ?_ }
  · show r.timers.rtTick + 1 = BitVec.ofNat 32 (r.clock + 1)
    rw [ho.rtTick, BitVec.ofNat_add]
    rfl
  · intro t ht
    have hlow := (ho.sorted.window t ht).1
    have hold := ho.remaining t ht
    unfold Timers.remaining at hlow hold
    show ahead (r.timers.rtTick + 1) (r.timers.timer t).timeoutTick =
      r.deadline t - ((r.clock + 1 : Nat) : Int)
    rw [@ahead_succ 30 r.timers.rtTick (r.timers.timer t).timeoutTick (by omega), hold]
    push_cast
    ring
  · intro f hf
    have hlate := ho.firedLate f hf
    exact ⟨hlate.1, Nat.le_succ_of_le hlate.2⟩

/-- The tick interrupt leaves nothing in the list that is due. -/
theorem Ordered.tick (ho : Ordered 0 r xs) {fuel : Nat} (h : r.tick cb fuel = .ok r') :
    ∃ xs', Ordered 1 r' xs' ∧ Accounts r.ticked r' := by
  obtain ⟨⟨xs', ho', hacc'⟩, hfront⟩ := TimerHost.rtTimerCheck_rule (host cb)
    (P := fun q => ∃ xs', Ordered (-1) q xs' ∧ Accounts r.ticked q)
    (fun q t q' hq hnext hdue hfired => by
      obtain ⟨ys, hoy, haccy⟩ := hq
      obtain ⟨zs, hoz, haccz⟩ := hoy.fire hnext hdue hfired
      exact ⟨zs, hoz, haccy.trans haccz⟩) ⟨xs, ho.ticked, .refl r.ticked⟩ h
  refine ⟨xs', { ho' with sorted := ho'.sorted.rest (le_refl _) ?_ }, hacc'⟩
  intro t ht
  apply hfront t
  show r'.timers.rtTimerList.next (.inl ()) = .inr t
  rw [Holds.next_head ho'.sorted.linked, firstOr, Option.mem_def.mp ht]
  rfl

/-! ## Runs -/

theorem Ordered.step (ho : Ordered 0 r xs) (h : Step cb r r') : ∃ xs', Ordered 0 r' xs' := by
  cases h with
  | call op h =>
    obtain ⟨xs', ho', -⟩ := ho.exec (by omega) (le_refl _) h
    exact ⟨xs', ho'⟩
  | tick fuel h =>
    obtain ⟨xs', ho', -⟩ := ho.tick h
    exact ⟨xs', { ho' with sorted := ho'.sorted.mono (by omega) }⟩

omit [DecidableEq Tm] [Fintype Tm] in
theorem Initial.ordered (hi : Initial r) : Ordered 0 r [] where
  sorted := ⟨hi.linked, by simp, List.Pairwise.nil, by simp⟩
  rtTick := hi.rtTick
  timeoutTick := by simp
  remaining := by simp
  order := List.Pairwise.nil
  numbered := by simp
  firedTick := by simp [hi.fired]
  firedLate := by simp [hi.fired]
  firedNumbered := by simp [hi.fired]
  firedOrder := by simp [hi.fired]
  firedFirst := by simp [hi.fired]

theorem runs_ordered (hi : Initial r) (hr : Runs cb r r') : ∃ xs, Ordered 0 r' xs := by
  induction hr with
  | refl => exact ⟨[], hi.ordered⟩
  | tail _ hstep ih =>
    obtain ⟨xs, ho⟩ := ih
    exact ho.step hstep

/-- After every run of calls and tick interrupts, from any tick on: the list is in the order of
    the ticks to go; nothing has fired early; all that fired did so in the order of the deadlines
    and, among equal ones, of the starts; and a tick interrupt leaves no timer in the list that is
    due, and loses none that was. -/
theorem timers_run_in_order (cb : Callback Tm) {r₀ r : TimerRun Tm} (hi : Initial r₀)
    (hr : Runs cb r₀ r) :
    (∃ xs, r.timers.Linked xs ∧
      xs.Pairwise fun a b => r.timers.remaining a ≤ r.timers.remaining b) ∧
    (∀ f ∈ r.fired, f.deadline ≤ f.clock ∧
      f.timeoutTick = BitVec.ofNat 32 f.deadline ∧ f.rtTick = BitVec.ofNat 32 f.clock) ∧
    (r.fired.Pairwise fun later earlier =>
      Precedes earlier.deadline earlier.startNo later.deadline later.startNo) ∧
    ∀ fuel r', r.tick cb fuel = .ok r' →
      (∀ t, r'.isLinked t = true → 0 < r'.timers.remaining t) ∧
      ∀ t, r.isLinked t = true → r.timers.advance.remaining t ≤ 0 →
        (∃ f ∈ r'.fired, f.timer = t ∧ f.startNo = r.startNo t) ∨
          r.startNo t ∈ r'.cancelled := by
  obtain ⟨xs, ho⟩ := runs_ordered hi hr
  refine ⟨⟨xs, ho.sorted.linked, ho.sorted.order⟩,
    fun f hf => ⟨(ho.firedLate f hf).1, ho.firedTick f hf⟩, ho.firedOrder, ?_⟩
  intro fuel r' htick
  obtain ⟨xs', ho', hacc⟩ := ho.tick htick
  have hpos : ∀ t, r'.isLinked t = true → 0 < r'.timers.remaining t := by
    intro t ht
    have := (ho'.sorted.window t ((isLinked_iff ho'.sorted.linked).mp ht)).1
    omega
  refine ⟨hpos, ?_⟩
  intro t ht hdue
  obtain hstill | hfired := hacc.pending t ht
  · -- still in the list with the deadline it had, so it was not due
    exfalso
    have ht' := (isLinked_iff ho'.sorted.linked).mp hstill.1
    have hrem' := ho'.remaining t ht'
    have hpos' := hpos t hstill.1
    have hrem := ho.ticked.remaining t ((isLinked_iff ho.sorted.linked).mp ht)
    change r.timers.advance.remaining t = _ at hrem
    rw [hstill.2.2, hacc.clock] at hrem'
    have hsame : r.ticked.deadline t = r.deadline t := rfl
    omega
  · exact hfired

/-- A run that begins three ticks before the tick counter wraps. -/
def wrapStart : TimerRun (Fin 3) where
  timers :=
    { rtTick := 0xfffffffd
      rtTimerList := ⟨id, id⟩
      timer := fun _ => {} }
  clock := 0xfffffffd

/-- Timer `1` restarts timer `2`; the other timers do nothing. -/
def wrapCallback : Callback (Fin 3) := fun t _ => if t = 1 then [.start 2] else []

/-- Timer `0` is periodic and ends together with timer `1`, which is started before it. -/
def wrapScript : List (Option (TimerOp (Fin 3))) :=
  [some (.init 0 2 { periodic := true }), some (.init 1 4 {}), some (.init 2 0 {}),
   some (.start 1), some (.start 0), none, none, none, none]

theorem timers_run_in_order_across_wrap :
    ∃ r, Runs wrapCallback wrapStart r ∧ r.fired.map (·.timer) = [2, 0, 1, 0] ∧
      (∃ xs, r.timers.Linked xs ∧
        xs.Pairwise fun a b => r.timers.remaining a ≤ r.timers.remaining b) ∧
      (∀ f ∈ r.fired, f.deadline ≤ f.clock ∧
        f.timeoutTick = BitVec.ofNat 32 f.deadline ∧ f.rtTick = BitVec.ofNat 32 f.clock) ∧
      (r.fired.Pairwise fun later earlier =>
        Precedes earlier.deadline earlier.startNo later.deadline later.startNo) ∧
      ∀ fuel r', r.tick wrapCallback fuel = .ok r' →
        (∀ t, r'.isLinked t = true → 0 < r'.timers.remaining t) ∧
        ∀ t, r.isLinked t = true → r.timers.advance.remaining t ≤ 0 →
          (∃ f ∈ r'.fired, f.timer = t ∧ f.startNo = r.startNo t) ∨
            r.startNo t ∈ r'.cancelled := by
  have hi : Initial wrapStart := 
    ⟨rfl, holds_empty, rfl, fun _ => rfl, fun _ _ => rfl, fun _ => rfl, rfl, rfl⟩
  obtain ⟨r, hr, hfired⟩ := exec_exists_ok (show
    (wrapStart.script wrapCallback wrapScript).map (fun r => r.fired.map (·.timer)) =
      .ok [2, 0, 1, 0] by decide +kernel)
  have hruns := script_runs hr
  exact ⟨r, hruns, hfired, timers_run_in_order wrapCallback hi hruns⟩

end TimerRun

end PandoraRobot.Kernel
