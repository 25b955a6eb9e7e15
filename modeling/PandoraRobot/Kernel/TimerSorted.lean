import Mathlib.Data.List.TakeWhile
import PandoraRobot.Kernel.Timer
import PandoraRobot.Lib.CircularClock

/-! # The timer list is in order

`Sorted lo s xs` says that the timer list of `s` is `xs`, that every timer in it
has between `lo` and `RT_TICK_MAX / 2 - 1` ticks to go, and that the list is in
the order of the ticks to go.  Outside the tick interrupt `lo` is `0`.  Inside it,
after `++ rt_tick` and before `rt_timer_check` is through, `lo` is `-1`: a timer
that was started with no ticks to go is one tick late.

Within that window a comparison of 32-bit differences agrees with the order of
the ticks to go, so `rt_timer_start` keeps the order and `rt_timer_check` may stop
at the first timer that is not due.
-/

namespace PandoraRobot.Kernel

open PandoraRobot.RingList PandoraRobot.CircularClock

namespace Timers

variable {Tm : Type} [DecidableEq Tm]

/-! ## Field lemmas -/

section Fields

variable (s : Timers Tm) (t : Tm) (f : Timer → Timer) (b : Bool)

@[simp] theorem modifyTimer_rtTick : (s.modifyTimer t f).rtTick = s.rtTick := rfl
@[simp] theorem modifyTimer_rtTimerList : (s.modifyTimer t f).rtTimerList = s.rtTimerList := rfl
@[simp] theorem modifyTimer_timer :
    (s.modifyTimer t f).timer = Function.update s.timer t (f (s.timer t)) := rfl
@[simp] theorem rtTimerRemove_rtTick : (s.rtTimerRemove t).rtTick = s.rtTick := rfl
@[simp] theorem rtTimerRemove_timer : (s.rtTimerRemove t).timer = s.timer := rfl
@[simp] theorem setActivated_rtTick : (s.setActivated t b).rtTick = s.rtTick := rfl
@[simp] theorem setActivated_rtTimerList :
    (s.setActivated t b).rtTimerList = s.rtTimerList := rfl
@[simp] theorem setActivated_timer : (s.setActivated t b).timer =
    Function.update s.timer t { s.timer t with flag := { (s.timer t).flag with activated := b } } :=
  rfl

omit [DecidableEq Tm] in
@[simp] theorem advance_rtTick : s.advance.rtTick = s.rtTick + 1 := rfl
omit [DecidableEq Tm] in
@[simp] theorem advance_rtTimerList : s.advance.rtTimerList = s.rtTimerList := rfl
omit [DecidableEq Tm] in
@[simp] theorem advance_timer : s.advance.timer = s.timer := rfl

end Fields

/-! ## The list -/

/-- The timer list is `xs`. -/
def Linked (s : Timers Tm) (xs : List Tm) : Prop := Holds s.rtTimerList fun _ => xs

variable {s s' : Timers Tm} {xs : List Tm} {t : Tm}

theorem update_unit {α : Type} (f : Unit → α) (a : α) : Function.update f () a = fun _ => a := by
  funext u
  simp

omit [DecidableEq Tm] in
theorem Linked.nodup (hl : Linked s xs) : xs.Nodup := Holds.nodup hl ()

theorem Linked.remove (hl : Linked s xs) (t : Tm) : Linked (s.rtTimerRemove t) (xs.erase t) :=
  Holds.remove hl t

theorem Linked.insertAfter {as bs : List Tm} (hl : Linked s xs) (hxs : xs = as ++ bs) (ht : t ∉ xs) :
    Holds (rtListInsertAfter (lastOr () as) (.inr t) s.rtTimerList) fun _ => as ++ t :: bs := by
  have := Holds.insertAfter hl (h := ()) hxs (fun _ => ht)
  rwa [insertAt, update_unit] at this

/-- `b` ends after `timeoutTick`, as the walk of `rt_timer_start` compares it. -/
def later (s : Timers Tm) (timeoutTick : Tick) (b : Tm) : Bool :=
  (s.timer b).timeoutTick - timeoutTick ≠ 0 ∧
    ((s.timer b).timeoutTick - timeoutTick).toNat < rtTickMaxHalf

theorem rtTimerSeek_eq (hl : Linked s xs) (timeoutTick : Tick) :
    ∀ {fuel : Nat} {as bs : List Tm}, xs = as ++ bs → bs.length < fuel →
      s.rtTimerSeek timeoutTick fuel (lastOr () as) =
        .ok (lastOr () (as ++ bs.takeWhile (!s.later timeoutTick ·))) := by
  intro fuel
  induction fuel with
  | zero => intro as bs _ hfuel; omega
  | succ fuel ih =>
    intro as bs hxs hfuel
    obtain ⟨hlast, hnext⟩ : s.rtTimerList.prev (.inl ()) = lastOr () xs ∧
        s.rtTimerList.next (lastOr () as) = firstOr () bs :=
      ⟨(Holds.adjacent hl () xs [] (by simp)).2, (Holds.adjacent hl () as bs hxs).1⟩
    rw [rtTimerSeek, hlast, hnext]
    cases bs with
    | nil => simp [hxs, pure, Except.pure]
    | cons b bs =>
      have hne : lastOr () as ≠ lastOr () xs := by
        intro heq
        have := Holds.lastOr_inj hl (h := ()) hxs (show xs = xs ++ [] by simp) heq
        simp at this
      have hstep := ih (show xs = (as ++ [b]) ++ bs by simpa using hxs) (by simp at hfuel; omega)
      rw [lastOr_concat] at hstep
      rw [if_neg hne, firstOr_cons]
      simp only
      split_ifs with hzero hlater
      · have hkeep : s.later timeoutTick b = false := decide_eq_false fun h => h.1 hzero
        simpa [List.takeWhile_cons, hkeep] using hstep
      · have hstop : s.later timeoutTick b = true := decide_eq_true ⟨hzero, hlater⟩
        simp [hstop, pure, Except.pure]
      · have hkeep : s.later timeoutTick b = false := decide_eq_false fun h => hlater h.2
        simpa [List.takeWhile_cons, hkeep] using hstep

/-- What `rt_timer_start` writes to the timer it starts. -/
def startedTimer (s : Timers Tm) (t : Tm) : Timer :=
  { s.timer t with
    timeoutTick := s.rtTick + (s.timer t).initTick
    flag := { (s.timer t).flag with activated := true } }

/-- The effect of `rt_timer_start` on a state whose timer list is `xs`: the timer goes
    behind those that do not end later. -/
structure Started (s : Timers Tm) (t : Tm) (xs : List Tm) (s' : Timers Tm) : Prop where
  type : (s.timer t).type ≠ .null
  init : (s.timer t).initTick.toNat < rtTickMaxHalf
  rtTick : s'.rtTick = s.rtTick
  timer : s'.timer = Function.update s.timer t (s.startedTimer t)
  list : ∃ as bs, xs.erase t = as ++ bs ∧ Linked s' (as ++ t :: bs) ∧
    (∀ a ∈ as, s.later (s.startedTimer t).timeoutTick a = false) ∧
    ∀ b ∈ bs.head?, s.later (s.startedTimer t).timeoutTick b = true

variable [Fintype Tm]

theorem rtTimerStart_returns (hl : Linked s xs) (htype : (s.timer t).type ≠ .null)
    (hinit : (s.timer t).initTick.toNat < rtTickMaxHalf) :
    ∃ s', s.rtTimerStart t = .ok s' ∧ Started s t xs s' := by
  let tt := s.rtTick + (s.timer t).initTick
  -- `unlinked` is the state behind the first loop, and `s₁` that in front of the search
  let unlinked := (s.rtTimerRemove t).setActivated t false
  let s₁ := unlinked.modifyTimer t fun timer =>
    { timer with timeoutTick := unlinked.rtTick + timer.initTick }
  have hl₁ : Linked s₁ (xs.erase t) := hl.remove t
  have ht : t ∉ xs.erase t := hl.nodup.not_mem_erase
  -- the comparison does not depend on the timer that is started
  have hlater : ∀ b, b ≠ t → s₁.later tt b = s.later tt b := by
    intro b hb
    simp [later, s₁, unlinked, hb]
  let as := (xs.erase t).takeWhile (!s₁.later tt ·)
  let bs := (xs.erase t).dropWhile (!s₁.later tt ·)
  have hsplit : xs.erase t = as ++ bs := List.takeWhile_append_dropWhile.symm
  have hfuel : (xs.erase t).length < Fintype.card Tm + 1 :=
    Nat.lt_succ_of_le hl₁.nodup.length_le_card
  -- the search ends at the last timer that ends no later, within its fuel
  have hseek : s₁.rtTimerSeek tt (Fintype.card Tm + 1) (.inl ()) = .ok (lastOr () as) :=
    rtTimerSeek_eq hl₁ tt (show xs.erase t = [] ++ xs.erase t from rfl) hfuel
  refine ⟨{ s₁ with rtTimerList := rtListInsertAfter (lastOr () as) (.inr t) s₁.rtTimerList }
    |>.setActivated t true, ?_, htype, hinit, rfl, ?_, as, bs, hsplit, ?_, ?_, ?_⟩
  · have htt : (s₁.timer t).timeoutTick = tt := by simp [s₁, unlinked, tt]
    simp only [rtTimerStart, rtAssert, if_pos htype]
    rw [if_pos (by simpa [unlinked] using hinit)]
    change (s₁.rtTimerSeek (s₁.timer t).timeoutTick _ _ >>= _) = _
    rw [htt, hseek]
    rfl
  · funext u
    by_cases hu : u = t
    · subst hu
      simp [startedTimer, s₁, unlinked]
    · simp [hu, s₁, unlinked]
  · exact hl₁.insertAfter hsplit ht
  · intro a ha
    have hat : a ≠ t := fun h => ht (hsplit ▸ List.mem_append_left _ (h ▸ ha))
    have hkept := List.mem_takeWhile_imp ha
    rw [hlater a hat] at hkept
    have : s.later tt a = false := by simpa using hkept
    exact this
  · intro b hb
    have hmem : b ∈ bs := List.mem_of_mem_head? hb
    have hbt : b ≠ t := fun h => ht (hsplit ▸ List.mem_append_right _ (h ▸ hmem))
    have hstop := List.head?_dropWhile_not (!s₁.later tt ·) (xs.erase t)
    change (match bs.head? with | some x => _ | none => _) at hstop
    rw [Option.mem_def.mp hb] at hstop
    simp only [hlater b hbt] at hstop
    have : s.later tt b = true := by simpa using hstop
    exact this

/-- A timer with more ticks to go than half the range is not started. -/
theorem rtTimerStart_asserts (htype : (s.timer t).type ≠ .null)
    (hinit : ¬ (s.timer t).initTick.toNat < rtTickMaxHalf) :
    s.rtTimerStart t = .error .assertion := by
  simp only [rtTimerStart, exec_bind_error, rtAssert_eq_error, rtAssert_eq_ok]
  exact .inr ⟨(), htype, .inl ⟨by simpa using hinit, trivial⟩⟩

theorem rtTimerStart_started (hl : Linked s xs) (h : s.rtTimerStart t = .ok s') :
    Started s t xs s' := by
  have hassert : (s.timer t).type ≠ .null ∧ (s.timer t).initTick.toNat < rtTickMaxHalf := by
    simp only [rtTimerStart, exec_bind_ok, rtAssert_eq_ok] at h
    obtain ⟨_, htype, _, hinit, _⟩ := h
    exact ⟨htype, by simpa using hinit⟩
  obtain ⟨s'', hok, hstarted⟩ := rtTimerStart_returns hl hassert.1 hassert.2
  rw [hok, Except.ok.injEq] at h
  exact h ▸ hstarted

/-! ## The order -/

omit [DecidableEq Tm] [Fintype Tm]

/-- The ticks timer `t` has to go: `timeout_tick - now`, signed. -/
def remaining (s : Timers Tm) (t : Tm) : Int := ahead s.rtTick (s.timer t).timeoutTick

structure Sorted (lo : Int) (s : Timers Tm) (xs : List Tm) : Prop where
  linked : Linked s xs
  window : ∀ t ∈ xs, lo ≤ s.remaining t ∧ s.remaining t < rtTickMaxHalf
  order : xs.Pairwise fun a b => s.remaining a ≤ s.remaining b
  registered : ∀ t ∈ xs, (s.timer t).type ≠ .null

variable {lo : Int}

theorem Sorted.mono {lo' : Int} (hs : Sorted lo s xs) (hlo : lo' ≤ lo) : Sorted lo' s xs :=
  { hs with window := fun t ht => ⟨hlo.trans (hs.window t ht).1, (hs.window t ht).2⟩ }

/-- The order depends on the tick and the end of each timer in the list, and survives taking
    timers out. -/
theorem Sorted.sublist {xs' : List Tm} (hs : Sorted lo s xs) (hsub : xs'.Sublist xs)
    (hl : Linked s' xs') (htick : s'.rtTick = s.rtTick)
    (htimer : ∀ t ∈ xs', (s'.timer t).timeoutTick = (s.timer t).timeoutTick ∧
      (s'.timer t).type ≠ .null) :
    Sorted lo s' xs' := by
  have hrem : ∀ t ∈ xs', s'.remaining t = s.remaining t := fun t ht => by
    rw [remaining, htick, (htimer t ht).1, remaining]
  refine ⟨hl, ?_, ?_, fun t ht => (htimer t ht).2⟩
  · intro t ht
    rw [hrem t ht]
    exact hs.window t (hsub.subset ht)
  · refine (hs.order.sublist hsub).imp_of_mem ?_
    intro a b ha hb hab
    rwa [hrem a ha, hrem b hb]

theorem Sorted.remove [DecidableEq Tm] (hs : Sorted lo s xs) (t : Tm) :
    Sorted lo (s.rtTimerRemove t) (xs.erase t) :=
  hs.sublist List.erase_sublist (hs.linked.remove t) rfl
    fun u hu => ⟨rfl, hs.registered u (List.mem_of_mem_erase hu)⟩

/-- A timer is taken out of the list, wherever it is. -/
theorem Sorted.without [DecidableEq Tm] (hs : Sorted lo s xs) (t : Tm) :
    ∃ ys, Sorted lo (s.rtTimerRemove t) ys ∧ t ∉ ys ∧ ∀ u, u ≠ t → (u ∈ ys ↔ u ∈ xs) :=
  ⟨xs.erase t, hs.remove t, hs.linked.nodup.not_mem_erase, fun _ hu => List.mem_erase_of_ne hu⟩

theorem Sorted.removeFront [DecidableEq Tm] (hs : Sorted lo s (t :: xs)) :
    Sorted lo (s.rtTimerRemove t) xs := by
  have hrem := hs.remove t
  rwa [List.erase_cons_head] at hrem

/-- One more tick brings every timer one tick closer. -/
theorem Sorted.remaining_advance (hs : Sorted 0 s xs) (ht : t ∈ xs) :
    s.advance.remaining t = s.remaining t - 1 := by
  have hlow := (hs.window t ht).1
  unfold remaining at hlow
  exact @ahead_succ 30 s.rtTick (s.timer t).timeoutTick (by omega)

theorem Sorted.advance (hs : Sorted 0 s xs) : Sorted (-1) s.advance xs := by
  have hrem : ∀ t ∈ xs, s.advance.remaining t = s.remaining t - 1 :=
    fun t ht => hs.remaining_advance ht
  refine ⟨hs.linked, ?_, ?_, hs.registered⟩
  · intro t ht
    have := hs.window t ht
    rw [hrem t ht]
    omega
  · refine hs.order.imp_of_mem ?_
    intro a b ha hb hab
    rw [hrem a ha, hrem b hb]
    omega

/-- Within the window, the test of `rt_timer_check` reads the sign of the ticks to go. -/
theorem Sorted.due_iff (hs : Sorted lo s xs) (hlo : -1 ≤ lo) (ht : t ∈ xs) :
    s.due s.rtTick t = true ↔ s.remaining t ≤ 0 := by
  have hwin := hs.window t ht
  have hself : ahead s.rtTick s.rtTick = 0 := by simp [ahead]
  have hhalf : rtTickMaxHalf = 2147483647 := rfl
  unfold remaining at hwin
  have hcmp := @sub_toNat_lt_iff 32 s.rtTick s.rtTick (s.timer t).timeoutTick rtTickMaxHalf
    (by decide) (by omega) (by omega)
  rw [due, decide_eq_true_iff, hcmp, remaining]
  omega

/-- Within the window, the comparison of `rt_timer_start` is that of the ticks to go. -/
theorem Sorted.later_iff (hs : Sorted lo s xs) (hlo : -1 ≤ lo) {b : Tm} (hb : b ∈ xs)
    {timeoutTick : Tick} (hpos : 0 ≤ ahead s.rtTick timeoutTick)
    (hlt : ahead s.rtTick timeoutTick < rtTickMaxHalf) :
    s.later timeoutTick b = true ↔ ahead s.rtTick timeoutTick < s.remaining b := by
  have hwin := hs.window b hb
  have hhalf : rtTickMaxHalf = 2147483647 := rfl
  unfold remaining at hwin
  have hcmp := @sub_toNat_lt_iff 32 s.rtTick (s.timer b).timeoutTick timeoutTick rtTickMaxHalf
    (by decide) (by omega) (by omega)
  have hzero := @sub_eq_zero_iff 32 s.rtTick (s.timer b).timeoutTick timeoutTick
  rw [later, decide_eq_true_iff, hcmp, ne_eq, hzero, remaining]
  omega

/-! ## The operations keep the order -/

section Operations

variable [DecidableEq Tm]

theorem Started.remaining_self (hst : Started s t xs s') :
    s'.remaining t = (s.timer t).initTick.toNat := by
  have hinit := hst.init
  have hhalf : rtTickMaxHalf = 2147483647 := rfl
  rw [remaining, hst.rtTick, hst.timer]
  simp only [startedTimer, Function.update_self]
  exact ahead_add (by omega)

theorem Started.remaining_other (hst : Started s t xs s') {u : Tm} (hu : u ≠ t) :
    s'.remaining u = s.remaining u := by
  rw [remaining, hst.rtTick, hst.timer, Function.update_of_ne hu, remaining]

/-- Starting a timer puts it behind those that end no later and before those that end later. -/
theorem Sorted.start (hs : Sorted lo s xs) (hlo : -1 ≤ lo) (hlo' : lo ≤ 0)
    (hst : Started s t xs s') :
    ∃ as bs, xs.erase t = as ++ bs ∧ Sorted lo s' (as ++ t :: bs) ∧
      (∀ a ∈ as, s'.remaining a ≤ s'.remaining t) ∧
      ∀ b ∈ bs, s'.remaining t < s'.remaining b := by
  obtain ⟨as, bs, hsplit, hlinked, hkeep, hstop⟩ := hst.list
  have hself := hst.remaining_self
  have hinit := hst.init
  have hrem := hs.remove t
  have hne : ∀ u ∈ xs.erase t, u ≠ t := fun u hu h => hs.linked.nodup.not_mem_erase (h ▸ hu)
  have hleft : ∀ a ∈ as, a ∈ xs.erase t := fun a ha => hsplit ▸ List.mem_append_left _ ha
  have hright : ∀ b ∈ bs, b ∈ xs.erase t := fun b hb => hsplit ▸ List.mem_append_right _ hb
  have hother : ∀ u ∈ xs.erase t, s'.remaining u = s.remaining u := fun u hu =>
    hst.remaining_other (hne u hu)
  have hend : ahead s.rtTick (s.startedTimer t).timeoutTick = s'.remaining t := by
    rw [remaining, hst.rtTick, hst.timer, Function.update_self]
  -- the comparison of the source is that of the ticks that remain
  have hcmp : ∀ u ∈ xs.erase t, s.later (s.startedTimer t).timeoutTick u = true ↔
      s'.remaining t < s.remaining u := fun u hu => by
    rw [← hend]
    exact hs.later_iff hlo (List.mem_of_mem_erase hu) (by omega) (by omega)
  have horder := hrem.order
  rw [hsplit, List.pairwise_append] at horder
  obtain ⟨hasOrder, hbsOrder, hcross⟩ := horder
  -- the search has passed these
  have hbefore : ∀ a ∈ as, s'.remaining a ≤ s'.remaining t := by
    intro a ha
    have hk := hkeep a ha
    have := (hcmp a (hleft a ha)).not.mp (by simp [hk])
    rw [hother a (hleft a ha)]
    omega
  -- and stopped at the first of these, before which none is shorter
  have hafter : ∀ b ∈ bs, s'.remaining t < s'.remaining b := by
    intro b hb
    cases bs with
    | nil => simp at hb
    | cons c cs =>
      have hc := (hcmp c (hright c (by simp))).mp (hstop c (by simp))
      rw [hother b (hright b hb)]
      rcases List.mem_cons.mp hb with rfl | hb'
      · exact hc
      · have : s.remaining c ≤ s.remaining b := List.rel_of_pairwise_cons hbsOrder hb'
        omega
  refine ⟨as, bs, hsplit, ⟨hlinked, ?_, ?_, ?_⟩, hbefore, hafter⟩
  · intro u hu
    by_cases hut : u = t
    · subst hut
      rw [hself]
      omega
    · have hmem : u ∈ xs.erase t := by
        rw [hsplit]
        simpa [hut] using hu
      rw [hother u hmem]
      exact hs.window u (List.mem_of_mem_erase hmem)
  · rw [List.pairwise_append, List.pairwise_cons]
    refine ⟨hasOrder.imp_of_mem ?_, ⟨fun b hb => (hafter b hb).le, hbsOrder.imp_of_mem ?_⟩, ?_⟩
    · intro a b ha hb hab
      rw [hother a (hleft a ha), hother b (hleft b hb)]
      exact hab
    · intro a b ha hb hab
      rw [hother a (hright a ha), hother b (hright b hb)]
      exact hab
    · intro a ha b hb
      rcases List.mem_cons.mp hb with rfl | hb
      · exact hbefore a ha
      · exact (hbefore a ha).trans (hafter b hb).le
  · intro u hu
    rw [hst.timer]
    by_cases hut : u = t
    · subst hut
      simpa [startedTimer] using hst.type
    · rw [Function.update_of_ne hut]
      have hmem : u ∈ xs.erase t := by
        rw [hsplit]
        simpa [hut] using hu
      exact hs.registered u (List.mem_of_mem_erase hmem)

omit [DecidableEq Tm] in
/-- Once the front of the list is not due, nothing in the list is. -/
theorem Sorted.rest (hs : Sorted lo s xs) (hlo : -1 ≤ lo)
    (hhead : ∀ t ∈ xs.head?, s.due s.rtTick t = false) : Sorted 1 s xs := by
  refine { hs with window := fun t ht => ⟨?_, (hs.window t ht).2⟩ }
  cases xs with
  | nil => simp at ht
  | cons x xs =>
    have hx := (hs.due_iff hlo (show x ∈ x :: xs by simp)).not.mp (by simp [hhead x (by simp)])
    rcases List.mem_cons.mp ht with rfl | ht'
    · omega
    · have : s.remaining x ≤ s.remaining t := List.rel_of_pairwise_cons hs.order ht'
      omega

theorem Sorted.setActivated (hs : Sorted lo s xs) (t : Tm) (b : Bool) :
    Sorted lo (s.setActivated t b) xs := by
  refine hs.sublist (List.Sublist.refl xs) hs.linked rfl fun u hu => ?_
  by_cases hut : u = t
  · subst hut
    simpa using hs.registered u hu
  · simpa [hut] using hs.registered u hu

end Operations

end Timers

/-! ## The loop of `rt_timer_check` -/

namespace TimerHost

variable {Tm S : Type} [DecidableEq Tm] [Fintype Tm] {host : TimerHost Tm S}

/-- What every turn of the loop keeps holds when `rt_timer_check` returns, and then the front of
    the list is not due. -/
theorem rtTimerCheck_rule (host : TimerHost Tm S) {P : S → Prop}
    (hfire : ∀ s t s', P s → (host.timers s).rtTimerList.next (.inl ()) = .inr t →
      (host.timers s).due (host.timers s).rtTick t = true → host.fire t s = .ok s' → P s')
    {fuel : Nat} {s s' : S} (hs : P s) (h : host.rtTimerCheck fuel s = .ok s') :
    P s' ∧ ∀ t, (host.timers s').rtTimerList.next (.inl ()) = .inr t →
      (host.timers s').due (host.timers s').rtTick t = false := by
  unfold rtTimerCheck at h
  induction fuel generalizing s with
  | zero => simp [rtTimerCheckLoop] at h
  | succ fuel ih =>
    rw [rtTimerCheckLoop] at h
    cases hnext : (host.timers s).rtTimerList.next (.inl ()) with
    | inl u =>
      simp only [hnext, exec_pure_ok] at h
      subst h
      exact ⟨hs, fun t ht => by simp [hnext] at ht⟩
    | inr t =>
      simp only [hnext] at h
      split at h
      case isTrue hdue =>
        simp only [exec_bind_ok] at h
        obtain ⟨s₁, hfired, hloop⟩ := h
        exact ih (hfire s t s₁ hs hnext hdue hfired) hloop
      case isFalse hdue =>
        simp only [exec_pure_ok] at h
        subst h
        refine ⟨hs, fun u hu => ?_⟩
        rw [hnext, Sum.inr.injEq] at hu
        subst hu
        simpa using hdue

/-- The three parts of a turn of the loop that returns. -/
theorem fire_cases {t : Tm} {s s' : S} (h : host.fire t s = .ok s') :
    ∃ s₁, host.timeoutFunc t (host.withTimers (·.rtTimerRemove t) s) = .ok s₁ ∧
      ((((host.timers s₁).timer t).flag.periodic = true ∧
          ((host.timers s₁).timer t).flag.activated = true ∧
          host.start t (host.withTimers (·.setActivated t false) s₁) = .ok s') ∨
        (¬ (((host.timers s₁).timer t).flag.periodic = true ∧
            ((host.timers s₁).timer t).flag.activated = true) ∧
          s' = host.withTimers (·.setActivated t false) s₁)) := by
  simp only [fire, exec_bind_ok] at h
  obtain ⟨s₁, hcall, h⟩ := h
  refine ⟨s₁, hcall, ?_⟩
  split at h
  · simp at h
  · split at h
    case isTrue hrestart =>
      rw [Bool.and_eq_true] at hrestart
      exact .inl ⟨hrestart.1, hrestart.2, h⟩
    case isFalse hstop =>
      simp only [exec_pure_ok] at h
      exact .inr ⟨by simpa using hstop, h.symm⟩

/-- A turn of the loop for a one-shot timer that is still there when its timeout function
    returns. -/
theorem fire_oneshot {t : Tm} {s s₁ : S}
    (hcall : host.timeoutFunc t (host.withTimers (·.rtTimerRemove t) s) = .ok s₁)
    (hfreed : ((host.timers s₁).timer t).freed = false)
    (hmode : ((host.timers s₁).timer t).flag.periodic = false) :
    host.fire t s = .ok (host.withTimers (·.setActivated t false) s₁) := by
  refine exec_bind_ok.mpr ⟨s₁, hcall, ?_⟩
  simp only [hfreed, hmode]
  rfl

end TimerHost

end PandoraRobot.Kernel
