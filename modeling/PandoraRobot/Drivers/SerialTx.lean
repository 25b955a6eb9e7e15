import PandoraRobot.Drivers.DataQueue

/-! # Sending on a serial device by DMA

`_serial_dma_tx` and `RT_SERIAL_EVENT_TX_DMADONE` of `rt_hw_serial_isr` of `serial.c`.  Any number
of threads write.  A stretch of code between `rt_hw_interrupt_disable` and
`rt_hw_interrupt_enable` is one step, and so is the interrupt.

A writer pushes its buffer on the transmit queue, then looks at `activated`, and then starts the
transfer of its own buffer.  In between, another writer may start its buffer first, or the
interrupt may have sent the buffer already.
-/

namespace PandoraRobot.Drivers

open PandoraRobot.Kernel

/-- `RT_WAITING_FOREVER`. -/
def rtWaitingForever : Tick := -1

/-- How far a call of `_serial_dma_tx` has come. -/
inductive TxPlace where
  | outside
  /-- it waits for room on the queue -/
  | pushing (item : DataItem)
  /-- it has pushed its buffer, and will look at `activated` -/
  | pushed (item : DataItem)
  /-- it has set `activated`, and will start the transfer -/
  | starting (item : DataItem)
  deriving DecidableEq, Repr

/-- The kernel, `struct rt_serial_tx_dma`, the writers and the DMA. -/
structure SerialTx (T U : Type) where
  kernel : State T U (Unit ⊕ Unit)
  dataQueue : DataQueue
  activated : Bool
  place : T → TxPlace
  /-- The transfer that the DMA is at. -/
  active : Option DataItem
  /-- The buffers that have been pushed on the queue, in their order. -/
  pushed : List DataItem
  /-- The buffers that have been popped off the queue, in their order. -/
  popped : List DataItem
  /-- The buffers that `dma_transmit` has been called with, in their order. -/
  started : List DataItem
  /-- A transfer was started while the DMA was at another. -/
  clashed : Bool

/-- What can happen next. -/
inductive TxMove (T : Type) where
  | write (t : T) (item : DataItem)
  /-- `rt_schedule` has returned to a writer that waited for room. -/
  | resumed (t : T)
  | test (t : T)
  | start (t : T)
  /-- The DMA has done its transfer, and raises the interrupt. -/
  | done
  /-- The rest of the system goes on. -/
  | elsewhere
  deriving DecidableEq

namespace SerialTx

variable {T U : Type} [DecidableEq T] [DecidableEq U] [Fintype T] [Fintype U]

def move (t : T) (a : TxPlace) (s : SerialTx T U) : SerialTx T U :=
  { s with place := Function.update s.place t a }

/-- `dma_transmit`. -/
def dmaTransmit (item : DataItem) (s : SerialTx T U) : SerialTx T U :=
  { s with
    active := some item
    started := s.started ++ [item]
    clashed := s.clashed || s.active.isSome }

/-- What follows from a stretch of `rt_data_queue_push`. -/
def writes (t : T) (item : DataItem) (out : State T U (Unit ⊕ Unit) × DataQueue × DataOut)
    (s : SerialTx T U) : SerialTx T U :=
  let (k, q, out) := out
  let s := { s with kernel := k, dataQueue := q }
  match out with
  | .waits => s.move t (.pushing item)
  | .returned err _ _ =>
    if err = .eok then { s.move t (.pushed item) with pushed := s.pushed ++ [item] }
    else { s.move t .outside with kernel := k.setError t err }

/-- `_serial_dma_tx` up to the end of the push. -/
def write (t : T) (item : DataItem) (s : SerialTx T U) : Exec (SerialTx T U) := do
  let out ← rtDataQueuePush (some t) () item rtWaitingForever s.dataQueue s.kernel
  pure (s.writes t item out)

/-- A writer that waited for room looks at its error. -/
def resumed (t : T) (item : DataItem) (s : SerialTx T U) : Exec (SerialTx T U) := do
  let out ← rtDataQueueResumed t s.dataQueue s.kernel
    (rtDataQueuePush (some t) () item rtWaitingForever)
  pure (s.writes t item out)

/-- The look at `activated`. -/
def test (t : T) (item : DataItem) (s : SerialTx T U) : SerialTx T U :=
  if s.activated ≠ true then { s.move t (.starting item) with activated := true }
  else s.move t .outside

/-- The transfer is started, with interrupts enabled. -/
def start (t : T) (item : DataItem) (s : SerialTx T U) : SerialTx T U :=
  (s.move t .outside).dmaTransmit item

/-- `RT_SERIAL_EVENT_TX_DMADONE`. -/
def done (s : SerialTx T U) : Exec (SerialTx T U) := do
  let (k, q, out) ← rtDataQueuePop none () 0 s.dataQueue s.kernel
  let last := match out with
    | .returned _ item _ => item.toList
    | .waits => []
  let s := { s with kernel := k, dataQueue := q, active := none, popped := s.popped ++ last }
  match rtDataQueuePeak q with
  | some item => pure ({ s with activated := true }.dmaTransmit item)
  | none => pure { s with activated := false }

/-- `t` runs and is in no call. -/
def Free (s : SerialTx T U) (t : T) : Prop := s.kernel.Running t ∧ s.place t = .outside

inductive Step (cb : State.Callback T U (Unit ⊕ Unit)) :
    TxMove T → SerialTx T U → SerialTx T U → Prop where
  | write {s s' : SerialTx T U} (t : T) (item : DataItem) : s.Free t →
      s.write t item = .ok s' → Step cb (.write t item) s s'
  | resumed {s s' : SerialTx T U} (t : T) (item : DataItem) : s.kernel.Running t →
      s.place t = .pushing item → s.resumed t item = .ok s' → Step cb (.resumed t) s s'
  | test {s : SerialTx T U} (t : T) (item : DataItem) : s.kernel.Running t →
      s.place t = .pushed item → Step cb (.test t) s (s.test t item)
  | start {s : SerialTx T U} (t : T) (item : DataItem) : s.kernel.Running t →
      s.place t = .starting item → Step cb (.start t) s (s.start t item)
  | done {s s' : SerialTx T U} : s.active ≠ none → s.done = .ok s' → Step cb .done s s'
  | elsewhere {s : SerialTx T U} {k : State T U (Unit ⊕ Unit)} :
      State.Elsewhere cb (fun t => s.place t ≠ .outside) s.kernel k →
      Step cb .elsewhere s { s with kernel := k }

def Runs (cb : State.Callback T U (Unit ⊕ Unit)) : SerialTx T U → SerialTx T U → Prop :=
  Relation.ReflTransGen fun s s' => ∃ move, Step cb move s s'

/-- A push fits into the queue, and a writer that finds `activated` clear has its own buffer at
    the front of the queue. -/
def Orderly (s : SerialTx T U) : TxMove T → Prop
  | .write _ _ => s.dataQueue.Fits
  | .resumed t => (s.kernel.thread t).error = .eok → s.dataQueue.Fits
  | .test t => s.activated = false →
      (rtDataQueuePeak s.dataQueue).map .pushed = some (s.place t)
  | _ => True

def OrderlyRuns (cb : State.Callback T U (Unit ⊕ Unit)) : SerialTx T U → SerialTx T U → Prop :=
  Relation.ReflTransGen fun s s' => ∃ move, Step cb move s s' ∧ s.Orderly move

/-- Any kernel state a run reaches, and the device as `rt_serial_open` leaves it. -/
structure Initial (cb : State.Callback T U (Unit ⊕ Unit)) (s : SerialTx T U) : Prop where
  reached : ∃ k₀, State.Initial k₀ ∧ State.Runs cb k₀ s.kernel
  dataQueue : ∃ memory, rtDataQueueInit 8 4 false (some memory) = some s.dataQueue
  activated : s.activated = false
  place : ∀ t, s.place t = .outside
  active : s.active = none
  pushed : s.pushed = []
  popped : s.popped = []
  started : s.started = []
  clashed : s.clashed = false

/-! ## The transfers follow the queue -/

/-- No writer is about to start a transfer. -/
def NoneStarting (s : SerialTx T U) : Prop := ∀ t item, s.place t ≠ .starting item

/-- Where the transfers are. -/
inductive Phase (s : SerialTx T U) : Prop where
  /-- The DMA is idle.  Whoever pushed a buffer that is stored has yet to look. -/
  | idle : s.activated = false → s.active = none → s.started = s.popped → s.NoneStarting →
      (s.dataQueue.stored ≠ [] → ∃ t item, s.place t = .pushed item) → Phase s
  /-- A writer is about to start the buffer at the front. -/
  | starting (t : T) (item : DataItem) : s.activated = true → s.active = none →
      s.started = s.popped → s.place t = .starting item →
      (∀ t' item', s.place t' = .starting item' → t' = t) →
      s.dataQueue.stored.head? = some item → Phase s
  /-- The DMA is at the buffer at the front. -/
  | sending (item : DataItem) : s.activated = true → s.active = some item →
      s.started = s.popped ++ [item] → s.NoneStarting →
      s.dataQueue.stored.head? = some item → Phase s

structure Sound (s : SerialTx T U) : Prop where
  fifo : s.dataQueue.Fifo s.pushed s.popped
  phase : s.Phase
  clashed : s.clashed = false

variable {s s' s₀ : SerialTx T U} {t : T} {item : DataItem}
  {cb : State.Callback T U (Unit ⊕ Unit)}

omit [DecidableEq T] [DecidableEq U] [Fintype T] [Fintype U] in
/-- What keeps the transfers where they are: the front of the queue stays, nobody starts, and
    whoever has yet to look has so still. -/
theorem Phase.stays (h : s.Phase) (hactivated : s'.activated = s.activated)
    (hactive : s'.active = s.active) (hstarted : s'.started = s.started)
    (hpopped : s'.popped = s.popped)
    (hstarting : ∀ t item, s'.place t = .starting item ↔ s.place t = .starting item)
    (hpushed : ∀ t item, s.place t = .pushed item → s'.place t = .pushed item)
    (hfront : ∀ item, s.dataQueue.stored.head? = some item →
      s'.dataQueue.stored.head? = some item)
    (hwriter : s'.dataQueue.stored ≠ [] → s.dataQueue.stored ≠ [] ∨
      ∃ t item, s'.place t = .pushed item) : s'.Phase := by
  cases h with
  | idle h₁ h₂ h₃ h₄ h₅ =>
    refine .idle (hactivated.trans h₁) (hactive.trans h₂) (by rw [hstarted, hpopped, h₃])
      (fun t item hplace => h₄ t item ((hstarting t item).mp hplace)) fun hsome => ?_
    obtain hold | hnew := hwriter hsome
    · obtain ⟨t, item, hplace⟩ := h₅ hold
      exact ⟨t, item, hpushed t item hplace⟩
    · exact hnew
  | starting t item h₁ h₂ h₃ h₄ h₅ h₆ =>
    exact .starting t item (hactivated.trans h₁) (hactive.trans h₂) (by rw [hstarted, hpopped, h₃])
      ((hstarting t item).mpr h₄) (fun t' item' hplace => h₅ t' item' ((hstarting t' item').mp hplace))
      (hfront item h₆)
  | sending item h₁ h₂ h₃ h₄ h₅ =>
    exact .sending item (hactivated.trans h₁) (hactive.trans h₂) (by rw [hstarted, hpopped, h₃])
      (fun t item hplace => h₄ t item ((hstarting t item).mp hplace)) (hfront item h₅)

omit [DecidableEq U] [Fintype T] [Fintype U] in
/-- A writer that was outside, or waited for room, goes on. -/
theorem moves (hold : ∀ item, s.place t ≠ .pushed item ∧ s.place t ≠ .starting item)
    {a : TxPlace} (hnew : ∀ item, a ≠ .starting item) :
    (∀ t' item, (s.move t a).place t' = .starting item ↔ s.place t' = .starting item) ∧
      ∀ t' item, s.place t' = .pushed item → (s.move t a).place t' = .pushed item := by
  constructor
  · intro t' item
    by_cases ht : t' = t
    · subst ht
      simp only [move, Function.update_self, hnew, (hold item).2]
    · simp only [move, Function.update_of_ne ht]
  · intro t' item hplace
    have ht : t' ≠ t := fun heq => (hold item).1 (heq ▸ hplace)
    simpa only [move, Function.update_of_ne ht] using hplace

theorem Sound.writes {k k' : State T U (Unit ⊕ Unit)} {q : DataQueue} {out : DataOut}
    (h : s.Sound) (hold : ∀ item, s.place t ≠ .pushed item ∧ s.place t ≠ .starting item)
    (hfits : s.dataQueue.Fits)
    (hpush : rtDataQueuePush (some t) () item rtWaitingForever s.dataQueue k = .ok (k', q, out)) :
    (s.writes t item (k', q, out)).Sound := by
  obtain ⟨-, rfl, rfl | rfl⟩ | ⟨hfull, rfl, event, rfl⟩ := rtDataQueuePush_cases hpush
  · obtain ⟨hstarting, hpushed⟩ := moves hold (a := .pushing item) (by simp)
    exact ⟨h.fifo, h.phase.stays rfl rfl rfl rfl hstarting hpushed (fun _ h => h) .inl, h.clashed⟩
  · obtain ⟨hstarting, hpushed⟩ := moves hold (a := .outside) (by simp)
    exact ⟨h.fifo, h.phase.stays rfl rfl rfl rfl hstarting hpushed (fun _ h => h) .inl, h.clashed⟩
  · obtain ⟨hstarting, hpushed⟩ := moves hold (a := .pushed item) (by simp)
    refine ⟨h.fifo.put hfits hfull, ?_, h.clashed⟩
    refine h.phase.stays rfl rfl rfl rfl hstarting hpushed ?_ fun _ => .inr ?_
    · intro front hfront
      show (s.dataQueue.put item).stored.head? = some front
      rw [h.fifo.stored_put hfits hfull, List.head?_append, hfront]
      rfl
    · exact ⟨t, item, Function.update_self ..⟩

section

omit [DecidableEq U] [Fintype T] [Fintype U]

/-- The look at `activated`. -/
theorem Sound.test (h : s.Sound) (hplace : s.place t = .pushed item)
    (horderly : s.activated = false → rtDataQueuePeak s.dataQueue = some item) :
    (s.test t item).Sound := by
  have hself (a : TxPlace) : (s.move t a).place t = a := Function.update_self ..
  have hother (a : TxPlace) {t' : T} (ht : t' ≠ t) : (s.move t a).place t' = s.place t' :=
    Function.update_of_ne ht _ _
  by_cases hset : s.activated = true
  · -- another transfer is on its way
    have hleave : s.test t item = s.move t .outside := if_neg (not_not.mpr hset)
    rw [hleave]
    have hstarting (t' : T) (item' : DataItem) :
        (s.move t .outside).place t' = .starting item' ↔ s.place t' = .starting item' := by
      by_cases ht : t' = t
      · subst ht
        rw [hself, hplace]
        simp
      · rw [hother _ ht]
    refine ⟨h.fifo, ?_, h.clashed⟩
    cases h.phase with
    | idle h₁ => exact absurd (h₁.symm.trans hset) Bool.noConfusion
    | starting t₀ item₀ h₁ h₂ h₃ h₄ h₅ h₆ =>
      exact .starting t₀ item₀ h₁ h₂ h₃ ((hstarting _ _).mpr h₄)
        (fun t' item' h' => h₅ t' item' ((hstarting _ _).mp h')) h₆
    | sending item₀ h₁ h₂ h₃ h₄ h₅ =>
      exact .sending item₀ h₁ h₂ h₃ (fun t' item' h' => h₄ t' item' ((hstarting _ _).mp h')) h₅
  · have hstart : s.test t item = { s.move t (.starting item) with activated := true } := if_pos hset
    rw [hstart]
    have hclear : s.activated = false := by simpa using hset
    refine ⟨h.fifo, ?_, h.clashed⟩
    cases h.phase with
    | idle h₁ h₂ h₃ h₄ h₅ =>
      refine .starting t item rfl h₂ h₃ (hself _) (fun t' item' h' => ?_) ?_
      · by_contra ht
        exact h₄ t' item' ((hother _ ht).symm.trans h')
      · rw [← DataQueue.rtDataQueuePeak_eq]
        exact horderly hclear
    | starting _ _ h₁ | sending _ h₁ => exact absurd (hclear.symm.trans h₁) Bool.noConfusion

/-- A writer starts the transfer of its buffer. -/
theorem Sound.start (h : s.Sound) (hplace : s.place t = .starting item) : (s.start t item).Sound := by
  cases h.phase with
  | idle _ _ _ h₄ | sending _ _ _ _ h₄ => exact absurd hplace (h₄ t item)
  | starting t₀ item₀ h₁ h₂ h₃ h₄ h₅ h₆ =>
    obtain rfl := h₅ t item hplace
    obtain rfl : item = item₀ := by
      rw [hplace, TxPlace.starting.injEq] at h₄
      exact h₄
    refine ⟨h.fifo, .sending item h₁ rfl (congrArg (· ++ [item]) h₃) (fun t' item' h' => ?_) h₆, ?_⟩
    · by_cases ht : t' = t
      · subst ht
        rw [show (s.start t' item).place t' = .outside from Function.update_self ..] at h'
        cases h'
      · rw [show (s.start t item).place t' = s.place t' from Function.update_of_ne ht _ _] at h'
        exact ht (h₅ t' item' h')
    · simp [SerialTx.start, move, dmaTransmit, h.clashed, h₂]

end

/-- The interrupt sends the next buffer, if there is one. -/
theorem Sound.done (h : s.Sound) (hactive : s.active ≠ none) (hdone : s.done = .ok s') :
    s'.Sound := by
  cases h.phase with
  | idle _ h₂ | starting _ _ _ h₂ => exact absurd h₂ hactive
  | sending item h₁ h₂ h₃ h₄ h₅ =>
    rw [← DataQueue.rtDataQueuePeak_eq] at h₅
    simp only [SerialTx.done, exec_bind_ok] at hdone
    obtain ⟨⟨k, q, out⟩, hpop, hrest⟩ := hdone
    obtain ⟨hempty, -, -⟩ | ⟨hsome, rfl, event, rfl⟩ := rtDataQueuePop_cases hpop
    · rw [rtDataQueuePeak, if_pos hempty] at h₅
      cases h₅
    · obtain rfl : s.dataQueue.front = item := by
        rw [rtDataQueuePeak, if_neg hsome, Option.some.injEq] at h₅
        exact h₅
      have hfifo := h.fifo.take hsome
      cases hnext : rtDataQueuePeak s.dataQueue.take with
      | none =>
        simp only [hnext, exec_pure_ok] at hrest
        subst hrest
        rw [DataQueue.rtDataQueuePeak_eq, List.head?_eq_none_iff] at hnext
        exact ⟨hfifo, .idle rfl rfl h₃ h₄ fun hne => absurd hnext hne, h.clashed⟩
      | some next =>
        simp only [hnext, exec_pure_ok] at hrest
        subst hrest
        rw [DataQueue.rtDataQueuePeak_eq] at hnext
        refine ⟨hfifo, .sending next rfl rfl ?_ h₄ hnext, ?_⟩
        · simp [dmaTransmit, h₃]
        · simp [dmaTransmit, h.clashed]

/-- One orderly step. -/
theorem Sound.step {move : TxMove T} (h : s.Sound) (hstep : Step cb move s s')
    (horderly : s.Orderly move) : s'.Sound := by
  cases hstep with
  | write t item hfree hwrite =>
    simp only [SerialTx.write, exec_bind_ok, exec_pure_ok] at hwrite
    obtain ⟨⟨k', q, out⟩, hout, rfl⟩ := hwrite
    exact h.writes (fun item => by simp [hfree.2]) horderly hout
  | resumed t item hrunning hplace hresumed =>
    simp only [SerialTx.resumed, exec_bind_ok, exec_pure_ok] at hresumed
    obtain ⟨⟨k', q, out⟩, hout, rfl⟩ := hresumed
    obtain ⟨herror, rfl, rfl⟩ | ⟨hok, hloop⟩ := rtDataQueueResumed_cases hout
    · obtain ⟨hstarting, hpushed⟩ := moves (s := s) (t := t) (a := .outside)
        (fun item => by simp [hplace]) (by simp)
      have hleave : s.writes t item (k', s.dataQueue,
          .returned (s.kernel.thread t).error none none) =
          { s.move t .outside with kernel := k'.setError t (s.kernel.thread t).error } :=
        if_neg herror
      rw [hleave]
      exact ⟨h.fifo, h.phase.stays rfl rfl rfl rfl hstarting hpushed (fun _ h => h) .inl,
        h.clashed⟩
    · exact h.writes (fun item => by simp [hplace]) (horderly hok) hloop
  | test t item hrunning hplace =>
    refine h.test hplace fun hclear => ?_
    have hfront := horderly hclear
    rw [hplace, Option.map_eq_some_iff] at hfront
    obtain ⟨item', hpeek, hsame⟩ := hfront
    rw [TxPlace.pushed.injEq] at hsame
    exact hsame ▸ hpeek
  | start t item hrunning hplace => exact h.start hplace
  | done hactive hdone => exact h.done hactive hdone
  | elsewhere helsewhere =>
    exact ⟨h.fifo, h.phase.stays rfl rfl rfl rfl (fun _ _ => Iff.rfl) (fun _ _ h => h)
      (fun _ h => h) .inl, h.clashed⟩

theorem Initial.sound (h : s.Initial cb) : s.Sound := by
  obtain ⟨memory, hinit⟩ := h.dataQueue
  have hfifo : s.dataQueue.Fifo s.pushed s.popped := by
    rw [h.pushed, h.popped]
    exact .init (by decide) hinit
  have hstored : s.dataQueue.stored = [] := by
    have horder := hfifo.order
    rw [h.pushed, h.popped] at horder
    exact horder.symm
  refine ⟨hfifo, .idle h.activated h.active (by rw [h.started, h.popped]) (fun t item => ?_)
    fun hne => absurd hstored hne, h.clashed⟩
  simp [h.place]

theorem Sound.runs (h : s.Sound) (hruns : OrderlyRuns cb s s') : s'.Sound := by
  induction hruns with
  | refl => exact h
  | tail _ hstep ih =>
    obtain ⟨move, hstep, horderly⟩ := hstep
    exact ih.step hstep horderly

section

omit [DecidableEq T] [DecidableEq U] [Fintype T] [Fintype U]

/-- The transfers that were started are the first of the pushed buffers, in their order. -/
theorem Sound.started (h : s.Sound) : s.started <+: s.pushed := by
  rw [h.fifo.order]
  cases h.phase with
  | idle _ _ h₃ | starting _ _ _ _ h₃ =>
    rw [h₃]
    exact List.prefix_append _ _
  | sending item _ _ h₃ _ h₅ =>
    obtain ⟨rest, hstored⟩ := List.head?_eq_some_iff.mp h₅
    rw [h₃, hstored]
    exact ⟨rest, List.append_assoc _ _ _⟩

/-- Once the DMA is idle, and no writer is on its way to it, all pushed buffers have been sent. -/
theorem Sound.all_started (h : s.Sound) (hidle : s.active = none)
    (hquiet : ∀ t item, s.place t ≠ .pushed item ∧ s.place t ≠ .starting item) :
    s.started = s.pushed := by
  cases h.phase with
  | idle _ _ h₃ _ h₅ =>
    have hstored : s.dataQueue.stored = [] := by
      by_contra hne
      obtain ⟨t, item, hplace⟩ := h₅ hne
      exact (hquiet t item).1 hplace
    rw [h.fifo.order, hstored, h₃, List.append_nil]
  | starting t item _ _ _ h₄ => exact absurd h₄ (hquiet t item).2
  | sending item _ h₂ => exact absurd (hidle.symm.trans h₂) (by simp)

end

/-- In every run in which pushes fit and a writer that finds `activated` clear has its own buffer
    at the front of the queue, the pushed buffers are handed to `dma_transmit` once each and in
    their order, none is forgotten, and no transfer is started while another is going on. -/
theorem serial_dma_tx_order {s₀ s : SerialTx T U} (hinit : s₀.Initial cb)
    (hruns : OrderlyRuns cb s₀ s) :
    s.started <+: s.pushed ∧ s.clashed = false ∧
      (s.active = none → (∀ t item, s.place t ≠ .pushed item ∧ s.place t ≠ .starting item) →
        s.started = s.pushed) := by
  have hsound := hinit.sound.runs hruns
  exact ⟨hsound.started, hsound.clashed, hsound.all_started⟩

/-! ## Two runs -/

/-- Something that happens in a run that is played: a move, a sleep of the current thread, or a
    tick. -/
inductive TxEvent (T : Type) where
  | move (m : TxMove T)
  | sleep (tick : Tick)
  | tick

instance (s : SerialTx T U) (m : TxMove T) : Decidable (s.Orderly m) := by
  unfold Orderly
  cases m <;> infer_instance

instance (s : SerialTx T U) (t : T) : Decidable (s.Free t) := by
  unfold Free State.Running
  infer_instance

instance (k : State T U (Unit ⊕ Unit)) (t : T) : Decidable (k.Running t) := by
  unfold State.Running
  infer_instance

def play (s : SerialTx T U) : TxEvent T → Exec (SerialTx T U)
  | .move (.write t item) => do
    rtAssert (s.Free t)
    s.write t item
  | .move (.test t) => do
    rtAssert (s.kernel.Running t)
    match s.place t with
    | .pushed item => pure (s.test t item)
    | _ => throw .assertion
  | .move (.start t) => do
    rtAssert (s.kernel.Running t)
    match s.place t with
    | .starting item => pure (s.start t item)
    | _ => throw .assertion
  | .move .done => do
    rtAssert (s.active ≠ none)
    s.done
  | .move _ => throw .assertion
  | .sleep tick => do
    rtAssert (∀ t, s.place t ≠ .outside → s.kernel.rtCurrentThread ≠ some t)
    let k ← s.kernel.rtThreadSleep tick
    pure { s with kernel := k }
  | .tick => do
    let k ← s.kernel.rtTickIncrease (State.timeoutFunc fun _ _ => []) (Fintype.card (T ⊕ U) + 1)
    pure { s with kernel := k }

def TxEvent.toMove : TxEvent T → TxMove T
  | .move m => m
  | _ => .elsewhere

theorem play_step {event : TxEvent T} (h : s.play event = .ok s') :
    Step (fun _ _ => []) event.toMove s s' := by
  cases event with
  | sleep tick =>
    simp only [play, exec_bind_ok, exec_pure_ok, rtAssert_eq_ok] at h
    obtain ⟨_, hfree, k, hsleep, rfl⟩ := h
    exact .elsewhere (.call (.sleep tick) (by simp [State.Foreign, KernelOp.target])
      (fun _ => hfree) hsleep)
  | tick =>
    simp only [play, exec_bind_ok, exec_pure_ok] at h
    obtain ⟨k, htick, rfl⟩ := h
    exact .elsewhere (.tick _ (by simp) htick)
  | move m =>
    cases m with
    | write t item =>
      simp only [play, exec_bind_ok, rtAssert_eq_ok] at h
      obtain ⟨_, hfree, hwrite⟩ := h
      exact .write t item hfree hwrite
    | test t =>
      simp only [play, exec_bind_ok, rtAssert_eq_ok] at h
      obtain ⟨_, hrunning, h⟩ := h
      cases hplace : s.place t with
      | pushed item =>
        simp only [hplace, exec_pure_ok] at h
        exact h ▸ .test t item hrunning hplace
      | outside | pushing | starting => simp [hplace] at h
    | start t =>
      simp only [play, exec_bind_ok, rtAssert_eq_ok] at h
      obtain ⟨_, hrunning, h⟩ := h
      cases hplace : s.place t with
      | starting item =>
        simp only [hplace, exec_pure_ok] at h
        exact h ▸ .start t item hrunning hplace
      | outside | pushing | pushed => simp [hplace] at h
    | done =>
      simp only [play, exec_bind_ok, rtAssert_eq_ok] at h
      obtain ⟨_, hactive, hdone⟩ := h
      exact .done hactive hdone
    | resumed | elsewhere => simp [play] at h

/-- The device as `rt_serial_open` leaves it. -/
def opened (k : State T U (Unit ⊕ Unit)) : SerialTx T U where
  kernel := k
  dataQueue := ⟨8, 4, 0, 0, fun _ => ⟨0, 0⟩, false⟩
  activated := false
  place _ := .outside
  active := none
  pushed := []
  popped := []
  started := []
  clashed := false

theorem opened_initial (cb : State.Callback T U (Unit ⊕ Unit)) {threads : List (T × Nat)}
    {k : State T U (Unit ⊕ Unit)} (h : State.booted threads = .ok k) : (opened k).Initial cb :=
  ⟨State.booted_reached h, ⟨fun _ => ⟨0, 0⟩, rfl⟩, rfl, fun _ => rfl, rfl, rfl, rfl, rfl, rfl⟩

/-- Two writers take their turns, and the interrupt sends the second buffer. -/
theorem serial_dma_tx_order_turns :
    ∃ s₀ s : SerialTx (Fin 3) Empty, s₀.Initial (fun _ _ => []) ∧
      OrderlyRuns (fun _ _ => []) s₀ s ∧ s.pushed = [⟨1, 4⟩, ⟨2, 4⟩] ∧ s.active = none ∧
      s.started <+: s.pushed ∧ s.clashed = false := by
  let turn (s : SerialTx (Fin 3) Empty) (event : TxEvent (Fin 3)) :
      Exec (SerialTx (Fin 3) Empty) := do
    rtAssert (s.Orderly event.toMove)
    s.play event
  let run : Exec (State (Fin 3) Empty (Unit ⊕ Unit) × SerialTx (Fin 3) Empty) := do
    let k ← State.booted [(0, 31), (1, 10), (2, 5)]
    let s ← [TxEvent.move (.write 2 ⟨1, 4⟩), .move (.test 2), .move (.start 2), .sleep 5,
      .move (.write 1 ⟨2, 4⟩), .move (.test 1), .move .done, .move .done].foldlM turn (opened k)
    pure (k, s)
  obtain ⟨⟨k, s⟩, hrun, hdata⟩ := exec_exists_ok (show
    run.map (fun x => (x.2.pushed, x.2.active)) = .ok ([⟨1, 4⟩, ⟨2, 4⟩], none) by decide +kernel)
  simp only [run, exec_bind_ok, exec_pure_ok, Prod.mk.injEq] at hrun
  obtain ⟨k, hk, s, hplay, rfl, rfl⟩ := hrun
  simp only [Prod.mk.injEq] at hdata
  have hturn (s : SerialTx (Fin 3) Empty) (event : TxEvent (Fin 3)) (s' : SerialTx (Fin 3) Empty)
      (h : turn s event = .ok s') :
      ∃ move, Step (fun _ _ => []) move s s' ∧ s.Orderly move := by
    simp only [turn, exec_bind_ok, rtAssert_eq_ok] at h
    obtain ⟨_, horderly, hplay⟩ := h
    exact ⟨_, play_step hplay, horderly⟩
  have hinitial := opened_initial (fun _ _ => []) hk
  have hruns : OrderlyRuns (fun _ _ => []) (opened k) s := foldlM_runs hturn hplay
  obtain ⟨hstart, hclashed, -⟩ := serial_dma_tx_order hinitial hruns
  exact ⟨opened k, s, hinitial, hruns, hdata.1, hdata.2, hstart, hclashed⟩

/-- A writer is overtaken between its push and its look at `activated`: the other buffer is sent
    twice, and its own never. -/
theorem serial_dma_tx_overtaken :
    ∃ s₀ s : SerialTx (Fin 3) Empty, s₀.Initial (fun _ _ => []) ∧ Runs (fun _ _ => []) s₀ s ∧
      s.pushed = [⟨1, 4⟩, ⟨2, 4⟩] ∧ s.started = [⟨2, 4⟩, ⟨2, 4⟩] := by
  let run : Exec (State (Fin 3) Empty (Unit ⊕ Unit) × SerialTx (Fin 3) Empty) := do
    let k ← State.booted [(0, 31), (1, 10), (2, 5)]
    let s ← [TxEvent.sleep 1, .move (.write 1 ⟨1, 4⟩), .tick, .move (.write 2 ⟨2, 4⟩),
      .move (.test 2), .move (.start 2), .sleep 1, .move (.test 1), .move .done].foldlM play
        (opened k)
    pure (k, s)
  obtain ⟨⟨k, s⟩, hrun, hdata⟩ := exec_exists_ok (show
    run.map (fun x => (x.2.pushed, x.2.started)) =
      .ok ([⟨1, 4⟩, ⟨2, 4⟩], [⟨2, 4⟩, ⟨2, 4⟩]) by decide +kernel)
  simp only [run, exec_bind_ok, exec_pure_ok, Prod.mk.injEq] at hrun
  obtain ⟨k, hk, s, hplay, rfl, rfl⟩ := hrun
  simp only [Prod.mk.injEq] at hdata
  exact ⟨opened k, s, opened_initial _ hk, foldlM_runs (fun _ _ _ h => ⟨_, play_step h⟩) hplay,
    hdata.1, hdata.2⟩

end SerialTx

end PandoraRobot.Drivers
