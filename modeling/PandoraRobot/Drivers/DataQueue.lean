import PandoraRobot.Kernel.Blocking
import PandoraRobot.Lib.RingBuffer

/-! # Data queues

`rt_data_queue_init`, `rt_data_queue_push`, `rt_data_queue_pop` and `rt_data_queue_peak` of
`dataqueue.c`, on any number of queues.  A stretch of code between `rt_hw_interrupt_disable` and
`rt_hw_interrupt_enable` is one step, with the look a resumed thread takes at its own `error`
before it.

The counters run on and wrap at 16 bits, and are compared as integers.  Once the put counter has
wrapped and the get counter has not, a full queue does not look full; and a size that does not
divide 65536 makes the slots jump.
-/

namespace PandoraRobot.Drivers

open PandoraRobot.Kernel PandoraRobot.RingBuffer

/-- `struct rt_data_item`. -/
structure DataItem where
  dataPtr : BitVec 32
  dataSize : BitVec 32
  deriving DecidableEq, Repr

/-- What `evt_notify` is told. -/
inductive DataQueueEvent where
  | pop
  | push
  | lwm
  deriving DecidableEq, Repr

/-- `struct rt_data_queue`, less its wait lists. -/
structure DataQueue where
  size : BitVec 16
  lwm : BitVec 16
  getIndex : BitVec 16
  putIndex : BitVec 16
  queue : Nat → DataItem
  /-- `evt_notify` is not `RT_NULL`. -/
  evtNotify : Bool

/-- `rt_data_queue_init`, where `rt_malloc` returns `memory`: the queue, or `none` for
    `-RT_ENOMEM`.  Of no bytes, `rt_malloc` returns `RT_NULL`. -/
def rtDataQueueInit (size lwm : BitVec 16) (evtNotify : Bool) (memory : Option (Nat → DataItem)) :
    Option DataQueue :=
  memory.map fun queue => ⟨size, lwm, 0, 0, queue, evtNotify⟩

namespace DataQueue

/-- `queue->put_index - queue->get_index`, an `int`. -/
def difference (q : DataQueue) : Int := (q.putIndex.toNat : Int) - q.getIndex.toNat

/-- The place in the array that an index stands for. -/
def slot (q : DataQueue) (index : BitVec 16) : Nat := index.toNat % q.size.toNat

/-- A push finds the queue full. -/
def Full (q : DataQueue) : Prop := q.difference = q.size.toNat

instance (q : DataQueue) : Decidable q.Full := inferInstanceAs (Decidable (_ = _))

/-- An item is stored. -/
def put (item : DataItem) (q : DataQueue) : DataQueue :=
  { q with
    queue := Function.update q.queue (q.slot q.putIndex) item
    putIndex := q.putIndex + 1 }

/-- The item that is next. -/
def front (q : DataQueue) : DataItem := q.queue (q.slot q.getIndex)

/-- The next item is taken out. -/
def take (q : DataQueue) : DataQueue := { q with getIndex := q.getIndex + 1 }

end DataQueue

/-- `rt_data_queue_peak`: the item, or `none` for `-RT_EEMPTY`. -/
def rtDataQueuePeak (q : DataQueue) : Option DataItem :=
  if q.getIndex = q.putIndex then none else some q.front

section Code

variable {T U I : Type} [DecidableEq T] [DecidableEq U] [DecidableEq I] [Fintype T] [Fintype U]

/-- What a call does in one stretch: it returns, a pop with an item if it succeeds, and may tell
    `evt_notify`, or its thread waits. -/
inductive DataOut where
  | returned (err : Err) (item : Option DataItem) (event : Option DataQueueEvent)
  | waits
  deriving DecidableEq, Repr

/-- `evt_notify` is told, if it is there. -/
def DataQueue.notify (q : DataQueue) (event : DataQueueEvent) : Option DataQueueEvent :=
  if q.evtNotify then some event else none

/-- The body of the loops of `rt_data_queue_push` and `rt_data_queue_pop`. -/
def rtDataQueueBlock (caller : Option T) (j : I) (timeout : Tick) (q : DataQueue)
    (k : State T U I) : Exec (State T U I × DataQueue × DataOut) :=
  if timeout = 0 then pure (k, q, .returned .etimeout none none)
  else
    match caller with
    -- `RT_DEBUG_NOT_IN_INTERRUPT`
    | none => throw .assertion
    | some thread => do
      let k ← (k.setError thread .eok).waitOn j thread .fifo timeout
      pure (k, q, .waits)

/-- `rt_data_queue_push` from the test of its loop on, up to `rt_schedule`.  The pop list of queue
    `i` is that of `.inl i`, and the push list that of `.inr i`. -/
def rtDataQueuePush (caller : Option T) (i : I) (item : DataItem) (timeout : Tick) (q : DataQueue)
    (k : State T U (I ⊕ I)) : Exec (State T U (I ⊕ I) × DataQueue × DataOut) :=
  if q.Full then rtDataQueueBlock caller (.inr i) timeout q k
  else do
    let q := q.put item
    if rtListIsempty (.inl (.suspend (.inl i))) k.tlist = false then
      let k ← k.rtIpcListResume (.inl i)
      pure (k, q, .returned .eok none none)
    else pure (k, q, .returned .eok none (q.notify .push))

/-- `rt_data_queue_pop` from the test of its loop on, up to `rt_schedule`. -/
def rtDataQueuePop (caller : Option T) (i : I) (timeout : Tick) (q : DataQueue)
    (k : State T U (I ⊕ I)) : Exec (State T U (I ⊕ I) × DataQueue × DataOut) :=
  if q.getIndex = q.putIndex then rtDataQueueBlock caller (.inl i) timeout q k
  else do
    let item := q.front
    let q := q.take
    if q.difference ≤ q.lwm.toNat then
      let k ←
        if rtListIsempty (.inl (.suspend (.inr i))) k.tlist = false then k.rtIpcListResume (.inr i)
        else pure k
      pure (k, q, .returned .eok (some item) (q.notify .lwm))
    else pure (k, q, .returned .eok (some item) (q.notify .pop))

/-- What follows `rt_schedule` in both: an error is returned, and otherwise the loop goes on. -/
def rtDataQueueResumed (thread : T) (q : DataQueue) (k : State T U I)
    (loop : DataQueue → State T U I → Exec (State T U I × DataQueue × DataOut)) :
    Exec (State T U I × DataQueue × DataOut) :=
  if (k.thread thread).error ≠ .eok then pure (k, q, .returned (k.thread thread).error none none)
  else loop q k

end Code

/-! ## What a stretch does -/

section Cases

variable {T U I : Type} [DecidableEq T] [DecidableEq U] [DecidableEq I] [Fintype T] [Fintype U]
variable {caller : Option T} {i : I} {item : DataItem} {timeout : Tick} {q q' : DataQueue}
  {out : DataOut}

theorem rtDataQueueBlock_cases {j : I} {k k' : State T U I}
    (h : rtDataQueueBlock caller j timeout q k = .ok (k', q', out)) :
    q' = q ∧ (out = .waits ∨ out = .returned .etimeout none none) := by
  unfold rtDataQueueBlock at h
  split at h
  case isTrue =>
    simp only [exec_pure_ok, Prod.mk.injEq] at h
    exact ⟨h.2.1.symm, .inr h.2.2.symm⟩
  case isFalse =>
    cases caller with
    | none => simp at h
    | some thread =>
      simp only [exec_bind_ok, exec_pure_ok, Prod.mk.injEq] at h
      obtain ⟨_, -, -, rfl, rfl⟩ := h
      exact ⟨rfl, .inl rfl⟩

theorem rtDataQueuePush_cases {k k' : State T U (I ⊕ I)}
    (h : rtDataQueuePush caller i item timeout q k = .ok (k', q', out)) :
    (q.Full ∧ q' = q ∧ (out = .waits ∨ out = .returned .etimeout none none)) ∨
      (¬ q.Full ∧ q' = q.put item ∧ ∃ event, out = .returned .eok none event) := by
  unfold rtDataQueuePush at h
  split at h
  case isTrue hfull => exact .inl ⟨hfull, rtDataQueueBlock_cases h⟩
  case isFalse hroom =>
    refine .inr ⟨hroom, ?_⟩
    simp only at h
    split at h
    · simp only [exec_bind_ok, exec_pure_ok, Prod.mk.injEq] at h
      obtain ⟨_, -, -, rfl, rfl⟩ := h
      exact ⟨rfl, _, rfl⟩
    · simp only [exec_pure_ok, Prod.mk.injEq] at h
      obtain ⟨-, rfl, rfl⟩ := h
      exact ⟨rfl, _, rfl⟩

theorem rtDataQueuePop_cases {k k' : State T U (I ⊕ I)}
    (h : rtDataQueuePop caller i timeout q k = .ok (k', q', out)) :
    (q.getIndex = q.putIndex ∧ q' = q ∧ (out = .waits ∨ out = .returned .etimeout none none)) ∨
      (q.getIndex ≠ q.putIndex ∧ q' = q.take ∧
        ∃ event, out = .returned .eok (some q.front) event) := by
  unfold rtDataQueuePop at h
  split at h
  case isTrue hempty => exact .inl ⟨hempty, rtDataQueueBlock_cases h⟩
  case isFalse hsome =>
    refine .inr ⟨hsome, ?_⟩
    by_cases hlwm : q.take.difference ≤ q.take.lwm.toNat
    · simp only [hlwm, if_true] at h
      split at h
      all_goals
        simp only [exec_bind_ok, exec_pure_ok, Prod.mk.injEq] at h
        obtain ⟨_, -, -, rfl, rfl⟩ := h
        exact ⟨rfl, _, rfl⟩
    · simp only [hlwm, if_false, exec_pure_ok, Prod.mk.injEq] at h
      obtain ⟨-, rfl, rfl⟩ := h
      exact ⟨rfl, _, rfl⟩

omit [DecidableEq T] [DecidableEq U] [DecidableEq I] [Fintype T] [Fintype U] in
theorem rtDataQueueResumed_cases {t : T} {k k' : State T U I}
    {loop : DataQueue → State T U I → Exec (State T U I × DataQueue × DataOut)}
    (h : rtDataQueueResumed t q k loop = .ok (k', q', out)) :
    ((k.thread t).error ≠ .eok ∧ q' = q ∧ out = .returned (k.thread t).error none none) ∨
      ((k.thread t).error = .eok ∧ loop q k = .ok (k', q', out)) := by
  unfold rtDataQueueResumed at h
  split at h
  case isTrue herror =>
    simp only [exec_pure_ok, Prod.mk.injEq] at h
    exact .inl ⟨herror, h.2.1.symm, h.2.2.symm⟩
  case isFalse hok => exact .inr ⟨not_not.mp hok, h⟩

end Cases

/-! ## What is stored -/

namespace DataQueue

/-- How many items are stored. -/
def count (q : DataQueue) : Nat := (q.putIndex - q.getIndex).toNat

/-- The places of the stored items, the oldest first. -/
def slots (q : DataQueue) : List Nat :=
  (List.range q.count).map fun i => q.slot (q.getIndex + BitVec.ofNat 16 i)

/-- The stored items, the oldest first. -/
def stored (q : DataQueue) : List DataItem := q.slots.map q.queue

/-- The put counter has not passed the get counter in wrapping, or the next slot is free. -/
def Fits (q : DataQueue) : Prop := q.getIndex ≤ q.putIndex ∨ q.slot q.putIndex ∉ q.slots

instance (q : DataQueue) : Decidable q.Fits := inferInstanceAs (Decidable (_ ∨ _))

/-- The items that have been pushed are those that were popped and those that are stored, in
    their order. -/
structure Fifo (q : DataQueue) (pushed popped : List DataItem) : Prop where
  size : q.size ≠ 0
  slots : q.slots.Nodup
  order : pushed = popped ++ q.stored

variable {q : DataQueue} {pushed popped : List DataItem} {item : DataItem}

@[simp] theorem length_slots : q.slots.length = q.count := by simp [DataQueue.slots]

@[simp] theorem length_stored : q.stored.length = q.count := by simp [stored]

theorem slots_of_count_one (h : q.count = 1) : q.slots = [q.slot q.getIndex] := by
  simp [DataQueue.slots, h]

theorem slot_lt (hsize : q.size ≠ 0) (index : BitVec 16) : q.slot index < q.size.toNat := by
  apply Nat.mod_lt
  bv_omega

/-- Places that are different fit into the array. -/
theorem length_le_size {places : List Nat} (hnodup : places.Nodup)
    (hlt : ∀ place ∈ places, place < q.size.toNat) : places.length ≤ q.size.toNat := by
  have hsub : places ⊆ List.range q.size.toNat := fun place hplace => by
    simpa using hlt place hplace
  simpa using (List.subperm_of_subset hnodup hsub).length_le

theorem slots_lt (hsize : q.size ≠ 0) : ∀ place ∈ q.slots, place < q.size.toNat := by
  intro place hplace
  obtain ⟨i, -, rfl⟩ := List.mem_map.mp hplace
  exact slot_lt hsize _

theorem Fifo.count_le (h : Fifo q pushed popped) : q.count ≤ q.size.toNat := by
  rw [← length_slots]
  exact length_le_size h.slots (slots_lt h.size)

/-- Where the put counter has not wrapped, the difference is the number stored. -/
theorem difference_eq (hle : q.getIndex ≤ q.putIndex) : q.difference = q.count := by
  rw [difference, count, BitVec.toNat_sub_of_le hle]
  have : q.getIndex.toNat ≤ q.putIndex.toNat := hle
  omega

/-- A queue that is not found full has its next slot free. -/
theorem Fifo.next_free (h : Fifo q pushed popped) (hfits : q.Fits) (hfull : ¬ q.Full) :
    q.slot q.putIndex ∉ q.slots := by
  obtain hle | hfree := hfits
  · have hcount : q.count ≠ q.size.toNat := fun heq => by
      rw [Full, difference_eq hle, heq] at hfull
      exact hfull rfl
    have hroom : q.count < q.size.toNat := lt_of_le_of_ne h.count_le hcount
    have hput : q.putIndex.toNat = q.getIndex.toNat + q.count := by
      rw [count, BitVec.toNat_sub_of_le hle]
      have : q.getIndex.toNat ≤ q.putIndex.toNat := hle
      omega
    intro hmem
    obtain ⟨i, hi, heq⟩ := List.mem_map.mp hmem
    rw [List.mem_range] at hi
    have hindex : (q.getIndex + BitVec.ofNat 16 i).toNat = q.getIndex.toNat + i := by
      have := q.putIndex.isLt
      rw [BitVec.toNat_add, BitVec.toNat_ofNat, Nat.mod_eq_of_lt (show i < 2 ^ 16 by omega),
        Nat.mod_eq_of_lt (by omega)]
    rw [slot, slot, hindex, hput] at heq
    exact cell_ne hi hroom heq
  · exact hfree

/-- A push that finds the next slot free finds the queue full when `size` items are stored. -/
theorem Fifo.full_iff (h : Fifo q pushed popped) (hfits : q.Fits) :
    q.Full ↔ q.stored.length = q.size.toNat := by
  rw [length_stored]
  constructor
  · intro hfull
    by_contra hcount
    by_cases hle : q.getIndex ≤ q.putIndex
    · rw [Full, difference_eq hle] at hfull
      omega
    · have hlt : q.putIndex.toNat < q.getIndex.toNat := by
        simpa [BitVec.le_def] using hle
      rw [Full, difference] at hfull
      omega
  · intro hcount
    by_contra hfull
    have hnodup : (q.slot q.putIndex :: q.slots).Nodup :=
      List.nodup_cons.mpr ⟨h.next_free hfits hfull, h.slots⟩
    have hlen := length_le_size hnodup (by
      simpa using ⟨slot_lt h.size _, slots_lt h.size⟩)
    rw [List.length_cons, length_slots] at hlen
    omega

/-- Exactly where it fits, a push is refused or overwrites nothing. -/
theorem Fifo.fits_iff (h : Fifo q pushed popped) :
    q.Fits ↔ (q.Full ∨ q.slot q.putIndex ∉ q.slots) := by
  constructor
  · intro hfits
    exact or_iff_not_imp_left.mpr (h.next_free hfits)
  · rintro (hfull | hfree)
    · left
      rw [Full, difference] at hfull
      exact BitVec.le_def.mpr (by omega)
    · exact .inr hfree

theorem Fifo.slots_put (h : Fifo q pushed popped) (hfits : q.Fits) (hfull : ¬ q.Full) :
    (q.put item).slots = q.slots ++ [q.slot q.putIndex] := by
  have hroom : q.count < q.size.toNat :=
    lt_of_le_of_ne h.count_le fun heq => hfull ((h.full_iff hfits).mpr (by simpa using heq))
  have hcount : (q.put item).count = q.count + 1 := by
    have := q.size.isLt
    simp only [count, DataQueue.put] at hroom ⊢
    bv_omega
  have hback : q.getIndex + BitVec.ofNat 16 q.count = q.putIndex := by
    rw [count, BitVec.ofNat_toNat, BitVec.setWidth_eq]
    bv_omega
  rw [DataQueue.slots, hcount, List.range_succ, List.map_append, List.map_singleton]
  show _ ++ [q.slot (q.getIndex + BitVec.ofNat 16 q.count)] = _
  rw [hback]
  rfl

theorem Fifo.stored_put (h : Fifo q pushed popped) (hfits : q.Fits) (hfull : ¬ q.Full) :
    (q.put item).stored = q.stored ++ [item] := by
  have hfree := h.next_free hfits hfull
  have hkept : q.slots.map (q.put item).queue = q.stored := by
    apply List.map_congr_left
    intro place hplace
    have hne : place ≠ q.slot q.putIndex := fun heq => hfree (heq ▸ hplace)
    exact Function.update_of_ne hne _ _
  have hnew : (q.put item).queue (q.slot q.putIndex) = item := Function.update_self ..
  rw [stored, h.slots_put hfits hfull, List.map_append, hkept, List.map_singleton, hnew]

theorem Fifo.put (h : Fifo q pushed popped) (hfits : q.Fits) (hfull : ¬ q.Full) :
    Fifo (q.put item) (pushed ++ [item]) popped := by
  refine ⟨h.size, ?_, ?_⟩
  · rw [h.slots_put hfits hfull, List.nodup_append]
    refine ⟨h.slots, List.nodup_singleton _, fun place hplace next hnext heq => ?_⟩
    rw [List.mem_singleton] at hnext
    exact h.next_free hfits hfull (hnext ▸ heq ▸ hplace)
  · rw [h.order, h.stored_put hfits hfull, List.append_assoc]

theorem slots_take (hsome : q.getIndex ≠ q.putIndex) :
    q.slots = q.slot q.getIndex :: q.take.slots := by
  have hcount : q.count = q.take.count + 1 := by
    simp only [count, take]
    bv_omega
  rw [DataQueue.slots, hcount, List.range_succ_eq_map, List.map_cons, List.map_map]
  congr 1
  · simp
  · apply List.map_congr_left
    intro i _
    have hnext : q.getIndex + BitVec.ofNat 16 (i + 1) = q.getIndex + 1 + BitVec.ofNat 16 i := by
      rw [BitVec.ofNat_add, BitVec.add_assoc, BitVec.add_comm (BitVec.ofNat 16 i)]
      rfl
    show q.slot (q.getIndex + BitVec.ofNat 16 (i + 1)) = _
    rw [hnext]
    rfl

theorem stored_take (hsome : q.getIndex ≠ q.putIndex) : q.stored = q.front :: q.take.stored := by
  rw [stored, slots_take hsome]
  rfl

theorem Fifo.take (h : Fifo q pushed popped) (hsome : q.getIndex ≠ q.putIndex) :
    Fifo q.take pushed (popped ++ [q.front]) := by
  have hnodup := h.slots
  rw [slots_take hsome, List.nodup_cons] at hnodup
  refine ⟨h.size, hnodup.2, ?_⟩
  rw [h.order, stored_take hsome, List.append_assoc, List.singleton_append]

/-- What a peak returns is the oldest of the stored items. -/
theorem rtDataQueuePeak_eq : rtDataQueuePeak q = q.stored.head? := by
  rw [rtDataQueuePeak]
  split
  case isTrue hempty =>
    have hcount : q.count = 0 := by simp [count, hempty]
    simp [stored, slots, hcount]
  case isFalse hsome => rw [stored_take hsome, List.head?_cons]

theorem Fifo.init {size lwm : BitVec 16} {evtNotify : Bool} {memory : Nat → DataItem}
    (hsize : size ≠ 0) (h : rtDataQueueInit size lwm evtNotify (some memory) = some q) :
    Fifo q [] [] := by
  obtain rfl : ⟨size, lwm, 0, 0, memory, evtNotify⟩ = q := by simpa [rtDataQueueInit] using h
  have hslots : DataQueue.slots ⟨size, lwm, 0, 0, memory, evtNotify⟩ = [] := by
    simp [DataQueue.slots, count]
  exact ⟨hsize, hslots ▸ List.nodup_nil, by rw [stored, hslots]; rfl⟩

end DataQueue

/-! ## Runs -/

/-- Where a thread waits. -/
inductive DataPlace (I : Type) where
  | outside
  | pushing (i : I) (item : DataItem) (timeout : Tick)
  | popping (i : I) (timeout : Tick)
  deriving DecidableEq, Repr

/-- The kernel, the data queues, and where threads wait. -/
structure DataQueues (T U I : Type) where
  kernel : State T U (I ⊕ I)
  queue : I → DataQueue
  place : T → DataPlace I
  /-- The items that have been pushed, in their order. -/
  pushed : I → List DataItem
  /-- The items that pops have returned, in their order. -/
  popped : I → List DataItem

/-- What can happen next. -/
inductive DataMove (T U I : Type) where
  | push (caller : Option T) (i : I) (item : DataItem) (timeout : Tick)
  | pop (caller : Option T) (i : I) (timeout : Tick)
  /-- `rt_schedule` has returned to a thread that waited. -/
  | resumed (t : T)
  /-- The kernel goes on without the queues. -/
  | elsewhere (k : State T U (I ⊕ I))

namespace DataQueues

variable {T U I : Type} [DecidableEq T] [DecidableEq U] [DecidableEq I] [Fintype T] [Fintype U]

def move (caller : Option T) (a : DataPlace I) (s : DataQueues T U I) : DataQueues T U I :=
  match caller with
  | none => s
  | some t => { s with place := Function.update s.place t a }

/-- What follows from a stretch of `rt_data_queue_push`. -/
def pushes (caller : Option T) (i : I) (item : DataItem) (timeout : Tick)
    (out : State T U (I ⊕ I) × DataQueue × DataOut) (s : DataQueues T U I) : DataQueues T U I :=
  let (k, q, out) := out
  let s := { s with kernel := k, queue := Function.update s.queue i q }
  match out with
  | .waits => s.move caller (.pushing i item timeout)
  | .returned err _ _ =>
    let s := s.move caller .outside
    if err = .eok then { s with pushed := Function.update s.pushed i (s.pushed i ++ [item]) }
    else s

/-- What follows from a stretch of `rt_data_queue_pop`. -/
def pops (caller : Option T) (i : I) (timeout : Tick)
    (out : State T U (I ⊕ I) × DataQueue × DataOut) (s : DataQueues T U I) : DataQueues T U I :=
  let (k, q, out) := out
  let s := { s with kernel := k, queue := Function.update s.queue i q }
  match out with
  | .waits => s.move caller (.popping i timeout)
  | .returned _ item _ =>
    let s := s.move caller .outside
    { s with popped := Function.update s.popped i (s.popped i ++ item.toList) }

def push (caller : Option T) (i : I) (item : DataItem) (timeout : Tick) (s : DataQueues T U I) :
    Exec (DataQueues T U I) := do
  let out ← rtDataQueuePush caller i item timeout (s.queue i) s.kernel
  pure (s.pushes caller i item timeout out)

def pop (caller : Option T) (i : I) (timeout : Tick) (s : DataQueues T U I) :
    Exec (DataQueues T U I) := do
  let out ← rtDataQueuePop caller i timeout (s.queue i) s.kernel
  pure (s.pops caller i timeout out)

/-- A thread that waited looks at its error. -/
def resumed (t : T) (s : DataQueues T U I) : Exec (DataQueues T U I) :=
  match s.place t with
  | .outside => pure s
  | .pushing i item timeout => do
    let out ← rtDataQueueResumed t (s.queue i) s.kernel (rtDataQueuePush (some t) i item timeout)
    pure (s.pushes (some t) i item timeout out)
  | .popping i timeout => do
    let out ← rtDataQueueResumed t (s.queue i) s.kernel (rtDataQueuePop (some t) i timeout)
    pure (s.pops (some t) i timeout out)

/-- `t` runs and is in no call. -/
def Free (s : DataQueues T U I) (t : T) : Prop := s.kernel.Running t ∧ s.place t = .outside

inductive Step : DataMove T U I → DataQueues T U I → DataQueues T U I → Prop where
  | push {s s' : DataQueues T U I} (caller : Option T) (i : I) (item : DataItem)
      (timeout : Tick) : (∀ t, caller = some t → s.Free t) →
      s.push caller i item timeout = .ok s' → Step (.push caller i item timeout) s s'
  | pop {s s' : DataQueues T U I} (caller : Option T) (i : I) (timeout : Tick) :
      (∀ t, caller = some t → s.Free t) → s.pop caller i timeout = .ok s' →
      Step (.pop caller i timeout) s s'
  | resumed {s s' : DataQueues T U I} (t : T) : s.kernel.Running t → s.place t ≠ .outside →
      s.resumed t = .ok s' → Step (.resumed t) s s'
  | elsewhere {s : DataQueues T U I} (k : State T U (I ⊕ I)) :
      Step (.elsewhere k) s { s with kernel := k }

def Runs : DataQueues T U I → DataQueues T U I → Prop :=
  Relation.ReflTransGen fun s s' => ∃ move, Step move s s'

/-- The move tests whether queue `i` is full, to push an item. -/
def Pushes (s : DataQueues T U I) (i : I) : DataMove T U I → Prop
  | .push _ j _ _ => j = i
  | .resumed t => (s.kernel.thread t).error = .eok ∧
      ∃ item timeout, s.place t = .pushing i item timeout
  | _ => False

/-- Runs in which every push finds that its counters have not wrapped apart, or its slot free. -/
def FittingRuns : DataQueues T U I → DataQueues T U I → Prop :=
  Relation.ReflTransGen fun s s' => ∃ move, Step move s s' ∧
    ∀ i, s.Pushes i move → (s.queue i).Fits

/-- Queues of positive size as `rt_data_queue_init` leaves them. -/
structure Initial (s : DataQueues T U I) : Prop where
  place : ∀ t, s.place t = .outside
  queue : ∀ i, ∃ size lwm evtNotify memory, size ≠ 0 ∧
    rtDataQueueInit size lwm evtNotify (some memory) = some (s.queue i)
  pushed : ∀ i, s.pushed i = []
  popped : ∀ i, s.popped i = []

variable {s s' s₀ : DataQueues T U I} {caller : Option T} {i : I} {item : DataItem}
  {timeout : Tick}

theorem FittingRuns.runs (h : FittingRuns s s') : Runs s s' := by
  induction h with
  | refl => exact .refl
  | tail _ hstep ih =>
    obtain ⟨move, hstep, -⟩ := hstep
    exact ih.tail ⟨move, hstep⟩

section

omit [DecidableEq U] [DecidableEq I] [Fintype T] [Fintype U]

@[simp] theorem move_queue (a : DataPlace I) : (s.move caller a).queue = s.queue := by
  cases caller <;> rfl

@[simp] theorem move_pushed (a : DataPlace I) : (s.move caller a).pushed = s.pushed := by
  cases caller <;> rfl

@[simp] theorem move_popped (a : DataPlace I) : (s.move caller a).popped = s.popped := by
  cases caller <;> rfl

end

/-- Every queue is a first-in first-out queue. -/
def Sound (s : DataQueues T U I) : Prop :=
  ∀ i, (s.queue i).Fifo (s.pushed i) (s.popped i)

omit [DecidableEq T] [DecidableEq U] [Fintype T] [Fintype U] in
theorem Sound.update (h : s.Sound) {q : DataQueue} {pushed popped : List DataItem}
    (hq : q.Fifo pushed popped) (i j : I) :
    (Function.update s.queue i q j).Fifo (Function.update s.pushed i pushed j)
      (Function.update s.popped i popped j) := by
  by_cases hj : j = i
  · subst hj
    simpa only [Function.update_self] using hq
  · simpa only [Function.update_of_ne hj] using h j

omit [DecidableEq T] [DecidableEq U] [DecidableEq I] [Fintype T] [Fintype U] in
/-- A stretch leaves the queue alone. -/
theorem Sound.same (h : s.Sound) (hqueue : s'.queue = s.queue)
    (hpushed : s'.pushed = s.pushed) (hpopped : s'.popped = s.popped) : s'.Sound := by
  intro j
  rw [hqueue, hpushed, hpopped]
  exact h j

theorem Sound.pushes {k k' : State T U (I ⊕ I)} {q : DataQueue} {out : DataOut} (h : s.Sound)
    (hfits : (s.queue i).Fits)
    (hpush : rtDataQueuePush caller i item timeout (s.queue i) k = .ok (k', q, out)) :
    (s.pushes caller i item timeout (k', q, out)).Sound := by
  obtain ⟨-, rfl, rfl | rfl⟩ | ⟨hfull, rfl, event, rfl⟩ := rtDataQueuePush_cases hpush
  · exact h.same (by simp [DataQueues.pushes]) (by simp [DataQueues.pushes])
      (by simp [DataQueues.pushes])
  · exact h.same (by simp [DataQueues.pushes]) (by simp [DataQueues.pushes])
      (by simp [DataQueues.pushes])
  · intro j
    have hfifo : DataQueue.Fifo ((s.queue i).put item) (s.pushed i ++ [item]) (s.popped i) :=
      (h i).put hfits hfull
    have hput := h.update hfifo i j
    rw [Function.update_eq_self] at hput
    simpa [DataQueues.pushes] using hput

theorem Sound.pops {k k' : State T U (I ⊕ I)} {q : DataQueue} {out : DataOut} (h : s.Sound)
    (hpop : rtDataQueuePop caller i timeout (s.queue i) k = .ok (k', q, out)) :
    (s.pops caller i timeout (k', q, out)).Sound := by
  obtain ⟨-, rfl, rfl | rfl⟩ | ⟨hsome, rfl, event, rfl⟩ := rtDataQueuePop_cases hpop
  · exact h.same (by simp [DataQueues.pops]) (by simp [DataQueues.pops])
      (by simp [DataQueues.pops])
  · exact h.same (by simp [DataQueues.pops]) (by simp [DataQueues.pops])
      (by simp [DataQueues.pops])
  · intro j
    have htake := h.update ((h i).take hsome) i j
    rw [Function.update_eq_self] at htake
    simpa [DataQueues.pops] using htake

/-- One step keeps the queues, where its push fits. -/
theorem Sound.step {move : DataMove T U I} (h : s.Sound) (hstep : Step move s s')
    (hfits : ∀ i, s.Pushes i move → (s.queue i).Fits) : s'.Sound := by
  cases hstep with
  | push caller i item timeout hfree hpush =>
    simp only [DataQueues.push, exec_bind_ok, exec_pure_ok] at hpush
    obtain ⟨⟨k', q, out⟩, hout, rfl⟩ := hpush
    exact h.pushes (hfits i rfl) hout
  | pop caller i timeout hfree hpop =>
    simp only [DataQueues.pop, exec_bind_ok, exec_pure_ok] at hpop
    obtain ⟨⟨k', q, out⟩, hout, rfl⟩ := hpop
    exact h.pops hout
  | elsewhere k => exact h
  | resumed t hrunning hplace hresumed =>
    cases hwaits : s.place t with
    | outside => exact absurd hwaits hplace
    | pushing i item timeout =>
      simp only [DataQueues.resumed, hwaits, exec_bind_ok, exec_pure_ok] at hresumed
      obtain ⟨⟨k', q, out⟩, hout, rfl⟩ := hresumed
      obtain ⟨herror, rfl, rfl⟩ | ⟨hok, hloop⟩ := rtDataQueueResumed_cases hout
      · exact h.same (by simp [DataQueues.pushes, herror]) (by simp [DataQueues.pushes, herror])
          (by simp [DataQueues.pushes, herror])
      · exact h.pushes (hfits i ⟨hok, item, timeout, hwaits⟩) hloop
    | popping i timeout =>
      simp only [DataQueues.resumed, hwaits, exec_bind_ok, exec_pure_ok] at hresumed
      obtain ⟨⟨k', q, out⟩, hout, rfl⟩ := hresumed
      obtain ⟨herror, rfl, rfl⟩ | ⟨hok, hloop⟩ := rtDataQueueResumed_cases hout
      · exact h.same (by simp [DataQueues.pops]) (by simp [DataQueues.pops])
          (by simp [DataQueues.pops])
      · exact h.pops hloop

omit [DecidableEq T] [DecidableEq U] [DecidableEq I] [Fintype T] [Fintype U] in
theorem Initial.sound (h : s.Initial) : s.Sound := by
  intro i
  obtain ⟨size, lwm, evtNotify, memory, hsize, hinit⟩ := h.queue i
  rw [h.pushed, h.popped]
  exact .init hsize hinit

theorem Sound.runs (h : s.Sound) (hruns : FittingRuns s s') : s'.Sound := by
  induction hruns with
  | refl => exact h
  | tail _ hstep ih =>
    obtain ⟨move, hstep, hfits⟩ := hstep
    exact ih.step hstep hfits

/-- In every run whose pushes find the counters on one side of the wrap, or the next slot free,
    a data queue is a first-in first-out queue of at most `size` items, a peak returns the oldest
    of them, and a push finds the queue full exactly when `size` are stored.  Any other push
    overwrites an item. -/
theorem data_queue_fifo {s₀ s : DataQueues T U I} (hinit : s₀.Initial) (hruns : FittingRuns s₀ s)
    (i : I) :
    s.pushed i = s.popped i ++ (s.queue i).stored ∧
      (s.queue i).stored.length ≤ (s.queue i).size.toNat ∧
      rtDataQueuePeak (s.queue i) = (s.queue i).stored.head? ∧
      ((s.queue i).Fits →
        ((s.queue i).Full ↔ (s.queue i).stored.length = (s.queue i).size.toNat)) ∧
      ((s.queue i).Fits ↔
        ((s.queue i).Full ∨ (s.queue i).slot (s.queue i).putIndex ∉ (s.queue i).slots)) := by
  have hfifo := hinit.sound.runs hruns i
  exact ⟨hfifo.order, by simpa using hfifo.count_le, DataQueue.rtDataQueuePeak_eq,
    hfifo.full_iff, hfifo.fits_iff⟩

/-- A push in an interrupt, while no thread waits for an item. -/
theorem push_interrupt (hfull : ¬ (s.queue i).Full)
    (hidle : rtListIsempty (.inl (.suspend (.inl i))) s.kernel.tlist = true) :
    s.push none i item timeout = .ok { s with
      queue := Function.update s.queue i ((s.queue i).put item)
      pushed := Function.update s.pushed i (s.pushed i ++ [item]) } := by
  simp only [push, rtDataQueuePush, hfull, if_false, hidle, Bool.true_eq_false]
  rfl

/-- A pop in an interrupt, while no thread waits to push. -/
theorem pop_interrupt (hsome : (s.queue i).getIndex ≠ (s.queue i).putIndex)
    (hidle : rtListIsempty (.inl (.suspend (.inr i))) s.kernel.tlist = true) :
    s.pop none i timeout = .ok { s with
      queue := Function.update s.queue i (s.queue i).take
      popped := Function.update s.popped i (s.popped i ++ [(s.queue i).front]) } := by
  simp only [pop, rtDataQueuePop, hsome, if_false, hidle, Bool.true_eq_false]
  split <;> rfl

/-- One data queue that is used in interrupts alone, and nothing waits for. -/
def interruptQueue (size getIndex putIndex : BitVec 16) (cells : Nat → DataItem)
    (pushed popped : List DataItem) : DataQueues Empty Empty Unit where
  kernel := State.boot
  queue _ := ⟨size, 0, getIndex, putIndex, cells, false⟩
  place _ := .outside
  pushed _ := pushed
  popped _ := popped

section InterruptQueue

variable (size getIndex putIndex : BitVec 16) (cells : Nat → DataItem)
  (pushed popped : List DataItem) (item : DataItem)

theorem interruptQueue_initial (hsize : size ≠ 0) : (interruptQueue size 0 0 cells [] []).Initial :=
  ⟨fun _ => rfl, fun _ => ⟨size, 0, false, cells, hsize, rfl⟩, fun _ => rfl, fun _ => rfl⟩

theorem interruptQueue_push (hfull : (putIndex.toNat : Int) - getIndex.toNat ≠ size.toNat) :
    Step (.push none () item 0) (interruptQueue size getIndex putIndex cells pushed popped)
      (interruptQueue size getIndex (putIndex + 1)
        (Function.update cells (putIndex.toNat % size.toNat) item) (pushed ++ [item]) popped) := by
  refine .push none () item 0 (fun _ h => nomatch h) ?_
  have hroom : ¬ ((interruptQueue size getIndex putIndex cells pushed popped).queue ()).Full := hfull
  rw [push_interrupt hroom rfl]
  congr 1

theorem interruptQueue_pop (hsome : getIndex ≠ putIndex) :
    Step (.pop none () 0) (interruptQueue size getIndex putIndex cells pushed popped)
      (interruptQueue size (getIndex + 1) putIndex cells pushed
        (popped ++ [cells (getIndex.toNat % size.toNat)])) := by
  refine .pop none () 0 (fun _ h => nomatch h) ?_
  have hitem : ((interruptQueue size getIndex putIndex cells pushed popped).queue ()).getIndex ≠
    ((interruptQueue size getIndex putIndex cells pushed popped).queue ()).putIndex := hsome
  rw [pop_interrupt hitem rfl]
  congr 1

/-- Any number of items go through the queue, one by one. -/
theorem interruptQueue_passes (hsize : size ≠ 0) (n : Nat) :
    ∃ cells', FittingRuns (interruptQueue size 0 0 cells [] [])
      (interruptQueue size (BitVec.ofNat 16 n) (BitVec.ofNat 16 n) cells' (List.replicate n item)
        (List.replicate n item)) := by
  induction n with
  | zero => exact ⟨cells, .refl⟩
  | succ n ih =>
    obtain ⟨cells', ih⟩ := ih
    have hroom : ((BitVec.ofNat 16 n).toNat : Int) - (BitVec.ofNat 16 n).toNat ≠ size.toNat := by
      bv_omega
    have hpush := interruptQueue_push size (BitVec.ofNat 16 n) (BitVec.ofNat 16 n) cells'
      (List.replicate n item) (List.replicate n item) item hroom
    have hpop := interruptQueue_pop size (BitVec.ofNat 16 n) (BitVec.ofNat 16 n + 1)
      (Function.update cells' ((BitVec.ofNat 16 n).toNat % size.toNat) item)
      (List.replicate n item ++ [item]) (List.replicate n item) (by bv_omega)
    rw [Function.update_self] at hpop
    rw [List.replicate_succ', BitVec.ofNat_add]
    exact ⟨_, (ih.tail ⟨_, hpush, fun _ _ => .inl (BitVec.le_refl _)⟩).tail
      ⟨_, hpop, fun _ h => h.elim⟩⟩

/-- After 65535 items have gone through a queue of one slot, its put counter wraps with the next
    one.  The queue is full and does not look so, and one more push overwrites the item. -/
theorem data_queue_overwrites :
    ∃ s₀ s : DataQueues Empty Empty Unit, s₀.Initial ∧ Runs s₀ s ∧ (s.queue ()).size = 1 ∧
      s.pushed () = s.popped () ++ [⟨1, 4⟩, ⟨2, 4⟩] ∧ (s.queue ()).stored.length = 2 ∧
      rtDataQueuePeak (s.queue ()) = some ⟨2, 4⟩ := by
  obtain ⟨cells, hpasses⟩ := interruptQueue_passes 1 (fun _ => ⟨0, 0⟩) ⟨0, 0⟩ (by decide) 65535
  generalize List.replicate 65535 (⟨0, 0⟩ : DataItem) = items at hpasses
  have hfirst : Step _ (interruptQueue 1 (BitVec.ofNat 16 65535) (BitVec.ofNat 16 65535) cells
      items items) (interruptQueue 1 (BitVec.ofNat 16 65535) 0 _ (items ++ [⟨1, 4⟩]) items) :=
    interruptQueue_push _ _ _ _ _ _ _ (by decide)
  have hsecond := interruptQueue_push 1 (BitVec.ofNat 16 65535) 0
    (Function.update cells 0 ⟨1, 4⟩) (items ++ [⟨1, 4⟩]) items ⟨2, 4⟩ (by decide)
  refine ⟨_, _, interruptQueue_initial _ _ (by decide),
    (hpasses.runs.tail ⟨_, hfirst⟩).tail ⟨_, hsecond⟩, rfl, ?_, ?_, ?_⟩
  · exact List.append_assoc _ _ _
  · rw [DataQueue.length_stored]
    rfl
  · simp [rtDataQueuePeak, DataQueue.front, DataQueue.slot, interruptQueue]

/-- After 65535 items have gone through a queue of two slots, two more are pushed, the counters
    wrap with the next, and the queue is full again.  The items leave it in their order. -/
theorem data_queue_fifo_wraps :
    ∃ s₀ s : DataQueues Empty Empty Unit, s₀.Initial ∧ FittingRuns s₀ s ∧
      ∃ items, s.pushed () = items ++ [⟨1, 4⟩, ⟨2, 4⟩, ⟨3, 4⟩] ∧
        s.popped () = items ++ [⟨1, 4⟩] ∧ items.length = 65535 ∧
        (s.queue ()).stored = [⟨2, 4⟩, ⟨3, 4⟩] ∧
        rtDataQueuePeak (s.queue ()) = some ⟨2, 4⟩ ∧ (s.queue ()).Full ∧
        (s.queue ()).putIndex = 2 ∧ (s.queue ()).size = 2 := by
  obtain ⟨cells, hpasses⟩ := interruptQueue_passes 2 (fun _ => ⟨0, 0⟩) ⟨0, 0⟩ (by decide) 65535
  have hitems : (List.replicate 65535 (⟨0, 0⟩ : DataItem)).length = 65535 :=
    List.length_replicate
  generalize List.replicate 65535 (⟨0, 0⟩ : DataItem) = items at hpasses hitems
  have hfirst := interruptQueue_push 2 (BitVec.ofNat 16 65535) (BitVec.ofNat 16 65535) cells
    items items ⟨1, 4⟩ (by decide)
  have hsecond := interruptQueue_push 2 (BitVec.ofNat 16 65535) 0
    (Function.update cells 1 ⟨1, 4⟩) (items ++ [⟨1, 4⟩]) items ⟨2, 4⟩ (by decide)
  have hpop := interruptQueue_pop 2 (BitVec.ofNat 16 65535) 1
    (Function.update (Function.update cells 1 ⟨1, 4⟩) 0 ⟨2, 4⟩)
    (items ++ [⟨1, 4⟩] ++ [⟨2, 4⟩]) items (by decide)
  have hthird := interruptQueue_push 2 0 1
    (Function.update (Function.update cells 1 ⟨1, 4⟩) 0 ⟨2, 4⟩)
    (items ++ [⟨1, 4⟩] ++ [⟨2, 4⟩]) (items ++ [⟨1, 4⟩]) ⟨3, 4⟩ (by decide)
  have hwrap : BitVec.ofNat 16 65535 + 1 = 0 := by decide
  rw [hwrap] at hfirst hpop
  have hfree : ((interruptQueue 2 (BitVec.ofNat 16 65535) 0 (Function.update cells 1 ⟨1, 4⟩)
      (items ++ [⟨1, 4⟩]) items).queue ()).slot 0 ∉ ((interruptQueue 2 (BitVec.ofNat 16 65535) 0
      (Function.update cells 1 ⟨1, 4⟩) (items ++ [⟨1, 4⟩]) items).queue ()).slots := by
    have hcount : ((interruptQueue 2 (BitVec.ofNat 16 65535) 0 (Function.update cells 1 ⟨1, 4⟩)
        (items ++ [⟨1, 4⟩]) items).queue ()).count = 1 :=
      show ((0 : BitVec 16) - BitVec.ofNat 16 65535).toNat = 1 by decide
    rw [DataQueue.slots_of_count_one hcount]
    show ¬ (0 : BitVec 16).toNat % 2 ∈ [(BitVec.ofNat 16 65535).toNat % 2]
    decide
  have hruns := (((hpasses.tail ⟨_, hfirst, fun _ _ => .inl (BitVec.le_refl _)⟩).tail
    ⟨_, hsecond, fun _ _ => .inr hfree⟩).tail ⟨_, hpop, fun _ h => h.elim⟩).tail
    ⟨_, hthird, fun _ _ => .inl (show (0 : BitVec 16) ≤ 1 by decide)⟩
  obtain ⟨horder, -, hpeak, -, -⟩ := data_queue_fifo (interruptQueue_initial _ _ (by decide)) hruns ()
  have hstored := List.append_cancel_left ((List.append_assoc _ [_] _).symm.trans horder)
  exact ⟨_, _, interruptQueue_initial _ _ (by decide), hruns, items, by simp [interruptQueue], rfl,
    hitems, hstored.symm, hpeak.trans (by rw [← hstored]; rfl),
    show ((2 : BitVec 16).toNat : Int) - (0 : BitVec 16).toNat = (2 : BitVec 16).toNat by decide,
    rfl, rfl⟩

end InterruptQueue

end DataQueues

end PandoraRobot.Drivers
