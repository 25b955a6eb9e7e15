import PandoraRobot.Ipc.MessageQueue

/-! # Runs of message queues

Whatever senders, receivers, resets and the rest of the kernel do, and wherever they
interrupt each other, the blocks of a queue are its free ones, those that are queued
and those that a call has taken, and a receive gets the bytes of the message it takes.
-/

namespace PandoraRobot.Ipc

open PandoraRobot.Kernel PandoraRobot.Chain PandoraRobot.Holding PandoraRobot.UrgentQueue

/-- The bytes of a message are in a block. -/
def MessageQueue.Carries (mq : MessageQueue) (b : Nat) (message : List Byte) : Prop :=
  message.length ≤ mq.msgSize.toNat ∧
    ∀ (n : Nat) (byte : Byte), message[n]? = some byte → mq.data b n = byte

/-- A block carries message number `x`. -/
def Carried (mq : MessageQueue) (h : History (List Byte)) (b x : Nat) : Prop :=
  ∃ l, h.links[x]? = some l ∧ mq.Carries b l.item

/-- A receive has filled its buffer, as far as a block goes, and as far as the message goes the
    bytes are those of the message. -/
structure Delivery.Of (d : Delivery) (msgSize : Nat) (message : List Byte) : Prop where
  length : d.buffer.length = min d.size msgSize
  bytes : d.buffer.take message.length = message.take (min d.size msgSize)

/-- The messages that were linked before are numbered as before. -/
theorem links_link (h : History (List Byte)) (urgent : Bool) (message : List Byte) (x : Nat)
    (l : Link (List Byte)) (hl : h.links[x]? = some l) :
    (h.link urgent message).links[x]? = some l := by
  have hlt := (List.getElem?_eq_some_iff.mp hl).1
  rw [History.link, List.getElem?_append_left hlt, hl]

theorem Carried.link {mq : MessageQueue} {h : History (List Byte)} {b x : Nat}
    (hb : Carried mq h b x) (urgent : Bool) (message : List Byte) :
    Carried mq (h.link urgent message) b x := by
  obtain ⟨l, hl, hcarries⟩ := hb
  exact ⟨l, links_link h urgent message x l hl, hcarries⟩

theorem Carried.frame {mq mq' : MessageQueue} {h : History (List Byte)} {b x : Nat}
    (hb : Carried mq h b x) (hsize : mq'.msgSize = mq.msgSize) (hdata : mq'.data b = mq.data b) :
    Carried mq' h b x := by
  obtain ⟨l, hl, hcarries⟩ := hb
  refine ⟨l, hl, ?_⟩
  rw [MessageQueue.Carries, hsize, hdata]
  exact hcarries

namespace MqPlace

variable {I : Type} [DecidableEq I]

/-- The queue of a call. -/
def queue : MqPlace I → Option I
  | .outside => none
  | .clearing i _ _ | .filling i _ _ _ _ | .waiting i _ _ _ | .emptying i _ _ _ _ => some i

/-- How far a call on queue `i` has come. -/
def Good (i : I) (mq : MessageQueue) (h : History (List Byte)) : MqPlace I → Prop
  | .clearing j _ message => j = i → message.length ≤ mq.msgSize.toNat
  | .filling j urgent msg message copied => j = i →
      message.length ≤ mq.msgSize.toNat ∧ (urgent = false → mq.next msg = none) ∧
        ∀ n < copied, ∀ byte, message[n]? = some byte → mq.data msg n = byte
  | .emptying j msg size stamp buffer => j = i →
      Carried mq h msg stamp ∧
        buffer.length ≤ min size mq.msgSize.toNat ∧
        ∀ (n : Nat) (byte : Byte), buffer[n]? = some byte → mq.data msg n = byte
  | _ => True

variable {i : I} {p : MqPlace I} {mq mq' : MessageQueue} {h h' : History (List Byte)}

/-- A call on another queue, or none. -/
theorem elsewhere (mq : MessageQueue) (h : History (List Byte)) (hp : p.queue ≠ some i) :
    p.holds i = none ∧ p.receives i = none ∧ p.Good i mq h := by
  cases p <;> simp_all [queue, holds, receives, Good]

/-- A call depends on the block it has taken, and on the messages that were linked. -/
theorem Good.frame (hp : p.Good i mq h) (hsize : mq'.msgSize = mq.msgSize)
    (hblock : ∀ b, p.holds i = some b → mq'.next b = mq.next b ∧ mq'.data b = mq.data b)
    (hlinks : ∀ (x : Nat) (l : Link (List Byte)), h.links[x]? = some l → h'.links[x]? = some l) :
    p.Good i mq' h' := by
  cases p with
  | outside | waiting => trivial
  | clearing j msg message =>
    intro hj
    rw [hsize]
    exact hp hj
  | filling j urgent msg message copied =>
    intro hj
    obtain ⟨hnext, hdata⟩ := hblock msg (by simp [holds, hj])
    rw [hsize, hnext, hdata]
    exact hp hj
  | emptying j msg size stamp buffer =>
    intro hj
    obtain ⟨-, hdata⟩ := hblock msg (by simp [holds, hj])
    obtain ⟨⟨l, hl, hcarries⟩, hbuffer⟩ := hp hj
    have hcarried : Carried mq h' msg stamp := ⟨l, hlinks stamp l hl, hcarries⟩
    refine ⟨hcarried.frame hsize hdata, ?_⟩
    rw [hsize, hdata]
    exact hbuffer

end MqPlace

section Queue

variable {C I : Type} [DecidableEq C] [DecidableEq I]

/-- The messages of queue `i` and its blocks, which are `own`, each in one place. -/
structure Sound (own : List Nat) (i : I) (mq : MessageQueue) (place : C → MqPlace I) (h : History (List Byte))
    (delivered : List Delivery) (free queued : List Nat) : Prop where
  lists : mq.Lists free queued
  pool : mq.blocks = own
  blocks : Shared (· ∈ own) (MqPlace.holds i ∘ place) (free ++ queued)
  entry : mq.entry.toNat = queued.length
  orderly : h.Orderly
  carries : List.Forall₂ (Carried mq h) queued h.queue
  good : ∀ c, (place c).Good i mq h
  messages : Shared (· ∈ h.received) (MqPlace.receives i ∘ place) (delivered.map Delivery.stamp)
  deliveries : ∀ d ∈ delivered, ∃ l, h.links[d.stamp]? = some l ∧
    d.Of mq.msgSize.toNat l.item

variable {i j : I} {mq mq' : MessageQueue} {place place' : C → MqPlace I}
  {h h' : History (List Byte)} {delivered : List Delivery} {free queued : List Nat} {c : C}
  {b : Nat} {a : MqPlace I} {message : List Byte} {own : List Nat}

theorem holds_update (i : I) (place : C → MqPlace I) (c : C) (a : MqPlace I) :
    MqPlace.holds i ∘ Function.update place c a =
      Function.update (MqPlace.holds i ∘ place) c (a.holds i) :=
  Function.comp_update _ _ _ _

theorem receives_update (i : I) (place : C → MqPlace I) (c : C) (a : MqPlace I) :
    MqPlace.receives i ∘ Function.update place c a =
      Function.update (MqPlace.receives i ∘ place) c (a.receives i) :=
  Function.comp_update _ _ _ _

/-- A caller goes on with the same block, or none. -/
theorem holds_same (ha : a.holds i = (place c).holds i) :
    MqPlace.holds i ∘ Function.update place c a = MqPlace.holds i ∘ place := by
  rw [holds_update, ha, Function.update_eq_self_iff]
  rfl

theorem receives_same (ha : a.receives i = (place c).receives i) :
    MqPlace.receives i ∘ Function.update place c a = MqPlace.receives i ∘ place := by
  rw [receives_update, ha, Function.update_eq_self_iff]
  rfl

section

omit [DecidableEq C]

/-- There are no more blocks than the pool has been divided into. -/
theorem shelf_length_le {hand : C → Option Nat} {shelf : List Nat} (hown : mq.blocks = own)
    (hs : Shared (· ∈ own) hand shelf) : shelf.length ≤ mq.maxMsgs.toNat := by
  have hsub : shelf ⊆ own := fun b hb => (hs.everything b).mpr (.inl hb)
  have hle := (List.subperm_of_subset hs.nodup hsub).length_le
  simpa [← hown, MessageQueue.blocks] using hle

/-- A block that is taken is in no list. -/
theorem Sound.taken (hs : Sound own i mq place h delivered free queued)
    (hc : (place c).holds i = some b) : b ∉ free ++ queued :=
  hs.blocks.apart c b hc

end

/-- The other calls go on, when only the block of one call and the lists change. -/
theorem Sound.others (hs : Sound own i mq place h delivered free queued)
    (hsize : mq'.msgSize = mq.msgSize)
    (hblock : ∀ b, b ∉ free ++ queued → (place c).holds i ≠ some b →
      mq'.next b = mq.next b ∧ mq'.data b = mq.data b)
    (hlinks : ∀ (x : Nat) (l : Link (List Byte)), h.links[x]? = some l → h'.links[x]? = some l)
    (ha : a.Good i mq' h') : ∀ d, (Function.update place c a d).Good i mq' h' := by
  intro d
  by_cases hd : d = c
  · subst hd
    simpa using ha
  · rw [Function.update_of_ne hd]
    refine (hs.good d).frame hsize (fun b hb => hblock b (hs.taken hb) fun hc => ?_) hlinks
    exact hd (hs.blocks.one d c b hb hc)

/-- What happens elsewhere does not matter. -/
theorem Sound.elsewhere (hs : Sound own i mq place h delivered free queued)
    (hc : (place c).queue ≠ some i) (ha : a.queue ≠ some i) :
    Sound own i mq (Function.update place c a) h delivered free queued := by
  obtain ⟨hholds, hreceives, -⟩ := MqPlace.elsewhere mq h hc
  obtain ⟨hholds', hreceives', hgood⟩ := MqPlace.elsewhere mq h ha
  refine ⟨hs.lists, hs.pool, ?_, hs.entry, hs.orderly, hs.carries, ?_, ?_, hs.deliveries⟩
  · rw [holds_same (by rw [hholds, hholds'])]
    exact hs.blocks
  · exact hs.others rfl (fun _ _ _ => ⟨rfl, rfl⟩) (fun _ _ hl => hl) hgood
  · rw [receives_same (by rw [hreceives, hreceives'])]
    exact hs.messages

/-! ## What a call does to its queue -/

/-- A block of the free list is taken. -/
theorem Sound.take (hs : Sound own i mq place h delivered (b :: free) queued)
    (hc : place c = .outside) (ha : a.holds i = some b) (hreceives : a.receives i = none)
    (hgood : ∀ mq' : MessageQueue, mq'.msgSize = mq.msgSize → a.Good i mq' h) :
    ∃ mq', mq.takeFree = some (b, mq') ∧
      Sound own i mq' (Function.update place c a) h delivered free queued ∧ mq'.entry = mq.entry := by
  obtain ⟨mq', htake, hlists, hframe, hentry⟩ := hs.lists.takeFree
  refine ⟨mq', htake, ⟨hlists, hframe.blocks.trans hs.pool, ?_, hentry ▸ hs.entry, hs.orderly, ?_, ?_, ?_, ?_⟩, hentry⟩
  · rw [holds_update, ha]
    exact hs.blocks.pick (by simp [hc, MqPlace.holds])
  · exact hs.carries.imp fun _ _ hb => hb.frame hframe.msgSize (by rw [hframe.data])
  · exact hs.others hframe.msgSize (fun d _ _ => ⟨hframe.next d (by simp), by rw [hframe.data]⟩)
      (fun _ _ hl => hl) (hgood mq' hframe.msgSize)
  · rw [receives_same (by rw [hreceives, hc]; rfl)]
    exact hs.messages
  · rw [hframe.msgSize]
    exact hs.deliveries

/-- A link of a block that is taken is written. -/
theorem Sound.setNext (hs : Sound own i mq place h delivered free queued)
    (hc : (place c).holds i = some b) (n : Option Nat) (ha : a.holds i = some b)
    (hreceives : a.receives i = (place c).receives i) (hgood : a.Good i (mq.setNext b n) h) :
    Sound own i (mq.setNext b n) (Function.update place c a) h delivered free queued := by
  have hframe : MessageQueue.Frame [b] mq (mq.setNext b n) := MessageQueue.setNext_frame n
  refine ⟨hs.lists.setNext (hs.taken hc) n, hframe.blocks.trans hs.pool, ?_, hs.entry, hs.orderly, hs.carries, ?_, ?_,
    hs.deliveries⟩
  · rw [holds_same (by rw [ha, hc])]
    exact hs.blocks
  · refine hs.others rfl (fun d _ hne => ⟨hframe.next d ?_, rfl⟩) (fun _ _ hl => hl) hgood
    rw [List.mem_singleton]
    rintro rfl
    exact hne hc
  · rw [receives_same hreceives]
    exact hs.messages

/-- A byte of a block that is taken is written. -/
theorem Sound.store (hs : Sound own i mq place h delivered free queued)
    (hc : (place c).holds i = some b) (n : Nat) (byte : Byte) (ha : a.holds i = some b)
    (hreceives : a.receives i = (place c).receives i) (hgood : a.Good i (mq.store b n byte) h) :
    Sound own i (mq.store b n byte) (Function.update place c a) h delivered free queued := by
  have hdata : ∀ d, d ≠ b → (mq.store b n byte).data d = mq.data d := by
    intro d hd
    simp [MessageQueue.store, hd]
  have htaken := hs.taken hc
  refine ⟨⟨hs.lists.freeHead, hs.lists.freeLinked, hs.lists.queueHead, hs.lists.queueTail,
    hs.lists.queueLinked, hs.lists.nodup⟩, hs.pool, ?_, hs.entry, hs.orderly, ?_, ?_, ?_, hs.deliveries⟩
  · rw [holds_same (by rw [ha, hc])]
    exact hs.blocks
  · refine List.forall₂_iff_get.mpr ⟨hs.carries.length_eq, fun m hm hm' => ?_⟩
    have hne : queued.get ⟨m, hm⟩ ≠ b := by
      rintro rfl
      exact htaken (List.mem_append_right _ (List.get_mem _ _))
    exact (hs.carries.get hm hm').frame rfl (hdata _ hne)
  · refine hs.others rfl (fun d _ hne => ⟨rfl, hdata d ?_⟩) (fun _ _ hl => hl) hgood
    rintro rfl
    exact hne hc
  · rw [receives_same hreceives]
    exact hs.messages

/-- A message that has been copied is linked at one of the ends. -/
theorem Sound.linked (hs : Sound own i mq place h delivered free queued) {urgent : Bool}
    {queued' touched : List Nat} (hc : (place c).holds i = some b)
    (hreceives : (place c).receives i = none) (hlists : mq'.Lists free queued')
    (hframe : MessageQueue.Frame touched mq mq') (htouched : touched ⊆ b :: queued)
    (hperm : queued'.Perm (b :: queued)) (hentry : mq'.entry = mq.entry + 1)
    (hcarries : List.Forall₂ (Carried mq (h.link urgent message)) queued'
      (h.link urgent message).queue) :
    Sound own i mq' (Function.update place c .outside) (h.link urgent message) delivered free
      queued' := by
  have hblocks := hs.blocks.put hc
  have hlength := shelf_length_le hs.pool hblocks
  have hlinks := links_link h urgent message
  refine ⟨hlists, hframe.blocks.trans hs.pool, ?_, ?_, hs.orderly.link urgent message, ?_, ?_, ?_, fun d hd => ?_⟩
  · rw [holds_update]
    refine hblocks.perm (List.Perm.trans ?_ (hperm.append_left free).symm)
    exact List.perm_middle.symm
  · -- the counter does not overflow, as there are not more than 65535 blocks
    have hentry' := hs.entry
    have hqueued := hperm.length_eq
    simp only [List.length_cons, List.length_append] at hlength hqueued
    rw [hentry]
    bv_omega
  · exact hcarries.imp fun _ _ hb => hb.frame hframe.msgSize (by rw [hframe.data])
  · refine hs.others hframe.msgSize (fun d hd hne => ⟨hframe.next d ?_, by rw [hframe.data]⟩)
      hlinks trivial
    intro hm
    rcases List.mem_cons.mp (htouched hm) with rfl | hm
    · exact hne hc
    · exact hd (List.mem_append_right _ hm)
  · rw [receives_same (by rw [hreceives]; rfl)]
    exact hs.messages
  · obtain ⟨l, hl, hof⟩ := hs.deliveries d hd
    rw [hframe.msgSize]
    exact ⟨l, hlinks _ l hl, hof⟩

theorem Sound.link (hs : Sound own i mq place h delivered free queued) {urgent : Bool} {copied : Nat}
    (hc : place c = .filling i urgent b message copied) (hend : message.length ≤ copied) :
    ∃ queued', Sound own i (if urgent then mq.linkHead b else mq.linkTail b)
      (Function.update place c .outside) (h.link urgent message) delivered free queued' := by
  have hholds : (place c).holds i = some b := by simp [hc, MqPlace.holds]
  have hreceives : (place c).receives i = none := by simp [hc, MqPlace.receives]
  have htaken := hs.taken hholds
  have hgood := hs.good c
  rw [hc] at hgood
  obtain ⟨hsize, hnext, hbytes⟩ := hgood rfl
  have hcarried : mq.Carries b message := by
    refine ⟨hsize, fun n byte hn => hbytes n ?_ byte hn⟩
    exact (List.getElem?_eq_some_iff.mp hn).1.trans_le hend
  have hnew : Carried mq (h.link urgent message) b h.links.length :=
    ⟨⟨urgent, message, h.queue⟩, by simp [History.link], hcarried⟩
  have hold := hs.carries.imp fun _ _ hb => hb.link urgent message
  cases urgent with
  | true =>
    refine ⟨b :: queued, hs.linked hholds hreceives (hs.lists.linkHead htaken)
      MessageQueue.linkHead_frame (by simp) (.refl _) rfl ?_⟩
    exact .cons hnew hold
  | false =>
    refine ⟨queued ++ [b], hs.linked hholds hreceives (hs.lists.linkTail htaken (hnext rfl))
      hs.lists.linkTail_frame (by simp) (List.perm_append_singleton b queued)
      MessageQueue.linkTail_entry ?_⟩
    exact List.rel_append hold (.cons hnew .nil)

/-- The message at the front is taken. -/
theorem Sound.receive (hs : Sound own i mq place h delivered free queued) (hentry : mq.entry ≠ 0)
    (hholds : (place c).holds i = none) (hreceives : (place c).receives i = none) (size : Nat) :
    ∃ b mq' queued', mq.unlinkHead = .ok (b, mq') ∧ mq'.entry = mq.entry ∧
      Sound own i { mq' with entry := mq'.entry - 1 }
        (Function.update place c (.emptying i b size (h.queue.headD 0) [])) h.receive delivered
        free queued' := by
  cases queued with
  | nil => exact absurd (BitVec.eq_of_toNat_eq hs.entry) hentry
  | cons b queued =>
    obtain ⟨x, stamps, hb, hrest, hqueue⟩ := List.forall₂_cons_left_iff.mp hs.carries
    obtain ⟨mq', hunlink, hlists, hframe, hsame⟩ := hs.lists.unlinkHead
    have hreceived : h.receive.received = h.received ++ [x] := by simp [History.receive, hqueue]
    have hfresh : x ∉ h.received := by
      have hnodup := (List.nodup_append.mp hs.orderly.nodup).1
      intro hm
      exact (List.nodup_append.mp hnodup).2.2 x hm x (by simp [hqueue]) rfl
    refine ⟨b, mq', queued, hunlink, hsame, hlists.setEntry _,
      (hframe.setEntry _).blocks.trans hs.pool, ?_, ?_, hs.orderly.receive, ?_, ?_,
      ?_, ?_⟩
    · rw [holds_update]
      have hpick := (hs.blocks.perm List.perm_middle).pick hholds
      simpa [MqPlace.holds] using hpick
    · have hcount := hs.entry
      rw [List.length_cons] at hcount
      simp only [hsame]
      bv_omega
    · simp only [History.receive, hqueue, List.tail_cons]
      exact hrest.imp fun _ _ hd => hd.frame hframe.msgSize (by rw [hframe.data])
    · refine hs.others hframe.msgSize (fun d _ _ => ⟨hframe.next d (by simp), by rw [hframe.data]⟩)
        (fun _ _ hl => hl) fun _ => ⟨?_, by simp, by simp⟩
      rw [hqueue, List.headD_cons]
      exact hb.frame hframe.msgSize (by rw [hframe.data])
    · rw [receives_update, hqueue, List.headD_cons]
      simp only [MqPlace.receives, if_true]
      refine hs.messages.new hfresh hreceives fun y => ?_
      rw [hreceived, List.mem_append, List.mem_singleton]
    · rw [(hframe.setEntry _).msgSize]
      exact hs.deliveries

/-- A receive copies a byte. -/
theorem Sound.get (hs : Sound own i mq place h delivered free queued) {size x : Nat}
    {buffer : List Byte} (hc : place c = .emptying i b size x buffer)
    (hlt : buffer.length < min size mq.msgSize.toNat) :
    Sound own i mq (Function.update place c
      (.emptying i b size x (buffer ++ [mq.data b buffer.length]))) h delivered free queued := by
  have hgood := hs.good c
  rw [hc] at hgood
  obtain ⟨hcarried, -, hbytes⟩ := hgood rfl
  refine ⟨hs.lists, hs.pool, ?_, hs.entry, hs.orderly, hs.carries, ?_, ?_, hs.deliveries⟩
  · rw [holds_same (by simp [hc, MqPlace.holds])]
    exact hs.blocks
  · refine hs.others rfl (fun _ _ _ => ⟨rfl, rfl⟩) (fun _ _ hl => hl) fun _ =>
      ⟨hcarried, by simpa [Nat.succ_le_iff] using hlt, fun n byte hn => ?_⟩
    rw [List.getElem?_append] at hn
    split at hn
    · exact hbytes n byte hn
    · obtain ⟨hlast, hn⟩ := List.getElem?_eq_some_iff.mp hn
      have hlength : n = buffer.length := by
        simp only [List.length_singleton] at hlast
        omega
      simpa [hlength] using hn
  · rw [receives_same (by simp [hc, MqPlace.receives])]
    exact hs.messages

/-- A full buffer holds the bytes of the message. -/
theorem delivery_of {size x : Nat} {buffer : List Byte} (hcarries : mq.Carries b message)
    (hlength : buffer.length = min size mq.msgSize.toNat)
    (hbytes : ∀ (n : Nat) (byte : Byte), buffer[n]? = some byte → mq.data b n = byte) :
    (Delivery.mk x size buffer).Of mq.msgSize.toNat message := by
  refine ⟨hlength, List.ext_getElem? fun n => ?_⟩
  obtain ⟨-, hmessage⟩ := hcarries
  rw [← hlength, List.getElem?_take, List.getElem?_take]
  by_cases hn : n < buffer.length ∧ n < message.length
  · obtain ⟨hbuffer, hlt⟩ := hn
    rw [if_pos hlt, if_pos hbuffer, List.getElem?_eq_getElem hbuffer,
      List.getElem?_eq_getElem hlt,
      ← hbytes n _ (List.getElem?_eq_getElem hbuffer),
      ← hmessage n _ (List.getElem?_eq_getElem hlt)]
  · rw [not_and_or, not_lt, not_lt] at hn
    cases hn with
    | inl hbuffer => simp [Nat.not_lt.mpr hbuffer]
    | inr hle => simp [Nat.not_lt.mpr hle]

/-- A receive puts its block back, and returns. -/
theorem Sound.deliver (hs : Sound own i mq place h delivered free queued) {size x : Nat}
    {buffer : List Byte} (hc : place c = .emptying i b size x buffer)
    (hfull : ¬ buffer.length < min size mq.msgSize.toNat) :
    Sound own i (mq.putFree b) (Function.update place c .outside) h (⟨x, size, buffer⟩ :: delivered)
      (b :: free) queued := by
  have hholds : (place c).holds i = some b := by simp [hc, MqPlace.holds]
  have hreceives : (place c).receives i = some x := by simp [hc, MqPlace.receives]
  have hframe : MessageQueue.Frame [b] mq (mq.putFree b) := MessageQueue.putFree_frame
  have hgood := hs.good c
  rw [hc] at hgood
  obtain ⟨⟨l, hl, hcarries⟩, hle, hbytes⟩ := hgood rfl
  have hlength := Nat.le_antisymm hle (Nat.le_of_not_lt hfull)
  refine ⟨hs.lists.putFree (hs.taken hholds), hframe.blocks.trans hs.pool, ?_, hs.entry, hs.orderly, hs.carries, ?_, ?_,
    fun d hd => ?_⟩
  · rw [holds_update]
    exact hs.blocks.put hholds
  · refine hs.others rfl (fun d _ hne => ⟨hframe.next d ?_, rfl⟩) (fun _ _ hl => hl) trivial
    rw [List.mem_singleton]
    rintro rfl
    exact hne hholds
  · rw [receives_update]
    exact hs.messages.put hreceives
  · rcases List.mem_cons.mp hd with rfl | hd
    · exact ⟨l, hl, delivery_of hcarries hlength hbytes⟩
    · exact hs.deliveries d hd

omit [DecidableEq C] in
/-- All messages are discarded. -/
theorem Sound.reset (hs : Sound own i mq place h delivered free queued) :
    ∃ mq' free', mq.releaseAll (mq.maxMsgs.toNat + 1) = .ok mq' ∧
      Sound own i { mq' with entry := 0 } place h.reset delivered free' [] := by
  have hlength := shelf_length_le hs.pool hs.blocks
  rw [List.length_append] at hlength
  have hfuel : queued.length < mq.maxMsgs.toNat + 1 := by omega
  obtain ⟨mq', hrelease, hlists, hframe⟩ := hs.lists.releaseAll hfuel
  refine ⟨mq', queued.reverse ++ free, hrelease, hlists.setEntry 0,
    (hframe.setEntry 0).blocks.trans hs.pool, ?_, rfl, hs.orderly.reset,
    .nil, fun d => ?_, hs.messages, ?_⟩
  · refine hs.blocks.perm (List.Perm.trans List.perm_append_comm ?_)
    rw [List.append_nil]
    exact (List.reverse_perm queued).symm.append_right free
  · refine (hs.good d).frame hframe.msgSize (fun b hb => ⟨hframe.next b fun hm => ?_,
      by rw [hframe.data]⟩) (fun _ _ hl => hl)
    exact hs.taken hb (List.mem_append_right _ hm)
  · rw [(hframe.setEntry 0).msgSize]
    exact hs.deliveries

end Queue

namespace MessageQueues

open Mailboxes (Woken)

variable {T H U I : Type} [DecidableEq T] [DecidableEq H] [DecidableEq I] [Fintype T]

/-- Which wait list each thread is in, while it is suspended. -/
def waiting (place : T ⊕ H → MqPlace I) (t : T) : Option I := (place (.inl t)).waits

/-- How many receivers of a queue could go on. -/
def available (mq : I → MessageQueue) (i : I) : Nat := (mq i).entry.toNat

/-- Every queue is sound. -/
def Queues (own : I → List Nat) (s : MessageQueues T H U I) : Prop :=
  ∀ i, ∃ free queued, Sound (own i) i (s.mq i) s.place (s.history i) (s.delivered i) free queued

structure Inv (own : I → List Nat) (s : MessageQueues T H U I) (v : View T I) : Prop where
  shows_ : State.Shows 0 s.kernel v
  kept : View.Kept (waiting s.place) v
  woken : Woken (available s.mq) (waiting s.place) v
  queues : s.Queues own

variable {cb : State.Callback T U I} {s s' : MessageQueues T H U I} {v v' : View T I} {t : T}
  {c : T ⊕ H} {i j : I} {a : MqPlace I} {mq mq' : MessageQueue} {k k' : State T U I}
  {urgent : Bool} {message : List Byte} {size : Nat} {timeout tickDelta : Tick}
  {own : I → List Nat}

section

omit [DecidableEq T] [DecidableEq H] [Fintype T]

@[simp] theorem setMq_mq : (s.setMq i mq).mq = Function.update s.mq i mq := rfl
@[simp] theorem setMq_place : (s.setMq i mq).place = s.place := rfl
@[simp] theorem setMq_kernel : (s.setMq i mq).kernel = s.kernel := rfl
@[simp] theorem setMq_history : (s.setMq i mq).history = s.history := rfl
@[simp] theorem setMq_delivered : (s.setMq i mq).delivered = s.delivered := rfl

end

section

omit [DecidableEq I] [Fintype T]

@[simp] theorem goes_mq : (s.goes c a).mq = s.mq := rfl
@[simp] theorem goes_place : (s.goes c a).place = Function.update s.place c a := rfl
@[simp] theorem goes_kernel : (s.goes c a).kernel = s.kernel := rfl
@[simp] theorem goes_history : (s.goes c a).history = s.history := rfl
@[simp] theorem goes_delivered : (s.goes c a).delivered = s.delivered := rfl

theorem waiting_thread (place : T ⊕ H → MqPlace I) (t : T) (a : MqPlace I) :
    waiting (Function.update place (.inl t) a) = Function.update (waiting place) t a.waits := by
  funext u
  by_cases hu : u = t
  · subst hu
    simp [waiting]
  · simp [waiting, hu]

/-- A caller that waits in no list goes on to a place where it waits in none. -/
theorem waiting_same {place : T ⊕ H → MqPlace I} (hc : (place c).waits = none)
    (ha : a.waits = none) : waiting (Function.update place c a) = waiting place := by
  cases c with
  | inl t =>
    rw [waiting_thread, ha, Function.update_eq_self_iff]
    exact hc.symm
  | inr h => funext u; simp [waiting]

end

omit [Fintype T] in
/-- A step of one call on queue `i` leaves the other queues alone. -/
theorem Queues.change (hq : s.Queues own) (hc : (s.place c).queue = none ∨ (s.place c).queue = some i)
    (ha : a.queue = none ∨ a.queue = some i) (hplace : s'.place = Function.update s.place c a)
    (hmq : ∀ j, j ≠ i → s'.mq j = s.mq j)
    (hhistory : ∀ j, j ≠ i → s'.history j = s.history j)
    (hdelivered : ∀ j, j ≠ i → s'.delivered j = s.delivered j)
    (hi : ∃ free queued, Sound (own i) i (s'.mq i) (Function.update s.place c a) (s'.history i)
      (s'.delivered i) free queued) : s'.Queues own := by
  intro j
  rw [hplace]
  by_cases hj : j = i
  · subst hj
    exact hi
  · obtain ⟨free, queued, hs⟩ := hq j
    rw [hmq j hj, hhistory j hj, hdelivered j hj]
    refine ⟨free, queued, hs.elsewhere ?_ ?_⟩
    · rcases hc with hc | hc <;> simp [hc, Ne.symm hj]
    · rcases ha with ha | ha <;> simp [ha, Ne.symm hj]

/-! ## The steps -/

/-- A step that neither waits nor changes a counter. -/
theorem Inv.quiet (hi : Inv own s v) (hc : (s.place c).waits = none) (ha : a.waits = none)
    (hkernel : s'.kernel = s.kernel) (hplace : s'.place = Function.update s.place c a)
    (havail : available s'.mq = available s.mq) (hq : s'.Queues own) : Inv own s' v := by
  have hsame := waiting_same hc ha
  rw [← hplace] at hsame
  refine ⟨hkernel ▸ hi.shows_, ?_, ?_, hq⟩
  · rw [hsame]
    exact hi.kept
  · rw [hsame, havail]
    exact hi.woken

omit [DecidableEq T] [DecidableEq H] [Fintype T] in
theorem available_same (hentry : mq'.entry = (s.mq i).entry) :
    available (Function.update s.mq i mq') = available s.mq := by
  funext j
  by_cases hj : j = i
  · subst hj
    simp [available, hentry]
  · simp [available, hj]

theorem Inv.send (hi : Inv own s v) (hc : s.place c = .outside)
    (h : s.send c i urgent message = .ok s') : Inv own s' v := by
  simp only [MessageQueues.send, rtMqSendTake, exec_bind_ok, rtAssert_eq_ok] at h
  obtain ⟨out, ⟨_, -, htake⟩, h⟩ := h
  split at htake
  · simp only [exec_pure_ok] at htake
    subst htake
    simp only [exec_pure_ok] at h
    exact h ▸ hi
  case isFalse hsize =>
    obtain ⟨free, queued, hs⟩ := hi.queues i
    cases free with
    | nil =>
      have hfree := hs.lists.freeHead
      simp only [MessageQueue.takeFree, hfree, List.head?_nil, exec_pure_ok] at htake
      subst htake
      simp only [exec_pure_ok] at h
      exact h ▸ hi
    | cons b free =>
      -- the call goes on with a block of its own
      have hstep : ∀ a : MqPlace I, a.holds i = some b → a.receives i = none → a.waits = none →
          (a.queue = none ∨ a.queue = some i) →
          (∀ mq' : MessageQueue, mq'.msgSize = (s.mq i).msgSize → a.Good i mq' (s.history i)) →
          ∃ mq', (s.mq i).takeFree = some (b, mq') ∧ Inv own ((s.setMq i mq').goes c a) v := by
        intro a hholds hreceives hwaits hqueue hgood
        obtain ⟨mq', htaken, hs', hentry⟩ := hs.take hc hholds hreceives hgood
        refine ⟨mq', htaken, hi.quiet (by simp [hc, MqPlace.waits]) hwaits rfl rfl
          (available_same hentry) ?_⟩
        refine hi.queues.change (.inl (by rw [hc]; rfl)) hqueue rfl (fun j hj => by simp [hj])
          (fun _ _ => rfl) (fun _ _ => rfl) ⟨free, queued, ?_⟩
        simpa using hs'
      rw [not_lt] at hsize
      cases urgent with
      | false =>
        obtain ⟨mq', htaken, hi'⟩ := hstep (.clearing i b message) (by simp [MqPlace.holds]) rfl rfl
          (.inr rfl) fun mq' hsame _ => by rwa [hsame]
        simp only [htaken, exec_pure_ok] at htake
        subst htake
        simp only [exec_pure_ok, Bool.false_eq_true, if_false] at h
        exact h ▸ hi'
      | true =>
        obtain ⟨mq', htaken, hi'⟩ := hstep (.filling i true b message 0) (by simp [MqPlace.holds])
          rfl rfl (.inr rfl) fun mq' hsame _ => by simpa [hsame] using hsize
        simp only [htaken, exec_pure_ok] at htake
        subst htake
        simp only [exec_pure_ok, if_true] at h
        exact h ▸ hi'

variable [DecidableEq U] [Fintype U]

/-- A message more, and a receiver is told. -/
theorem rtMqSendLink_shows (hs : State.Shows 0 k v) {b : Nat} {o : State T U I × MessageQueue}
    (h : rtMqSendLink i urgent b mq k = .ok o) :
    o.2 = (if urgent then mq.linkHead b else mq.linkTail b) ∧
      ((v.waits i = [] ∧ State.Shows 0 o.1 v) ∨
        ∃ u rest, v.waits i = u :: rest ∧ State.Shows 0 o.1 (v.wake u)) := by
  simp only [rtMqSendLink, hs.isempty] at h
  split at h
  · simp only [exec_bind_ok, exec_pure_ok] at h
    obtain ⟨k', hresume, rfl⟩ := h
    exact ⟨rfl, .inr (hs.rtIpcListResume hresume)⟩
  case isFalse hempty =>
    simp only [exec_pure_ok] at h
    subst h
    refine ⟨rfl, .inl ⟨?_, hs⟩⟩
    simpa using hempty

theorem Inv.link (hi : Inv own s v) {b copied : Nat}
    (hc : s.place c = .filling i urgent b message copied) (hend : message.length ≤ copied)
    (h : s.link c i urgent b message = .ok s') : ∃ v', Inv own s' v' := by
  simp only [MessageQueues.link, exec_bind_ok, exec_pure_ok] at h
  obtain ⟨⟨k', mq'⟩, hlink, rfl⟩ := h
  obtain ⟨rfl, hwake⟩ := rtMqSendLink_shows hi.shows_ hlink
  obtain ⟨free, queued, hs⟩ := hi.queues i
  obtain ⟨queued', hs'⟩ := hs.link hc hend
  have hentry : (if urgent then (s.mq i).linkHead b else (s.mq i).linkTail b).entry =
      (s.mq i).entry + 1 := by
    cases urgent <;> simp
  have hcount := hs'.entry
  -- there is one message more, for at most one more receiver
  have hone : available (Function.update s.mq i
      (if urgent then (s.mq i).linkHead b else (s.mq i).linkTail b)) i ≤
      available s.mq i + 1 := by
    simp only [available, Function.update_self, hentry]
    bv_omega
  have hle : ∀ l, l ≠ i → available (Function.update s.mq i
      (if urgent then (s.mq i).linkHead b else (s.mq i).linkTail b)) l ≤ available s.mq l := by
    intro l hl
    simp [available, hl]
  have hwaiting : waiting (Function.update s.place c .outside) = waiting s.place :=
    waiting_same (by simp [hc, MqPlace.waits]) rfl
  have hqueues : Queues own { ((s.setMq i (if urgent then (s.mq i).linkHead b else
      (s.mq i).linkTail b)).setHistory i ((s.history i).link urgent message)).goes c .outside with
        kernel := k' } := by
    refine hi.queues.change (i := i) (c := c) (a := .outside) (.inr (by rw [hc]; rfl)) (.inl rfl)
      rfl (fun j hj => by simp [setHistory, goes, setMq, hj])
      (fun j hj => by simp [setHistory, goes, setMq, hj]) (fun _ _ => rfl) ⟨free, queued', ?_⟩
    simpa [setHistory, goes, setMq] using hs'
  -- nobody waits, or the first waiter is resumed for it
  obtain ⟨hnil, hshows⟩ | ⟨u, rest, hlist, hshows⟩ := hwake
  · refine ⟨v, hshows, ?_, ?_, hqueues⟩
    · simp only [goes_place, setHistory, setMq_place, hwaiting]
      exact hi.kept
    · simp only [goes_place, setHistory, setMq_place, hwaiting]
      exact hi.woken.notify_none hnil hle
  · obtain ⟨hplace, hstat⟩ := (hi.kept.member i u).mp (by simp [hlist])
    have herror := hi.kept.error u (by simp [hplace]) hstat
    refine ⟨_, hshows, ?_, ?_, hqueues⟩
    · simp only [goes_place, setHistory, setMq_place, hwaiting]
      exact hi.kept.wake
    · simp only [goes_place, setHistory, setMq_place, hwaiting]
      exact hi.woken.notify hlist hplace hstat herror hle hone

/-- The caller is at the test of the loop of `rt_mq_recv`: one message there may be for it. -/
structure Looping (own : I → List Nat) (c : T ⊕ H) (i : I) (s : MessageQueues T H U I)
    (v : View T I) : Prop where
  shows_ : State.Shows 0 s.kernel v
  kept : View.Kept (waiting s.place) v
  woken : Woken (Function.update (available s.mq) i (available s.mq i - 1)) (waiting s.place) v
  queues : s.Queues own
  active : s.Active c
  place : s.place c = .outside

omit [DecidableEq T] [DecidableEq H] [DecidableEq U] [Fintype U] in
theorem Inv.enter (hi : Inv own s v) (hactive : s.Active c) (hc : s.place c = .outside) :
    Looping own c i s v := by
  refine ⟨hi.shows_, hi.kept, hi.woken.mono fun l => ?_, hi.queues, hactive, hc⟩
  by_cases hl : l = i
  · subst hl
    simp
  · simp [hl]

omit [DecidableEq U] [Fintype T] [Fintype U] in
/-- A thread that has been resumed is in no call of its own any more. -/
theorem Queues.outside (hq : s.Queues own) (hc : s.place c = .waiting i size timeout tickDelta) :
    (s.goes c .outside).Queues own := by
  intro j
  obtain ⟨free, queued, hs⟩ := hq j
  refine ⟨free, queued, hs.lists, hs.pool, ?_, hs.entry, hs.orderly, hs.carries, ?_, ?_, hs.deliveries⟩
  · rw [goes_place, holds_same (by rw [hc]; rfl)]
    exact hs.blocks
  · exact hs.others rfl (fun _ _ _ => ⟨rfl, rfl⟩) (fun _ _ hl => hl) trivial
  · rw [goes_place, receives_same (by rw [hc]; rfl)]
    exact hs.messages

section

omit [DecidableEq U] [Fintype U]

/-- A resumed thread comes back to its loop. -/
theorem Inv.comeBack (hi : Inv own s v) (hrunning : s.kernel.Running t)
    (hc : s.place (.inl t) = .waiting i size timeout tickDelta) :
    Looping own (.inl t) i (s.goes (.inl t) .outside) v := by
  have hstat := hrunning.2
  rw [hi.shows_.thread] at hstat
  have hne : (v.thread t).stat ≠ .suspend := by simp [hstat]
  have hplace : waiting s.place t = some i := by simp [waiting, hc, MqPlace.waits]
  refine ⟨hi.shows_, ?_, ?_, hi.queues.outside hc, fun u hu => ?_, by simp⟩
  · rw [goes_place, waiting_thread]
    exact hi.kept.leave hne
  · rw [goes_place, waiting_thread]
    exact hi.woken.leave hplace hne
  · cases hu
    exact hrunning

/-- A thread that timed out, or was sent away by a reset, returns. -/
theorem Inv.giveUp (hi : Inv own s v) (hrunning : s.kernel.Running t)
    (hc : s.place (.inl t) = .waiting i size timeout tickDelta)
    (herror : (s.kernel.thread t).error ≠ .eok) : Inv own (s.goes (.inl t) .outside) v := by
  have hstat := hrunning.2
  rw [hi.shows_.thread] at hstat herror
  have hne : (v.thread t).stat ≠ .suspend := by simp [hstat]
  have hplace : waiting s.place t = some i := by simp [waiting, hc, MqPlace.waits]
  refine ⟨hi.shows_, ?_, ?_, hi.queues.outside hc⟩
  · rw [goes_place, waiting_thread]
    exact hi.kept.leave hne
  · rw [goes_place, waiting_thread]
    exact hi.woken.leave_error hplace hne herror

end

section

omit [DecidableEq T] [DecidableEq H] [DecidableEq U] [Fintype U]

theorem Looping.nowhere (hl : Looping own (.inl t) i s v) : waiting s.place t = none := by
  simp [waiting, hl.place, MqPlace.waits]

/-- Where there is nothing, no message is for the caller. -/
theorem Looping.nothing (hl : Looping own c i s v) (hnone : available s.mq i = 0) :
    Woken (available s.mq) (waiting s.place) v := by
  have hwoken := hl.woken
  rwa [Nat.sub_eq_zero_of_le (by omega : available s.mq i ≤ 1), ← hnone,
    Function.update_eq_self] at hwoken

end

omit [DecidableEq H] [DecidableEq U] [Fintype U] in
/-- A caller that has seen an empty queue returns, with an error in its thread. -/
theorem Looping.refuse (hl : Looping own (.inl t) i s v) (hnone : available s.mq i = 0) (err : Err) :
    ∃ v', Inv own { s with kernel := s.kernel.setError t err } v' := by
  have hkept := hl.kept.modify (t := t) (f := fun th => { th with error := err }) rfl
    (fun hne => absurd hl.nowhere hne)
  exact ⟨_, hl.shows_.setError err, hkept, (hl.nothing hnone).modify hl.nowhere, hl.queues⟩

/-- A thread waits where there is nothing. -/
theorem Looping.block (hl : Looping own (.inl t) i s v) (hnone : available s.mq i = 0)
    {flag : IpcFlag} (h : (s.kernel.setError t .eok).waitOn i t flag timeout = .ok k') :
    ∃ v', Inv own { s.goes (.inl t) (.waiting i size timeout tickDelta) with kernel := k' } v' := by
  have hstat := (hl.active t rfl).2
  rw [hl.shows_.thread] at hstat
  obtain ⟨xs, ys, hsplit, -, hs'⟩ :=
    (hl.shows_.setError (t := t) .eok).waitOn (by simpa using hstat) h
  have hkept := hl.kept.modify (t := t) (f := fun th => { th with error := .eok }) rfl
    (fun _ _ => rfl)
  refine ⟨_, hs', ?_, ?_, ?_⟩
  · rw [goes_place, waiting_thread]
    exact hkept.enqueue hl.nowhere hsplit (by simp)
  · rw [goes_place, waiting_thread]
    exact ((hl.nothing hnone).modify hl.nowhere).block hl.nowhere hnone
  · intro j
    obtain ⟨free, queued, hs⟩ := hl.queues j
    refine ⟨free, queued, hs.lists, hs.pool, ?_, hs.entry, hs.orderly, hs.carries, ?_, ?_, hs.deliveries⟩
    · rw [goes_place, holds_same (by rw [hl.place]; rfl)]
      exact hs.blocks
    · exact hs.others rfl (fun _ _ _ => ⟨rfl, rfl⟩) (fun _ _ hl => hl) trivial
    · rw [goes_place, receives_same (by rw [hl.place]; rfl)]
      exact hs.messages

omit [DecidableEq I] [DecidableEq U] [Fintype T] [Fintype U] in
theorem goes_outside (hc : s.place c = .outside) : s.goes c .outside = s := by
  rw [goes, ← hc, Function.update_eq_self]

theorem Looping.recvLoop (hl : Looping own c i s v) (size : Nat)
    {o : State T U I × MessageQueue × RecvOut}
    (h : rtMqRecvLoop c.getLeft? i timeout (s.mq i) s.kernel = .ok o) :
    ∃ v', Inv own (s.afterRecv c i size timeout o) v' := by
  unfold rtMqRecvLoop at h
  split at h
  -- no message is there: the call gives up or waits
  case isTrue hempty =>
    have hnone : available s.mq i = 0 := by simp [available, hempty]
    cases c with
    | inr handler => simp at h
    | inl t =>
      simp only [Sum.getLeft?_inl] at h
      split at h
      · simp only [exec_pure_ok] at h
        subst h
        obtain ⟨v', hi'⟩ := hl.refuse hnone .etimeout
        refine ⟨v', ?_⟩
        have hsame : (s.kernel.setError t .eok).setError t .etimeout =
            s.kernel.setError t .etimeout := by
          simp [State.setError, State.modifyThread]
        simp only [afterRecv, setMq, goes, Function.update_eq_self, hsame]
        rwa [← hl.place, Function.update_eq_self]
      · simp only [exec_bind_ok, exec_pure_ok] at h
        obtain ⟨k', hwait, rfl⟩ := h
        simp only [afterRecv, setMq, Function.update_eq_self]
        exact hl.block hnone hwait
  -- the oldest message is taken off the queue in one critical section, and copied after it
  case isFalse hsome =>
    obtain ⟨free, queued, hs⟩ := hl.queues i
    obtain ⟨b, mq', queued', hunlink, hentry, hs'⟩ := hs.receive hsome
      (by rw [hl.place]; rfl) (by rw [hl.place]; rfl) size
    simp only [hunlink, exec_bind_ok, exec_pure_ok, Except.ok.injEq, exists_eq_left'] at h
    subst h
    have hwaiting : waiting (Function.update s.place c
        (.emptying i b size ((s.history i).queue.headD 0) [])) = waiting s.place :=
      waiting_same (by rw [hl.place]; rfl) rfl
    refine ⟨v, hl.shows_, ?_, ?_, ?_⟩
    · simp only [afterRecv, goes_place, setHistory, setMq_place, setMq_history, hwaiting]
      exact hl.kept
    · simp only [afterRecv, goes_place, goes_mq, setHistory, setMq_place, setMq_mq, setMq_history,
        hwaiting]
      refine hl.woken.mono fun l => ?_
      by_cases hli : l = i
      · subst hli
        simp only [available, Function.update_self, hentry]
        bv_omega
      · simp [available, hli]
    · refine hl.queues.change (.inl (by rw [hl.place]; rfl)) (.inr rfl) rfl
        (fun j hj => by simp [afterRecv, setHistory, goes, setMq, hj])
        (fun j hj => by simp [afterRecv, setHistory, goes, setMq, hj]) (fun _ _ => rfl)
        ⟨free, queued', ?_⟩
      simpa [afterRecv, setHistory, goes, setMq] using hs'

theorem Inv.recv (hi : Inv own s v) (hactive : s.Active c) (hc : s.place c = .outside)
    (h : s.recv c i size timeout = .ok s') : ∃ v', Inv own s' v' := by
  simp only [MessageQueues.recv, rtMqRecv, exec_bind_ok, exec_pure_ok, rtAssert_eq_ok] at h
  obtain ⟨o, ⟨_, -, hrecv⟩, rfl⟩ := h
  split at hrecv
  · simp only [exec_pure_ok] at hrecv
    subst hrecv
    refine ⟨v, ?_⟩
    simp only [afterRecv, setMq, Function.update_eq_self]
    rwa [goes_outside hc]
  · exact (hi.enter hactive hc).recvLoop size hrecv

theorem Inv.recvResumed (hi : Inv own s v) (hrunning : s.kernel.Running t)
    (hc : s.place (.inl t) = .waiting i size timeout tickDelta)
    {o : State T U I × MessageQueue × RecvOut}
    (h : rtMqRecvResumed t i timeout tickDelta (s.mq i) s.kernel = .ok o) :
    ∃ v', Inv own (s.afterRecv (.inl t) i size (s.kernel.timeLeft timeout tickDelta) o) v' := by
  unfold rtMqRecvResumed at h
  split at h
  case isTrue herror =>
    simp only [exec_pure_ok] at h
    subst h
    refine ⟨v, ?_⟩
    simp only [afterRecv, setMq, Function.update_eq_self]
    exact hi.giveUp hrunning hc herror
  case isFalse =>
    obtain ⟨v', hi'⟩ := (hi.comeBack hrunning hc).recvLoop size h
    refine ⟨v', ?_⟩
    -- it does not matter that the place was given up before
    obtain ⟨k', mq', out⟩ := o
    cases out <;> simpa [afterRecv, goes, setMq, setHistory] using hi'

/-- Where there is nothing, threads may be resumed with an error. -/
theorem woken_aborts {avail : I → Nat} {place : T → Option I} (h : Woken avail place v)
    (hkept : View.Kept place v) (hnone : avail i = 0)
    (hsteps : Relation.ReflTransGen (View.Aborts i) v v') : Woken avail place v' := by
  induction hsteps with
  | refl => exact h
  | @tail w _ hbefore hstep ih =>
    cases hstep with
    | abort u hm =>
      intro j hj
      by_cases hji : j = i
      · rw [hji, hnone]
        exact Nat.zero_le _
      · have hplace := (((hkept.aborts hbefore).member i u).mp hm).1
        have hsame : ((w.wake u).modifyThread u fun th => { th with error := .error }).resumed
            place j = w.resumed place j := by
          apply View.resumed_congr
          intro x
          by_cases hx : x = u
          · subst hx
            simp [hplace, Ne.symm hji]
          · simp [hx]
        rw [hsame]
        apply ih j
        intro hnil
        simp [hnil] at hj

section

omit [DecidableEq H]

/-- A reset leaves no thread in the wait list, and no message in the queue. -/
theorem Inv.reset (hi : Inv own s v) (i : I) :
    ∃ s' v', s.control i .reset = .ok s' ∧ Inv own s' v' := by
  have hlength : (v.waits i).length < Fintype.card T + 1 :=
    Nat.lt_succ_of_le (hi.shows_.nodup i).length_le_card
  obtain ⟨k', v', hresume, hshows, hnil, hsteps⟩ := hi.shows_.rtIpcListResumeAll hlength
  obtain ⟨free, queued, hs⟩ := hi.queues i
  obtain ⟨mq', free', hrelease, hs'⟩ := hs.reset
  refine ⟨{ (s.setMq i { mq' with entry := 0 }).setHistory i (s.history i).reset with
    kernel := k' }, v', ?_, hshows, hi.kept.aborts hsteps, ?_, fun j => ?_⟩
  · simp [control, rtMqControl, hresume, hrelease, bind, Except.bind, pure, Except.pure]
  · have hle : ∀ l, available (Function.update s.mq i { mq' with entry := 0 }) l ≤
        available s.mq l := by
      intro l
      by_cases hl : l = i
      · subst hl
        simp [available]
      · simp [available, hl]
    exact woken_aborts (hi.woken.mono hle) hi.kept (by simp [available, setHistory]) hsteps
  · by_cases hj : j = i
    · subst hj
      exact ⟨free', [], by simpa [setHistory, setMq] using hs'⟩
    · simpa [setHistory, setMq, hj] using hi.queues j

theorem Inv.control (hi : Inv own s v) {cmd : IpcCmd} (h : s.control i cmd = .ok s') :
    ∃ v', Inv own s' v' := by
  cases cmd with
  | reset =>
    obtain ⟨s'', v', hreset, hi'⟩ := hi.reset i
    rw [hreset] at h
    cases h
    exact ⟨v', hi'⟩
  | unknown =>
    simp only [MessageQueues.control, rtMqControl, exec_bind_ok, exec_pure_ok] at h
    obtain ⟨o, rfl, rfl⟩ := h
    refine ⟨v, ?_⟩
    simpa [setMq, setHistory] using hi

end

section

omit [DecidableEq U] [Fintype U]

/-- A step that writes to the block of the caller. -/
theorem Inv.write (hi : Inv own s v) (hwaits : (s.place c).waits = none)
    (hqueue : (s.place c).queue = some i) (ha : a.waits = none) (hqueue' : a.queue = some i)
    (hentry : mq'.entry = (s.mq i).entry)
    (hs : ∀ free queued, Sound (own i) i (s.mq i) s.place (s.history i) (s.delivered i) free queued →
      Sound (own i) i mq' (Function.update s.place c a) (s.history i) (s.delivered i) free queued) :
    Inv own ((s.setMq i mq').goes c a) v := by
  refine hi.quiet hwaits ha rfl rfl (available_same hentry) ?_
  refine hi.queues.change (.inr hqueue) (.inr hqueue') rfl (fun j hj => by simp [hj])
    (fun _ _ => rfl) (fun _ _ => rfl) ?_
  obtain ⟨free, queued, hsound⟩ := hi.queues i
  exact ⟨free, queued, by simpa using hs free queued hsound⟩

theorem Inv.clear (hi : Inv own s v) {b : Nat} (hc : s.place c = .clearing i b message) :
    Inv own ((s.setMq i ((s.mq i).setNext b none)).goes c (.filling i false b message 0)) v := by
  refine hi.write (by rw [hc]; rfl) (by rw [hc]; rfl) rfl rfl rfl fun free queued hs => ?_
  have hgood := hs.good c
  rw [hc] at hgood
  refine hs.setNext (by simp [hc, MqPlace.holds]) none (by simp [MqPlace.holds])
    (by rw [hc]; rfl) fun _ => ⟨hgood rfl, fun _ => ?_, by simp⟩
  simp [MessageQueue.setNext]

theorem Inv.fill (hi : Inv own s v) {b copied : Nat} {byte : Byte}
    (hc : s.place c = .filling i urgent b message copied) (hbyte : message[copied]? = some byte) :
    Inv own ((s.setMq i ((s.mq i).store b copied byte)).goes c
      (.filling i urgent b message (copied + 1))) v := by
  refine hi.write (by rw [hc]; rfl) (by rw [hc]; rfl) rfl rfl rfl fun free queued hs => ?_
  have hgood := hs.good c
  rw [hc] at hgood
  obtain ⟨hsize, hnext, hbytes⟩ := hgood rfl
  refine hs.store (by simp [hc, MqPlace.holds]) copied byte (by simp [MqPlace.holds])
    (by rw [hc]; rfl) fun _ => ⟨hsize, hnext, fun n hn byte' hbyte' => ?_⟩
  by_cases hlast : n = copied
  · subst hlast
    rw [hbyte, Option.some.injEq] at hbyte'
    simp [MessageQueue.store, hbyte']
  · simpa [MessageQueue.store, hlast] using hbytes n (by omega) byte' hbyte'

theorem Inv.get (hi : Inv own s v) {b x : Nat} {buffer : List Byte}
    (hc : s.place c = .emptying i b size x buffer)
    (hlt : buffer.length < min size (s.mq i).msgSize.toNat) :
    Inv own (s.goes c (.emptying i b size x (buffer ++ [(s.mq i).data b buffer.length]))) v := by
  have hsame : s = s.setMq i (s.mq i) := by simp [setMq]
  rw [hsame]
  simp only [setMq_mq, Function.update_eq_self]
  exact hi.write (by rw [hc]; rfl) (by rw [hc]; rfl) rfl rfl rfl fun _ _ hs => hs.get hc hlt

theorem Inv.deliver (hi : Inv own s v) {b x : Nat} {buffer : List Byte}
    (hc : s.place c = .emptying i b size x buffer)
    (hfull : ¬ buffer.length < min size (s.mq i).msgSize.toNat) :
    Inv own (s.deliver c i b ⟨x, size, buffer⟩) v := by
  refine hi.quiet (a := .outside) (by rw [hc]; rfl) rfl rfl rfl (available_same rfl) ?_
  refine hi.queues.change (.inr (by rw [hc]; rfl)) (.inl rfl) rfl
    (fun j hj => by simp [MessageQueues.deliver, goes, setMq, hj]) (fun _ _ => rfl)
    (fun j hj => by simp [MessageQueues.deliver, hj]) ?_
  obtain ⟨free, queued, hs⟩ := hi.queues i
  refine ⟨b :: free, queued, ?_⟩
  simpa [MessageQueues.deliver, goes, setMq] using hs.deliver hc hfull

end

theorem Inv.advance (hi : Inv own s v) (hactive : s.Active c) (h : s.advance c = .ok s') :
    ∃ v', Inv own s' v' := by
  unfold MessageQueues.advance at h
  split at h
  · simp at h
  case h_2 i msg message hc =>
    simp only [exec_pure_ok] at h
    exact ⟨v, h ▸ hi.clear hc⟩
  case h_3 i urgent msg message copied hc =>
    split at h
    case h_1 byte hbyte =>
      simp only [exec_pure_ok] at h
      exact ⟨v, h ▸ hi.fill hc hbyte⟩
    case h_2 hend => exact hi.link hc (List.getElem?_eq_none_iff.mp hend) h
  case h_4 i size timeout tickDelta hc =>
    cases c with
    | inr handler => simp at h
    | inl t =>
      simp only [exec_bind_ok, exec_pure_ok] at h
      obtain ⟨o, hresumed, rfl⟩ := h
      exact hi.recvResumed (hactive t rfl) hc hresumed
  case h_5 i msg size stamp buffer hc =>
    split at h
    case isTrue hlt =>
      simp only [exec_pure_ok] at h
      exact ⟨v, h ▸ hi.get hc hlt⟩
    case isFalse hfull =>
      simp only [exec_pure_ok] at h
      exact ⟨v, h ▸ hi.deliver hc hfull⟩

omit [DecidableEq H] in
theorem Inv.elsewhere (hi : Inv own s v) {k : State T U I}
    (h : State.Elsewhere cb (fun t => s.place (.inl t) ≠ .outside) s.kernel k) :
    ∃ v', Inv own { s with kernel := k } v' := by
  have hbusy : ∀ t, waiting s.place t ≠ none → s.place (.inl t) ≠ .outside := by
    intro t ht hc
    simp [waiting, hc, MqPlace.waits] at ht
  obtain ⟨v', hsteps, hs'⟩ := hi.shows_.elsewhere (hi.kept.members_busy hbusy) h
  exact ⟨v', hs', hi.kept.envs hbusy hsteps, hi.woken.envs hbusy hsteps, hi.queues⟩

theorem Inv.step (hi : Inv own s v) (h : Step cb s s') : ∃ v', Inv own s' v' := by
  cases h with
  | send c i urgent message _ hc hsend => exact ⟨v, hi.send hc hsend⟩
  | recv c i size timeout hactive hc hrecv => exact hi.recv hactive hc hrecv
  | control c i cmd _ _ hcontrol => exact hi.control hcontrol
  | advance c hactive hadvance => exact hi.advance hactive hadvance
  | elsewhere helse => exact hi.elsewhere helse

omit [DecidableEq T] [DecidableEq H] [Fintype T] in
/-- A queue whose blocks have all been put on the free list. -/
theorem initMsgList_sound {mq₀ : MessageQueue} (hfree : mq₀.msgQueueFree = none)
    (hhead : mq₀.msgQueueHead = none) (htail : mq₀.msgQueueTail = none) (hentry : mq₀.entry = 0)
    {place : T ⊕ H → MqPlace I} (hplace : ∀ c, place c = .outside) (i : I) :
    Sound (initMsgList mq₀).blocks i (initMsgList mq₀) place .empty [] mq₀.blocks.reverse [] := by
  obtain ⟨hlists, hframe, hsame⟩ := MessageQueue.initMsgList_lists hfree hhead htail
  have hnone : ∀ c, (MqPlace.holds i ∘ place) c = none := by simp [hplace, MqPlace.holds]
  have hblocks := Shared.init _ hnone hlists.nodup
  refine ⟨hlists, rfl, ?_, by simp [hsame, hentry], History.orderly_empty, .nil, fun c => ?_, ?_,
    by simp⟩
  · rw [hframe.blocks]
    simpa using hblocks
  · rw [hplace]
    trivial
  · exact Shared.init _ (by simp [hplace, MqPlace.receives]) List.nodup_nil

omit [DecidableEq H] in
theorem Initial.inv (h : Initial cb s) : ∃ v, Inv (fun i => (s.mq i).blocks) s v := by
  obtain ⟨k₀, hboot, hruns⟩ := h.reached
  obtain ⟨v, hs⟩ := (State.runs_good hboot hruns).shows
  have hnil : ∀ i, v.waits i = [] := by
    intro i
    have := h.empty i
    rw [hs.isempty] at this
    simpa using this
  refine ⟨v, hs, ?_, fun i hi => absurd (hnil i) hi, fun i => ?_⟩
  · constructor <;> simp [hnil, h.place, waiting, MqPlace.waits]
  · obtain ⟨msgPool, msgSize, size, flag, next, data, hmq⟩ := h.mq i
    rw [h.history, h.delivered]
    cases hmq with
    | inl hinit =>
      rw [hinit]
      exact ⟨_, [], initMsgList_sound rfl rfl rfl rfl h.place i⟩
    | inr hcreate =>
      simp only [rtMqCreate, Option.map_some, Option.some.injEq] at hcreate
      rw [hcreate]
      exact ⟨_, [], initMsgList_sound rfl rfl rfl rfl h.place i⟩

theorem Runs.inv {s₀ : MessageQueues T H U I} (hi : Initial cb s₀) (hr : Runs cb s₀ s) :
    ∃ v, Inv (fun i => (s₀.mq i).blocks) s v := by
  induction hr with
  | refl => exact hi.inv
  | tail _ hstep ih =>
    obtain ⟨v, hv⟩ := ih
    exact hv.step hstep

/-! ## What every run keeps -/

/-- `t` is suspended, waiting for a message. -/
def Waits (s : MessageQueues T H U I) (i : I) (t : T) : Prop :=
  (s.place (.inl t)).waits = some i ∧ (s.kernel.thread t).stat = .suspend

/-- `t` has been resumed for a message and has not run yet. -/
def Resumed (s : MessageQueues T H U I) (i : I) (t : T) : Prop :=
  (s.place (.inl t)).waits = some i ∧ (s.kernel.thread t).stat ≠ .suspend ∧
    (s.kernel.thread t).error = .eok

instance (s : MessageQueues T H U I) (i : I) (t : T) : Decidable (s.Resumed i t) := by
  unfold Resumed
  infer_instance

/-- While a receiver waits, no message is there but for those that have been resumed. -/
def NoneLost (s : MessageQueues T H U I) (i : I) : Prop :=
  ∀ t, s.Waits i t → (s.mq i).entry.toNat ≤ (Finset.univ.filter (s.Resumed i)).card

omit [DecidableEq T] [DecidableEq H] [DecidableEq U] [Fintype U] in
theorem Inv.noneLost (hi : Inv own s v) (i : I) : s.NoneLost i := by
  intro t ht
  have hmem : t ∈ v.waits i := by
    rw [hi.kept.member, ← hi.shows_.thread]
    exact ht
  have hresumed : Finset.univ.filter (s.Resumed i) = v.resumed (waiting s.place) i := by
    apply Finset.filter_congr
    intro u _
    rw [Resumed, hi.shows_.thread]
    rfl
  rw [hresumed]
  exact hi.woken i (List.ne_nil_of_mem hmem)

/-- In every state a run reaches, the blocks of a queue are divided into the free ones, the queued
    ones and those that the calls have taken, at most one each; head and tail point to the first
    and the last queued block, and the counter is their number.  The messages that were linked are
    received in the order of the queue, each once, unless they are discarded or still there, and
    no receiver sleeps on while there is a message for it. -/
theorem message_queue_sound (cb : State.Callback T U I) {s₀ s : MessageQueues T H U I}
    (hi : Initial cb s₀) (hr : Runs cb s₀ s) (i : I) :
    (∃ free queued, Sound (s₀.mq i).blocks i (s.mq i) s.place (s.history i) (s.delivered i) free
      queued) ∧
    ((s.mq i).msgQueueTail = none ↔ (s.mq i).msgQueueHead = none) ∧ s.NoneLost i := by
  obtain ⟨v, hv⟩ := hr.inv hi
  obtain ⟨free, queued, hs⟩ := hv.queues i
  refine ⟨⟨free, queued, hs⟩, ?_, hv.noneLost i⟩
  rw [hs.lists.queueHead, hs.lists.queueTail, List.getLast?_eq_none_iff, List.head?_eq_none_iff]

/-- What a receive returns of a message is, as far as the message goes, the message, whatever went
    through the queue before, and always as long as asked for, up to the size of the blocks.  A
    receive that asks for no more bytes than were sent returns the same in both runs. -/
theorem received_bytes_agree (cb : State.Callback T U I)
    {s₀ s s₀' s' : MessageQueues T H U I} (hi : Initial cb s₀) (hr : Runs cb s₀ s)
    (hi' : Initial cb s₀') (hr' : Runs cb s₀' s') (i : I)
    (hsize : (s.mq i).msgSize = (s'.mq i).msgSize) {d d' : Delivery} (hd : d ∈ s.delivered i)
    (hd' : d' ∈ s'.delivered i) (hasked : d.size = d'.size) {l l' : Link (List Byte)}
    (hl : (s.history i).links[d.stamp]? = some l)
    (hl' : (s'.history i).links[d'.stamp]? = some l') (hitem : l.item = l'.item) :
    d.buffer.length = min d.size (s.mq i).msgSize.toNat ∧
      d'.buffer.length = min d.size (s.mq i).msgSize.toNat ∧
      d.buffer.take l.item.length = l.item.take (min d.size (s.mq i).msgSize.toNat) ∧
      d.buffer.take l.item.length = d'.buffer.take l.item.length ∧
      (min d.size (s.mq i).msgSize.toNat ≤ l.item.length → d.buffer = d'.buffer) := by
  obtain ⟨v, hv⟩ := hr.inv hi
  obtain ⟨v', hv'⟩ := hr'.inv hi'
  obtain ⟨_, _, hs⟩ := hv.queues i
  obtain ⟨_, _, hs'⟩ := hv'.queues i
  obtain ⟨m, hm, hof⟩ := hs.deliveries d hd
  obtain ⟨m', hm', hof'⟩ := hs'.deliveries d' hd'
  rw [hl, Option.some.injEq] at hm
  rw [hl', Option.some.injEq] at hm'
  subst hm hm'
  have hlength' : d'.buffer.length = min d.size (s.mq i).msgSize.toNat := by
    rw [hof'.length, hasked, hsize]
  have hbytes : d.buffer.take l.item.length = d'.buffer.take l.item.length := by
    rw [hof.bytes, hitem, hof'.bytes, hasked, hsize]
  refine ⟨hof.length, hlength', hof.bytes, hbytes, fun hle => ?_⟩
  rwa [List.take_of_length_le (hof.length.le.trans hle),
    List.take_of_length_le (hlength'.le.trans hle)] at hbytes

/-! ## Runs, event by event -/

inductive Event (T H I : Type) where
  | send (c : T ⊕ H) (i : I) (urgent : Bool) (message : List Byte)
  | recv (c : T ⊕ H) (i : I) (size : Nat) (timeout : Tick)
  | control (c : T ⊕ H) (i : I) (cmd : IpcCmd)
  /-- The caller makes so many steps. -/
  | advance (c : T ⊕ H) (steps : Nat)
  | schedule
  | tick

instance (s : MessageQueues T H U I) (c : T ⊕ H) : Decidable (s.Active c) := by
  unfold Active State.Running
  infer_instance

def advances (c : T ⊕ H) : Nat → MessageQueues T H U I → Exec (MessageQueues T H U I)
  | 0, s => pure s
  | steps + 1, s => do
    rtAssert (s.Active c)
    let s ← s.advance c
    advances c steps s

def play (s : MessageQueues T H U I) : Event T H I → Exec (MessageQueues T H U I)
  | .send c i urgent message => do
    rtAssert (s.Active c ∧ s.place c = .outside)
    s.send c i urgent message
  | .recv c i size timeout => do
    rtAssert (s.Active c ∧ s.place c = .outside)
    s.recv c i size timeout
  | .control c i cmd => do
    rtAssert (s.Active c ∧ s.place c = .outside)
    s.control i cmd
  | .advance c steps => advances c steps s
  | .schedule => do
    let k ← s.kernel.rtSchedule
    pure { s with kernel := k }
  | .tick => do
    let k ← s.kernel.rtTickIncrease (State.timeoutFunc fun _ _ => []) (Fintype.card (T ⊕ U) + 1)
    pure { s with kernel := k }

theorem advances_runs {steps : Nat} (h : advances c steps s = .ok s') : Runs cb s s' := by
  induction steps generalizing s with
  | zero =>
    simp only [advances, exec_pure_ok] at h
    exact h ▸ .refl
  | succ steps ih =>
    simp only [advances, exec_bind_ok, rtAssert_eq_ok] at h
    obtain ⟨_, hactive, s₁, hadvance, hrest⟩ := h
    exact .head (.advance c hactive hadvance) (ih hrest)

theorem play_runs {event : Event T H I} (h : s.play event = .ok s') :
    Runs (fun _ _ => []) s s' := by
  cases event with
  | send c i urgent message =>
    simp only [play, exec_bind_ok, rtAssert_eq_ok] at h
    obtain ⟨_, ⟨hactive, hc⟩, hsend⟩ := h
    exact .single (.send c i urgent message hactive hc hsend)
  | recv c i size timeout =>
    simp only [play, exec_bind_ok, rtAssert_eq_ok] at h
    obtain ⟨_, ⟨hactive, hc⟩, hrecv⟩ := h
    exact .single (.recv c i size timeout hactive hc hrecv)
  | control c i cmd =>
    simp only [play, exec_bind_ok, rtAssert_eq_ok] at h
    obtain ⟨_, ⟨hactive, hc⟩, hcontrol⟩ := h
    exact .single (.control c i cmd hactive hc hcontrol)
  | advance c steps => exact advances_runs h
  | schedule =>
    simp only [play, exec_bind_ok, exec_pure_ok] at h
    obtain ⟨k, hschedule, rfl⟩ := h
    exact .single (.elsewhere (.call .schedule (by simp [State.Foreign, KernelOp.target])
      (by simp [KernelOp.own]) hschedule))
  | tick =>
    simp only [play, exec_bind_ok, exec_pure_ok] at h
    obtain ⟨k, htick, rfl⟩ := h
    exact .single (.elsewhere (.tick _ (by simp) htick))

theorem plays_runs {events : List (Event T H I)} (h : events.foldlM play s = .ok s') :
    Runs (fun _ _ => []) s s' := by
  induction events generalizing s with
  | nil =>
    simp only [List.foldlM_nil, exec_pure_ok] at h
    exact h ▸ .refl
  | cons event events ih =>
    simp only [List.foldlM_cons, exec_bind_ok] at h
    obtain ⟨s₁, hplay, hrest⟩ := h
    exact (play_runs hplay).trans (ih hrest)

/-- The threads of priority 31 and 10 run, and a queue of `size` bytes for messages of 4 bytes is
    initialised. -/
def initWith (size : BitVec 32) (k : State Bool Empty Unit) : MessageQueues Bool Unit Empty Unit :=
  ⟨k, fun _ => rtMqInit 0x20000000 4 size .fifo (fun _ => none) (fun _ _ => 0),
    fun _ => .outside, fun _ => .empty, fun _ => []⟩

def playFrom (size : BitVec 32) (events : List (Event Bool Unit Unit)) :
    Exec (MessageQueues Bool Unit Empty Unit × MessageQueues Bool Unit Empty Unit) := do
  let k ← State.booted [(false, 31), (true, 10)]
  rtAssert (rtListIsempty (.inl (.suspend ())) k.tlist = true)
  let s ← events.foldlM play (initWith size k)
  pure (initWith size k, s)

theorem playFrom_runs {size : BitVec 32} {events : List (Event Bool Unit Unit)}
    {s₀ s : MessageQueues Bool Unit Empty Unit} (h : playFrom size events = .ok (s₀, s)) :
    Initial (fun _ _ => []) s₀ ∧ Runs (fun _ _ => []) s₀ s := by
  simp only [playFrom, exec_bind_ok, exec_pure_ok, Prod.mk.injEq, rtAssert_eq_ok] at h
  obtain ⟨k, hk, _, hempty, s, hplay, rfl, rfl⟩ := h
  exact ⟨⟨State.booted_reached hk, fun _ => hempty, fun _ => rfl,
    fun _ => ⟨_, _, _, _, _, _, .inl rfl⟩, fun _ => rfl, fun _ => rfl⟩, plays_runs hplay⟩

/-- A thread waits for a message.  While it copies the one it was resumed for, a handler queues
    another and then an urgent one, which the thread receives next; the last is discarded. -/
theorem message_queue_sound_interrupted :
    ∃ s₀ s : MessageQueues Bool Unit Empty Unit, Initial (fun _ _ => []) s₀ ∧
      Runs (fun _ _ => []) s₀ s ∧ (s.history ()).received = [0, 2] ∧
      (s.history ()).discarded = [1] ∧ (s.delivered ()).map Delivery.buffer = [[9, 0], [7, 8]] ∧
      (∃ free queued, Sound (s₀.mq ()).blocks () (s.mq ()) s.place (s.history ()) (s.delivered ())
        free queued) ∧
      ((s.mq ()).msgQueueTail = none ↔ (s.mq ()).msgQueueHead = none) ∧ s.NoneLost () := by
  let events : List (Event Bool Unit Unit) := [.recv (.inl true) () 2 0xffffffff, .schedule,
    .send (.inr ()) () false [7, 8], .advance (.inr ()) 4, .schedule, .advance (.inl true) 2,
    .send (.inr ()) () false [5], .advance (.inr ()) 3, .send (.inr ()) () true [9],
    .advance (.inr ()) 2, .tick, .advance (.inl true) 2, .recv (.inl true) () 2 0,
    .control (.inr ()) () .reset, .advance (.inl true) 3]
  obtain ⟨⟨s₀, s⟩, hplay, hdata⟩ := exec_exists_ok (show
    (playFrom 24 events).map (fun x => decide ((x.2.history ()).received = [0, 2] ∧
      (x.2.history ()).discarded = [1] ∧
      (x.2.delivered ()).map Delivery.buffer = [[9, 0], [7, 8]])) = .ok true by decide +kernel)
  obtain ⟨hinitial, hruns⟩ := playFrom_runs hplay
  obtain ⟨hreceived, hdiscarded, hbuffers⟩ := of_decide_eq_true hdata
  exact ⟨s₀, s, hinitial, hruns, hreceived, hdiscarded, hbuffers,
    message_queue_sound _ hinitial hruns ()⟩

/-- A handler sends a message and receives it, in a queue of one block, and then sends a byte, for
    which a receive of four bytes follows. -/
def afterMessage (message : List Byte) : List (Event Bool Unit Unit) :=
  [.send (.inr ()) () false message, .advance (.inr ()) (message.length + 2),
    .recv (.inr ()) () 4 0, .advance (.inr ()) 5, .send (.inr ()) () false [9],
    .advance (.inr ()) 3, .recv (.inr ()) () 4 0, .advance (.inr ()) 5]

/-- The last delivery, the message it is of, and the size of messages. -/
def lastDelivery (s : MessageQueues Bool Unit Empty Unit) :
    Option (Delivery × List Byte × BitVec 16) := do
  let d ← (s.delivered ()).head?
  let l ← (s.history ()).links[d.stamp]?
  pure (d, l.item, (s.mq ()).msgSize)

theorem afterMessage_delivery (message : List Byte)
    (h : message = [1, 2, 3, 4] ∨ message = [5, 6, 7, 8]) :
    (playFrom 8 (afterMessage message)).map (fun x => lastDelivery x.2) =
      .ok (some (⟨1, 4, 9 :: message.drop 1⟩, [9], 4)) := by
  obtain rfl | rfl := h <;> decide +kernel

/-- The delivery of the second message after `message`, and its runs. -/
theorem afterMessage_runs {message : List Byte}
    (h : message = [1, 2, 3, 4] ∨ message = [5, 6, 7, 8]) :
    ∃ s₀ s : MessageQueues Bool Unit Empty Unit, Initial (fun _ _ => []) s₀ ∧
      Runs (fun _ _ => []) s₀ s ∧ ⟨1, 4, 9 :: message.drop 1⟩ ∈ s.delivered () ∧
      (∃ l, (s.history ()).links[1]? = some l ∧ l.item = [9]) ∧ (s.mq ()).msgSize = 4 := by
  obtain ⟨⟨s₀, s⟩, hplay, hdata⟩ := exec_exists_ok (afterMessage_delivery message h)
  obtain ⟨hinitial, hruns⟩ := playFrom_runs hplay
  simp only [lastDelivery, bind, Option.bind_eq_some_iff, pure, Option.some.injEq,
    Prod.mk.injEq] at hdata
  obtain ⟨d, hd, l, hl, rfl, hitem, hsize⟩ := hdata
  exact ⟨s₀, s, hinitial, hruns, List.mem_of_mem_head? hd, ⟨l, hl, hitem⟩, hsize⟩

/-- The same byte is sent in two runs, and received with a length of four bytes: the receivers see
    what is left of the messages before it. -/
theorem stale_bytes_received :
    ∃ s₀ s s₀' s' : MessageQueues Bool Unit Empty Unit,
      Initial (fun _ _ => []) s₀ ∧ Runs (fun _ _ => []) s₀ s ∧
      Initial (fun _ _ => []) s₀' ∧ Runs (fun _ _ => []) s₀' s' ∧
      ∃ d ∈ s.delivered (), ∃ d' ∈ s'.delivered (), d.size = d'.size ∧
        (∃ l l', (s.history ()).links[d.stamp]? = some l ∧
          (s'.history ()).links[d'.stamp]? = some l' ∧ l.item = l'.item) ∧
        d.buffer ≠ d'.buffer := by
  obtain ⟨s₀, s, hi, hr, hd, ⟨l, hl, hitem⟩, hsize⟩ := afterMessage_runs (.inl rfl)
  obtain ⟨s₀', s', hi', hr', hd', ⟨l', hl', hitem'⟩, hsize'⟩ := afterMessage_runs (.inr rfl)
  exact ⟨s₀, s, s₀', s', hi, hr, hi', hr', _, hd, _, hd', rfl,
    ⟨l, l', hl, hl', hitem.trans hitem'.symm⟩, by decide⟩

/-- Both receivers get four bytes, and the first is the one that was sent. -/
theorem received_bytes_agree_first :
    ∃ s₀ s s₀' s' : MessageQueues Bool Unit Empty Unit,
      Initial (fun _ _ => []) s₀ ∧ Runs (fun _ _ => []) s₀ s ∧
      Initial (fun _ _ => []) s₀' ∧ Runs (fun _ _ => []) s₀' s' ∧
      ∃ d ∈ s.delivered (), ∃ d' ∈ s'.delivered (), d.buffer.length = 4 ∧
        d'.buffer.length = 4 ∧ d.buffer.take 1 = [9] ∧ d.buffer.take 1 = d'.buffer.take 1 := by
  obtain ⟨s₀, s, hi, hr, hd, ⟨l, hl, hitem⟩, hsize⟩ := afterMessage_runs (.inl rfl)
  obtain ⟨s₀', s', hi', hr', hd', ⟨l', hl', hitem'⟩, hsize'⟩ := afterMessage_runs (.inr rfl)
  have hagree := received_bytes_agree _ hi hr hi' hr' () (hsize.trans hsize'.symm) hd hd' rfl hl
    hl' (hitem.trans hitem'.symm)
  rw [hitem, hsize] at hagree
  obtain ⟨hlength, hlength', hbytes, hsame, -⟩ := hagree
  exact ⟨s₀, s, s₀', s', hi, hr, hi', hr', _, hd, _, hd', hlength, hlength', hbytes, hsame⟩

end MessageQueues

end PandoraRobot.Ipc
