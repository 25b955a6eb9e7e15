import PandoraRobot.Kernel.Vsnprintf

/-! # Output on the console

`rt_kprintf` of `kservice.c`: the text is formatted into a static buffer, and what the console
device is sent is as many bytes of that buffer as `rt_vsnprintf` counts.
-/

namespace PandoraRobot.Kernel

open PandoraRobot.BoundedWriter PandoraRobot.RingBuffer

/-! ## The code -/

def rtConsolebufSize : BitVec 32 := 256
def rtDeviceFlagStream : BitVec 16 := 0x040

/-- What `rt_kprintf` hands on. -/
inductive ConsoleCall where
  | hwConsoleOutput (str : BitVec 32)
  | deviceWrite (openFlag : BitVec 16) (buffer size : BitVec 32)
  deriving DecidableEq, Repr

/-- `rt_kprintf`, with `rt_log_buf` at `logBuf`, and the open flag of the console device, if there
    is one: the memory, and the call that is made. -/
def rtKprintf (consoleDevice : Option (BitVec 16)) (logBuf : BitVec 32) (fmt : List CChar)
    (args : List VaArg) (mem : Nat → CChar) : Option ((Nat → CChar) × ConsoleCall) := do
  let (stores, result) ← rtVsnprintf logBuf (rtConsolebufSize - 1) fmt args
  let length : BitVec 32 := BitVec.ofInt 32 result
  let length := if rtConsolebufSize - 1 < length then rtConsolebufSize - 1 else length
  let mem := after mem stores
  match consoleDevice with
  | none => some (mem, .hwConsoleOutput logBuf)
  | some openFlag => some (mem, .deviceWrite (openFlag ||| rtDeviceFlagStream) logBuf length)

/-! ## What is sent -/

variable {logBuf : BitVec 32} {fmt text : List CChar} {args : List VaArg} {mem : Nat → CChar}

/-- What must be sent: the text, as far as the buffer holds it with the NUL that ends it, and no
    NUL. -/
def SentExactly (text sent : List CChar) : Prop :=
  sent = text.take (rtConsolebufSize.toNat - 1) ∧ 0 ∉ sent

/-- The part of a text that is put after the pointer has come to the buffer for the last time. -/
def lastPass (text : List CChar) : List CChar := text.drop (text.length / 2 ^ 32 * 2 ^ 32)

theorem length_lastPass (text : List CChar) : (lastPass text).length = text.length % 2 ^ 32 := by
  have hdiv := Nat.div_add_mod' text.length (2 ^ 32)
  rw [lastPass, List.length_drop]
  omega

/-- The memory after the call. -/
def logged (logBuf : BitVec 32) (text : List CChar) (mem : Nat → CChar) : Nat → CChar :=
  after mem (stores logBuf (rtConsolebufSize - 1) text)

/-- The bytes that the device is sent. -/
def sent (logBuf : BitVec 32) (text : List CChar) (mem : Nat → CChar) : List CChar :=
  load (logged logBuf text mem) logBuf.toNat
    (min (rtConsolebufSize.toNat - 1) (text.length % 2 ^ 32))

theorem rtKprintf_eq (openFlag : BitVec 16) (mem : Nat → CChar) (h : output args fmt = some text) :
    ∃ size, rtKprintf (some openFlag) logBuf fmt args mem =
        some (logged logBuf text mem,
          .deviceWrite (openFlag ||| rtDeviceFlagStream) logBuf size) ∧
      size.toNat = min (rtConsolebufSize.toNat - 1) (text.length % 2 ^ 32) := by
  obtain ⟨length, hlength⟩ : ∃ length : BitVec 32,
      length = BitVec.ofInt 32 (BitVec.ofNat 32 text.length).toInt := ⟨_, rfl⟩
  have hlength_nat : length.toNat = text.length % 2 ^ 32 := by
    rw [hlength, BitVec.ofInt_toInt, BitVec.toNat_ofNat]
  have hsize : (rtConsolebufSize - 1).toNat = rtConsolebufSize.toNat - 1 := by decide
  refine ⟨if rtConsolebufSize - 1 < length then rtConsolebufSize - 1 else length, ?_, ?_⟩
  · rw [rtKprintf, rtVsnprintf_eq logBuf (rtConsolebufSize - 1) h, hlength]
    rfl
  · split
    case isTrue hlt =>
      rw [BitVec.lt_def, hlength_nat, hsize] at hlt
      rw [hsize]
      omega
    case isFalse hlt =>
      rw [BitVec.lt_def, hlength_nat, hsize] at hlt
      rw [hlength_nat]
      omega

section Sent

variable (hbuf : logBuf.toNat + 256 < 2 ^ 32)
include hbuf

theorem room_logBuf : room logBuf (rtConsolebufSize - 1) = 255 := by
  have hsize : (rtConsolebufSize - 1).toNat = 255 := by decide
  rw [room, hsize]
  omega

theorem bufEnd_logBuf : (bufEnd logBuf (rtConsolebufSize - 1)).toNat = logBuf.toNat + 255 := by
  rw [bufEnd_toNat, room_logBuf hbuf]

/-- The characters that are put are those of the last pass. -/
theorem load_guarded {k : Nat} (hk : k ≤ (lastPass text).length) (hk' : k ≤ 255) :
    load (after mem (guarded (bufEnd logBuf (rtConsolebufSize - 1)) logBuf text)) logBuf.toNat k =
      (lastPass text).take k := by
  obtain ⟨n, hn⟩ : ∃ n, n = text.length / 2 ^ 32 * 2 ^ 32 := ⟨_, rfl⟩
  have hle : n ≤ text.length := by
    rw [hn]
    exact Nat.div_mul_le_self _ _
  have hback : logBuf + BitVec.ofNat 32 (text.take n).length = logBuf := by
    have hzero : BitVec.ofNat 32 n = 0 := by
      apply BitVec.eq_of_toNat_eq
      rw [BitVec.toNat_ofNat, hn, Nat.mul_mod_left]
      rfl
    rw [List.length_take, Nat.min_eq_left hle, hzero]
    exact BitVec.add_zero _
  have hlength := length_lastPass text
  have hlast : lastPass text = text.drop n := by rw [lastPass, hn]
  rw [hlast] at hk hlength ⊢
  have hsplit := guarded_append (bufEnd logBuf (rtConsolebufSize - 1)) logBuf (text.take n)
    (text.drop n)
  rw [List.take_append_drop, hback] at hsplit
  rw [hsplit, after_append]
  refine load_after_guarded (by omega) hk ?_
  rw [bufEnd_logBuf hbuf]
  omega

/-- A text for which there is room. -/
theorem sent_short (hshort : text.length ≤ 254) : sent logBuf text mem = text := by
  have hroom := room_logBuf hbuf
  have hcount : min (rtConsolebufSize.toNat - 1) (text.length % 2 ^ 32) = text.length := by
    have hsize : rtConsolebufSize.toNat = 256 := rfl
    omega
  rw [sent, logged, hcount, after_stores (by omega) (by omega), hroom,
    List.take_of_length_le hshort]
  have hload := load_store mem logBuf.toNat (text ++ [0])
  rw [List.length_append] at hload
  rw [← take_load (Nat.le_add_right text.length [(0 : CChar)].length), hload]
  exact List.take_left

/-- A text for which there is none: the NUL is sent, unless the pointer has wrapped and the NUL
    goes elsewhere. -/
theorem sent_long (mem : Nat → CChar) (hlong : 254 < text.length % 2 ^ 32) :
    (logBuf.toNat + text.length % 2 ^ 32 < 2 ^ 32 → 0 ∈ sent logBuf text mem) ∧
      (2 ^ 32 ≤ logBuf.toNat + text.length % 2 ^ 32 →
        sent logBuf text mem = (lastPass text).take 255) := by
  have hend := bufEnd_logBuf hbuf
  have hcount : min (rtConsolebufSize.toNat - 1) (text.length % 2 ^ 32) = 255 := by
    have hsize : rtConsolebufSize.toNat = 256 := rfl
    omega
  have hlast := length_lastPass text
  have hput : load (after mem (guarded (bufEnd logBuf (rtConsolebufSize - 1)) logBuf text))
      logBuf.toNat 255 = (lastPass text).take 255 :=
    load_guarded hbuf (by omega) (Nat.le_refl _)
  have hptr : (logBuf + BitVec.ofNat 32 text.length).toNat =
      (logBuf.toNat + text.length % 2 ^ 32) % 2 ^ 32 := by
    rw [BitVec.toNat_add, BitVec.toNat_ofNat]
  rw [sent, logged, hcount, stores, after_append, terminator, room_logBuf hbuf,
    if_pos (by decide)]
  generalize after mem (guarded _ logBuf text) = mem' at hput ⊢
  constructor
  · intro hplace
    rw [if_neg]
    · -- the NUL replaces the last character that was put
      have hplace' : (bufEnd logBuf (rtConsolebufSize - 1) - 1).toNat = logBuf.toNat + 254 := by
        have hone : (1 : BitVec 32).toNat = 1 := rfl
        rw [BitVec.toNat_sub, hend, hone]
        omega
      refine List.mem_map.mpr ⟨254, List.mem_range.mpr (by decide), ?_⟩
      show RingBuffer.store mem' (bufEnd logBuf (rtConsolebufSize - 1) - 1).toNat [0] _ = 0
      rw [hplace']
      simp [RingBuffer.store]
    · rw [BitVec.lt_def]
      omega
  · intro hwraps
    rw [if_pos]
    · rw [← hput]
      refine List.map_congr_left fun i _ => ?_
      show RingBuffer.store mem' (logBuf + BitVec.ofNat 32 text.length).toNat [0] _ = _
      refine store_out (.inr ?_)
      rw [List.length_singleton]
      omega
    · rw [BitVec.lt_def]
      omega

theorem sentExactly_iff : SentExactly text (sent logBuf text mem) ↔
    0 ∉ text.take 255 ∧ (text.length < 255 ∨ 2 ^ 32 ≤ logBuf.toNat + text.length % 2 ^ 32 ∧
      (lastPass text).take 255 = text.take 255) := by
  have hsize : rtConsolebufSize.toNat - 1 = 255 := rfl
  rw [SentExactly, hsize]
  by_cases hshort : text.length ≤ 254
  · rw [sent_short hbuf hshort, List.take_of_length_le (by omega)]
    constructor
    · rintro ⟨-, hnul⟩
      exact ⟨hnul, .inl (by omega)⟩
    · rintro ⟨hnul, -⟩
      exact ⟨rfl, hnul⟩
  by_cases hlong : 254 < text.length % 2 ^ 32
  · obtain ⟨hnul, hwraps⟩ := sent_long hbuf mem hlong
    by_cases hplace : logBuf.toNat + text.length % 2 ^ 32 < 2 ^ 32
    · constructor
      · rintro ⟨-, hnone⟩
        exact absurd (hnul hplace) hnone
      · rintro ⟨-, hless | ⟨hle, -⟩⟩ <;> omega
    · rw [hwraps (by omega)]
      constructor
      · rintro ⟨hsame, hnone⟩
        rw [hsame] at hnone
        exact ⟨hnone, .inr ⟨by omega, hsame⟩⟩
      · rintro ⟨hnone, hless | ⟨-, hsame⟩⟩
        · omega
        · rw [hsame]
          exact ⟨rfl, hnone⟩
  · -- the count has wrapped
    have hcount : (sent logBuf text mem).length = text.length % 2 ^ 32 := by
      rw [sent, length_load, hsize]
      omega
    have hlast := length_lastPass text
    constructor
    · rintro ⟨hsame, -⟩
      rw [hsame, List.length_take] at hcount
      omega
    · rintro ⟨-, hless | ⟨-, hsame⟩⟩
      · omega
      · have hlengths := congrArg List.length hsame
        rw [List.length_take, List.length_take] at hlengths
        omega

/-- The console device is sent the text, or as much of it as the buffer holds, exactly where the
    text has less than 255 characters, and no NUL.  (A text of gigabytes, with which the pointer
    wraps, may put the NUL in front of the buffer.) -/
theorem rt_kprintf_exact (openFlag : BitVec 16) (mem : Nat → CChar)
    (houtput : output args fmt = some text) :
    ∃ mem' size, rtKprintf (some openFlag) logBuf fmt args mem =
        some (mem', .deviceWrite (openFlag ||| rtDeviceFlagStream) logBuf size) ∧
      (SentExactly text (load mem' logBuf.toNat size.toNat) ↔
        0 ∉ text.take 255 ∧ (text.length < 255 ∨ 2 ^ 32 ≤ logBuf.toNat + text.length % 2 ^ 32 ∧
          (lastPass text).take 255 = text.take 255)) := by
  obtain ⟨size, hrun, hsize⟩ := rtKprintf_eq openFlag mem houtput
  refine ⟨_, size, hrun, ?_⟩
  rw [hsize]
  exact sentExactly_iff hbuf

end Sent

/-- What `%*c` puts. -/
theorem output_field {width : BitVec 32} (hlow : 0 < width.toInt) (c : BitVec 32) :
    output [.int width, .int c] [chr '%', chr '*', chr 'c'] =
      some (List.replicate (width.toInt - 1).toNat (chr ' ') ++ [c.setWidth 8]) := by
  rw [output, output_char hlow, formatLoop_nil]
  rfl

/-- A character in a field of five. -/
theorem rt_kprintf_exact_char :
    ∃ mem' size, rtKprintf (some 3) 0x20000000 [chr '%', chr '*', chr 'c'] [.int 5, .int 0x41]
        (fun _ => 0x2a) = some (mem', .deviceWrite 0x43 0x20000000 size) ∧
      SentExactly [0x20, 0x20, 0x20, 0x20, 0x41] (load mem' 0x20000000 size.toNat) := by
  have houtput : output [.int 5, .int 0x41] [chr '%', chr '*', chr 'c'] =
      some [0x20, 0x20, 0x20, 0x20, 0x41] := output_field (by decide) 0x41
  have hbuf : (0x20000000 : BitVec 32).toNat + 256 < 2 ^ 32 := by decide
  obtain ⟨mem', size, hrun, hexact⟩ := rt_kprintf_exact hbuf 3 (fun _ => 0x2a) houtput
  exact ⟨mem', size, hrun, hexact.mpr (by decide)⟩

/-- A text of 255 characters: the last one is sent as a NUL. -/
theorem rt_kprintf_nul :
    ∃ text, output [.int 255, .int 0x41] [chr '%', chr '*', chr 'c'] = some text ∧
      text.length = 255 ∧ 0 ∉ text ∧
      ∃ mem' size, rtKprintf (some 3) 0x20000000 [chr '%', chr '*', chr 'c'] [.int 255, .int 0x41]
          (fun _ => 0x2a) = some (mem', .deviceWrite 0x43 0x20000000 size) ∧
        0 ∈ load mem' 0x20000000 size.toNat ∧
        ¬ SentExactly text (load mem' 0x20000000 size.toNat) := by
  have hlow : 0 < (255 : BitVec 32).toInt := by decide
  have hbuf : (0x20000000 : BitVec 32).toNat + 256 < 2 ^ 32 := by decide
  have houtput := output_field hlow 0x41
  have hlength : (List.replicate ((255 : BitVec 32).toInt - 1).toNat (chr ' ') ++
      [(0x41 : BitVec 32).setWidth 8]).length = 255 := by
    rw [List.length_append, List.length_replicate]
    rfl
  have hnone : (0 : CChar) ∉ List.replicate ((255 : BitVec 32).toInt - 1).toNat (chr ' ') ++
      [(0x41 : BitVec 32).setWidth 8] := by
    simp only [List.mem_append, List.mem_replicate, List.mem_singleton]
    decide
  obtain ⟨size, hrun, hsize⟩ := rtKprintf_eq 3 (fun _ => 0x2a) houtput
  have hnul := (sent_long hbuf (fun _ => 0x2a) (by rw [hlength]; decide)).1
    (by rw [hlength]; decide)
  refine ⟨_, houtput, hlength, hnone, _, size, hrun, ?_, fun hexact => ?_⟩
  · rw [hsize]
    exact hnul
  · rw [hsize] at hexact
    exact hexact.2 hnul

end PandoraRobot.Kernel
