import PandoraRobot.Drivers.Sensor

/-! # Reads of a sensor with buffered samples

`rt_sensor_read` counts the buffer in bytes and the request in samples.  Any read that finds samples
empties the buffer.
-/

namespace PandoraRobot.Drivers

open PandoraRobot.Kernel PandoraRobot.RecursiveLock

/-- A call of `rt_sensor_read`: the thread that calls, the one that waits for the module lock, what
    the driver returns, and the arguments. -/
structure SensorRead (V T : Type) where
  thread : T
  next : Option T
  ops : SensorOps V
  buf : BitVec 32
  len : BitVec 32

/-- A read that got to the driver or to the buffer: the bytes it found in the buffer, and what it
    left. -/
structure SensorReadOut (V N T : Type) where
  found : BitVec 32
  out : SensorOut V N T (BitVec 32)

namespace SensorRead

variable {V N T : Type} [DecidableEq T]
variable {lock : Lock 8 T} {sensor : RtSensor V N} {samples : List V}
variable {read : SensorRead V T} {reads : List (SensorRead V T)}

/-- `rt_sensor_read`. -/
def code (read : SensorRead V T) (lock : Lock 8 T) (sensor : RtSensor V N) :
    SensorOut V N T (BitVec 32) :=
  rtSensorRead read.thread read.next read.ops lock sensor read.buf read.len

/-- Reads in a row, with what each of them found. -/
def outs : List (SensorRead V T) → Lock 8 T → RtSensor V N → List (SensorReadOut V N T)
  | [], _, _ => []
  | read :: reads, lock, sensor =>
    let out := read.code lock sensor
    ⟨sensor.dataLen, out⟩ :: outs reads out.lock out.sensor

/-- The sensor after them. -/
def sensorAfter : List (SensorRead V T) → Lock 8 T → RtSensor V N → RtSensor V N
  | [], _, sensor => sensor
  | read :: reads, lock, sensor =>
    sensorAfter reads (read.code lock sensor).lock (read.code lock sensor).sensor

end SensorRead

/-- What a read took out of the buffer. -/
def SensorReadOut.taken {V N T : Type} (r : SensorReadOut V N T) : List V :=
  if 0 < r.found then r.out.data else []

/-- The samples in the buffer. -/
def RtSensor.buffered {V N : Type} (sensor : RtSensor V N) : List V :=
  sensor.dataBuf.take (sensor.dataLen / sizeofSensorData).toNat

theorem RtSensor.buffered_empty {V N : Type} {sensor : RtSensor V N} (h : sensor.dataLen = 0) :
    sensor.buffered = [] := by
  have hzero : ((0 : BitVec 32) / sizeofSensorData).toNat = 0 := by decide
  rw [RtSensor.buffered, h, hzero, List.take_zero]

/-- The driver has left whole samples in the buffer. -/
structure RtSensor.Filled {V N : Type} (sensor : RtSensor V N) : Prop where
  dataLen : sensor.dataLen.toNat = 20 * sensor.buffered.length

namespace SensorRead

variable {V N T : Type} [DecidableEq T]
variable {lock : Lock 8 T} {sensor : RtSensor V N} {samples : List V}
variable {read : SensorRead V T} {reads : List (SensorRead V T)}

/-- The read returns at once. -/
def Skips (read : SensorRead V T) : Prop := read.buf = 0 ∨ read.len = 0

instance : DecidablePred (Skips (V := V) (T := T)) :=
  fun read => inferInstanceAs (Decidable (read.buf = 0 ∨ read.len = 0))

/-- The reads and what is left are the buffered samples in order; each read from the buffer returns
    how many samples it copied; and the driver is asked by a read that finds the buffer empty. -/
structure Lossless (reads : List (SensorRead V T)) (lock : Lock 8 T) (sensor : RtSensor V N) :
    Prop where
  samples : (outs reads lock sensor).flatMap SensorReadOut.taken ++
    (sensorAfter reads lock sensor).buffered = sensor.buffered
  result : ∀ r ∈ outs reads lock sensor, 0 < r.found → r.out.result.toNat = r.out.data.length
  fetch : ∀ r ∈ outs reads lock sensor, ∀ len, .fetchData len ∈ r.out.actions → r.found = 0

/-- The first read that does not return at once asks for all the buffered samples. -/
def FirstTakesAll (reads : List (SensorRead V T)) (sensor : RtSensor V N) : Prop :=
  ∀ read, reads.find? (fun read => ¬ read.Skips) = some read →
    sensor.buffered.length ≤ read.len.toNat

/-! ## One read -/

theorem code_skips (h : read.Skips) (lock : Lock 8 T) (sensor : RtSensor V N) :
    read.code lock sensor = ⟨lock, sensor, 0, [], [], none⟩ := if_pos h

/-- A read that finds nothing asks the driver, and leaves the sensor. -/
theorem code_empty (h : ¬ read.Skips) (hempty : sensor.dataLen = 0) :
    (read.code lock sensor).sensor = sensor := by
  rw [code, rtSensorRead, if_neg (show ¬ (read.buf = 0 ∨ read.len = 0) from h)]
  dsimp only
  rw [if_neg (by rw [hempty]; decide)]

/-- The number of samples that a read of the buffer copies. -/
def copied (read : SensorRead V T) (sensor : RtSensor V N) : BitVec 32 :=
  if read.len > sensor.dataLen / sizeofSensorData then sensor.dataLen / sizeofSensorData
  else read.len

/-- A read that finds samples copies as many as it asks for, and empties the buffer. -/
theorem code_filled (lock : Lock 8 T) (h : ¬ read.Skips) (hfilled : sensor.Filled)
    (hsome : 0 < sensor.dataLen) :
    let out := read.code lock sensor
    out.sensor = { sensor with dataLen := 0 } ∧ out.actions = [] ∧
      out.data = sensor.buffered.take read.len.toNat ∧ out.result.toNat = out.data.length := by
  have hcount : (sensor.dataLen / sizeofSensorData).toNat = sensor.buffered.length := by
    rw [BitVec.toNat_udiv, hfilled.dataLen]
    exact Nat.mul_div_cancel_left _ (by decide)
  have hdata : ∀ len : BitVec 32, len.toNat = min read.len.toNat sensor.buffered.length →
      sensor.dataBuf.take len.toNat = sensor.buffered.take read.len.toNat := by
    intro len hlen
    rw [hlen, ← hcount, RtSensor.buffered, List.take_take]
  have hasked : (read.copied sensor).toNat = min read.len.toNat sensor.buffered.length := by
    rw [copied]
    split
    case isTrue hmore =>
      have hlt := BitVec.lt_def.mp hmore
      rw [hcount] at hlt
      rw [hcount]
      omega
    case isFalse hless =>
      have hge := mt BitVec.lt_def.mpr hless
      rw [hcount] at hge
      omega
  intro out
  have hout : out = ⟨releaseModule read.thread read.next (takeModule read.thread lock sensor)
      sensor, { sensor with dataLen := 0 }, read.copied sensor, [],
      sensor.dataBuf.take (read.copied sensor).toNat, none⟩ := by
    simp only [out, code, rtSensorRead, if_neg (show ¬ (read.buf = 0 ∨ read.len = 0) from h),
      if_pos hsome]
    rfl
  rw [hout]
  refine ⟨rfl, rfl, hdata _ hasked, ?_⟩
  rw [hdata _ hasked, List.length_take]
  exact hasked

/-! ## Reads in a row -/

theorem not_pos_iff : ¬ 0 < sensor.dataLen ↔ sensor.dataLen = 0 := by
  constructor
  · intro h
    exact BitVec.eq_of_toNat_eq (by simpa [BitVec.lt_def] using h)
  · rintro h
    rw [h]
    decide

/-- An empty buffer stays empty. -/
theorem outs_empty (reads : List (SensorRead V T)) (lock : Lock 8 T) (hempty : sensor.dataLen = 0) :
    (∀ r ∈ outs reads lock sensor, r.found = 0) ∧ (sensorAfter reads lock sensor) = sensor := by
  induction reads generalizing lock with
  | nil => exact ⟨by simp [outs], rfl⟩
  | cons read reads ih =>
    have hkept : (read.code lock sensor).sensor = sensor := by
      by_cases hskips : read.Skips
      · rw [code_skips hskips]
      · exact code_empty hskips hempty
    simp only [outs, sensorAfter, hkept, List.forall_mem_cons]
    exact ⟨⟨hempty, (ih _).1⟩, (ih _).2⟩

omit [DecidableEq T] in
theorem taken_eq_nil {rs : List (SensorReadOut V N T)} (h : ∀ r ∈ rs, r.found = 0) :
    rs.flatMap SensorReadOut.taken = [] := by
  rw [List.flatMap_eq_nil_iff]
  intro r hr
  rw [SensorReadOut.taken, h r hr]
  rfl

theorem Lossless.of_empty (hempty : sensor.dataLen = 0) : Lossless reads lock sensor := by
  obtain ⟨hfound, hsame⟩ := outs_empty reads lock hempty
  refine ⟨?_, fun r hr hpos => ?_, fun r hr _ _ => hfound r hr⟩
  · rw [taken_eq_nil hfound, hsame, List.nil_append]
  · rw [hfound r hr] at hpos
    exact absurd hpos (by decide)

/-- A read that returns at once changes nothing. -/
theorem lossless_skips (h : read.Skips) :
    Lossless (read :: reads) lock sensor ↔ Lossless reads lock sensor := by
  have houts : outs (read :: reads) lock sensor =
      ⟨sensor.dataLen, ⟨lock, sensor, 0, [], [], none⟩⟩ :: outs reads lock sensor := by
    simp only [outs, code_skips h]
  have hafter : sensorAfter (read :: reads) lock sensor = sensorAfter reads lock sensor := by
    simp only [sensorAfter, code_skips h]
  have htaken : SensorReadOut.taken (N := N)
      ⟨sensor.dataLen, ⟨lock, sensor, 0, [], [], none⟩⟩ = [] := ite_self _
  constructor
  · rintro ⟨hsamples, hresult, hfetch⟩
    rw [houts, List.flatMap_cons, htaken, hafter] at hsamples
    rw [houts, List.forall_mem_cons] at hresult hfetch
    exact ⟨hsamples, hresult.2, hfetch.2⟩
  · rintro ⟨hsamples, hresult, hfetch⟩
    refine ⟨?_, ?_, ?_⟩
    · rw [houts, List.flatMap_cons, htaken, hafter]
      exact hsamples
    · rw [houts, List.forall_mem_cons]
      exact ⟨fun _ => rfl, hresult⟩
    · rw [houts, List.forall_mem_cons]
      exact ⟨fun len hlen => absurd hlen List.not_mem_nil, hfetch⟩

/-- The first read of the buffer decides. -/
theorem lossless_filled (h : ¬ read.Skips) (hfilled : sensor.Filled)
    (hsome : 0 < sensor.dataLen) :
    Lossless (read :: reads) lock sensor ↔ sensor.buffered.length ≤ read.len.toNat := by
  obtain ⟨hsensor, hactions, hdata, hresult⟩ := code_filled lock h hfilled hsome
  have hempty : (read.code lock sensor).sensor.dataLen = 0 := by rw [hsensor]
  obtain ⟨hfound, hsame⟩ := outs_empty reads (read.code lock sensor).lock hempty
  have hleft : (sensorAfter (read :: reads) lock sensor).buffered = [] := by
    rw [sensorAfter, hsame]
    exact RtSensor.buffered_empty hempty
  have htaken : (outs (read :: reads) lock sensor).flatMap SensorReadOut.taken =
      sensor.buffered.take read.len.toNat := by
    rw [outs, List.flatMap_cons, taken_eq_nil hfound, List.append_nil, SensorReadOut.taken,
      if_pos hsome, hdata]
  have hsamples : (outs (read :: reads) lock sensor).flatMap SensorReadOut.taken ++
      (sensorAfter (read :: reads) lock sensor).buffered = sensor.buffered ↔
        sensor.buffered.length ≤ read.len.toNat := by
    rw [hleft, List.append_nil, htaken, List.take_eq_self_iff]
  refine ⟨fun hlossless => hsamples.mp hlossless.samples, fun hall => ?_⟩
  refine ⟨hsamples.mpr hall, ?_, ?_⟩
  · rw [outs, List.forall_mem_cons]
    refine ⟨fun _ => hresult, fun r hr hpos => ?_⟩
    rw [hfound r hr] at hpos
    exact absurd hpos (by decide)
  · rw [outs, List.forall_mem_cons]
    refine ⟨fun len hlen => ?_, fun r hr _ _ => hfound r hr⟩
    rw [hactions] at hlen
    exact absurd hlen List.not_mem_nil

/-- Reads of a sensor whose buffer holds samples: what they return is the samples, in order, and
    none is lost, if and only if the first of them takes all. -/
theorem rt_sensor_read_lossless (hfilled : sensor.Filled) (reads : List (SensorRead V T))
    (lock : Lock 8 T) : Lossless reads lock sensor ↔ FirstTakesAll reads sensor := by
  by_cases hsome : 0 < sensor.dataLen
  · induction reads with
    | nil =>
      refine iff_of_true ⟨List.nil_append _, ?_, ?_⟩ ?_
      · simp [outs]
      · simp [outs]
      · simp [FirstTakesAll]
    | cons read reads ih =>
      by_cases hskips : read.Skips
      · rw [lossless_skips hskips, ih]
        simp [FirstTakesAll, hskips]
      · rw [lossless_filled hskips hfilled hsome]
        simp [FirstTakesAll, hskips]
  · have hempty := not_pos_iff.mp hsome
    refine iff_of_true (.of_empty hempty) fun read _ => ?_
    rw [RtSensor.buffered_empty hempty]
    exact Nat.zero_le _

/-- A sensor that can be polled, with the samples 1, 2 and 3 in its buffer. -/
def threeSamples : RtSensor Nat Nat :=
  { SensorCall.polled with dataBuf := [1, 2, 3], dataLen := 60 }

/-- A read of `len` samples by thread 0, of a driver that has none. -/
def readOf (len : BitVec 32) : SensorRead Nat (Fin 1) :=
  ⟨0, none, ⟨fun _ => rtEok, (0, [])⟩, 1, len⟩

theorem rt_sensor_read_lossless_three :
    Lossless [readOf 5, readOf 1] .free threeSamples ↔
      FirstTakesAll [readOf 5, readOf 1] threeSamples :=
  rt_sensor_read_lossless ⟨rfl⟩ [readOf 5, readOf 1] .free

/-- Two reads, of one sample and of two: the second one finds nothing. -/
theorem rt_sensor_read_loses :
    threeSamples.Filled ∧ ¬ Lossless [readOf 1, readOf 2] .free threeSamples ∧
      (outs [readOf 1, readOf 2] .free threeSamples).flatMap SensorReadOut.taken = [1] ∧
      (sensorAfter [readOf 1, readOf 2] .free threeSamples).buffered = [] := by
  refine ⟨⟨rfl⟩, fun hlossless => ?_, rfl, rfl⟩
  have hsamples := hlossless.samples
  exact absurd hsamples (by decide)

end SensorRead

end PandoraRobot.Drivers
