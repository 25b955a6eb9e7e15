import Mathlib.Data.List.Basic

/-! # Waveforms of a bus with two wires

A master drives a data line and a clock line, and samples the data line.  A line that the master
drives high is released, so that another party can pull it low.

What a waveform says is read off the calls one by one: the data line falls or rises under a high
clock (a start or a stop), or it stays for a whole high period of the clock (a bit).
-/

namespace PandoraRobot.TwoWire

/-- What the master does to the lines, and the level of the data line when it samples that. -/
inductive LineCall where
  | sda (level : Bool)
  | scl (level : Bool)
  | sample (level : Bool)
  deriving DecidableEq, Repr

inductive Symbol where
  | start
  | stop
  | bit (level : Bool)
  deriving DecidableEq, Repr

/-- The levels that the master drives.  Under a high clock, `bit` is the bit of this clock, and it
    is `none` if the data line has changed since the clock has risen. -/
structure Lines where
  sda : Bool
  scl : Bool
  bit : Option Bool
  deriving DecidableEq, Repr

def Lines.idle : Lines := ⟨true, true, none⟩

/-- The clock is low. -/
def Lines.low (sda : Bool) : Lines := ⟨sda, false, none⟩

/-- The symbols so far, and the lines now. -/
structure Seen where
  symbols : List Symbol
  lines : Lines
  deriving DecidableEq, Repr

/-- An edge of the data line under a high clock. -/
def edge (level : Bool) : Symbol := if level then .stop else .start

def Seen.step (s : Seen) : LineCall → Seen
  | .sda level =>
    if s.lines.scl ∧ level ≠ s.lines.sda then ⟨s.symbols ++ [edge level], ⟨level, true, none⟩⟩
    else { s with lines.sda := level }
  | .scl true => if s.lines.scl then s else { s with lines := ⟨s.lines.sda, true, s.lines.sda⟩ }
  | .scl false => ⟨s.symbols ++ s.lines.bit.toList.map .bit, .low s.lines.sda⟩
  -- a line that is low for one party is low for all
  | .sample level => { s with lines.bit := s.lines.bit.map (· && level) }

/-- The bits of a byte, the most significant bit first. -/
def bitsOf (data : BitVec 8) : List Bool :=
  [7, 6, 5, 4, 3, 2, 1, 0].map data.getLsbD

/-- A byte, and the clock on which it is acknowledged with a low level. -/
def byteOn (data : BitVec 8) (ack : Bool) : List Symbol :=
  ((bitsOf data) ++ [!ack]).map .bit

section Clocks

variable {symbols : List Symbol} {level sda seen : Bool}

/-- The data line may change under a low clock. -/
@[simp] theorem step_sda_low :
    Seen.step ⟨symbols, .low sda⟩ (.sda level) = ⟨symbols, .low level⟩ := by
  simp [Seen.step, Lines.low]

@[simp] theorem step_scl_low :
    Seen.step ⟨symbols, .low sda⟩ (.scl false) = ⟨symbols, .low sda⟩ := by
  simp [Seen.step, Lines.low]

@[simp] theorem step_rise :
    Seen.step ⟨symbols, .low sda⟩ (.scl true) = ⟨symbols, ⟨sda, true, some sda⟩⟩ := by
  simp [Seen.step, Lines.low]

@[simp] theorem step_sample :
    Seen.step ⟨symbols, ⟨true, true, some true⟩⟩ (.sample level) =
      ⟨symbols, ⟨true, true, some level⟩⟩ := by
  simp [Seen.step]

@[simp] theorem step_fall :
    Seen.step ⟨symbols, ⟨sda, true, some seen⟩⟩ (.scl false) =
      ⟨symbols ++ [.bit seen], .low sda⟩ := by
  simp [Seen.step, Lines.low]

@[simp] theorem step_start {bit : Option Bool} :
    Seen.step ⟨symbols, ⟨true, true, bit⟩⟩ (.sda false) =
      ⟨symbols ++ [.start], ⟨false, true, none⟩⟩ := by
  simp [Seen.step, edge]

@[simp] theorem step_started :
    Seen.step ⟨symbols, ⟨false, true, none⟩⟩ (.scl false) = ⟨symbols, .low false⟩ := by
  simp [Seen.step]

@[simp] theorem step_stop {bit : Option Bool} :
    Seen.step ⟨symbols, ⟨false, true, bit⟩⟩ (.sda true) = ⟨symbols ++ [.stop], .idle⟩ := by
  simp [Seen.step, edge, Lines.idle]

end Clocks

end PandoraRobot.TwoWire
