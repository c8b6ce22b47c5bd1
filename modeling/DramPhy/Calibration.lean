import DramPhy.Word

/-! Calibration registers. A level holds until it is changed. A pulse that has been
fired is seen by one sample, however often it was fired, and is gone after it. -/

namespace DramPhy

/-- The pulses that move the bitslips of one direction. -/
structure SlipPulses where
  reset : Bool
  advance : Bool
  deriving DecidableEq

structure CalibrationRegisters where
  /-- Resets all bitslips while high. -/
  reset : Bool
  leveling : Bool
  levelingStrobe : Bool
  /-- The bytes that slip pulses act on, one bit each. -/
  bytes : Word
  read : SlipPulses
  write : SlipPulses
  /-- The phases that the controller should issue on. -/
  rdPhase : Nat
  wrPhase : Nat
  deriving DecidableEq

/-- The registers as one step sees them. -/
structure CalibrationSample where
  reset : Bool
  leveling : Bool
  levelingStrobe : Bool
  bytes : Word
  read : SlipPulses
  write : SlipPulses
  deriving DecidableEq

def SlipPulses.none : SlipPulses := ⟨false, false⟩

def CalibrationRegisters.make (rdPhase wrPhase : Nat) : CalibrationRegisters :=
  ⟨false, false, false, 0, .none, .none, rdPhase, wrPhase⟩

def CalibrationRegisters.sample (r : CalibrationRegisters) : CalibrationSample :=
  ⟨r.reset, r.leveling, r.levelingStrobe, r.bytes, r.read, r.write⟩

/-- The registers once a step has seen them: no pulse is left. -/
def CalibrationRegisters.consumed (r : CalibrationRegisters) : CalibrationRegisters :=
  { r with levelingStrobe := false, read := .none, write := .none }

/-- The directions that are calibrated. -/
inductive SlipPath where
  | read
  | write
  deriving DecidableEq

inductive SlipPulse where
  | reset
  | advance
  deriving DecidableEq

def SlipPulses.pending (p : SlipPulses) : SlipPulse → Bool
  | .reset => p.reset
  | .advance => p.advance

def SlipPulses.fire (p : SlipPulses) : SlipPulse → SlipPulses
  | .reset => { p with reset := true }
  | .advance => { p with advance := true }

/-- What software does to the registers between two steps. -/
inductive RegisterWrite where
  | reset (level : Bool)
  | leveling (level : Bool)
  | bytes (selected : Word)
  | rdPhase (phase : Nat)
  | wrPhase (phase : Nat)
  | fireStrobe
  | fire (path : SlipPath) (pulse : SlipPulse)
  deriving DecidableEq

def CalibrationRegisters.put (r : CalibrationRegisters) : RegisterWrite → CalibrationRegisters
  | .reset level => { r with reset := level }
  | .leveling level => { r with leveling := level }
  | .bytes selected => { r with bytes := selected }
  | .rdPhase phase => { r with rdPhase := phase }
  | .wrPhase phase => { r with wrPhase := phase }
  | .fireStrobe => { r with levelingStrobe := true }
  | .fire .read pulse => { r with read := r.read.fire pulse }
  | .fire .write pulse => { r with write := r.write.fire pulse }

def CalibrationRegisters.pulses (r : CalibrationRegisters) : SlipPath → SlipPulses
  | .read => r.read
  | .write => r.write

/-- How one bitslip is moved in a step. -/
structure SlipMove where
  reset : Bool
  advance : Bool
  deriving DecidableEq

/-- What the pulses of one direction do to the bitslips of a byte. -/
def CalibrationSample.move (c : CalibrationSample) (pulses : SlipPulses) (byte : Nat) :
    Checked SlipMove := do
  let selected ← c.bytes.bit byte
  return ⟨selected && pulses.reset || c.reset, selected && pulses.advance⟩

def CalibrationSample.readMove (c : CalibrationSample) (byte : Nat) : Checked SlipMove :=
  c.move c.read byte

def CalibrationSample.writeMove (c : CalibrationSample) (byte : Nat) : Checked SlipMove :=
  c.move c.write byte

end DramPhy
