import DramPhy.Phy.Step
import DramPhy.Proofs.Command.ArbiterRun
import DramPhy.Proofs.Phy.LaneHistory
import DramPhy.Proofs.Strobe.FrameHistory

/-! One cycle of a PHY in closed form: what it drives, what it returns and what
its registers hold after it, for registers whose parts are in order. -/

namespace DramPhy

/-- What a cycle brings: the calibration registers as they have been left for it,
the phases of the controller and the pads. -/
structure CycleInput where
  registers : CalibrationRegisters
  phases : List Phase
  pads : PadInput

def Phy.cycleOn (p : Phy) (i : CycleInput) : Checked PhyCycle :=
  { p with registers := i.registers }.step i.phases i.pads

def CycleInput.WellFormed (i : CycleInput) (databits : Nat) : Prop :=
  i.phases.length = phasesPerCycle ∧ i.pads.dq.length = databits

instance (i : CycleInput) (databits : Nat) : Decidable (i.WellFormed databits) :=
  inferInstanceAs (Decidable (_ ∧ _))

def CycleInput.writing (i : CycleInput) : Bool := i.phases.any (·.wrdataEn)

def CycleInput.reading (i : CycleInput) : Bool := i.phases.any (·.rddataEn)

def CycleInput.leveling (i : CycleInput) : Bool := i.registers.leveling

def CycleInput.commands (i : CycleInput) : List CommandSlot := i.phases.map (·.command)

def CalibrationSample.moved (c : CalibrationSample) (pulses : SlipPulses) (byte : Nat) : SlipMove :=
  ⟨c.bytes.getLsbD byte && pulses.reset || c.reset, c.bytes.getLsbD byte && pulses.advance⟩

theorem CalibrationSample.move_ok (c : CalibrationSample) (pulses : SlipPulses) {byte : Nat}
    (h : byte < 64) : c.move pulses byte = .ok (c.moved pulses byte) := by
  simp [CalibrationSample.move, Word.bit, h, ok_bind, CalibrationSample.moved, pure, Except.pure]

def CycleInput.writeMoved (i : CycleInput) : Nat → SlipMove :=
  i.registers.sample.moved i.registers.sample.write

def CycleInput.readMoved (i : CycleInput) : Nat → SlipMove :=
  i.registers.sample.moved i.registers.sample.read

/-- The words of the DQ lanes that a cycle hands over. -/
def CycleInput.dqWords (i : CycleInput) (databits : Nat) : List Word :=
  (List.range databits).map (laneWord i.phases Phase.wrdata databits)

def CycleInput.dmiWords (i : CycleInput) (bytes : Nat) : List Word :=
  (List.range bytes).map (laneWord i.phases Phase.mask bytes)

def CycleInput.strobeWord (i : CycleInput) (patterns : StrobePatterns) (frame : StrobeFrame) : Word :=
  patterns.word frame i.leveling i.registers.levelingStrobe

def Phy.pads (p : Phy) : PadOutput where
  phases := phasesPerCycle
  clk := clockWord
  cke := p.cke.held 0
  odt := p.odt.held 0
  resetN := p.resetN.held 0
  cs := p.arbiter.bus.cs
  ca := p.arbiter.bus.ca
  dmi := if p.config.maskedWrite then p.dmiWrite.windows else List.replicate p.config.bytes 0
  dmiOe := p.config.maskedWrite && p.dqOe.held 0
  dq := p.dqWrite.windows
  dqOe := p.dqOe.held 0
  dqs := p.dqsWrite.windows
  dqsOe := p.dqsOe.held 0

def Phy.returned (p : Phy) (i : CycleInput) : List Phase :=
  p.dqRead.windows.zipIdx.foldl
    (fun phases w => phases.mapIdx fun k ph => ph.receive k p.config.databits w.2 w.1)
    (i.phases.map fun ph =>
      { ph with rddataValid := p.readEnables.held (p.readEnables.length - 1) || i.leveling })

def Phy.next (p : Phy) (i : CycleInput) (frame : StrobeFrame) : Phy :=
  { p with
    registers := i.registers.consumed
    arbiter := p.arbiter.next i.commands
    cke := p.cke.tick (flagWord i.phases (·.cke))
    odt := p.odt.tick (flagWord i.phases (·.odt))
    resetN := p.resetN.tick (flagWord i.phases (·.resetN))
    dqWrite := p.dqWrite.next i.writeMoved (i.dqWords p.config.databits)
    dqRead := p.dqRead.next i.readMoved i.pads.dq
    dqsWrite := p.dqsWrite.next i.writeMoved
      (List.replicate p.config.bytes (i.strobeWord p.config.patterns frame))
    dmiWrite := p.dmiWrite.next i.writeMoved (i.dmiWords p.config.bytes)
    readEnables := p.readEnables.tick i.reading
    framing := p.framing.tick i.writing
    dqOe := p.dqOe.tick frame.dqOe
    dqsOe := p.dqsOe.tick frame.dqsOe
    cycle := p.cycle + 1 }

def CycleInput.written (databits k : Nat) (i : CycleInput) : Bool × Word :=
  ((i.writeMoved (k / 8)).reset, laneWord i.phases Phase.wrdata databits k)

def CycleInput.masked (bytes k : Nat) (i : CycleInput) : Bool × Word :=
  ((i.writeMoved k).reset, laneWord i.phases Phase.mask bytes k)

def CycleInput.sampled (k : Nat) (i : CycleInput) : Bool × Word :=
  ((i.readMoved (k / 8)).reset, i.pads.dq[k]?.getD 0)

def CycleInput.strobed (patterns : StrobePatterns) (k : Nat) (x : CycleInput × StrobeFrame) : Bool × Word :=
  ((x.1.writeMoved k).reset, x.1.strobeWord patterns x.2)

end DramPhy
