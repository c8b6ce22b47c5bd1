import DramPhy.Controller.Phase
import DramPhy.Phy.State

/-! One controller cycle of a PHY. The pads and the read data come from the
registers as they stand; then every register takes in what this cycle brought. -/

namespace DramPhy

/-- The DRAM clock changes on every half tick. -/
def clockWord : Word := 0x5555

def Phy.drive (p : Phy) : Checked PadOutput := do
  let blank := PadOutput.blank phasesPerCycle p.config.databits
  let cke ← p.cke.output
  let odt ← p.odt.output
  let resetN ← p.resetN.output
  let bus ← p.arbiter.output
  let dq ← p.dqWrite.words
  let dqOe ← p.dqOe.output
  let dqs ← p.dqsWrite.words
  let dqsOe ← p.dqsOe.output
  let dmi ← if p.config.maskedWrite then p.dmiWrite.words else pure blank.dmi
  return {
    phases := blank.phases
    clk := clockWord
    cke
    odt
    resetN
    cs := bus.cs
    ca := bus.ca
    dmi
    dmiOe := p.config.maskedWrite && dqOe
    dq
    dqOe
    dqs
    dqsOe }

/-- The phases with the read data of this cycle. In write leveling they are valid
all the time. -/
def Phy.returnData (p : Phy) (leveling : Bool) (phases : List Phase) : Checked (List Phase) := do
  let enabled ← p.readEnables.output
  let words ← p.dqRead.words
  let marked := phases.map fun ph => { ph with rddataValid := enabled || leveling }
  words.zipIdx.foldlM (fun ps w => scatterLane ps p.config.databits w.2 w.1) marked

/-- The registers once this cycle has been clocked in. -/
def Phy.clockIn (p : Phy) (calibration : CalibrationSample) (phases : List Phase)
    (pads : PadInput) : Checked Phy := do
  let writing := phases.any (·.wrdataEn)
  let frame ← p.framing.frame writing calibration.leveling
  let strobe := p.config.patterns.word frame calibration.leveling calibration.levelingStrobe
  let arbiter ← p.arbiter.tick (phases.map (·.command))
  let data ← (List.range p.config.databits).mapM
    (gatherLane phases Phase.wrdata p.config.databits)
  let dqWrite ← p.dqWrite.tick calibration.writeMove data
  let dqsWrite ← p.dqsWrite.tick calibration.writeMove
    (List.replicate p.config.bytes strobe)
  let masks ← (List.range p.config.bytes).mapM (gatherLane phases Phase.mask p.config.bytes)
  let dmiWrite ← p.dmiWrite.tick calibration.writeMove masks
  let dqRead ← p.dqRead.tick calibration.readMove pads.dq
  let cycle ← Count.add p.cycle 1
  return { p with
    registers := p.registers.consumed
    arbiter
    cke := p.cke.tick (flagWord phases (·.cke))
    odt := p.odt.tick (flagWord phases (·.odt))
    resetN := p.resetN.tick (flagWord phases (·.resetN))
    dqWrite
    dqRead
    dqsWrite
    dmiWrite
    readEnables := p.readEnables.tick (phases.any (·.rddataEn))
    framing := p.framing.tick writing
    dqOe := p.dqOe.tick frame.dqOe
    dqsOe := p.dqsOe.tick frame.dqsOe
    cycle }

structure PhyCycle where
  phy : Phy
  phases : List Phase
  pads : PadOutput

def Phy.step (p : Phy) (phases : List Phase) (pads : PadInput) : Checked PhyCycle := do
  require (phases.length = phasesPerCycle) .recordPerPhase
  require (pads.dq.length = p.config.databits) .wordPerPad
  let calibration := p.registers.sample
  let driven ← p.drive
  let returned ← p.returnData calibration.leveling phases
  let phy ← p.clockIn calibration phases pads
  return ⟨phy, returned, driven⟩

end DramPhy
