import DramPhy.Command.Arbiter
import DramPhy.DelayLine
import DramPhy.Phy.LaneBank
import DramPhy.Phy.Settings
import DramPhy.Strobe.Framing

/-! The registers of a PHY, and how a PHY is built from its configuration. -/

namespace DramPhy

structure Phy where
  config : PhyConfig
  settings : Settings
  registers : CalibrationRegisters
  arbiter : Arbiter
  cke : DelayLine Word
  odt : DelayLine Word
  resetN : DelayLine Word
  dqWrite : LaneBank
  dqRead : LaneBank
  dqsWrite : LaneBank
  /-- Without lanes when writes are not masked. -/
  dmiWrite : LaneBank
  readEnables : DelayLine Bool
  framing : WriteFraming
  dqOe : DelayLine Bool
  dqsOe : DelayLine Bool
  cycle : Nat

def dqBytes (databits : Nat) : List Nat := (List.range databits).map (· / 8)

def Phy.initial (config : PhyConfig) (settings : Settings) : Checked Phy := do
  let timing := settings.timing
  let arbiter ← Arbiter.make phasesPerCycle config.overlapMasking
  let control ← DelayLine.make 1 (0 : Word)
  let dq ← LaneBank.make (dqBytes config.databits)
  let dqs ← LaneBank.make (List.range config.bytes)
  let dmi ← LaneBank.make (if config.maskedWrite then List.range config.bytes else [])
  let readEnables ← DelayLine.make timing.readLatency false
  let framing ← WriteFraming.make timing.writeTap
  let enable ← DelayLine.make 1 false
  return {
    config
    settings
    registers := CalibrationRegisters.make timing.rdPhase timing.wrPhase
    arbiter
    cke := control
    odt := control
    resetN := control
    dqWrite := dq
    dqRead := dq
    dqsWrite := dqs
    dmiWrite := dmi
    readEnables
    framing
    dqOe := enable
    dqsOe := enable
    cycle := 0 }

def Phy.build (config : PhyConfig) (table : CasTable) : Buildable Phy := do
  let settings ← config.settings table
  Checked.build (Phy.initial config settings)

def Phy.suppressed (p : Phy) : Nat := p.arbiter.suppressed

def Phy.readSlip (p : Phy) (lane : Nat) : Checked Nat := p.dqRead.slip lane

def Phy.writeSlip (p : Phy) (lane : Nat) : Checked Nat := p.dqWrite.slip lane

end DramPhy
