import DramPhy.Config

/-! What a memory controller has to know to drive a PHY. -/

namespace DramPhy

structure Settings where
  phyType : String
  memoryType : String
  databits : Nat
  /-- Data bits of a phase, both beats. -/
  phaseDatabits : Nat
  ranks : Nat
  phases : Nat
  commandDelay : Option Nat
  timing : Timing
  deriving DecidableEq

/-- The settings of the PHY that a configuration asks for. The width is checked
before the timing. -/
def PhyConfig.settings (c : PhyConfig) (table : CasTable) : Buildable Settings := do
  c.validate.mapError .rejected
  let timing ← resolveTiming table c.timingRequest
  return {
    phyType := c.phyType
    memoryType := "LPDDR4"
    databits := c.databits
    phaseDatabits := 2 * c.databits
    ranks := 1
    phases := phasesPerCycle
    commandDelay := c.commandDelay
    timing }

end DramPhy
