import DramPhy.BuildError
import DramPhy.Pad.Bundle
import DramPhy.Strobe.Pattern
import DramPhy.Timing.Resolution

/-! What a PHY is built from. -/

namespace DramPhy

/-- The widest data bus: the two beats of a phase fill a word. -/
def maxDatabits : Nat := 32

structure PhyConfig where
  /-- The controller clock in Hz. -/
  clock : Nat
  databits : Nat
  /-- Latencies of serializers and deserializers beyond the PHY's pads. -/
  serializer : PhyLatency
  deserializer : PhyLatency
  phyType : String
  /-- Drive the write mask. Without it the mask pads are never driven. -/
  maskedWrite : Bool
  /-- A fixed command delay for the controller to know of. -/
  commandDelay : Option Nat
  commandTicks : Nat
  /-- Keep overlapping commands off the pads. -/
  overlapMasking : Bool
  patterns : StrobePatterns
  /-- What the registers of a half-rate stage hold at first. -/
  serdesReset : Bool
  deriving DecidableEq

def PhyConfig.ofClock (clock : Nat) : PhyConfig where
  clock
  databits := 16
  serializer := Latency.zero phasesPerCycle
  deserializer := Latency.zero phasesPerCycle
  phyType := "LPDDR4PHY"
  maskedWrite := true
  commandDelay := none
  commandTicks := defaultCommandTicks
  overlapMasking := true
  patterns := StrobePatterns.standard
  serdesReset := false

/-- Byte lanes, each with a mask pad and a strobe pad. -/
def PhyConfig.bytes (c : PhyConfig) : Nat := byteLanes c.databits

def PhyConfig.validate (c : PhyConfig) : Except BuildError Unit :=
  if c.databits ≠ 0 ∧ c.databits % 8 = 0 ∧ c.databits ≤ maxDatabits then
    .ok ()
  else
    .error (.invalidWidth c.databits maxDatabits)

def PhyConfig.timingRequest (c : PhyConfig) : TimingRequest :=
  ⟨c.clock, c.serializer, c.deserializer, c.commandTicks⟩

end DramPhy
